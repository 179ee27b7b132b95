import LspCpp.LibJson
import Mathlib.Data.List.Forall2
import Mathlib.Logic.Relation

/-! What a parser makes of JSON texts that are put together from others. `Reads` describes a text in every place
where a value may stand, also a text that is no JSON: then no parse goes through it. The rules follow the ways in which
texts are put together, and the compact text of a value reads as that value with its numbers read again. -/

namespace Json

variable {N : Type*} (format : NumberFormat N)

/-- The parser finds `v` at the front of `input` and leaves `rest`. -/
def Parses (input : List UInt8) (v : Json N) (rest : List UInt8) : Prop :=
  ∃ fuel, parseValue format fuel input = some (v, rest)

def ParsesElements (input : List UInt8) (elements : List (Json N)) (rest : List UInt8) : Prop :=
  ∃ fuel, parseElements format fuel input = some (elements, rest)

def ParsesMembers (input : List UInt8) (members : List (List UInt8 × Json N)) (rest : List UInt8) : Prop :=
  ∃ fuel, parseMembers format fuel input = some (members, rest)

variable {format}

theorem Parses.settled {input rest : List UInt8} {v : Json N} (h : Parses format input v rest) :
    Settled (parseValue format) input (v, rest) := by
  obtain ⟨fuel, h⟩ := h
  exact (settled_of_parse fuel).1 input _ h

theorem ParsesElements.settled {input rest : List UInt8} {elements : List (Json N)}
    (h : ParsesElements format input elements rest) :
    Settled (parseElements format) input (elements, rest) := by
  obtain ⟨fuel, h⟩ := h
  exact (settled_of_parse fuel).2.1 input _ h

theorem ParsesMembers.settled {input rest : List UInt8} {members : List (List UInt8 × Json N)}
    (h : ParsesMembers format input members rest) : Settled (parseMembers format) input (members, rest) := by
  obtain ⟨fuel, h⟩ := h
  exact (settled_of_parse fuel).2.2 input _ h

theorem Parses.unique {input rest rest' : List UInt8} {v v' : Json N} (h : Parses format input v rest)
    (h' : Parses format input v' rest') : v = v' ∧ rest = rest' := by
  have hfuel := h.settled.2 (2 * input.length) (by omega)
  have hfuel' := h'.settled.2 (2 * input.length) (by omega)
  exact Prod.mk.inj (Option.some.inj (hfuel.symm.trans hfuel'))

/-- A text has a value exactly when the parser finds the value and leaves nothing. -/
theorem parse_eq_some_iff {text : List UInt8} {v : Json N} :
    parse format text = some v ↔ Parses format text v [] := by
  constructor
  · intro h
    rw [parse] at h
    split at h
    · rename_i v' hv'
      cases h
      exact ⟨_, hv'⟩
    · cases h
  · intro h
    rw [parse, h.settled.2 (2 * text.length) (by simp)]

theorem parses_iff_succ {input rest : List UInt8} {v : Json N} :
    Parses format input v rest ↔ ∃ fuel, parseValue format (fuel + 1) input = some (v, rest) := by
  constructor
  · rintro ⟨fuel, h⟩
    cases fuel with
    | zero =>
        cases h
    | succ fuel => exact ⟨fuel, h⟩
  · rintro ⟨fuel, h⟩
    exact ⟨fuel + 1, h⟩

theorem not_parses_nil {v : Json N} {rest : List UInt8} : ¬Parses format [] v rest := by
  rw [parses_iff_succ]
  rintro ⟨fuel, h⟩
  cases h

theorem parses_emptyArray_iff {rest r : List UInt8} (h : rest.head? = some 93) {v : Json N} :
    Parses format (91 :: rest) v r ↔ v = .array [] ∧ r = rest.tail := by
  simp only [parses_iff_succ, parseValue_emptyArray h, Option.some.injEq, Prod.mk.injEq, exists_const, eq_comm]

theorem parses_emptyObject_iff {rest r : List UInt8} (h : rest.head? = some 125) {v : Json N} :
    Parses format (123 :: rest) v r ↔ v = .object [] ∧ r = rest.tail := by
  simp only [parses_iff_succ, parseValue_emptyObject h, Option.some.injEq, Prod.mk.injEq, exists_const, eq_comm]

theorem parses_array_iff {rest r : List UInt8} (h : rest.head? ≠ some 93) {v : Json N} :
    Parses format (91 :: rest) v r ↔ ∃ elements, ParsesElements format rest elements r ∧ v = .array elements := by
  rw [parses_iff_succ]
  constructor
  · rintro ⟨fuel, hparse⟩
    rw [parseValue_array h] at hparse
    obtain ⟨z, hz, heq⟩ := Option.map_eq_some_iff.mp hparse
    obtain ⟨rfl, rfl⟩ := Prod.mk.inj heq
    exact ⟨z.1, ⟨fuel, hz⟩, rfl⟩
  · rintro ⟨elements, ⟨fuel, helements⟩, rfl⟩
    exact ⟨fuel, by rw [parseValue_array h, helements]; rfl⟩

theorem parses_object_iff {rest r : List UInt8} (h : rest.head? ≠ some 125) {v : Json N} :
    Parses format (123 :: rest) v r ↔ ∃ members, ParsesMembers format rest members r ∧ v = .object members := by
  rw [parses_iff_succ]
  constructor
  · rintro ⟨fuel, hparse⟩
    rw [parseValue_object h] at hparse
    obtain ⟨z, hz, heq⟩ := Option.map_eq_some_iff.mp hparse
    obtain ⟨rfl, rfl⟩ := Prod.mk.inj heq
    exact ⟨z.1, ⟨fuel, hz⟩, rfl⟩
  · rintro ⟨members, ⟨fuel, hmembers⟩, rfl⟩
    exact ⟨fuel, by rw [parseValue_object h, hmembers]; rfl⟩

theorem parses_string_iff {rest r : List UInt8} {v : Json N} :
    Parses format (34 :: rest) v r ↔ ∃ s, parseString rest = some (s, r) ∧ v = .string s := by
  simp only [parses_iff_succ, parseValue_string, exists_const, Option.map_eq_some_iff, Prod.mk.injEq]
  constructor
  · rintro ⟨z, hz, rfl, rfl⟩
    exact ⟨z.1, hz, rfl⟩
  · rintro ⟨s, hs, rfl⟩
    exact ⟨(s, r), hs, rfl, rfl⟩

theorem parses_atom_iff {c : UInt8} {rest r : List UInt8} (harray : c ≠ 91) (hobject : c ≠ 123) (hstring : c ≠ 34)
    {v : Json N} :
    Parses format (c :: rest) v r ↔
      atomOf format ((c :: rest).takeWhile isAtomByte) = some v ∧ r = (c :: rest).dropWhile isAtomByte := by
  simp only [parses_iff_succ, parseValue_atom harray hobject hstring, exists_const, Option.map_eq_some_iff,
    Prod.mk.injEq]
  constructor
  · rintro ⟨v, hv, rfl, rfl⟩
    exact ⟨hv, rfl⟩
  · rintro ⟨hv, rfl⟩
    exact ⟨v, hv, rfl, rfl⟩

theorem parsesElements_iff {input r : List UInt8} {elements : List (Json N)} :
    ParsesElements format input elements r ↔
      ∃ v rest, Parses format input v rest ∧
        (rest = 93 :: r ∧ elements = [v] ∨
          ∃ r' others, rest = 44 :: r' ∧ ParsesElements format r' others r ∧ elements = v :: others) := by
  constructor
  · rintro ⟨fuel, h⟩
    cases fuel with
    | zero =>
        cases h
    | succ fuel =>
        obtain ⟨v, rest, hv, ⟨r', rfl, heq⟩ | ⟨r', z, rfl, hz, heq⟩⟩ := (parseElements_iff fuel input _).mp h
        · obtain ⟨rfl, rfl⟩ := Prod.mk.inj heq
          exact ⟨v, _, ⟨fuel, hv⟩, .inl ⟨rfl, rfl⟩⟩
        · obtain ⟨rfl, rfl⟩ := Prod.mk.inj heq
          exact ⟨v, _, ⟨fuel, hv⟩, .inr ⟨r', z.1, rfl, ⟨fuel, hz⟩, rfl⟩⟩
  · rintro ⟨v, rest, hv, ⟨rfl, rfl⟩ | ⟨r', others, rfl, hothers, rfl⟩⟩
    · obtain ⟨fuel, hv⟩ := hv
      exact ⟨fuel + 1, (parseElements_iff fuel input _).mpr ⟨v, _, hv, .inl ⟨r, rfl, rfl⟩⟩⟩
    · refine ⟨2 * input.length + 2 * r'.length + 1, (parseElements_iff _ input _).mpr
        ⟨v, _, hv.settled.2 _ (by omega), .inr ⟨r', (others, r), rfl, hothers.settled.2 _ ?_, rfl⟩⟩⟩
      simp only
      omega

variable (format) in
/-- The parser goes through one member of an object. -/
def ParsesMember (input : List UInt8) (member : List UInt8 × Json N) (r : List UInt8) : Prop :=
  ∃ i key after v, input = 34 :: i ∧ parseString i = some (key, 58 :: after) ∧ Parses format after v r ∧
    member = (key, v)

theorem parsesMembers_iff {input r : List UInt8} {members : List (List UInt8 × Json N)} :
    ParsesMembers format input members r ↔
      ∃ member rest, ParsesMember format input member rest ∧
        (rest = 125 :: r ∧ members = [member] ∨
          ∃ r' others, rest = 44 :: r' ∧ ParsesMembers format r' others r ∧ members = member :: others) := by
  constructor
  · rintro ⟨fuel, h⟩
    cases fuel with
    | zero =>
        cases h
    | succ fuel =>
        obtain ⟨i, key, after, v, rest, rfl, hkey, hv, hrest⟩ := (parseMembers_iff fuel input _).mp h
        refine ⟨(key, v), rest, ⟨i, key, after, v, rfl, hkey, ⟨fuel, hv⟩, rfl⟩, ?_⟩
        obtain ⟨r', rfl, heq⟩ | ⟨r', z, rfl, hz, heq⟩ := hrest
        · obtain ⟨rfl, rfl⟩ := Prod.mk.inj heq
          exact .inl ⟨rfl, rfl⟩
        · obtain ⟨rfl, rfl⟩ := Prod.mk.inj heq
          exact .inr ⟨r', z.1, rfl, ⟨fuel, hz⟩, rfl⟩
  · rintro ⟨_, rest, ⟨i, key, after, v, rfl, hkey, hv, rfl⟩, ⟨rfl, rfl⟩ | ⟨r', others, rfl, hothers, rfl⟩⟩
    · obtain ⟨fuel, hv⟩ := hv
      exact ⟨fuel + 1, (parseMembers_iff fuel _ _).mpr ⟨i, key, after, v, _, rfl, hkey, hv, .inl ⟨r, rfl, rfl⟩⟩⟩
    · refine ⟨2 * after.length + 2 * r'.length + 1, (parseMembers_iff _ _ _).mpr
        ⟨i, key, after, v, _, rfl, hkey, hv.settled.2 _ (by omega),
          .inr ⟨r', (others, r), rfl, hothers.settled.2 _ ?_, rfl⟩⟩⟩
      simp only
      omega

/-! ### Reads -/

/-- What may follow a value: nothing, a comma or a closing bracket or brace. -/
def Delimited (rest : List UInt8) : Prop := ∀ c, rest.head? = some c → c = 44 ∨ c = 93 ∨ c = 125

theorem delimited_nil : Delimited [] := nofun

theorem delimited_cons {c : UInt8} (h : c = 44 ∨ c = 93 ∨ c = 125) (rest : List UInt8) : Delimited (c :: rest) := by
  intro c' hc'
  cases hc'
  exact h

variable (format)

/-- Wherever a value may stand, the parser goes through `text` exactly when it has the value, and gives that. -/
structure Reads (text : List UInt8) (value : Option (Json N)) : Prop where
  head : text.head? ≠ some 93
  parses : ∀ rest, Delimited rest → ∀ v r, Parses format (text ++ rest) v r ↔ value = some v ∧ r = rest

variable {format}

/-- The value of a text as a whole. -/
theorem Reads.parse_eq {text : List UInt8} {value : Option (Json N)} (h : Reads format text value) :
    parse format text = value := by
  have hparses : ∀ v, parse format text = some v ↔ value = some v := by
    intro v
    have hnil := h.parses [] delimited_nil v []
    rw [List.append_nil] at hnil
    rw [parse_eq_some_iff, hnil]
    simp
  cases hvalue : parse format text with
  | some v => exact ((hparses v).mp hvalue).symm
  | none =>
      cases value with
      | none => rfl
      | some v =>
          rw [(hparses v).mpr rfl] at hvalue
          cases hvalue

theorem atomOf_nil : atomOf format [] = (none : Option (Json N)) := by
  simp [atomOf, nullWord, trueWord, falseWord, format.ofLexeme_nil]

theorem takeWhile_of_delimited {rest : List UInt8} (h : Delimited rest) :
    rest.takeWhile isAtomByte = [] ∧ rest.dropWhile isAtomByte = rest := by
  cases rest with
  | nil => exact ⟨rfl, rfl⟩
  | cons c rest =>
      have hc : ¬isAtomByte c = true := by
        rcases h c rfl with rfl | rfl | rfl <;> decide
      exact ⟨List.takeWhile_cons_of_neg hc, List.dropWhile_cons_of_neg hc⟩

/-- No value stands where nothing is written. -/
theorem reads_nil : Reads format [] (none : Option (Json N)) where
  head := by simp
  parses := by
    intro rest hrest v r
    refine iff_of_false ?_ (by simp)
    cases rest with
    | nil => exact not_parses_nil
    | cons c rest =>
        have hc := hrest c rfl
        rw [List.nil_append, parses_atom_iff, (takeWhile_of_delimited hrest).1, atomOf_nil]
        · simp
        all_goals rcases hc with rfl | rfl | rfl <;> decide

/-- Words and numbers. -/
theorem reads_atom {lexeme : List UInt8} (hne : lexeme ≠ []) (hbytes : ∀ b ∈ lexeme, isAtomByte b = true) :
    Reads format lexeme (atomOf format lexeme) := by
  obtain ⟨c, lexeme, rfl⟩ := List.exists_cons_of_ne_nil hne
  have hc := hbytes c (List.mem_cons_self ..)
  have hcases : c ≠ 91 ∧ c ≠ 123 ∧ c ≠ 34 ∧ c ≠ 93 := by
    refine ⟨?_, ?_, ?_, ?_⟩ <;> rintro rfl <;> exact absurd hc (by decide)
  refine ⟨fun h => hcases.2.2.2 (Option.some.inj h), fun rest hrest v r => ?_⟩
  rw [List.cons_append, parses_atom_iff hcases.1 hcases.2.1 hcases.2.2.1, ← List.cons_append,
    List.takeWhile_append_of_pos hbytes, List.dropWhile_append_of_pos hbytes, (takeWhile_of_delimited hrest).1,
    (takeWhile_of_delimited hrest).2, List.append_nil]

theorem hex4_control : ∀ k < 32,
    hex4 48 48 (hexDigit (UInt8.ofNat k / 16)) (hexDigit (UInt8.ofNat k % 16)) = some k ∧
      utf8Encode k = [UInt8.ofNat k] := by
  decide

/-- A byte is written as an escape of one letter, by its code or as itself. -/
theorem escapeByte_cases (c : UInt8) :
    (∃ e, simpleEscape e = some c ∧ 32 ≤ e ∧ escapeByte c = [92, e]) ∨
      (c < 32 ∧ escapeByte c = [92, 117, 48, 48, hexDigit (c / 16), hexDigit (c % 16)]) ∨
        c ≠ 34 ∧ c ≠ 92 ∧ ¬c < 32 ∧ escapeByte c = [c] := by
  by_cases hquote : c = 34
  · exact .inl ⟨34, by rw [hquote]; rfl, by decide, by rw [hquote]; rfl⟩
  by_cases hback : c = 92
  · exact .inl ⟨92, by rw [hback]; rfl, by decide, by rw [hback]; rfl⟩
  by_cases h8 : c = 8
  · exact .inl ⟨98, by rw [h8]; rfl, by decide, by rw [h8]; rfl⟩
  by_cases h9 : c = 9
  · exact .inl ⟨116, by rw [h9]; rfl, by decide, by rw [h9]; rfl⟩
  by_cases h10 : c = 10
  · exact .inl ⟨110, by rw [h10]; rfl, by decide, by rw [h10]; rfl⟩
  by_cases h12 : c = 12
  · exact .inl ⟨102, by rw [h12]; rfl, by decide, by rw [h12]; rfl⟩
  by_cases h13 : c = 13
  · exact .inl ⟨114, by rw [h13]; rfl, by decide, by rw [h13]; rfl⟩
  rw [escapeByte, if_neg hquote, if_neg hback, if_neg h8, if_neg h9, if_neg h10, if_neg h12, if_neg h13]
  split
  · rename_i hcontrol
    exact .inr (.inl ⟨hcontrol, rfl⟩)
  · rename_i hcontrol
    exact .inr (.inr ⟨hquote, hback, hcontrol, rfl⟩)

/-- A byte is read back from the way in which it is written. -/
theorem parseString_escapeByte (c : UInt8) (rest : List UInt8) :
    parseString (escapeByte c ++ rest) = prepend [c] (parseString rest) := by
  rcases escapeByte_cases c with ⟨e, hescape, _, heq⟩ | ⟨hcontrol, heq⟩ | ⟨hquote, hback, hcontrol, heq⟩
  · rw [heq]
    exact parseString_escape hescape rest
  · obtain ⟨hhex, hencode⟩ := hex4_control c.toNat hcontrol
    rw [UInt8.ofNat_toNat] at hhex hencode
    have hrange : c.toNat < 0xD800 ∨ 0xDFFF < c.toNat := .inl (Nat.lt_trans hcontrol (by decide))
    rw [heq]
    exact (parseString_unicode hhex hrange rest).trans (by rw [hencode])
  · rw [heq]
    exact parseString_cons hquote hback hcontrol rest

theorem parseString_stringText (value rest : List UInt8) :
    parseString (value.flatMap escapeByte ++ 34 :: rest) = some (value, rest) := by
  induction value with
  | nil =>
      rw [List.flatMap_nil, List.nil_append, parseString.eq_def]
      rfl
  | cons c value ih =>
      rw [List.flatMap_cons, List.append_assoc, parseString_escapeByte, ih]
      rfl

theorem stringText_append (value rest : List UInt8) :
    stringText value ++ rest = 34 :: (value.flatMap escapeByte ++ 34 :: rest) := by
  simp [stringText]

theorem reads_string (value : List UInt8) : Reads format (stringText value) (some (.string value : Json N)) where
  head := by simp [stringText]
  parses := by
    intro rest _ v r
    rw [stringText_append, parses_string_iff, parseString_stringText]
    constructor
    · rintro ⟨s, hs, rfl⟩
      obtain ⟨rfl, rfl⟩ := Prod.mk.inj (Option.some.inj hs)
      exact ⟨rfl, rfl⟩
    · rintro ⟨hv, rfl⟩
      exact ⟨value, rfl, (Option.some.inj hv).symm⟩

theorem mapM_eq_some_iff {α β : Type*} {f : α → Option β} {as : List α} {bs : List β} :
    as.mapM f = some bs ↔ List.Forall₂ (fun a b => f a = some b) as bs := by
  induction as generalizing bs with
  | nil => cases bs <;> simp
  | cons a as ih =>
      rw [List.mapM_cons]
      cases bs with
      | nil => simp [Option.bind_eq_some_iff]
      | cons b bs => simp [Option.bind_eq_some_iff, ← ih]

theorem exists_of_forall₂ {α β : Type*} {r : α → β → Prop} {as : List α} {bs : List β} (h : List.Forall₂ r as bs)
    {a : α} (ha : a ∈ as) : ∃ b ∈ bs, r a b := by
  induction h with
  | nil => cases ha
  | cons hab _ ih =>
      rcases List.mem_cons.mp ha with rfl | ha
      · exact ⟨_, List.mem_cons_self .., hab⟩
      · obtain ⟨b, hb, hr⟩ := ih ha
        exact ⟨b, List.mem_cons_of_mem _ hb, hr⟩

/-- A parser of pieces that commas separate and `close` ends goes through such a text where it goes through each piece
in front of what may follow it. -/
theorem separated_closeTexts {α : Type*} {close : UInt8} (hclose : close = 93 ∨ close = 125)
    {P : List UInt8 → α → List UInt8 → Prop} {Q : List UInt8 → List α → List UInt8 → Prop}
    (hQ : ∀ input found r, Q input found r ↔ ∃ a rest, P input a rest ∧
      (rest = close :: r ∧ found = [a] ∨ ∃ r' others, rest = 44 :: r' ∧ Q r' others r ∧ found = a :: others))
    {texts : List (List UInt8)} {values : List (Option α)}
    (h : List.Forall₂ (fun text value => ∀ rest, Delimited rest → ∀ a r,
      P (text ++ rest) a r ↔ value = some a ∧ r = rest) texts values)
    (hne : texts ≠ []) (rest : List UInt8) (found : List α) (r : List UInt8) :
    Q (closeTexts close texts ++ rest) found r ↔
      List.Forall₂ (fun value a => value = some a) values found ∧ r = rest := by
  have hcomma : close ≠ 44 := by
    rcases hclose with rfl | rfl <;> decide
  induction h generalizing found with
  | nil => exact absurd rfl hne
  | @cons text value texts values hreads htexts ih =>
      rw [hQ]
      cases htexts with
      | nil =>
          simp only [closeTexts, List.append_assoc, List.singleton_append]
          simp only [hreads (close :: rest) (delimited_cons (.inr hclose) rest)]
          constructor
          · rintro ⟨a, _, ⟨rfl, rfl⟩, ⟨heq, rfl⟩ | ⟨r', others, heq, _⟩⟩
            · exact ⟨.cons rfl .nil, (List.cons.inj heq).2.symm⟩
            · exact absurd (List.cons.inj heq).1 hcomma
          · rintro ⟨hvalues, rfl⟩
            cases hvalues with
            | cons hv hnil =>
                cases hnil
                exact ⟨_, _, ⟨hv, rfl⟩, .inl ⟨rfl, rfl⟩⟩
      | @cons next value' texts values hnext htexts =>
          specialize ih (by simp)
          simp only [closeTexts, List.append_assoc, List.cons_append]
          simp only [hreads _ (delimited_cons (.inl rfl) _)]
          constructor
          · rintro ⟨a, _, ⟨rfl, rfl⟩, ⟨heq, _⟩ | ⟨r', others, heq, hothers, rfl⟩⟩
            · exact absurd (List.cons.inj heq).1.symm hcomma
            · obtain ⟨hvalues, rfl⟩ := (ih others).mp ((List.cons.inj heq).2 ▸ hothers)
              exact ⟨.cons rfl hvalues, rfl⟩
          · rintro ⟨hvalues, rfl⟩
            cases hvalues with
            | @cons _ a _ others hv hothers =>
                exact ⟨a, _, ⟨hv, rfl⟩, .inr ⟨_, others, rfl, (ih others).mpr ⟨hothers, rfl⟩, rfl⟩⟩

/-- The elements of an array text are read where they stand. -/
theorem parsesElements_closeTexts {texts : List (List UInt8)} {values : List (Option (Json N))}
    (h : List.Forall₂ (Reads format) texts values) (hne : texts ≠ []) (rest : List UInt8) (elements : List (Json N))
    (r : List UInt8) :
    ParsesElements format (closeTexts 93 texts ++ rest) elements r ↔
      List.Forall₂ (fun value v => value = some v) values elements ∧ r = rest :=
  separated_closeTexts (.inl rfl) (fun _ _ _ => parsesElements_iff) (h.imp fun _ _ hreads => hreads.parses) hne rest
    elements r

/-- A member whose value could be read. -/
def readMember (member : List UInt8 × Option (Json N)) : Option (List UInt8 × Json N) :=
  member.2.map fun v => (member.1, v)

theorem parsesMember_memberText {key text : List UInt8} {value : Option (Json N)} (h : Reads format text value)
    {rest : List UInt8} (hrest : Delimited rest) (member : List UInt8 × Json N) (r : List UInt8) :
    ParsesMember format (stringText key ++ 58 :: text ++ rest) member r ↔
      readMember (key, value) = some member ∧ r = rest := by
  rw [List.append_assoc, stringText_append]
  constructor
  · rintro ⟨i, key', after, v, hi, hkey, hv, rfl⟩
    obtain rfl := (List.cons.inj hi).2
    rw [parseString_stringText] at hkey
    obtain ⟨rfl, hafter⟩ := Prod.mk.inj (Option.some.inj hkey)
    obtain rfl := (List.cons.inj hafter).2
    obtain ⟨rfl, rfl⟩ := (h.parses rest hrest v r).mp hv
    exact ⟨rfl, rfl⟩
  · rintro ⟨hmember, rfl⟩
    obtain ⟨v, rfl, rfl⟩ := Option.map_eq_some_iff.mp hmember
    exact ⟨_, key, _, v, rfl, parseString_stringText key _, (h.parses r hrest v r).mpr ⟨rfl, rfl⟩, rfl⟩

/-- The members of an object text are read where they stand. -/
theorem parsesMembers_closeTexts {members : List (List UInt8 × List UInt8)}
    {values : List (List UInt8 × Option (Json N))}
    (h : List.Forall₂ (fun m value => m.1 = value.1 ∧ Reads format m.2 value.2) members values) (hne : members ≠ [])
    (rest : List UInt8) (found : List (List UInt8 × Json N)) (r : List UInt8) :
    ParsesMembers format (closeTexts 125 (members.map fun m => stringText m.1 ++ 58 :: m.2) ++ rest) found r ↔
      List.Forall₂ (fun value m => readMember value = some m) values found ∧ r = rest := by
  have hvalues : List.Forall₂ (fun value m => value = some m) (values.map readMember) found ↔
      List.Forall₂ (fun value m => readMember value = some m) values found := List.forall₂_map_left_iff
  rw [← hvalues]
  refine separated_closeTexts (.inr rfl) (fun _ _ _ => parsesMembers_iff) ?_ (by simpa using hne) rest found r
  rw [List.forall₂_map_left_iff, List.forall₂_map_right_iff]
  refine h.imp fun m value hmember rest hrest member r => ?_
  rw [hmember.1]
  exact parsesMember_memberText hmember.2 hrest member r

theorem head?_closeTexts {texts : List (List UInt8)} (hne : texts ≠ []) (hhole : texts ≠ [[]])
    (hhead : ∀ text ∈ texts, text.head? ≠ some 93) (rest : List UInt8) :
    (closeTexts 93 texts ++ rest).head? ≠ some 93 := by
  obtain ⟨text, texts, rfl⟩ := List.exists_cons_of_ne_nil hne
  have htext := hhead text (List.mem_cons_self ..)
  cases text with
  | cons c text =>
      cases texts with
      | nil => simpa [closeTexts] using htext
      | cons next texts => simpa [closeTexts] using htext
  | nil =>
      cases texts with
      | nil => exact absurd rfl hhole
      | cons next texts => simp [closeTexts]

theorem reads_emptyArray : Reads format [91, 93] (some (.array [] : Json N)) where
  head := by simp
  parses := by
    intro rest _ v r
    rw [List.cons_append, parses_emptyArray_iff rfl]
    simp [eq_comm]

/-- An array text, unless its only element is an empty text, reads as the array of what its elements read as. -/
theorem reads_array {texts : List (List UInt8)} {values : List (Option (Json N))}
    (h : List.Forall₂ (Reads format) texts values) (hhole : texts ≠ [[]]) :
    Reads format (arrayText texts) ((values.mapM id).map .array) := by
  by_cases hne : texts = []
  · subst hne
    cases h
    exact reads_emptyArray
  refine ⟨by simp [arrayText], fun rest _ v r => ?_⟩
  have hhead : ∀ text ∈ texts, text.head? ≠ some 93 := by
    intro text htext
    obtain ⟨value, _, hreads⟩ := exists_of_forall₂ h htext
    exact hreads.head
  rw [arrayText, List.cons_append, parses_array_iff (head?_closeTexts hne hhole hhead rest)]
  simp only [parsesElements_closeTexts h hne, Option.map_eq_some_iff, mapM_eq_some_iff, id]
  constructor
  · rintro ⟨elements, ⟨hvalues, rfl⟩, rfl⟩
    exact ⟨⟨elements, hvalues, rfl⟩, rfl⟩
  · rintro ⟨⟨elements, hvalues, rfl⟩, rfl⟩
    exact ⟨elements, ⟨hvalues, rfl⟩, rfl⟩

/-- An object text reads as the object of what its members read as. -/
theorem reads_object {members : List (List UInt8 × List UInt8)} {values : List (List UInt8 × Option (Json N))}
    (h : List.Forall₂ (fun m value => m.1 = value.1 ∧ Reads format m.2 value.2) members values) :
    Reads format (objectText members) ((values.mapM readMember).map .object) := by
  refine ⟨by simp [objectText], fun rest _ v r => ?_⟩
  rw [objectText, List.cons_append]
  by_cases hne : members = []
  · subst hne
    cases h
    rw [parses_emptyObject_iff rfl]
    simp [eq_comm, closeTexts]
  have hhead : (closeTexts 125 (members.map fun m => stringText m.1 ++ 58 :: m.2) ++ rest).head? ≠ some 125 := by
    obtain ⟨m, members, rfl⟩ := List.exists_cons_of_ne_nil hne
    cases members <;> simp [closeTexts, stringText]
  rw [parses_object_iff hhead]
  simp only [parsesMembers_closeTexts h hne, Option.map_eq_some_iff, mapM_eq_some_iff]
  constructor
  · rintro ⟨found, ⟨hvalues, rfl⟩, rfl⟩
    exact ⟨⟨found, hvalues, rfl⟩, rfl⟩
  · rintro ⟨⟨found, hvalues, rfl⟩, rfl⟩
    exact ⟨found, ⟨hvalues, rfl⟩, rfl⟩

theorem NumberFormat.ofLexeme_lexeme (n : N) : format.ofLexeme (format.lexeme n) = some (format.reread n) :=
  (Option.some_get _).symm

theorem NumberFormat.reread_eq_self_iff (n : N) :
    format.reread n = n ↔ format.ofLexeme (format.lexeme n) = some n := by
  rw [ofLexeme_lexeme, Option.some.injEq]

theorem lexeme_ne_nil (n : N) : format.lexeme n ≠ [] := by
  obtain ⟨b, hhead, -⟩ := format.head?_lexeme n
  intro hnil
  rw [hnil] at hhead
  cases hhead

theorem atomOf_lexeme (n : N) : atomOf format (format.lexeme n) = some (.number (format.reread n)) := by
  obtain ⟨b, hhead, hb⟩ := format.head?_lexeme n
  have hword : ∀ word : List UInt8, (∃ c, word.head? = some c ∧ 97 ≤ c) → format.lexeme n ≠ word := by
    rintro word ⟨c, hc, hle⟩ rfl
    obtain rfl := Option.some.inj (hhead.symm.trans hc)
    simp only [UInt8.le_iff_toNat_le, UInt8.reduceToNat] at hb hle
    rcases hb with rfl | hb
    · exact absurd hle (by decide)
    · omega
  rw [atomOf, if_neg (hword _ ⟨110, rfl, by decide⟩), if_neg (hword _ ⟨116, rfl, by decide⟩),
    if_neg (hword _ ⟨102, rfl, by decide⟩), NumberFormat.ofLexeme_lexeme]
  rfl

theorem reads_number (n : N) : Reads format (format.lexeme n) (some (.number (format.reread n))) := by
  rw [← atomOf_lexeme n]
  exact reads_atom (lexeme_ne_nil n) (format.isAtomByte_lexeme n)

theorem reads_null : Reads format nullWord (some (.null : Json N)) :=
  reads_atom (by decide) (List.all_eq_true.mp (by decide))

theorem reads_bool (value : Bool) :
    Reads format (if value then trueWord else falseWord) (some (.bool value : Json N)) := by
  cases value
  · have hfalse : Reads format falseWord (atomOf format falseWord) :=
      reads_atom (by decide) (List.all_eq_true.mp (by decide))
    exact hfalse
  · have htrue : Reads format trueWord (atomOf format trueWord) :=
      reads_atom (by decide) (List.all_eq_true.mp (by decide))
    exact htrue

theorem not_reads_nil {v : Json N} : ¬Reads format [] (some v) := fun h => by
  cases reads_nil.parse_eq.symm.trans h.parse_eq

theorem mapM_id_map_some (elements : List (Json N)) : (elements.map some).mapM id = some elements := by
  rw [mapM_eq_some_iff, List.forall₂_map_left_iff, List.forall₂_same]
  exact fun _ _ => rfl

theorem mapM_readMember (members : List (List UInt8 × Json N)) :
    (members.map fun m => (m.1, some m.2)).mapM readMember = some members := by
  rw [mapM_eq_some_iff, List.forall₂_map_left_iff, List.forall₂_same]
  exact fun _ _ => rfl

theorem text_ne_nil (v : Json N) : text format v ≠ [] := by
  cases v with
  | null => exact List.cons_ne_nil _ _
  | bool value => cases value <;> exact List.cons_ne_nil _ _
  | number value => exact lexeme_ne_nil value
  | string value => exact List.cons_ne_nil _ _
  | array elements => exact List.cons_ne_nil _ _
  | object members => exact List.cons_ne_nil _ _

theorem texts_ne_hole (elements : List (Json N)) : texts format elements ≠ [[]] := by
  cases elements with
  | nil => exact nofun
  | cons v rest => exact fun h => text_ne_nil v (List.cons.inj h).1

mutual

/-- The compact text of a value reads as the value, with its numbers read again. -/
theorem reads_text : (v : Json N) → Reads format (text format v) (some (reread format v))
  | .null => reads_null
  | .bool value => reads_bool value
  | .number value => reads_number value
  | .string value => reads_string value
  | .array elements => by
      have hreads := reads_array (reads_texts elements) (texts_ne_hole elements)
      rwa [mapM_id_map_some] at hreads
  | .object members => by
      have hreads := reads_object (reads_memberTexts members)
      rwa [mapM_readMember] at hreads

theorem reads_texts : (elements : List (Json N)) →
    List.Forall₂ (Reads format) (texts format elements) ((rereads format elements).map some)
  | [] => .nil
  | v :: rest => .cons (reads_text v) (reads_texts rest)

theorem reads_memberTexts : (members : List (List UInt8 × Json N)) →
    List.Forall₂ (fun m value => m.1 = value.1 ∧ Reads format m.2 value.2) (memberTexts format members)
      ((rereadMembers format members).map fun m => (m.1, some m.2))
  | [] => .nil
  | m :: rest => .cons (reads_memberText m) (reads_memberTexts rest)

theorem reads_memberText : (m : List UInt8 × Json N) →
    (memberText format m).1 = (rereadMember format m).1 ∧
      Reads format (memberText format m).2 (some (rereadMember format m).2)
  | (_, v) => ⟨rfl, reads_text v⟩

end

mutual

/-- A value is read from its text as it was exactly when each of its numbers is. -/
theorem reread_eq_self_iff : (v : Json N) →
    (reread format v = v ↔ ∀ n ∈ numbers v, format.ofLexeme (format.lexeme n) = some n)
  | .null => iff_of_true rfl nofun
  | .bool _ => iff_of_true rfl nofun
  | .string _ => iff_of_true rfl nofun
  | .number value => by
      rw [reread, numbers, Json.number.injEq, NumberFormat.reread_eq_self_iff, List.forall_mem_singleton]
  | .array elements => by
      rw [reread, numbers, Json.array.injEq]
      exact rereads_eq_self_iff elements
  | .object members => by
      rw [reread, numbers, Json.object.injEq]
      exact rereadMembers_eq_self_iff members

theorem rereads_eq_self_iff : (elements : List (Json N)) →
    (rereads format elements = elements ↔
      ∀ n ∈ numbersOfElements elements, format.ofLexeme (format.lexeme n) = some n)
  | [] => iff_of_true rfl nofun
  | v :: rest => by
      rw [rereads, numbersOfElements, List.cons.injEq, reread_eq_self_iff v, rereads_eq_self_iff rest,
        List.forall_mem_append]

theorem rereadMembers_eq_self_iff : (members : List (List UInt8 × Json N)) →
    (rereadMembers format members = members ↔
      ∀ n ∈ numbersOfMembers members, format.ofLexeme (format.lexeme n) = some n)
  | [] => iff_of_true rfl nofun
  | m :: rest => by
      rw [rereadMembers, numbersOfMembers, List.cons.injEq, rereadMember_eq_self_iff m, rereadMembers_eq_self_iff rest,
        List.forall_mem_append]

theorem rereadMember_eq_self_iff : (m : List UInt8 × Json N) →
    (rereadMember format m = m ↔ ∀ n ∈ numbersOfMember m, format.ofLexeme (format.lexeme n) = some n)
  | (key, v) => by
      rw [rereadMember, numbersOfMember, Prod.mk.injEq, reread_eq_self_iff v]
      exact and_iff_right rfl

end

/-! ### Texts from elsewhere -/

theorem ge_of_isAtomByte {c : UInt8} (h : isAtomByte c = true) : 32 ≤ c := by
  simp only [isAtomByte, Bool.or_eq_true, Bool.and_eq_true, decide_eq_true_eq, beq_iff_eq, UInt8.le_iff_toNat_le,
    UInt8.reduceToNat, ← UInt8.toNat_inj] at h ⊢
  omega

section Used

variable {Next Next' : List UInt8 → Prop} {P Q : List UInt8 → List UInt8 → Prop} {input mid rest : List UInt8}

theorem used_byte (Next : List UInt8 → Prop) {c : UInt8} (hc : 32 ≤ c) (rest : List UInt8) :
    Used Next (fun i r => i = c :: r) (c :: rest) rest :=
  ⟨[c], by simp, by simpa using hc, rfl, fun _ _ => rfl⟩

theorem Used.mono (h : Used Next P input rest) (hnext : ∀ rest, Next' rest → Next rest)
    (hP : ∀ i r, i.head? = input.head? → P i r → Q i r) : Used Next' Q input rest := by
  obtain ⟨front, hne, hbytes, rfl, hfront⟩ := h
  refine ⟨front, hne, hbytes, rfl, fun rest' hrest' => hP _ _ ?_ (hfront rest' (hnext rest' hrest'))⟩
  rw [List.head?_append_of_ne_nil _ hne, List.head?_append_of_ne_nil _ hne]

/-- One after the other: where the second begins the first may end. -/
theorem Used.comp (h : Used Next P input mid) (h' : Used Next' Q mid rest)
    (hnext : ∀ mid', mid'.head? = mid.head? → Next mid') : Used Next' (Relation.Comp P Q) input rest := by
  obtain ⟨front, hne, hbytes, rfl, hfront⟩ := h
  obtain ⟨front', hne', hbytes', rfl, hfront'⟩ := h'
  refine ⟨front ++ front', by simp [hne], ?_, by rw [List.append_assoc], fun rest' hrest' => ?_⟩
  · intro b hb
    exact (List.mem_append.mp hb).elim (hbytes b) (hbytes' b)
  · refine ⟨front' ++ rest', ?_, hfront' rest' hrest'⟩
    rw [List.append_assoc]
    apply hfront
    apply hnext
    rw [List.head?_append_of_ne_nil _ hne', List.head?_append_of_ne_nil _ hne']

theorem delimited_of_head? {c : UInt8} (h : c = 44 ∨ c = 93 ∨ c = 125) {rest rest' : List UInt8}
    (hhead : rest'.head? = (c :: rest).head?) : Delimited rest' := by
  intro c' hc'
  obtain rfl := Option.some.inj (hhead.symm.trans hc')
  exact h

end Used

theorem used_atom (fuel : Nat) {c : UInt8} {rest : List UInt8} {v : Json N} (harray : c ≠ 91) (hobject : c ≠ 123)
    (hstring : c ≠ 34) (h : atomOf format ((c :: rest).takeWhile isAtomByte) = some v) :
    Used Delimited (fun i r => parseValue format (fuel + 1) i = some (v, r)) (c :: rest)
      ((c :: rest).dropWhile isAtomByte) := by
  by_cases hc : isAtomByte c = true
  · refine ⟨(c :: rest).takeWhile isAtomByte, ?_, ?_, List.takeWhile_append_dropWhile.symm, fun rest' hrest' => ?_⟩
    · rw [List.takeWhile_cons_of_pos hc]
      simp
    · intro b hb
      exact ge_of_isAtomByte (List.mem_takeWhile_imp hb)
    · have hall : ∀ b ∈ (c :: rest).takeWhile isAtomByte, isAtomByte b = true := fun b => List.mem_takeWhile_imp
      have htake : ((c :: rest).takeWhile isAtomByte ++ rest').takeWhile isAtomByte =
          (c :: rest).takeWhile isAtomByte := by
        rw [List.takeWhile_append_of_pos hall, (takeWhile_of_delimited hrest').1, List.append_nil]
      have hdrop : ((c :: rest).takeWhile isAtomByte ++ rest').dropWhile isAtomByte = rest' := by
        rw [List.dropWhile_append_of_pos hall, (takeWhile_of_delimited hrest').2]
      rw [List.takeWhile_cons_of_pos hc, List.cons_append] at htake hdrop ⊢
      beta_reduce
      rw [parseValue_atom harray hobject hstring, htake, hdrop, ← List.takeWhile_cons_of_pos hc, h]
      rfl
  · rw [List.takeWhile_cons_of_neg hc, atomOf_nil] at h
    cases h

/-- The quotation mark, the key, the colon and the value of a member are used up before what follows them. -/
theorem used_member {fuel : Nat} {i key r : List UInt8} {v : Json N} {mid rest : List UInt8}
    {Q R : List UInt8 → List UInt8 → Prop} (hkey : parseString i = some (key, 58 :: r))
    (hvalue : Used Delimited (fun i r => parseValue format fuel i = some (v, r)) r mid) (hQ : Used Delimited Q mid rest)
    (hmid : ∀ mid', mid'.head? = mid.head? → Delimited mid')
    (hR : ∀ i j m r, parseString i = some (key, 58 :: j) → parseValue format fuel j = some (v, m) → Q m r →
      R (34 :: i) r) :
    Used Delimited R (34 :: i) rest := by
  have hcolon : Used Delimited (Relation.Comp (fun i r => i = 58 :: r)
      (Relation.Comp (fun i r => parseValue format fuel i = some (v, r)) Q)) (58 :: r) rest :=
    (used_byte (fun _ => True) (by decide) r).comp (hvalue.comp hQ hmid) fun _ _ => trivial
  refine ((used_byte (fun _ => True) (by decide) i).comp ((used_parseString hkey).comp hcolon fun _ _ => trivial)
    fun _ _ => trivial).mono (fun _ h => h) ?_
  rintro _ r - ⟨i, rfl, _, hi, j, rfl, m, hj, hm⟩
  exact hR i j m r hi hj hm

/-- What follows a value does not change it. -/
theorem used_of_parse (fuel : Nat) :
    (∀ input y, parseValue format fuel input = some y →
        Used Delimited (fun i r => parseValue format fuel i = some (y.1, r)) input y.2) ∧
      (∀ input y, parseElements format fuel input = some y →
        Used Delimited (fun i r => parseElements format fuel i = some (y.1, r)) input y.2) ∧
      ∀ input y, parseMembers format fuel input = some y →
        Used Delimited (fun i r => parseMembers format fuel i = some (y.1, r)) input y.2 := by
  apply parser_induction
    (V := fun fuel input y => Used Delimited (fun i r => parseValue format fuel i = some (y.1, r)) input y.2)
    (E := fun fuel input y => Used Delimited (fun i r => parseElements format fuel i = some (y.1, r)) input y.2)
    (M := fun fuel input y => Used Delimited (fun i r => parseMembers format fuel i = some (y.1, r)) input y.2)
  case emptyArray =>
      intro fuel rest
      exact ⟨[91, 93], by simp, by simp, rfl, fun rest' _ => parseValue_emptyArray rfl fuel⟩
  case array =>
      intro fuel rest z hclose h
      have helements : Used Delimited
          (fun i r => i.head? ≠ some 93 ∧ parseElements format fuel i = some (z.1, r)) rest z.2 :=
        h.mono (fun _ h => h) fun i r hhead hi => ⟨hhead ▸ hclose, hi⟩
      refine ((used_byte (fun _ => True) (by decide) rest).comp helements (fun _ _ => trivial)).mono
        (fun _ h => h) ?_
      rintro _ r - ⟨i, rfl, hhead, hi⟩
      rw [parseValue_array hhead, hi]
      rfl
  case emptyObject =>
      intro fuel rest
      exact ⟨[123, 125], by simp, by simp, rfl, fun rest' _ => parseValue_emptyObject rfl fuel⟩
  case object =>
      intro fuel rest z hclose h
      have hmembers : Used Delimited
          (fun i r => i.head? ≠ some 125 ∧ parseMembers format fuel i = some (z.1, r)) rest z.2 :=
        h.mono (fun _ h => h) fun i r hhead hi => ⟨hhead ▸ hclose, hi⟩
      refine ((used_byte (fun _ => True) (by decide) rest).comp hmembers (fun _ _ => trivial)).mono
        (fun _ h => h) ?_
      rintro _ r - ⟨i, rfl, hhead, hi⟩
      rw [parseValue_object hhead, hi]
      rfl
  case string =>
      intro fuel rest z hz
      refine ((used_byte (fun _ => True) (by decide) rest).comp (used_parseString hz)
        (fun _ _ => trivial)).mono (fun _ _ => trivial) ?_
      rintro _ r - ⟨i, rfl, hi⟩
      rw [parseValue_string, hi]
      rfl
  case atom =>
      intro fuel c rest v harray hobject hstring hv
      exact used_atom fuel harray hobject hstring hv
  case lastElement =>
      intro fuel input v r h
      refine (h.comp (used_byte Delimited (by decide) r) fun _ => delimited_of_head? (by decide)).mono
        (fun _ h => h) ?_
      rintro i r - ⟨_, hi, rfl⟩
      exact (parseElements_iff fuel i _).mpr ⟨v, _, hi, .inl ⟨r, rfl, rfl⟩⟩
  case nextElement =>
      intro fuel input v r z h h'
      refine (h.comp ((used_byte (fun _ => True) (by decide) r).comp h' fun _ _ => trivial)
        fun _ => delimited_of_head? (by decide)).mono (fun _ h => h) ?_
      rintro i r - ⟨_, hi, i', rfl, hi'⟩
      exact (parseElements_iff fuel i _).mpr ⟨v, _, hi, .inr ⟨i', _, rfl, hi', rfl⟩⟩
  case lastMember =>
      intro fuel i key r v r' hkey h
      refine used_member hkey h (used_byte Delimited (by decide) r') (fun _ => delimited_of_head? (by decide)) ?_
      rintro i j _ r hi hj rfl
      exact (parseMembers_iff fuel _ _).mpr ⟨i, key, j, v, _, rfl, hi, hj, .inl ⟨r, rfl, rfl⟩⟩
  case nextMember =>
      intro fuel i key r v r' z hkey h h'
      refine used_member hkey h ((used_byte (fun _ => True) (by decide) r').comp h' fun _ _ => trivial)
        (fun _ => delimited_of_head? (by decide)) ?_
      rintro i j _ r hi hj ⟨i', rfl, hi'⟩
      exact (parseMembers_iff fuel _ _).mpr ⟨i, key, j, v, _, rfl, hi, hj, .inr ⟨i', _, rfl, hi', rfl⟩⟩

/-- A text that has a value has it in every place where a value may stand. -/
theorem reads_of_parse {text : List UInt8} {v : Json N} (h : parse format text = some v) :
    Reads format text (some v) := by
  obtain ⟨fuel, hfuel⟩ := parse_eq_some_iff.mp h
  obtain ⟨front, _, _, heq, hfront⟩ := (used_of_parse fuel).1 text _ hfuel
  obtain rfl : text = front := heq.trans (List.append_nil front)
  refine ⟨fun hhead => ?_, fun rest hrest v' r => ?_⟩
  · obtain ⟨rest, rfl⟩ : ∃ r, text = 93 :: r := ⟨text.tail, List.eq_cons_of_mem_head? hhead⟩
    have hatom := ((parses_atom_iff (by decide) (by decide) (by decide)).mp ⟨fuel, hfuel⟩).1
    rw [List.takeWhile_cons_of_neg (by decide), atomOf_nil] at hatom
    cases hatom
  · have hparses : Parses format (text ++ rest) v rest := ⟨fuel, hfront rest hrest⟩
    constructor
    · intro h'
      obtain ⟨rfl, rfl⟩ := hparses.unique h'
      exact ⟨rfl, rfl⟩
    · rintro ⟨hv, rfl⟩
      exact Option.some.inj hv ▸ hparses

/-- No byte of the text is a control byte. -/
def Printable (text : List UInt8) : Prop := ∀ b ∈ text, 32 ≤ b

/-- A text that has a value holds no control bytes. -/
theorem printable_of_parse {text : List UInt8} {v : Json N} (h : parse format text = some v) : Printable text := by
  obtain ⟨fuel, hfuel⟩ := parse_eq_some_iff.mp h
  obtain ⟨front, _, hbytes, heq, _⟩ := (used_of_parse fuel).1 text _ hfuel
  rwa [heq.trans (List.append_nil front)]

theorem Printable.append {text text' : List UInt8} (h : Printable text) (h' : Printable text') :
    Printable (text ++ text') :=
  fun b hb => (List.mem_append.mp hb).elim (h b) (h' b)

theorem Printable.cons {c : UInt8} {text : List UInt8} (h : Printable text) (hc : 32 ≤ c) : Printable (c :: text) :=
  fun b hb => (List.mem_cons.mp hb).elim (fun heq => heq ▸ hc) (h b)

theorem printable_nil : Printable [] := nofun

theorem hexDigit_printable : ∀ k < 32,
    32 ≤ hexDigit (UInt8.ofNat k / 16) ∧ 32 ≤ hexDigit (UInt8.ofNat k % 16) := by
  decide

theorem printable_escapeByte (c : UInt8) : Printable (escapeByte c) := by
  rcases escapeByte_cases c with ⟨e, _, he, heq⟩ | ⟨hcontrol, heq⟩ | ⟨_, _, hcontrol, heq⟩
  · rw [heq]
    exact (printable_nil.cons he).cons (by decide)
  · obtain ⟨hhigh, hlow⟩ := hexDigit_printable c.toNat hcontrol
    rw [UInt8.ofNat_toNat] at hhigh hlow
    have hdigits : Printable [hexDigit (c / 16), hexDigit (c % 16)] := (printable_nil.cons hlow).cons hhigh
    have hstart : Printable [92, 117, 48, 48] :=
      (((printable_nil.cons (by decide)).cons (by decide)).cons (by decide)).cons (by decide)
    rw [heq]
    exact hstart.append hdigits
  · rw [heq]
    exact printable_nil.cons (UInt8.not_lt.mp hcontrol)

theorem printable_stringText (value : List UInt8) : Printable (stringText value) := by
  refine Printable.cons (Printable.append ?_ (printable_nil.cons (by decide))) (by decide)
  intro b hb
  obtain ⟨c, _, hc⟩ := List.mem_flatMap.mp hb
  exact printable_escapeByte c b hc

theorem printable_closeTexts {close : UInt8} (hclose : 32 ≤ close) {texts : List (List UInt8)}
    (h : ∀ text ∈ texts, Printable text) : Printable (closeTexts close texts) := by
  fun_induction closeTexts close texts
  case case1 => exact printable_nil.cons hclose
  case case2 text => exact (h text (List.mem_cons_self ..)).append (printable_nil.cons hclose)
  case case3 text next rest ih =>
      have hrest := ih fun text htext => h text (List.mem_cons_of_mem _ htext)
      exact (h text (List.mem_cons_self ..)).append (hrest.cons (by decide))

theorem printable_arrayText {elements : List (List UInt8)} (h : ∀ text ∈ elements, Printable text) :
    Printable (arrayText elements) :=
  (printable_closeTexts (by decide) h).cons (by decide)

theorem printable_objectText {members : List (List UInt8 × List UInt8)} (h : ∀ m ∈ members, Printable m.2) :
    Printable (objectText members) := by
  refine (printable_closeTexts (by decide) fun text htext => ?_).cons (by decide)
  obtain ⟨m, hm, rfl⟩ := List.mem_map.mp htext
  exact (printable_stringText m.1).append ((h m hm).cons (by decide))

theorem printable_of_isAtomByte (text : List UInt8) (h : ∀ b ∈ text, isAtomByte b = true) : Printable text :=
  fun b hb => ge_of_isAtomByte (h b hb)

end Json

import LspCpp.ReflectRoundTrip

/-! Texts of JSON inside of values. An `lsp::Any` is written as it is, so the text around it is as good as its data: it
comes back whole when each of them holds a text, which a default-constructed one does not, and no double of it is read
as another one. -/

namespace LspCpp

variable {R : Type} (real : RealFormat R)

/-- The ways to get an `lsp::Any`. `Set` writes a value that may hold others. -/
inductive LspAny.Obtained : LspAny → Prop where
  | initial : Obtained {}
  | set (any : LspAny) (type : ReflectType) (value : type.Value)
      (leaves : ∀ leaf ∈ type.leaves value, Obtained leaf) : Obtained (any.setData (type.reflectWriter value))
  | setJsonString (any : LspAny) (data : Bytes) (m : JsonDocument R)
      (text : Json.parse real.numbers data = some m) : Obtained (any.setJsonString data)
  | reflectReader (any : LspAny) (reader : JsonReader R) : Obtained (any.setJsonString (reader.toString real))

theorem printable_integerLexeme (value : JsonInteger) : Json.Printable (integerLexeme value) :=
  Json.printable_of_isAtomByte _ (isAtomByte_integerLexeme value)

mutual

/-- Control bytes come only from the data of an `lsp::Any`. -/
theorem ReflectType.printable_reflectWriter : (type : ReflectType) → (value : type.Value) →
    (∀ any ∈ type.leaves value, Json.Printable any.data) → Json.Printable (type.reflectWriter value)
  | .bool _ => fun (value : Bool) _ =>
      match value with
      | true => Json.printable_of_isAtomByte Json.trueWord (List.all_eq_true.mp (by decide))
      | false => Json.printable_of_isAtomByte Json.falseWord (List.all_eq_true.mp (by decide))
  | .integer _ _ => fun value _ => printable_integerLexeme (IntegerType.toJson value)
  | .string _ => fun value _ => Json.printable_stringText value
  | .any => fun value h => h value (List.mem_singleton_self _)
  | .optional inner => fun (value : Option inner.Value) h =>
      match value, h with
      | none, _ => Json.printable_of_isAtomByte Json.nullWord (List.all_eq_true.mp (by decide))
      | some value, h => inner.printable_reflectWriter value h
  | .vector inner => fun (values : List inner.Value) h => by
      rw [reflectWriter_vector]
      apply Json.printable_arrayText
      intro text htext
      obtain ⟨value, hvalue, rfl⟩ := List.mem_map.mp htext
      exact inner.printable_reflectWriter value fun any hany => h any (List.mem_flatMap.mpr ⟨value, hvalue, hany⟩)
  | .map inner => fun (value : SortedMap Bytes inner.Value) h => by
      rw [reflectWriter_map]
      apply Json.printable_objectText
      intro m hm
      obtain ⟨it, hit, rfl⟩ := List.mem_map.mp hm
      exact inner.printable_reflectWriter it.2 fun any hany => h any (List.mem_flatMap.mpr ⟨it, hit, hany⟩)
  | .struct members => fun value h => Json.printable_objectText (members.printable_reflectWriter value h)

theorem ReflectMembers.printable_reflectWriter : (members : ReflectMembers) → (values : members.Values) →
    (∀ any ∈ members.leaves values, Json.Printable any.data) →
    ∀ m ∈ members.reflectWriter values, Json.Printable m.2
  | .nil => fun _ _ _ hm => nomatch hm
  | .cons name type rest => fun (value, values) h m hm => by
      have hrest := rest.printable_reflectWriter values fun any hany => h any (List.mem_append_right _ hany)
      rw [ReflectMembers.reflectWriter] at hm
      split_ifs at hm
      · exact hrest m hm
      · rcases List.mem_cons.mp hm with rfl | hm
        · exact type.printable_reflectWriter value fun any hany => h any (List.mem_append_left _ hany)
        · exact hrest m hm

end

theorem cStr_of_printable {text : Bytes} (h : Json.Printable text) : cStr text = text :=
  cStr_eq_self fun h0 => absurd (h 0 h0) (by decide)

theorem parse_text (m : JsonDocument R) :
    Json.parse real.numbers (Json.text real.numbers m) = some (Json.reread real.numbers m) :=
  (Json.reads_text m).parse_eq

theorem printable_text (m : JsonDocument R) : Json.Printable (Json.text real.numbers m) :=
  Json.printable_of_parse (parse_text real m)

theorem parse_cStr_text (m : JsonDocument R) :
    Json.parse real.numbers (cStr (Json.text real.numbers m)) = some (Json.reread real.numbers m) := by
  rw [cStr_of_printable (printable_text real m), parse_text]

/-- However it was obtained, an `lsp::Any` holds a text that has its value everywhere, or has none anywhere. -/
theorem LspAny.Obtained.placed {any : LspAny} (h : any.Obtained real) :
    any.Placed real ∧ Json.Printable any.data := by
  induction h with
  | initial =>
      have hnil : Json.Reads real.numbers [] none := Json.reads_nil
      refine ⟨?_, Json.printable_nil⟩
      rw [Placed, hnil.parse_eq]
      exact hnil
  | set any type value _ ih =>
      have hprintable := type.printable_reflectWriter value fun leaf hleaf => (ih leaf hleaf).2
      have hreads := type.reads_reflectWriter real value fun leaf hleaf => (ih leaf hleaf).1
      rw [Placed, setData, cStr_of_printable hprintable, hreads.parse_eq]
      exact ⟨hreads, hprintable⟩
  | setJsonString any data m htext =>
      refine ⟨?_, Json.printable_of_parse htext⟩
      rw [Placed, LspAny.setJsonString, htext]
      exact Json.reads_of_parse htext
  | reflectReader any reader =>
      rw [Placed, LspAny.setJsonString, JsonReader.toString, parse_cStr_text,
        cStr_of_printable (printable_text real reader.m)]
      exact ⟨Json.reads_text reader.m, printable_text real reader.m⟩

/-- The value of an `lsp::Any`: that of its text, and `null` for a default-constructed one. -/
def LspAny.json (any : LspAny) : Option (JsonDocument R) :=
  if any.data = [] then some .null else Json.parse real.numbers any.data

mutual

/-- The second value has, at the place of each `lsp::Any` of the first, one with data of the same value. -/
def ReflectType.SameLeaves : (type : ReflectType) → type.Value → type.Value → Prop
  | .any, value, value' =>
      ∃ m, LspAny.json real value = some m ∧ Json.parse real.numbers (LspAny.data value') = some m
  | .optional inner, value, value' => Option.Rel inner.SameLeaves value value'
  | .vector inner, values, values' => List.Forall₂ inner.SameLeaves values values'
  | .map inner, value, value' =>
      List.Forall₂ (fun it it' => it.1 = it'.1 ∧ inner.SameLeaves it.2 it'.2) (SortedMap.entries value)
        (SortedMap.entries value')
  | .struct members, value, value' => members.SameLeaves value value'
  | .bool _, _, _ => True
  | .integer _ _, _, _ => True
  | .string _, _, _ => True

def ReflectMembers.SameLeaves : (members : ReflectMembers) → members.Values → members.Values → Prop
  | .nil, _, _ => True
  | .cons _ type rest, (value, values), (value', values') =>
      type.SameLeaves value value' ∧ rest.SameLeaves values values'

end

/-- The text that is written is JSON, and reading it gives every `lsp::Any` back. -/
def ReflectType.Delivers (type : ReflectType) (value : type.Value) : Prop :=
  ∃ m value' reader, Json.parse real.numbers (type.reflectWriter value) = some m ∧
    type.reflectReader real type.initial ⟨m, []⟩ = .ok (value', reader) ∧ type.SameLeaves real value value'

/-- An `lsp::Any` whose text is `null`. -/
def ReflectType.IsNullData : (type : ReflectType) → type.Value → Prop
  | .any, value => Json.parse real.numbers (LspAny.data value) = some .null
  | _, _ => False

mutual

/-- The places of the value are there after the read: no key ends early, and no optional value reads as none. -/
def ReflectType.Kept : (type : ReflectType) → type.Value → Prop
  | .optional inner, value =>
      match (value : Option inner.Value) with
      | some value => ¬inner.IsNullData real value ∧ inner.Kept value
      | none => True
  | .vector inner, values => List.Forall inner.Kept values
  | .map inner, value => ∀ it ∈ SortedMap.entries value, NulFree it.1 ∧ inner.Kept it.2
  | .struct members, value => members.Kept value
  | .any, _ => True
  | .bool _, _ => True
  | .integer _ _, _ => True
  | .string _, _ => True

def ReflectMembers.Kept : (members : ReflectMembers) → members.Values → Prop
  | .nil, _ => True
  | .cons _ type rest, (value, values) => type.Kept value ∧ rest.Kept values

end

/-- The data of an `lsp::Any` is a text of JSON. -/
def LspAny.HasText (any : LspAny) : Prop := ∃ m, Json.parse real.numbers any.data = some m

/-- Each double in the text of an `lsp::Any` is read back from what is written for it. -/
def LspAny.RealsReread (any : LspAny) : Prop :=
  ∀ m, Json.parse real.numbers any.data = some m →
    ∀ r, .real r ∈ m.numbers → real.ofLexeme (real.lexeme r) = some r

theorem realsReread_iff {any : LspAny} {m : JsonDocument R} (h : Json.parse real.numbers any.data = some m) :
    any.RealsReread real ↔ Json.reread real.numbers m = m := by
  rw [Json.reread_eq_self_iff, ofLexeme_numbers_iff, LspAny.RealsReread, h]
  simp only [Option.some.injEq, forall_eq']

theorem isNullData_iff : {type : ReflectType} → type.isOptional = false → {value : type.Value} →
    (type.IsNullData real value ↔ type.jsonOf real value = some .null)
  | .any, _, _ => Iff.rfl
  | .optional _, h, _ => nomatch h
  | .bool b, h, _ => iff_of_false id (ReflectType.jsonOf_ne_null real (.bool b) h rfl _)
  | .integer t i, h, _ => iff_of_false id (ReflectType.jsonOf_ne_null real (.integer t i) h rfl _)
  | .string s, h, _ => iff_of_false id (ReflectType.jsonOf_ne_null real (.string s) h rfl _)
  | .vector t, h, _ => iff_of_false id (ReflectType.jsonOf_ne_null real (.vector t) h rfl _)
  | .map t, h, _ => iff_of_false id (ReflectType.jsonOf_ne_null real (.map t) h rfl _)
  | .struct m, h, _ => iff_of_false id (ReflectType.jsonOf_ne_null real (.struct m) h rfl _)

theorem json_of_hasText {any : LspAny} {m : JsonDocument R} (h : Json.parse real.numbers any.data = some m) :
    LspAny.json real any = some m := by
  have hne : any.data ≠ [] := by
    intro hnil
    rw [hnil, Json.reads_nil.parse_eq] at h
    cases h
  rw [LspAny.json, if_neg hne, h]

/-- A container of texts is not taken for an empty one. -/
theorem map_reflectWriter_ne_hole {inner : ReflectType} {values : List inner.Value}
    (hplaced : ∀ any ∈ ReflectType.leaves (.vector inner) values, any.Placed real)
    (htext : ∀ any ∈ ReflectType.leaves (.vector inner) values, any.HasText real) :
    values.map inner.reflectWriter ≠ [[]] := by
  intro heq
  have hmem : [] ∈ values.map inner.reflectWriter := heq ▸ List.mem_singleton_self []
  obtain ⟨value, hvalue, hnil⟩ := List.mem_map.mp hmem
  have hleaf : ∀ any ∈ inner.leaves value, any ∈ ReflectType.leaves (.vector inner) values := fun any hany =>
    List.mem_flatMap.mpr ⟨value, hvalue, hany⟩
  obtain ⟨m, hm⟩ := inner.exists_jsonOf real value fun any hany => htext any (hleaf any hany)
  have hreads := inner.reads_reflectWriter real value fun any hany => hplaced any (hleaf any hany)
  rw [hnil, hm] at hreads
  exact Json.not_reads_nil hreads

/-- The keys of a map that has none with NUL stay as they are. -/
theorem entries_readBack_map {inner : ReflectType} {value : SortedMap Bytes inner.Value}
    (h : ∀ it ∈ value.entries, NulFree it.1) :
    SortedMap.entries (ReflectType.readBack real (.map inner) value : SortedMap Bytes inner.Value) =
      value.entries.map fun it => (it.1, inner.readBack real it.2) := by
  have hentries : value.entries.map (fun it => (cStr it.1, inner.readBack real it.2)) =
      (value.mapValues (inner.readBack real)).entries :=
    List.map_congr_left fun it hit => by rw [cStr_eq_self (h it hit)]
  rw [readBack_map, hentries, SortedMap.assignAll_entries]
  rfl

mutual

/-- Where all texts are there, and their doubles are read back, they come back. -/
theorem ReflectType.sameLeaves_readBack : (type : ReflectType) → type.WellFormed → (value : type.Value) →
    (∀ any ∈ type.leaves value, any.Placed real) →
    (∀ any ∈ type.leaves value, any.HasText real ∧ any.RealsReread real) →
    type.Kept real value → type.SameLeaves real value (type.readBack real value)
  | .bool _ => fun _ _ _ _ _ => trivial
  | .integer _ _ => fun _ _ _ _ _ => trivial
  | .string _ => fun _ _ _ _ _ => trivial
  | .any => fun _ value _ htext _ => by
      obtain ⟨⟨m, hm⟩, hreals⟩ := htext value (List.mem_singleton_self _)
      have hsame := (realsReread_iff real hm).mp hreals
      refine ⟨m, json_of_hasText real hm, ?_⟩
      simp only [ReflectType.readBack, hm]
      rw [parse_cStr_text, hsame]
  | .optional inner => fun hwf (value : Option inner.Value) hplaced htext hkept =>
      match value, hplaced, htext, hkept with
      | none, _, _, _ => .none
      | some value, hplaced, htext, hkept => by
          obtain ⟨m, hm⟩ := inner.exists_jsonOf real value fun any hany => (htext any hany).1
          have hnull : m ≠ .null := fun h => hkept.1 ((isNullData_iff real hwf.1).mpr (h ▸ hm))
          rw [readBack_some real hnull hm]
          exact .some (inner.sameLeaves_readBack hwf.2 value hplaced htext hkept.2)
  | .vector inner => fun hwf (values : List inner.Value) hplaced htext hkept => by
      have hvalues : ∀ value ∈ values, inner.Kept real value := List.forall_iff_forall_mem.mp hkept
      rw [readBack_vector, if_neg (map_reflectWriter_ne_hole real hplaced fun any hany => (htext any hany).1)]
      apply List.forall₂_map_right_iff.mpr
      apply List.forall₂_same.mpr
      intro value hvalue
      have hleaf : ∀ any ∈ inner.leaves value, any ∈ ReflectType.leaves (.vector inner) values := fun any hany =>
        List.mem_flatMap.mpr ⟨value, hvalue, hany⟩
      exact inner.sameLeaves_readBack hwf value (fun any hany => hplaced any (hleaf any hany))
        (fun any hany => htext any (hleaf any hany)) (hvalues value hvalue)
  | .map inner => fun hwf (value : SortedMap Bytes inner.Value) hplaced htext hkept => by
      change List.Forall₂ _ value.entries
        (SortedMap.entries (ReflectType.readBack real (.map inner) value : SortedMap Bytes inner.Value))
      rw [entries_readBack_map real fun it hit => (hkept it hit).1]
      apply List.forall₂_map_right_iff.mpr
      apply List.forall₂_same.mpr
      intro it hit
      have hleaf : ∀ any ∈ inner.leaves it.2, any ∈ ReflectType.leaves (.map inner) value := fun any hany =>
        List.mem_flatMap.mpr ⟨it, hit, hany⟩
      exact ⟨rfl, inner.sameLeaves_readBack hwf it.2 (fun any hany => hplaced any (hleaf any hany))
        (fun any hany => htext any (hleaf any hany)) (hkept it hit).2⟩
  | .struct members => fun hwf value hplaced htext hkept =>
      members.sameLeaves_readBack hwf.2 value hplaced htext hkept

theorem ReflectMembers.sameLeaves_readBack : (members : ReflectMembers) → members.WellFormed →
    (values : members.Values) → (∀ any ∈ members.leaves values, any.Placed real) →
    (∀ any ∈ members.leaves values, any.HasText real ∧ any.RealsReread real) → members.Kept real values →
    members.SameLeaves real values (members.readBack real values)
  | .nil => fun _ _ _ _ _ => trivial
  | .cons _ type rest => fun hwf (value, values) hplaced htext hkept =>
      ⟨type.sameLeaves_readBack hwf.2.1 value (fun any hany => hplaced any (List.mem_append_left _ hany))
          (fun any hany => htext any (List.mem_append_left _ hany)) hkept.1,
        rest.sameLeaves_readBack hwf.2.2 values (fun any hany => hplaced any (List.mem_append_right _ hany))
          (fun any hany => htext any (List.mem_append_right _ hany)) hkept.2⟩

end

/-- The keys that come back have no NUL. -/
theorem nulFree_of_sameLeaves {inner : ReflectType} {value : SortedMap Bytes inner.Value}
    (h : ReflectType.SameLeaves real (.map inner) value (ReflectType.readBack real (.map inner) value)) :
    ∀ it ∈ value.entries, NulFree it.1 := by
  have hkeys : ∀ it ∈ SortedMap.entries (ReflectType.readBack real (.map inner) value : SortedMap Bytes inner.Value),
      NulFree it.1 := by
    intro it hit
    rw [readBack_map] at hit
    rcases SortedMap.key_of_mem_assignAll hit with hit | hit
    · cases hit
    · obtain ⟨it', _, rfl⟩ := List.mem_map.mp hit
      exact zero_notMem_cStr it'.1
  have hall : List.Forall₂ (fun it it' => it.1 = it'.1 ∧ inner.SameLeaves real it.2 it'.2) value.entries
      (SortedMap.entries (ReflectType.readBack real (.map inner) value : SortedMap Bytes inner.Value)) := h
  intro it hit
  obtain ⟨it', hit', heq, _⟩ := Json.exists_of_forall₂ hall hit
  exact heq ▸ hkeys it' hit'

mutual

/-- What comes back has every text in its place only if they all were there and their doubles are read back. -/
theorem ReflectType.kept_of_sameLeaves : (type : ReflectType) → type.WellFormed → (value : type.Value) →
    (m : JsonDocument R) → type.jsonOf real value = some m →
    type.SameLeaves real value (type.readBack real value) →
    (∀ any ∈ type.leaves value, any.HasText real ∧ any.RealsReread real) ∧ type.Kept real value
  | .bool _ => fun _ _ _ _ _ => ⟨nofun, trivial⟩
  | .integer _ _ => fun _ _ _ _ _ => ⟨nofun, trivial⟩
  | .string _ => fun _ _ _ _ _ => ⟨nofun, trivial⟩
  | .any => fun _ value m hm ⟨m', hvalue, hback⟩ => by
      refine ⟨fun any hany => ?_, trivial⟩
      obtain rfl := List.mem_singleton.mp hany
      have hdata : Json.parse real.numbers any.data = some m := hm
      obtain rfl := Option.some.inj ((json_of_hasText real hdata).symm.trans hvalue)
      simp only [ReflectType.readBack, hdata, parse_cStr_text, Option.some.injEq] at hback
      exact ⟨⟨m, hdata⟩, (realsReread_iff real hdata).mpr hback⟩
  | .optional inner => fun hwf (value : Option inner.Value) m hm hsame =>
      match value, hm, hsame with
      | none, _, _ => ⟨nofun, trivial⟩
      | some value, hm, hsame => by
          have hvalue : inner.jsonOf real value = some m := hm
          by_cases hnull : m = .null
          · rw [readBack_null real (hnull ▸ hvalue)] at hsame
            cases hsame
          · rw [readBack_some real hnull hvalue] at hsame
            cases hsame with
            | some hsame =>
                obtain ⟨htext, hkept⟩ := inner.kept_of_sameLeaves hwf.2 value m hvalue hsame
                refine ⟨htext, fun h => hnull ?_, hkept⟩
                exact Option.some.inj (hvalue.symm.trans ((isNullData_iff real hwf.1).mp h))
  | .vector inner => fun hwf (values : List inner.Value) m hm hsame => by
      rw [jsonOf_vector] at hm
      rw [readBack_vector] at hsame
      split_ifs at hm hsame with hhole
      · have hnil : List.Forall₂ (inner.SameLeaves real) values [] := hsame
        cases hnil
        cases hhole
      · have hall : List.Forall₂ (inner.SameLeaves real) values (values.map (inner.readBack real)) := hsame
        rw [List.forall₂_map_right_iff, List.forall₂_same] at hall
        obtain ⟨entries, hentries, rfl⟩ := Option.map_eq_some_iff.mp hm
        rw [Json.mapM_eq_some_iff, List.forall₂_map_left_iff] at hentries
        have hvalues : ∀ value ∈ values,
            (∀ any ∈ inner.leaves value, any.HasText real ∧ any.RealsReread real) ∧ inner.Kept real value := by
          intro value hvalue
          obtain ⟨m, _, hm⟩ := Json.exists_of_forall₂ hentries hvalue
          exact inner.kept_of_sameLeaves hwf value m hm (hall value hvalue)
        refine ⟨fun any hany => ?_, List.forall_iff_forall_mem.mpr fun value hvalue => (hvalues value hvalue).2⟩
        obtain ⟨value, hvalue, hany⟩ := List.mem_flatMap.mp hany
        exact (hvalues value hvalue).1 any hany
  | .map inner => fun hwf (value : SortedMap Bytes inner.Value) m hm hsame => by
      have hkeys := nulFree_of_sameLeaves real hsame
      have hall : List.Forall₂ (fun it it' => it.1 = it'.1 ∧ inner.SameLeaves real it.2 it'.2) value.entries
          (SortedMap.entries (ReflectType.readBack real (.map inner) value : SortedMap Bytes inner.Value)) := hsame
      rw [entries_readBack_map real hkeys, List.forall₂_map_right_iff, List.forall₂_same] at hall
      rw [jsonOf_map] at hm
      obtain ⟨members, hmembers, rfl⟩ := Option.map_eq_some_iff.mp hm
      rw [Json.mapM_eq_some_iff, List.forall₂_map_left_iff] at hmembers
      have hentries : ∀ it ∈ value.entries,
          (∀ any ∈ inner.leaves it.2, any.HasText real ∧ any.RealsReread real) ∧ inner.Kept real it.2 := by
        intro it hit
        obtain ⟨e, _, he⟩ := Json.exists_of_forall₂ hmembers hit
        obtain ⟨m, hm, _⟩ := Option.map_eq_some_iff.mp he
        exact inner.kept_of_sameLeaves hwf it.2 m hm (hall it hit).2
      refine ⟨fun any hany => ?_, fun it hit => ⟨hkeys it hit, (hentries it hit).2⟩⟩
      obtain ⟨it, hit, hany⟩ := List.mem_flatMap.mp hany
      exact (hentries it hit).1 any hany
  | .struct members => fun hwf value m hm hsame => by
      obtain ⟨found, hfound, _⟩ := Option.map_eq_some_iff.mp hm
      exact members.kept_of_sameLeaves hwf.2 value found hfound hsame

theorem ReflectMembers.kept_of_sameLeaves : (members : ReflectMembers) → members.WellFormed →
    (values : members.Values) → (found : List (Bytes × JsonDocument R)) →
    (members.jsonOf real values).mapM Json.readMember = some found →
    members.SameLeaves real values (members.readBack real values) →
    (∀ any ∈ members.leaves values, any.HasText real ∧ any.RealsReread real) ∧ members.Kept real values
  | .nil => fun _ _ _ _ _ => ⟨nofun, trivial⟩
  | .cons name type rest => fun hwf (value, values) found hfound hsame => by
      have hboth : (∀ any ∈ type.leaves value, any.HasText real ∧ any.RealsReread real) ∧ type.Kept real value ∧
          (∀ any ∈ rest.leaves values, any.HasText real ∧ any.RealsReread real) ∧ rest.Kept real values := by
        rw [ReflectMembers.jsonOf] at hfound
        split_ifs at hfound with homitted
        · have hnull := (type.of_omitted real value homitted).2
          obtain ⟨htext, hkept⟩ := type.kept_of_sameLeaves hwf.2.1 value .null hnull hsame.1
          exact ⟨htext, hkept, rest.kept_of_sameLeaves hwf.2.2 values found hfound hsame.2⟩
        · rw [Json.mapM_eq_some_iff, List.forall₂_cons_left_iff] at hfound
          obtain ⟨m, found, hmember, hfound, _⟩ := hfound
          obtain ⟨v, hv, _⟩ := Option.map_eq_some_iff.mp hmember
          obtain ⟨htext, hkept⟩ := type.kept_of_sameLeaves hwf.2.1 value v hv hsame.1
          exact ⟨htext, hkept,
            rest.kept_of_sameLeaves hwf.2.2 values found (Json.mapM_eq_some_iff.mpr hfound) hsame.2⟩
      obtain ⟨htext, hkept, htextRest, hkeptRest⟩ := hboth
      exact ⟨fun any hany => (List.mem_append.mp hany).elim (htext any) (htextRest any), hkept, hkeptRest⟩

end

/-- Values whose `lsp::Any` leaves were obtained in one of the four ways are delivered exactly when every leaf has a
text whose doubles are read back from what is written for them, none that is `null` stands in an optional, and no key
has a NUL. -/
theorem anys_delivered_iff (type : ReflectType) (hwf : type.WellFormed) {value : type.Value}
    (hobtained : ∀ any ∈ type.leaves value, any.Obtained real) :
    type.Delivers real value ↔
      (∀ any ∈ type.leaves value, any.HasText real ∧ any.RealsReread real) ∧ type.Kept real value := by
  have hplaced : ∀ any ∈ type.leaves value, any.Placed real := fun any hany => (hobtained any hany).placed.1
  have hparse := (type.reads_reflectWriter real value hplaced).parse_eq
  constructor
  · rintro ⟨m, value', reader, hm, hread, hsame⟩
    rw [hparse] at hm
    rw [type.restores real hwf value m hm []] at hread
    obtain ⟨rfl, _⟩ := Prod.mk.inj (Except.ok.inj hread)
    exact type.kept_of_sameLeaves real hwf value m hm hsame
  · rintro ⟨htext, hkept⟩
    obtain ⟨m, hm⟩ := type.exists_jsonOf real value fun any hany => (htext any hany).1
    exact ⟨m, type.readBack real value, ⟨m, []⟩, hparse.trans hm, type.restores real hwf value m hm [],
      type.sameLeaves_readBack real hwf value hplaced htext hkept⟩

theorem anys_delivered_iff_number :
    (ReflectType.vector .any).Delivers noReals ([LspAny.setJsonString {} [49]] : List LspAny) := by
  have htext : Json.parse noReals.numbers [49] = some (.number (.integer ⟨1, by decide⟩)) := rfl
  refine (anys_delivered_iff noReals (.vector .any) trivial fun any hany => ?_).mpr ⟨fun any hany => ?_, trivial⟩
  · exact List.mem_singleton.mp hany ▸ .setJsonString {} [49] _ htext
  · exact List.mem_singleton.mp hany ▸ ⟨⟨_, htext⟩, fun _ _ r => r.elim⟩

/-- A default-constructed `lsp::Any` as a member leaves `{"a":}`, and as the only element it is lost. -/
theorem initial_any_not_delivered :
    ¬(ReflectType.struct (.cons [97] .any .nil)).Delivers noReals (({} : LspAny), ()) ∧
      ¬(ReflectType.vector .any).Delivers noReals ([{}] : List LspAny) := by
  constructor
  · rintro ⟨m, _, _, hm, _⟩
    have hnone : Json.parse noReals.numbers [123, 34, 97, 34, 58, 125] = none := rfl
    exact nomatch hnone.symm.trans hm
  · rintro ⟨m, value', reader, hm, hread, hsame⟩
    have hempty : Json.parse noReals.numbers [91, 93] = some (.array []) := rfl
    obtain rfl := Option.some.inj (hempty.symm.trans hm)
    obtain ⟨rfl, _⟩ := Prod.mk.inj (Except.ok.inj hread)
    cases hsame

end LspCpp

import Mathlib.Data.List.TakeWhile

/-! JSON values with their compact texts and a parser for these texts. Numbers are given by a format of their own.
A text is put together from the texts of its parts, and `Reads` says of a text, which may be no JSON, what a parser
makes of it in every place where a value may stand. -/

/-- A JSON value; `N` are the numbers. -/
inductive Json (N : Type*) where
  | null
  | bool (value : Bool)
  | number (value : N)
  | string (value : List UInt8)
  | array (elements : List (Json N))
  | object (members : List (List UInt8 × Json N))

namespace Json

/-- The bytes of numbers and of the words `null`, `true` and `false`. -/
def isAtomByte (c : UInt8) : Bool :=
  (48 ≤ c && c ≤ 57) || (65 ≤ c && c ≤ 90) || (97 ≤ c && c ≤ 122) || c == 43 || c == 45 || c == 46

def nullWord : List UInt8 := [110, 117, 108, 108]

def trueWord : List UInt8 := [116, 114, 117, 101]

def falseWord : List UInt8 := [102, 97, 108, 115, 101]

/-- How numbers are written and read. What is written is read as a number, which may be another one. -/
structure NumberFormat (N : Type*) where
  lexeme : N → List UInt8
  ofLexeme : List UInt8 → Option N
  isSome_ofLexeme_lexeme : ∀ n, (ofLexeme (lexeme n)).isSome = true
  ofLexeme_nil : ofLexeme [] = none
  isAtomByte_lexeme : ∀ n, ∀ b ∈ lexeme n, isAtomByte b = true
  head?_lexeme : ∀ n, ∃ b, (lexeme n).head? = some b ∧ (b = 45 ∨ 48 ≤ b ∧ b ≤ 57)

variable {N : Type*} (format : NumberFormat N)

def atomOf (lexeme : List UInt8) : Option (Json N) :=
  if lexeme = nullWord then some .null
  else if lexeme = trueWord then some (.bool true)
  else if lexeme = falseWord then some (.bool false)
  else (format.ofLexeme lexeme).map .number

/-- What a letter behind a backslash stands for. -/
def simpleEscape (c : UInt8) : Option UInt8 :=
  if c = 34 ∨ c = 47 ∨ c = 92 then some c
  else if c = 98 then some 8
  else if c = 102 then some 12
  else if c = 110 then some 10
  else if c = 114 then some 13
  else if c = 116 then some 9
  else none

def hexValue (c : UInt8) : Option Nat :=
  if 48 ≤ c ∧ c ≤ 57 then some (c.toNat - 48)
  else if 65 ≤ c ∧ c ≤ 70 then some (c.toNat - 55)
  else if 97 ≤ c ∧ c ≤ 102 then some (c.toNat - 87)
  else none

def hex4 (a b c d : UInt8) : Option Nat :=
  (hexValue a).bind fun a => (hexValue b).bind fun b => (hexValue c).bind fun c => (hexValue d).map fun d =>
    ((a * 16 + b) * 16 + c) * 16 + d

/-- The UTF-8 bytes of a code point. -/
def utf8Encode (codepoint : Nat) : List UInt8 :=
  if codepoint < 0x80 then [.ofNat codepoint]
  else if codepoint < 0x800 then [.ofNat (0xC0 + codepoint / 64), .ofNat (0x80 + codepoint % 64)]
  else if codepoint < 0x10000 then
    [.ofNat (0xE0 + codepoint / 4096), .ofNat (0x80 + codepoint / 64 % 64), .ofNat (0x80 + codepoint % 64)]
  else
    [.ofNat (0xF0 + codepoint / 262144), .ofNat (0x80 + codepoint / 4096 % 64), .ofNat (0x80 + codepoint / 64 % 64),
      .ofNat (0x80 + codepoint % 64)]

/-- Bytes in front of what was read. -/
def prepend (bytes : List UInt8) (read : Option (List UInt8 × List UInt8)) : Option (List UInt8 × List UInt8) :=
  read.map fun y => (bytes ++ y.1, y.2)

/-- A string from behind its opening quotation mark: its bytes and what follows the closing one. An escaped code
point beyond the first 65536 comes as a pair of surrogates. -/
def parseString : List UInt8 → Option (List UInt8 × List UInt8)
  | [] => none
  | c :: rest =>
      if c = 34 then some ([], rest)
      else if c = 92 then
        match rest with
        | [] => none
        | e :: rest =>
            match simpleEscape e with
            | some b => prepend [b] (parseString rest)
            | none =>
                if e = 117 then
                  match rest with
                  | a :: b :: c :: d :: rest =>
                      match hex4 a b c d with
                      | none => none
                      | some high =>
                          if high < 0xD800 ∨ 0xDFFF < high then prepend (utf8Encode high) (parseString rest)
                          else if 0xDBFF < high then none
                          else
                            match rest with
                            | x :: y :: a :: b :: c :: d :: rest =>
                                match hex4 a b c d with
                                | none => none
                                | some low =>
                                    if x = 92 ∧ y = 117 ∧ 0xDC00 ≤ low ∧ low ≤ 0xDFFF then
                                      prepend (utf8Encode ((high - 0xD800) * 1024 + (low - 0xDC00) + 0x10000))
                                        (parseString rest)
                                    else none
                            | _ => none
                  | _ => none
                else none
      else if c < 32 then none
      else prepend [c] (parseString rest)

mutual

/-- A value at the front of a text, and what follows it. -/
def parseValue : Nat → List UInt8 → Option (Json N × List UInt8)
  | 0, _ => none
  | _ + 1, [] => none
  | fuel + 1, c :: rest =>
      if c = 91 then
        if rest.head? = some 93 then some (.array [], rest.tail)
        else (parseElements fuel rest).map fun y => (.array y.1, y.2)
      else if c = 123 then
        if rest.head? = some 125 then some (.object [], rest.tail)
        else (parseMembers fuel rest).map fun y => (.object y.1, y.2)
      else if c = 34 then (parseString rest).map fun y => (.string y.1, y.2)
      else
        (atomOf format ((c :: rest).takeWhile isAtomByte)).map fun v => (v, (c :: rest).dropWhile isAtomByte)

/-- The elements of an array up to its closing bracket. -/
def parseElements : Nat → List UInt8 → Option (List (Json N) × List UInt8)
  | 0, _ => none
  | fuel + 1, input =>
      (parseValue fuel input).bind fun y =>
        match y.2 with
        | [] => none
        | c :: rest =>
            if c = 44 then (parseElements fuel rest).map fun z => (y.1 :: z.1, z.2)
            else if c = 93 then some ([y.1], rest)
            else none

/-- The members of an object up to its closing brace. -/
def parseMembers : Nat → List UInt8 → Option (List (List UInt8 × Json N) × List UInt8)
  | 0, _ => none
  | fuel + 1, input =>
      match input with
      | [] => none
      | q :: input =>
          if q = 34 then
            (parseString input).bind fun key =>
              match key.2 with
              | [] => none
              | c :: rest =>
                  if c = 58 then
                    (parseValue fuel rest).bind fun y =>
                      match y.2 with
                      | [] => none
                      | c :: rest =>
                          if c = 44 then (parseMembers fuel rest).map fun z => ((key.1, y.1) :: z.1, z.2)
                          else if c = 125 then some ([(key.1, y.1)], rest)
                          else none
                  else none
          else none

end

/-- The value of a whole text. -/
def parse (text : List UInt8) : Option (Json N) :=
  match parseValue format (2 * text.length) text with
  | some (v, []) => some v
  | _ => none

def hexDigit (n : UInt8) : UInt8 := if n < 10 then 48 + n else 55 + n

def escapeByte (c : UInt8) : List UInt8 :=
  if c = 34 then [92, 34]
  else if c = 92 then [92, 92]
  else if c = 8 then [92, 98]
  else if c = 9 then [92, 116]
  else if c = 10 then [92, 110]
  else if c = 12 then [92, 102]
  else if c = 13 then [92, 114]
  else if c < 32 then [92, 117, 48, 48, hexDigit (c / 16), hexDigit (c % 16)]
  else [c]

def stringText (value : List UInt8) : List UInt8 := 34 :: (value.flatMap escapeByte ++ [34])

/-- Texts with commas between them and a closing byte. -/
def closeTexts (close : UInt8) : List (List UInt8) → List UInt8
  | [] => [close]
  | [text] => text ++ [close]
  | text :: next :: rest => text ++ 44 :: closeTexts close (next :: rest)

def arrayText (elements : List (List UInt8)) : List UInt8 := 91 :: closeTexts 93 elements

/-- An object from its keys and the texts of their values. -/
def objectText (members : List (List UInt8 × List UInt8)) : List UInt8 :=
  123 :: closeTexts 125 (members.map fun m => stringText m.1 ++ 58 :: m.2)

mutual

/-- The compact text of a value. -/
def text : Json N → List UInt8
  | .null => nullWord
  | .bool value => if value then trueWord else falseWord
  | .number value => format.lexeme value
  | .string value => stringText value
  | .array elements => arrayText (texts elements)
  | .object members => objectText (memberTexts members)

def texts : List (Json N) → List (List UInt8)
  | [] => []
  | v :: rest => text v :: texts rest

def memberTexts : List (List UInt8 × Json N) → List (List UInt8 × List UInt8)
  | [] => []
  | m :: rest => memberText m :: memberTexts rest

def memberText : List UInt8 × Json N → List UInt8 × List UInt8
  | (key, v) => (key, text v)

end

/-- The number that is read from what is written for one. -/
def NumberFormat.reread (n : N) : N := (format.ofLexeme (format.lexeme n)).get (format.isSome_ofLexeme_lexeme n)

mutual

/-- A value with its numbers as they are read again. -/
def reread : Json N → Json N
  | .null => .null
  | .bool value => .bool value
  | .number value => .number (format.reread value)
  | .string value => .string value
  | .array elements => .array (rereads elements)
  | .object members => .object (rereadMembers members)

def rereads : List (Json N) → List (Json N)
  | [] => []
  | v :: rest => reread v :: rereads rest

def rereadMembers : List (List UInt8 × Json N) → List (List UInt8 × Json N)
  | [] => []
  | m :: rest => rereadMember m :: rereadMembers rest

def rereadMember : List UInt8 × Json N → List UInt8 × Json N
  | (key, v) => (key, reread v)

end

mutual

/-- The numbers in a value. -/
def numbers : Json N → List N
  | .number value => [value]
  | .array elements => numbersOfElements elements
  | .object members => numbersOfMembers members
  | .null => []
  | .bool _ => []
  | .string _ => []

def numbersOfElements : List (Json N) → List N
  | [] => []
  | v :: rest => numbers v ++ numbersOfElements rest

def numbersOfMembers : List (List UInt8 × Json N) → List N
  | [] => []
  | m :: rest => numbersOfMember m ++ numbersOfMembers rest

def numbersOfMember : List UInt8 × Json N → List N
  | (_, v) => numbers v

end

/-! ### The parser -/

theorem prepend_eq_some {bytes : List UInt8} {read : Option (List UInt8 × List UInt8)}
    {y : List UInt8 × List UInt8} (h : prepend bytes read = some y) :
    ∃ z, read = some z ∧ y = (bytes ++ z.1, z.2) := by
  obtain ⟨z, hz, rfl⟩ := Option.map_eq_some_iff.mp h
  exact ⟨z, hz, rfl⟩

theorem parseString_cons {c : UInt8} (hquote : c ≠ 34) (hback : c ≠ 92) (hcontrol : ¬c < 32) (rest : List UInt8) :
    parseString (c :: rest) = prepend [c] (parseString rest) := by
  rw [parseString.eq_def]
  simp only [if_neg hquote, if_neg hback, if_neg hcontrol]

example : parseString [97, 34] = some ([97], []) := by
  rw [parseString.eq_def]
  rfl

theorem parseString_escape {e b : UInt8} (h : simpleEscape e = some b) (rest : List UInt8) :
    parseString (92 :: e :: rest) = prepend [b] (parseString rest) := by
  rw [parseString.eq_def]
  simp [h]

theorem parseString_unicode {a b c d : UInt8} {codepoint : Nat} (h : hex4 a b c d = some codepoint)
    (hrange : codepoint < 0xD800 ∨ 0xDFFF < codepoint) (rest : List UInt8) :
    parseString (92 :: 117 :: a :: b :: c :: d :: rest) = prepend (utf8Encode codepoint) (parseString rest) := by
  rw [parseString.eq_def]
  simp [simpleEscape, h, hrange]

theorem parseString_surrogates {a b c d x y a' b' c' d' : UInt8} {high low : Nat} (h : hex4 a b c d = some high)
    (hrange : ¬(high < 0xD800 ∨ 0xDFFF < high)) (hhigh : ¬0xDBFF < high) (h' : hex4 a' b' c' d' = some low)
    (hpair : x = 92 ∧ y = 117 ∧ 0xDC00 ≤ low ∧ low ≤ 0xDFFF) (rest : List UInt8) :
    parseString (92 :: 117 :: a :: b :: c :: d :: x :: y :: a' :: b' :: c' :: d' :: rest) =
      prepend (utf8Encode ((high - 0xD800) * 1024 + (low - 0xDC00) + 0x10000)) (parseString rest) := by
  rw [parseString.eq_def]
  simp [simpleEscape, h, hrange, hhigh, h', hpair]

theorem ge_of_hexValue {c : UInt8} {n : Nat} (h : hexValue c = some n) : 32 ≤ c := by
  rw [hexValue] at h
  simp only [UInt8.le_iff_toNat_le, UInt8.reduceToNat] at h ⊢
  split_ifs at h <;> omega

theorem ge_of_hex4 {a b c d : UInt8} {n : Nat} (h : hex4 a b c d = some n) :
    32 ≤ a ∧ 32 ≤ b ∧ 32 ≤ c ∧ 32 ≤ d := by
  obtain ⟨_, ha, h⟩ := Option.bind_eq_some_iff.mp h
  obtain ⟨_, hb, h⟩ := Option.bind_eq_some_iff.mp h
  obtain ⟨_, hc, h⟩ := Option.bind_eq_some_iff.mp h
  obtain ⟨_, hd, _⟩ := Option.map_eq_some_iff.mp h
  exact ⟨ge_of_hexValue ha, ge_of_hexValue hb, ge_of_hexValue hc, ge_of_hexValue hd⟩

theorem ge_of_simpleEscape {c b : UInt8} (h : simpleEscape c = some b) : 32 ≤ c := by
  by_contra hlt
  have hne : ∀ k : UInt8, 32 ≤ k → c ≠ k := fun k hk hck => hlt (hck ▸ hk)
  rw [simpleEscape, if_neg, if_neg, if_neg, if_neg, if_neg, if_neg] at h
  · cases h
  all_goals simp [hne]

/-- One step of a string: the closing mark, or printable bytes that stand for others whatever follows them. -/
theorem parseString_step {input : List UInt8} {y : List UInt8 × List UInt8} (h : parseString input = some y) :
    (∃ rest, input = 34 :: rest ∧ y = ([], rest)) ∨
      ∃ front bytes rest, front ≠ [] ∧ (∀ b ∈ front, 32 ≤ b) ∧ input = front ++ rest ∧
        (∀ rest', parseString (front ++ rest') = prepend bytes (parseString rest')) := by
  fun_induction parseString input
  case case2 rest => exact .inl ⟨rest, rfl, (Option.some.inj h).symm⟩
  case case4 e rest b hsimple _ _ =>
      exact .inr ⟨[92, e], [b], rest, by simp, by simp [ge_of_simpleEscape hsimple], rfl,
        parseString_escape hsimple⟩
  case case6 a b c d rest high hhex hrange _ _ _ =>
      exact .inr ⟨[92, 117, a, b, c, d], utf8Encode high, rest, by simp, by simp [ge_of_hex4 hhex], rfl,
        parseString_unicode hhex hrange⟩
  case case9 a b c d high hhex hrange hhigh x y a' b' c' d' rest low hhex' hpair _ _ _ =>
      exact .inr ⟨[92, 117, a, b, c, d, x, y, a', b', c', d'], _, rest, by simp,
        by simp [ge_of_hex4 hhex, ge_of_hex4 hhex', hpair.1, hpair.2.1], rfl,
        parseString_surrogates hhex hrange hhigh hhex' hpair⟩
  case case15 c rest hquote hback hcontrol _ =>
      exact .inr ⟨[c], [c], rest, by simp, by simpa using hcontrol, rfl, parseString_cons hquote hback hcontrol⟩
  all_goals cases h

/-- Facts about a string go along its steps. -/
theorem parseString_induction {P : List UInt8 → List UInt8 × List UInt8 → Prop}
    (hclose : ∀ rest, P (34 :: rest) ([], rest))
    (hstep : ∀ front bytes rest z, (∀ b ∈ front, 32 ≤ b) →
      (∀ rest', parseString (front ++ rest') = prepend bytes (parseString rest')) →
      P rest z → P (front ++ rest) (bytes ++ z.1, z.2))
    {input : List UInt8} {y : List UInt8 × List UInt8} (h : parseString input = some y) : P input y := by
  induction hn : input.length using Nat.strong_induction_on generalizing input y with
  | h n ih =>
      obtain ⟨rest, rfl, rfl⟩ | ⟨front, bytes, rest, hne, hbytes, rfl, hfront⟩ := parseString_step h
      · exact hclose rest
      · rw [hfront] at h
        obtain ⟨z, hz, rfl⟩ := prepend_eq_some h
        have hlen : rest.length < n := by
          have := List.length_pos_iff.mpr hne
          rw [← hn, List.length_append]
          omega
        exact hstep front bytes rest z hbytes hfront (ih rest.length hlen hz rfl)

/-- `front` are the bytes that were used up to get from `input` to `rest`. They would be used in the same way, which
`P` tells, before everything that meets `Next`. -/
def Used (Next : List UInt8 → Prop) (P : List UInt8 → List UInt8 → Prop) (input rest : List UInt8) : Prop :=
  ∃ front, front ≠ [] ∧ (∀ b ∈ front, 32 ≤ b) ∧ input = front ++ rest ∧ ∀ rest', Next rest' → P (front ++ rest') rest'

theorem Used.length_lt {Next : List UInt8 → Prop} {P : List UInt8 → List UInt8 → Prop} {input rest : List UInt8}
    (h : Used Next P input rest) : rest.length < input.length := by
  obtain ⟨front, hne, _, rfl, _⟩ := h
  have := List.length_pos_iff.mpr hne
  rw [List.length_append]
  omega

theorem used_parseString {input : List UInt8} {y : List UInt8 × List UInt8} (h : parseString input = some y) :
    Used (fun _ => True) (fun i r => parseString i = some (y.1, r)) input y.2 := by
  refine parseString_induction
    (P := fun input y => Used (fun _ => True) (fun i r => parseString i = some (y.1, r)) input y.2) ?_ ?_ h
  · intro rest
    refine ⟨[34], by simp, by simp, rfl, fun rest' _ => ?_⟩
    change parseString (34 :: rest') = _
    rw [parseString.eq_def]
    rfl
  · rintro front bytes _ z hbytes hfront ⟨front', hne, hbytes', rfl, hfront'⟩
    refine ⟨front ++ front', by simp [hne], ?_, by rw [List.append_assoc], fun rest' _ => ?_⟩
    · intro b hb
      exact (List.mem_append.mp hb).elim (hbytes b) (hbytes' b)
    · simp only [List.append_assoc, hfront, hfront' rest' trivial]
      rfl

theorem length_parseString {input : List UInt8} {y : List UInt8 × List UInt8} (h : parseString input = some y) :
    y.2.length < input.length :=
  (used_parseString h).length_lt

/-! ### Enough fuel -/

/-- The result of a parser that shortened its input, with the fuel that is enough for it. -/
def Settled {α : Type*} (parser : Nat → List UInt8 → Option (α × List UInt8)) (input : List UInt8)
    (y : α × List UInt8) : Prop :=
  y.2.length < input.length ∧ ∀ fuel, 2 * (input.length - y.2.length) ≤ fuel → parser fuel input = some y

variable {format}

theorem length_dropWhile_lt {c : UInt8} {rest : List UInt8} {v : Json N}
    (h : atomOf format ((c :: rest).takeWhile isAtomByte) = some v) :
    ((c :: rest).dropWhile isAtomByte).length < (c :: rest).length := by
  by_cases hc : isAtomByte c = true
  · rw [List.dropWhile_cons_of_pos hc, List.length_cons]
    have := (List.dropWhile_suffix (p := isAtomByte) (l := rest)).length_le
    omega
  · rw [List.takeWhile_cons_of_neg hc] at h
    have hnone : atomOf format [] = (none : Option (Json N)) := by
      simp [atomOf, nullWord, trueWord, falseWord, format.ofLexeme_nil]
    rw [hnone] at h
    cases h

/-- A parser that looks at one byte more and then needs what `parser` needs. -/
theorem Settled.cons {α β : Type*} {parser : Nat → List UInt8 → Option (α × List UInt8)}
    {parser' : Nat → List UInt8 → Option (β × List UInt8)} {c : UInt8} {rest : List UInt8} {y : α × List UInt8}
    {z : β × List UInt8} (h : Settled parser rest y) (hlen : z.2.length = y.2.length)
    (hparser : ∀ fuel, parser fuel rest = some y → parser' (fuel + 1) (c :: rest) = some z) :
    Settled parser' (c :: rest) z := by
  obtain ⟨hshort, hfuel⟩ := h
  refine ⟨by rw [List.length_cons]; omega, fun fuel hle => ?_⟩
  rw [List.length_cons] at hle
  obtain ⟨fuel, rfl⟩ : ∃ k, fuel = k + 1 := ⟨fuel - 1, by omega⟩
  exact hparser fuel (hfuel fuel (by omega))

/-- A result that needs no fuel of its own. -/
theorem Settled.of_succ {α : Type*} {parser : Nat → List UInt8 → Option (α × List UInt8)} {input : List UInt8}
    {y : α × List UInt8} (hlen : y.2.length < input.length) (h : ∀ fuel, parser (fuel + 1) input = some y) :
    Settled parser input y := by
  refine ⟨hlen, fun fuel hle => ?_⟩
  obtain ⟨fuel, rfl⟩ : ∃ k, fuel = k + 1 := ⟨fuel - 1, by omega⟩
  exact h fuel

/-- A result whose last byte closes what was parsed. -/
theorem Settled.last {α β : Type*} {parser : Nat → List UInt8 → Option (α × List UInt8)}
    {parser' : Nat → List UInt8 → Option (β × List UInt8)} {input before rest : List UInt8} {v : α} {c : UInt8} {w : β}
    (h : Settled parser before (v, c :: rest)) (hbefore : before.length ≤ input.length)
    (hparser : ∀ fuel, parser fuel before = some (v, c :: rest) → parser' (fuel + 1) input = some (w, rest)) :
    Settled parser' input (w, rest) := by
  obtain ⟨hshort, hfuel⟩ := h
  simp only [List.length_cons] at hshort hfuel
  refine ⟨by simp only; omega, fun fuel hle => ?_⟩
  simp only at hle
  obtain ⟨fuel, rfl⟩ : ∃ k, fuel = k + 1 := ⟨fuel - 1, by omega⟩
  exact hparser fuel (hfuel fuel (by omega))

/-- A result with a separator behind it and another result behind that. -/
theorem Settled.next {α β : Type*} {parser : Nat → List UInt8 → Option (α × List UInt8)}
    {parser' : Nat → List UInt8 → Option (β × List UInt8)} {input before rest rest' : List UInt8} {v : α} {c : UInt8}
    {w w' : β} (h : Settled parser before (v, c :: rest)) (h' : Settled parser' rest (w, rest'))
    (hbefore : before.length ≤ input.length)
    (hparser : ∀ fuel, parser fuel before = some (v, c :: rest) → parser' fuel rest = some (w, rest') →
      parser' (fuel + 1) input = some (w', rest')) :
    Settled parser' input (w', rest') := by
  obtain ⟨hshort, hfuel⟩ := h
  obtain ⟨hshort', hfuel'⟩ := h'
  simp only [List.length_cons] at hshort hfuel hshort' hfuel'
  refine ⟨by simp only; omega, fun fuel hle => ?_⟩
  simp only at hle
  obtain ⟨fuel, rfl⟩ : ∃ k, fuel = k + 1 := ⟨fuel - 1, by omega⟩
  exact hparser fuel (hfuel fuel (by omega)) (hfuel' fuel (by omega))

theorem parseValue_cons (c : UInt8) (rest : List UInt8) (fuel : Nat) :
    parseValue format (fuel + 1) (c :: rest) =
      if c = 91 then
        if rest.head? = some 93 then some (.array [], rest.tail)
        else (parseElements format fuel rest).map fun y => (.array y.1, y.2)
      else if c = 123 then
        if rest.head? = some 125 then some (.object [], rest.tail)
        else (parseMembers format fuel rest).map fun y => (.object y.1, y.2)
      else if c = 34 then (parseString rest).map fun y => (.string y.1, y.2)
      else
        (atomOf format ((c :: rest).takeWhile isAtomByte)).map fun v => (v, (c :: rest).dropWhile isAtomByte) :=
  rfl

theorem parseValue_array {rest : List UInt8} (h : rest.head? ≠ some 93) (fuel : Nat) :
    parseValue format (fuel + 1) (91 :: rest) =
      (parseElements format fuel rest).map fun y => (.array y.1, y.2) := by
  rw [parseValue_cons, if_pos rfl, if_neg h]

theorem parseValue_emptyArray {rest : List UInt8} (h : rest.head? = some 93) (fuel : Nat) :
    parseValue format (fuel + 1) (91 :: rest) = some (.array [], rest.tail) := by
  rw [parseValue_cons, if_pos rfl, if_pos h]

theorem parseValue_object {rest : List UInt8} (h : rest.head? ≠ some 125) (fuel : Nat) :
    parseValue format (fuel + 1) (123 :: rest) =
      (parseMembers format fuel rest).map fun y => (.object y.1, y.2) := by
  rw [parseValue_cons, if_neg (by decide), if_pos rfl, if_neg h]

theorem parseValue_emptyObject {rest : List UInt8} (h : rest.head? = some 125) (fuel : Nat) :
    parseValue format (fuel + 1) (123 :: rest) = some (.object [], rest.tail) := by
  rw [parseValue_cons, if_neg (by decide), if_pos rfl, if_pos h]

theorem parseValue_string (rest : List UInt8) (fuel : Nat) :
    parseValue format (fuel + 1) (34 :: rest) = (parseString rest).map fun y => (.string y.1, y.2) := by
  rw [parseValue_cons, if_neg (by decide), if_neg (by decide), if_pos rfl]

theorem parseValue_atom {c : UInt8} (harray : c ≠ 91) (hobject : c ≠ 123) (hstring : c ≠ 34) (rest : List UInt8)
    (fuel : Nat) :
    parseValue format (fuel + 1) (c :: rest) =
      (atomOf format ((c :: rest).takeWhile isAtomByte)).map fun v => (v, (c :: rest).dropWhile isAtomByte) := by
  rw [parseValue_cons, if_neg harray, if_neg hobject, if_neg hstring]

/-- The elements of an array: one, and then the closing bracket or a comma with the others. -/
theorem parseElements_iff (fuel : Nat) (input : List UInt8) (y : List (Json N) × List UInt8) :
    parseElements format (fuel + 1) input = some y ↔
      ∃ v rest, parseValue format fuel input = some (v, rest) ∧
        ((∃ r, rest = 93 :: r ∧ y = ([v], r)) ∨
          ∃ r z, rest = 44 :: r ∧ parseElements format fuel r = some z ∧ y = (v :: z.1, z.2)) := by
  rw [parseElements, Option.bind_eq_some_iff]
  constructor
  · rintro ⟨⟨v, rest⟩, hv, h⟩
    refine ⟨v, rest, hv, ?_⟩
    cases rest with
    | nil => cases h
    | cons c r =>
        simp only at h
        split_ifs at h with hcomma hclose
        · obtain ⟨z, hz, rfl⟩ := Option.map_eq_some_iff.mp h
          exact .inr ⟨r, z, by rw [hcomma], hz, rfl⟩
        · exact .inl ⟨r, by rw [hclose], (Option.some.inj h).symm⟩
  · rintro ⟨v, rest, hv, ⟨r, rfl, rfl⟩ | ⟨r, z, rfl, hz, rfl⟩⟩
    · exact ⟨(v, 93 :: r), hv, rfl⟩
    · exact ⟨(v, 44 :: r), hv, by simp [hz]⟩

/-- The members of an object: a key with its value, and then the closing brace or a comma with the others. -/
theorem parseMembers_iff (fuel : Nat) (input : List UInt8) (y : List (List UInt8 × Json N) × List UInt8) :
    parseMembers format (fuel + 1) input = some y ↔
      ∃ i key r v rest, input = 34 :: i ∧ parseString i = some (key, 58 :: r) ∧
        parseValue format fuel r = some (v, rest) ∧
        ((∃ r', rest = 125 :: r' ∧ y = ([(key, v)], r')) ∨
          ∃ r' z, rest = 44 :: r' ∧ parseMembers format fuel r' = some z ∧ y = ((key, v) :: z.1, z.2)) := by
  constructor
  · intro h
    cases input with
    | nil => cases h
    | cons q i =>
        rw [parseMembers] at h
        split_ifs at h with hquote
        obtain ⟨⟨key, after⟩, hkey, h⟩ := Option.bind_eq_some_iff.mp h
        cases after with
        | nil => cases h
        | cons c r =>
            simp only at h
            split_ifs at h with hcolon
            obtain ⟨⟨v, rest⟩, hv, h⟩ := Option.bind_eq_some_iff.mp h
            refine ⟨i, key, r, v, rest, by rw [hquote], by rw [hkey, hcolon], hv, ?_⟩
            cases rest with
            | nil => cases h
            | cons c' r' =>
                simp only at h
                split_ifs at h with hcomma hclose
                · obtain ⟨z, hz, rfl⟩ := Option.map_eq_some_iff.mp h
                  exact .inr ⟨r', z, by rw [hcomma], hz, rfl⟩
                · exact .inl ⟨r', by rw [hclose], (Option.some.inj h).symm⟩
  · rintro ⟨i, key, r, v, rest, rfl, hkey, hv, ⟨r', rfl, rfl⟩ | ⟨r', z, rfl, hz, rfl⟩⟩
    · rw [parseMembers]
      simp [hkey, hv]
    · rw [parseMembers]
      simp [hkey, hv, hz]

/-- A rule for what the three functions find together, by the ways in which they find it. The induction is on the
fuel. -/
theorem parser_induction {V : Nat → List UInt8 → Json N × List UInt8 → Prop}
    {E : Nat → List UInt8 → List (Json N) × List UInt8 → Prop}
    {M : Nat → List UInt8 → List (List UInt8 × Json N) × List UInt8 → Prop}
    (emptyArray : ∀ fuel rest, V (fuel + 1) (91 :: 93 :: rest) (.array [], rest))
    (array : ∀ fuel rest z, rest.head? ≠ some 93 → E fuel rest z → V (fuel + 1) (91 :: rest) (.array z.1, z.2))
    (emptyObject : ∀ fuel rest, V (fuel + 1) (123 :: 125 :: rest) (.object [], rest))
    (object : ∀ fuel rest z, rest.head? ≠ some 125 → M fuel rest z → V (fuel + 1) (123 :: rest) (.object z.1, z.2))
    (string : ∀ fuel rest z, parseString rest = some z → V (fuel + 1) (34 :: rest) (.string z.1, z.2))
    (atom : ∀ fuel c rest v, c ≠ 91 → c ≠ 123 → c ≠ 34 →
      atomOf format ((c :: rest).takeWhile isAtomByte) = some v →
      V (fuel + 1) (c :: rest) (v, (c :: rest).dropWhile isAtomByte))
    (lastElement : ∀ fuel input v r, V fuel input (v, 93 :: r) → E (fuel + 1) input ([v], r))
    (nextElement : ∀ fuel input v r z, V fuel input (v, 44 :: r) → E fuel r z → E (fuel + 1) input (v :: z.1, z.2))
    (lastMember : ∀ fuel i key r v r', parseString i = some (key, 58 :: r) → V fuel r (v, 125 :: r') →
      M (fuel + 1) (34 :: i) ([(key, v)], r'))
    (nextMember : ∀ fuel i key r v r' z, parseString i = some (key, 58 :: r) → V fuel r (v, 44 :: r') → M fuel r' z →
      M (fuel + 1) (34 :: i) ((key, v) :: z.1, z.2))
    (fuel : Nat) :
    (∀ input y, parseValue format fuel input = some y → V fuel input y) ∧
      (∀ input y, parseElements format fuel input = some y → E fuel input y) ∧
      ∀ input y, parseMembers format fuel input = some y → M fuel input y := by
  induction fuel with
  | zero =>
      refine ⟨?_, ?_, ?_⟩
      all_goals
        intro input y h
        cases h
  | succ fuel ih =>
      obtain ⟨ihValue, ihElements, ihMembers⟩ := ih
      refine ⟨fun input y h => ?_, fun input y h => ?_, fun input y h => ?_⟩
      · rcases input with _ | ⟨c, rest⟩
        · cases h
        by_cases harray : c = 91
        · subst harray
          by_cases hclose : rest.head? = some 93
          · rw [parseValue_emptyArray hclose] at h
            obtain rfl := Option.some.inj h
            obtain ⟨rest, rfl⟩ := List.head?_eq_some_iff.mp hclose
            exact emptyArray fuel rest
          · rw [parseValue_array hclose] at h
            obtain ⟨z, hz, rfl⟩ := Option.map_eq_some_iff.mp h
            exact array fuel rest z hclose (ihElements rest z hz)
        by_cases hobject : c = 123
        · subst hobject
          by_cases hclose : rest.head? = some 125
          · rw [parseValue_emptyObject hclose] at h
            obtain rfl := Option.some.inj h
            obtain ⟨rest, rfl⟩ := List.head?_eq_some_iff.mp hclose
            exact emptyObject fuel rest
          · rw [parseValue_object hclose] at h
            obtain ⟨z, hz, rfl⟩ := Option.map_eq_some_iff.mp h
            exact object fuel rest z hclose (ihMembers rest z hz)
        by_cases hstring : c = 34
        · subst hstring
          rw [parseValue_string] at h
          obtain ⟨z, hz, rfl⟩ := Option.map_eq_some_iff.mp h
          exact string fuel rest z hz
        · rw [parseValue_atom harray hobject hstring] at h
          obtain ⟨v, hv, rfl⟩ := Option.map_eq_some_iff.mp h
          exact atom fuel c rest v harray hobject hstring hv
      · obtain ⟨v, rest, hv, ⟨r, rfl, rfl⟩ | ⟨r, z, rfl, hz, rfl⟩⟩ := (parseElements_iff fuel input y).mp h
        · exact lastElement fuel input v r (ihValue input _ hv)
        · exact nextElement fuel input v r z (ihValue input _ hv) (ihElements r z hz)
      · obtain ⟨i, key, r, v, rest, rfl, hkey, hv, ⟨r', rfl, rfl⟩ | ⟨r', z, rfl, hz, rfl⟩⟩ :=
          (parseMembers_iff fuel input y).mp h
        · exact lastMember fuel i key r v r' hkey (ihValue r _ hv)
        · exact nextMember fuel i key r v r' z hkey (ihValue r _ hv) (ihMembers r' z hz)

/-- Every result is settled. -/
theorem settled_of_parse (fuel : Nat) :
    (∀ input y, parseValue format fuel input = some y → Settled (parseValue format) input y) ∧
      (∀ input y, parseElements format fuel input = some y → Settled (parseElements format) input y) ∧
      ∀ input y, parseMembers format fuel input = some y → Settled (parseMembers format) input y := by
  apply parser_induction (V := fun _ => Settled (parseValue format)) (E := fun _ => Settled (parseElements format))
    (M := fun _ => Settled (parseMembers format))
  case emptyArray =>
      intro _ rest
      exact .of_succ (Nat.lt_succ_of_lt (Nat.lt_succ_self _)) (parseValue_emptyArray rfl)
  case array =>
      intro _ rest z hclose h
      refine h.cons rfl fun fuel hfuel => ?_
      rw [parseValue_array hclose, hfuel]
      rfl
  case emptyObject =>
      intro _ rest
      exact .of_succ (Nat.lt_succ_of_lt (Nat.lt_succ_self _)) (parseValue_emptyObject rfl)
  case object =>
      intro _ rest z hclose h
      refine h.cons rfl fun fuel hfuel => ?_
      rw [parseValue_object hclose, hfuel]
      rfl
  case string =>
      intro _ rest z hz
      refine .of_succ (Nat.lt_succ_of_lt (length_parseString hz)) fun fuel => ?_
      rw [parseValue_string, hz]
      rfl
  case atom =>
      intro _ c rest v harray hobject hstring hv
      refine .of_succ (length_dropWhile_lt hv) fun fuel => ?_
      rw [parseValue_atom harray hobject hstring, hv]
      rfl
  case lastElement =>
      intro _ input v r h
      refine h.last (Nat.le_refl _) fun fuel hv => ?_
      exact (parseElements_iff fuel input _).mpr ⟨v, _, hv, .inl ⟨r, rfl, rfl⟩⟩
  case nextElement =>
      intro _ input v r z h h'
      refine h.next h' (Nat.le_refl _) fun fuel hv hz => ?_
      exact (parseElements_iff fuel input _).mpr ⟨v, _, hv, .inr ⟨r, z, rfl, hz, rfl⟩⟩
  case lastMember =>
      intro _ i key r v r' hkey h
      have hlen := length_parseString hkey
      simp only [List.length_cons] at hlen
      refine h.last (by rw [List.length_cons]; omega) fun fuel hv => ?_
      exact (parseMembers_iff fuel _ _).mpr ⟨i, key, r, v, _, rfl, hkey, hv, .inl ⟨r', rfl, rfl⟩⟩
  case nextMember =>
      intro _ i key r v r' z hkey h h'
      have hlen := length_parseString hkey
      simp only [List.length_cons] at hlen
      refine h.next h' (by rw [List.length_cons]; omega) fun fuel hv hz => ?_
      exact (parseMembers_iff fuel _ _).mpr ⟨i, key, r, v, _, rfl, hkey, hv, .inr ⟨r', z, rfl, hz, rfl⟩⟩

end Json

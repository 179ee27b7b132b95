import LspCpp.LibJsonReads
import LspCpp.StreamRoundTrip

/-! Numbers of a rapidjson document. Integers that fit 64 bits are kept as such and written in decimal; how doubles are
written and read is a parameter. What is written for a double is read as a double, which may be another one: the parser
rounds more than once. -/

namespace LspCpp

/-- The integers of a rapidjson value: those of its `int64_t` and of its `uint64_t`. -/
abbrev JsonInteger := {i : Int // -9223372036854775808 ≤ i ∧ i ≤ 18446744073709551615}

/-- A number of a document; `R` are the doubles. -/
inductive JsonNumber (R : Type) where
  | integer (value : JsonInteger)
  | real (value : R)

/-- `Writer::WriteInt64` and `Writer::WriteUint64`. -/
def integerLexeme (value : JsonInteger) : Bytes :=
  if value.1 < 0 then 45 :: toDecimal value.1.natAbs else toDecimal value.1.natAbs

/-- The digits of an integer as JSON has them. -/
def isIntegerDigits (digits : Bytes) : Bool :=
  !digits.isEmpty && digits.all isDigit && (digits.head? != some 48 || digits.length == 1)

/-- The integer that `GenericReader::ParseNumber` makes of a lexeme. One out of range becomes a double. -/
def integerOf (lexeme : Bytes) : Option JsonInteger :=
  let digits := if lexeme.head? = some 45 then lexeme.tail else lexeme
  let value : Int := if lexeme.head? = some 45 then -digitsValue digits else digitsValue digits
  if isIntegerDigits digits then
    if h : -9223372036854775808 ≤ value ∧ value ≤ 18446744073709551615 then some ⟨value, h⟩ else none
  else none

/-- How doubles are written and read. -/
structure RealFormat (R : Type) where
  lexeme : R → Bytes
  ofLexeme : Bytes → Option R
  isSome_ofLexeme_lexeme : ∀ r, (ofLexeme (lexeme r)).isSome = true
  integerOf_lexeme : ∀ r, integerOf (lexeme r) = none
  ofLexeme_nil : ofLexeme [] = none
  isAtomByte_lexeme : ∀ r, ∀ b ∈ lexeme r, Json.isAtomByte b = true
  head?_lexeme : ∀ r, ∃ b, (lexeme r).head? = some b ∧ (b = 45 ∨ 48 ≤ b ∧ b ≤ 57)

/-- Documents without doubles. -/
def noReals : RealFormat Empty where
  lexeme := nofun
  ofLexeme _ := none
  isSome_ofLexeme_lexeme := nofun
  integerOf_lexeme := nofun
  ofLexeme_nil := rfl
  isAtomByte_lexeme := nofun
  head?_lexeme := nofun

theorem head?_toDecimal (n : Nat) : ∃ b, (toDecimal n).head? = some b ∧ isDigit b = true := by
  obtain ⟨b, digits, hcons⟩ := List.exists_cons_of_ne_nil (toDecimal_ne_nil n)
  exact ⟨b, by rw [hcons]; rfl, isDigit_of_mem_toDecimal n b (hcons ▸ List.mem_cons_self)⟩

/-- No decimal begins with a zero but zero itself. -/
theorem head?_toDecimal_of_pos {n : Nat} (h : 0 < n) : (toDecimal n).head? ≠ some 48 := by
  induction n using Nat.strong_induction_on with
  | h n ih =>
      rcases Nat.lt_or_ge n 10 with hlt | hge
      · have hall : ∀ n < 10, 0 < n → UInt8.ofNat (48 + n) ≠ 48 := by decide
        rw [toDecimal_of_lt hlt]
        exact fun heq => hall n hlt h (Option.some.inj heq)
      · rw [toDecimal_of_le hge, List.head?_append_of_ne_nil _ (toDecimal_ne_nil _)]
        exact ih (n / 10) (by omega) (by omega)

theorem isIntegerDigits_toDecimal (n : Nat) : isIntegerDigits (toDecimal n) = true := by
  have hall : (toDecimal n).all isDigit = true := List.all_eq_true.mpr (isDigit_of_mem_toDecimal n)
  rcases Nat.eq_zero_or_pos n with rfl | hpos
  · rfl
  · simp [isIntegerDigits, hall, toDecimal_ne_nil, head?_toDecimal_of_pos hpos]

theorem integerOf_integerLexeme (value : JsonInteger) : integerOf (integerLexeme value) = some value := by
  obtain ⟨value, hvalue⟩ := value
  rw [integerLexeme]
  simp only
  split_ifs with hneg
  · have habs : -((value.natAbs : Nat) : Int) = value := by omega
    simp only [integerOf, List.head?_cons, if_true, List.tail_cons, isIntegerDigits_toDecimal, digitsValue_toDecimal,
      habs, dif_pos hvalue]
  · obtain ⟨b, hhead, hdigit⟩ := head?_toDecimal value.natAbs
    have hminus : ¬(toDecimal value.natAbs).head? = some 45 := by
      rintro h
      obtain rfl := Option.some.inj (hhead.symm.trans h)
      exact absurd hdigit (by decide)
    have habs : ((value.natAbs : Nat) : Int) = value := by omega
    simp only [integerOf, if_neg hminus, isIntegerDigits_toDecimal, if_true, digitsValue_toDecimal, habs,
      dif_pos hvalue]

theorem isAtomByte_of_isDigit {c : UInt8} (h : isDigit c = true) : Json.isAtomByte c = true := by
  simp only [isDigit, Bool.and_eq_true, decide_eq_true_eq] at h
  simp [Json.isAtomByte, h.1, h.2]

theorem isAtomByte_integerLexeme (value : JsonInteger) : ∀ b ∈ integerLexeme value, Json.isAtomByte b = true := by
  have hdigits : ∀ b ∈ toDecimal value.1.natAbs, Json.isAtomByte b = true := fun b hb =>
    isAtomByte_of_isDigit (isDigit_of_mem_toDecimal _ b hb)
  rw [integerLexeme]
  split_ifs
  · intro b hb
    rcases List.mem_cons.mp hb with rfl | hb
    · decide
    · exact hdigits b hb
  · exact hdigits

theorem head?_integerLexeme (value : JsonInteger) :
    ∃ b, (integerLexeme value).head? = some b ∧ (b = 45 ∨ 48 ≤ b ∧ b ≤ 57) := by
  rw [integerLexeme]
  split_ifs
  · exact ⟨45, rfl, .inl rfl⟩
  · obtain ⟨b, hhead, hdigit⟩ := head?_toDecimal value.1.natAbs
    simp only [isDigit, Bool.and_eq_true, decide_eq_true_eq] at hdigit
    exact ⟨b, hhead, .inr hdigit⟩

/-- The numbers of a document as they stand in a text. -/
def RealFormat.numbers {R : Type} (real : RealFormat R) : Json.NumberFormat (JsonNumber R) where
  lexeme
    | .integer value => integerLexeme value
    | .real value => real.lexeme value
  ofLexeme lexeme :=
    match integerOf lexeme with
    | some value => some (.integer value)
    | none => (real.ofLexeme lexeme).map .real
  isSome_ofLexeme_lexeme n := by
    cases n with
    | integer value => simp only [integerOf_integerLexeme, Option.isSome_some]
    | real value => simp only [real.integerOf_lexeme, Option.isSome_map, real.isSome_ofLexeme_lexeme]
  ofLexeme_nil := by
    have hnil : integerOf [] = none := rfl
    simp only [hnil, real.ofLexeme_nil, Option.map_none]
  isAtomByte_lexeme n := by
    cases n with
    | integer value => exact isAtomByte_integerLexeme value
    | real value => exact real.isAtomByte_lexeme value
  head?_lexeme n := by
    cases n with
    | integer value => exact head?_integerLexeme value
    | real value => exact real.head?_lexeme value

theorem reread_integer {R : Type} (real : RealFormat R) (value : JsonInteger) :
    real.numbers.reread (.integer value) = .integer value := by
  rw [Json.NumberFormat.reread_eq_self_iff, RealFormat.numbers]
  simp only [integerOf_integerLexeme]

/-- Of the numbers of a document only doubles may be read as others. -/
theorem ofLexeme_numbers_iff {R : Type} (real : RealFormat R) (numbers : List (JsonNumber R)) :
    (∀ n ∈ numbers, real.numbers.ofLexeme (real.numbers.lexeme n) = some n) ↔
      ∀ r, .real r ∈ numbers → real.ofLexeme (real.lexeme r) = some r := by
  have hreal : ∀ r, real.numbers.ofLexeme (real.numbers.lexeme (.real r)) = some (.real r) ↔
      real.ofLexeme (real.lexeme r) = some r := by
    intro r
    simp only [RealFormat.numbers, real.integerOf_lexeme, Option.map_eq_some_iff, JsonNumber.real.injEq,
      exists_eq_right]
  constructor
  · exact fun h r hr => (hreal r).mp (h _ hr)
  · intro h n hn
    cases n with
    | integer value => exact (Json.NumberFormat.reread_eq_self_iff _).mp (reread_integer real value)
    | real r => exact (hreal r).mpr (h r hn)

end LspCpp

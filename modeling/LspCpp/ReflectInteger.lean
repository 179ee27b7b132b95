import LspCpp.ReflectVisitor

/-! Integers of a JSON text as the integer types read them. The test before a read is that of a wider type for four of
them, and what passes it is then converted modulo the size of the type. -/

namespace LspCpp

/-- An integer as it stands in a JSON text. -/
structure IntegerLiteral where
  negative : Bool
  digits : Bytes
  isInteger : isIntegerDigits digits = true

namespace IntegerLiteral

def text (literal : IntegerLiteral) : Bytes := if literal.negative then 45 :: literal.digits else literal.digits

def value (literal : IntegerLiteral) : Int :=
  if literal.negative then -digitsValue literal.digits else digitsValue literal.digits

/-- An integer without superfluous zeros. -/
def ofInt (n : Int) : IntegerLiteral := ⟨decide (n < 0), toDecimal n.natAbs, isIntegerDigits_toDecimal n.natAbs⟩

theorem value_ofInt (n : Int) : (ofInt n).value = n := by
  simp only [value, ofInt, digitsValue_toDecimal, decide_eq_true_eq]
  split_ifs <;> omega

theorem digits_cons (literal : IntegerLiteral) :
    ∃ c rest, literal.digits = c :: rest ∧ ∀ b ∈ c :: rest, isDigit b = true := by
  have hdigits := literal.isInteger
  simp only [isIntegerDigits, Bool.and_eq_true, Bool.not_eq_true', List.isEmpty_eq_false_iff] at hdigits
  obtain ⟨c, rest, hcons⟩ := List.exists_cons_of_ne_nil hdigits.1.1
  exact ⟨c, rest, hcons, hcons ▸ List.all_eq_true.mp hdigits.1.2⟩

theorem integerOf_text (literal : IntegerLiteral) :
    integerOf literal.text =
      if h : -9223372036854775808 ≤ literal.value ∧ literal.value ≤ 18446744073709551615 then some ⟨literal.value, h⟩
      else none := by
  obtain ⟨negative, digits, hdigits⟩ := literal
  cases negative with
  | true => simp only [text, value, integerOf, if_true, List.head?_cons, List.tail_cons, hdigits]
  | false =>
      obtain ⟨c, rest, hcons, hdigit⟩ := digits_cons ⟨false, digits, hdigits⟩
      have hminus : ¬digits.head? = some 45 := by
        rw [show digits = c :: rest from hcons]
        rintro ⟨⟩
        exact absurd (hdigit 45 List.mem_cons_self) (by decide)
      simp only [text, value, integerOf, Bool.false_eq_true, if_false, if_neg hminus, hdigits, if_true]

theorem isAtomByte_text (literal : IntegerLiteral) : ∀ b ∈ literal.text, Json.isAtomByte b = true := by
  obtain ⟨c, rest, hcons, hdigit⟩ := literal.digits_cons
  have hdigits : ∀ b ∈ literal.digits, Json.isAtomByte b = true := fun b hb =>
    isAtomByte_of_isDigit (hdigit b (hcons ▸ hb))
  rw [text]
  split_ifs
  · intro b hb
    rcases List.mem_cons.mp hb with rfl | hb
    · decide
    · exact hdigits b hb
  · exact hdigits

theorem head?_text (literal : IntegerLiteral) : ∃ b rest, literal.text = b :: rest ∧ (b = 45 ∨ isDigit b = true) := by
  obtain ⟨c, rest, hcons, hdigit⟩ := literal.digits_cons
  rw [text]
  split_ifs
  · exact ⟨45, _, rfl, .inl rfl⟩
  · exact ⟨c, rest, hcons, .inr (hdigit c List.mem_cons_self)⟩

/-- No integer is one of the words. -/
theorem atomOf_text {N : Type} (format : Json.NumberFormat N) (literal : IntegerLiteral) :
    Json.atomOf format literal.text = (format.ofLexeme literal.text).map .number := by
  obtain ⟨b, rest, hcons, hb⟩ := literal.head?_text
  have hword : ∀ c word, c ≠ 45 → isDigit c = false → literal.text ≠ c :: word := by
    rintro c word hminus hdigit htext
    obtain rfl := (List.cons.inj (hcons.symm.trans htext)).1
    rcases hb with rfl | hb
    · exact hminus rfl
    · rw [hdigit] at hb
      cases hb
  have hnull : literal.text ≠ Json.nullWord := hword _ _ (by decide) (by decide)
  have htrue : literal.text ≠ Json.trueWord := hword _ _ (by decide) (by decide)
  have hfalse : literal.text ≠ Json.falseWord := hword _ _ (by decide) (by decide)
  rw [Json.atomOf, if_neg hnull, if_neg htrue, if_neg hfalse]

variable {R : Type} {real : RealFormat R}

/-- An integer of 64 bits keeps its value in the document, and any other one becomes a double. -/
theorem node_of_parse (literal : IntegerLiteral) {m : JsonDocument R}
    (hparse : Json.parse real.numbers literal.text = some m) :
    (∃ h, m = .number (.integer ⟨literal.value, h⟩)) ∨
      ¬(-9223372036854775808 ≤ literal.value ∧ literal.value ≤ 18446744073709551615) ∧ ∃ r, m = .number (.real r) := by
  obtain ⟨b, rest, hcons, -⟩ := literal.head?_text
  have hreads : Json.Reads real.numbers literal.text (Json.atomOf real.numbers literal.text) :=
    Json.reads_atom (hcons ▸ List.cons_ne_nil b rest) literal.isAtomByte_text
  rw [hreads.parse_eq, atomOf_text, RealFormat.numbers] at hparse
  simp only [integerOf_text] at hparse
  split_ifs at hparse with hrange
  · exact .inl ⟨hrange, (Option.some.inj hparse).symm⟩
  · obtain ⟨_, hnumber, rfl⟩ := Option.map_eq_some_iff.mp hparse
    obtain ⟨r, -, rfl⟩ := Option.map_eq_some_iff.mp hnumber
    exact .inr ⟨hrange, r, rfl⟩

end IntegerLiteral

namespace IntegerType

variable {R : Type} {real : RealFormat R}

/-- The type has the value. -/
def Represents (type : IntegerType) (n : Int) : Prop := type.bounds.1 ≤ n ∧ n ≤ type.bounds.2

instance (type : IntegerType) (n : Int) : Decidable (type.Represents n) := inferInstanceAs (Decidable (_ ∧ _))

/-- At the node of an integer `n`, `n` is read, or `std::invalid_argument` is thrown where the type does not have it. -/
def ReadsExactly (type : IntegerType) (n : Int) (reader : JsonReader R) : Prop :=
  (∀ h : type.Represents n, type.reflectReader reader = .ok (⟨n, h⟩, reader)) ∧
    (¬type.Represents n → type.reflectReader reader = .error (.invalidArgument type.what))

theorem represents_range {type : IntegerType} {n : Int} (h : type.Represents n) :
    -9223372036854775808 ≤ n ∧ n ≤ 18446744073709551615 :=
  (toJson (⟨n, h⟩ : type.Value)).2

/-- What passes the test is converted. -/
theorem reflectReader_of_tested {type : IntegerType} {i : JsonInteger} (h : type.tested.Represents i.1)
    (path : List Bytes) :
    type.reflectReader (⟨.number (.integer i), path⟩ : JsonReader R) =
      .ok (type.cast i.1, ⟨.number (.integer i), path⟩) := by
  rw [reflectReader]
  exact if_pos h

theorem reflectReader_of_not_tested {type : IntegerType} {i : JsonInteger} (h : ¬type.tested.Represents i.1)
    (path : List Bytes) :
    type.reflectReader (⟨.number (.integer i), path⟩ : JsonReader R) = .error (.invalidArgument type.what) := by
  rw [reflectReader]
  exact if_neg h

/-- A read that throws is exact for the integers that the type does not have. -/
theorem readsExactly_of_error {type : IntegerType} {n : Int} {reader : JsonReader R} (hn : ¬type.Represents n)
    (h : type.reflectReader reader = .error (.invalidArgument type.what)) : type.ReadsExactly n reader :=
  ⟨fun hvalue => absurd hvalue hn, fun _ => h⟩

/-- The integers of a JSON text are read exactly or rejected, but for those that pass the test of a wider type. -/
theorem readsExactly_iff (type : IntegerType) (literal : IntegerLiteral) {m : JsonDocument R}
    (hparse : Json.parse real.numbers literal.text = some m) (path : List Bytes) :
    type.ReadsExactly literal.value ⟨m, path⟩ ↔
      (type.tested.Represents literal.value → type.Represents literal.value) := by
  rcases literal.node_of_parse hparse with ⟨hrange, rfl⟩ | ⟨hrange, r, rfl⟩
  · by_cases htested : type.tested.Represents literal.value
    · have hread := reflectReader_of_tested (R := R) (i := ⟨literal.value, hrange⟩) htested path
      constructor
      · rintro ⟨-, hthrows⟩ -
        by_contra hn
        rw [hthrows hn] at hread
        cases hread
      · intro himp
        have hvalue := himp htested
        refine ⟨fun h => ?_, fun hn => absurd hvalue hn⟩
        rw [hread, cast_val ⟨literal.value, h⟩]
    · have hn : ¬type.Represents literal.value := fun h => htested (tested_of_value ⟨_, h⟩)
      exact iff_of_true (readsExactly_of_error hn (reflectReader_of_not_tested htested path)) fun h => absurd h htested
  · have hn : ∀ type : IntegerType, ¬type.Represents literal.value := fun type h => hrange (represents_range h)
    exact iff_of_true (readsExactly_of_error (hn type) rfl) fun h => absurd h (hn type.tested)

/-- The greatest `uint8_t` is read from its text. -/
theorem readsExactly_iff_greatestByte :
    IntegerType.uint8.ReadsExactly (IntegerLiteral.ofInt 255).value
        (⟨.number (.integer ⟨255, by decide⟩), []⟩ : JsonReader Empty) ↔
      (IntegerType.uint8.tested.Represents (IntegerLiteral.ofInt 255).value →
        IntegerType.uint8.Represents (IntegerLiteral.ofInt 255).value) :=
  have hparse : Json.parse noReals.numbers (IntegerLiteral.ofInt 255).text =
      some (.number (.integer ⟨255, by decide⟩)) := rfl
  readsExactly_iff .uint8 (.ofInt 255) hparse []

/-- A position beyond `unsigned` wraps around: `4294967296` is read as `0`. -/
theorem not_readsExactly_wrappedPosition :
    Json.parse noReals.numbers (IntegerLiteral.ofInt 4294967296).text =
        some (.number (.integer ⟨4294967296, by decide⟩)) ∧
      IntegerType.unsigned.reflectReader (⟨.number (.integer ⟨4294967296, by decide⟩), []⟩ : JsonReader Empty) =
        .ok (⟨0, by decide⟩, ⟨.number (.integer ⟨4294967296, by decide⟩), []⟩) ∧
      ¬IntegerType.unsigned.ReadsExactly (IntegerLiteral.ofInt 4294967296).value
        (⟨.number (.integer ⟨4294967296, by decide⟩), []⟩ : JsonReader Empty) := by
  refine ⟨by rfl, rfl, ?_⟩
  rintro ⟨-, hthrows⟩
  cases hthrows (by decide)

end IntegerType

end LspCpp

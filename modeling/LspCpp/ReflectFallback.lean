import LspCpp.ReflectCursor
import LspCpp.ReflectType

/-! The fallback between two alternatives. The alternative that is tried next is read from where the other one has
thrown, which is the node of the pair only where nothing had been entered by then. -/

namespace LspCpp

variable {R : Type}

mutual

/-- The types that a `Reader` is reflected into. A `leaf` is read from the node under the cursor alone, as the numbers,
`JsonNull`, the enumerations and `lsp::Any` are. -/
inductive TargetType (R : Type) : Type 1 where
  | bool
  | string
  | leaf {α : Type} (initial : α) (read : JsonDocument R → Except ReflectError α)
  | optional (inner : TargetType R)
  | vector (inner : TargetType R)
  | map (inner : TargetType R)
  | struct (members : TargetMembers R)
  | pair (first second : TargetType R)

inductive TargetMembers (R : Type) : Type 1 where
  | nil
  | cons (name : Bytes) (type : TargetType R) (rest : TargetMembers R)

end

mutual

def TargetType.Value : TargetType R → Type
  | .bool => Bool
  | .string => Bytes
  | @TargetType.leaf _ α _ _ => α
  | .optional inner => Option inner.Value
  | .vector inner => List inner.Value
  | .map inner => SortedMap Bytes inner.Value
  | .struct members => members.Values
  | .pair first second => Option first.Value × Option second.Value

def TargetMembers.Values : TargetMembers R → Type
  | .nil => Unit
  | .cons _ type rest => type.Value × rest.Values

end

mutual

def TargetType.initial : (type : TargetType R) → type.Value
  | .bool => false
  | .string => ([] : Bytes)
  | .leaf initial _ => initial
  | .optional inner => (none : Option inner.Value)
  | .vector inner => ([] : List inner.Value)
  | .map inner => (SortedMap.empty : SortedMap Bytes inner.Value)
  | .struct members => members.initial
  | .pair first second => ((none, none) : Option first.Value × Option second.Value)

def TargetMembers.initial : (members : TargetMembers R) → members.Values
  | .nil => ()
  | .cons _ type rest => (type.initial, rest.initial)

end

namespace TargetType

/-- The overload for a pair whose first alternative is `bool`. -/
def isBool : TargetType R → Bool
  | .bool => true
  | _ => false

/-- The overload for a pair whose first alternative is `std::string`. -/
def isString : TargetType R → Bool
  | .string => true
  | _ => false

end TargetType

mutual

/-- `Reflect(Reader&, T&)`. -/
def TargetType.read : (type : TargetType R) → type.Value → CursorM R type.Value
  | .bool, _ => do
      match (← get).m with
      | .bool value => return value
      | _ => throw (.invalidArgument "bool")
  | .string, _ => do
      match (← get).m with
      | .string value => return cStr value
      | _ => throw (.invalidArgument "std::string")
  | .leaf _ read, _ => do
      match read (← get).m with
      | .ok value => return value
      | .error e => throw e
  | .optional inner, value => CursorM.readOptional (inner.read inner.initial) value
  | .vector inner, values =>
      CursorM.iterArray (fun (values : List inner.Value) => do
        return values ++ [← inner.read inner.initial]) values
  | .map inner, value =>
      CursorM.iterMap (fun name (value : SortedMap Bytes inner.Value) => do
        return value.assign name (← inner.read inner.initial)) value
  | .struct members, value => members.read value
  | .pair first second, value =>
      readPair first.isBool first.isString (first.read first.initial) (second.read second.initial) value

/-- `ReflectMember(Reader&, name, T&)` one after the other. -/
def TargetMembers.read : (members : TargetMembers R) → members.Values → CursorM R members.Values
  | .nil, values => pure values
  | .cons name type rest, (value, values) => do
      let value ← CursorM.doMember name type.read value
      return (value, ← rest.read values)

end

/-- `Reflect(Reader&, T&)` for the integer types. -/
def TargetType.ofInteger (type : IntegerType) : TargetType R :=
  .leaf (type.cast 0) fun m => (type.reflectReader ⟨m, []⟩).map (·.1)

open CursorM

mutual

/-- No read shortens the path. -/
theorem TargetType.leaves_read : (type : TargetType R) → (value : type.Value) → Leaves 0 0 0 (type.read value)
  | .bool => fun _ => leaves_get.bind fun reader => by
      obtain ⟨m, path⟩ := reader
      cases m with
      | bool value => exact leaves_pure value
      | _ => exact leaves_throw _
  | .string => fun _ => leaves_get.bind fun reader => by
      obtain ⟨m, path⟩ := reader
      cases m with
      | string value => exact leaves_pure (cStr value)
      | _ => exact leaves_throw _
  | .leaf _ read => fun _ => leaves_get.bind fun reader => by
      split
      · exact leaves_pure _
      · exact leaves_throw _
  | .optional inner => fun value => leaves_readOptional (inner.leaves_read inner.initial) value
  | .vector inner => fun values =>
      leaves_iterArray (fun _ => (inner.leaves_read inner.initial).bind fun _ => leaves_pure _) values
  | .map inner => fun value =>
      (leaves_iterMap (fun _ _ => (inner.leaves_read inner.initial).bind fun _ => leaves_pure _) value).mono
        (Nat.zero_le 1)
  | .struct members => fun value => (members.leaves_read value).mono (Nat.zero_le 1)
  | .pair first second => fun value =>
      leaves_readPair (first.leaves_read first.initial) (second.leaves_read second.initial) value

/-- A member that throws leaves its name on the path. -/
theorem TargetMembers.leaves_read : (members : TargetMembers R) → (values : members.Values) →
    Leaves 0 0 1 (members.read values)
  | .nil => fun values => leaves_pure values
  | .cons name type rest => fun (value, values) =>
      (leaves_doMember name type.leaves_read value).bind fun _ => (rest.leaves_read values).bind fun _ => leaves_pure _

end

/-! ### Where an exception leaves the reader -/

def isArrayNode : JsonDocument R → Bool
  | .array _ => true
  | _ => false

/-- A read that throws before it enters an element or a member of the node. -/
def TargetType.FailsAtOnce : TargetType R → JsonDocument R → Prop
  | .bool, m => isBoolNode m = false
  | .string, m => isStringNode m = false
  | .leaf _ read, m => ∃ what, read m = .error (.invalidArgument what)
  | .optional inner, m => m ≠ .null ∧ inner.FailsAtOnce m
  | .vector _, m => isArrayNode m = false
  | .map _, _ => False
  | .struct _, _ => False
  | .pair first second, m => m ≠ .null ∧ second.FailsAtOnce m ∧ first.FailsAtOnce m

/-- A read has thrown at the node itself, with the reader where it was, or further on, with names left on the path. -/
def EndsAt (once : Prop) (m : JsonDocument R) (path : List Bytes) (reader : JsonReader R) : Prop :=
  once ∧ reader = ⟨m, path⟩ ∨ ¬once ∧ path.length < reader.path.length

namespace EndsAt

variable {once once' : Prop} {m : JsonDocument R} {path : List Bytes} {reader : JsonReader R}

theorem congr (h : EndsAt once m path reader) (hiff : once' ↔ once) : EndsAt once' m path reader := by
  rwa [EndsAt, hiff]

theorem of_longer {α : Type} {f : CursorM R α} {e : ReflectError} (hf : Leaves 0 0 1 f) (honce : ¬once)
    (h : f ⟨m, path⟩ = .error e reader) : EndsAt once m path reader := by
  have hafter := hf path.length ⟨m, path⟩ (Nat.le_refl _)
  rw [h] at hafter
  exact .inr ⟨honce, hafter⟩

/-- The reader is where it was exactly when the read has thrown at the node itself. -/
theorem eq_iff (h : EndsAt once m path reader) : reader = ⟨m, path⟩ ↔ once := by
  rcases h with ⟨honce, heq⟩ | ⟨honce, hlonger⟩
  · exact iff_of_true heq honce
  · refine iff_of_false ?_ honce
    rintro rfl
    exact Nat.lt_irrefl _ hlonger

end EndsAt

namespace TargetType

theorem eq_bool_of_isBool {type : TargetType R} (h : type.isBool = true) : type = .bool := by
  cases type with
  | bool => rfl
  | _ => cases h

theorem eq_string_of_isString {type : TargetType R} (h : type.isString = true) : type = .string := by
  cases type with
  | string => rfl
  | _ => cases h

/-- A node on which the overloads for `bool` and `std::string` decide. -/
theorem failsAtOnce_of_overload {type : TargetType R} {m : JsonDocument R} {result : Bool}
    (h : type.isBool = true ∧ isBoolNode m = result ∨ type.isString = true ∧ isStringNode m = result) :
    type.FailsAtOnce m ↔ result = false := by
  rcases h with ⟨hbool, hnode⟩ | ⟨hstring, hnode⟩
  · obtain rfl := eq_bool_of_isBool hbool
    rw [FailsAtOnce, hnode]
  · obtain rfl := eq_string_of_isString hstring
    rw [FailsAtOnce, hnode]

/-- A pair has thrown at its node when the alternatives that were tried have, and it never comes back to the node once
one of them has gone further. -/
theorem endsAt_pair {first second : TargetType R} {value : Option first.Value × Option second.Value}
    {m : JsonDocument R} {path : List Bytes} {what : String} {reader : JsonReader R}
    (hfirst : ∀ {m path what reader}, first.read first.initial ⟨m, path⟩ = .error (.invalidArgument what) reader →
      EndsAt (first.FailsAtOnce m) m path reader)
    (hsecond : ∀ {m path what reader}, second.read second.initial ⟨m, path⟩ = .error (.invalidArgument what) reader →
      EndsAt (second.FailsAtOnce m) m path reader)
    (h : (TargetType.pair first second).read value ⟨m, path⟩ = .error (.invalidArgument what) reader) :
    EndsAt ((TargetType.pair first second).FailsAtOnce m) m path reader := by
  rcases readPair_error h with ⟨hnode, hread⟩ | ⟨hnode, hread⟩ | ⟨what', mid, hthrown, hread⟩
  · obtain ⟨hm, hread⟩ := readOptional_error hread
    have hnot : ¬first.FailsAtOnce m := fun honce => by
      cases (failsAtOnce_of_overload hnode).mp honce
    exact (hfirst hread).congr (iff_of_false (fun honce => hnot honce.2.2) hnot)
  · obtain ⟨hm, hread⟩ := readOptional_error hread
    refine (hsecond hread).congr ?_
    exact ⟨fun honce => honce.2.1, fun honce => ⟨hm, honce, (failsAtOnce_of_overload hnode).mpr rfl⟩⟩
  · obtain ⟨hm, hthrown⟩ := readOptional_error hthrown
    rcases hsecond hthrown with ⟨honce, rfl⟩ | ⟨honce, hlonger⟩
    · obtain ⟨_, hread⟩ := readOptional_error hread
      refine (hfirst hread).congr ?_
      exact ⟨fun honce => honce.2.2, fun honce' => ⟨hm, honce, honce'⟩⟩
    · have hafter := leaves_readOptional (first.leaves_read first.initial) value.1 mid.path.length mid (Nat.le_refl _)
      rw [hread] at hafter
      exact .inr ⟨fun honce' => honce honce'.2.1, Nat.lt_of_lt_of_le hlonger hafter⟩

/-- Where an exception leaves the reader, by the type and the node. -/
theorem read_error : (type : TargetType R) → (value : type.Value) → {m : JsonDocument R} → {path : List Bytes} →
    {what : String} → {reader : JsonReader R} → type.read value ⟨m, path⟩ = .error (.invalidArgument what) reader →
    EndsAt (type.FailsAtOnce m) m path reader
  | .bool => fun _ {m} _ _ _ h => by
      cases m with
      | bool value => cases h
      | _ =>
          cases h
          exact .inl ⟨rfl, rfl⟩
  | .string => fun _ {m} _ _ _ h => by
      cases m with
      | string value => cases h
      | _ =>
          cases h
          exact .inl ⟨rfl, rfl⟩
  | .leaf _ read => fun _ {m} _ what _ h => by
      rw [TargetType.read, get_bind] at h
      cases hread : read m with
      | ok value =>
          rw [hread] at h
          cases h
      | error e =>
          rw [hread] at h
          cases h
          exact .inl ⟨⟨what, hread⟩, rfl⟩
  | .optional inner => fun value {m} _ _ _ h => by
      obtain ⟨hm, hinner⟩ := readOptional_error h
      exact (inner.read_error inner.initial hinner).congr (and_iff_right hm)
  | .vector inner => fun values {m} _ _ _ h => by
      cases m with
      | array entries =>
          have hfn : ∀ state : List inner.Value,
              Leaves 0 0 0 (do return state ++ [← inner.read inner.initial] : CursorM R (List inner.Value)) :=
            fun _ => (inner.leaves_read inner.initial).bind fun _ => leaves_pure _
          have hleaves := leaves_elements hfn values entries
          exact EndsAt.of_longer hleaves (fun hfalse => Bool.noConfusion hfalse) h
      | _ =>
          cases h
          exact .inl ⟨rfl, rfl⟩
  | .map inner => fun value {_} _ _ _ h =>
      EndsAt.of_longer (leaves_iterMap (fun _ _ => (inner.leaves_read inner.initial).bind fun _ => leaves_pure _) value)
        (fun hfalse => hfalse) h
  | .struct members => fun value {_} _ _ _ h => EndsAt.of_longer (members.leaves_read value) (fun hfalse => hfalse) h
  | .pair first second => fun _ {_} _ _ _ h =>
      endsAt_pair (first.read_error first.initial) (second.read_error second.initial) h

end TargetType

namespace TargetType

/-- `bool` and `std::string` have overloads of their own as a first alternative. -/
def hasOverload (type : TargetType R) : Bool := type.isBool || type.isString

/-- From the place `reader` where the second alternative has thrown, the first one is read as if it stood there alone:
the reader is back at the node, and what is read is the alternative of the pair. -/
def FallsBack (first second : TargetType R) (value : Option first.Value × Option second.Value) (m : JsonDocument R)
    (path : List Bytes) (reader : JsonReader R) : Prop :=
  (first.hasOverload = false → reader = ⟨m, path⟩) ∧
    ∀ a reader', (TargetType.optional first).read value.1 ⟨m, path⟩ = .ok a reader' →
      (TargetType.pair first second).read value ⟨m, path⟩ = .ok (a, value.2) reader'

section Fallback

variable {first second : TargetType R} {value : Option first.Value × Option second.Value} {m : JsonDocument R}
  {path : List Bytes} {what : String} {a : Option first.Value} {reader reader' : JsonReader R}

/-- With an overload the node decides, and a first alternative that can be read is read. -/
theorem pair_read_of_overload (hoverload : first.hasOverload = true) (hm : m ≠ .null)
    (hfirst : (TargetType.optional first).read value.1 ⟨m, path⟩ = .ok a reader') :
    (TargetType.pair first second).read value ⟨m, path⟩ = .ok (a, value.2) reader' := by
  have hread := bind_pure_ok hfirst fun a => (a, value.2)
  rcases Bool.or_eq_true_iff.mp hoverload with hbool | hstring
  · obtain rfl := eq_bool_of_isBool hbool
    cases m with
    | bool b => exact hread
    | null => exact absurd rfl hm
    | _ => cases hfirst
  · obtain rfl := eq_string_of_isString hstring
    cases m with
    | string s => exact hread
    | null => exact absurd rfl hm
    | _ => cases hfirst

/-- Without one, the second alternative is tried. -/
theorem pair_read_tried (hoverload : first.hasOverload = false) (value : Option first.Value × Option second.Value) :
    (TargetType.pair first second).read value =
      tryCatchAll ((TargetType.optional second).read value.2 >>= fun b => pure (value.1, b))
        ((TargetType.optional first).read value.1 >>= fun a => pure (a, value.2)) := by
  obtain ⟨hbool, hstring⟩ := Bool.or_eq_false_iff.mp hoverload
  change readPair first.isBool first.isString _ _ value = _
  rw [readPair, hbool, hstring, if_neg Bool.false_ne_true, if_neg Bool.false_ne_true]
  rfl

/-- The first alternative is read from where the second one has thrown. -/
theorem pair_read_of_error (hoverload : first.hasOverload = false)
    (hfails : (TargetType.optional second).read value.2 ⟨m, path⟩ = .error (.invalidArgument what) reader)
    (hfirst : (TargetType.optional first).read value.1 reader = .ok a reader') :
    (TargetType.pair first second).read value ⟨m, path⟩ = .ok (a, value.2) reader' := by
  rw [pair_read_tried hoverload]
  exact (tryCatchAll_of_error (bind_pure_error.mpr hfails)).trans (bind_pure_ok hfirst _)

/-- Where the second alternative throws, the fallback reads the first one from the node of the pair exactly when the
second one has thrown at that node, and not in an element or a member of it. -/
theorem fallsBack_iff
    (hfails : (TargetType.optional second).read value.2 ⟨m, path⟩ = .error (.invalidArgument what) reader) :
    FallsBack first second value m path reader ↔
      first.hasOverload = true ∨ (TargetType.optional second).FailsAtOnce m := by
  have hends := (TargetType.optional second).read_error value.2 hfails
  cases hoverload : first.hasOverload with
  | true =>
      refine iff_of_true ⟨fun h => (by rw [hoverload] at h; cases h), fun a reader' hfirst => ?_⟩ (.inl rfl)
      exact pair_read_of_overload hoverload (readOptional_error hfails).1 hfirst
  | false =>
      constructor
      · rintro ⟨hplace, -⟩
        exact .inr (hends.eq_iff.mp (hplace hoverload))
      · rintro (htrue | honce)
        · cases htrue
        · obtain rfl := hends.eq_iff.mpr honce
          exact ⟨fun _ => rfl, fun a reader' hfirst => pair_read_of_error hoverload hfails hfirst⟩

end Fallback

def wholeNumber : JsonDocument Unit := .number (.integer ⟨5, by decide⟩)

/-- A number is no array of names, and it is read as a number. -/
theorem fallsBack_iff_wholeNumber :
    FallsBack (ofInteger .int) (.vector .string) (none, none) wholeNumber [] ⟨wholeNumber, []⟩ ↔
      (ofInteger .int : TargetType Unit).hasOverload = true ∨
        (TargetType.optional (.vector .string)).FailsAtOnce wholeNumber :=
  have hfails : (TargetType.optional (.vector .string)).read none ⟨wholeNumber, []⟩ =
      .error (.invalidArgument "array") ⟨wholeNumber, []⟩ := rfl
  fallsBack_iff hfails

/-- `["a"]`. -/
def nameList : JsonDocument Unit := .array [.string (bytesOf "a")]

/-- The name in `["a"]` is no number: the array of names is looked for in the name. -/
theorem not_fallsBack_nameList :
    (TargetType.optional (.vector (ofInteger .int))).read none ⟨nameList, []⟩ =
        .error (.invalidArgument "int") ⟨.string (bytesOf "a"), [bytesOf "0"]⟩ ∧
      (TargetType.optional (.vector .string)).read none ⟨nameList, []⟩ = .ok (some [bytesOf "a"]) ⟨nameList, []⟩ ∧
      (TargetType.pair (.vector .string) (.vector (ofInteger .int))).read (none, none) ⟨nameList, []⟩ =
        .error (.invalidArgument "array") ⟨.string (bytesOf "a"), [bytesOf "0"]⟩ ∧
      ¬FallsBack (.vector .string) (.vector (ofInteger .int)) (none, none) nameList []
        ⟨.string (bytesOf "a"), [bytesOf "0"]⟩ := by
  refine ⟨rfl, rfl, rfl, ?_⟩
  rintro ⟨hplace, -⟩
  cases hplace rfl

end TargetType

end LspCpp

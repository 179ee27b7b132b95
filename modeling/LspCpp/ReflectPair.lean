import LspCpp.ReflectFallback
import LspCpp.ReflectRoundTrip
import Mathlib.Logic.Equiv.List
import Mathlib.Logic.Equiv.Option
import Mathlib.Logic.Equiv.Prod

/-! The two readers of the types without a pair, the one that keeps the place of an exception and the one that does not,
are the same reader where nothing is caught; and so it is known which alternative of a pair comes back from its text. -/

namespace LspCpp

variable {R : Type}

namespace JsonReader

variable {σ τ : Type} (f : σ → τ)

theorem map_iterEntries {fn : σ → JsonReader R → Except ReflectError (σ × JsonReader R)}
    {fn' : τ → JsonReader R → Except ReflectError (τ × JsonReader R)}
    (h : ∀ state reader, (fn state reader).map (Prod.map f id) = fn' (f state) reader)
    (entries : List (JsonDocument R)) (state : σ) (reader : JsonReader R) :
    (iterEntries fn entries state reader).map (Prod.map f id) = iterEntries fn' entries (f state) reader := by
  induction entries generalizing state reader with
  | nil => rfl
  | cons entry rest ih =>
      rw [iterEntries, iterEntries, ← h]
      cases fn state { reader with m := entry } with
      | error e => rfl
      | ok result => exact ih result.1 { result.2 with m := reader.m }

theorem map_iterArray {fn : σ → JsonReader R → Except ReflectError (σ × JsonReader R)}
    {fn' : τ → JsonReader R → Except ReflectError (τ × JsonReader R)}
    (h : ∀ state reader, (fn state reader).map (Prod.map f id) = fn' (f state) reader) (state : σ)
    (reader : JsonReader R) :
    (iterArray fn state reader).map (Prod.map f id) = iterArray fn' (f state) reader := by
  obtain ⟨m, path⟩ := reader
  cases m with
  | array entries =>
      simp only [iterArray, ← map_iterEntries f h]
      cases iterEntries fn entries state (pushPath ⟨.array entries, path⟩ (bytesOf "0")) <;> rfl
  | _ => rfl

theorem map_iterMembers {fn : Bytes → σ → JsonReader R → Except ReflectError (σ × JsonReader R)}
    {fn' : Bytes → τ → JsonReader R → Except ReflectError (τ × JsonReader R)}
    (h : ∀ name state reader, (fn name state reader).map (Prod.map f id) = fn' name (f state) reader)
    (members : List (Bytes × JsonDocument R)) (state : σ) (reader : JsonReader R) :
    (iterMembers fn members state reader).map (Prod.map f id) = iterMembers fn' members (f state) reader := by
  induction members generalizing state reader with
  | nil => rfl
  | cons entry rest ih =>
      rw [iterMembers, iterMembers, ← h]
      cases fn (cStr entry.1) state { reader with m := entry.2 } with
      | error e => rfl
      | ok result => exact ih result.1 { result.2 with m := reader.m }

theorem map_iterMap {fn : Bytes → σ → JsonReader R → Except ReflectError (σ × JsonReader R)}
    {fn' : Bytes → τ → JsonReader R → Except ReflectError (τ × JsonReader R)}
    (h : ∀ name state reader, (fn name state reader).map (Prod.map f id) = fn' name (f state) reader) (state : σ)
    (reader : JsonReader R) :
    (iterMap fn state reader).map (Prod.map f id) = iterMap fn' (f state) reader := by
  obtain ⟨m, path⟩ := reader
  cases m with
  | object members =>
      simp only [iterMap, ← map_iterMembers f h]
      cases iterMembers fn members state (pushPath ⟨.object members, path⟩ (bytesOf "0")) <;> rfl
  | _ => rfl

theorem map_doMember {fn : σ → JsonReader R → Except ReflectError (σ × JsonReader R)}
    {fn' : τ → JsonReader R → Except ReflectError (τ × JsonReader R)}
    (h : ∀ state reader, (fn state reader).map (Prod.map f id) = fn' (f state) reader) (name : Bytes) (state : σ)
    (reader : JsonReader R) :
    (doMember name fn state reader).map (Prod.map f id) = doMember name fn' (f state) reader := by
  obtain ⟨m, path⟩ := reader
  cases m with
  | object members =>
      simp only [doMember]
      cases findMember name members with
      | none => rfl
      | some value =>
          simp only [← h]
          cases fn state { pushPath ⟨.object members, path⟩ name with m := value } <;> rfl
  | _ => rfl

end JsonReader

open CursorM

section Returned

variable {inner : TargetType R} (reader : JsonReader R)

theorem returned_read_leaf {α : Type} (initial : α) (read : JsonDocument R → Except ReflectError α) (value : α) :
    returned ((TargetType.leaf initial read).read value) reader = (read reader.m).map fun value => (value, reader) := by
  simp only [returned, TargetType.read, get_bind]
  cases read reader.m <;> rfl

theorem returned_read_vector (values : List inner.Value) :
    returned ((TargetType.vector inner).read values) reader =
      JsonReader.iterArray (fun (values : List inner.Value) entry => do
        let (entryValue, entry) ← returned (inner.read inner.initial) entry
        .ok (values ++ [entryValue], entry)) values reader := by
  refine (returned_iterArray _ _ _).trans ?_
  congr 1
  funext values entry
  exact returned_bind _ _ _

theorem returned_read_map (value : SortedMap Bytes inner.Value) :
    returned ((TargetType.map inner).read value) reader =
      JsonReader.iterMap (fun name (value : SortedMap Bytes inner.Value) entry => do
        let (entryValue, entry) ← returned (inner.read inner.initial) entry
        .ok (value.assign name entryValue, entry)) value reader := by
  refine (returned_iterMap _ _ _).trans ?_
  congr 1
  funext name value entry
  exact returned_bind _ _ _

theorem returned_read_members (name : Bytes) (type : TargetType R) (rest : TargetMembers R) (value : type.Value)
    (values : rest.Values) :
    returned ((TargetMembers.cons name type rest).read (value, values)) reader = (do
      let (value, reader) ← JsonReader.doMember name (fun value => returned (type.read value)) value reader
      let (values, reader) ← returned (rest.read values) reader
      .ok ((value, values), reader)) := by
  refine (returned_bind (doMember name type.read value) _ reader).trans ?_
  rw [returned_doMember]
  congr 1
  funext result
  exact returned_bind _ _ _

end Returned

variable (real : RealFormat R)

/-- A type of the one reader and a type of the other have the same values, the same default-constructed one among them,
and the same reads where the place of an exception is forgotten. -/
structure TargetType.Agrees (target : TargetType R) (type : ReflectType) where
  values : target.Value ≃ type.Value
  initial : values target.initial = type.initial
  read : ∀ (value : target.Value) (reader : JsonReader R),
    (returned (target.read value) reader).map (Prod.map values id) = type.reflectReader real (values value) reader

structure TargetMembers.Agrees (target : TargetMembers R) (members : ReflectMembers) where
  values : target.Values ≃ members.Values
  initial : values target.initial = members.initial
  read : ∀ (value : target.Values) (reader : JsonReader R),
    (returned (target.read value) reader).map (Prod.map values id) = members.reflectReader real (values value) reader

namespace TargetType.Agrees

variable {real} {target : TargetType R} {type : ReflectType}

def bool : TargetType.bool.Agrees real (.bool false) where
  values := Equiv.refl Bool
  initial := rfl
  read _ reader := by
    obtain ⟨m, path⟩ := reader
    cases m <;> rfl

def string : TargetType.string.Agrees real (.string []) where
  values := Equiv.refl Bytes
  initial := rfl
  read _ reader := by
    obtain ⟨m, path⟩ := reader
    cases m <;> rfl

/-- A type that is read from the node alone. -/
def leaf (type : ReflectType) (read : JsonDocument R → Except ReflectError type.Value)
    (h : ∀ value reader, type.reflectReader real value reader = (read reader.m).map fun value => (value, reader)) :
    (TargetType.leaf type.initial read).Agrees real type where
  values := Equiv.refl type.Value
  initial := rfl
  read value reader := by
    refine (congrArg _ (returned_read_leaf _ _ _ _)).trans ?_
    refine .trans ?_ (h value reader).symm
    cases read reader.m <;> rfl

def optional (h : target.Agrees real type) : (TargetType.optional target).Agrees real (.optional type) where
  values := Equiv.optionCongr h.values
  initial := rfl
  read value reader := by
    obtain ⟨m, path⟩ := reader
    refine (congrArg _ (returned_readOptional _ _ _)).trans ?_
    cases m with
    | null => rfl
    | _ =>
        simp only [ReflectType.reflectReader, ← h.initial, ← h.read]
        cases returned (target.read target.initial) _ <;> rfl

def vector (h : target.Agrees real type) : (TargetType.vector target).Agrees real (.vector type) where
  values := Equiv.listEquivOfEquiv h.values
  initial := rfl
  read values reader := by
    refine (congrArg _ (returned_read_vector reader values)).trans
      (JsonReader.map_iterArray (List.map h.values) (fun values entry => ?_) values reader)
    rw [← h.initial, ← h.read]
    cases returned (target.read target.initial) entry with
    | error e => rfl
    | ok result => exact congrArg (fun values => Except.ok (values, result.2)) (List.map_append ..)

/-- The same keys with the values of the other type. -/
def mapValues (h : target.Agrees real type) : SortedMap Bytes target.Value ≃ SortedMap Bytes type.Value where
  toFun := SortedMap.mapValues h.values
  invFun := SortedMap.mapValues h.values.symm
  left_inv := SortedMap.mapValues_mapValues h.values.left_inv
  right_inv := SortedMap.mapValues_mapValues h.values.right_inv

def map (h : target.Agrees real type) : (TargetType.map target).Agrees real (.map type) where
  values := h.mapValues
  initial := rfl
  read value reader := by
    refine (congrArg _ (returned_read_map reader value)).trans
      (JsonReader.map_iterMap (SortedMap.mapValues h.values) (fun name value entry => ?_) value reader)
    rw [← h.initial, ← h.read]
    cases returned (target.read target.initial) entry with
    | error e => rfl
    | ok result =>
        exact congrArg (fun value => Except.ok (value, result.2)) (SortedMap.mapValues_assign h.values value name _)

end TargetType.Agrees

namespace TargetMembers.Agrees

variable {real} {target : TargetType R} {type : ReflectType} {targets : TargetMembers R} {members : ReflectMembers}

def nil : TargetMembers.nil.Agrees real .nil where
  values := Equiv.refl Unit
  initial := rfl
  read _ _ := rfl

def cons (name : Bytes) (h : target.Agrees real type) (hrest : targets.Agrees real members) :
    (TargetMembers.cons name target targets).Agrees real (.cons name type members) where
  values := Equiv.prodCongr h.values hrest.values
  initial := Prod.ext h.initial hrest.initial
  read entry reader := by
    obtain ⟨value, values⟩ := entry
    refine (congrArg _ (returned_read_members reader name target targets value values)).trans ?_
    change _ = JsonReader.doMember name (type.reflectReader real) (h.values value) reader >>= _
    rw [← JsonReader.map_doMember h.values h.read]
    cases JsonReader.doMember name (fun value => returned (target.read value)) value reader with
    | error e => rfl
    | ok result =>
        change (returned (targets.read values) result.2 >>= _).map _ =
          members.reflectReader real (hrest.values values) result.2 >>= _
        rw [← hrest.read]
        cases returned (targets.read values) result.2 <;> rfl

end TargetMembers.Agrees

def TargetType.Agrees.struct {real : RealFormat R} {targets : TargetMembers R} {members : ReflectMembers}
    (h : targets.Agrees real members) : (TargetType.struct targets).Agrees real (.struct members) where
  values := h.values
  initial := h.initial
  read := h.read

mutual

/-- The type as the reader that keeps the place of an exception has it. A `bool` that starts out false and a
`std::string` that starts out empty can be alternatives with overloads of their own. -/
def ReflectType.target : ReflectType → TargetType R
  | .bool false => .bool
  | .bool true => .leaf true fun m => (reflectReaderBool ⟨m, []⟩).map (·.1)
  | .integer type initial => .leaf initial fun m => (type.reflectReader ⟨m, []⟩).map (·.1)
  | .string [] => .string
  | .string (c :: rest) => .leaf (c :: rest) fun m => (reflectReaderString ⟨m, []⟩).map (·.1)
  | .any => .leaf ({} : LspAny) fun m => .ok (LspAny.setJsonString {} (JsonReader.toString real ⟨m, []⟩))
  | .optional inner => .optional inner.target
  | .vector inner => .vector inner.target
  | .map inner => .map inner.target
  | .struct members => .struct members.target

def ReflectMembers.target : ReflectMembers → TargetMembers R
  | .nil => .nil
  | .cons name type rest => .cons name type.target rest.target

end

/-- The number is read from the node alone. -/
theorem IntegerType.reflectReader_eq_map (type : IntegerType) (reader : JsonReader R) :
    type.reflectReader reader =
      ((type.reflectReader ⟨reader.m, []⟩).map (·.1)).map fun value => (value, reader) := by
  obtain ⟨m, path⟩ := reader
  cases m with
  | number n =>
      cases n with
      | integer i =>
          simp only [IntegerType.reflectReader]
          split_ifs <;> rfl
      | real r => rfl
  | _ => rfl

mutual

/-- The two readers agree on every type. -/
def ReflectType.agrees : (type : ReflectType) → (type.target real).Agrees real type
  | .bool false => .bool
  | .bool true => .leaf (.bool true) _ fun _ reader => by
      obtain ⟨m, path⟩ := reader
      cases m <;> rfl
  | .integer type initial => .leaf (.integer type initial) _ fun _ reader => type.reflectReader_eq_map reader
  | .string [] => .string
  | .string (c :: rest) => .leaf (.string (c :: rest)) _ fun _ reader => by
      obtain ⟨m, path⟩ := reader
      cases m <;> rfl
  | .any => .leaf .any _ fun _ _ => rfl
  | .optional inner => inner.agrees.optional
  | .vector inner => inner.agrees.vector
  | .map inner => inner.agrees.map
  | .struct members => .struct members.agrees

def ReflectMembers.agrees : (members : ReflectMembers) → (members.target real).Agrees real members
  | .nil => .nil
  | .cons name type rest => .cons name type.agrees rest.agrees

end

section Alternatives

variable {m : JsonDocument R} {path : List Bytes} {what : String} {reader' : JsonReader R}

theorem readOptional_of_ne_null {α : Type} {read : CursorM R α} (value : Option α) (hm : m ≠ .null) :
    readOptional read value ⟨m, path⟩ = (read >>= fun a => pure (some a)) ⟨m, path⟩ := by
  cases m with
  | null => exact absurd rfl hm
  | _ => rfl

namespace TargetType

variable {first second : TargetType R} {value : Option first.Value × Option second.Value}

/-- An overload that the node is not for reads the second alternative. -/
theorem pair_read_overload (hoverload : first.hasOverload = true) (hfails : first.FailsAtOnce m) :
    (TargetType.pair first second).read value ⟨m, path⟩ =
      ((TargetType.optional second).read value.2 >>= fun b => pure (value.1, b)) ⟨m, path⟩ := by
  rcases Bool.or_eq_true_iff.mp hoverload with hbool | hstring
  · obtain rfl := eq_bool_of_isBool hbool
    cases m with
    | bool b => cases hfails
    | _ => rfl
  · obtain rfl := eq_string_of_isString hstring
    cases m with
    | string s => cases hfails
    | _ => rfl

theorem pair_read_second {b : Option second.Value} (hfirst : first.hasOverload = true → first.FailsAtOnce m)
    (hsecond : (TargetType.optional second).read value.2 ⟨m, path⟩ = .ok b reader') :
    (TargetType.pair first second).read value ⟨m, path⟩ = .ok (value.1, b) reader' := by
  have hread := bind_pure_ok hsecond fun b => (value.1, b)
  cases hoverload : first.hasOverload with
  | true => exact (pair_read_overload hoverload (hfirst hoverload)).trans hread
  | false =>
      rw [pair_read_tried hoverload]
      exact tryCatchAll_of_ok hread

/-- A type that fails at the node throws there. -/
theorem read_of_failsAtOnce (type : TargetType R) (value : type.Value) {m : JsonDocument R} (path : List Bytes)
    (h : type.FailsAtOnce m) : ∃ what, type.read value ⟨m, path⟩ = .error (.invalidArgument what) ⟨m, path⟩ := by
  cases type with
  | bool =>
      cases m with
      | bool value => cases h
      | _ => exact ⟨_, rfl⟩
  | string =>
      cases m with
      | string value => cases h
      | _ => exact ⟨_, rfl⟩
  | leaf initial read =>
      obtain ⟨what, hread⟩ := h
      refine ⟨what, ?_⟩
      rw [TargetType.read, get_bind, hread]
      rfl
  | optional inner =>
      obtain ⟨hm, hinner⟩ := h
      obtain ⟨what, hread⟩ := inner.read_of_failsAtOnce inner.initial path hinner
      exact ⟨what, (readOptional_of_ne_null value hm).trans (bind_pure_error.mpr hread)⟩
  | vector inner =>
      cases m with
      | array entries => cases h
      | _ => exact ⟨_, rfl⟩
  | map inner => exact h.elim
  | struct members => exact h.elim
  | pair first second =>
      obtain ⟨hm, hsecond, hfirst⟩ := h
      obtain ⟨what, hread⟩ := second.read_of_failsAtOnce second.initial path hsecond
      obtain ⟨what', hread'⟩ := first.read_of_failsAtOnce first.initial path hfirst
      have hthrown : (TargetType.optional second).read value.2 ⟨m, path⟩ = .error (.invalidArgument what) ⟨m, path⟩ :=
        (readOptional_of_ne_null value.2 hm).trans (bind_pure_error.mpr hread)
      have hthrown' : (TargetType.optional first).read value.1 ⟨m, path⟩ = .error (.invalidArgument what') ⟨m, path⟩ :=
        (readOptional_of_ne_null value.1 hm).trans (bind_pure_error.mpr hread')
      cases hoverload : first.hasOverload with
      | true => exact ⟨what, (pair_read_overload hoverload hfirst).trans (bind_pure_error.mpr hthrown)⟩
      | false =>
          refine ⟨what', (congrFun (pair_read_tried hoverload value) _).trans ?_⟩
          exact (tryCatchAll_of_error (bind_pure_error.mpr hthrown)).trans (bind_pure_error.mpr hthrown')
termination_by structural type

/-- A node that the second alternative throws at. -/
theorem optional_read_of_failsAtOnce (hm : m ≠ .null) (hfails : second.FailsAtOnce m) :
    ∃ what, (TargetType.optional second).read none ⟨m, path⟩ = .error (.invalidArgument what) ⟨m, path⟩ :=
  (TargetType.optional second).read_of_failsAtOnce (none : Option second.Value) path ⟨hm, hfails⟩

/-- What the node is read as by the first alternative is the alternative of the pair if there is an overload for it, or
if the second one throws at the node. -/
theorem pair_read_first_iff {a : first.Value} (hm : m ≠ .null)
    (hfirst : first.read first.initial ⟨m, path⟩ = .ok a ⟨m, path⟩) :
    (TargetType.pair first second).read ((none, none) : Option first.Value × Option second.Value) ⟨m, path⟩ =
        .ok (some a, none) ⟨m, path⟩ ↔
      first.hasOverload = true ∨ second.FailsAtOnce m := by
  have hoptional : (TargetType.optional first).read none ⟨m, path⟩ = .ok (some a) ⟨m, path⟩ :=
    (readOptional_of_ne_null none hm).trans (bind_pure_ok hfirst some)
  cases hoverload : first.hasOverload with
  | true => exact iff_of_true (pair_read_of_overload hoverload hm hoptional) (.inl rfl)
  | false =>
      constructor
      · intro hread
        rw [pair_read_tried hoverload] at hread
        rcases tryCatchAll_ok hread with hsecond | ⟨what, mid, hthrown, hread⟩
        · obtain ⟨b, -, heq⟩ := bind_pure_eq_ok.mp hsecond
          cases heq
        · rcases (TargetType.optional second).read_error none (bind_pure_error.mp hthrown) with
            ⟨honce, -⟩ | ⟨-, hlonger⟩
          · exact .inr honce.2
          · obtain ⟨a', hread, -⟩ := bind_pure_eq_ok.mp hread
            have hpath := (leaves_readOptional (first.leaves_read first.initial) none).path_le hread
            exact absurd hlonger (Nat.not_lt_of_le hpath)
      · rintro (htrue | hfails)
        · cases htrue
        · obtain ⟨what, hthrown⟩ := optional_read_of_failsAtOnce hm hfails
          exact pair_read_of_error hoverload hthrown hoptional

/-- What the node is read as by the second alternative is the alternative of the pair unless the node is the one that an
overload is for. -/
theorem pair_read_second_iff {b : second.Value} (hm : m ≠ .null)
    (hsecond : second.read second.initial ⟨m, path⟩ = .ok b ⟨m, path⟩) :
    (TargetType.pair first second).read ((none, none) : Option first.Value × Option second.Value) ⟨m, path⟩ =
        .ok (none, some b) ⟨m, path⟩ ↔
      (first.hasOverload = true → first.FailsAtOnce m) := by
  have hoptional : (TargetType.optional second).read none ⟨m, path⟩ = .ok (some b) ⟨m, path⟩ :=
    (readOptional_of_ne_null none hm).trans (bind_pure_ok hsecond some)
  refine ⟨fun hread hoverload => ?_, fun hfirst => pair_read_second hfirst hoptional⟩
  rcases Bool.or_eq_true_iff.mp hoverload with hbool | hstring
  · obtain rfl := eq_bool_of_isBool hbool
    cases m with
    | bool b => cases hread
    | _ => rfl
  · obtain rfl := eq_string_of_isString hstring
    cases m with
    | string s => cases hread
    | _ => rfl

end TargetType

end Alternatives

/-- `Reflect(Writer&, std::pair<optional<T1>, optional<T2>>&)`. -/
def ReflectType.reflectWriterPair (first second : ReflectType) (value : Option first.Value × Option second.Value) :
    Bytes :=
  if value.1.isSome then (ReflectType.optional first).reflectWriter value.1
  else (ReflectType.optional second).reflectWriter value.2

/-- A pair is read back from the text that is written for it, and the reader ends where it began. -/
def PairReadsBack (first second : ReflectType) (value : Option first.Value × Option second.Value) : Prop :=
  ∃ m, Json.parse real.numbers (first.reflectWriterPair second value) = some m ∧ ∀ path,
    (TargetType.pair (first.target real) (second.target real)).read
        ((none, none) : Option (first.target real).Value × Option (second.target real).Value) ⟨m, path⟩ =
      .ok (value.1.map (first.agrees real).values.symm, value.2.map (second.agrees real).values.symm) ⟨m, path⟩

/-- A read without exception is one of the reader that would keep the place of it. -/
theorem TargetType.Agrees.read_ok {target : TargetType R} {type : ReflectType} {real : RealFormat R}
    (h : target.Agrees real type) {value : type.Value} {reader reader' : JsonReader R}
    (hread : type.reflectReader real type.initial reader = .ok (value, reader')) :
    target.read target.initial reader = .ok (h.values.symm value) reader' := by
  rw [← h.initial, ← h.read, returned] at hread
  cases hresult : target.read target.initial reader with
  | error e r =>
      rw [hresult] at hread
      cases hread
  | ok a r =>
      rw [hresult] at hread
      cases hread
      exact congrArg (EStateM.Result.ok · r) (h.values.symm_apply_apply a).symm

section PairReadsBack

variable (first second : ReflectType) {m : JsonDocument R}

/-- The first alternative comes back if there is an overload for it, or if the second one cannot be read from the node
of its text. -/
theorem pair_readsBack_first_iff (hwf : first.WellFormed) (hany : first.AnyFree) (hoptional : first.isOptional = false)
    {value : first.Value} (hnul : first.NulFree value) (hm : first.jsonOf real value = some m) :
    PairReadsBack real first second (some value, none) ↔
      (first.target real).hasOverload = true ∨ (second.target real).FailsAtOnce m := by
  have hparse : Json.parse real.numbers (first.reflectWriterPair second (some value, none)) = some m :=
    (reads_of_anyFree real hany value).parse_eq.trans hm
  have hnull : m ≠ .null := fun heq =>
    first.jsonOf_ne_null real hoptional (first.isAny_of_anyFree hany) value (heq ▸ hm)
  have hread := fun path => (first.agrees real).read_ok (reflectReader_of_jsonOf real first hwf hany hnul hm path)
  constructor
  · rintro ⟨m', hparse', hback⟩
    obtain rfl := Option.some.inj (hparse.symm.trans hparse')
    exact (TargetType.pair_read_first_iff hnull (hread [])).mp (hback [])
  · exact fun h => ⟨m, hparse, fun path => (TargetType.pair_read_first_iff hnull (hread path)).mpr h⟩

/-- The second alternative comes back unless its text is the node that an overload is for. -/
theorem pair_readsBack_second_iff (hwf : second.WellFormed) (hany : second.AnyFree)
    (hoptional : second.isOptional = false) {value : second.Value} (hnul : second.NulFree value)
    (hm : second.jsonOf real value = some m) :
    PairReadsBack real first second (none, some value) ↔
      ((first.target real).hasOverload = true → (first.target real).FailsAtOnce m) := by
  have hparse : Json.parse real.numbers (first.reflectWriterPair second (none, some value)) = some m :=
    (reads_of_anyFree real hany value).parse_eq.trans hm
  have hnull : m ≠ .null := fun heq =>
    second.jsonOf_ne_null real hoptional (second.isAny_of_anyFree hany) value (heq ▸ hm)
  have hread := fun path => (second.agrees real).read_ok (reflectReader_of_jsonOf real second hwf hany hnul hm path)
  constructor
  · rintro ⟨m', hparse', hback⟩
    obtain rfl := Option.some.inj (hparse.symm.trans hparse')
    exact (TargetType.pair_read_second_iff hnull (hread [])).mp (hback [])
  · exact fun h => ⟨m, hparse, fun path => (TargetType.pair_read_second_iff hnull (hread path)).mpr h⟩

/-- Every `lsProgressToken` comes back, a string without a NUL byte or a number. -/
theorem progressToken_readsBack (initial : IntegerType.int.Value) :
    (∀ text : Bytes, NulFree text → PairReadsBack real (.string []) (.integer .int initial) (some text, none)) ∧
      ∀ n : IntegerType.int.Value, PairReadsBack real (.string []) (.integer .int initial) (none, some n) :=
  ⟨fun _ hnul => (pair_readsBack_first_iff real (.string []) _ trivial trivial rfl hnul rfl).mpr (.inl rfl),
    fun _ => (pair_readsBack_second_iff real (.string []) (.integer .int initial) trivial trivial rfl trivial rfl).mpr
      fun _ => rfl⟩

end PairReadsBack

end LspCpp

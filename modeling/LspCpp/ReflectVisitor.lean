import LspCpp.ReflectNumber

/-! `JsonReader` walks through a document with a cursor and a path that every member and every element changes and puts
back. The elementary types and `lsp::Any` are read at the cursor; a value is written as one piece of text, and the
commas and colons around it come from where it stands. -/

namespace LspCpp

/-- What ends a read: `std::invalid_argument`, or an assertion of rapidjson about the type of a value. -/
inductive ReflectError where
  | invalidArgument (what : String)
  | assertion
  deriving DecidableEq

variable {R : Type}

/-- A value of a document. -/
abbrev JsonDocument (R : Type) := Json (JsonNumber R)

/-- `JsonReader`: the cursor `m_` and the names on the way to it. -/
structure JsonReader (R : Type) where
  m : JsonDocument R
  path : List Bytes

namespace JsonReader

variable {σ : Type}

/-- The loop of `IterArray`. `fn` may leave the cursor anywhere. -/
def iterEntries (fn : σ → JsonReader R → Except ReflectError (σ × JsonReader R)) :
    List (JsonDocument R) → σ → JsonReader R → Except ReflectError (σ × JsonReader R)
  | [], state, reader => .ok (state, reader)
  | entry :: rest, state, reader => do
      let saved := reader.m
      let (state, reader) ← fn state { reader with m := entry }
      iterEntries fn rest state { reader with m := saved }

def popPath (reader : JsonReader R) : JsonReader R := { reader with path := reader.path.dropLast }

def pushPath (reader : JsonReader R) (name : Bytes) : JsonReader R := { reader with path := reader.path ++ [name] }

/-- `JsonReader::IterArray`. -/
def iterArray (fn : σ → JsonReader R → Except ReflectError (σ × JsonReader R)) (state : σ) (reader : JsonReader R) :
    Except ReflectError (σ × JsonReader R) :=
  match reader.m with
  | .array entries => do
      let (state, reader) ← iterEntries fn entries state (reader.pushPath (bytesOf "0"))
      .ok (state, reader.popPath)
  | _ => .error (.invalidArgument "array")

/-- The loop of `IterMap`. The names come as C strings. -/
def iterMembers (fn : Bytes → σ → JsonReader R → Except ReflectError (σ × JsonReader R)) :
    List (Bytes × JsonDocument R) → σ → JsonReader R → Except ReflectError (σ × JsonReader R)
  | [], state, reader => .ok (state, reader)
  | entry :: rest, state, reader => do
      let saved := reader.m
      let (state, reader) ← fn (cStr entry.1) state { reader with m := entry.2 }
      iterMembers fn rest state { reader with m := saved }

/-- `JsonReader::IterMap`. `GetObject` asserts that there is an object. -/
def iterMap (fn : Bytes → σ → JsonReader R → Except ReflectError (σ × JsonReader R)) (state : σ)
    (reader : JsonReader R) : Except ReflectError (σ × JsonReader R) :=
  match reader.m with
  | .object members => do
      let (state, reader) ← iterMembers fn members state (reader.pushPath (bytesOf "0"))
      .ok (state, reader.popPath)
  | _ => .error .assertion

/-- `GenericValue::FindMember`: the first member of the name. -/
def findMember (name : Bytes) (members : List (Bytes × JsonDocument R)) : Option (JsonDocument R) :=
  (members.find? fun member => member.1 == name).map (·.2)

/-- `JsonReader::DoMember`. Without an object, or without the member, nothing is read. -/
def doMember (name : Bytes) (fn : σ → JsonReader R → Except ReflectError (σ × JsonReader R)) (state : σ)
    (reader : JsonReader R) : Except ReflectError (σ × JsonReader R) :=
  match reader.m with
  | .object members =>
      let pushed := reader.pushPath name
      match findMember name members with
      | some value => do
          let (state, reader) ← fn state { pushed with m := value }
          .ok (state, { reader with m := pushed.m }.popPath)
      | none => .ok (state, pushed.popPath)
  | _ => .ok (state, reader)

/-- `fn` puts the cursor and the path back and makes `state'` of `state`. -/
def Restores (fn : σ → JsonReader R → Except ReflectError (σ × JsonReader R)) (m : JsonDocument R) (state state' : σ) :
    Prop :=
  ∀ path, fn state ⟨m, path⟩ = .ok (state', ⟨m, path⟩)

theorem popPath_pushPath (reader : JsonReader R) (name : Bytes) : (reader.pushPath name).popPath = reader := by
  simp [pushPath, popPath]

theorem iterEntries_cons {fn : σ → JsonReader R → Except ReflectError (σ × JsonReader R)} {entry : JsonDocument R}
    {state : σ} (state' : σ) (h : Restores fn entry state state') (rest : List (JsonDocument R))
    (reader : JsonReader R) :
    iterEntries fn (entry :: rest) state reader = iterEntries fn rest state' reader := by
  rw [iterEntries, h reader.path]
  rfl

theorem iterMembers_cons {fn : Bytes → σ → JsonReader R → Except ReflectError (σ × JsonReader R)}
    {entry : Bytes × JsonDocument R} {state : σ} (state' : σ) (h : Restores (fn (cStr entry.1)) entry.2 state state')
    (rest : List (Bytes × JsonDocument R)) (reader : JsonReader R) :
    iterMembers fn (entry :: rest) state reader = iterMembers fn rest state' reader := by
  rw [iterMembers, h reader.path]
  rfl

theorem restores_iterArray {fn : σ → JsonReader R → Except ReflectError (σ × JsonReader R)}
    {entries : List (JsonDocument R)} {state state' : σ}
    (h : ∀ reader, iterEntries fn entries state reader = .ok (state', reader)) :
    Restores (iterArray fn) (.array entries) state state' := by
  intro path
  simp only [iterArray, h, bind, Except.bind, popPath_pushPath]

theorem restores_iterMap {fn : Bytes → σ → JsonReader R → Except ReflectError (σ × JsonReader R)}
    {members : List (Bytes × JsonDocument R)} {state state' : σ}
    (h : ∀ reader, iterMembers fn members state reader = .ok (state', reader)) :
    Restores (iterMap fn) (.object members) state state' := by
  intro path
  simp only [iterMap, h, bind, Except.bind, popPath_pushPath]

theorem restores_doMember {fn : σ → JsonReader R → Except ReflectError (σ × JsonReader R)} {name : Bytes}
    {members : List (Bytes × JsonDocument R)} {v : JsonDocument R} {state state' : σ}
    (hfind : findMember name members = some v) (h : Restores fn v state state') :
    Restores (doMember name fn) (.object members) state state' := by
  intro path
  simp only [doMember, hfind, pushPath, h (path ++ [name]), bind, Except.bind, popPath, List.dropLast_concat]

theorem restores_doMember_none {fn : σ → JsonReader R → Except ReflectError (σ × JsonReader R)} {name : Bytes}
    {members : List (Bytes × JsonDocument R)} (hfind : findMember name members = none) (state : σ) :
    Restores (doMember name fn) (.object members) state state := by
  intro path
  simp only [doMember, hfind, popPath_pushPath]

end JsonReader

/-- The integer types that `Reflect` is defined for. -/
inductive IntegerType where
  | uint8
  | short
  | unsignedShort
  | int
  | unsigned
  | long
  | unsignedLong
  | longLong
  | unsignedLongLong
  deriving DecidableEq

namespace IntegerType

/-- The least and the greatest value; `long` has 64 bits. -/
def bounds : IntegerType → Int × Int
  | .uint8 => (0, 255)
  | .short => (-32768, 32767)
  | .unsignedShort => (0, 65535)
  | .int => (-2147483648, 2147483647)
  | .unsigned => (0, 4294967295)
  | .long | .longLong => (-9223372036854775808, 9223372036854775807)
  | .unsignedLong | .unsignedLongLong => (0, 18446744073709551615)

/-- What `std::invalid_argument` says. -/
def what : IntegerType → String
  | .uint8 => "uint8_t"
  | .short => "short"
  | .unsignedShort => "unsigned short"
  | .int => "int"
  | .unsigned => "unsigned"
  | .long => "long"
  | .unsignedLong => "unsigned long"
  | .longLong => "long long"
  | .unsignedLongLong => "unsigned long long"

/-- The type whose test `IsInt`, `IsInt64` or `IsUint64` stands before the read. -/
def tested : IntegerType → IntegerType
  | .uint8 | .short | .unsignedShort | .int => .int
  | .long | .longLong => .longLong
  | .unsigned | .unsignedLong | .unsignedLongLong => .unsignedLongLong

abbrev Value (type : IntegerType) := {i : Int // type.bounds.1 ≤ i ∧ i ≤ type.bounds.2}

theorem bounds_le (type : IntegerType) : type.bounds.1 ≤ type.bounds.2 := by cases type <;> decide

/-- The conversion to the type, modulo its size. -/
def cast (type : IntegerType) (i : Int) : type.Value :=
  ⟨type.bounds.1 + (i - type.bounds.1) % (type.bounds.2 - type.bounds.1 + 1), by
    have hle := type.bounds_le
    have hnonneg := Int.emod_nonneg (i - type.bounds.1) (b := type.bounds.2 - type.bounds.1 + 1) (by omega)
    have hlt := Int.emod_lt_of_pos (i - type.bounds.1) (b := type.bounds.2 - type.bounds.1 + 1) (by omega)
    constructor <;> omega⟩

theorem cast_val {type : IntegerType} (value : type.Value) : type.cast value.1 = value := by
  obtain ⟨i, hlower, hupper⟩ := value
  apply Subtype.ext
  simp only [cast]
  rw [Int.emod_eq_of_lt (by omega) (by omega)]
  omega

theorem tested_of_value {type : IntegerType} (value : type.Value) :
    type.tested.bounds.1 ≤ value.1 ∧ value.1 ≤ type.tested.bounds.2 := by
  obtain ⟨i, hi⟩ := value
  cases type <;> simp only [tested, bounds] at hi ⊢ <;> omega

/-- An integer as one of the document. -/
def toJson {type : IntegerType} (value : type.Value) : JsonInteger :=
  ⟨value.1, by
    obtain ⟨i, hi⟩ := value
    cases type <;> simp only [bounds] at hi ⊢ <;> omega⟩

/-- `Reflect(Reader&, T&)` for the integer types. -/
def reflectReader (type : IntegerType) (reader : JsonReader R) : Except ReflectError (type.Value × JsonReader R) :=
  match reader.m with
  | .number (.integer i) =>
      if type.tested.bounds.1 ≤ i.1 ∧ i.1 ≤ type.tested.bounds.2 then .ok (type.cast i.1, reader)
      else .error (.invalidArgument type.what)
  | _ => .error (.invalidArgument type.what)

theorem reflectReader_toJson {type : IntegerType} (value : type.Value) (path : List Bytes) :
    type.reflectReader ⟨(.number (.integer (toJson value)) : JsonDocument R), path⟩ =
      .ok (value, ⟨.number (.integer (toJson value)), path⟩) := by
  have htested : type.tested.bounds.1 ≤ (toJson value).1 ∧ (toJson value).1 ≤ type.tested.bounds.2 :=
    tested_of_value value
  have hcast : type.cast (toJson value).1 = value := cast_val value
  simp only [reflectReader, if_pos htested, hcast]

end IntegerType

/-- `Reflect(Reader&, bool&)`. -/
def reflectReaderBool (reader : JsonReader R) : Except ReflectError (Bool × JsonReader R) :=
  match reader.m with
  | .bool value => .ok (value, reader)
  | _ => .error (.invalidArgument "bool")

/-- `Reflect(Writer&, bool&)`. -/
def reflectWriterBool (value : Bool) : Bytes := if value then Json.trueWord else Json.falseWord

/-- `Reflect(Writer&, std::string&)`, with the length of the text, which has less than 2^32 bytes. -/
def reflectWriterString (value : Bytes) : Bytes := Json.stringText value

/-- `Reflect(Reader&, std::string&)`: `GetString` hands out a C string. -/
def reflectReaderString (reader : JsonReader R) : Except ReflectError (Bytes × JsonReader R) :=
  match reader.m with
  | .string value => .ok (cStr value, reader)
  | _ => .error (.invalidArgument "std::string")

theorem cStr_eq_self {text : Bytes} (h : 0 ∉ text) : cStr text = text := by
  rw [cStr, List.takeWhile_eq_self_iff]
  intro b hb
  have hne : b ≠ 0 := fun heq => h (heq ▸ hb)
  simpa using hne

theorem zero_notMem_cStr (text : Bytes) : 0 ∉ cStr text := by
  intro h
  have := List.mem_takeWhile_imp h
  simp at this

theorem cStr_eq_self_iff {text : Bytes} : cStr text = text ↔ 0 ∉ text :=
  ⟨fun h => h ▸ zero_notMem_cStr text, cStr_eq_self⟩

end LspCpp

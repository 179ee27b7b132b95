import LspCpp.LibSorted
import LspCpp.ReflectVisitor

/-! The types that `Reflect` builds from the elementary ones and `lsp::Any`, with their values, and the two visitors
over them: what is written for a value and what is read into one. -/

namespace LspCpp

instance : IsTrans Bytes (· < ·) := inferInstanceAs (IsTrans (List UInt8) (· < ·))

instance : Std.Trichotomous (α := Bytes) (· < ·) := inferInstanceAs (Std.Trichotomous (α := List UInt8) (· < ·))

/-- `lsp::Any`: a text of JSON. -/
structure LspAny where
  data : Bytes := []
  deriving DecidableEq

namespace LspAny

/-- `Any::SetJsonString`. -/
def setJsonString (_ : LspAny) (data : Bytes) : LspAny := ⟨data⟩

/-- `Any::SetData`: the output of a writer comes as a C string. -/
def setData (any : LspAny) (output : Bytes) : LspAny := { any with data := cStr output }

end LspAny

mutual

/-- A type of the universe. The elementary types carry the value that a member of the type is initialized with. -/
inductive ReflectType where
  | bool (initial : Bool)
  | integer (type : IntegerType) (initial : type.Value)
  | string (initial : Bytes)
  | any
  | optional (inner : ReflectType)
  | vector (inner : ReflectType)
  | map (inner : ReflectType)
  | struct (members : ReflectMembers)

/-- The members of a struct as `MAKE_REFLECT_STRUCT` lists them. -/
inductive ReflectMembers where
  | nil
  | cons (name : Bytes) (type : ReflectType) (rest : ReflectMembers)

end

mutual

/-- The values of a type. -/
def ReflectType.Value : ReflectType → Type
  | .bool _ => Bool
  | .integer type _ => type.Value
  | .string _ => Bytes
  | .any => LspAny
  | .optional inner => Option inner.Value
  | .vector inner => List inner.Value
  | .map inner => SortedMap Bytes inner.Value
  | .struct members => members.Values

def ReflectMembers.Values : ReflectMembers → Type
  | .nil => Unit
  | .cons _ type rest => type.Value × rest.Values

end

mutual

/-- A default-constructed value: optional values and containers are empty. -/
def ReflectType.initial : (type : ReflectType) → type.Value
  | .bool initial => initial
  | .integer _ initial => initial
  | .string initial => initial
  | .any => ({} : LspAny)
  | .optional inner => (none : Option inner.Value)
  | .vector inner => ([] : List inner.Value)
  | .map inner => (SortedMap.empty : SortedMap Bytes inner.Value)
  | .struct members => members.initial

def ReflectMembers.initial : (members : ReflectMembers) → members.Values
  | .nil => ()
  | .cons _ type rest => (type.initial, rest.initial)

end

/-- An optional member without a value is left out of an object. -/
def ReflectType.omitted : (type : ReflectType) → type.Value → Bool
  | .optional _, value => Option.isNone value
  | _, _ => false

section Visitors

variable {R : Type} (real : RealFormat R)

mutual

/-- `Reflect(Writer&, T&)`: the text of the value. -/
def ReflectType.reflectWriter : (type : ReflectType) → type.Value → Bytes
  | .bool _, value => reflectWriterBool value
  | .integer _ _, value => integerLexeme (IntegerType.toJson value)
  | .string _, value => reflectWriterString value
  | .any, value => LspAny.data value
  | .optional inner, value =>
      match (value : Option inner.Value) with
      | some value => inner.reflectWriter value
      | none => Json.nullWord
  | .vector inner, values => Json.arrayText ((values : List inner.Value).map inner.reflectWriter)
  | .map inner, value =>
      Json.objectText ((SortedMap.entries value).map fun it => (cStr it.1, inner.reflectWriter it.2))
  | .struct members, value => Json.objectText (members.reflectWriter value)

/-- `ReflectMember(Writer&, name, T&)` one after the other: the keys with their texts. -/
def ReflectMembers.reflectWriter : (members : ReflectMembers) → members.Values → List (Bytes × Bytes)
  | .nil, _ => []
  | .cons name type rest, (value, values) =>
      if type.omitted value then rest.reflectWriter values
      else (cStr name, type.reflectWriter value) :: rest.reflectWriter values

end

/-- `JsonReader::ToString`. -/
def JsonReader.toString (reader : JsonReader R) : Bytes := cStr (Json.text real.numbers reader.m)

mutual

/-- `Reflect(Reader&, T&)`: what the value becomes. -/
def ReflectType.reflectReader : (type : ReflectType) → type.Value → JsonReader R →
    Except ReflectError (type.Value × JsonReader R)
  | .bool _, _, reader => reflectReaderBool reader
  | .integer type _, _, reader => type.reflectReader reader
  | .string _, _, reader => reflectReaderString reader
  | .any, value, reader => .ok (LspAny.setJsonString value (reader.toString real), reader)
  | .optional inner, value, reader =>
      match reader.m with
      | .null => .ok (value, reader)
      | _ => do
          let (realValue, reader) ← inner.reflectReader inner.initial reader
          .ok ((some realValue : Option inner.Value), reader)
  | .vector inner, values, reader =>
      JsonReader.iterArray (fun (values : List inner.Value) entry => do
        let (entryValue, entry) ← inner.reflectReader inner.initial entry
        .ok (values ++ [entryValue], entry)) values reader
  | .map inner, value, reader =>
      JsonReader.iterMap (fun name (value : SortedMap Bytes inner.Value) entry => do
        let (entryValue, entry) ← inner.reflectReader inner.initial entry
        .ok (value.assign name entryValue, entry)) value reader
  | .struct members, value, reader => members.reflectReader value reader

/-- `ReflectMember(Reader&, name, T&)` one after the other. -/
def ReflectMembers.reflectReader : (members : ReflectMembers) → members.Values → JsonReader R →
    Except ReflectError (members.Values × JsonReader R)
  | .nil, values, reader => .ok (values, reader)
  | .cons name type rest, (value, values), reader => do
      let (value, reader) ← JsonReader.doMember name type.reflectReader value reader
      let (values, reader) ← rest.reflectReader values reader
      .ok ((value, values), reader)

end

end Visitors

end LspCpp

import LspCpp.ReflectRoundTrip
import LspCpp.ReplyClassify

/-! Strings on the wire. Values and request ids are written with their length and keys as C strings, and all of them
are read as C strings: what comes back is the part before the first NUL. -/

namespace LspCpp

/-- `lsRequestId::Type`. -/
inductive LsRequestIdType where
  | kNone
  | kInt
  | kString
  deriving DecidableEq

/-- The fields of `lsRequestId`. -/
structure LsRequestIdFields where
  type : LsRequestIdType := .kNone
  value : IntegerType.longLong.Value := ⟨-1, by decide⟩
  k_string : Bytes := []
  deriving DecidableEq

namespace LsRequestIdFields

variable {R : Type}

/-- `Reflect(Reader&, lsRequestId&)`. -/
def reflectReader (id : LsRequestIdFields) (reader : JsonReader R) : LsRequestIdFields :=
  match reader.m with
  | .number (.integer i) =>
      if h : IntegerType.longLong.bounds.1 ≤ i.1 ∧ i.1 ≤ IntegerType.longLong.bounds.2 then
        { id with type := .kInt, value := ⟨i.1, h⟩ }
      else { id with type := .kNone, value := ⟨-1, by decide⟩ }
  | .string value => { type := .kString, k_string := cStr value, value := ⟨-1, by decide⟩ }
  | _ => { id with type := .kNone, value := ⟨-1, by decide⟩ }

/-- `Reflect(Writer&, lsRequestId&)`, for a string of less than 2^32 bytes. -/
def reflectWriter (id : LsRequestIdFields) : Bytes :=
  match id.type with
  | .kNone => Json.nullWord
  | .kInt => integerLexeme (IntegerType.toJson id.value)
  | .kString => Json.stringText id.k_string

/-- `lsRequestId::set` with a string. -/
def ofString (v : Bytes) : LsRequestIdFields := { k_string := v, type := .kString }

end LsRequestIdFields

section Wire

variable {R : Type} (real : RealFormat R)

/-- What a string comes back as. -/
def readValue (s : Bytes) : Option Bytes :=
  (Json.parse real.numbers (reflectWriterString s)).bind fun m =>
    (reflectReaderString (R := R) ⟨m, []⟩).toOption.map (·.1)

/-- What the request id of a string comes back as. -/
def readId (s : Bytes) : Option LsRequestIdFields :=
  (Json.parse real.numbers (LsRequestIdFields.ofString s).reflectWriter).map fun m =>
    LsRequestIdFields.reflectReader (R := R) {} ⟨m, []⟩

/-- `std::map<std::string, T>` with one key. -/
def singleMap {inner : ReflectType} (s : Bytes) (value : inner.Value) : SortedMap Bytes inner.Value :=
  SortedMap.empty.assign s value

/-- The keys that come back for the one of a map. -/
def readKeys {inner : ReflectType} (s : Bytes) (value : inner.Value) : Option (List Bytes) :=
  (Json.parse real.numbers (ReflectType.reflectWriter (.map inner) (singleMap s value))).bind fun m =>
    (ReflectType.reflectReader real (.map inner) (SortedMap.empty : SortedMap Bytes inner.Value) ⟨m, []⟩).toOption.map
      fun read => (SortedMap.entries read.1).map (·.1)

theorem readValue_eq (s : Bytes) : readValue real s = some (cStr s) := by
  rw [readValue, reflectWriterString, (Json.reads_string s).parse_eq]
  rfl

theorem readId_eq (s : Bytes) : readId real s = some (.ofString (cStr s)) := by
  rw [readId, LsRequestIdFields.reflectWriter, LsRequestIdFields.ofString, (Json.reads_string s).parse_eq]
  rfl

theorem readKeys_eq {inner : ReflectType} (hwf : inner.WellFormed) (hany : inner.AnyFree) (s : Bytes)
    (value : inner.Value) : readKeys real s value = some [cStr s] := by
  have hmap : (ReflectType.map inner).AnyFree := hany
  have hwfMap : (ReflectType.map inner).WellFormed := hwf
  obtain ⟨m, hm⟩ := ReflectType.exists_jsonOf_of_anyFree real hmap (singleMap s value)
  have hread := ReflectType.restores real (.map inner) hwfMap (singleMap s value) m hm []
  have hinitial : ReflectType.initial (.map inner) = (SortedMap.empty : SortedMap Bytes inner.Value) := rfl
  rw [hinitial, readBack_map] at hread
  rw [readKeys, (reads_of_anyFree real hmap (singleMap s value)).parse_eq, hm, Option.bind_some, hread]
  rfl

/-- The string comes back as it was, in all three places. -/
def StringSurvives (s : Bytes) : Prop :=
  readValue real s = some s ∧ readId real s = some (.ofString s) ∧
    ∀ (inner : ReflectType) (value : inner.Value), inner.WellFormed → inner.AnyFree → readKeys real s value = some [s]

/-- The strings do not come back as equal, in any of the three places. -/
def StringsApart (s t : Bytes) : Prop :=
  readValue real s ≠ readValue real t ∧ readId real s ≠ readId real t ∧
    ∀ (inner : ReflectType) (value : inner.Value), inner.WellFormed → inner.AnyFree →
      readKeys real s value ≠ readKeys real t value

/-- Strings without NUL survive, and two strings stay apart when they differ before their first NUL. -/
theorem strings_survive_iff (s t : Bytes) :
    (StringSurvives real s ↔ 0 ∉ s) ∧ (StringsApart real s t ↔ cStr s ≠ cStr t) := by
  constructor
  · rw [StringSurvives, readValue_eq, readId_eq, ← cStr_eq_self_iff]
    constructor
    · rintro ⟨hvalue, _⟩
      exact Option.some.inj hvalue
    · intro h
      rw [h]
      exact ⟨rfl, rfl, fun inner value hwf hany => by rw [readKeys_eq real hwf hany, h]⟩
  · rw [StringsApart, readValue_eq, readValue_eq, readId_eq, readId_eq]
    constructor
    · rintro ⟨hvalue, _⟩ heq
      exact hvalue (congrArg some heq)
    · intro hne
      refine ⟨fun h => hne (Option.some.inj h), fun h => ?_, fun inner value hwf hany h => ?_⟩
      · exact hne (congrArg LsRequestIdFields.k_string (Option.some.inj h))
      · rw [readKeys_eq real hwf hany, readKeys_eq real hwf hany] at h
        exact hne (List.cons.inj (Option.some.inj h)).1

end Wire

/-- `"a\\0b"` comes back as `"a"`, in the place of which it may stand. -/
theorem string_nul_lost :
    ¬StringSurvives noReals [97, 0, 98] ∧ ([97, 0, 98] : Bytes) ≠ [97] ∧ ¬StringsApart noReals [97, 0, 98] [97] := by
  refine ⟨fun h => ?_, by decide, fun h => ?_⟩
  · have hvalue : readValue noReals [97, 0, 98] = some [97, 0, 98] := h.1
    rw [readValue_eq] at hvalue
    exact absurd hvalue (by decide)
  · refine h.1 ?_
    rw [readValue_eq, readValue_eq]
    rfl

/-- The bytes of a text. -/
def utf8 (text : String) : Bytes := text.toList.flatMap String.utf8EncodeChar

theorem zero_notMem_utf8EncodeChar {c : Char} (h : c ≠ '\x00') : 0 ∉ String.utf8EncodeChar c := by
  have hval : c.toNat ≠ 0 := fun h0 => h (Char.ext (UInt32.toNat_inj.mp h0))
  have hnat : c.val.toNat = c.toNat := rfl
  simp only [String.utf8EncodeChar, hnat]
  split_ifs <;> simp [← UInt8.toNat_inj] <;> omega

/-- The bytes of a text up to its first NUL are those of its characters up to there. -/
theorem cStr_utf8 (value : String) :
    cStr (utf8 value) = utf8 (getString value) := by
  rw [utf8, utf8, getString, String.toList_ofList]
  induction value.toList with
  | nil => rfl
  | cons c rest ih =>
      by_cases hc : c = '\x00'
      · rw [hc]
        rfl
      · have hbytes : ∀ b ∈ String.utf8EncodeChar c, (b != 0) = true := by
          intro b hb
          have hne : b ≠ 0 := fun h => zero_notMem_utf8EncodeChar hc (h ▸ hb)
          simpa using hne
        rw [cStr] at ih
        rw [List.takeWhile_cons_of_pos (by simpa using hc), List.flatMap_cons, List.flatMap_cons, ← ih, cStr,
          List.takeWhile_append_of_pos hbytes]
/-- The id that is read from a text has the bytes of the one that is read from its characters. -/
theorem reflectReader_utf8 {R : Type} (value : String) (path : List Bytes) :
    ∃ k_string, LsRequestId.reflectReader (.string value) = .kString k_string ∧
      LsRequestIdFields.reflectReader {} (⟨.string (utf8 value), path⟩ : JsonReader R) = .ofString (utf8 k_string) :=
  ⟨getString value, rfl, by rw [← cStr_utf8]; rfl⟩

end LspCpp

import LspCpp.ReflectReads

/-! Values without `lsp::Any` and without NUL bytes are read back as they were written. -/

namespace LspCpp

mutual

/-- A type that `lsp::Any` does not occur in. -/
def ReflectType.AnyFree : ReflectType → Prop
  | .any => False
  | .optional inner => inner.AnyFree
  | .vector inner => inner.AnyFree
  | .map inner => inner.AnyFree
  | .struct members => members.AnyFree
  | _ => True

def ReflectMembers.AnyFree : ReflectMembers → Prop
  | .nil => True
  | .cons _ type rest => type.AnyFree ∧ rest.AnyFree

end

abbrev NulFree (text : Bytes) : Prop := 0 ∉ text

mutual

/-- No string and no key of the value has a NUL byte. -/
def ReflectType.NulFree : (type : ReflectType) → type.Value → Prop
  | .string _, value => LspCpp.NulFree value
  | .optional inner, value =>
      match (value : Option inner.Value) with
      | some value => inner.NulFree value
      | none => True
  | .vector inner, values => List.Forall inner.NulFree values
  | .map inner, value => ∀ it ∈ SortedMap.entries value, LspCpp.NulFree it.1 ∧ inner.NulFree it.2
  | .struct members, value => members.NulFree value
  | .bool _, _ => True
  | .integer _ _, _ => True
  | .any, _ => True

def ReflectMembers.NulFree : (members : ReflectMembers) → members.Values → Prop
  | .nil, _ => True
  | .cons _ type rest, (value, values) => type.NulFree value ∧ rest.NulFree values

end

variable {R : Type} (real : RealFormat R)

mutual

theorem ReflectType.leaves_eq_nil : (type : ReflectType) → type.AnyFree → (value : type.Value) →
    type.leaves value = []
  | .bool _ => fun _ _ => rfl
  | .integer _ _ => fun _ _ => rfl
  | .string _ => fun _ _ => rfl
  | .any => fun h _ => h.elim
  | .optional inner => fun h (value : Option inner.Value) =>
      match value with
      | none => rfl
      | some value => inner.leaves_eq_nil h value
  | .vector inner => fun h _ => List.flatMap_eq_nil_iff.mpr fun value _ => inner.leaves_eq_nil h value
  | .map inner => fun h _ => List.flatMap_eq_nil_iff.mpr fun it _ => inner.leaves_eq_nil h it.2
  | .struct members => fun h value => members.leaves_eq_nil h value

theorem ReflectMembers.leaves_eq_nil : (members : ReflectMembers) → members.AnyFree → (values : members.Values) →
    members.leaves values = []
  | .nil => fun _ _ => rfl
  | .cons _ type rest => fun h (value, values) => by
      rw [ReflectMembers.leaves, type.leaves_eq_nil h.1 value, rest.leaves_eq_nil h.2 values, List.append_nil]

end

theorem ReflectType.exists_jsonOf_of_anyFree {type : ReflectType} (h : type.AnyFree) (value : type.Value) :
    ∃ m, type.jsonOf real value = some m :=
  type.exists_jsonOf real value (by rw [type.leaves_eq_nil h value]; exact nofun)

theorem ReflectType.isAny_of_anyFree : (type : ReflectType) → type.AnyFree → type.isAny = false
  | .any => fun h => h.elim
  | .bool _ => fun _ => rfl
  | .integer _ _ => fun _ => rfl
  | .string _ => fun _ => rfl
  | .optional _ => fun _ => rfl
  | .vector _ => fun _ => rfl
  | .map _ => fun _ => rfl
  | .struct _ => fun _ => rfl

theorem reads_of_anyFree {type : ReflectType} (h : type.AnyFree) (value : type.Value) :
    Json.Reads real.numbers (type.reflectWriter value) (type.jsonOf real value) :=
  type.reads_reflectWriter real value (by rw [type.leaves_eq_nil h value]; exact nofun)

/-- Every value has a text. -/
theorem reflectWriter_ne_nil {type : ReflectType} (h : type.AnyFree) (value : type.Value) :
    type.reflectWriter value ≠ [] := by
  intro hnil
  have hreads := reads_of_anyFree noReals h value
  obtain ⟨m, hm⟩ := type.exists_jsonOf_of_anyFree noReals h value
  rw [hnil, hm] at hreads
  exact Json.not_reads_nil hreads

mutual

/-- What is read is what was written. -/
theorem ReflectType.readBack_eq : (type : ReflectType) → type.WellFormed → type.AnyFree → (value : type.Value) →
    type.NulFree value → type.readBack real value = value
  | .bool _ => fun _ _ _ _ => rfl
  | .integer _ _ => fun _ _ _ _ => rfl
  | .string _ => fun _ _ _ h => cStr_eq_self h
  | .any => fun _ h _ _ => h.elim
  | .optional inner => fun hwf hany (value : Option inner.Value) h =>
      match value, h with
      | none, _ => rfl
      | some value, h => by
          have hinner : inner.AnyFree := hany
          obtain ⟨m, hm⟩ := inner.exists_jsonOf_of_anyFree real hinner value
          have hnull : m ≠ .null := fun h =>
            inner.jsonOf_ne_null real hwf.1 (inner.isAny_of_anyFree hinner) value (h ▸ hm)
          rw [readBack_some real hnull hm, inner.readBack_eq hwf.2 hany value h]
  | .vector inner => fun hwf hany (values : List inner.Value) h => by
      have hinner : inner.AnyFree := hany
      have hvalues : ∀ value ∈ values, inner.NulFree value := List.forall_iff_forall_mem.mp h
      have hhole : values.map inner.reflectWriter ≠ [[]] := by
        intro heq
        have hmem : [] ∈ values.map inner.reflectWriter := heq ▸ List.mem_singleton_self []
        obtain ⟨value, _, hvalue⟩ := List.mem_map.mp hmem
        exact reflectWriter_ne_nil hinner value hvalue
      rw [readBack_vector, if_neg hhole]
      exact (List.map_congr_left fun value hvalue => inner.readBack_eq hwf hany value (hvalues value hvalue)).trans
        (List.map_id _)
  | .map inner => fun hwf hany (value : SortedMap Bytes inner.Value) h => by
      have hentries : value.entries.map (fun it => (cStr it.1, inner.readBack real it.2)) = value.entries := by
        refine (List.map_congr_left fun it hit => ?_).trans (List.map_id _)
        rw [cStr_eq_self (h it hit).1, inner.readBack_eq hwf hany it.2 (h it hit).2]
        rfl
      rw [readBack_map, hentries, SortedMap.assignAll_entries]
  | .struct members => fun hwf hany value h => members.readBack_eq hwf.2 hany value h

theorem ReflectMembers.readBack_eq : (members : ReflectMembers) → members.WellFormed → members.AnyFree →
    (values : members.Values) → members.NulFree values → members.readBack real values = values
  | .nil => fun _ _ _ _ => rfl
  | .cons _ type rest => fun hwf hany (value, values) h => by
      rw [ReflectMembers.readBack, type.readBack_eq hwf.2.1 hany.1 value h.1,
        rest.readBack_eq hwf.2.2 hany.2 values h.2]

end

/-- The value that a document is for is read from it. -/
theorem reflectReader_of_jsonOf (type : ReflectType) (hwf : type.WellFormed) (hany : type.AnyFree) {value : type.Value}
    (hnul : type.NulFree value) {m : JsonDocument R} (hm : type.jsonOf real value = some m) (path : List Bytes) :
    type.reflectReader real type.initial ⟨m, path⟩ = .ok (value, ⟨m, path⟩) := by
  have hrestores := type.restores real hwf value m hm path
  rwa [type.readBack_eq real hwf hany value hnul] at hrestores

/-- A value is read back from the text that is written for it, and the reader ends where it began. -/
theorem reflect_roundTrip (type : ReflectType) (hwf : type.WellFormed) (hany : type.AnyFree) {value : type.Value}
    (hnul : type.NulFree value) :
    ∃ m, Json.parse real.numbers (type.reflectWriter value) = some m ∧
      ∀ path, type.reflectReader real type.initial ⟨m, path⟩ = .ok (value, ⟨m, path⟩) := by
  obtain ⟨m, hm⟩ := type.exists_jsonOf_of_anyFree real hany value
  refine ⟨m, (reads_of_anyFree real hany value).parse_eq.trans hm, ?_⟩
  have hrestores := type.restores real hwf value m hm
  rwa [type.readBack_eq real hwf hany value hnul] at hrestores

/-- `struct { optional<std::string> a; std::vector<optional<int>> b; std::map<std::string, bool> c; }`. -/
def sampleType : ReflectType :=
  .struct (.cons (bytesOf "a") (.optional (.string []))
    (.cons (bytesOf "b") (.vector (.optional (.integer .int ⟨0, by decide⟩)))
      (.cons (bytesOf "c") (.map (.bool false)) .nil)))

/-- The text of this value is `{"b":[null,-7],"c":{"k":true}}`. -/
def sampleValue : sampleType.Value :=
  ((none : Option Bytes), ([none, some ⟨-7, by decide⟩] : List (Option IntegerType.int.Value)),
    (⟨[(bytesOf "k", true)], List.pairwise_singleton _ _⟩ : SortedMap Bytes Bool), ())

theorem reflect_roundTrip_sample :
    ∃ m, Json.parse noReals.numbers (sampleType.reflectWriter sampleValue) = some m ∧
      ∀ path, sampleType.reflectReader noReals sampleType.initial ⟨m, path⟩ = .ok (sampleValue, ⟨m, path⟩) :=
  reflect_roundTrip noReals sampleType
    ⟨by decide, by decide, ⟨rfl, trivial⟩, by decide, ⟨rfl, trivial⟩, by decide, trivial, trivial⟩
    ⟨trivial, trivial, trivial, trivial⟩
    ⟨trivial, ⟨trivial, trivial⟩, fun _ h => List.mem_singleton.mp h ▸ ⟨by decide, trivial⟩, trivial⟩

end LspCpp

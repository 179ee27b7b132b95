import LspCpp.ReflectType

/-! What is written for a value reads as one JSON value or as none, and reading that into a default-constructed value
gives `readBack`, with the cursor and the path where they were. -/

namespace LspCpp

variable {R : Type} (real : RealFormat R)

def ReflectType.isOptional : ReflectType → Bool
  | .optional _ => true
  | _ => false

def ReflectType.isAny : ReflectType → Bool
  | .any => true
  | _ => false

def ReflectMembers.names : ReflectMembers → List Bytes
  | .nil => []
  | .cons name _ rest => name :: rest.names

mutual

/-- No optional value in an optional one, and the members of a struct have names of their own. -/
def ReflectType.WellFormed : ReflectType → Prop
  | .optional inner => inner.isOptional = false ∧ inner.WellFormed
  | .vector inner => inner.WellFormed
  | .map inner => inner.WellFormed
  | .struct members => members.names.Nodup ∧ members.WellFormed
  | _ => True

/-- The names are C identifiers. -/
def ReflectMembers.WellFormed : ReflectMembers → Prop
  | .nil => True
  | .cons name type rest => 0 ∉ name ∧ type.WellFormed ∧ rest.WellFormed

end

mutual

/-- The `lsp::Any` values in a value. -/
def ReflectType.leaves : (type : ReflectType) → type.Value → List LspAny
  | .any, value => [value]
  | .optional inner, value =>
      match (value : Option inner.Value) with
      | some value => inner.leaves value
      | none => []
  | .vector inner, values => List.flatMap inner.leaves values
  | .map inner, value => (SortedMap.entries value).flatMap fun it => inner.leaves it.2
  | .struct members, value => members.leaves value
  | .bool _, _ => []
  | .integer _ _, _ => []
  | .string _, _ => []

def ReflectMembers.leaves : (members : ReflectMembers) → members.Values → List LspAny
  | .nil, _ => []
  | .cons _ type rest, (value, values) => type.leaves value ++ rest.leaves values

end

mutual

/-- What the written text reads as. A single element without text leaves an empty array. -/
def ReflectType.jsonOf : (type : ReflectType) → type.Value → Option (JsonDocument R)
  | .bool _, value => some (.bool value)
  | .integer _ _, value => some (.number (.integer (IntegerType.toJson value)))
  | .string _, value => some (.string value)
  | .any, value => Json.parse real.numbers (LspAny.data value)
  | .optional inner, value =>
      match (value : Option inner.Value) with
      | some value => inner.jsonOf value
      | none => some .null
  | .vector inner, values =>
      if (values : List inner.Value).map (inner.reflectWriter) = [[]] then some (.array [])
      else (((values : List inner.Value).map inner.jsonOf).mapM id).map .array
  | .map inner, value =>
      (((SortedMap.entries value).map fun it => (cStr it.1, inner.jsonOf it.2)).mapM Json.readMember).map .object
  | .struct members, value => ((members.jsonOf value).mapM Json.readMember).map .object

def ReflectMembers.jsonOf : (members : ReflectMembers) → members.Values → List (Bytes × Option (JsonDocument R))
  | .nil, _ => []
  | .cons name type rest, (value, values) =>
      if type.omitted value then rest.jsonOf values else (cStr name, type.jsonOf value) :: rest.jsonOf values

end

/-! The containers with the types of their values written out. -/

section Containers

variable (inner : ReflectType)

theorem reflectWriter_vector (values : List inner.Value) :
    ReflectType.reflectWriter (.vector inner) values = Json.arrayText (values.map inner.reflectWriter) := rfl

theorem reflectWriter_map (value : SortedMap Bytes inner.Value) :
    ReflectType.reflectWriter (.map inner) value =
      Json.objectText (value.entries.map fun it => (cStr it.1, inner.reflectWriter it.2)) := rfl

theorem jsonOf_vector (values : List inner.Value) :
    ReflectType.jsonOf real (.vector inner) values =
      if values.map inner.reflectWriter = [[]] then some (.array [])
      else ((values.map (inner.jsonOf real)).mapM id).map .array := rfl

theorem jsonOf_map (value : SortedMap Bytes inner.Value) :
    ReflectType.jsonOf real (.map inner) value =
      ((value.entries.map fun it => (cStr it.1, inner.jsonOf real it.2)).mapM Json.readMember).map .object := rfl

end Containers

/-- The data of an `lsp::Any` stands in a text as its value, or spoils it. -/
def LspAny.Placed (any : LspAny) : Prop := Json.Reads real.numbers any.data (Json.parse real.numbers any.data)

theorem reads_integerLexeme (value : JsonInteger) :
    Json.Reads real.numbers (integerLexeme value) (some (.number (.integer value))) := by
  rw [← reread_integer real value]
  exact Json.reads_number (JsonNumber.integer value)

mutual

theorem ReflectType.reads_reflectWriter : (type : ReflectType) → (value : type.Value) →
    (∀ any ∈ type.leaves value, any.Placed real) →
    Json.Reads real.numbers (type.reflectWriter value) (type.jsonOf real value)
  | .bool _ => fun value _ => Json.reads_bool value
  | .integer _ _ => fun value _ => reads_integerLexeme real (IntegerType.toJson value)
  | .string _ => fun value _ => Json.reads_string value
  | .any => fun value h => h value (List.mem_singleton_self _)
  | .optional inner => fun (value : Option inner.Value) h =>
      match value, h with
      | none, _ => Json.reads_null
      | some value, h => inner.reads_reflectWriter value h
  | .vector inner => fun (values : List inner.Value) h => by
      have hvalues : ∀ value ∈ values,
          Json.Reads real.numbers (inner.reflectWriter value) (inner.jsonOf real value) := fun value hvalue =>
        inner.reads_reflectWriter value fun any hany => h any (List.mem_flatMap.mpr ⟨value, hvalue, hany⟩)
      have hall : List.Forall₂ (Json.Reads real.numbers) (values.map inner.reflectWriter)
          (values.map (inner.jsonOf real)) := by
        rw [List.forall₂_map_left_iff, List.forall₂_map_right_iff, List.forall₂_same]
        exact hvalues
      rw [reflectWriter_vector, jsonOf_vector]
      split_ifs with hhole
      · rw [hhole]
        exact Json.reads_emptyArray
      · exact Json.reads_array hall hhole
  | .map inner => fun (value : SortedMap Bytes inner.Value) h => by
      rw [reflectWriter_map, jsonOf_map]
      apply Json.reads_object
      rw [List.forall₂_map_left_iff, List.forall₂_map_right_iff, List.forall₂_same]
      exact fun it hit => ⟨rfl, inner.reads_reflectWriter it.2 fun any hany =>
        h any (List.mem_flatMap.mpr ⟨it, hit, hany⟩)⟩
  | .struct members => fun value h => Json.reads_object (members.reads_reflectWriter value h)

theorem ReflectMembers.reads_reflectWriter : (members : ReflectMembers) → (values : members.Values) →
    (∀ any ∈ members.leaves values, any.Placed real) →
    List.Forall₂ (fun m value => m.1 = value.1 ∧ Json.Reads real.numbers m.2 value.2)
      (members.reflectWriter values) (members.jsonOf real values)
  | .nil => fun _ _ => .nil
  | .cons name type rest => fun (value, values) h => by
      have hrest := rest.reads_reflectWriter values fun any hany => h any (List.mem_append_right _ hany)
      rw [ReflectMembers.reflectWriter, ReflectMembers.jsonOf]
      split_ifs
      · exact hrest
      · exact .cons ⟨rfl, type.reads_reflectWriter value fun any hany => h any (List.mem_append_left _ hany)⟩ hrest

end

theorem exists_mapM {α β : Type} {f : α → Option β} {as : List α} (h : ∀ a ∈ as, ∃ b, f a = some b) :
    ∃ bs, as.mapM f = some bs := by
  induction as with
  | nil => exact ⟨[], rfl⟩
  | cons a as ih =>
      obtain ⟨b, hb⟩ := h a (List.mem_cons_self ..)
      obtain ⟨bs, hbs⟩ := ih fun a ha => h a (List.mem_cons_of_mem _ ha)
      exact ⟨b :: bs, by rw [Json.mapM_eq_some_iff] at hbs ⊢; exact .cons hb hbs⟩

mutual

/-- The text has a value when the data of every `lsp::Any` in it has one. -/
theorem ReflectType.exists_jsonOf : (type : ReflectType) → (value : type.Value) →
    (∀ any ∈ type.leaves value, ∃ m, Json.parse real.numbers any.data = some m) →
    ∃ m, type.jsonOf real value = some m
  | .bool _ => fun _ _ => ⟨_, rfl⟩
  | .integer _ _ => fun _ _ => ⟨_, rfl⟩
  | .string _ => fun _ _ => ⟨_, rfl⟩
  | .any => fun value h => h value (List.mem_singleton_self _)
  | .optional inner => fun (value : Option inner.Value) h =>
      match value, h with
      | none, _ => ⟨.null, rfl⟩
      | some value, h => inner.exists_jsonOf value h
  | .vector inner => fun (values : List inner.Value) h => by
      rw [jsonOf_vector]
      split_ifs
      · exact ⟨_, rfl⟩
      · have hvalues : ∀ a ∈ values.map (inner.jsonOf real), ∃ m, id a = some m := by
          intro a ha
          obtain ⟨value, hvalue, rfl⟩ := List.mem_map.mp ha
          exact inner.exists_jsonOf value fun any hany => h any (List.mem_flatMap.mpr ⟨value, hvalue, hany⟩)
        obtain ⟨entries, hentries⟩ := exists_mapM hvalues
        exact ⟨.array entries, by rw [hentries]; rfl⟩
  | .map inner => fun (value : SortedMap Bytes inner.Value) h => by
      rw [jsonOf_map]
      have hentries : ∀ a ∈ value.entries.map (fun it => (cStr it.1, inner.jsonOf real it.2)),
          ∃ m, Json.readMember a = some m := by
        intro a ha
        obtain ⟨it, hit, rfl⟩ := List.mem_map.mp ha
        obtain ⟨m, hm⟩ := inner.exists_jsonOf it.2 fun any hany => h any (List.mem_flatMap.mpr ⟨it, hit, hany⟩)
        exact ⟨(cStr it.1, m), by rw [Json.readMember, hm]; rfl⟩
      obtain ⟨members, hmembers⟩ := exists_mapM hentries
      exact ⟨.object members, by rw [hmembers]; rfl⟩
  | .struct members => fun value h => by
      obtain ⟨found, hfound⟩ := exists_mapM (members.exists_jsonOf value h)
      exact ⟨.object found, by rw [ReflectType.jsonOf, hfound]; rfl⟩

theorem ReflectMembers.exists_jsonOf : (members : ReflectMembers) → (values : members.Values) →
    (∀ any ∈ members.leaves values, ∃ m, Json.parse real.numbers any.data = some m) →
    ∀ e ∈ members.jsonOf real values, ∃ m, Json.readMember e = some m
  | .nil => fun _ _ _ he => nomatch he
  | .cons name type rest => fun (value, values) h e he => by
      have hrest := rest.exists_jsonOf values fun any hany => h any (List.mem_append_right _ hany)
      rw [ReflectMembers.jsonOf] at he
      split_ifs at he
      · exact hrest e he
      · rcases List.mem_cons.mp he with rfl | he
        · obtain ⟨m, hm⟩ := type.exists_jsonOf value fun any hany => h any (List.mem_append_left _ hany)
          exact ⟨(cStr name, m), by rw [Json.readMember, hm]; rfl⟩
        · exact hrest e he

end

theorem map_array_ne_null {elements : Option (List (JsonDocument R))} :
    elements.map .array ≠ some (.null : JsonDocument R) := by
  cases elements <;> exact nofun

theorem map_object_ne_null {members : Option (List (Bytes × JsonDocument R))} :
    members.map .object ≠ some (.null : JsonDocument R) := by
  cases members <;> exact nofun

/-- Only an empty optional and an `lsp::Any` may read as `null`. -/
theorem ReflectType.jsonOf_ne_null : (type : ReflectType) → type.isOptional = false → type.isAny = false →
    (value : type.Value) → type.jsonOf real value ≠ some .null
  | .bool _ => fun _ _ _ => nofun
  | .integer _ _ => fun _ _ _ => nofun
  | .string _ => fun _ _ _ => nofun
  | .any => fun _ h _ => nomatch h
  | .optional _ => fun h _ _ => nomatch h
  | .vector inner => fun _ _ (values : List inner.Value) => by
      rw [jsonOf_vector]
      split_ifs
      · exact nofun
      · exact map_array_ne_null
  | .map _ => fun _ _ _ => map_object_ne_null
  | .struct _ => fun _ _ _ => map_object_ne_null

/-! ### The value that is read -/

mutual

/-- What a default-constructed value becomes when it is read from the text that was written. -/
def ReflectType.readBack : (type : ReflectType) → type.Value → type.Value
  | .bool _, value => value
  | .integer _ _, value => value
  | .string _, value => cStr value
  | .any, value =>
      match Json.parse real.numbers (LspAny.data value) with
      | some m => LspAny.mk (cStr (Json.text real.numbers m))
      | none => value
  | .optional inner, value =>
      match (value : Option inner.Value) with
      | some value =>
          match inner.jsonOf real value with
          | some .null => (none : Option inner.Value)
          | _ => (some (inner.readBack value) : Option inner.Value)
      | none => (none : Option inner.Value)
  | .vector inner, values =>
      if (values : List inner.Value).map inner.reflectWriter = [[]] then ([] : List inner.Value)
      else (values : List inner.Value).map inner.readBack
  | .map inner, value =>
      (SortedMap.empty.assignAll ((SortedMap.entries value).map fun it => (cStr it.1, inner.readBack it.2)) :
        SortedMap Bytes inner.Value)
  | .struct members, value => members.readBack value

def ReflectMembers.readBack : (members : ReflectMembers) → members.Values → members.Values
  | .nil, values => values
  | .cons _ type rest, (value, values) => (type.readBack value, rest.readBack values)

end

open JsonReader

/-- Reading the elements one by one, each into a value of its own. -/
theorem iterEntries_push {inner : ReflectType} {read : inner.Value → inner.Value} {values : List inner.Value}
    {entries : List (JsonDocument R)}
    (h : List.Forall₂ (fun value m => Restores (inner.reflectReader real) m inner.initial (read value)) values entries)
    (front : List inner.Value) (reader : JsonReader R) :
    iterEntries (fun (values : List inner.Value) entry => do
        let (entryValue, entry) ← inner.reflectReader real inner.initial entry
        .ok (values ++ [entryValue], entry)) entries front reader =
      .ok (front ++ values.map read, reader) := by
  induction h generalizing front with
  | nil => simp [iterEntries]
  | @cons value m values entries hvalue _ ih =>
      rw [iterEntries_cons (front ++ [read value]), ih, List.map_cons, List.append_assoc,
        List.singleton_append]
      intro path
      simp only [hvalue path, bind, Except.bind]

/-- Reading the members of a map one by one, each into a value of its own. -/
theorem iterMembers_assign {inner : ReflectType} {read : inner.Value → inner.Value}
    {values : List (Bytes × inner.Value)} {members : List (Bytes × JsonDocument R)}
    (h : List.Forall₂ (fun it m => cStr it.1 = m.1 ∧
      Restores (inner.reflectReader real) m.2 inner.initial (read it.2)) values members)
    (value : SortedMap Bytes inner.Value) (reader : JsonReader R) :
    iterMembers (fun name (value : SortedMap Bytes inner.Value) entry => do
        let (entryValue, entry) ← inner.reflectReader real inner.initial entry
        .ok (value.assign name entryValue, entry)) members value reader =
      .ok (value.assignAll (values.map fun it => (cStr it.1, read it.2)), reader) := by
  induction h generalizing value with
  | nil => rfl
  | @cons it m values members hit _ ih =>
      obtain ⟨hname, hvalue⟩ := hit
      have hidem : cStr m.1 = cStr it.1 := by rw [← hname, cStr_eq_self (zero_notMem_cStr it.1)]
      rw [iterMembers_cons (value.assign (cStr it.1) (read it.2)), ih, List.map_cons]
      · rfl
      intro path
      simp only [hvalue path, bind, Except.bind, hidem]

theorem findMember_append_of_notMem {name : Bytes} {front : List (Bytes × JsonDocument R)}
    (h : ∀ e ∈ front, e.1 ≠ name) (rest : List (Bytes × JsonDocument R)) :
    findMember name (front ++ rest) = findMember name rest := by
  have hnone : front.find? (fun member => member.1 == name) = none := by
    rw [List.find?_eq_none]
    intro e he
    simpa using h e he
  rw [findMember, List.find?_append, hnone, Option.none_or]
  rfl

theorem findMember_cons_self (name : Bytes) (m : JsonDocument R) (rest : List (Bytes × JsonDocument R)) :
    findMember name ((name, m) :: rest) = some m := by
  simp [findMember]

/-- An omitted value is that of an empty optional. -/
theorem ReflectType.of_omitted : (type : ReflectType) → (value : type.Value) → type.omitted value = true →
    type.readBack real value = type.initial ∧ type.jsonOf real value = some .null
  | .optional inner => fun (value : Option inner.Value) h =>
      match value, h with
      | none, _ => ⟨rfl, rfl⟩
      | some _, h => nomatch h
  | .bool _ => fun _ h => nomatch h
  | .integer _ _ => fun _ h => nomatch h
  | .string _ => fun _ h => nomatch h
  | .any => fun _ h => nomatch h
  | .vector _ => fun _ h => nomatch h
  | .map _ => fun _ h => nomatch h
  | .struct _ => fun _ h => nomatch h

/-- An optional value is there after the read of anything but `null`. -/
theorem restores_optional {inner : ReflectType} {m : JsonDocument R} {value : inner.Value} (hm : m ≠ .null)
    (h : Restores (inner.reflectReader real) m inner.initial value) :
    Restores (σ := Option inner.Value) (ReflectType.reflectReader real (.optional inner)) m none (some value) := by
  intro path
  cases m with
  | null => exact absurd rfl hm
  | _ =>
      simp only [ReflectType.reflectReader, h path, bind, Except.bind]
      rfl

theorem readBack_some {inner : ReflectType} {value : inner.Value} {m : JsonDocument R} (hm : m ≠ .null)
    (h : inner.jsonOf real value = some m) :
    ReflectType.readBack real (.optional inner) (some value : Option inner.Value) =
      (some (inner.readBack real value) : Option inner.Value) := by
  cases m with
  | null => exact absurd rfl hm
  | _ =>
      simp only [ReflectType.readBack, h]
      rfl

theorem readBack_null {inner : ReflectType} {value : inner.Value} (h : inner.jsonOf real value = some .null) :
    ReflectType.readBack real (.optional inner) (some value : Option inner.Value) = (none : Option inner.Value) := by
  simp only [ReflectType.readBack, h]
  rfl

theorem readBack_vector (inner : ReflectType) (values : List inner.Value) :
    ReflectType.readBack real (.vector inner) values =
      if values.map inner.reflectWriter = [[]] then ([] : List inner.Value)
      else values.map (inner.readBack real) := rfl

theorem readBack_map (inner : ReflectType) (value : SortedMap Bytes inner.Value) :
    ReflectType.readBack real (.map inner) value =
      SortedMap.empty.assignAll (value.entries.map fun it => (cStr it.1, inner.readBack real it.2)) := rfl

/-- The texts of a struct are under names of its members. -/
theorem name_mem_of_jsonOf : (members : ReflectMembers) → members.WellFormed → (values : members.Values) →
    ∀ e ∈ members.jsonOf real values, e.1 ∈ members.names
  | .nil => fun _ _ _ he => nomatch he
  | .cons name type rest => fun hwf (value, values) e he => by
      have hrest := name_mem_of_jsonOf rest hwf.2.2 values
      rw [ReflectMembers.jsonOf] at he
      rw [ReflectMembers.names]
      split_ifs at he
      · exact List.mem_cons_of_mem _ (hrest e he)
      · rcases List.mem_cons.mp he with rfl | he
        · rw [cStr_eq_self hwf.1]
          exact List.mem_cons_self ..
        · exact List.mem_cons_of_mem _ (hrest e he)

theorem name_mem_of_readMember {values : List (Bytes × Option (JsonDocument R))} {found : List (Bytes × JsonDocument R)}
    (h : values.mapM Json.readMember = some found) : ∀ e ∈ found, ∃ e' ∈ values, e'.1 = e.1 := by
  intro e he
  obtain ⟨e', he', hmember⟩ := Json.exists_of_forall₂ (Json.mapM_eq_some_iff.mp h).flip he
  obtain ⟨v, _, rfl⟩ := Option.map_eq_some_iff.mp hmember
  exact ⟨e', he', rfl⟩

theorem restores_members_cons {name : Bytes} {type : ReflectType} {rest : ReflectMembers} {m : JsonDocument R}
    {value : type.Value} {values : rest.Values}
    (h : Restores (doMember name (type.reflectReader real)) m type.initial value)
    (h' : Restores (rest.reflectReader real) m rest.initial values) :
    Restores ((ReflectMembers.cons name type rest).reflectReader real) m (type.initial, rest.initial)
      (value, values) := by
  intro path
  simp only [ReflectMembers.reflectReader, h path, h' path, bind, Except.bind]

mutual

/-- Reading what was written into a default-constructed value. -/
theorem ReflectType.restores : (type : ReflectType) → type.WellFormed → (value : type.Value) →
    (m : JsonDocument R) → type.jsonOf real value = some m →
    Restores (type.reflectReader real) m type.initial (type.readBack real value)
  | .bool _ => fun _ _ _ h => Option.some.inj h ▸ fun _ => rfl
  | .integer _ _ => fun _ value _ h => Option.some.inj h ▸ fun path => IntegerType.reflectReader_toJson value path
  | .string _ => fun _ _ _ h => Option.some.inj h ▸ fun _ => rfl
  | .any => fun _ value m h path => by
      have hparse : Json.parse real.numbers (LspAny.data value) = some m := h
      simp only [ReflectType.readBack, hparse]
      rfl
  | .optional inner => fun hwf (value : Option inner.Value) m h =>
      match value, h with
      | none, h => Option.some.inj h ▸ fun _ => rfl
      | some value, h => by
          have hvalue : inner.jsonOf real value = some m := h
          by_cases hm : m = .null
          · subst hm
            rw [readBack_null real hvalue]
            exact fun _ => rfl
          · rw [readBack_some real hm hvalue]
            exact restores_optional real hm (inner.restores hwf.2 value m hvalue)
  | .vector inner => fun hwf (values : List inner.Value) m h => by
      rw [jsonOf_vector] at h
      rw [readBack_vector]
      split_ifs at h ⊢ with hhole
      · obtain rfl := Option.some.inj h
        exact restores_iterArray fun _ => rfl
      · obtain ⟨entries, hentries, rfl⟩ := Option.map_eq_some_iff.mp h
        rw [Json.mapM_eq_some_iff, List.forall₂_map_left_iff] at hentries
        have hall : List.Forall₂ (fun value m =>
            Restores (inner.reflectReader real) m inner.initial (inner.readBack real value)) values entries :=
          hentries.imp fun value m hvalue => inner.restores hwf value m hvalue
        exact restores_iterArray fun reader => iterEntries_push real hall [] reader
  | .map inner => fun hwf (value : SortedMap Bytes inner.Value) m h => by
      rw [jsonOf_map] at h
      rw [readBack_map]
      obtain ⟨members, hmembers, rfl⟩ := Option.map_eq_some_iff.mp h
      rw [Json.mapM_eq_some_iff, List.forall₂_map_left_iff] at hmembers
      have hall : List.Forall₂ (fun (it : Bytes × inner.Value) m => cStr it.1 = m.1 ∧
          Restores (inner.reflectReader real) m.2 inner.initial (inner.readBack real it.2)) value.entries members := by
        refine hmembers.imp fun it m hit => ?_
        obtain ⟨v, hv, rfl⟩ := Option.map_eq_some_iff.mp hit
        exact ⟨rfl, inner.restores hwf it.2 v hv⟩
      exact restores_iterMap fun reader => iterMembers_assign real hall .empty reader
  | .struct members => fun hwf value m h => by
      obtain ⟨found, hfound, rfl⟩ := Option.map_eq_some_iff.mp h
      exact members.restores hwf.2 hwf.1 value [] found nofun hfound

/-- `front` are the members of the object that were read before. -/
theorem ReflectMembers.restores : (members : ReflectMembers) → members.WellFormed → members.names.Nodup →
    (values : members.Values) → (front found : List (Bytes × JsonDocument R)) →
    (∀ e ∈ front, e.1 ∉ members.names) → (members.jsonOf real values).mapM Json.readMember = some found →
    Restores (members.reflectReader real) (.object (front ++ found)) members.initial (members.readBack real values)
  | .nil => fun _ _ _ _ _ _ _ _ => rfl
  | .cons name type rest => fun hwf hnodup (value, values) front found hfront hfound => by
      obtain ⟨hname, htype, hrest⟩ := hwf
      obtain ⟨hfresh, hnodup⟩ := List.nodup_cons.mp hnodup
      have hfrontName : ∀ e ∈ front, e.1 ≠ name := fun e he heq =>
        hfront e he (heq ▸ List.mem_cons_self ..)
      have hfrontRest : ∀ e ∈ front, e.1 ∉ rest.names := fun e he hmem =>
        hfront e he (List.mem_cons_of_mem _ hmem)
      rw [ReflectMembers.jsonOf] at hfound
      split_ifs at hfound with homitted
      · have hnone : findMember name (front ++ found) = none := by
          rw [findMember_append_of_notMem hfrontName, findMember, Option.map_eq_none_iff, List.find?_eq_none]
          intro e he heq
          obtain ⟨e', he', hname'⟩ := name_mem_of_readMember hfound e he
          have hmem := name_mem_of_jsonOf real rest hrest values e' he'
          rw [hname', eq_of_beq heq] at hmem
          exact hfresh hmem
        refine restores_members_cons real ?_ (rest.restores hrest hnodup values front found hfrontRest hfound)
        rw [(type.of_omitted real value homitted).1]
        exact restores_doMember_none hnone _
      · rw [Json.mapM_eq_some_iff, List.forall₂_cons_left_iff] at hfound
        obtain ⟨m, found, hmember, hfound, rfl⟩ := hfound
        obtain ⟨v, hv, rfl⟩ := Option.map_eq_some_iff.mp hmember
        rw [cStr_eq_self hname]
        refine restores_members_cons real (restores_doMember (v := v) ?_ (type.restores htype value v hv)) ?_
        · rw [findMember_append_of_notMem hfrontName, findMember_cons_self]
        · have hobject := rest.restores hrest hnodup values (front ++ [(name, v)]) found ?_
            (Json.mapM_eq_some_iff.mpr hfound)
          · rwa [List.append_assoc, List.singleton_append] at hobject
          · intro e he
            rcases List.mem_append.mp he with he | he
            · exact hfrontRest e he
            · rw [List.mem_singleton.mp he]
              exact hfresh

end

end LspCpp

import LspCpp.ReflectRoundTrip

/-! Results of definition requests: locations, or links with an optional range of their origin. Both alternatives are
written as an array, and the reader takes the one that the first element has a member of. -/

namespace LspCpp

/-- `lsPosition`. -/
def lsPositionType : ReflectType :=
  .struct (.cons (bytesOf "line") (.integer .unsigned ⟨0, by decide⟩)
    (.cons (bytesOf "character") (.integer .unsigned ⟨0, by decide⟩) .nil))

/-- `lsRange`. -/
def lsRangeType : ReflectType :=
  .struct (.cons (bytesOf "start") lsPositionType (.cons (bytesOf "end") lsPositionType .nil))

/-- `lsDocumentUri`: its `raw_uri_`. -/
def lsDocumentUriType : ReflectType := .string []

/-- `lsLocation`. -/
def lsLocationType : ReflectType :=
  .struct (.cons (bytesOf "uri") lsDocumentUriType (.cons (bytesOf "range") lsRangeType .nil))

/-- `LocationLink`. -/
def locationLinkType : ReflectType :=
  .struct (.cons (bytesOf "originSelectionRange") (.optional lsRangeType)
    (.cons (bytesOf "targetUri") lsDocumentUriType
      (.cons (bytesOf "targetRange") lsRangeType (.cons (bytesOf "targetSelectionRange") lsRangeType .nil))))

theorem wellFormed_lsRangeType : lsRangeType.WellFormed :=
  ⟨by decide, by decide, ⟨by decide, by decide, trivial, by decide, trivial, trivial⟩,
    by decide, ⟨by decide, by decide, trivial, by decide, trivial, trivial⟩, trivial⟩

theorem wellFormed_lsLocationType : lsLocationType.WellFormed :=
  ⟨by decide, by decide, trivial, by decide, wellFormed_lsRangeType, trivial⟩

theorem wellFormed_locationLinkType : locationLinkType.WellFormed :=
  ⟨by decide, by decide, ⟨rfl, wellFormed_lsRangeType⟩, by decide, trivial, by decide, wellFormed_lsRangeType,
    by decide, wellFormed_lsRangeType, trivial⟩

theorem anyFree_lsRangeType : lsRangeType.AnyFree := ⟨⟨trivial, trivial, trivial⟩, ⟨trivial, trivial, trivial⟩, trivial⟩

theorem anyFree_lsLocationType : lsLocationType.AnyFree := ⟨trivial, anyFree_lsRangeType, trivial⟩

theorem anyFree_locationLinkType : locationLinkType.AnyFree :=
  ⟨anyFree_lsRangeType, trivial, anyFree_lsRangeType, anyFree_lsRangeType, trivial⟩

/-- `LocationListEither::Either`. -/
structure LocationListEither where
  first : Option (List lsLocationType.Value) := none
  second : Option (List locationLinkType.Value) := none

variable {R : Type} (real : RealFormat R)

/-- `GenericValue::HasMember`. -/
def hasMember (name : Bytes) (members : List (Bytes × JsonDocument R)) : Bool :=
  (JsonReader.findMember name members).isSome

namespace LocationListEither

/-- `Reflect(Reader&, optional<std::vector<lsLocation>>&)` for the first alternative. -/
def readFirst (value : LocationListEither) (reader : JsonReader R) :
    Except ReflectError (LocationListEither × JsonReader R) := do
  let (first, reader) ← ReflectType.reflectReader real (.optional (.vector lsLocationType)) value.first reader
  .ok ({ value with first := first }, reader)

/-- `Reflect(Reader&, optional<std::vector<LocationLink>>&)` for the second alternative. -/
def readSecond (value : LocationListEither) (reader : JsonReader R) :
    Except ReflectError (LocationListEither × JsonReader R) := do
  let (second, reader) ← ReflectType.reflectReader real (.optional (.vector locationLinkType)) value.second reader
  .ok ({ value with second := second }, reader)

/-- `Reflect(Reader&, LocationListEither::Either&)`. `HasMember` asserts that there is an object. -/
def reflectReader (value : LocationListEither) (reader : JsonReader R) :
    Except ReflectError (LocationListEither × JsonReader R) :=
  match reader.m with
  | .array [] => readFirst real value reader
  | .array (.object members :: _) =>
      if hasMember (bytesOf "originSelectionRange") members then readSecond real value reader
      else readFirst real value reader
  | .array (_ :: _) => .error .assertion
  | _ => do
      let (location, reader) ← lsLocationType.reflectReader real lsLocationType.initial reader
      .ok ({ first := some [location], second := none }, reader)

/-- `Reflect(Writer&, LocationListEither::Either&)`. -/
def reflectWriter (value : LocationListEither) : Bytes :=
  match value.first, value.second with
  | some locations, _ => ReflectType.reflectWriter (.vector lsLocationType) locations
  | none, some links => ReflectType.reflectWriter (.vector locationLinkType) links
  | none, none => []

/-- What was written is read back, and the reader ends where it began. -/
def ReadsBack (value : LocationListEither) : Prop :=
  ∃ m, Json.parse real.numbers value.reflectWriter = some m ∧
    ∀ path, reflectReader real {} ⟨m, path⟩ = .ok (value, ⟨m, path⟩)

/-- One alternative is there, with something in its list. -/
inductive HoldsOne : LocationListEither → Prop where
  | first (location : lsLocationType.Value) (locations : List lsLocationType.Value) :
      HoldsOne { first := some (location :: locations) }
  | second (link : locationLinkType.Value) (links : List locationLinkType.Value) :
      HoldsOne { second := some (link :: links) }

def NulFree (value : LocationListEither) : Prop :=
  ReflectType.NulFree (.optional (.vector lsLocationType)) value.first ∧
    ReflectType.NulFree (.optional (.vector locationLinkType)) value.second

/-- The first link, where there is one, has the range of its origin. -/
def FirstHasOrigin (value : LocationListEither) : Prop :=
  ∀ links, value.second = some links → ∀ link, links.head? = some link →
    (link.1 : Option lsRangeType.Value).isSome = true

end LocationListEither

theorem hasMember_iff {name : Bytes} {members : List (Bytes × JsonDocument R)} :
    hasMember name members = true ↔ name ∈ members.map (·.1) := by
  simp [hasMember, JsonReader.findMember]

theorem names_of_readMember {written : List (Bytes × Option (JsonDocument R))} {found : List (Bytes × JsonDocument R)}
    (h : written.mapM Json.readMember = some found) : found.map (·.1) = written.map (·.1) := by
  rw [Json.mapM_eq_some_iff] at h
  induction h with
  | nil => rfl
  | cons hmember _ ih =>
      obtain ⟨v, _, rfl⟩ := Option.map_eq_some_iff.mp hmember
      rw [List.map_cons, List.map_cons, ih]

/-- An object has the members that a struct was written with. -/
theorem jsonOf_struct {members : ReflectMembers} {values : members.Values} {m : JsonDocument R}
    (h : ReflectType.jsonOf real (.struct members) values = some m) :
    ∃ found, m = .object found ∧ found.map (·.1) = (members.jsonOf real values).map (·.1) := by
  obtain ⟨found, hfound, rfl⟩ := Option.map_eq_some_iff.mp h
  exact ⟨found, rfl, names_of_readMember hfound⟩

theorem jsonOf_of_parse (type : ReflectType) (hany : type.AnyFree) {value : type.Value} {m : JsonDocument R}
    (h : Json.parse real.numbers (type.reflectWriter value) = some m) : type.jsonOf real value = some m :=
  (reads_of_anyFree real hany value).parse_eq.symm.trans h

/-- The first element of an array is that of the first value. -/
theorem jsonOf_vector_cons {inner : ReflectType} (hany : inner.AnyFree) {value : inner.Value}
    {values : List inner.Value} {m : JsonDocument R}
    (h : ReflectType.jsonOf real (.vector inner) (value :: values) = some m) :
    ∃ first rest, m = .array (first :: rest) ∧ inner.jsonOf real value = some first := by
  have hhole : (value :: values).map inner.reflectWriter ≠ [[]] := fun heq =>
    reflectWriter_ne_nil hany value (List.cons.inj heq).1
  rw [jsonOf_vector, if_neg hhole] at h
  obtain ⟨elements, helements, rfl⟩ := Option.map_eq_some_iff.mp h
  rw [Json.mapM_eq_some_iff, List.map_cons] at helements
  obtain ⟨first, rest, hfirst, -, rfl⟩ := List.forall₂_cons_left_iff.mp helements
  exact ⟨first, rest, rfl, hfirst⟩

/-- A location is written without the range of an origin. -/
theorem hasMember_location {location : lsLocationType.Value} {m : JsonDocument R}
    (h : lsLocationType.jsonOf real location = some m) :
    ∃ members, m = .object members ∧ hasMember (bytesOf "originSelectionRange") members = false := by
  obtain ⟨members, rfl, hnames⟩ := jsonOf_struct real h
  refine ⟨members, rfl, ?_⟩
  rw [Bool.eq_false_iff, Ne, hasMember_iff, hnames]
  change bytesOf "originSelectionRange" ∉ [bytesOf "uri", bytesOf "range"]
  decide

/-- A link is written with the range of its origin where it has one. -/
theorem hasMember_link {link : locationLinkType.Value} {m : JsonDocument R}
    (h : locationLinkType.jsonOf real link = some m) :
    ∃ members, m = .object members ∧
      hasMember (bytesOf "originSelectionRange") members = Option.isSome (link.1 : Option lsRangeType.Value) := by
  obtain ⟨members, rfl, hnames⟩ := jsonOf_struct real h
  refine ⟨members, rfl, ?_⟩
  rw [Bool.eq_iff_iff, hasMember_iff, hnames]
  obtain ⟨origin, rest⟩ := link
  cases (origin : Option lsRangeType.Value) with
  | none =>
      change bytesOf "originSelectionRange" ∈
        [bytesOf "targetUri", bytesOf "targetRange", bytesOf "targetSelectionRange"] ↔ false = true
      decide
  | some range =>
      change bytesOf "originSelectionRange" ∈ bytesOf "originSelectionRange" :: _ ↔ true = true
      exact iff_of_true List.mem_cons_self rfl

namespace LocationListEither

variable {real}

theorem readFirst_of_read {locations : List lsLocationType.Value} {m : JsonDocument R} {path : List Bytes}
    (h : ReflectType.reflectReader real (.optional (.vector lsLocationType))
      (none : Option (List lsLocationType.Value)) ⟨m, path⟩ =
      .ok ((some locations : Option (List lsLocationType.Value)), ⟨m, path⟩)) :
    readFirst real {} ⟨m, path⟩ = .ok ({ first := some locations }, ⟨m, path⟩) := by
  rw [readFirst]
  simp only [h]
  rfl

theorem readSecond_of_read {links : List locationLinkType.Value} {m : JsonDocument R} {path : List Bytes}
    (h : ReflectType.reflectReader real (.optional (.vector locationLinkType))
      (none : Option (List locationLinkType.Value)) ⟨m, path⟩ =
      .ok ((some links : Option (List locationLinkType.Value)), ⟨m, path⟩)) :
    readSecond real {} ⟨m, path⟩ = .ok ({ second := some links }, ⟨m, path⟩) := by
  rw [readSecond]
  simp only [h]
  rfl

/-- Reading the first alternative leaves the second one as it is. -/
theorem second_of_readFirst {value value' : LocationListEither} {reader reader' : JsonReader R}
    (h : readFirst real value reader = .ok (value', reader')) : value'.second = value.second := by
  rw [readFirst] at h
  cases hread : ReflectType.reflectReader real (.optional (.vector lsLocationType)) value.first reader with
  | error e =>
      rw [hread] at h
      cases h
  | ok result =>
      rw [hread] at h
      cases h
      rfl

variable (real)

/-- A list of locations is read back. -/
theorem readsBack_first {location : lsLocationType.Value} {locations : List lsLocationType.Value}
    (hnul : NulFree { first := some (location :: locations) }) :
    ReadsBack real { first := some (location :: locations) } := by
  have hany : (ReflectType.optional (.vector lsLocationType)).AnyFree := anyFree_lsLocationType
  obtain ⟨m, hm⟩ := ReflectType.exists_jsonOf_of_anyFree real hany
    (some (location :: locations) : Option (List lsLocationType.Value))
  have hparse := (reads_of_anyFree real hany _).parse_eq.trans hm
  have hread := reflectReader_of_jsonOf real (.optional (.vector lsLocationType)) ⟨rfl, wellFormed_lsLocationType⟩
    hany hnul.1 hm
  refine ⟨m, hparse, fun path => ?_⟩
  obtain ⟨first, rest, rfl, hfirst⟩ := jsonOf_vector_cons real anyFree_lsLocationType
    (jsonOf_of_parse real (.vector lsLocationType) anyFree_lsLocationType hparse)
  obtain ⟨members, rfl, hmember⟩ := hasMember_location real hfirst
  rw [reflectReader]
  simp only [hmember, Bool.false_eq_true, if_false]
  exact readFirst_of_read (hread path)

/-- A list of links is read back where the first one has the range of its origin; else it is taken for locations. -/
theorem readsBack_second_iff {link : locationLinkType.Value} {links : List locationLinkType.Value}
    (hnul : NulFree { second := some (link :: links) }) :
    ReadsBack real { second := some (link :: links) } ↔
      (link.1 : Option lsRangeType.Value).isSome = true := by
  have hany : (ReflectType.optional (.vector locationLinkType)).AnyFree := anyFree_locationLinkType
  obtain ⟨m, hm⟩ := ReflectType.exists_jsonOf_of_anyFree real hany
    (some (link :: links) : Option (List locationLinkType.Value))
  have hparse := (reads_of_anyFree real hany _).parse_eq.trans hm
  have hread := reflectReader_of_jsonOf real (.optional (.vector locationLinkType)) ⟨rfl, wellFormed_locationLinkType⟩
    hany hnul.2 hm
  obtain ⟨first, rest, rfl, hfirst⟩ := jsonOf_vector_cons real anyFree_locationLinkType
    (jsonOf_of_parse real (.vector locationLinkType) anyFree_locationLinkType hparse)
  obtain ⟨members, rfl, hmember⟩ := hasMember_link real hfirst
  rw [← hmember]
  constructor
  · rintro ⟨m', hparse', hread'⟩
    obtain rfl := Option.some.inj (hparse.symm.trans hparse')
    by_contra hnone
    have hfirst' := hread' []
    rw [reflectReader] at hfirst'
    simp only [if_neg hnone] at hfirst'
    cases second_of_readFirst hfirst'
  · intro horigin
    refine ⟨_, hparse, fun path => ?_⟩
    rw [reflectReader]
    simp only [if_pos horigin]
    exact readSecond_of_read (hread path)

/-- The alternative and its list are read back exactly when it is not one of links that begins with a link without the
range of its origin. -/
theorem readsBack_iff {value : LocationListEither} (hholds : value.HoldsOne) (hnul : value.NulFree) :
    value.ReadsBack real ↔ value.FirstHasOrigin := by
  cases hholds with
  | first location locations =>
      refine iff_of_true (readsBack_first real hnul) ?_
      rintro links ⟨⟩
  | second link links =>
      rw [readsBack_second_iff real hnul]
      constructor
      · rintro horigin _ ⟨⟩ _ ⟨⟩
        exact horigin
      · intro horigin
        exact horigin _ rfl link rfl

/-- `{"start":{"line":0,"character":0},"end":{"line":0,"character":0}}`. -/
def emptyRange : lsRangeType.Value := lsRangeType.initial

def linkOf (origin : Option lsRangeType.Value) : locationLinkType.Value :=
  (origin, bytesOf "file:///a", emptyRange, emptyRange, ())

theorem nulFree_range (range : lsRangeType.Value) : lsRangeType.NulFree range :=
  ⟨⟨trivial, trivial, trivial⟩, ⟨trivial, trivial, trivial⟩, trivial⟩

theorem readsBack_iff_linkWithOrigin :
    ReadsBack noReals { second := some [linkOf (some emptyRange)] } ↔
      FirstHasOrigin { second := some [linkOf (some emptyRange)] } :=
  have huri : LspCpp.NulFree (bytesOf "file:///a") := by decide
  readsBack_iff noReals (.second _ _)
    ⟨trivial, nulFree_range _, huri, nulFree_range _, nulFree_range _, trivial⟩

/-- A link without the range of its origin is read as a location without a URI. -/
theorem linkWithoutOrigin_not_readsBack :
    HoldsOne { second := some [linkOf none] } ∧
      (∃ m, Json.parse noReals.numbers (reflectWriter { second := some [linkOf none] }) = some m ∧
        reflectReader noReals {} ⟨m, []⟩ = .ok ({ first := some [lsLocationType.initial] }, ⟨m, []⟩)) ∧
      ¬ReadsBack noReals { second := some [linkOf none] } := by
  have hany : (ReflectType.vector locationLinkType).AnyFree := anyFree_locationLinkType
  have hparse := (reads_of_anyFree noReals hany ([linkOf none] : List locationLinkType.Value)).parse_eq
  refine ⟨.second _ _, ⟨_, hparse, rfl⟩, ?_⟩
  rintro ⟨m, hparse', hread⟩
  obtain rfl := Option.some.inj (hparse.symm.trans hparse')
  cases hread []

end LocationListEither

end LspCpp

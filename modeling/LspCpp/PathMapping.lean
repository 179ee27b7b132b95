import LspCpp.StreamHeader
import Mathlib.Data.List.Pairwise

/-! Path mapping between a client and a server. An entry applies where its prefix ends at a component boundary of the
path; the loop over the entries recognises that one has applied by the text having changed. -/

namespace LspCpp

structure PathMappingEntry where
  clientPrefix : Bytes
  serverPrefix : Bytes
  deriving DecidableEq, Repr

def isPathSeparator (c : UInt8) : Bool := c == 47 || c == 92

def startsWith (value start : Bytes) : Bool :=
  if value.length < start.length then false else value.take start.length == start

def matchesPathPrefix (value pre : Bytes) : Bool :=
  if !startsWith value pre then false
  else if value.length = pre.length then true
  else if pre = [] then false
  else if pre.getLast?.any isPathSeparator then true
  else value[pre.length]?.any isPathSeparator

def remapPrefix (value fromPrefix toPrefix : Bytes) : Bytes :=
  if !matchesPathPrefix value fromPrefix then value else toPrefix ++ value.drop fromPrefix.length

/-- The loop of `PathMapping::client_to_server` and `PathMapping::server_to_client` over the entries. -/
def remapEntries (fromPrefix toPrefix : PathMappingEntry → Bytes) : List PathMappingEntry → Bytes → Bytes
  | [], path => path
  | entry :: entries, path =>
      let remapped := remapPrefix path (fromPrefix entry) (toPrefix entry)
      if remapped ≠ path then remapped else remapEntries fromPrefix toPrefix entries path

structure PathMapping where
  entries : List PathMappingEntry := []
  deriving DecidableEq, Repr

namespace PathMapping

def add (mapping : PathMapping) (clientPrefix serverPrefix : Bytes) : PathMapping :=
  { mapping with entries := mapping.entries ++ [⟨clientPrefix, serverPrefix⟩] }

def clientToServer (mapping : PathMapping) (clientPath : Bytes) : Bytes :=
  remapEntries (·.clientPrefix) (·.serverPrefix) mapping.entries clientPath

def serverToClient (mapping : PathMapping) (serverPath : Bytes) : Bytes :=
  remapEntries (·.serverPrefix) (·.clientPrefix) mapping.entries serverPath

end PathMapping

/-- A prefix ends at a component boundary of a path: the path ends there, or a separator stands on one side. -/
def AtBoundary (pre rest : Bytes) : Prop :=
  rest = [] ∨ pre ≠ [] ∧ (pre.getLast?.any isPathSeparator = true ∨ rest.head?.any isPathSeparator = true)

theorem startsWith_iff (value start : Bytes) : startsWith value start = true ↔ ∃ rest, value = start ++ rest := by
  rw [startsWith]
  split_ifs with hlen
  · refine iff_of_false (by simp) ?_
    rintro ⟨rest, rfl⟩
    rw [List.length_append] at hlen
    omega
  · rw [beq_iff_eq]
    constructor
    · intro htake
      refine ⟨value.drop start.length, ?_⟩
      conv_lhs => rw [← List.take_append_drop start.length value, htake]
    · rintro ⟨rest, rfl⟩
      exact List.take_left

theorem matchesPathPrefix_append (pre rest : Bytes) :
    matchesPathPrefix (pre ++ rest) pre = true ↔ AtBoundary pre rest := by
  have hstarts : startsWith (pre ++ rest) pre = true := (startsWith_iff _ _).mpr ⟨rest, rfl⟩
  have hnext : (pre ++ rest)[pre.length]? = rest.head? := by
    rw [List.getElem?_append_right (Nat.le_refl _), Nat.sub_self, List.head?_eq_getElem?]
  rw [matchesPathPrefix, hstarts, hnext, List.length_append, AtBoundary]
  by_cases hrest : rest = []
  · simp [hrest]
  have hlen : ¬pre.length + rest.length = pre.length := by
    have := List.length_pos_iff.mpr hrest
    omega
  by_cases hpre : pre = []
  · simp [hpre, hrest]
  · cases hlast : pre.getLast?.any isPathSeparator <;> simp [hpre, hrest]

theorem matchesPathPrefix_iff (value pre : Bytes) :
    matchesPathPrefix value pre = true ↔ ∃ rest, value = pre ++ rest ∧ AtBoundary pre rest := by
  constructor
  · intro h
    have hstarts : startsWith value pre = true := by
      by_contra hnot
      rw [matchesPathPrefix, Bool.eq_false_iff.mpr hnot] at h
      exact absurd h (by simp)
    obtain ⟨rest, rfl⟩ := (startsWith_iff _ _).mp hstarts
    exact ⟨rest, rfl, (matchesPathPrefix_append pre rest).mp h⟩
  · rintro ⟨rest, rfl, h⟩
    exact (matchesPathPrefix_append pre rest).mpr h

theorem remapPrefix_append {pre rest : Bytes} (h : AtBoundary pre rest) (toPrefix : Bytes) :
    remapPrefix (pre ++ rest) pre toPrefix = toPrefix ++ rest := by
  rw [remapPrefix, (matchesPathPrefix_append pre rest).mpr h, List.drop_left]
  rfl

theorem remapPrefix_of_not_matches {value fromPrefix : Bytes} (h : matchesPathPrefix value fromPrefix ≠ true)
    (toPrefix : Bytes) : remapPrefix value fromPrefix toPrefix = value := by
  rw [remapPrefix, Bool.eq_false_iff.mpr h]
  rfl

/-- A prefix that applies changes the path exactly when it is mapped to another one. -/
theorem remapPrefix_eq_self_iff {value fromPrefix : Bytes} (h : matchesPathPrefix value fromPrefix = true)
    (toPrefix : Bytes) : remapPrefix value fromPrefix toPrefix = value ↔ fromPrefix = toPrefix := by
  obtain ⟨rest, rfl, hboundary⟩ := (matchesPathPrefix_iff _ _).mp h
  rw [remapPrefix_append hboundary]
  constructor
  · intro heq
    exact (List.append_cancel_right heq).symm
  · rintro rfl
    rfl

section Remap

variable (fromPrefix toPrefix : PathMappingEntry → Bytes)

/-- The first entry, in the order of insertion, that applies to a path. -/
def firstMatching (entries : List PathMappingEntry) (path : Bytes) : Option PathMappingEntry :=
  entries.find? fun entry => matchesPathPrefix path (fromPrefix entry)

/-- The path with its prefix replaced by the first entry that applies to it. -/
def remapByFirst (entries : List PathMappingEntry) (path : Bytes) : Bytes :=
  match firstMatching fromPrefix entries path with
  | none => path
  | some entry => toPrefix entry ++ path.drop (fromPrefix entry).length

/-- The first entry that applies to a path maps its prefix to itself, and one that applies maps it to another. -/
def IdentityPassed (entries : List PathMappingEntry) (path : Bytes) : Prop :=
  (∃ entry ∈ firstMatching fromPrefix entries path, fromPrefix entry = toPrefix entry) ∧
    ∃ entry ∈ entries, matchesPathPrefix path (fromPrefix entry) = true ∧ fromPrefix entry ≠ toPrefix entry

variable {fromPrefix toPrefix} {entry : PathMappingEntry} {path : Bytes}

theorem remapEntries_of_unchanged (h : remapPrefix path (fromPrefix entry) (toPrefix entry) = path)
    (entries : List PathMappingEntry) :
    remapEntries fromPrefix toPrefix (entry :: entries) path = remapEntries fromPrefix toPrefix entries path := by
  rw [remapEntries]
  exact if_neg (not_not_intro h)

theorem remapEntries_of_changed (h : remapPrefix path (fromPrefix entry) (toPrefix entry) ≠ path)
    (entries : List PathMappingEntry) :
    remapEntries fromPrefix toPrefix (entry :: entries) path =
      remapPrefix path (fromPrefix entry) (toPrefix entry) := by
  rw [remapEntries]
  exact if_pos h

theorem firstMatching_of_matches (h : matchesPathPrefix path (fromPrefix entry) = true)
    (entries : List PathMappingEntry) : firstMatching fromPrefix (entry :: entries) path = some entry :=
  List.find?_cons_of_pos h

theorem firstMatching_of_not_matches (h : matchesPathPrefix path (fromPrefix entry) ≠ true)
    (entries : List PathMappingEntry) :
    firstMatching fromPrefix (entry :: entries) path = firstMatching fromPrefix entries path :=
  List.find?_cons_of_neg h

/-- The first entry that applies is an entry, and it applies. -/
theorem mem_of_firstMatching {entries : List PathMappingEntry}
    (h : firstMatching fromPrefix entries path = some entry) :
    entry ∈ entries ∧ matchesPathPrefix path (fromPrefix entry) = true :=
  ⟨List.mem_of_find?_eq_some h, List.find?_some (p := fun entry => matchesPathPrefix path (fromPrefix entry)) h⟩

theorem remapByFirst_of_matches (h : matchesPathPrefix path (fromPrefix entry) = true)
    (entries : List PathMappingEntry) :
    remapByFirst fromPrefix toPrefix (entry :: entries) path =
      remapPrefix path (fromPrefix entry) (toPrefix entry) := by
  rw [remapByFirst, firstMatching_of_matches h, remapPrefix, h]
  rfl

theorem remapByFirst_of_not_matches (h : matchesPathPrefix path (fromPrefix entry) ≠ true)
    (entries : List PathMappingEntry) :
    remapByFirst fromPrefix toPrefix (entry :: entries) path = remapByFirst fromPrefix toPrefix entries path := by
  rw [remapByFirst, firstMatching_of_not_matches h, remapByFirst]

/-- The loop leaves a path as it is exactly when every entry that applies maps its prefix to itself. -/
theorem remapEntries_eq_self_iff (entries : List PathMappingEntry) :
    remapEntries fromPrefix toPrefix entries path = path ↔
      ∀ entry ∈ entries, matchesPathPrefix path (fromPrefix entry) = true → fromPrefix entry = toPrefix entry := by
  induction entries with
  | nil => simp [remapEntries]
  | cons entry entries ih =>
      rw [List.forall_mem_cons]
      by_cases hmatches : matchesPathPrefix path (fromPrefix entry) = true
      · have hself := remapPrefix_eq_self_iff hmatches (toPrefix entry)
        by_cases hidentity : fromPrefix entry = toPrefix entry
        · rw [remapEntries_of_unchanged (hself.mpr hidentity), ih]
          simp [hidentity]
        · have hchanged := fun heq => hidentity (hself.mp heq)
          rw [remapEntries_of_changed hchanged]
          exact iff_of_false hchanged fun h => hidentity (h.1 hmatches)
      · rw [remapEntries_of_unchanged (remapPrefix_of_not_matches hmatches _), ih]
        simp [hmatches]

theorem remapEntries_eq_remapByFirst_iff (entries : List PathMappingEntry) :
    remapEntries fromPrefix toPrefix entries path = remapByFirst fromPrefix toPrefix entries path ↔
      ¬IdentityPassed fromPrefix toPrefix entries path := by
  induction entries with
  | nil => simp [remapEntries, remapByFirst, firstMatching, IdentityPassed]
  | cons entry entries ih =>
      by_cases hmatches : matchesPathPrefix path (fromPrefix entry) = true
      · have hself := remapPrefix_eq_self_iff hmatches (toPrefix entry)
        rw [remapByFirst_of_matches hmatches, IdentityPassed, firstMatching_of_matches hmatches]
        by_cases hidentity : fromPrefix entry = toPrefix entry
        · rw [remapEntries_of_unchanged (hself.mpr hidentity), hself.mpr hidentity, remapEntries_eq_self_iff]
          simp [hidentity]
        · rw [remapEntries_of_changed fun heq => hidentity (hself.mp heq)]
          simp [hidentity]
      · have hpassed : IdentityPassed fromPrefix toPrefix (entry :: entries) path ↔
            IdentityPassed fromPrefix toPrefix entries path := by
          rw [IdentityPassed, firstMatching_of_not_matches hmatches, IdentityPassed]
          simp [hmatches]
        rw [hpassed, ← ih, remapByFirst_of_not_matches hmatches,
          remapEntries_of_unchanged (remapPrefix_of_not_matches hmatches _)]

end Remap

/-- **The first entry that applies is used**, in both directions, exactly when it does not map its prefix to itself
while another one that applies maps it elsewhere. -/
theorem pathMapping_first_iff (mapping : PathMapping) (path : Bytes) :
    (mapping.clientToServer path = remapByFirst (·.clientPrefix) (·.serverPrefix) mapping.entries path ↔
        ¬IdentityPassed (·.clientPrefix) (·.serverPrefix) mapping.entries path) ∧
      (mapping.serverToClient path = remapByFirst (·.serverPrefix) (·.clientPrefix) mapping.entries path ↔
        ¬IdentityPassed (·.serverPrefix) (·.clientPrefix) mapping.entries path) :=
  ⟨remapEntries_eq_remapByFirst_iff mapping.entries, remapEntries_eq_remapByFirst_iff mapping.entries⟩

/-- A shared directory that is the same on both sides lies in one that is not. -/
def sharedMapping : PathMapping :=
  (PathMapping.add {} (bytesOf "/work/shared") (bytesOf "/work/shared")).add (bytesOf "/work") (bytesOf "/srv")

/-- The loop passes over the entry of the shared directory. -/
theorem pathMapping_first_sharedMapping :
    sharedMapping.clientToServer (bytesOf "/work/shared/a") = bytesOf "/srv/shared/a" ∧
      remapByFirst (·.clientPrefix) (·.serverPrefix) sharedMapping.entries (bytesOf "/work/shared/a") =
        bytesOf "/work/shared/a" := by
  exact ⟨by decide, by decide⟩

/-! ### There and back -/

/-- Prefixes of which none applies to another: they are nonempty and do not end in a separator. -/
structure PrefixesApart (f : PathMappingEntry → Bytes) (entries : List PathMappingEntry) : Prop where
  ne_nil : ∀ entry ∈ entries, f entry ≠ []
  no_separator : ∀ entry ∈ entries, (f entry).getLast?.any isPathSeparator = false
  apart : entries.Pairwise fun entry entry' =>
    ¬matchesPathPrefix (f entry) (f entry') = true ∧ ¬matchesPathPrefix (f entry') (f entry) = true

/-- A path of the side with these prefixes: an entry applies to it, or none does on the other side. -/
def OfOneSide (f g : PathMappingEntry → Bytes) (entries : List PathMappingEntry) (path : Bytes) : Prop :=
  (∃ entry ∈ entries, matchesPathPrefix path (f entry) = true) ∨
    ∀ entry ∈ entries, ¬matchesPathPrefix path (g entry) = true

namespace PrefixesApart

variable {f g : PathMappingEntry → Bytes} {entries : List PathMappingEntry} {entry entry' : PathMappingEntry}

/-- Behind such a prefix the path ends or goes on with a separator. -/
theorem atBoundary_iff (h : PrefixesApart f entries) (hmem : entry ∈ entries) (rest : Bytes) :
    AtBoundary (f entry) rest ↔ rest = [] ∨ rest.head?.any isPathSeparator = true := by
  rw [AtBoundary]
  simp [h.ne_nil entry hmem, h.no_separator entry hmem]

/-- Of two prefixes that apply to one path, the shorter one applies to the longer one. -/
theorem matches_of_le (h : PrefixesApart f entries) (hmem : entry ∈ entries) {rest rest' pre : Bytes}
    (hpath : f entry ++ rest = pre ++ rest') (hboundary : AtBoundary (f entry) rest)
    (hlen : (f entry).length ≤ pre.length) : matchesPathPrefix pre (f entry) = true := by
  obtain ⟨middle, rfl⟩ := List.prefix_of_prefix_length_le ⟨rest, rfl⟩ ⟨rest', hpath.symm⟩ hlen
  rw [List.append_assoc] at hpath
  rw [List.append_cancel_left hpath, h.atBoundary_iff hmem] at hboundary
  rw [matchesPathPrefix_append, h.atBoundary_iff hmem]
  cases middle with
  | nil => exact .inl rfl
  | cons c middle =>
      rcases hboundary with hnil | hsep
      · cases hnil
      · exact .inr hsep

/-- At most one entry applies to a path. -/
theorem matches_unique (h : PrefixesApart f entries) (hmem : entry ∈ entries) (hmem' : entry' ∈ entries) {path : Bytes}
    (hmatches : matchesPathPrefix path (f entry) = true) (hmatches' : matchesPathPrefix path (f entry') = true) :
    entry = entry' := by
  by_contra hne
  have hsymm : Std.Symm fun entry entry' : PathMappingEntry =>
      ¬matchesPathPrefix (f entry) (f entry') = true ∧ ¬matchesPathPrefix (f entry') (f entry) = true :=
    ⟨fun _ _ hapart => hapart.symm⟩
  have hapart := h.apart.forall hmem hmem' hne
  obtain ⟨rest, hpath, hboundary⟩ := (matchesPathPrefix_iff _ _).mp hmatches
  obtain ⟨rest', hpath', hboundary'⟩ := (matchesPathPrefix_iff _ _).mp hmatches'
  rcases Nat.le_total (f entry).length (f entry').length with hlen | hlen
  · exact hapart.2 (h.matches_of_le hmem (hpath.symm.trans hpath') hboundary hlen)
  · exact hapart.1 (h.matches_of_le hmem' (hpath'.symm.trans hpath) hboundary' hlen)

/-- The loop uses the one entry that applies, whether it changes the path or not. -/
theorem remapEntries_append (h : PrefixesApart f entries) (hmem : entry ∈ entries) {rest : Bytes}
    (hboundary : AtBoundary (f entry) rest) : remapEntries f g entries (f entry ++ rest) = g entry ++ rest := by
  have hmatches := (matchesPathPrefix_append (f entry) rest).mpr hboundary
  have hunique : ∀ entry' ∈ entries, matchesPathPrefix (f entry ++ rest) (f entry') = true → entry' = entry :=
    fun entry' hmem' hmatches' => h.matches_unique hmem' hmem hmatches' hmatches
  have hfirst : remapEntries f g entries (f entry ++ rest) = remapByFirst f g entries (f entry ++ rest) := by
    rw [remapEntries_eq_remapByFirst_iff]
    rintro ⟨⟨first, hfind, hidentity⟩, other, hother, happlies, hne⟩
    obtain ⟨hmem', hmatches'⟩ := mem_of_firstMatching hfind
    rw [hunique other hother happlies, ← hunique first hmem' hmatches'] at hne
    exact hne hidentity
  rw [hfirst, remapByFirst]
  cases hfind : firstMatching f entries (f entry ++ rest) with
  | none => exact absurd hmatches (List.find?_eq_none.mp hfind entry hmem)
  | some first =>
      obtain ⟨hmem', hmatches'⟩ := mem_of_firstMatching hfind
      simp only [hunique first hmem' hmatches', List.drop_left]

/-- The way back uses the same entry. -/
theorem remapEntries_roundTrip (hf : PrefixesApart f entries) (hg : PrefixesApart g entries) {path : Bytes}
    (hpath : ∃ entry ∈ entries, matchesPathPrefix path (f entry) = true) :
    remapEntries g f entries (remapEntries f g entries path) = path := by
  obtain ⟨entry, hmem, hmatches⟩ := hpath
  obtain ⟨rest, rfl, hboundary⟩ := (matchesPathPrefix_iff _ _).mp hmatches
  have hback : AtBoundary (g entry) rest :=
    (hg.atBoundary_iff hmem rest).mpr ((hf.atBoundary_iff hmem rest).mp hboundary)
  rw [hf.remapEntries_append hmem hboundary, hg.remapEntries_append hmem hback]

theorem remapEntries_roundTrip_iff (hf : PrefixesApart f entries) (hg : PrefixesApart g entries) (path : Bytes) :
    remapEntries g f entries (remapEntries f g entries path) = path ↔ OfOneSide f g entries path := by
  by_cases hpath : ∃ entry ∈ entries, matchesPathPrefix path (f entry) = true
  · exact iff_of_true (hf.remapEntries_roundTrip hg hpath) (.inl hpath)
  · have hnone : ∀ entry ∈ entries, ¬matchesPathPrefix path (f entry) = true :=
      fun entry hmem hmatches => hpath ⟨entry, hmem, hmatches⟩
    have hkept : remapEntries f g entries path = path :=
      (remapEntries_eq_self_iff entries).mpr fun entry hmem hmatches => absurd hmatches (hnone entry hmem)
    rw [hkept, remapEntries_eq_self_iff]
    constructor
    · intro hidentity
      refine .inr fun entry hmem hmatches => hnone entry hmem ?_
      rw [← hidentity entry hmem hmatches]
      exact hmatches
    · rintro (hmapped | hother)
      · exact absurd hmapped hpath
      · exact fun entry hmem hmatches => absurd hmatches (hother entry hmem)

end PrefixesApart

/-- **Path mapping round trip**: with prefixes of which none applies to another, on either side, a path to which an
entry applies comes back from the other side as it was. -/
theorem pathMapping_roundTrip (mapping : PathMapping) (hclient : PrefixesApart (·.clientPrefix) mapping.entries)
    (hserver : PrefixesApart (·.serverPrefix) mapping.entries) (path : Bytes) :
    ((∃ entry ∈ mapping.entries, matchesPathPrefix path entry.clientPrefix = true) →
        mapping.serverToClient (mapping.clientToServer path) = path) ∧
      ((∃ entry ∈ mapping.entries, matchesPathPrefix path entry.serverPrefix = true) →
        mapping.clientToServer (mapping.serverToClient path) = path) :=
  ⟨fun hpath => hclient.remapEntries_roundTrip hserver hpath,
    fun hpath => hserver.remapEntries_roundTrip hclient hpath⟩

/-- Two projects, of which the second has the same place on both sides. -/
def projectsMapping : PathMapping :=
  (PathMapping.add {} (bytesOf "/client/project") (bytesOf "/server/project")).add (bytesOf "/tools") (bytesOf "/tools")

theorem pathMapping_roundTrip_projectsMapping :
    projectsMapping.serverToClient (projectsMapping.clientToServer (bytesOf "/client/project/src/a.cpp")) =
        bytesOf "/client/project/src/a.cpp" ∧
      projectsMapping.clientToServer (projectsMapping.serverToClient (bytesOf "/tools/b")) = bytesOf "/tools/b" := by
  have hclient : PrefixesApart (·.clientPrefix) projectsMapping.entries :=
    ⟨by decide, by decide, by decide⟩
  have hserver : PrefixesApart (·.serverPrefix) projectsMapping.entries :=
    ⟨by decide, by decide, by decide⟩
  exact ⟨(pathMapping_roundTrip projectsMapping hclient hserver _).1 (by decide),
    (pathMapping_roundTrip projectsMapping hclient hserver _).2 (by decide)⟩

end LspCpp

import LspCpp.WorkingLookup

/-! The versions of the documents in the store, against the versions that the client sent with them. -/

namespace LspCpp

namespace WorkingFiles

variable {Uri : Type*} (getAbsolutePath : Uri → AbsolutePath)

/-- The version that an operation carries for a path: that of an open, and that of a change where it has one. -/
def carries (filename : AbsolutePath) : WorkingAction Uri → Option Int
  | .onOpen uri version _ => if getAbsolutePath uri = filename then some version else none
  | .onChange uri version _ => if getAbsolutePath uri = filename then version else none
  | .onClose _ | .onSave _ | .closeFilesInDirectory _ | .clear => none

/-- The version that was carried last. A tracked path was opened, so that this is the version of its most recent
open or of a change after it. -/
def carriedVersion (filename : AbsolutePath) (history : List (WorkingAction Uri)) : Option Int :=
  (history.filterMap (carries getAbsolutePath filename)).getLast?

/-- Every tracked file has the version that was carried last for its path. -/
def VersionsTracked (history : List (WorkingAction Uri)) (s : WorkingFiles) : Prop :=
  ∀ filename file, s.files.lookup filename = some file →
    carriedVersion getAbsolutePath filename history = some file.version

/-- An open that makes a new record, which does not take over the version, carries the version 0. -/
def OpensAtZero (a : WorkingAction Uri) (s : WorkingFiles) : Prop :=
  match a with
  | .onOpen uri version _ =>
      (getAbsolutePath uri).valid = true → getAbsolutePath uri ∈ s.files ∨ version = 0
  | _ => True

variable {getAbsolutePath}

theorem carriedVersion_concat (filename : AbsolutePath) (history : List (WorkingAction Uri))
    (a : WorkingAction Uri) :
    carriedVersion getAbsolutePath filename (history ++ [a]) =
      (carries getAbsolutePath filename a).or (carriedVersion getAbsolutePath filename history) := by
  rw [carriedVersion, List.filterMap_append, List.getLast?_append]
  cases h : carries getAbsolutePath filename a <;> simp [h, carriedVersion]

/-- The version of the record that an open leaves. -/
theorem version_opened (s : WorkingFiles) (filename : AbsolutePath) (version : Int) (text : Bytes) :
    (s.opened filename version text).version = if filename ∈ s.files then version else 0 := by
  unfold opened
  cases hfile : s.files.lookup filename with
  | some file =>
      rw [if_pos (Table.mem_of_lookup hfile)]
      rfl
  | none =>
      rw [if_neg (AList.lookup_eq_none.mp hfile)]
      rfl

/-- A file that an operation without a version for it leaves alone stays tracked. -/
theorem VersionsTracked.keep {history : List (WorkingAction Uri)} {s : WorkingFiles}
    (h : VersionsTracked getAbsolutePath history s) {a : WorkingAction Uri} {filename : AbsolutePath}
    {file : WorkingFile} (hcarries : carries getAbsolutePath filename a = none)
    (hfile : s.files.lookup filename = some file) :
    carriedVersion getAbsolutePath filename (history ++ [a]) = some file.version := by
  rw [carriedVersion_concat, hcarries, Option.none_or]
  exact h filename file hfile

theorem VersionsTracked.onOpen {history : List (WorkingAction Uri)} {s : WorkingFiles}
    (h : VersionsTracked getAbsolutePath history s) {uri : Uri} {version : Int} {text : Bytes}
    (hok : OpensAtZero getAbsolutePath (.onOpen uri version text) s) (hkeys : ∀ k ∈ s.files, k.valid = true) :
    VersionsTracked getAbsolutePath (history ++ [.onOpen uri version text])
      (s.onOpen (getAbsolutePath uri) version text) := by
  intro filename file hfile
  by_cases hvalid : (getAbsolutePath uri).valid = true
  · rw [lookup_onOpen s hvalid] at hfile
    split_ifs at hfile with heq
    · obtain rfl := Option.some.inj hfile
      rw [carriedVersion_concat, carries, if_pos heq.symm, Option.some_or, version_opened]
      split_ifs with hmem
      · rfl
      · rw [(hok hvalid).resolve_left hmem]
    · exact h.keep (if_neg fun hpath => heq hpath.symm) hfile
  · rw [onOpen_of_not_valid s hvalid] at hfile
    refine h.keep (if_neg fun hpath => hvalid ?_) hfile
    rw [hpath]
    exact hkeys filename (Table.mem_of_lookup hfile)

theorem VersionsTracked.onChange {history : List (WorkingAction Uri)} {s s' : WorkingFiles}
    (h : VersionsTracked getAbsolutePath history s) {uri : Uri} {version : Option Int}
    {contentChanges : List ContentChange} (hkeys : ∀ k ∈ s.files, k.valid = true)
    (hchange : s.onChange (getAbsolutePath uri) version contentChanges = some s') :
    VersionsTracked getAbsolutePath (history ++ [.onChange uri version contentChanges]) s' := by
  intro filename file hfile
  obtain ⟨hnone, rfl⟩ | ⟨before, after, hbefore, hedits, hlookup⟩ := onChange_eq_some hchange
  · refine h.keep (if_neg fun hpath => ?_) hfile
    have hvalid := hkeys filename (Table.mem_of_lookup hfile)
    rw [hpath, getFileByFilename_of_valid _ hvalid, hfile] at hnone
    cases hnone
  · rw [hlookup] at hfile
    split_ifs at hfile with heq
    · obtain rfl := Option.some.inj hfile
      obtain ⟨hversion, _, _⟩ := WorkingFile.sameRecord_foldlM contentChanges hedits
      have hcarried := h (getAbsolutePath uri) before (of_getFileByFilename hbefore).2
      rw [carriedVersion_concat, carries, if_pos heq.symm, heq, hcarried, hversion]
      cases version <;> rfl
    · exact h.keep (if_neg fun hpath => heq hpath.symm) hfile

theorem VersionsTracked.step {history : List (WorkingAction Uri)} {s s' : WorkingFiles} {a : WorkingAction Uri}
    (h : VersionsTracked getAbsolutePath history s) (hok : OpensAtZero getAbsolutePath a s)
    (hkeys : ∀ k ∈ s.files, k.valid = true) (hstep : step getAbsolutePath a s = some s') :
    VersionsTracked getAbsolutePath (history ++ [a]) s' := by
  cases a with
  | onOpen uri version text =>
      cases hstep
      exact h.onOpen hok hkeys
  | onChange uri version contentChanges => exact h.onChange hkeys hstep
  | onClose uri =>
      cases hstep
      intro filename file hfile
      rw [lookup_onClose] at hfile
      split_ifs at hfile
      exact h.keep rfl hfile
  | onSave uri =>
      cases hstep
      exact fun filename file hfile => h.keep rfl hfile
  | closeFilesInDirectory directories =>
      cases hstep
      intro filename file hfile
      rw [lookup_closeFilesInDirectory] at hfile
      exact h.keep rfl (Option.filter_eq_some_iff.mp hfile).1
  | clear =>
      cases hstep
      exact nofun

/-- A new record whose open carried another version than 0 is not tracked. -/
theorem not_versionsTracked_onOpen {history : List (WorkingAction Uri)} {s : WorkingFiles} {uri : Uri}
    {version : Int} {text : Bytes} (hok : ¬OpensAtZero getAbsolutePath (.onOpen uri version text) s) :
    ¬VersionsTracked getAbsolutePath (history ++ [.onOpen uri version text])
      (s.onOpen (getAbsolutePath uri) version text) := by
  intro htracked
  simp only [OpensAtZero, Classical.not_imp, not_or] at hok
  obtain ⟨hvalid, hmem, hversion⟩ := hok
  have hcarried := htracked (getAbsolutePath uri) (s.opened (getAbsolutePath uri) version text)
    (by rw [lookup_onOpen s hvalid, if_pos rfl])
  rw [carriedVersion_concat, carries, if_pos rfl, Option.some_or, version_opened, if_neg hmem] at hcarried
  exact hversion (Option.some.inj hcarried)

/-- **The versions are tracked** in all states of a run exactly when each of its opens either finds its path
tracked or carries the version 0. -/
theorem versionsTracked_iff (getAbsolutePath : Uri → AbsolutePath) (actions : List (WorkingAction Uri)) :
    (∀ history s, history <+: actions → (workingSystem getAbsolutePath).run history {} = some s →
        VersionsTracked getAbsolutePath history s) ↔
      ∀ history a s, history ++ [a] <+: actions → (workingSystem getAbsolutePath).run history {} = some s →
        OpensAtZero getAbsolutePath a s := by
  constructor
  · intro h history a s hprefix hrun
    by_contra hok
    cases a with
    | onOpen uri version text =>
        refine not_versionsTracked_onOpen hok (h _ _ hprefix ?_)
        rw [Transition.System.run_concat, hrun]
        rfl
    | onChange | onClose | onSave | closeFilesInDirectory | clear => exact hok trivial
  · intro hok history
    induction history using List.reverseRecOn with
    | nil =>
        intro s _ hrun
        cases hrun
        exact nofun
    | append_singleton history a ih =>
        intro s' hprefix hrun
        rw [Transition.System.run_concat] at hrun
        obtain ⟨s, hs, hstep⟩ := Option.bind_eq_some_iff.mp hrun
        have hbefore : history <+: actions := (List.prefix_append history [a]).trans hprefix
        have hreach : (workingSystem getAbsolutePath).Reachable s :=
          Transition.System.reachable_of_run history (.init rfl) hs
        exact (ih s hbefore hs).step (hok history a s hprefix hs) (valid_of_mem hreach) hstep

/-- The first open of a document, with the version 1. -/
theorem versionsTracked_firstOpen :
    ∃ s, (workingSystem fun uri : Bytes => ⟨uri.drop 7⟩).run
        [.onOpen (bytesOf "file:///a/b") 1 (bytesOf "x")] {} = some s ∧
      ¬VersionsTracked (fun uri : Bytes => ⟨uri.drop 7⟩) [.onOpen (bytesOf "file:///a/b") 1 (bytesOf "x")] s := by
  refine ⟨_, rfl, fun h => ?_⟩
  have hcarried := h ⟨bytesOf "/a/b"⟩ (WorkingFile.create ⟨bytesOf "/a/b"⟩ (bytesOf "x")) (by decide)
  exact absurd hcarried (by decide)

end WorkingFiles

end LspCpp

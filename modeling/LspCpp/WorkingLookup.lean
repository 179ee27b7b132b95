import LspCpp.WorkingFiles

/-! What each operation of the store does to the entry of a path: one equation for the lookups after it. -/

namespace LspCpp

namespace WorkingFile

/-- An edit replaces the text and its index and nothing else. -/
theorem applyChange_eq_some {file file' : WorkingFile} {diff : ContentChange}
    (hchange : file.applyChange diff = some file') :
    ∃ content, file' = rebuildLineOffsets { file with bufferContent := content } := by
  rw [applyChange] at hchange
  split at hchange
  · cases hchange
    exact ⟨_, rfl⟩
  · obtain ⟨content, _, rfl⟩ := Option.map_eq_some_iff.mp hchange
    exact ⟨content, rfl⟩

/-- The fields that edits leave as they are. -/
def SameRecord (file file' : WorkingFile) : Prop :=
  file'.version = file.version ∧ file'.filename = file.filename ∧ file'.directory = file.directory

theorem sameRecord_foldlM (contentChanges : List ContentChange) {file file' : WorkingFile}
    (hchanges : contentChanges.foldlM applyChange file = some file') : SameRecord file file' := by
  induction contentChanges generalizing file with
  | nil =>
      cases hchanges
      exact ⟨rfl, rfl, rfl⟩
  | cons diff rest ih =>
      rw [List.foldlM_cons] at hchanges
      obtain ⟨next, hnext, hrest⟩ := Option.bind_eq_some_iff.mp hchanges
      obtain ⟨hversion, hfilename, hdirectory⟩ := ih hrest
      obtain ⟨content, rfl⟩ := applyChange_eq_some hnext
      exact ⟨hversion, hfilename, hdirectory⟩

end WorkingFile

/-- One edit of a text, with the offsets of the plain scan; nothing where they are no range of the text. -/
def editText (content : Bytes) (diff : ContentChange) : Option Bytes :=
  match diff.range with
  | none => some diff.text
  | some range =>
      WorkingFile.replaceRange content (getOffsetForPosition range.start content)
        (getOffsetForPosition range.end_ content) diff.text

namespace WorkingFile

theorem Indexed.map_applyChange {file : WorkingFile} (h : file.Indexed) (diff : ContentChange) :
    (file.applyChange diff).map bufferContent = editText file.bufferContent diff := by
  rw [WorkingFile.applyChange, editText]
  cases diff.range with
  | none => rfl
  | some range =>
      simp only [h.getOffsetForPosition, Option.map_map]
      exact Option.map_id_apply

/-- The edits of one change, each on the text that the one before it left. -/
theorem Indexed.map_foldlM (contentChanges : List ContentChange) {file : WorkingFile} (h : file.Indexed) :
    (contentChanges.foldlM WorkingFile.applyChange file).map bufferContent =
      contentChanges.foldlM editText file.bufferContent := by
  induction contentChanges generalizing file with
  | nil => rfl
  | cons diff rest ih =>
      rw [List.foldlM_cons, List.foldlM_cons, ← h.map_applyChange]
      cases hnext : file.applyChange diff with
      | none => rfl
      | some next => exact ih (Indexed.applyChange hnext)

end WorkingFile

namespace WorkingFiles

/-- Every file of a reachable store has the index of its text. -/
theorem indexed_of_reachable {Uri : Type*} {getAbsolutePath : Uri → AbsolutePath} {s : WorkingFiles}
    (hs : (workingSystem getAbsolutePath).Reachable s) : s.Indexed := by
  refine hs.invariant Indexed ?_ fun a s s' h _ hstep => h.step hstep
  rintro s rfl
  exact nofun

theorem indexed_of_getFileByFilename {Uri : Type*} {getAbsolutePath : Uri → AbsolutePath} {s : WorkingFiles}
    (hs : (workingSystem getAbsolutePath).Reachable s) {filename : AbsolutePath} {file : WorkingFile}
    (hfile : s.getFileByFilename filename = some file) : file.Indexed :=
  indexed_of_reachable hs _ file (of_getFileByFilename hfile).2

/-- The record that `onOpen` leaves under a valid path. -/
def opened (s : WorkingFiles) (filename : AbsolutePath) (version : Int) (text : Bytes) : WorkingFile :=
  match s.files.lookup filename with
  | some file => WorkingFile.rebuildLineOffsets { file with version := version, bufferContent := text }
  | none => WorkingFile.create filename text

theorem getFileByFilename_of_valid (s : WorkingFiles) {filename : AbsolutePath} (hvalid : filename.valid = true) :
    s.getFileByFilename filename = s.files.lookup filename := if_pos hvalid

theorem onOpen_of_not_valid (s : WorkingFiles) {filename : AbsolutePath} (hvalid : ¬filename.valid = true)
    (version : Int) (text : Bytes) : s.onOpen filename version text = s := by
  rw [onOpen, if_pos (by simpa using hvalid)]

theorem lookup_onOpen (s : WorkingFiles) {filename : AbsolutePath} (hvalid : filename.valid = true) (version : Int)
    (text : Bytes) (k : AbsolutePath) :
    (s.onOpen filename version text).files.lookup k =
      if k = filename then some (s.opened filename version text) else s.files.lookup k := by
  rw [onOpen, if_neg (by simpa using hvalid), opened, getFileByFilename_of_valid s hvalid]
  cases s.files.lookup filename with
  | some file => exact Table.lookup_insert_ite s.files filename k _
  | none => exact Table.lookup_insert_ite s.files filename k _

/-- `onChange` leaves a store without the path as it is, and else replaces its record. -/
theorem onChange_eq_some {s s' : WorkingFiles} {filename : AbsolutePath} {version : Option Int}
    {contentChanges : List ContentChange} (h : s.onChange filename version contentChanges = some s') :
    s.getFileByFilename filename = none ∧ s' = s ∨
      ∃ file file', s.getFileByFilename filename = some file ∧
        contentChanges.foldlM WorkingFile.applyChange
          { file with version := version.getD file.version, counter := file.counter + 1 } = some file' ∧
        ∀ k, s'.files.lookup k = if k = filename then some file' else s.files.lookup k := by
  rw [onChange] at h
  split at h
  · rename_i hnone
    exact .inl ⟨hnone, (Option.some.inj h).symm⟩
  · rename_i file hfile
    obtain ⟨file', hchanges, rfl⟩ := Option.map_eq_some_iff.mp h
    exact .inr ⟨file, file', hfile, hchanges, fun k => Table.lookup_insert_ite _ _ _ _⟩

theorem lookup_onClose (s : WorkingFiles) (filename k : AbsolutePath) :
    (s.onClose filename).files.lookup k =
      if filename.valid = true ∧ k = filename then none else s.files.lookup k := by
  rw [onClose]
  by_cases hvalid : filename.valid = true
  · rw [if_pos hvalid, Table.lookup_erase_ite]
    simp [hvalid]
  · rw [if_neg hvalid]
    simp [hvalid]

/-- The files that `closeFilesInDirectory` leaves are those whose directory is not named. -/
theorem lookup_closeFilesInDirectory (s : WorkingFiles) (directories : List Directory) (k : AbsolutePath) :
    (s.closeFilesInDirectory directories).files.lookup k =
      (s.files.lookup k).filter fun file => decide (file.directory ∉ directories) := by
  rw [closeFilesInDirectory, Table.lookup_foldl_erase]
  have hdelete : k ∈ (s.files.entries.flatMap fun entry =>
      (directories.filter fun dir => entry.2.directory = dir).map fun _ => entry.1) ↔
      ∃ file, s.files.lookup k = some file ∧ file.directory ∈ directories := by
    simp only [List.mem_flatMap, List.mem_map, List.mem_filter, decide_eq_true_eq]
    constructor
    · rintro ⟨⟨k', file⟩, hentry, dir, ⟨hdir, rfl⟩, rfl⟩
      exact ⟨file, AList.mem_lookup_iff.mpr hentry, hdir⟩
    · rintro ⟨file, hfile, hdir⟩
      exact ⟨⟨k, file⟩, AList.mem_lookup_iff.mp hfile, _, ⟨hdir, rfl⟩, rfl⟩
  by_cases hmem : ∃ file, s.files.lookup k = some file ∧ file.directory ∈ directories
  · rw [if_pos (hdelete.mpr hmem)]
    obtain ⟨file, hfile, hdir⟩ := hmem
    rw [hfile, Option.filter_some, if_neg (by simpa using hdir)]
  · rw [if_neg fun h => hmem (hdelete.mp h)]
    cases hfile : s.files.lookup k with
    | none => rfl
    | some file =>
        have hdir : file.directory ∉ directories := fun hdir => hmem ⟨file, hfile, hdir⟩
        rw [Option.filter_some, if_pos (decide_eq_true hdir)]

/-- The keys of the store stay valid paths. -/
theorem valid_of_step {Uri : Type*} {getAbsolutePath : Uri → AbsolutePath} {s s' : WorkingFiles}
    {a : WorkingAction Uri} (h : ∀ k ∈ s.files, k.valid = true) (hstep : step getAbsolutePath a s = some s') :
    ∀ k ∈ s'.files, k.valid = true := by
  intro k hk
  obtain ⟨file, hfile⟩ := Option.isSome_iff_exists.mp (AList.lookup_isSome.mpr hk)
  cases a with
  | onOpen uri version text =>
      cases hstep
      by_cases hvalid : (getAbsolutePath uri).valid = true
      · rw [lookup_onOpen s hvalid] at hfile
        split_ifs at hfile with heq
        · rw [heq]
          exact hvalid
        · exact h k (Table.mem_of_lookup hfile)
      · rw [onOpen_of_not_valid s hvalid] at hfile
        exact h k (Table.mem_of_lookup hfile)
  | onChange uri version contentChanges =>
      obtain ⟨_, rfl⟩ | ⟨before, after, hbefore, _, hlookup⟩ := onChange_eq_some hstep
      · exact h k hk
      · rw [hlookup] at hfile
        split_ifs at hfile with heq
        · rw [heq]
          exact (of_getFileByFilename hbefore).1
        · exact h k (Table.mem_of_lookup hfile)
  | onClose uri =>
      cases hstep
      rw [lookup_onClose] at hfile
      split_ifs at hfile
      exact h k (Table.mem_of_lookup hfile)
  | onSave uri =>
      cases hstep
      exact h k hk
  | closeFilesInDirectory directories =>
      cases hstep
      rw [lookup_closeFilesInDirectory] at hfile
      exact h k (Table.mem_of_lookup (Option.filter_eq_some_iff.mp hfile).1)
  | clear =>
      cases hstep
      exact absurd hk (AList.notMem_empty k)

theorem valid_of_mem {Uri : Type*} {getAbsolutePath : Uri → AbsolutePath} {s : WorkingFiles}
    (hs : (workingSystem getAbsolutePath).Reachable s) : ∀ k ∈ s.files, k.valid = true := by
  refine hs.invariant (fun s => ∀ k ∈ s.files, k.valid = true) ?_ fun a s s' h _ hstep => valid_of_step h hstep
  rintro s rfl k hk
  exact absurd hk (AList.notMem_empty k)

end WorkingFiles

end LspCpp

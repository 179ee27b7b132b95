import LspCpp.UriRoundTrip
import LspCpp.WorkingLookup

/-! The store of documents as a map from normalised paths to texts. The map is the abstract machine: it has no
records, no directories and no line index, and the directory of a path is read off the path. -/

namespace LspCpp

/-- The tracked paths with their texts. -/
abbrev TextMap := AbsolutePath → Option Bytes

/-- The path up to its last slash, with that slash. -/
def upToLastSlash (path : Bytes) : Bytes := path.rdropWhile (· != 47)

/-- The document that an operation names. -/
def WorkingAction.uri? {Uri : Type*} : WorkingAction Uri → Option Uri
  | .onOpen uri _ _ | .onChange uri _ _ | .onClose uri | .onSave uri => some uri
  | .closeFilesInDirectory _ | .clear => none

namespace TextMap

variable {Uri : Type*} (getAbsolutePath : Uri → AbsolutePath)

/-- The edits of a change, on the text of a tracked path. -/
def change (m : TextMap) (filename : AbsolutePath) (contentChanges : List ContentChange) : Option TextMap :=
  match m filename with
  | none => some m
  | some text => (contentChanges.foldlM editText text).map fun text => Function.update m filename (some text)

/-- One operation; a document without an absolute path cannot be opened. -/
def step : WorkingAction Uri → TextMap → Option TextMap
  | .onOpen uri _ text, m =>
      some (if (getAbsolutePath uri).valid then Function.update m (getAbsolutePath uri) (some text) else m)
  | .onChange uri _ contentChanges, m => m.change (getAbsolutePath uri) contentChanges
  | .onClose uri, m => some (Function.update m (getAbsolutePath uri) none)
  | .onSave _, m => some m
  | .closeFilesInDirectory directories, m =>
      some fun path => if ⟨upToLastSlash path.path⟩ ∈ directories then none else m path
  | .clear, _ => some fun _ => none

end TextMap

/-- The abstract machine from the empty map on. -/
def textSystem {Uri : Type*} (getAbsolutePath : Uri → AbsolutePath) :
    Transition.System TextMap (WorkingAction Uri) where
  init m := m = fun _ => none
  step := TextMap.step getAbsolutePath

/-- A path that the store can be asked for: none, or a normalised one. -/
def IsNormal (path : Bytes) : Prop :=
  path = [] ∨ ∃ root components, IsRoot root ∧ (∀ c ∈ components, IsComponent (fun _ => True) c) ∧
    path = renderPath root components

theorem head?_rawPath {uri : Bytes} (hscheme : startsWithFileScheme uri = true) :
    rawPathFromFileUri uri = [] ∨ (rawPathFromFileUri uri).head? = some 47 := by
  have hdecode : ∀ path : Bytes, path = [] ∨ path.head? = some 47 →
      percentDecodeFilePath path = [] ∨ (percentDecodeFilePath path).head? = some 47 := by
    rintro path (rfl | hpath)
    · exact .inl rfl
    · cases path with
      | nil => exact .inl rfl
      | cons c path =>
          obtain rfl : c = 47 := Option.some.inj hpath
          rw [percentDecodeFilePath_cons (by decide)]
          exact .inr rfl
  rw [rawPathFromFileUri, hscheme]
  simp only [Bool.not_true, Bool.false_eq_true, if_false]
  split_ifs with hauthority hslash hslash
  · exact hdecode _ (.inr rfl)
  · exact hdecode _ (.inr rfl)
  · refine hdecode _ ?_
    rw [stripUriPathSuffix]
    generalize (uri.drop 7).dropWhile (!isDelimiter ·) = rest at hslash
    cases rest with
    | nil => exact .inl rfl
    | cons c rest =>
        obtain rfl : c = 47 := Option.some.inj hslash
        exact .inr rfl
  · exact .inl rfl

/-- The path of a document is normalised. -/
theorem isNormal_getAbsolutePath (posix : Posix) (uri : LsDocumentUri) :
    IsNormal (uri.getAbsolutePath posix).path := by
  rw [LsDocumentUri.getAbsolutePath]
  split_ifs with hscheme
  · rcases head?_rawPath hscheme with hnil | hslash
    · rw [LsDocumentUri.getRawPath, hnil]
      exact .inl rfl
    · obtain ⟨root, components, hroot, hcomponents, hpath, -⟩ :=
        posix.normalizePath_of_slash hslash (P := fun _ => True) fun _ _ => trivial
      exact .inr ⟨root, components, hroot, hcomponents, hpath⟩
  · exact .inl rfl

/-- A normalised path ends in a slash only where it is the root. -/
theorem getLast?_renderPath {P : UInt8 → Prop} (root : Bytes) {components : List Bytes}
    (hcomponents : ∀ c ∈ components, IsComponent P c) (hne : components ≠ []) :
    (renderPath root components).getLast? ≠ some 47 := by
  obtain ⟨front, c, rfl⟩ := List.eq_nil_or_concat' components |>.resolve_left hne
  have hc := hcomponents c (by simp)
  rw [renderPath, if_neg hne, joinSlashes_concat, List.dropLast_concat, List.getLast?_append_of_ne_nil _ hc.ne_nil]
  exact fun h => hc.no_slash (List.mem_of_getLast? h)

/-- What lies before the last slash of an absolute path is absolute and ends in a slash. -/
theorem upToLastSlash_spec {path : Bytes} (hhead : path.head? = some 47) :
    (upToLastSlash path).head? = some 47 ∧ (upToLastSlash path).getLast? = some 47 := by
  have hmem : 47 ∈ path := List.mem_of_head? hhead
  have hne : upToLastSlash path ≠ [] := by
    rw [upToLastSlash, Ne, List.rdropWhile_eq_nil_iff]
    intro hall
    exact absurd (hall 47 hmem) (by decide)
  constructor
  · obtain ⟨rest, hrest⟩ := List.rdropWhile_prefix (· != (47 : UInt8)) path
    obtain ⟨c, front, hfront⟩ := List.exists_cons_of_ne_nil hne
    rw [upToLastSlash] at hfront
    rw [hfront] at hrest
    rw [← hrest] at hhead
    rw [upToLastSlash, hfront]
    exact hhead
  · have hlast := List.rdropWhile_last_not (· != (47 : UInt8)) path hne
    have heq : (upToLastSlash path).getLast hne = 47 := by
      rw [bne_iff_ne, not_not] at hlast
      exact hlast
    rw [List.getLast?_eq_some_getLast hne, heq]

/-- `GetDirName` of a normalised path. -/
theorem getDirName_renderPath {P : UInt8 → Prop} {root : Bytes} (hroot : IsRoot root) {components : List Bytes}
    (hcomponents : ∀ c ∈ components, IsComponent P c) (hback : 92 ∉ renderPath root components) :
    getDirName (renderPath root components) = upToLastSlash (renderPath root components) := by
  have hmap : ((renderPath root components).map fun c => if c = 92 then 47 else c) = renderPath root components :=
    normalizePathSeparators_eq hback
  have hhead := Posix.head?_renderPath hroot components
  rw [getDirName, hmap]
  by_cases hnil : components = []
  · rw [renderPath, if_pos hnil]
    rfl
  · have hlast := getLast?_renderPath root hcomponents hnil
    generalize renderPath root components = path at hhead hlast
    have hne : path ≠ [] := by
      rintro rfl
      cases hhead
    have hdrive : ¬(path = [47] ∨ (path.length = 3 ∧ path[1]? = some 58 ∧ path[2]? = some 47)) := by
      rintro (rfl | ⟨hlen, _, hslash⟩)
      · exact hlast rfl
      · rw [List.getLast?_eq_getElem?, hlen] at hlast
        exact hlast hslash
    simp only [if_neg hne, if_neg hdrive, if_neg hlast, if_pos (List.mem_of_head? hhead)]
    rfl

/-- The directory of a new record is the part of its path up to the last slash. -/
theorem directory_create {filename : AbsolutePath} (hnormal : IsNormal filename.path) (hvalid : filename.valid = true)
    (hback : 92 ∉ filename.path) (text : Bytes) :
    (WorkingFile.create filename text).directory = ⟨upToLastSlash filename.path⟩ := by
  obtain ⟨path⟩ := filename
  rcases hnormal with rfl | ⟨root, components, hroot, hcomponents, rfl⟩
  · exact absurd hvalid (by decide)
  · obtain ⟨hhead, hlast⟩ := upToLastSlash_spec (Posix.head?_renderPath hroot components)
    have habs : isAbsolutePath (upToLastSlash (renderPath root components)) = true := by
      rw [isAbsolutePath, isUnixAbsolutePath, hhead]
      rfl
    change Directory.ofPath (AbsolutePath.fromNormalized (getDirName (renderPath root components))) = _
    rw [getDirName_renderPath hroot hcomponents hback, AbsolutePath.fromNormalized, if_pos habs, Directory.ofPath,
      ensureEndsInSlash, if_pos hlast]

/-! ### The simulation -/

namespace WorkingFiles

/-- What the store is to its users: the tracked paths with their texts. -/
def texts (s : WorkingFiles) : TextMap := fun path => (s.files.lookup path).map WorkingFile.bufferContent

/-- What the simulation needs of a state: the records are where they belong, with the index of their texts. -/
structure Placed (s : WorkingFiles) : Prop where
  indexed : s.Indexed
  valid : ∀ path ∈ s.files, path.valid = true
  directory : ∀ path file, s.files.lookup path = some file → file.directory = ⟨upToLastSlash path.path⟩

variable (posix : Posix)

/-- An operation whose document has no backslash in its path. -/
def NoBackslash (a : WorkingAction LsDocumentUri) : Prop :=
  ∀ uri, a.uri? = some uri → 92 ∉ (uri.getAbsolutePath posix).path

variable {posix} {s s' : WorkingFiles} {a : WorkingAction LsDocumentUri}

theorem directory_opened (h : Placed s) {uri : LsDocumentUri} (hback : 92 ∉ (uri.getAbsolutePath posix).path)
    (hvalid : (uri.getAbsolutePath posix).valid = true) (version : Int) (text : Bytes) :
    (s.opened (uri.getAbsolutePath posix) version text).directory =
      ⟨upToLastSlash (uri.getAbsolutePath posix).path⟩ := by
  unfold opened
  split
  · rename_i file hfile
    exact h.directory _ file hfile
  · exact directory_create (isNormal_getAbsolutePath posix uri) hvalid hback text

theorem Placed.step (h : Placed s) (hback : NoBackslash posix a)
    (hstep : step (LsDocumentUri.getAbsolutePath posix) a s = some s') : Placed s' := by
  refine ⟨h.indexed.step hstep, valid_of_step h.valid hstep, fun path file hfile => ?_⟩
  cases a with
  | onOpen uri version text =>
      cases hstep
      by_cases hvalid : (uri.getAbsolutePath posix).valid = true
      · rw [lookup_onOpen s hvalid] at hfile
        split_ifs at hfile with heq
        · obtain rfl := Option.some.inj hfile
          rw [heq]
          exact directory_opened h (hback uri rfl) hvalid version text
        · exact h.directory path file hfile
      · rw [onOpen_of_not_valid s hvalid] at hfile
        exact h.directory path file hfile
  | onChange uri version contentChanges =>
      obtain ⟨_, rfl⟩ | ⟨before, after, hbefore, hedits, hlookup⟩ := onChange_eq_some hstep
      · exact h.directory path file hfile
      · rw [hlookup] at hfile
        split_ifs at hfile with heq
        · obtain rfl := Option.some.inj hfile
          rw [(WorkingFile.sameRecord_foldlM contentChanges hedits).2.2, heq]
          exact h.directory _ before (of_getFileByFilename hbefore).2
        · exact h.directory path file hfile
  | onClose uri =>
      cases hstep
      rw [lookup_onClose] at hfile
      split_ifs at hfile
      exact h.directory path file hfile
  | onSave uri =>
      cases hstep
      exact h.directory path file hfile
  | closeFilesInDirectory directories =>
      cases hstep
      rw [lookup_closeFilesInDirectory] at hfile
      exact h.directory path file (Option.filter_eq_some_iff.mp hfile).1
  | clear =>
      cases hstep
      cases hfile

theorem texts_onOpen (uri : LsDocumentUri) (version : Int) (text : Bytes) :
    (s.onOpen (uri.getAbsolutePath posix) version text).texts =
      if (uri.getAbsolutePath posix).valid then Function.update s.texts (uri.getAbsolutePath posix) (some text)
      else s.texts := by
  split_ifs with hvalid
  · funext path
    rw [texts, lookup_onOpen s hvalid, Function.update_apply]
    split_ifs
    · rw [opened]
      split <;> rfl
    · rfl
  · rw [onOpen_of_not_valid s hvalid]

theorem texts_onChange (h : Placed s) (filename : AbsolutePath) (version : Option Int)
    (contentChanges : List ContentChange) :
    (s.onChange filename version contentChanges).map texts = s.texts.change filename contentChanges := by
  have hfind : s.getFileByFilename filename = s.files.lookup filename := by
    by_cases hvalid : filename.valid = true
    · exact getFileByFilename_of_valid s hvalid
    · rw [getFileByFilename, if_neg hvalid, eq_comm, AList.lookup_eq_none]
      exact fun hmem => hvalid (h.valid filename hmem)
  rw [onChange, hfind, TextMap.change, texts]
  cases hfile : s.files.lookup filename with
  | none => rfl
  | some file =>
      have hindexed : WorkingFile.Indexed
          { file with version := version.getD file.version, counter := file.counter + 1 } :=
        h.indexed filename file hfile
      simp only [Option.map_some, ← hindexed.map_foldlM contentChanges, Option.map_map]
      congr 1
      funext file'
      funext path
      rw [Function.comp_apply, Function.comp_apply, texts, Table.lookup_insert_ite, Function.update_apply]
      split_ifs <;> rfl

theorem texts_onClose (h : Placed s) (filename : AbsolutePath) :
    (s.onClose filename).texts = Function.update s.texts filename none := by
  funext path
  rw [texts, lookup_onClose, Function.update_apply]
  by_cases hpath : path = filename
  · rw [if_pos hpath]
    split_ifs with hvalid
    · rfl
    · rw [Option.map_eq_none_iff, AList.lookup_eq_none]
      intro hmem
      exact hvalid ⟨hpath ▸ h.valid path hmem, hpath⟩
  · rw [if_neg hpath, if_neg fun hclosed => hpath hclosed.2]
    rfl

theorem texts_closeFilesInDirectory (h : Placed s) (directories : List Directory) :
    (s.closeFilesInDirectory directories).texts =
      fun path => if ⟨upToLastSlash path.path⟩ ∈ directories then none else s.texts path := by
  funext path
  rw [texts, lookup_closeFilesInDirectory, texts]
  cases hfile : s.files.lookup path with
  | none =>
      split_ifs <;> rfl
  | some file =>
      rw [← h.directory path file hfile, Option.filter_some]
      by_cases hin : file.directory ∈ directories
      · rw [if_pos hin, if_neg (by simpa using hin)]
        rfl
      · rw [if_neg hin, if_pos (decide_eq_true hin)]

/-- One operation of the store is one of the abstract machine. -/
theorem texts_step (h : Placed s) :
    (step (LsDocumentUri.getAbsolutePath posix) a s).map texts =
      TextMap.step (LsDocumentUri.getAbsolutePath posix) a s.texts := by
  cases a with
  | onOpen uri version text => exact congrArg some (texts_onOpen uri version text)
  | onChange uri version contentChanges => exact texts_onChange h _ version contentChanges
  | onClose uri => exact congrArg some (texts_onClose h _)
  | onSave uri => rfl
  | closeFilesInDirectory directories => exact congrArg some (texts_closeFilesInDirectory h directories)
  | clear => rfl

/-- An operation on one document leaves the records of all other paths. -/
theorem lookup_of_other {uri : LsDocumentUri} (huri : a.uri? = some uri)
    (hstep : step (LsDocumentUri.getAbsolutePath posix) a s = some s') {path : AbsolutePath}
    (hpath : path ≠ uri.getAbsolutePath posix) : s'.files.lookup path = s.files.lookup path := by
  cases a with
  | onOpen uri' version text =>
      cases huri
      cases hstep
      by_cases hvalid : (uri.getAbsolutePath posix).valid = true
      · rw [lookup_onOpen s hvalid, if_neg hpath]
      · rw [onOpen_of_not_valid s hvalid]
  | onChange uri' version contentChanges =>
      cases huri
      obtain ⟨_, rfl⟩ | ⟨_, _, _, _, hlookup⟩ := onChange_eq_some hstep
      · rfl
      · rw [hlookup, if_neg hpath]
  | onClose uri' =>
      cases huri
      cases hstep
      rw [lookup_onClose, if_neg fun hclosed => hpath hclosed.2]
  | onSave uri' =>
      cases hstep
      rfl
  | closeFilesInDirectory directories => cases huri
  | clear => cases huri

theorem placed_empty : Placed {} where
  indexed := nofun
  valid := fun path hmem => absurd hmem (AList.notMem_empty path)
  directory := nofun

/-- **The store refines a map from paths to texts**: after any operations on documents without a backslash in their
paths, the tracked paths and their texts are those of the abstract machine, and the store has a state exactly when
the machine has one. Documents with the same path are one entry, and an operation on a document changes no entry of
another path. -/
theorem workingFiles_refines (posix : Posix) (actions : List (WorkingAction LsDocumentUri))
    (hback : ∀ a ∈ actions, NoBackslash posix a) :
    ((workingSystem (LsDocumentUri.getAbsolutePath posix)).run actions {}).map texts =
        (textSystem (LsDocumentUri.getAbsolutePath posix)).run actions (fun _ => none) ∧
      (∀ uri uri' : LsDocumentUri, uri.getAbsolutePath posix = uri'.getAbsolutePath posix →
        ∀ (s : WorkingFiles) version version' text contentChanges,
          step (LsDocumentUri.getAbsolutePath posix) (.onOpen uri version text) s =
            step (LsDocumentUri.getAbsolutePath posix) (.onOpen uri' version text) s ∧
          step (LsDocumentUri.getAbsolutePath posix) (.onChange uri version' contentChanges) s =
            step (LsDocumentUri.getAbsolutePath posix) (.onChange uri' version' contentChanges) s ∧
          step (LsDocumentUri.getAbsolutePath posix) (.onClose uri) s =
            step (LsDocumentUri.getAbsolutePath posix) (.onClose uri') s) ∧
      ∀ a s s', step (LsDocumentUri.getAbsolutePath posix) a s = some s' → ∀ uri, a.uri? = some uri →
        ∀ path, path ≠ uri.getAbsolutePath posix → s'.files.lookup path = s.files.lookup path := by
  refine ⟨?_, ?_, fun a s s' hstep uri huri path hpath => lookup_of_other huri hstep hpath⟩
  · have hempty : texts {} = fun _ => none := rfl
    rw [← hempty]
    exact Transition.System.map_run texts Placed (NoBackslash posix) (fun a s h _ => texts_step h)
      (fun a s s' h hok hstep => h.step hok hstep) actions hback placed_empty
  · intro uri uri' hpath s version version' text contentChanges
    simp only [step, hpath, and_self]

/-- Two spellings of one path: the document is opened, edited under the other spelling, and its directory is
closed with a document of another directory left. -/
def spellingsRun : List (WorkingAction LsDocumentUri) :=
  [.onOpen ⟨bytesOf "file:///a/b%20c"⟩ 1 (bytesOf "x\ny\n"), .onOpen ⟨bytesOf "file:///d/e"⟩ 1 (bytesOf "z"),
    .onChange ⟨bytesOf "FILE://localhost/a/./b c"⟩ none [⟨some ⟨⟨1, 0⟩, ⟨1, 1⟩⟩, bytesOf "w"⟩],
    .closeFilesInDirectory [⟨bytesOf "/a/"⟩]]

theorem workingFiles_refines_spellingsRun :
    ∃ s, (workingSystem (LsDocumentUri.getAbsolutePath {})).run spellingsRun {} = some s ∧
      s.texts ⟨bytesOf "/d/e"⟩ = some (bytesOf "z") ∧ s.texts ⟨bytesOf "/a/b c"⟩ = none ∧
      (textSystem (LsDocumentUri.getAbsolutePath {})).run spellingsRun (fun _ => none) = some s.texts := by
  have hback : ∀ a ∈ spellingsRun, NoBackslash {} a := by
    simp only [spellingsRun, List.forall_mem_cons]
    refine ⟨?_, ?_, ?_, nofun, nofun⟩
    all_goals
      rintro uri huri
      cases huri
      decide
  obtain ⟨s, hrun, hkept, hclosed⟩ : ∃ s,
      (workingSystem (LsDocumentUri.getAbsolutePath {})).run spellingsRun {} = some s ∧
        s.texts ⟨bytesOf "/d/e"⟩ = some (bytesOf "z") ∧ s.texts ⟨bytesOf "/a/b c"⟩ = none :=
    ⟨_, rfl, by decide, by decide⟩
  have hrefines := (workingFiles_refines {} spellingsRun hback).1
  rw [hrun] at hrefines
  exact ⟨s, hrun, hkept, hclosed, hrefines.symm⟩

/-- A file URI without a path names no document, so that its open is refused. -/
theorem workingFiles_noPath :
    let uri : LsDocumentUri := ⟨bytesOf "file://localhost"⟩
    startsWithFileScheme uri.rawUri = true ∧
      ∃ s, (workingSystem (LsDocumentUri.getAbsolutePath {})).run [.onOpen uri 0 (bytesOf "x")] {} = some s ∧
        s.texts ≠ Function.update (fun _ => none) (uri.getAbsolutePath {}) (some (bytesOf "x")) := by
  refine ⟨by decide, _, rfl, fun heq => ?_⟩
  have hentry := congrFun heq (LsDocumentUri.getAbsolutePath {} ⟨bytesOf "file://localhost"⟩)
  rw [Function.update_self] at hentry
  exact absurd hentry (by decide)

end WorkingFiles

end LspCpp

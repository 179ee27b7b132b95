import LspCpp.LibTable
import LspCpp.LibTransition
import LspCpp.TextOffset
import Mathlib.Data.List.DropRight

/-! The store of the documents that a client has open: a table from paths to texts, each text with the index of
its lines. Every operation holds the mutex of the store from its beginning to its end. -/

namespace LspCpp

def isUnixAbsolutePath (path : Bytes) : Bool := path.head? = some 47

def isDriveLetter (c : UInt8) : Bool := (65 ≤ c && c ≤ 90) || (97 ≤ c && c ≤ 122)

def isSlash (c : UInt8) : Bool := c == 47 || c == 92

def isWindowsAbsolutePath : Bytes → Bool
  | a :: b :: c :: rest =>
      (b == 58 && isSlash c && isDriveLetter a) || (2 ≤ rest.length && isSlash a && isSlash b && !isSlash c)
  | _ => false

def isAbsolutePath (path : Bytes) : Bool := isUnixAbsolutePath path || isWindowsAbsolutePath path

structure AbsolutePath where
  path : Bytes := []
  deriving DecidableEq, Repr

namespace AbsolutePath

def valid (p : AbsolutePath) : Bool := isAbsolutePath p.path

def fromNormalized (path : Bytes) : AbsolutePath := if isAbsolutePath path then ⟨path⟩ else {}

end AbsolutePath

/-- `GetDirName`: the path up to its last slash, in which a slash at its end does not count. -/
def getDirName (path : Bytes) : Bytes :=
  let path := path.map fun c => if c = 92 then 47 else c
  if path = [] then bytesOf "./"
  else if path = [47] ∨ (path.length = 3 ∧ path[1]? = some 58 ∧ path[2]? = some 47) then path
  else
    let path := if path.getLast? = some 47 then path.dropLast else path
    if 47 ∈ path then path.rdropWhile (· != 47) else bytesOf "./"

def ensureEndsInSlash (path : Bytes) : Bytes := if path.getLast? = some 47 then path else path ++ [47]

structure Directory where
  path : Bytes
  deriving DecidableEq, Repr

def Directory.ofPath (path : AbsolutePath) : Directory := ⟨ensureEndsInSlash path.path⟩

structure LsRange where
  start : LsPosition
  end_ : LsPosition
  deriving DecidableEq, Repr

/-- `lsTextDocumentContentChangeEvent`: a replacement of the whole text, or of a range of it. -/
structure ContentChange where
  range : Option LsRange := none
  text : Bytes
  deriving DecidableEq, Repr

structure WorkingFile where
  version : Int := 0
  filename : AbsolutePath
  directory : Directory
  counter : Nat := 0
  bufferContent : Bytes
  lineOffsets : List Nat
  deriving DecidableEq, Repr

namespace WorkingFile

def rebuildLineOffsets (file : WorkingFile) : WorkingFile :=
  { file with lineOffsets := buildLineOffsets file.bufferContent }

/-- The constructor. -/
def create (filename : AbsolutePath) (bufferContent : Bytes) : WorkingFile :=
  rebuildLineOffsets
    { filename := filename
      directory := Directory.ofPath (AbsolutePath.fromNormalized (getDirName filename.path))
      bufferContent := bufferContent
      lineOffsets := [] }

/-- How `WorkingFile::GetOffsetForPosition` counts a character down. -/
def cachedSubtract (character units : Nat) : Nat := character - min character units

/-- `WorkingFile::GetOffsetForPosition`. -/
def getOffsetForPosition (file : WorkingFile) (position : LsPosition) : Int :=
  if file.lineOffsets = [] then LspCpp.getOffsetForPosition position file.bufferContent
  else
    let i := (file.lineOffsets[position.line.toNat]?).getD file.bufferContent.length
    toInt (i + walk cachedSubtract (file.bufferContent.drop i) false position.character.toNat)

/-- `std::string::replace` with two iterators, which is defined for a range of the text only. -/
def replaceRange (content : Bytes) (startOffset endOffset : Int) (text : Bytes) : Option Bytes :=
  if 0 ≤ startOffset ∧ startOffset ≤ endOffset ∧ endOffset ≤ content.length then
    some (content.take startOffset.toNat ++ text ++ content.drop endOffset.toNat)
  else none

/-- One round of the loop of `OnChange`; nothing where the computed range is not valid. -/
def applyChange (file : WorkingFile) (diff : ContentChange) : Option WorkingFile :=
  match diff.range with
  | none => some (rebuildLineOffsets { file with bufferContent := diff.text })
  | some range =>
      let startOffset := file.getOffsetForPosition range.start
      let endOffset := file.getOffsetForPosition range.end_
      (replaceRange file.bufferContent startOffset endOffset diff.text).map fun content =>
        rebuildLineOffsets { file with bufferContent := content }

end WorkingFile

structure WorkingFiles where
  files : Table AbsolutePath WorkingFile := ∅

/-- The operations that change the store or read its files; a document is named by its URI. -/
inductive WorkingAction (Uri : Type*) where
  | onOpen (uri : Uri) (version : Int) (text : Bytes)
  | onChange (uri : Uri) (version : Option Int) (contentChanges : List ContentChange)
  | onClose (uri : Uri)
  | onSave (uri : Uri)
  | closeFilesInDirectory (directories : List Directory)
  | clear

namespace WorkingFiles

/-- `GetFileByFilenameNoLock`. -/
def getFileByFilename (s : WorkingFiles) (filename : AbsolutePath) : Option WorkingFile :=
  if filename.valid then s.files.lookup filename else none

/-- `OnOpen`; a file that is open already keeps its record. -/
def onOpen (s : WorkingFiles) (filename : AbsolutePath) (version : Int) (text : Bytes) : WorkingFiles :=
  if !filename.valid then s
  else
    match s.getFileByFilename filename with
    | some file =>
        let reopened := WorkingFile.rebuildLineOffsets { file with version := version, bufferContent := text }
        { s with files := s.files.insert filename reopened }
    | none => { s with files := s.files.insert filename (WorkingFile.create filename text) }

/-- `OnChange`; nothing where an edit has no valid range. -/
def onChange (s : WorkingFiles) (filename : AbsolutePath) (version : Option Int)
    (contentChanges : List ContentChange) : Option WorkingFiles :=
  match s.getFileByFilename filename with
  | none => some s
  | some file =>
      let file := { file with version := version.getD file.version, counter := file.counter + 1 }
      (contentChanges.foldlM WorkingFile.applyChange file).map fun file =>
        { s with files := s.files.insert filename file }

def onClose (s : WorkingFiles) (filename : AbsolutePath) : WorkingFiles :=
  if filename.valid then { s with files := s.files.erase filename } else s

def closeFilesInDirectory (s : WorkingFiles) (directories : List Directory) : WorkingFiles :=
  let filesToBeDelete := s.files.entries.flatMap fun entry =>
    (directories.filter fun dir => entry.2.directory = dir).map fun _ => entry.1
  { s with files := filesToBeDelete.foldl (fun files filename => files.erase filename) s.files }

/-- One operation; `onSave` writes a text to the disk and leaves the store as it is. -/
def step {Uri : Type*} (getAbsolutePath : Uri → AbsolutePath) : WorkingAction Uri → WorkingFiles → Option WorkingFiles
  | .onOpen uri version text, s => some (s.onOpen (getAbsolutePath uri) version text)
  | .onChange uri version contentChanges, s => s.onChange (getAbsolutePath uri) version contentChanges
  | .onClose uri, s => some (s.onClose (getAbsolutePath uri))
  | .onSave _, s => some s
  | .closeFilesInDirectory directories, s => some (s.closeFilesInDirectory directories)
  | .clear, _ => some {}

end WorkingFiles

/-- The store from its construction on, over URIs whose paths are found by `getAbsolutePath`. -/
def workingSystem {Uri : Type*} (getAbsolutePath : Uri → AbsolutePath) :
    Transition.System WorkingFiles (WorkingAction Uri) where
  init s := s = {}
  step := WorkingFiles.step getAbsolutePath

/-! ### The line index in every state -/

namespace WorkingFile

/-- The index of a file is that of its text. -/
def Indexed (file : WorkingFile) : Prop := file.lineOffsets = buildLineOffsets file.bufferContent

theorem indexed_rebuildLineOffsets (file : WorkingFile) : file.rebuildLineOffsets.Indexed := rfl

theorem Indexed.applyChange {file file' : WorkingFile} {diff : ContentChange}
    (hchange : file.applyChange diff = some file') : file'.Indexed := by
  rw [WorkingFile.applyChange] at hchange
  split at hchange
  · cases hchange
    exact indexed_rebuildLineOffsets _
  · obtain ⟨content, _, rfl⟩ := Option.map_eq_some_iff.mp hchange
    exact indexed_rebuildLineOffsets _

/-- Every edit of one change sees the index of the text that the one before it left. -/
theorem Indexed.foldlM (contentChanges : List ContentChange) {file file' : WorkingFile} (h : file.Indexed)
    (hchanges : contentChanges.foldlM WorkingFile.applyChange file = some file') : file'.Indexed := by
  induction contentChanges generalizing file with
  | nil =>
      cases hchanges
      exact h
  | cons diff rest ih =>
      rw [List.foldlM_cons] at hchanges
      obtain ⟨next, hnext, hrest⟩ := Option.bind_eq_some_iff.mp hchanges
      exact ih (Indexed.applyChange hnext) hrest

/-- The walks of the two functions count down alike. -/
theorem cachedSubtract_eq : cachedSubtract = scanSubtract := by
  funext character units
  rw [cachedSubtract, scanSubtract]
  split_ifs <;> omega

/-- With the index of its text, a file finds the offsets that the plain scan finds. -/
theorem Indexed.getOffsetForPosition {file : WorkingFile} (h : file.Indexed) (position : LsPosition) :
    file.getOffsetForPosition position = LspCpp.getOffsetForPosition position file.bufferContent := by
  have hne : file.lineOffsets ≠ [] := by
    rw [h]
    exact List.cons_ne_nil _ _
  rw [WorkingFile.getOffsetForPosition, if_neg hne, h, cachedSubtract_eq, getD_buildLineOffsets]
  rfl

end WorkingFile

/-- The plain scan stays in the text. -/
theorem getOffsetForPosition_mem (position : LsPosition) {content : Bytes} (hlen : content.length < 2147483648) :
    0 ≤ getOffsetForPosition position content ∧ getOffsetForPosition position content ≤ content.length := by
  have hlines := skipLines_le content position.line.toNat
  have hwalk := walk_le scanSubtract (content.drop (skipLines content position.line.toNat)) false
    position.character.toNat
  rw [List.length_drop] at hwalk
  rw [getOffsetForPosition, toInt_of_lt (by omega)]
  omega

namespace WorkingFiles

/-- All files of the store have the index of their text. -/
def Indexed (s : WorkingFiles) : Prop := ∀ filename file, s.files.lookup filename = some file → file.Indexed

/-- A file that is found is in the store, under a valid path. -/
theorem of_getFileByFilename {s : WorkingFiles} {filename : AbsolutePath} {file : WorkingFile}
    (h : s.getFileByFilename filename = some file) : filename.valid = true ∧ s.files.lookup filename = some file := by
  rw [getFileByFilename] at h
  split_ifs at h with hvalid
  exact ⟨hvalid, h⟩

theorem Indexed.insert {s : WorkingFiles} (h : s.Indexed) {filename : AbsolutePath} {file : WorkingFile}
    (hfile : file.Indexed) : Indexed { s with files := s.files.insert filename file } := by
  intro filename' file' hlookup
  rw [Table.lookup_insert_ite] at hlookup
  split_ifs at hlookup
  · cases hlookup
    exact hfile
  · exact h filename' file' hlookup

theorem Indexed.erase {files : Table AbsolutePath WorkingFile} (h : Indexed ⟨files⟩) (filename : AbsolutePath) :
    Indexed ⟨files.erase filename⟩ := by
  intro filename' file' hlookup
  rw [Table.lookup_erase_ite] at hlookup
  split_ifs at hlookup
  exact h filename' file' hlookup

theorem Indexed.eraseEach (filenames : List AbsolutePath) {files : Table AbsolutePath WorkingFile}
    (h : Indexed ⟨files⟩) : Indexed ⟨filenames.foldl (fun files filename => files.erase filename) files⟩ := by
  induction filenames generalizing files with
  | nil => exact h
  | cons filename rest ih => exact ih (h.erase filename)

theorem Indexed.step {Uri : Type*} {getAbsolutePath : Uri → AbsolutePath} {s s' : WorkingFiles}
    {a : WorkingAction Uri} (h : s.Indexed) (hstep : step getAbsolutePath a s = some s') : s'.Indexed := by
  cases a with
  | onOpen uri version text =>
      cases hstep
      rw [onOpen]
      split_ifs
      · exact h
      · split
        · exact h.insert (WorkingFile.indexed_rebuildLineOffsets _)
        · exact h.insert (WorkingFile.indexed_rebuildLineOffsets _)
  | onChange uri version contentChanges =>
      rw [WorkingFiles.step, onChange] at hstep
      split at hstep
      · cases hstep
        exact h
      · rename_i file hfile
        obtain ⟨file', hchanges, rfl⟩ := Option.map_eq_some_iff.mp hstep
        have hindexed : WorkingFile.Indexed
            { file with version := version.getD file.version, counter := file.counter + 1 } :=
          h _ file (of_getFileByFilename hfile).2
        exact h.insert (WorkingFile.Indexed.foldlM contentChanges hindexed hchanges)
  | onClose uri =>
      cases hstep
      rw [onClose]
      split_ifs
      · exact Indexed.erase h _
      · exact h
  | onSave uri =>
      cases hstep
      exact h
  | closeFilesInDirectory directories =>
      cases hstep
      exact Indexed.eraseEach _ h
  | clear =>
      cases hstep
      exact nofun

/-- **The line index agrees with the plain scan** in every state of the store: each file has the offsets of its
lines, and for every position it finds the offset that the scan of its text finds, which is in the text. -/
theorem lineIndex_of_reachable {Uri : Type*} (getAbsolutePath : Uri → AbsolutePath) (s : WorkingFiles)
    (hs : (workingSystem getAbsolutePath).Reachable s) :
    ∀ filename file, s.files.lookup filename = some file →
      IsLineIndex file.lineOffsets file.bufferContent ∧
      ∀ position, file.getOffsetForPosition position = getOffsetForPosition position file.bufferContent ∧
        (file.bufferContent.length < 2147483648 →
          0 ≤ file.getOffsetForPosition position ∧
            file.getOffsetForPosition position ≤ file.bufferContent.length) := by
  have hinv : s.Indexed := by
    refine hs.invariant Indexed ?_ fun a s s' h _ hstep => h.step hstep
    rintro s rfl
    exact nofun
  intro filename file hlookup
  have hfile := hinv filename file hlookup
  refine ⟨?_, fun position => ⟨hfile.getOffsetForPosition position, fun hlen => ?_⟩⟩
  · rw [hfile]
    exact isLineIndex_buildLineOffsets _
  · rw [hfile.getOffsetForPosition]
    exact getOffsetForPosition_mem position hlen

/-- A document is opened, its second line is edited and a line is added by the same change. -/
def editRun : List (WorkingAction Bytes) :=
  [.onOpen (bytesOf "file:///a/b") 1 (bytesOf "x\ny\n"),
    .onChange (bytesOf "file:///a/b") (some 2)
      [⟨some ⟨⟨1, 0⟩, ⟨1, 1⟩⟩, bytesOf "zz"⟩, ⟨some ⟨⟨2, 0⟩, ⟨7, 9⟩⟩, bytesOf "w\n"⟩]]

/-- The document that `editRun` leaves in the store. -/
def editedFile : WorkingFile :=
  { version := 2
    filename := ⟨bytesOf "/a/b"⟩
    directory := ⟨bytesOf "/a/"⟩
    counter := 1
    bufferContent := bytesOf "x\nzz\nw\n"
    lineOffsets := [0, 2, 5, 7] }

theorem lineIndex_of_reachable_editRun :
    ∃ s, (workingSystem fun uri : Bytes => ⟨uri.drop 7⟩).run editRun {} = some s ∧
      s.files.lookup ⟨bytesOf "/a/b"⟩ = some editedFile ∧
      IsLineIndex editedFile.lineOffsets editedFile.bufferContent ∧
      ∀ position,
        editedFile.getOffsetForPosition position = getOffsetForPosition position editedFile.bufferContent ∧
        (editedFile.bufferContent.length < 2147483648 →
          0 ≤ editedFile.getOffsetForPosition position ∧
            editedFile.getOffsetForPosition position ≤ editedFile.bufferContent.length) := by
  refine ⟨_, rfl, ?_, ?_⟩
  · decide
  · exact lineIndex_of_reachable (fun uri : Bytes => ⟨uri.drop 7⟩) _
      (Transition.System.reachable_of_run editRun (.init rfl) rfl) ⟨bytesOf "/a/b"⟩ editedFile (by decide)

end WorkingFiles

end LspCpp

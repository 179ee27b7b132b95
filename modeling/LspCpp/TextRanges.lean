import LspCpp.TextLines

/-! Which ranges an edit can be given. The offset of a position is the number of bytes before which its units are spent,
converted to an `int`; the range is valid where that of its start is not behind that of its end. -/

namespace LspCpp

/-- The units of a position are spent within the first `n` bytes of a text: its line is not behind them, and the text
ends there or a character begins that has as many units before it on the line. -/
def SpentBy (content : Bytes) (position : LsPosition) (n : Nat) : Prop :=
  let i := skipLines content position.line.toNat
  i ≤ n ∧ (content.length ≤ n ∨
    ∃ k, i + k ≤ n ∧ startsChar (content.drop i) false k = true ∧
      position.character.toNat ≤ unitsOf ((content.drop i).take k) false)

/-- They are spent where an `int` has wrapped so often and is not negative. -/
def SpentIn (content : Bytes) (position : LsPosition) (wraps : Nat) : Prop :=
  (∀ n < 4294967296 * wraps, ¬SpentBy content position n) ∧ SpentBy content position (4294967296 * wraps + 2147483647)

/-- The `int` for the start is not behind that for the end: as soon as the units of `q` are spent those of `p` are,
without the wraps of either. -/
def StaysBefore (content : Bytes) (p q : LsPosition) : Prop :=
  ∃ wraps wraps', SpentIn content p wraps ∧ SpentIn content q wraps' ∧
    ∀ n < 2147483648, SpentBy content q (4294967296 * wraps' + n) → SpentBy content p (4294967296 * wraps + n)

section Spent

variable {content : Bytes} {p q position : LsPosition}

theorem scanOffset_le_iff_spentBy (n : Nat) : scanOffset position content ≤ n ↔ SpentBy content position n := by
  rw [SpentBy, scanOffset]
  generalize skipLines content position.line.toNat = i
  have hwalk := walk_le_iff (content.drop i) false position.character.toNat (n - i)
  rw [List.length_drop] at hwalk
  constructor
  · intro hle
    refine ⟨by omega, ?_⟩
    rcases hwalk.mp (by omega) with hall | ⟨k, hk, hspent⟩
    · exact .inl (by omega)
    · exact .inr ⟨k, by omega, hspent⟩
  · rintro ⟨hi, hall | ⟨k, hk, hspent⟩⟩
    · have := hwalk.mpr (.inl (by omega))
      omega
    · have := hwalk.mpr (.inr ⟨k, by omega, hspent⟩)
      omega

theorem spentIn_iff (wraps : Nat) :
    SpentIn content position wraps ↔
      4294967296 * wraps ≤ scanOffset position content ∧
        scanOffset position content ≤ 4294967296 * wraps + 2147483647 := by
  rw [SpentIn, scanOffset_le_iff_spentBy]
  refine and_congr_left fun _ => ⟨fun h => ?_, fun h n hn hspent => ?_⟩
  · by_contra hlt
    exact h _ (Nat.lt_of_not_le hlt) ((scanOffset_le_iff_spentBy _).mp (Nat.le_refl _))
  · have := (scanOffset_le_iff_spentBy n).mpr hspent
    omega

theorem scanOffset_le_length (content : Bytes) (position : LsPosition) :
    scanOffset position content ≤ content.length := by
  have hlines := skipLines_le content position.line.toNat
  have hwalk := walk_le scanSubtract (content.drop (skipLines content position.line.toNat)) false
    position.character.toNat
  rw [List.length_drop] at hwalk
  rw [scanOffset]
  omega

/-- In a text of less than 2 GiB no `int` wraps. -/
theorem spentIn_zero_of_lt (hlen : content.length < 2147483648) : SpentIn content position 0 := by
  have hle := scanOffset_le_length content position
  rw [spentIn_iff]
  omega

/-- The `int` of a position whose units are spent so far on. -/
theorem SpentIn.getOffsetForPosition_eq {wraps : Nat} (h : SpentIn content position wraps) :
    getOffsetForPosition position content + 4294967296 * wraps = scanOffset position content := by
  have hmem := (spentIn_iff wraps).mp h
  obtain ⟨r, hr, hge, hlt⟩ := toInt_spec (scanOffset position content)
  change toInt (scanOffset position content) + _ = _
  omega

theorem getOffsetForPosition_nonneg_iff :
    0 ≤ getOffsetForPosition position content ↔ ∃ wraps, SpentIn content position wraps := by
  constructor
  · intro hnonneg
    obtain ⟨r, hr, hge, hlt⟩ := toInt_spec (scanOffset position content)
    change 0 ≤ toInt (scanOffset position content) at hnonneg
    refine ⟨scanOffset position content / 4294967296, (spentIn_iff _).mpr ?_⟩
    omega
  · rintro ⟨wraps, hspent⟩
    have hmem := (spentIn_iff wraps).mp hspent
    have hoffset := hspent.getOffsetForPosition_eq
    omega

/-- The comparison of the two ints, each without its wraps. -/
theorem SpentIn.le_iff {wraps wraps' : Nat} (hp : SpentIn content p wraps) (hq : SpentIn content q wraps') :
    getOffsetForPosition p content ≤ getOffsetForPosition q content ↔
      ∀ n < 2147483648, SpentBy content q (4294967296 * wraps' + n) → SpentBy content p (4294967296 * wraps + n) := by
  have hoffset := hp.getOffsetForPosition_eq
  have hoffset' := hq.getOffsetForPosition_eq
  have hmem := (spentIn_iff wraps').mp hq
  simp only [← scanOffset_le_iff_spentBy]
  constructor
  · intro hle n hn hspent
    omega
  · intro h
    have := h (scanOffset q content - 4294967296 * wraps') (by omega) (by omega)
    omega

/-- Where both have wrapped equally often only the characters of the start matter. -/
theorem staysBefore_iff_not_overtakes (hpq : p ≤ q) {wraps : Nat} (hp : SpentIn content p wraps)
    (hq : SpentIn content q wraps) : StaysBefore content p q ↔ ¬Overtakes content p q := by
  have hoffset := hp.getOffsetForPosition_eq
  have hoffset' := hq.getOffsetForPosition_eq
  rw [← scanOffset_le_iff content hpq]
  constructor
  · rintro ⟨m, m', hp', hq', hbefore⟩
    have hle := (hp'.le_iff hq').mpr hbefore
    omega
  · intro hle
    exact ⟨wraps, wraps, hp, hq, (hp.le_iff hq).mp (by omega)⟩

end Spent

/-- Two iterators that `std::string::replace` can be given. -/
def ValidByteRange (content : Bytes) (startOffset endOffset : Int) : Prop :=
  0 ≤ startOffset ∧ startOffset ≤ endOffset ∧ endOffset ≤ content.length

theorem replaceRange_isSome_iff (content : Bytes) (startOffset endOffset : Int) (text : Bytes) :
    (WorkingFile.replaceRange content startOffset endOffset text).isSome = true ↔
      ValidByteRange content startOffset endOffset := by
  rw [WorkingFile.replaceRange, ValidByteRange]
  split_ifs with h
  · exact iff_of_true rfl h
  · exact iff_of_false (by simp) h

theorem validByteRange_iff (content : Bytes) (p q : LsPosition) :
    ValidByteRange content (getOffsetForPosition p content) (getOffsetForPosition q content) ↔
      StaysBefore content p q := by
  constructor
  · rintro ⟨hnonneg, hle, -⟩
    obtain ⟨wraps, hp⟩ := getOffsetForPosition_nonneg_iff.mp hnonneg
    obtain ⟨wraps', hq⟩ := getOffsetForPosition_nonneg_iff.mp (Int.le_trans hnonneg hle)
    exact ⟨wraps, wraps', hp, hq, (hp.le_iff hq).mp hle⟩
  · rintro ⟨wraps, wraps', hp, hq, hbefore⟩
    have hoffset := hq.getOffsetForPosition_eq
    have hlength := scanOffset_le_length content q
    exact ⟨getOffsetForPosition_nonneg_iff.mpr ⟨wraps, hp⟩, (hp.le_iff hq).mpr hbefore, by omega⟩

/-- `P` holds of each edit with a range, on the text that it sees. -/
def EachEdit (P : Bytes → LsRange → Prop) : List ContentChange → Bytes → Prop
  | [], _ => True
  | diff :: rest, content =>
      (∀ range, diff.range = some range → P content range) ∧
        ∀ content', editText content diff = some content' → EachEdit P rest content'

/-- All edits of a change have a valid range exactly when the start of each stays before its end. -/
theorem foldlM_editText_isSome_iff (contentChanges : List ContentChange) (content : Bytes) :
    (contentChanges.foldlM editText content).isSome = true ↔
      EachEdit (fun content range => StaysBefore content range.start range.end_) contentChanges content := by
  induction contentChanges generalizing content with
  | nil => exact iff_of_true rfl trivial
  | cons diff rest ih =>
      have hdefined : (editText content diff).isSome = true ↔
          ∀ range, diff.range = some range → StaysBefore content range.start range.end_ := by
        rw [editText]
        cases hrange : diff.range with
        | none => exact iff_of_true rfl (by simp)
        | some range => simp only [replaceRange_isSome_iff, validByteRange_iff, Option.some.injEq, forall_eq']
      rw [List.foldlM_cons, EachEdit, ← hdefined]
      cases hnext : editText content diff with
      | none => exact iff_of_false (by simp) (by simp)
      | some next =>
          simp only [Option.isSome_some, Option.some.injEq, forall_eq', true_and]
          exact ih next

/-- **Ranged edits address a valid byte range** exactly when the units of their start are spent before those of their
end, which means that its characters do not reach past the end where the offsets have wrapped equally often, as in every
text of less than 2 GiB: for two positions, and for the edits of a change that the store receives in any state. -/
theorem rangedEdits_valid_iff {Uri : Type*} (getAbsolutePath : Uri → AbsolutePath) :
    (∀ content p q, p ≤ q →
        (ValidByteRange content (getOffsetForPosition p content) (getOffsetForPosition q content) ↔
          StaysBefore content p q) ∧
        ∀ wraps, SpentIn content p wraps → SpentIn content q wraps →
          (StaysBefore content p q ↔ ¬Overtakes content p q)) ∧
      (∀ content p, content.length < 2147483648 → SpentIn content p 0) ∧
      ∀ s, (workingSystem getAbsolutePath).Reachable s → ∀ uri file version contentChanges,
        s.getFileByFilename (getAbsolutePath uri) = some file →
        ((WorkingFiles.step getAbsolutePath (.onChange uri version contentChanges) s).isSome = true ↔
          EachEdit (fun content range => StaysBefore content range.start range.end_) contentChanges
            file.bufferContent) := by
  refine ⟨fun content p q hpq => ⟨validByteRange_iff content p q, fun wraps => staysBefore_iff_not_overtakes hpq⟩,
    fun content p => spentIn_zero_of_lt, ?_⟩
  intro s hs uri file version contentChanges hfile
  have hfound : file.Indexed := WorkingFiles.indexed_of_getFileByFilename hs hfile
  have hindexed : WorkingFile.Indexed
      { file with version := version.getD file.version, counter := file.counter + 1 } := hfound
  rw [← foldlM_editText_isSome_iff contentChanges, ← hindexed.map_foldlM contentChanges,
    WorkingFiles.step, WorkingFiles.onChange, hfile]
  simp only [Option.isSome_map]

/-- The URIs of the runs below are their paths behind the scheme. -/
def pathOfUri (uri : Bytes) : AbsolutePath := ⟨uri.drop 7⟩

/-- A document of two lines is opened. -/
def twoLinesRun : List (WorkingAction Bytes) := [.onOpen (bytesOf "file:///a/b") 0 (bytesOf "a\nbc\n")]

/-- A range from the end of the first line into the second. -/
def rangeOnLines : LsRange := ⟨⟨0, 1⟩, ⟨1, 1⟩⟩

/-- A range from behind the end of the first line to the beginning of the second. -/
def rangePastLine : LsRange := ⟨⟨0, 9⟩, ⟨1, 0⟩⟩

theorem rangedEdits_valid_iff_twoLinesRun :
    ∃ s, (workingSystem pathOfUri).run twoLinesRun {} = some s ∧
      rangeOnLines.start ≤ rangeOnLines.end_ ∧
      (WorkingFiles.step pathOfUri
        (.onChange (bytesOf "file:///a/b") none [⟨some rangeOnLines, bytesOf "x"⟩]) s).isSome = true := by
  refine ⟨_, rfl, by decide, ?_⟩
  have hs := Transition.System.reachable_of_run (S := workingSystem pathOfUri) twoLinesRun (.init rfl) rfl
  obtain ⟨hranges, hspent, hchange⟩ := rangedEdits_valid_iff pathOfUri
  have hiff := hchange _ hs (bytesOf "file:///a/b")
    (WorkingFile.create ⟨bytesOf "/a/b"⟩ (bytesOf "a\nbc\n")) none [⟨some rangeOnLines, bytesOf "x"⟩] (by decide)
  refine hiff.mpr ⟨?_, fun _ _ => trivial⟩
  intro range hrange
  cases hrange
  have hlen : (bytesOf "a\nbc\n").length < 2147483648 := by decide
  have hnot : ¬Overtakes (bytesOf "a\nbc\n") rangeOnLines.start rangeOnLines.end_ := by decide
  exact ((hranges _ _ _ (by decide)).2 0 (hspent _ _ hlen) (hspent _ _ hlen)).mpr hnot

/-- The offset of the start is the end of the text, that of the end is before it. -/
theorem rangePastLine_not_valid :
    rangePastLine.start ≤ rangePastLine.end_ ∧
      ¬getOffsetForPosition rangePastLine.start (bytesOf "a\nbc\n") ≤
        getOffsetForPosition rangePastLine.end_ (bytesOf "a\nbc\n") ∧
      ∃ s, (workingSystem pathOfUri).run twoLinesRun {} = some s ∧
        s.getFileByFilename (pathOfUri (bytesOf "file:///a/b")) =
          some (WorkingFile.create ⟨bytesOf "/a/b"⟩ (bytesOf "a\nbc\n")) ∧
        (WorkingFile.create ⟨bytesOf "/a/b"⟩ (bytesOf "a\nbc\n")).applyChange
          ⟨some rangePastLine, bytesOf "x"⟩ = none := by
  refine ⟨by decide, by decide, _, rfl, by decide, by decide⟩

end LspCpp

import LspCpp.TextRanges

/-! Which positions are clamped to their line. The walk over the characters of a line stops at the end of the text only,
so that it leaves every line but the last when it counts more units than the line has. -/

namespace LspCpp

/-- An offset on a line, from its beginning up to its end. -/
def OnLine (content : Bytes) (line : Nat) (offset : Int) : Prop :=
  lineStart content line ≤ offset ∧ offset ≤ lineEnd content line

instance (content : Bytes) (line : Nat) (offset : Int) : Decidable (OnLine content line offset) :=
  inferInstanceAs (Decidable (_ ∧ _))

/-- The units of a position are spent within the first `k` bytes of the text from its line on: the text ends there or
a character begins that has as many units before it. -/
def SpentWithin (content : Bytes) (position : LsPosition) (k : Nat) : Prop :=
  let bytes := content.drop (lineStart content position.line.toNat)
  bytes.length ≤ k ∨
    ∃ i ≤ k, startsChar bytes false i = true ∧ position.character.toNat ≤ unitsOf (bytes.take i) false

/-- The units of a position are spent on its line, and before the largest `int`; or so much further on that a 32-bit
`int` has come back to the line. -/
def SpentOnLine (content : Bytes) (position : LsPosition) : Prop :=
  ∃ wraps,
    (∃ k, lineStart content position.line.toNat + k ≤
          min (lineEnd content position.line.toNat) 2147483647 + 4294967296 * wraps ∧
        SpentWithin content position k) ∧
      ∀ k < 4294967296 * wraps, ¬SpentWithin content position k

section Line

variable {content : Bytes} {position : LsPosition}

/-- The bytes that the walk passes behind the beginning of the line. -/
def lineWalk (content : Bytes) (position : LsPosition) : Nat :=
  walk scanSubtract (content.drop (lineStart content position.line.toNat)) false position.character.toNat

theorem lineWalk_le_iff (k : Nat) : lineWalk content position ≤ k ↔ SpentWithin content position k :=
  walk_le_iff _ _ _ _

theorem getOffsetForPosition_eq (hline : position.line.toNat < (textLines content).length) :
    getOffsetForPosition position content =
      toInt (lineStart content position.line.toNat + lineWalk content position) := by
  rw [getOffsetForPosition, skipLines_eq_lineStart hline, lineWalk]

theorem onLine_iff_spentOnLine (hline : position.line.toNat < (textLines content).length) :
    OnLine content position.line.toNat (getOffsetForPosition position content) ↔ SpentOnLine content position := by
  rw [OnLine, getOffsetForPosition_eq hline, toInt_mem_iff, SpentOnLine]
  refine exists_congr fun wraps => ?_
  constructor
  · rintro ⟨hlo, hhi⟩
    refine ⟨⟨lineWalk content position, hhi, (lineWalk_le_iff _).mp (Nat.le_refl _)⟩, fun k hk hspent => ?_⟩
    have := (lineWalk_le_iff k).mpr hspent
    omega
  · rintro ⟨⟨k, hk, hspent⟩, hmore⟩
    have hle := (lineWalk_le_iff k).mpr hspent
    have hge : 4294967296 * wraps ≤ lineWalk content position := by
      by_contra hlt
      exact hmore _ (Nat.lt_of_not_le hlt) ((lineWalk_le_iff _).mp (Nat.le_refl _))
    omega

/-- The walk stays on a line exactly when the line is the last one or has the units that the walk counts. -/
theorem lineWalk_le_length_iff (hline : position.line.toNat < (textLines content).length) :
    lineWalk content position ≤ (lineText content position.line.toNat).length ↔
      position.line.toNat + 1 = (textLines content).length ∨
        position.character.toNat ≤ unitsOf (lineText content position.line.toNat) false := by
  obtain ⟨behind, hdrop, -, hbehind⟩ := drop_lineStart hline
  rw [lineWalk, hdrop, walk_le_iff]
  rcases hbehind with ⟨rfl, hlast⟩ | ⟨⟨rest, rfl⟩, hlast⟩
  · rw [List.append_nil]
    exact iff_of_true (.inl (Nat.le_refl _)) (.inl hlast)
  · have hlong : ¬(lineText content position.line.toNat ++ 10 :: rest).length ≤
        (lineText content position.line.toNat).length := by
      rw [List.length_append, List.length_cons]
      omega
    have htake : (lineText content position.line.toNat ++ 10 :: rest).take
        (lineText content position.line.toNat).length = lineText content position.line.toNat := List.take_left
    constructor
    · rintro (hall | ⟨i, hi, -, hunits⟩)
      · exact absurd hall hlong
      · have hmono := unitsOf_take_le (lineText content position.line.toNat ++ 10 :: rest) false hi
        rw [htake] at hmono
        exact .inr (hunits.trans hmono)
    · rintro (heq | hunits)
      · exact absurd heq (Nat.ne_of_lt hlast)
      · refine .inr ⟨_, Nat.le_refl _, startsChar_append (by decide) _ rest false, ?_⟩
        rwa [htake]

theorem lineEnd_le (hline : position.line.toNat < (textLines content).length) :
    lineEnd content position.line.toNat ≤ content.length ∧
      lineStart content position.line.toNat + lineWalk content position ≤ content.length := by
  obtain ⟨behind, hdrop, -, -⟩ := drop_lineStart hline
  have hlength := congrArg List.length hdrop
  have hskip := skipLines_le content position.line.toNat
  have hwalk := walk_le scanSubtract (content.drop (lineStart content position.line.toNat)) false
    position.character.toNat
  rw [skipLines_eq_lineStart hline] at hskip
  rw [List.length_drop, List.length_append] at hlength
  rw [List.length_drop] at hwalk
  rw [lineEnd, lineWalk]
  omega

/-- In a text of less than 2 GiB no offset is converted to another number. -/
theorem spentOnLine_iff_of_lt (hline : position.line.toNat < (textLines content).length)
    (hlen : content.length < 2147483648) :
    SpentOnLine content position ↔
      position.line.toNat + 1 = (textLines content).length ∨
        position.character.toNat ≤ unitsOf (lineText content position.line.toNat) false := by
  have hle := lineEnd_le hline
  rw [← onLine_iff_spentOnLine hline, ← lineWalk_le_length_iff hline, OnLine, getOffsetForPosition_eq hline,
    toInt_of_lt (by omega), lineEnd]
  omega

/-- An edit between two positions that are clamped to one line leaves the text before the line and behind it. -/
theorem editText_within_line {content' text : Bytes} {range : LsRange}
    (hline : range.start.line.toNat < (textLines content).length) (hsame : range.end_.line = range.start.line)
    (hstart : SpentOnLine content range.start) (hend : SpentOnLine content range.end_)
    (hedit : editText content ⟨some range, text⟩ = some content') :
    ∃ middle, content' = content.take (lineStart content range.start.line.toNat) ++ middle ++
      content.drop (lineEnd content range.start.line.toNat) := by
  have hlo := ((onLine_iff_spentOnLine hline).mpr hstart).1
  have hhi := ((onLine_iff_spentOnLine (by rwa [hsame])).mpr hend).2
  rw [hsame] at hhi
  simp only [editText, WorkingFile.replaceRange] at hedit
  split_ifs at hedit with hvalid
  generalize getOffsetForPosition range.start content = startOffset at hlo hvalid hedit
  generalize getOffsetForPosition range.end_ content = endOffset at hhi hvalid hedit
  obtain ⟨i, hi⟩ := Nat.exists_eq_add_of_le (by omega : lineStart content range.start.line.toNat ≤ startOffset.toNat)
  obtain ⟨j, hj⟩ := Nat.exists_eq_add_of_le (by omega : endOffset.toNat ≤ lineEnd content range.start.line.toNat)
  refine ⟨(content.drop (lineStart content range.start.line.toNat)).take i ++ text ++
    (content.drop endOffset.toNat).take j, ?_⟩
  rw [← Option.some.inj hedit, hi, hj, List.take_add, ← List.drop_drop]
  simp only [List.append_assoc, List.take_append_drop]

end Line

/-- **A position is clamped to its line** exactly when its units are spent on the line, which in a text of less than
2 GiB means that the line is the last one or has as many units: for the plain scan, and for the files that the store
tracks in any of its states. Between two such positions of one line an edit leaves all other lines as they are. -/
theorem position_onLine_iff {Uri : Type*} (getAbsolutePath : Uri → AbsolutePath) (content : Bytes)
    (position : LsPosition) (hline : position.line.toNat < (textLines content).length) :
    (OnLine content position.line.toNat (getOffsetForPosition position content) ↔ SpentOnLine content position) ∧
      (∀ s filename file, (workingSystem getAbsolutePath).Reachable s → s.getFileByFilename filename = some file →
        file.bufferContent = content →
          (OnLine content position.line.toNat (file.getOffsetForPosition position) ↔
            SpentOnLine content position)) ∧
      (content.length < 2147483648 →
        (SpentOnLine content position ↔
          position.line.toNat + 1 = (textLines content).length ∨
            position.character.toNat ≤ unitsOf (lineText content position.line.toNat) false)) ∧
      ∀ end_ text content', end_.line = position.line → SpentOnLine content position → SpentOnLine content end_ →
        editText content ⟨some ⟨position, end_⟩, text⟩ = some content' →
          ∃ middle, content' = content.take (lineStart content position.line.toNat) ++ middle ++
            content.drop (lineEnd content position.line.toNat) := by
  refine ⟨onLine_iff_spentOnLine hline, ?_, spentOnLine_iff_of_lt hline, ?_⟩
  · intro s filename file hs hfile hcontent
    rw [(WorkingFiles.indexed_of_getFileByFilename hs hfile).getOffsetForPosition, hcontent]
    exact onLine_iff_spentOnLine hline
  · intro end_ text content' hsame hstart hend hedit
    exact @editText_within_line content content' text ⟨position, end_⟩ hline hsame hstart hend hedit

/-- A character on the first of three lines. -/
def positionOnLine : LsPosition := ⟨0, 1⟩

theorem position_onLine_iff_positionOnLine :
    positionOnLine.line.toNat < (textLines (bytesOf "a\nbc\n")).length ∧
      OnLine (bytesOf "a\nbc\n") 0 (getOffsetForPosition positionOnLine (bytesOf "a\nbc\n")) := by
  have hline : positionOnLine.line.toNat < (textLines (bytesOf "a\nbc\n")).length := by decide
  have h := position_onLine_iff pathOfUri (bytesOf "a\nbc\n") positionOnLine hline
  exact ⟨hline, h.1.mpr ((h.2.2.1 (by decide)).mpr (.inr (by decide)))⟩

/-- A character behind the end of the first line is looked for on the lines below. -/
theorem positionPastLine_not_onLine :
    rangePastLine.start.line.toNat < (textLines (bytesOf "a\nbc\n")).length ∧
      getOffsetForPosition rangePastLine.start (bytesOf "a\nbc\n") = 5 ∧
      (WorkingFile.create ⟨bytesOf "/a/b"⟩ (bytesOf "a\nbc\n")).getOffsetForPosition rangePastLine.start = 5 ∧
      lineEnd (bytesOf "a\nbc\n") 0 = 1 ∧
      ¬OnLine (bytesOf "a\nbc\n") 0 (getOffsetForPosition rangePastLine.start (bytesOf "a\nbc\n")) := by
  exact ⟨by decide, by decide, by decide, by decide, by decide⟩

end LspCpp

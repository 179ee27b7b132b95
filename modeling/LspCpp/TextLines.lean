import LspCpp.TextOrder
import Mathlib.Algebra.BigOperators.Group.List.Basic
import Mathlib.Algebra.GroupWithZero.Nat

/-! The lines of a text and the characters that the walk over a line tells apart: where the scan over the lines ends,
and how far a walk goes by the units that it counts. -/

namespace LspCpp

/-- The lines of a text, without the LF at the end of each but the last. -/
def textLines (content : Bytes) : List Bytes := content.splitOn 10

def lineText (content : Bytes) (line : Nat) : Bytes := (textLines content).getD line []

/-- A line begins behind those before it, each with its LF. -/
def lineStart (content : Bytes) (line : Nat) : Nat :=
  (((textLines content).take line).map fun text => text.length + 1).sum

/-- A line ends at its LF, the last one at the end of the text. -/
def lineEnd (content : Bytes) (line : Nat) : Nat := lineStart content line + (lineText content line).length

theorem textLines_of_not_mem {content : Bytes} (h : 10 ∉ content) : textLines content = [content] :=
  List.splitOn_eq_singleton h

theorem textLines_append {text : Bytes} (h : 10 ∉ text) (rest : Bytes) :
    textLines (text ++ 10 :: rest) = text :: textLines rest :=
  List.splitOn_append_cons_self_of_not_mem h rest

theorem textLines_length_pos (content : Bytes) : 0 < (textLines content).length :=
  List.length_pos_iff.mpr (List.splitOn_ne_nil _ _)

theorem lineStart_succ {text : Bytes} (h : 10 ∉ text) (rest : Bytes) (line : Nat) :
    lineStart (text ++ 10 :: rest) (line + 1) = text.length + 1 + lineStart rest line := by
  rw [lineStart, textLines_append h, List.take_succ_cons, List.map_cons, List.sum_cons, lineStart]

theorem lineText_succ {text : Bytes} (h : 10 ∉ text) (rest : Bytes) (line : Nat) :
    lineText (text ++ 10 :: rest) (line + 1) = lineText rest line := by
  rw [lineText, textLines_append h, List.getD_cons_succ, lineText]

theorem skipLines_succ {text : Bytes} (h : 10 ∉ text) (rest : Bytes) (line : Nat) :
    skipLines (text ++ 10 :: rest) (line + 1) = text.length + 1 + skipLines rest line := by
  induction text with
  | nil =>
      rw [List.nil_append, skipLines, if_neg (Nat.succ_ne_zero line), if_pos rfl, Nat.add_sub_cancel]
      exact Nat.add_comm _ _
  | cons c text ih =>
      have hc : ¬c = 10 := fun heq => h (heq ▸ List.mem_cons_self ..)
      rw [List.cons_append, skipLines, if_neg (Nat.succ_ne_zero line), if_neg hc,
        ih fun hmem => h (List.mem_cons_of_mem _ hmem), List.length_cons]
      omega

theorem skipLines_of_not_mem {content : Bytes} (h : 10 ∉ content) (line : Nat) :
    skipLines content (line + 1) = content.length := by
  induction content with
  | nil => rfl
  | cons c content ih =>
      have hc : ¬c = 10 := fun heq => h (heq ▸ List.mem_cons_self ..)
      rw [skipLines, if_neg (Nat.succ_ne_zero line), if_neg hc, ih fun hmem => h (List.mem_cons_of_mem _ hmem),
        List.length_cons]

/-- The scan over the lines ends at the beginning of a line, or at the end of a text that does not have it. -/
theorem skipLines_eq_min (content : Bytes) (line : Nat) :
    skipLines content line = min (lineStart content line) content.length := by
  induction line generalizing content with
  | zero => cases content <;> rfl
  | succ line ih =>
      by_cases hmem : 10 ∈ content
      · obtain ⟨text, rest, rfl, htext⟩ := List.eq_append_cons_of_mem hmem
        rw [skipLines_succ htext, lineStart_succ htext, ih, List.length_append, List.length_cons]
        omega
      · have hstart : lineStart content (line + 1) = content.length + 1 := by
          rw [lineStart, textLines_of_not_mem hmem, List.take_succ_cons, List.take_nil]
          rfl
        rw [skipLines_of_not_mem hmem, hstart]
        omega

/-- The scan over the lines ends at the beginning of a line of the text. -/
theorem skipLines_eq_lineStart {content : Bytes} {line : Nat} (h : line < (textLines content).length) :
    skipLines content line = lineStart content line := by
  induction line generalizing content with
  | zero => cases content <;> rfl
  | succ line ih =>
      by_cases hmem : 10 ∈ content
      · obtain ⟨text, rest, rfl, htext⟩ := List.eq_append_cons_of_mem hmem
        rw [textLines_append htext, List.length_cons] at h
        rw [skipLines_succ htext, lineStart_succ htext, ih (Nat.lt_of_succ_lt_succ h)]
      · rw [textLines_of_not_mem hmem] at h
        exact absurd (Nat.lt_of_succ_lt_succ h) (Nat.not_lt_zero line)

/-- From the beginning of a line the text goes on with the line, and behind it with an LF if it is not the last. -/
theorem drop_lineStart {content : Bytes} {line : Nat} (h : line < (textLines content).length) :
    ∃ behind, content.drop (lineStart content line) = lineText content line ++ behind ∧ 10 ∉ lineText content line ∧
      (behind = [] ∧ line + 1 = (textLines content).length ∨
        (∃ rest, behind = 10 :: rest) ∧ line + 1 < (textLines content).length) := by
  induction line generalizing content with
  | zero =>
      by_cases hmem : 10 ∈ content
      · obtain ⟨text, rest, rfl, htext⟩ := List.eq_append_cons_of_mem hmem
        have hpos := textLines_length_pos rest
        rw [lineText, textLines_append htext]
        exact ⟨10 :: rest, rfl, htext, .inr ⟨⟨rest, rfl⟩, by rw [List.length_cons]; omega⟩⟩
      · rw [lineText, textLines_of_not_mem hmem]
        exact ⟨[], (List.append_nil _).symm, hmem, .inl ⟨rfl, rfl⟩⟩
  | succ line ih =>
      by_cases hmem : 10 ∈ content
      · obtain ⟨text, rest, rfl, htext⟩ := List.eq_append_cons_of_mem hmem
        rw [textLines_append htext, List.length_cons] at h ⊢
        obtain ⟨behind, hdrop, hline, hbehind⟩ := ih (Nat.lt_of_succ_lt_succ h)
        refine ⟨behind, ?_, by rwa [lineText_succ htext], ?_⟩
        · have hassoc : text ++ 10 :: rest = (text ++ [10]) ++ rest := by simp
          have hlength : text.length + 1 + lineStart rest line = (text ++ [10]).length + lineStart rest line := by simp
          rw [lineStart_succ htext, lineText_succ htext, ← hdrop, hassoc, hlength, ← List.drop_drop, List.drop_left]
        · rcases hbehind with ⟨hnil, hlast⟩ | ⟨hrest, hlast⟩
          · exact .inl ⟨hnil, congrArg (· + 1) hlast⟩
          · exact .inr ⟨hrest, Nat.succ_lt_succ hlast⟩
      · rw [textLines_of_not_mem hmem] at h
        exact absurd (Nat.lt_of_succ_lt_succ h) (Nat.not_lt_zero line)

/-- A byte at which the walk begins a character. -/
def startsChar : Bytes → Bool → Nat → Bool
  | [], _, _ => false
  | c :: _, inSequence, 0 => !(inSequence && isContinuation c)
  | c :: rest, _, i + 1 => startsChar rest (128 ≤ c) i

theorem le_of_isContinuation {c : UInt8} (h : isContinuation c = true) : decide (128 ≤ c) = true := by
  rw [isContinuation, Bool.and_eq_true] at h
  exact h.1

/-- A walk ends within the first bytes of a text exactly when a character begins there that has the units of the walk
before it. -/
theorem walk_le_iff (bytes : Bytes) (inSequence : Bool) (character k : Nat) :
    walk scanSubtract bytes inSequence character ≤ k ↔
      bytes.length ≤ k ∨
        ∃ i ≤ k, startsChar bytes inSequence i = true ∧ character ≤ unitsOf (bytes.take i) inSequence := by
  induction bytes generalizing inSequence character k with
  | nil => simp [walk]
  | cons c rest ih =>
      have hsplit : ∀ P : Nat → Prop, (∃ i ≤ k, P i) ↔ P 0 ∨ ∃ k', k = k' + 1 ∧ ∃ i ≤ k', P (i + 1) := by
        intro P
        constructor
        · rintro ⟨i, hi, hP⟩
          cases i with
          | zero => exact .inl hP
          | succ i => exact .inr ⟨k - 1, by omega, i, by omega, hP⟩
        · rintro (hP | ⟨k', rfl, i, hi, hP⟩)
          · exact ⟨0, Nat.zero_le _, hP⟩
          · exact ⟨i + 1, by omega, hP⟩
      rw [hsplit, walk, List.length_cons]
      simp only [startsChar, List.take_succ_cons, List.take_zero, unitsOf, Nat.le_zero]
      split_ifs with hin hzero
      · have hflag : decide (128 ≤ c) = true := le_of_isContinuation (Bool.and_eq_true_iff.mp hin).2
        rw [hflag]
        cases k with
        | zero => simp [hin]
        | succ k => simp [hin, ih true character k]
      · simp [hin, hzero]
      · rw [scanSubtract_eq]
        cases k with
        | zero => simp [hzero]
        | succ k =>
            simp only [Nat.add_le_add_iff_right, ih, hzero, and_false, false_or, Nat.add_right_cancel_iff,
              exists_eq_left', Nat.sub_le_iff_le_add, Nat.add_comm (units c)]

theorem unitsOf_take_le (bytes : Bytes) (inSequence : Bool) {i j : Nat} (h : i ≤ j) :
    unitsOf (bytes.take i) inSequence ≤ unitsOf (bytes.take j) inSequence := by
  induction bytes generalizing inSequence i j with
  | nil => simp [unitsOf]
  | cons c rest ih =>
      cases i with
      | zero => exact Nat.zero_le _
      | succ i =>
          cases j with
          | zero => exact absurd h (Nat.not_succ_le_zero i)
          | succ j =>
              have hij := Nat.le_of_succ_le_succ h
              simp only [List.take_succ_cons, unitsOf]
              split_ifs
              · exact ih true hij
              · exact Nat.add_le_add_left (ih _ hij) _

/-- An ASCII character begins wherever it stands. -/
theorem startsChar_append {c : UInt8} (hc : isContinuation c = false) (text rest : Bytes) (inSequence : Bool) :
    startsChar (text ++ c :: rest) inSequence text.length = true := by
  induction text generalizing inSequence with
  | nil => simp [startsChar, hc]
  | cons b text ih => exact ih _

end LspCpp

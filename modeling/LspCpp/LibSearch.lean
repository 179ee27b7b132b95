import Mathlib.Data.List.Infix
import Mathlib.Tactic.SplitIfs

/-! The first occurrence of a word in a text, and how it behaves when the text grows at its end; and the pieces
of a text that a separator ends. -/

namespace Search

variable {α : Type*} [DecidableEq α]

/-- The position of the first occurrence of `word`. -/
def find (word : List α) : List α → Option Nat
  | [] => if word = [] then some 0 else none
  | x :: text => if word <+: x :: text then some 0 else (find word text).map (· + 1)

theorem find_eq_zero {word text : List α} (h : word <+: text) : find word text = some 0 := by
  cases text with
  | nil => rw [find, if_pos (List.prefix_nil.mp h)]
  | cons x text => rw [find, if_pos h]

theorem find_cons {word text : List α} {x : α} (h : ¬word <+: x :: text) :
    find word (x :: text) = (find word text).map (· + 1) := by
  rw [find, if_neg h]

theorem prefix_drop_of_find {word text : List α} {i : Nat} (h : find word text = some i) :
    word <+: text.drop i := by
  induction text generalizing i with
  | nil =>
      rw [find] at h
      split_ifs at h with hword
      rw [hword]
      exact List.nil_prefix
  | cons x text ih =>
      by_cases hx : word <+: x :: text
      · obtain rfl : 0 = i := Option.some.inj ((find_eq_zero hx).symm.trans h)
        exact hx
      · rw [find_cons hx, Option.map_eq_some_iff] at h
        obtain ⟨j, hj, rfl⟩ := h
        exact ih hj

theorem add_length_le_of_find {word text : List α} {i : Nat} (h : find word text = some i) :
    i + word.length ≤ text.length := by
  induction text generalizing i with
  | nil =>
      rw [find] at h
      split_ifs at h with hword
      obtain rfl := Option.some.inj h
      simp [hword]
  | cons x text ih =>
      by_cases hx : word <+: x :: text
      · obtain rfl : 0 = i := Option.some.inj ((find_eq_zero hx).symm.trans h)
        simpa using hx.length_le
      · rw [find_cons hx, Option.map_eq_some_iff] at h
        obtain ⟨j, hj, rfl⟩ := h
        have := ih hj
        rw [List.length_cons]
        omega

/-- An occurrence is not lost when the text grows. -/
theorem find_append {word text : List α} {i : Nat} (h : find word text = some i) (more : List α) :
    find word (text ++ more) = some i := by
  induction text generalizing i with
  | nil =>
      rw [find] at h
      split_ifs at h with hword
      obtain rfl := Option.some.inj h
      exact find_eq_zero (hword ▸ List.nil_prefix)
  | cons x text ih =>
      by_cases hx : word <+: x :: text
      · obtain rfl : 0 = i := Option.some.inj ((find_eq_zero hx).symm.trans h)
        exact find_eq_zero (hx.trans (List.prefix_append _ _))
      · rw [find_cons hx, Option.map_eq_some_iff] at h
        obtain ⟨j, hj, rfl⟩ := h
        have hnot : ¬word <+: x :: (text ++ more) := by
          intro hword
          refine hx (List.prefix_of_prefix_length_le hword ?_ ?_)
          · exact List.prefix_append (x :: text) more
          · have := add_length_le_of_find hj
            rw [List.length_cons]
            omega
        rw [List.cons_append, find_cons hnot, ih hj]
        rfl

/-- An occurrence that appears only when the text grows ends in the new part. -/
theorem length_lt_of_find_append {word text more : List α} {i : Nat} (hnone : find word text = none)
    (h : find word (text ++ more) = some i) : text.length < i + word.length := by
  induction text generalizing i with
  | nil =>
      by_cases hword : word = []
      · rw [find_eq_zero (hword ▸ List.nil_prefix)] at hnone
        cases hnone
      · have := List.length_pos_iff.mpr hword
        rw [List.length_nil]
        omega
  | cons x text ih =>
      have hx : ¬word <+: x :: text := by
        intro hx
        rw [find_eq_zero hx] at hnone
        cases hnone
      rw [find_cons hx, Option.map_eq_none_iff] at hnone
      rw [List.cons_append] at h
      by_cases hword : word <+: x :: (text ++ more)
      · obtain rfl : 0 = i := Option.some.inj ((find_eq_zero hword).symm.trans h)
        by_contra hlen
        exact hx (List.prefix_of_prefix_length_le hword (List.prefix_append (x :: text) more) (by omega))
      · rw [find_cons hword, Option.map_eq_some_iff] at h
        obtain ⟨j, hj, rfl⟩ := h
        have := ih hnone hj
        rw [List.length_cons]
        omega

/-- Letters that the word does not begin with are passed over. -/
theorem find_skip {word skipped : List α} {a : α} (hskipped : a ∉ skipped) (text : List α) :
    find (a :: word) (skipped ++ text) = (find (a :: word) text).map (· + skipped.length) := by
  induction skipped with
  | nil => simp
  | cons x skipped ih =>
      rw [List.mem_cons, not_or] at hskipped
      have hnot : ¬a :: word <+: x :: (skipped ++ text) := by
        rw [List.cons_prefix_cons]
        exact fun h => hskipped.1 h.1
      rw [List.cons_append, find_cons hnot, ih hskipped.2, Option.map_map]
      congr 1

/-- One letter is found behind all that is not this letter. -/
theorem find_letter_cases (a : α) (text : List α) :
    a ∉ text ∧ find [a] text = none ∨
      ∃ before after, text = before ++ a :: after ∧ a ∉ before ∧ find [a] text = some before.length := by
  by_cases hmem : a ∈ text
  · obtain ⟨before, after, rfl, hbefore⟩ := List.eq_append_cons_of_mem hmem
    refine .inr ⟨before, after, rfl, hbefore, ?_⟩
    rw [find_skip hbefore, find_eq_zero (by simp), Option.map_some, Nat.zero_add]
  · refine .inl ⟨hmem, ?_⟩
    have hskip := @find_skip α _ [] text a hmem []
    rwa [List.append_nil, find, if_neg (List.cons_ne_nil a [])] at hskip

/-- The position of the first occurrence of `word` that does not begin before `start`. -/
def findFrom (word text : List α) (start : Nat) : Option Nat := (find word (text.drop start)).map (· + start)

theorem findFrom_append (word before text : List α) :
    findFrom word (before ++ text) before.length = (find word text).map (· + before.length) := by
  rw [findFrom, List.drop_left]

/-- The pieces of a text that end in the separator, without it; what follows the last one is left out. -/
def terminated (separator : α) (text : List α) : List (List α) := (text.splitOn separator).dropLast

theorem terminated_separator (separator : α) (text : List α) :
    terminated separator (separator :: text) = [] :: terminated separator text := by
  rw [terminated, List.splitOn_cons_eq_if_modifyHead, if_pos BEq.rfl,
    List.dropLast_cons_of_ne_nil (List.splitOn_ne_nil _ _), terminated]

theorem terminated_cons {separator x : α} (h : x ≠ separator) (text : List α) :
    terminated separator (x :: text) = (terminated separator text).modifyHead (x :: ·) := by
  rw [terminated, List.splitOn_cons_eq_if_modifyHead, if_neg (by simpa using h), ← List.modifyHead_dropLast, terminated]

/-- No piece of a text has the separator in it. -/
theorem not_mem_of_mem_splitOn {separator : α} {text piece : List α} (h : piece ∈ text.splitOn separator) :
    separator ∉ piece := by
  induction text generalizing piece with
  | nil =>
      rw [List.splitOn_nil, List.mem_singleton] at h
      rw [h]
      exact List.not_mem_nil
  | cons x text ih =>
      rw [List.splitOn_cons_eq_if_modifyHead] at h
      split_ifs at h with hx
      · rcases List.mem_cons.mp h with rfl | h
        · exact List.not_mem_nil
        · exact ih h
      · obtain ⟨first, pieces, hsplit⟩ := List.exists_cons_of_ne_nil (List.splitOn_ne_nil separator text)
        rw [hsplit] at h ih
        rcases List.mem_cons.mp h with rfl | h
        · have hne : separator ≠ x := fun heq => hx (by rw [heq]; exact BEq.rfl)
          rw [List.mem_cons, not_or]
          exact ⟨hne, ih (List.mem_cons_self ..)⟩
        · exact ih (List.mem_cons_of_mem _ h)

end Search

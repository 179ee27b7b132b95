import LspCpp.StreamHeader

/-! `UpdateToRnNewlines`: a `'\r'` goes in front of every newline that has none. The loop finds an inserted pair once
more before it goes on. -/

namespace LspCpp

/-- The loop of `UpdateToRnNewlines` for at most `fuel` rounds. -/
def updateToRnNewlinesLoop : (fuel idx : Nat) → (output : Bytes) → Option Bytes
  | 0, _, _ => none
  | fuel + 1, idx, output =>
      match Search.findFrom [10] output idx with
      | none => some output
      | some idx =>
          if 0 < idx ∧ output[idx - 1]? = some 13 then updateToRnNewlinesLoop fuel (idx + 1) output
          else updateToRnNewlinesLoop fuel idx (output.take idx ++ [13, 10] ++ output.drop (idx + 1))

/-- `UpdateToRnNewlines`; two rounds are enough for each newline. -/
def updateToRnNewlines (output : Bytes) : Option Bytes := updateToRnNewlinesLoop (2 * output.length + 1) 0 output

/-- The text behind the byte `previous`, with a `'\r'` that is marked in front of each newline that has none. -/
def withReturns : (previous : Option UInt8) → Bytes → List (UInt8 × Bool)
  | _, [] => []
  | previous, c :: rest =>
      if c = 10 ∧ previous ≠ some 13 then (13, true) :: (10, false) :: withReturns (some 10) rest
      else (c, false) :: withReturns (some c) rest

/-- The text with what was inserted. -/
def written (previous : Option UInt8) (text : Bytes) : Bytes := (withReturns previous text).map Prod.fst

/-- **Nothing else changes**: without what was inserted the text is as it was. -/
theorem withReturns_deleted (previous : Option UInt8) (text : Bytes) :
    ((withReturns previous text).filter fun entry => !entry.2).map Prod.fst = text := by
  induction text generalizing previous with
  | nil => rfl
  | cons c rest ih =>
      rw [withReturns]
      split_ifs with hinsert
      · rw [hinsert.1, List.filter_cons_of_neg (by decide), List.filter_cons_of_pos (by decide), List.map_cons, ih]
      · rw [List.filter_cons_of_pos rfl, List.map_cons, ih]

theorem written_nil (previous : Option UInt8) : written previous [] = [] := rfl

theorem written_newline {previous : Option UInt8} (h : previous ≠ some 13) (rest : Bytes) :
    written previous (10 :: rest) = 13 :: 10 :: written (some 10) rest := by
  rw [written, withReturns, if_pos ⟨rfl, h⟩]
  rfl

theorem written_kept {previous : Option UInt8} {c : UInt8} (h : c = 10 → previous = some 13) (rest : Bytes) :
    written previous (c :: rest) = c :: written (some c) rest := by
  rw [written, withReturns, if_neg fun hinsert => hinsert.2 (h hinsert.1)]
  rfl

/-- The last byte of a text behind `previous`. -/
theorem getLast?_cons_or (c : UInt8) (text : Bytes) (previous : Option UInt8) :
    (c :: text).getLast?.or previous = text.getLast?.or (some c) := by
  rw [List.getLast?_cons]
  cases text.getLast? <;> rfl

/-- Bytes other than newlines are written as they are. -/
theorem written_skip {line : Bytes} (hline : (10 : UInt8) ∉ line) (previous : Option UInt8) (rest : Bytes) :
    written previous (line ++ rest) = line ++ written (line.getLast?.or previous) rest := by
  induction line generalizing previous with
  | nil => rfl
  | cons c line ih =>
      rw [List.mem_cons, not_or] at hline
      rw [List.cons_append, written_kept fun heq => absurd heq.symm hline.1, ih hline.2, List.cons_append,
        getLast?_cons_or]

/-- **Every newline of the result has its `'\r'`.** -/
theorem newline_preceded {previous : Option UInt8} {text before after : Bytes}
    (h : written previous text = before ++ 10 :: after) : before.getLast?.or previous = some 13 := by
  induction text generalizing previous before with
  | nil =>
      rw [written_nil] at h
      exact absurd h.symm (by simp)
  | cons c rest ih =>
      by_cases hinsert : c = 10 ∧ previous ≠ some 13
      · rw [hinsert.1, written_newline hinsert.2] at h
        rcases List.cons_eq_append_iff.mp h with ⟨_, hhead⟩ | ⟨before', rfl, h'⟩
        · cases hhead
        · rw [getLast?_cons_or]
          rcases List.cons_eq_append_iff.mp h' with ⟨rfl, _⟩ | ⟨before'', rfl, h''⟩
          · rfl
          · rw [getLast?_cons_or]
            exact ih h''
      · have hkept : c = 10 → previous = some 13 := fun heq => not_not.mp fun hne => hinsert ⟨heq, hne⟩
        rw [written_kept hkept] at h
        rcases List.cons_eq_append_iff.mp h with ⟨rfl, hhead⟩ | ⟨before', rfl, h'⟩
        · exact hkept (List.cons.inj hhead).1.symm
        · rw [getLast?_cons_or]
          exact ih h'

/-- A text whose newlines all have their `'\r'` stays as it is. -/
theorem written_eq_self {previous : Option UInt8} {text : Bytes}
    (h : ∀ before after, text = before ++ 10 :: after → before.getLast?.or previous = some 13) :
    written previous text = text := by
  induction text generalizing previous with
  | nil => rfl
  | cons c rest ih =>
      have hkept : c = 10 → previous = some 13 := by
        rintro rfl
        exact h [] rest rfl
      have hrest : ∀ before after, rest = before ++ 10 :: after → before.getLast?.or (some c) = some 13 := by
        rintro before after rfl
        rw [← getLast?_cons_or c before previous]
        exact h (c :: before) after rfl
      rw [written_kept hkept, ih hrest]

/-- One round passes over a newline that has its `'\r'`, and puts one in front of another. -/
theorem updateToRnNewlinesLoop_line {line : Bytes} (hline : (10 : UInt8) ∉ line) (fuel : Nat) (before after : Bytes) :
    updateToRnNewlinesLoop (fuel + 1) before.length (before ++ (line ++ 10 :: after)) =
      if (before ++ line).getLast? = some 13 then
        updateToRnNewlinesLoop fuel (before ++ line ++ [10]).length (before ++ line ++ [10] ++ after)
      else updateToRnNewlinesLoop fuel (before ++ line).length (before ++ line ++ ([13] ++ 10 :: after)) := by
  have hfind : Search.findFrom [10] (before ++ (line ++ 10 :: after)) before.length = some (before ++ line).length := by
    rw [Search.findFrom_append, Search.find_skip hline, Search.find_eq_zero (by simp), Option.map_some, Option.map_some,
      List.length_append]
    congr 1
    omega
  have hlook : (0 < (before ++ line).length ∧ (before ++ line ++ 10 :: after)[(before ++ line).length - 1]? = some 13) ↔
      (before ++ line).getLast? = some 13 := by
    rw [List.getLast?_eq_getElem?]
    constructor
    · rintro ⟨hpos, hbyte⟩
      rwa [List.getElem?_append_left (by omega)] at hbyte
    · intro hbyte
      obtain ⟨hlt, _⟩ := List.getElem?_eq_some_iff.mp hbyte
      exact ⟨by omega, by rwa [List.getElem?_append_left hlt]⟩
  rw [updateToRnNewlinesLoop, hfind]
  dsimp only
  rw [← List.append_assoc]
  simp only [hlook]
  split_ifs
  · rw [@List.length_append _ (before ++ line) [10], List.append_assoc _ [10] after]
    rfl
  · have htail : (before ++ line ++ 10 :: after).drop ((before ++ line).length + 1) = after := by
      rw [← List.drop_drop, List.drop_left]
      rfl
    rw [List.take_left, htail, List.append_assoc _ [13, 10] after]
    rfl

/-- **The loop ends** and writes what is to be written. -/
theorem updateToRnNewlinesLoop_eq {fuel : Nat} {before rest : Bytes} (hfuel : 2 * rest.length < fuel) :
    updateToRnNewlinesLoop fuel before.length (before ++ rest) = some (before ++ written before.getLast? rest) := by
  induction hlength : rest.length using Nat.strongRecOn generalizing fuel before rest with
  | ind n ih =>
      obtain ⟨fuel, rfl⟩ := Nat.exists_eq_succ_of_ne_zero (Nat.ne_of_gt (Nat.zero_lt_of_lt hfuel))
      rcases Search.find_letter_cases 10 rest with ⟨hnot, hfind⟩ | ⟨line, after, rfl, hline, _⟩
      · have hwritten : written before.getLast? rest = rest := by
          have hskip := written_skip hnot before.getLast? []
          rwa [written_nil, List.append_nil] at hskip
        rw [updateToRnNewlinesLoop, Search.findFrom_append, hfind, hwritten]
        rfl
      · rw [List.length_append, List.length_cons] at hlength hfuel
        have hlast : (before ++ line).getLast? = line.getLast?.or before.getLast? := List.getLast?_append
        rw [updateToRnNewlinesLoop_line hline, written_skip hline, ← hlast]
        split_ifs with hreturn
        · have hafter := @ih after.length (by omega) fuel (before ++ line ++ [10]) after (by omega) rfl
          rw [hafter, List.getLast?_concat, written_kept fun _ => hreturn]
          simp
        · obtain ⟨fuel, rfl⟩ := Nat.exists_eq_succ_of_ne_zero (by omega : fuel ≠ 0)
          have hafter := @ih after.length (by omega) fuel (before ++ line ++ [13] ++ [10]) after (by omega) rfl
          rw [updateToRnNewlinesLoop_line (by decide), if_pos List.getLast?_concat, hafter, List.getLast?_concat,
            written_newline hreturn]
          simp

/-- **Newline conversion**: the loop ends for every text, and the result is the text with a `'\r'` in front of exactly
those newlines that have none. Every newline of the result has one, without the inserted bytes the result is the text,
and a second conversion changes nothing. -/
theorem updateToRnNewlines_written (s : Bytes) :
    ∃ out, (∀ fuel, 2 * s.length < fuel → updateToRnNewlinesLoop fuel 0 s = some out) ∧
      updateToRnNewlines s = some out ∧ out = (withReturns none s).map Prod.fst ∧
      ((withReturns none s).filter fun entry => !entry.2).map Prod.fst = s ∧
      (∀ before after, out = before ++ 10 :: after → before.getLast? = some 13) ∧
      updateToRnNewlines out = some out := by
  have hloop : ∀ {text : Bytes} {fuel : Nat}, 2 * text.length < fuel →
      updateToRnNewlinesLoop fuel 0 text = some (written none text) := fun hfuel =>
    @updateToRnNewlinesLoop_eq _ [] _ hfuel
  have hpreceded : ∀ before after, written none s = before ++ 10 :: after → before.getLast? = some 13 := by
    intro before after hsplit
    have hlast := newline_preceded hsplit
    rwa [Option.or_none] at hlast
  refine ⟨written none s, fun fuel hfuel => hloop hfuel, hloop (Nat.lt_succ_self _), rfl, withReturns_deleted none s,
    hpreceded, ?_⟩
  have hself : written none (written none s) = written none s := by
    apply written_eq_self
    intro before after hsplit
    rw [Option.or_none]
    exact hpreceded before after hsplit
  rw [updateToRnNewlines, hloop (Nat.lt_succ_self _), hself]

example : updateToRnNewlines (bytesOf "a\n\r\nb\n\n") = some (bytesOf "a\r\n\r\nb\r\n\r\n") := by decide

end LspCpp

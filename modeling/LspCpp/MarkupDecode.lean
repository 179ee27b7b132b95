import LspCpp.MarkupTree
import Mathlib.Algebra.Ring.Parity

/-! Reading rendered text back: an escaped paragraph text by taking its backslashes away, inline code by taking away the
delimiters and the padding and by halving the backticks. -/

namespace LspCpp

open StringRef

/-- Each backslash that a byte follows is left out, and the byte behind it is kept. -/
def unescape : Bytes → Bytes
  | [] => []
  | [c] => [c]
  | c :: d :: rest => if c = 92 then d :: unescape rest else c :: unescape (d :: rest)

/-- The lengths of the maximal runs of backticks behind `n` of them. -/
def backtickRuns : (n : Nat) → Bytes → List Nat
  | n, [] => if n = 0 then [] else [n]
  | n, c :: rest => if c = 96 then backtickRuns (n + 1) rest else (if n = 0 then [] else [n]) ++ backtickRuns 0 rest

/-- Every maximal run of backticks is halved; `n` of the run at the beginning have been read. -/
def halveBackticks : (n : Nat) → Bytes → Bytes
  | n, [] => List.replicate (n / 2) 96
  | n, c :: rest => if c = 96 then halveBackticks (n + 1) rest
      else List.replicate (n / 2) 96 ++ c :: halveBackticks 0 rest

/-- One space from each side, where both sides have one. -/
def stripSpaces (text : Bytes) : Bytes :=
  if text.head? = some 32 ∧ text.getLast? = some 32 then text.tail.dropLast else text

theorem unescape_cons {c : UInt8} (hc : c ≠ 92) (rest : Bytes) : unescape (c :: rest) = c :: unescape rest := by
  cases rest with
  | nil => rfl
  | cons d rest => rw [unescape, if_neg hc]

theorem unescape_backslash (c : UInt8) (rest : Bytes) : unescape (92 :: c :: rest) = c :: unescape rest := by
  rw [unescape, if_pos rfl]

/-- What is written without a backslash in front of it is none itself. -/
theorem unescape_escaped (startsLine : Bool) (before rest : Bytes) :
    unescape (escaped startsLine before rest) = rest := by
  induction rest generalizing before with
  | nil => rfl
  | cons c rest ih =>
      rw [escaped]
      split_ifs with hescape
      · rw [unescape_backslash, ih]
      · have hc : c ≠ 92 := by
          rintro rfl
          exact hescape rfl
        rw [unescape_cons hc, ih]

/-- The text that `renderInlineBlock` puts between the delimiters, without the padding. -/
def doubled (input : Bytes) : Bytes := input.flatMap fun c => if c == 96 then [96, 96] else [c]

theorem doubled_backtick (rest : Bytes) : doubled (96 :: rest) = 96 :: 96 :: doubled rest := rfl

theorem doubled_cons {c : UInt8} (hc : c ≠ 96) (rest : Bytes) : doubled (c :: rest) = c :: doubled rest := by
  rw [doubled, List.flatMap_cons, if_neg (by simpa using hc)]
  rfl

theorem doubled_append (left right : Bytes) : doubled (left ++ right) = doubled left ++ doubled right :=
  List.flatMap_append

/-- A doubled text begins and ends with the bytes of the text. -/
theorem head?_doubled (input : Bytes) : (doubled input).head? = input.head? := by
  cases input with
  | nil => rfl
  | cons c rest =>
      by_cases hc : c = 96
      · rw [hc, doubled_backtick]
        rfl
      · rw [doubled_cons hc]
        rfl

theorem getLast?_doubled (input : Bytes) : (doubled input).getLast? = input.getLast? := by
  rcases List.eq_nil_or_concat' input with rfl | ⟨rest, c, rfl⟩
  · rfl
  · rw [doubled_append]
    by_cases hc : c = 96
    · rw [hc, doubled_backtick]
      simp [doubled]
    · rw [doubled_cons hc]
      simp [doubled]

theorem halveBackticks_doubled (n : Nat) (input : Bytes) :
    halveBackticks (2 * n) (doubled input) = List.replicate n 96 ++ input := by
  induction input generalizing n with
  | nil =>
      rw [doubled, List.flatMap_nil, halveBackticks, Nat.mul_div_cancel_left n (by decide), List.append_nil]
  | cons c rest ih =>
      by_cases hc : c = 96
      · rw [hc, doubled_backtick, halveBackticks, if_pos rfl, halveBackticks, if_pos rfl]
        have hrun : 2 * n + 1 + 1 = 2 * (n + 1) := by omega
        rw [hrun, ih, List.replicate_succ', List.append_assoc]
        rfl
      · rw [doubled_cons hc, halveBackticks, if_neg hc, Nat.mul_div_cancel_left n (by decide)]
        exact congrArg (List.replicate n 96 ++ c :: ·) (ih 0)

/-- Runs of even length, and one backtick at the end. -/
def EvenUpToOne (runs : List Nat) : Prop := ∃ middle, runs = middle ++ [1] ∧ ∀ run ∈ middle, Even run

theorem EvenUpToOne.evenRun {runs : List Nat} (h : EvenUpToOne runs) (n : Nat) :
    EvenUpToOne ((if 2 * n = 0 then [] else [2 * n]) ++ runs) := by
  obtain ⟨middle, rfl, heven⟩ := h
  refine ⟨(if 2 * n = 0 then [] else [2 * n]) ++ middle, (List.append_assoc _ _ _).symm, fun run hrun => ?_⟩
  rcases List.mem_append.mp hrun with hrun | hrun
  · split_ifs at hrun with hzero
    · cases hrun
    · rw [List.mem_singleton.mp hrun]
      exact even_two_mul n
  · exact heven run hrun

/-- A delimiter that stands behind another byte is a run of its own, and the runs in front of it are even. -/
theorem backtickRuns_doubled {c : UInt8} (hc : c ≠ 96) (n : Nat) (input : Bytes) :
    EvenUpToOne (backtickRuns (2 * n) (doubled input ++ [c, 96])) := by
  induction input generalizing n with
  | nil =>
      rw [doubled, List.flatMap_nil, List.nil_append, backtickRuns, if_neg hc]
      have hone : EvenUpToOne (backtickRuns 0 [96]) := ⟨[], rfl, by simp⟩
      exact hone.evenRun n
  | cons d rest ih =>
      by_cases hd : d = 96
      · rw [hd, doubled_backtick, List.cons_append, List.cons_append, backtickRuns, if_pos rfl, backtickRuns,
          if_pos rfl]
        exact ih (n + 1)
      · rw [doubled_cons hd, List.cons_append, backtickRuns, if_neg hd]
        exact (ih 0).evenRun n

theorem startWith_iff_head? {c : UInt8} {text : Bytes} : startWith [c] text = true ↔ text.head? = some c := by
  rw [startWith_singleton, List.head?_eq_some_iff]

theorem endWith_iff_getLast? {c : UInt8} {text : Bytes} : endWith [c] text = true ↔ text.getLast? = some c := by
  rw [endWith, List.isSuffixOf_iff_suffix, List.getLast?_eq_some_iff]
  exact ⟨fun ⟨before, h⟩ => ⟨before, h.symm⟩, fun ⟨before, h⟩ => ⟨before, h.symm⟩⟩

/-- Between the delimiters stands the text, with a space on each side where its first or its last byte could be taken
for a delimiter or for such spaces. -/
theorem renderInlineBlock_cases (input : Bytes) :
    ∃ inner, renderInlineBlock input = 96 :: doubled inner ++ [96] ∧ inner.head? ≠ some 96 ∧ inner.getLast? ≠ some 96 ∧
      (inner = 32 :: input ++ [32] ∨ inner = input ∧ ¬(input.head? = some 32 ∧ input.getLast? = some 32)) := by
  have hpad : bytesOf "` " ++ doubled input ++ bytesOf " `" = 96 :: doubled (32 :: input ++ [32]) ++ [96] := by
    rw [doubled_append, doubled_cons (by decide)]
    simp [bytesOf, doubled]
  have hfirst : (32 :: input ++ [32]).head? ≠ some 96 := by simp
  have hlast : (32 :: input ++ [32]).getLast? ≠ some 96 := by
    rw [List.getLast?_concat]
    decide
  unfold renderInlineBlock
  rw [← doubled]
  dsimp only
  by_cases htick : startWith [96] (doubled input) || endWith [96] (doubled input)
  · rw [if_pos htick]
    exact ⟨_, hpad, hfirst, hlast, .inl rfl⟩
  · rw [if_neg htick]
    rw [Bool.or_eq_true, startWith_iff_head?, endWith_iff_getLast?, head?_doubled, getLast?_doubled, not_or] at htick
    by_cases hspace : startWith [32] (doubled input) && endWith [32] (doubled input)
    · rw [if_pos hspace]
      exact ⟨_, hpad, hfirst, hlast, .inl rfl⟩
    · rw [if_neg hspace]
      rw [Bool.and_eq_true, startWith_iff_head?, endWith_iff_getLast?, head?_doubled, getLast?_doubled] at hspace
      exact ⟨input, rfl, htick.1, htick.2, .inr ⟨rfl, hspace⟩⟩

theorem stripSpaces_padded (text : Bytes) : stripSpaces (32 :: text ++ [32]) = text := by
  have hlast : (32 :: text ++ [32]).getLast? = some 32 := List.getLast?_concat
  rw [stripSpaces, if_pos ⟨rfl, hlast⟩, List.cons_append, List.tail_cons, List.dropLast_concat]

/-- **Inline code is read back** as the text that it was rendered from. -/
theorem renderInlineBlock_decoded (input : Bytes) :
    ∃ inner, renderInlineBlock input = 96 :: inner ++ [96] ∧ halveBackticks 0 (stripSpaces inner) = input := by
  have hhalve : halveBackticks 0 (doubled input) = input := halveBackticks_doubled 0 input
  obtain ⟨inner, hrender, _, _, rfl | ⟨rfl, hspace⟩⟩ := renderInlineBlock_cases input
  · have hinner : doubled (32 :: input ++ [32]) = 32 :: doubled input ++ [32] := by
      rw [doubled_append, doubled_cons (by decide)]
      rfl
    refine ⟨_, hrender, ?_⟩
    rw [hinner, stripSpaces_padded, hhalve]
  · have hstrip : stripSpaces (doubled inner) = doubled inner := by
      rw [stripSpaces, head?_doubled, getLast?_doubled, if_neg hspace]
    refine ⟨_, hrender, ?_⟩
    rw [hstrip, hhalve]

example : renderInlineBlock (bytesOf " a`b ") = bytesOf "`  a``b  `" := by decide

example : halveBackticks 0 (stripSpaces (bytesOf "  a``b  ")) = bytesOf " a`b " := by decide

/-- A delimiter in front of another byte is a run of its own. -/
theorem backtickRuns_delimiter {text : Bytes} (hne : text ≠ []) (h : text.head? ≠ some 96) :
    backtickRuns 1 text = 1 :: backtickRuns 0 text := by
  cases text with
  | nil => exact absurd rfl hne
  | cons d rest =>
      have hd : d ≠ 96 := fun heq => h (by rw [heq]; rfl)
      rw [backtickRuns, if_neg hd, backtickRuns, if_neg hd]
      rfl

/-- **Only the delimiters are single backticks**: nothing in between can be taken for one. -/
theorem backtickRuns_renderInlineBlock {input : Bytes} (hne : input ≠ []) :
    ∃ middle, backtickRuns 0 (renderInlineBlock input) = 1 :: middle ++ [1] ∧ ∀ run ∈ middle, Even run := by
  obtain ⟨inner, hrender, hfirst, hlast, hinner⟩ := renderInlineBlock_cases input
  have hinnerne : inner ≠ [] := by
    rcases hinner with rfl | ⟨rfl, _⟩
    · exact List.cons_ne_nil _ _
    · exact hne
  obtain ⟨front, c, rfl⟩ := (List.eq_nil_or_concat' inner).resolve_left hinnerne
  have hc : c ≠ 96 := by
    rintro rfl
    exact hlast List.getLast?_concat
  have hbody : doubled (front ++ [c]) ++ [96] = doubled front ++ [c, 96] := by
    rw [doubled_append, doubled_cons hc, List.append_assoc]
    rfl
  have hhead : (doubled (front ++ [c]) ++ [96]).head? ≠ some 96 := by
    rwa [List.head?_append_of_ne_nil _ (by rw [doubled_append, doubled_cons hc]; simp), head?_doubled]
  obtain ⟨middle, hmiddle, heven⟩ := backtickRuns_doubled hc 0 front
  refine ⟨middle, ?_, heven⟩
  rw [hrender, List.cons_append, backtickRuns, if_pos rfl, backtickRuns_delimiter (by simp) hhead, hbody, hmiddle]
  rfl

/-- **Text and inline code are read back** exactly where the text is short enough for the index of `renderText`. -/
theorem rendered_lossless_iff (s : Bytes) (startsLine : Bool) :
    ((∃ text, renderText s startsLine = some text ∧ unescape text = s) ∧
      (s ≠ [] →
        (∃ middle, backtickRuns 0 (renderInlineBlock s) = 1 :: middle ++ [1] ∧ ∀ run ∈ middle, Even run) ∧
          ∃ inner, renderInlineBlock s = 96 :: inner ++ [96] ∧ halveBackticks 0 (stripSpaces inner) = s)) ↔
      s.length < 4294967296 := by
  constructor
  · rintro ⟨⟨text, htext, _⟩, _⟩
    rw [← renderText_isSome_iff s startsLine, htext]
    rfl
  · intro hlength
    refine ⟨⟨_, renderText_eq hlength startsLine, unescape_escaped startsLine [] s⟩, fun hne => ?_⟩
    exact ⟨backtickRuns_renderInlineBlock hne, renderInlineBlock_decoded s⟩

/-- A text of `2 ^ 32` bytes is not rendered at all. -/
theorem renderText_endless :
    ¬ ∃ text, renderText (List.replicate 4294967296 97) false = some text ∧
      unescape text = List.replicate 4294967296 97 := by
  rintro ⟨text, htext, _⟩
  have hlength := (renderText_isSome_iff (List.replicate 4294967296 97) false).mp (by rw [htext]; rfl)
  rw [List.length_replicate] at hlength
  exact Nat.lt_irrefl _ hlength

end LspCpp

import LspCpp.MarkupTree

/-! Code blocks in markdown. The fence is longer than every run of backticks in the code; between the fences the
filter on newlines, which runs over the whole document, leaves out what the code has of more than two in a row. -/

namespace LspCpp

open StringRef

/-- The first of the counts is at least the longest run of backticks together with the second, which is the last run. -/
structure BackticksCounted (text : Bytes) (counts : Nat × Nat) : Prop where
  last : ∀ k, List.replicate k 96 <:+ text ↔ k ≤ counts.2
  most : ∀ k, List.replicate k 96 <:+: text ↔ k ≤ max counts.1 counts.2

namespace BackticksCounted

theorem nil : BackticksCounted [] (0, 0) :=
  ⟨fun k => by simp, fun k => by simp⟩

/-- One round of the loop, as long as the counter does not wrap. -/
theorem step {text : Bytes} {counts : Nat × Nat} (h : BackticksCounted text counts) {c : UInt8}
    (hshort : counts.2 + 1 < 4294967296) : BackticksCounted (text ++ [c]) (countBacktick counts c) := by
  by_cases hc : c = 96
  · subst hc
    have hstep : countBacktick counts 96 = (counts.1, counts.2 + 1) := by
      rw [countBacktick, if_pos (beq_self_eq_true _), Nat.mod_eq_of_lt hshort]
    have hlast : ∀ k, List.replicate k (96 : UInt8) <:+ text ++ [96] ↔ k ≤ counts.2 + 1 := by
      intro k
      cases k with
      | zero => simp
      | succ k => simp [PrefixCopy.replicate_suffix_concat, h.last]
    rw [hstep]
    refine ⟨hlast, fun k => ?_⟩
    rw [List.infix_concat_iff, hlast, h.most]
    omega
  · have hstep : countBacktick counts c = (max counts.1 counts.2, 0) := by
      rw [countBacktick, if_neg (by simpa using hc)]
    have hlast : ∀ k, List.replicate k (96 : UInt8) <:+ text ++ [c] ↔ k ≤ 0 := by
      intro k
      cases k with
      | zero => simp
      | succ k => simp [PrefixCopy.replicate_suffix_concat, hc]
    rw [hstep]
    refine ⟨hlast, fun k => ?_⟩
    rw [List.infix_concat_iff, hlast, h.most]
    omega

theorem run {text : Bytes} (hshort : ∀ n, List.replicate n 96 <:+: text → n < 4294967295) :
    BackticksCounted text (text.foldl countBacktick (0, 0)) := by
  induction text using List.reverseRecOn with
  | nil => exact nil
  | append_singleton text c ih =>
      have hstart := ih fun n hn => hshort n (hn.trans (List.prefix_append _ _).isInfix)
      have hlast := hshort _ (((hstart.last _).mpr (Nat.le_refl _)).isInfix.trans (List.prefix_append _ _).isInfix)
      rw [List.foldl_append]
      exact hstart.step (by omega)

end BackticksCounted

/-- The fence closes the code: it is a run of three backticks or more, longer than every run of backticks in it. -/
def FenceCloses (fence code : Bytes) : Prop :=
  ∃ k, fence = List.replicate k 96 ∧ 3 ≤ k ∧ ∀ n, List.replicate n 96 <:+: code → n < k

theorem getMarkerForCodeBlock_closes_iff (code : Bytes) :
    FenceCloses (getMarkerForCodeBlock code) code ↔ ∀ n, List.replicate n 96 <:+: code → n < 4294967295 := by
  constructor
  · rintro ⟨k, hfence, _, hlong⟩ n hn
    have hlength := congrArg List.length hfence
    rw [getMarkerForCodeBlock, List.length_replicate, List.length_replicate] at hlength
    have hk := hlong n hn
    omega
  · intro hshort
    have hcounted := BackticksCounted.run hshort
    have hmost := hshort _ ((hcounted.most _).mpr (Nat.le_refl _))
    refine ⟨_, rfl, Nat.le_max_left _ _, fun n hn => ?_⟩
    have hn := (hcounted.most n).mp hn
    omega

/-- The chunks of a paragraph or a heading. -/
def Block.chunks : Block → List Chunk
  | .paragraph p => p.chunks
  | .heading _ p => p.chunks
  | _ => []

/-- The texts of a document and of its items at any depth are shorter than the counter of `renderText` reaches. -/
def Document.ShortTexts (d : Document) : Prop :=
  ∀ e, Relation.ReflTransGen Document.HasItem d e → ∀ b ∈ e.children, ∀ c ∈ b.chunks,
    c.kind = .plainText → c.contents.length < 4294967296

theorem Paragraph.markdownChunks_isSome_iff (needsSpace hasChunks : Bool) (chunks : List Chunk) :
    (Paragraph.markdownChunks needsSpace hasChunks chunks).isSome ↔
      ∀ c ∈ chunks, c.kind = .plainText → c.contents.length < 4294967296 := by
  induction chunks generalizing needsSpace hasChunks with
  | nil => simp [markdownChunks]
  | cons c rest ih =>
      rw [List.forall_mem_cons, ← ih c.spaceAfter true, markdownChunks]
      cases hkind : c.kind with
      | plainText =>
          rw [← renderText_isSome_iff c.contents (!hasChunks)]
          cases renderText c.contents (!hasChunks) <;> cases markdownChunks c.spaceAfter true rest <;> simp
      | inlineCode =>
          cases markdownChunks c.spaceAfter true rest <;> simp

theorem Block.renderMarkdown_isSome_iff (b : Block) :
    b.renderMarkdown.isSome ↔ (∀ c ∈ b.chunks, c.kind = .plainText → c.contents.length < 4294967296) ∧
      ∀ items, b = .bulletList items → ∀ d ∈ items, d.asMarkdown.isSome := by
  cases b with
  | paragraph p => simp [renderMarkdown, Paragraph.renderMarkdown, Paragraph.markdownChunks_isSome_iff, chunks]
  | heading level p =>
      simp [renderMarkdown, Heading.renderMarkdown, Paragraph.renderMarkdown, Paragraph.markdownChunks_isSome_iff,
        chunks]
  | codeBlock contents language => simp [renderMarkdown, chunks]
  | ruler => simp [renderMarkdown, chunks]
  | bulletList items => simp [renderMarkdown, itemsMarkdown_isSome_iff, chunks]

namespace Document

theorem asMarkdown_isSome_iff_forall (d : Document) :
    d.asMarkdown.isSome ↔ ∀ b ∈ d.children, b.renderMarkdown.isSome := by
  rw [asMarkdown_eq, ← List.all_eq_true]
  split <;> simp_all

theorem shortTexts_iff (d : Document) :
    d.ShortTexts ↔ (∀ b ∈ d.children, ∀ c ∈ b.chunks, c.kind = .plainText → c.contents.length < 4294967296) ∧
      ∀ item, d.HasItem item → item.ShortTexts := by
  constructor
  · intro h
    exact ⟨h d .refl, fun item hitem e he => h e (.head hitem he)⟩
  · rintro ⟨hown, hitems⟩ e he
    rcases Relation.ReflTransGen.cases_head he with rfl | ⟨item, hitem, he⟩
    · exact hown
    · exact hitems item hitem e he

/-- The rendering of a document ends exactly when its texts are short. -/
theorem asMarkdown_isSome_iff (d : Document) : d.asMarkdown.isSome ↔ d.ShortTexts := by
  induction d using Document.induction with
  | h d ih =>
      rw [asMarkdown_isSome_iff_forall, shortTexts_iff]
      simp only [Block.renderMarkdown_isSome_iff]
      constructor
      · intro h
        refine ⟨fun b hb => (h b hb).1, fun item hitem => ?_⟩
        obtain ⟨items, hlist, hmem⟩ := hitem
        exact (ih item ⟨items, hlist, hmem⟩).mp ((h _ hlist).2 items rfl item hmem)
      · rintro ⟨hown, hitems⟩ b hb
        refine ⟨hown b hb, fun items heq item hmem => ?_⟩
        have hitem : d.HasItem item := ⟨items, heq ▸ hb, hmem⟩
        exact (ih item hitem).mpr (hitems item hitem)

/-- The fence line, the code and the same fence. -/
def fencedCode (code language : Bytes) : Bytes :=
  getMarkerForCodeBlock code ++ (language ++ [10] ++ code ++ [10]) ++ getMarkerForCodeBlock code

theorem newlines_fencedCode (code language : Bytes) :
    [10, 10, 10] <:+: fencedCode code language ↔ [10, 10, 10] <:+: language ++ [10] ++ code ++ [10] :=
  PrefixCopy.infix_pad (by decide) (by decide) _ _

/-- A fenced code begins and ends with a backtick. -/
theorem fencedCode_eq (code language : Bytes) : ∃ middle, fencedCode code language = 96 :: (middle ++ [96]) := by
  obtain ⟨k, hfence⟩ : ∃ k, getMarkerForCodeBlock code = List.replicate (k + 1) 96 := by
    rw [getMarkerForCodeBlock]
    exact ⟨_, congrArg (List.replicate · 96) (Nat.succ_pred_eq_of_pos (Nat.lt_of_lt_of_le (by decide)
      (Nat.le_max_left 3 _))).symm⟩
  refine ⟨List.replicate k 96 ++ (language ++ [10] ++ code ++ [10]) ++ List.replicate k 96, ?_⟩
  rw [fencedCode, hfence]
  nth_rewrite 2 [List.replicate_succ']
  rw [List.replicate_succ]
  simp

/-- The text of a document has the fenced code in it before it is adjusted. -/
theorem fencedCode_infix {d : Document} {code language : Bytes} (h : .codeBlock code language ∈ d.children) :
    fencedCode code language <:+: ((d.children.filter fun b => !b.isRuler).map Block.markdown).flatten := by
  have hmem : CodeBlock.renderMarkdown code language ∈
      (d.children.filter fun b => !b.isRuler).map Block.markdown :=
    List.mem_map.mpr ⟨_, List.mem_filter.mpr ⟨h, rfl⟩, rfl⟩
  have hblock : fencedCode code language <:+: CodeBlock.renderMarkdown code language :=
    ⟨[], [10], by simp [fencedCode, CodeBlock.renderMarkdown]⟩
  exact hblock.trans (List.infix_of_mem_flatten hmem)

/-- A code block is rendered verbatim between fences that close it exactly when the rendering ends, there are no three
newlines in a row from the language to the newline behind the code, and no run of backticks wraps the counter. -/
theorem codeBlock_verbatim_iff {d : Document} {code language : Bytes} (h : .codeBlock code language ∈ d.children) :
    ((∃ text, d.asMarkdown = some text ∧ fencedCode code language <:+: text) ∧
        FenceCloses (getMarkerForCodeBlock code) code) ↔
      d.ShortTexts ∧ ¬ [10, 10, 10] <:+: language ++ [10] ++ code ++ [10] ∧
        ∀ n, List.replicate n 96 <:+: code → n < 4294967295 := by
  rw [getMarkerForCodeBlock_closes_iff, ← and_assoc, ← newlines_fencedCode]
  refine and_congr_left fun _ => ?_
  have hsome := d.asMarkdown_isSome_iff
  rw [asMarkdown_eq] at hsome ⊢
  split at hsome
  · have hshort : d.ShortTexts := hsome.mp rfl
    simp only [*, if_true, Option.some.injEq, exists_eq_left', true_and, renderBlocks_eq]
    constructor
    · exact fun hin hnewlines => adjustText_newlines _ (hnewlines.trans hin)
    · intro hfree
      obtain ⟨middle, hcode⟩ := fencedCode_eq code language
      have hin := fencedCode_infix h
      rw [hcode] at hfree hin ⊢
      exact adjustText_stretch (by decide) (by decide) (by decide) hfree hin
  · rename_i hall
    have hnot : ¬ d.ShortTexts := fun hshort => absurd (hsome.mpr hshort) (by simp)
    simp [hall, hnot]

theorem codeBlock_verbatim_blankLine :
    (∃ text, (Document.mk [.codeBlock (bytesOf "a;\n\nb;") (bytesOf "cpp")]).asMarkdown = some text ∧
        fencedCode (bytesOf "a;\n\nb;") (bytesOf "cpp") <:+: text) ∧
      FenceCloses (getMarkerForCodeBlock (bytesOf "a;\n\nb;")) (bytesOf "a;\n\nb;") := by
  refine (codeBlock_verbatim_iff (List.mem_singleton_self _)).mpr
    ⟨(asMarkdown_isSome_iff _).mp (by decide), by decide, fun n hn => ?_⟩
  have hlength : n ≤ (bytesOf "a;\n\nb;").length := by simpa only [List.length_replicate] using hn.length_le
  exact Nat.lt_of_le_of_lt hlength (by decide)

/-- Of two blank lines in a code block one is lost. -/
theorem blankLines_lost :
    (Document.mk [.codeBlock (bytesOf "a;\n\n\nb;") (bytesOf "cpp")]).asMarkdown =
        some (bytesOf "```cpp\na;\n\nb;\n```\n") ∧
      ¬ bytesOf "a;\n\n\nb;" <:+: bytesOf "```cpp\na;\n\nb;\n```\n" := by
  refine ⟨by decide, by decide⟩

end Document

end LspCpp

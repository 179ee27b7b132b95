import LspCpp.MarkupTree

/-! Newlines at the end of a rendered document. Every block but an empty list in plain text ends its text in a newline,
only spaces are trimmed, and so the text of a document ends in a newline as soon as it has one such block. -/

namespace LspCpp

open StringRef

theorem Paragraph.renderMarkdown_ends {p : Paragraph} {text : Bytes} (h : p.renderMarkdown = some text) :
    [10] <:+ text := by
  obtain ⟨chunks, _, rfl⟩ := Option.map_eq_some_iff.mp h
  exact ⟨chunks ++ [32, 32], by simp [bytesOf]⟩

namespace Block

theorem renderMarkdown_ends {b : Block} {text : Bytes} (h : b.renderMarkdown = some text) : [10] <:+ text := by
  cases b with
  | paragraph p => exact Paragraph.renderMarkdown_ends h
  | heading level p =>
      obtain ⟨line, hline, rfl⟩ := Option.map_eq_some_iff.mp h
      exact (Paragraph.renderMarkdown_ends hline).trans (List.suffix_append _ _)
  | codeBlock contents language =>
      obtain rfl := Option.some.inj h
      exact List.suffix_append _ _
  | ruler =>
      obtain rfl := Option.some.inj h
      exact ⟨bytesOf "\n---", rfl⟩
  | bulletList items =>
      obtain ⟨texts, _, rfl⟩ := Option.map_eq_some_iff.mp h
      exact List.suffix_append _ _

/-- In plain text an empty list is nothing at all. -/
theorem renderPlainText_ends (b : Block) :
    b = .bulletList [] ∧ b.renderPlainText = [] ∨ [10] <:+ b.renderPlainText := by
  cases b with
  | paragraph p => exact Or.inr (List.suffix_append _ _)
  | heading level p => exact Or.inr (List.suffix_append _ _)
  | codeBlock contents language =>
      exact Or.inr ⟨[10] ++ contents ++ [10], by simp [renderPlainText, CodeBlock.renderPlainText]⟩
  | ruler => exact Or.inr (List.suffix_refl _)
  | bulletList items =>
      rcases List.eq_nil_or_concat' (itemsPlainText items) with hnil | ⟨texts, text, hitems⟩
      · cases items with
        | nil => exact Or.inl ⟨rfl, rfl⟩
        | cons d rest => cases hnil
      · right
        rw [renderPlainText, hitems, BulletList.renderPlainText, List.flatMap_append, List.flatMap_singleton]
        exact (List.suffix_append _ [10]).trans (List.suffix_append _ _)

end Block

theorem flatten_ends {texts : List Bytes} (h : ∀ text ∈ texts, text = [] ∨ [10] <:+ text) :
    (∀ text ∈ texts, text = []) ∨ [10] <:+ texts.flatten := by
  induction texts with
  | nil => exact Or.inl (by simp)
  | cons text rest ih =>
      rcases ih fun t ht => h t (List.mem_cons_of_mem _ ht) with hrest | hrest
      · rcases h text (List.mem_cons_self ..) with hnil | hends
        · exact Or.inl (List.forall_mem_cons.mpr ⟨hnil, hrest⟩)
        · right
          rw [List.flatten_cons, List.flatten_eq_nil_iff.mpr hrest, List.append_nil]
          exact hends
      · right
        rw [List.flatten_cons]
        exact hrest.trans (List.suffix_append _ _)

/-- Blocks that end in a newline, or write nothing, make a text that ends in a newline unless they all write nothing. -/
theorem endWith_renderBlocks {renderFunc : Block → Bytes} {children : List Block}
    (h : ∀ b ∈ children, renderFunc b = [] ∨ [10] <:+ renderFunc b) :
    endWith [10] (renderBlocks Block.isRuler renderFunc children) = false ↔
      ∀ b ∈ children, b.isRuler = true ∨ renderFunc b = [] := by
  have htexts : ∀ text ∈ (children.filter fun b => !b.isRuler).map renderFunc, text = [] ∨ [10] <:+ text := by
    intro text htext
    obtain ⟨b, hb, rfl⟩ := List.mem_map.mp htext
    exact h b (List.mem_filter.mp hb).1
  have hquiet : (∀ text ∈ (children.filter fun b => !b.isRuler).map renderFunc, text = []) ↔
      ∀ b ∈ children, b.isRuler = true ∨ renderFunc b = [] := by
    simp only [List.forall_mem_map, List.mem_filter, Bool.not_eq_true', and_imp]
    refine forall₂_congr fun b _ => ?_
    cases b.isRuler <;> simp
  rw [renderBlocks_eq, ← hquiet]
  constructor
  · intro hends
    rcases flatten_ends htexts with hnil | hsome
    · exact hnil
    · have hsuffix := List.isSuffixOf_iff_suffix.mpr (adjustText_ends hsome)
      exact absurd (hsuffix.symm.trans hends) (by decide)
  · intro hnil
    rw [List.flatten_eq_nil_iff.mpr hnil]
    rfl

namespace Document

/-- The document has no block that is rendered. -/
def OnlyRulers (d : Document) : Prop := ∀ b ∈ d.children, b.isRuler = true

theorem asMarkdown_trimmed_iff (d : Document) :
    (∃ text, d.asMarkdown = some text ∧ endWith [10] text = false) ↔ d.OnlyRulers := by
  rw [asMarkdown_eq]
  split
  · rename_i hall
    rw [List.all_eq_true] at hall
    have hends : ∀ b ∈ d.children, [10] <:+ b.markdown := by
      intro b hb
      obtain ⟨text, htext⟩ := Option.isSome_iff_exists.mp (hall b hb)
      rw [Block.markdown, htext]
      exact Block.renderMarkdown_ends htext
    have hne : ∀ b ∈ d.children, b.markdown ≠ [] := fun b hb hnil =>
      absurd (List.suffix_nil.mp (hnil ▸ hends b hb)) (by decide)
    simp only [Option.some.injEq, exists_eq_left']
    rw [endWith_renderBlocks fun b hb => Or.inr (hends b hb)]
    exact forall₂_congr fun b hb => or_iff_left (hne b hb)
  · rename_i hall
    refine iff_of_false (by simp) fun honly => hall (List.all_eq_true.mpr fun b hb => ?_)
    have hb := honly b hb
    cases b with
    | ruler => rfl
    | _ => cases hb

theorem asPlainText_trimmed_iff (d : Document) :
    endWith [10] d.asPlainText = false ↔ ∀ b ∈ d.children, b.isRuler = true ∨ b = .bulletList [] := by
  rw [asPlainText_eq, endWith_renderBlocks fun b _ => (b.renderPlainText_ends).imp_left And.right]
  refine forall₂_congr fun b _ => or_congr_right ⟨fun hnil => ?_, fun heq => ?_⟩
  · rcases b.renderPlainText_ends with ⟨heq, _⟩ | hends
    · exact heq
    · exact absurd (List.suffix_nil.mp (hnil ▸ hends)) (by decide)
  · rw [heq]
    rfl

/-- The assertion of `indentLines` holds when the document is rendered as an item of a list. -/
def Indentable (d : Document) : Prop :=
  (∃ text, d.asMarkdown = some text ∧ indentLinesAsserts text = true) ∧ indentLinesAsserts d.asPlainText = true

theorem indentable_iff (d : Document) : d.Indentable ↔ d.OnlyRulers := by
  simp only [Indentable, indentLinesAsserts, Bool.not_eq_true', asMarkdown_trimmed_iff, asPlainText_trimmed_iff]
  exact and_iff_left_of_imp fun honly b hb => Or.inl (honly b hb)

/-- Neither rendering ends in a newline, and the items of the document at any depth can be indented. -/
structure Trimmed (d : Document) : Prop where
  markdown : ∃ text, d.asMarkdown = some text ∧ endWith [10] text = false
  plainText : endWith [10] d.asPlainText = false
  items : ∀ item, Relation.TransGen HasItem d item → item.Indentable

theorem OnlyRulers.no_item {d item : Document} (h : d.OnlyRulers) : ¬ Relation.TransGen HasItem d item := by
  intro hitem
  obtain ⟨e, ⟨items, hlist, _⟩, _⟩ := Relation.TransGen.head'_iff.mp hitem
  cases h _ hlist

/-- A document carries no newline at its end exactly when nothing but rulers is in it, as plain text when nothing but
rulers and empty lists is; its items can be indented exactly when each of them is such a document. -/
theorem trimmed_iff (d : Document) :
    (d.Trimmed ↔ d.OnlyRulers) ∧
      (endWith [10] d.asPlainText = false ↔ ∀ b ∈ d.children, b.isRuler = true ∨ b = .bulletList []) ∧
      ((∀ item, Relation.TransGen HasItem d item → item.Indentable) ↔
        ∀ item, Relation.TransGen HasItem d item → item.OnlyRulers) := by
  refine ⟨⟨fun h => (asMarkdown_trimmed_iff d).mp h.markdown, fun honly => ?_⟩, asPlainText_trimmed_iff d,
    forall₂_congr fun item _ => item.indentable_iff⟩
  exact ⟨(asMarkdown_trimmed_iff d).mpr honly, (asPlainText_trimmed_iff d).mpr fun b hb => Or.inl (honly b hb),
    fun item hitem => absurd hitem honly.no_item⟩

/-- A list with one word as its item. -/
def oneItem : Document := ⟨[.bulletList [⟨[.paragraph (({} : Paragraph).appendText (bytesOf "item"))]⟩]]⟩

/-- Both renderings end in a newline, and so do those of the item that is indented. -/
theorem oneItem_untrimmed :
    oneItem.asMarkdown = some (bytesOf "- item  \n  \n\n") ∧ oneItem.asPlainText = bytesOf "- item\n  \n" ∧
      ∃ item, oneItem.HasItem item ∧ item.asMarkdown = some (bytesOf "item  \n") ∧
        indentLinesAsserts (bytesOf "item  \n") = false ∧ ¬ oneItem.Trimmed := by
  refine ⟨by decide, by decide, _, ⟨_, List.mem_singleton_self _, List.mem_singleton_self _⟩, by decide, by decide, ?_⟩
  rintro ⟨⟨text, htext, hends⟩, _, _⟩
  have hmarkdown : oneItem.asMarkdown = some (bytesOf "- item  \n  \n\n") := by decide
  rw [hmarkdown] at htext
  obtain rfl := Option.some.inj htext
  exact absurd hends (by decide)

end Document

end LspCpp

import LspCpp.MarkupTree

/-! Rulers between the blocks of a document. The pass that is to trim them at both ends removes them all, so that the
flag of the loop never sees one, and no ruler is rendered. -/

namespace LspCpp

namespace Block

def nonRulers (children : List Block) : List Block := children.filter fun b => !b.isRuler

/-- The number of rulers that stand behind exactly `k` other blocks. -/
def gap : (children : List Block) → (k : Nat) → Nat
  | [], _ => 0
  | b :: rest, 0 => if b.isRuler then gap rest 0 + 1 else 0
  | b :: rest, k + 1 => if b.isRuler then gap rest (k + 1) else gap rest k

/-- The blocks that are written are the given ones with one ruler in each gap between two of them that has any. -/
def RulersSeparate (children written : List Block) : Prop :=
  nonRulers written = nonRulers children ∧
    ∀ k, gap written k = if 0 < k ∧ k < (nonRulers children).length then min 1 (gap children k) else 0

theorem gap_of_no_ruler {children : List Block} (h : ∀ b ∈ children, b.isRuler = false) (k : Nat) :
    gap children k = 0 := by
  induction children generalizing k with
  | nil => rw [gap]
  | cons b rest ih =>
      have hb := h b (List.mem_cons_self ..)
      cases k with
      | zero => simp [gap, hb]
      | succ k => simpa [gap, hb] using ih (fun c hc => h c (List.mem_cons_of_mem _ hc)) k

example {b : Block} (h : b.isRuler = true) : gap [b] 0 = 1 := by
  rw [gap, if_pos h]
  rfl

/-- The rulers in front of a block are those of its gap. -/
theorem gap_rulers {rulers rest : List Block} (hrulers : ∀ r ∈ rulers, r.isRuler = true) {b : Block}
    (hb : b.isRuler = false) : gap (rulers ++ b :: rest) 0 = rulers.length := by
  induction rulers with
  | nil => simp [gap, hb]
  | cons r rulers ih =>
      have hr := hrulers r (List.mem_cons_self ..)
      simp [gap, hr, ih fun s hs => hrulers s (List.mem_cons_of_mem _ hs)]

/-- The gap behind the blocks of `before`. -/
theorem gap_append (before rest : List Block) (k : Nat) :
    gap (before ++ rest) ((nonRulers before).length + (k + 1)) = gap rest (k + 1) := by
  induction before with
  | nil => simp [nonRulers]
  | cons b before ih =>
      rw [nonRulers] at ih
      rw [nonRulers, List.cons_append, List.filter_cons]
      cases hb : b.isRuler with
      | true =>
          simp only [Bool.not_true, Bool.false_eq_true, if_false]
          rw [← Nat.add_assoc, gap, hb, if_pos rfl, Nat.add_assoc]
          exact ih
      | false =>
          have hlength : (b :: before.filter fun c => !c.isRuler).length + (k + 1) =
              (before.filter fun c => !c.isRuler).length + (k + 1) + 1 := by
            rw [List.length_cons]
            omega
          simp only [Bool.not_false, if_true]
          rw [hlength, gap, hb, if_neg (by decide)]
          exact ih

theorem gap_between {before rulers after : List Block} {a b : Block} (ha : a.isRuler = false) (hb : b.isRuler = false)
    (hrulers : ∀ r ∈ rulers, r.isRuler = true) :
    gap (before ++ a :: (rulers ++ b :: after)) ((nonRulers before).length + 1) = rulers.length := by
  rw [gap_append before _ 0, gap, ha]
  exact gap_rulers hrulers hb

theorem renderedBlocks_not_ruler {children : List Block} {b : Block} (hb : b ∈ renderedBlocks isRuler children) :
    b.isRuler = false := by
  rw [renderedBlocks_eq_filter] at hb
  simpa using (List.mem_filter.mp hb).2

/-- A ruler between two blocks is not written. -/
theorem not_rulersSeparate {before rulers after : List Block} {a b : Block} (ha : a.isRuler = false)
    (hb : b.isRuler = false) (hrulers : ∀ r ∈ rulers, r.isRuler = true) (hne : rulers ≠ []) :
    ¬ RulersSeparate (before ++ a :: (rulers ++ b :: after))
      (renderedBlocks isRuler (before ++ a :: (rulers ++ b :: after))) := by
  rintro ⟨_, hgaps⟩
  have hgap := hgaps ((nonRulers before).length + 1)
  have hblocks : (nonRulers before).length + 1 < (nonRulers (before ++ a :: (rulers ++ b :: after))).length := by
    simp only [nonRulers, List.filter_append, List.filter_cons, ha, hb, Bool.not_false, if_true, List.length_append,
      List.length_cons]
    omega
  have hpos : 0 < rulers.length := List.length_pos_iff.mpr hne
  rw [gap_of_no_ruler fun c hc => renderedBlocks_not_ruler hc, if_pos ⟨Nat.succ_pos _, hblocks⟩,
    gap_between ha hb hrulers] at hgap
  omega

/-- `renderBlocks` writes the blocks without their rulers, which is what it should exactly when no two of them are
separated. -/
theorem renderBlocks_separates_iff (children : List Block) :
    ((Document.mk children).asMarkdown =
        if children.all fun b => b.renderMarkdown.isSome then
          some (adjustText ((renderedBlocks isRuler children).flatMap markdown))
        else none) ∧
      (RulersSeparate children (renderedBlocks isRuler children) ↔
        ∀ k, 0 < k → k < (nonRulers children).length → gap children k = 0) := by
  refine ⟨Document.asMarkdown_eq ⟨children⟩, ?_⟩
  have hnone := gap_of_no_ruler fun b (hb : b ∈ renderedBlocks isRuler children) => renderedBlocks_not_ruler hb
  have hsame : nonRulers (renderedBlocks isRuler children) = nonRulers children := by
    rw [renderedBlocks_eq_filter, nonRulers, List.filter_filter, nonRulers]
    simp
  constructor
  · rintro ⟨_, hgaps⟩ k hpos hlt
    have hk := hgaps k
    rw [hnone k, if_pos ⟨hpos, hlt⟩] at hk
    omega
  · intro hadjacent
    refine ⟨hsame, fun k => ?_⟩
    rw [hnone k]
    split
    · rename_i hk
      rw [hadjacent k hk.1 hk.2]
      rfl
    · rfl

/-- A ruler between two paragraphs. -/
def ruledParagraphs : List Block :=
  [.paragraph (({} : Paragraph).appendText (bytesOf "a")), .ruler,
    .paragraph (({} : Paragraph).appendText (bytesOf "b"))]

theorem ruler_between_lost :
    (Document.mk ruledParagraphs).asMarkdown = some (bytesOf "a  \nb  \n") ∧
      ¬ RulersSeparate ruledParagraphs (renderedBlocks isRuler ruledParagraphs) := by
  have hruler : ∀ r ∈ [ruler], r.isRuler = true := fun r hr => List.mem_singleton.mp hr ▸ rfl
  exact ⟨by decide, @not_rulersSeparate [] [ruler] [] _ _ rfl rfl hruler (List.cons_ne_nil _ _)⟩

end Block

end LspCpp

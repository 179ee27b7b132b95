import Mathlib.Data.List.Infix

/-! Copying a list under a predicate that reads the prefix up to the element, and what such a copy makes of the runs of
one element when a run may have at most `n` members. -/

namespace PrefixCopy

variable {α : Type*}

/-- The members of `text` whose prefix satisfies `keep`; `before` stands in front of the text. -/
def copyIf (keep : List α → Bool) : (before text : List α) → List α
  | _, [] => []
  | before, c :: rest =>
      if keep (before ++ [c]) then c :: copyIf keep (before ++ [c]) rest else copyIf keep (before ++ [c]) rest

theorem copyIf_append (keep : List α → Bool) (before left right : List α) :
    copyIf keep before (left ++ right) = copyIf keep before left ++ copyIf keep (before ++ left) right := by
  induction left generalizing before with
  | nil => rw [List.nil_append, List.append_nil, copyIf, List.nil_append]
  | cons c left ih =>
      simp only [List.cons_append, copyIf, ih, List.append_assoc, List.nil_append]
      split <;> rfl

/-- Nothing is left out of a text all of whose prefixes are kept. -/
theorem copyIf_eq_self {keep : List α → Bool} {before text : List α}
    (hkeep : ∀ start, start <+: text → start ≠ [] → keep (before ++ start) = true) :
    copyIf keep before text = text := by
  induction text generalizing before with
  | nil => rfl
  | cons c rest ih =>
      have hc : keep (before ++ [c]) = true := hkeep [c] ⟨rest, rfl⟩ (List.cons_ne_nil _ _)
      have hrest : copyIf keep (before ++ [c]) rest = rest := by
        apply ih
        intro start hstart _
        have hlong : c :: start <+: c :: rest := List.cons_prefix_cons.mpr ⟨rfl, hstart⟩
        have hkept := hkeep (c :: start) hlong (List.cons_ne_nil _ _)
        rwa [List.append_assoc, List.singleton_append]
      rw [copyIf, if_pos hc, hrest]

/-- A word without `x` that ends a text stands behind the last `x` of it. -/
theorem suffix_of_not_mem {x : α} {word before rest : List α} (hx : x ∉ word)
    (h : word <:+ before ++ x :: rest) : word <:+ rest := by
  rcases List.suffix_or_suffix_of_suffix h ⟨before, rfl⟩ with hword | hword
  · rcases List.suffix_cons_iff.mp hword with heq | hrest
    · exact absurd (heq ▸ List.mem_cons_self ..) hx
    · exact hrest
  · exact absurd (hword.subset (List.mem_cons_self ..)) hx

/-- Where a word without `x` stands in a text, it stands in the text without a first or last `x`. -/
theorem infix_cons_of_not_mem {x : α} {word text : List α} (hx : x ∉ word) (hne : word ≠ []) :
    word <:+: x :: text ↔ word <:+: text := by
  rw [List.infix_cons_iff]
  refine or_iff_right_of_imp fun hprefix => ?_
  rcases List.prefix_cons_iff.mp hprefix with hnil | ⟨t, rfl, _⟩
  · exact absurd hnil hne
  · exact absurd (List.mem_cons_self ..) hx

theorem infix_concat_of_not_mem {x : α} {word text : List α} (hx : x ∉ word) (hne : word ≠ []) :
    word <:+: text ++ [x] ↔ word <:+: text := by
  rw [List.infix_concat_iff]
  refine or_iff_right_of_imp fun hsuffix => ?_
  rcases List.suffix_concat_iff.mp hsuffix with hnil | ⟨t, rfl, _⟩
  · exact absurd hnil hne
  · exact absurd (List.mem_append_right _ (List.mem_singleton_self _)) hx

/-- A word without `x` stands in a text with runs of `x` around it exactly when it stands in the text. -/
theorem infix_pad {x : α} {word text : List α} (hx : x ∉ word) (hne : word ≠ []) (left right : Nat) :
    word <:+: List.replicate left x ++ text ++ List.replicate right x ↔ word <:+: text := by
  have hright : word <:+: text ++ List.replicate right x ↔ word <:+: text := by
    induction right with
    | zero => rw [List.replicate_zero, List.append_nil]
    | succ right ih => rw [List.replicate_succ', ← List.append_assoc, infix_concat_of_not_mem hx hne, ih]
  rw [List.append_assoc, ← hright]
  generalize text ++ List.replicate right x = tail
  induction left with
  | zero => rw [List.replicate_zero, List.nil_append]
  | succ left ih =>
      rw [List.replicate_succ, List.cons_append]
      exact (infix_cons_of_not_mem hx hne).trans ih

/-- Two texts end in the same run of `a`, as far as runs up to `n` show. -/
def SameRun (a : α) (n : Nat) (before copied : List α) : Prop :=
  ∀ k ≤ n, List.replicate k a <:+ before ↔ List.replicate k a <:+ copied

variable {a : α} {n : Nat}

theorem replicate_suffix_concat {k : Nat} {c : α} {text : List α} :
    List.replicate (k + 1) a <:+ text ++ [c] ↔ c = a ∧ List.replicate k a <:+ text := by
  rw [List.suffix_concat_iff, List.replicate_succ']
  constructor
  · rintro (hnil | ⟨t, heq, ht⟩)
    · exact absurd hnil (by simp)
    · obtain ⟨rfl, hac⟩ := List.append_inj' heq rfl
      exact ⟨(List.singleton_inj.mp hac).symm, ht⟩
  · rintro ⟨rfl, h⟩
    exact Or.inr ⟨_, rfl, h⟩

namespace SameRun

variable {before copied : List α}

/-- A member that is copied prolongs both runs, or ends both. -/
theorem kept (h : SameRun a n before copied) (c : α) : SameRun a n (before ++ [c]) (copied ++ [c]) := by
  intro k hk
  cases k with
  | zero => simp
  | succ k => rw [replicate_suffix_concat, replicate_suffix_concat, h k (Nat.le_of_succ_le hk)]

/-- A member that is left out prolongs a run that was full. -/
theorem dropped (h : SameRun a n before copied) {c : α} (hfull : List.replicate (n + 1) a <:+ before ++ [c]) :
    SameRun a n (before ++ [c]) copied := by
  obtain ⟨rfl, hbefore⟩ := replicate_suffix_concat.mp hfull
  intro k hk
  have hshort : List.replicate k c <:+ List.replicate n c :=
    ⟨List.replicate (n - k) c, by rw [List.replicate_append_replicate]; congr 1; omega⟩
  have hshort' : List.replicate k c <:+ List.replicate (n + 1) c :=
    hshort.trans ⟨[c], rfl⟩
  exact iff_of_true (hshort'.trans hfull) (hshort.trans ((h n (Nat.le_refl n)).mp hbefore))

end SameRun

variable [DecidableEq α]

/-- The text does not end in more than `n` members `a`. -/
def atMost (a : α) (n : Nat) (text : List α) : Bool := !(List.replicate (n + 1) a).isSuffixOf text

theorem atMost_eq_true {text : List α} : atMost a n text = true ↔ ¬ List.replicate (n + 1) a <:+ text := by
  rw [atMost, Bool.not_eq_true', ← Bool.not_eq_true, List.isSuffixOf_iff_suffix]

/-- What is copied has no longer run than `n`, and ends in the run of the original cut down to `n`. -/
theorem SameRun.copy {before copied : List α} (h : SameRun a n before copied)
    (hfree : ¬ List.replicate (n + 1) a <:+: copied) (text : List α) :
    SameRun a n (before ++ text) (copied ++ copyIf (atMost a n) before text) ∧
      ¬ List.replicate (n + 1) a <:+: copied ++ copyIf (atMost a n) before text := by
  induction text generalizing before copied with
  | nil => simpa [copyIf] using ⟨h, hfree⟩
  | cons c rest ih =>
      have hsplit : before ++ c :: rest = before ++ [c] ++ rest := by simp
      rw [copyIf, hsplit]
      by_cases hfull : List.replicate (n + 1) a <:+ before ++ [c]
      · rw [if_neg (by rwa [atMost_eq_true, not_not])]
        exact ih (h.dropped hfull) hfree
      · have hcopied : ¬ List.replicate (n + 1) a <:+ copied ++ [c] := by
          intro hend
          obtain ⟨rfl, hrun⟩ := replicate_suffix_concat.mp hend
          exact hfull (replicate_suffix_concat.mpr ⟨rfl, (h n (Nat.le_refl n)).mpr hrun⟩)
        have hfree' : ¬ List.replicate (n + 1) a <:+: copied ++ [c] := by
          rw [List.infix_concat_iff]
          exact not_or.mpr ⟨hcopied, hfree⟩
        have hstep := ih (h.kept c) hfree'
        rw [if_pos (atMost_eq_true.mpr hfull)]
        simpa only [List.append_assoc, List.singleton_append] using hstep

/-- The copy of a whole text ends in its run cut down to `n`, and has no longer run. -/
theorem sameRun_copyIf (a : α) (n : Nat) (text : List α) :
    SameRun a n text (copyIf (atMost a n) [] text) ∧
      ¬ List.replicate (n + 1) a <:+: copyIf (atMost a n) [] text := by
  have hnone : ¬ List.replicate (n + 1) a <:+: [] := by simp [List.replicate_succ]
  have hnil : SameRun a n [] [] := fun _ _ => Iff.rfl
  exact hnil.copy hnone text

/-- A copied text ends in `a` exactly when the original does. -/
theorem copyIf_ends_iff (hn : 0 < n) (text : List α) : [a] <:+ copyIf (atMost a n) [] text ↔ [a] <:+ text :=
  ((sameRun_copyIf a n text).1 1 hn).symm

/-- A stretch that begins with another member and has no longer run is copied whole, wherever it stands. -/
theorem copyIf_stretch {x : α} (hx : x ≠ a) {rest : List α} (hfree : ¬ List.replicate (n + 1) a <:+: x :: rest)
    (before : List α) : copyIf (atMost a n) before (x :: rest) = x :: rest := by
  apply copyIf_eq_self
  intro start hstart hne
  obtain ⟨s, rfl⟩ : ∃ s, start = x :: s := by
    rcases List.prefix_cons_iff.mp hstart with hnil | ⟨s, rfl, _⟩
    · exact absurd hnil hne
    · exact ⟨s, rfl⟩
  apply atMost_eq_true.mpr
  intro hrun
  have hmem : x ∉ List.replicate (n + 1) a := fun hmem => hx (List.eq_of_mem_replicate hmem)
  have hs : List.replicate (n + 1) a <:+ s := suffix_of_not_mem hmem hrun
  exact hfree ((hs.isInfix.trans ⟨[x], [], by simp⟩).trans hstart.isInfix)

end PrefixCopy

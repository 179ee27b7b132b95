import Mathlib.Data.List.Sort

/-! Sorting by a key where the order of elements with equal keys is left open: what the outcomes have in common, and
which elements may come to stand at a position. -/

/-- A sorting function that need not be stable. -/
structure StdSort (α : Type*) (key : α → Nat) where
  sort : List α → List α
  perm : ∀ l, (sort l).Perm l
  sorted : ∀ l, (sort l).Pairwise fun a b => key a ≤ key b

namespace StdSort

variable {α : Type*} {key : α → Nat}

/-- Sorting by insertion. -/
def insertion (key : α → Nat) : StdSort α key where
  sort := List.insertionSort fun a b => key a ≤ key b
  perm := List.perm_insertionSort _
  sorted := by
    have : Std.Total (α := α) fun a b => key a ≤ key b := ⟨fun a b => Nat.le_total _ _⟩
    have : IsTrans α fun a b => key a ≤ key b := ⟨fun _ _ _ => Nat.le_trans⟩
    exact List.pairwise_insertionSort _

variable (S : StdSort α key)

theorem length_sort (l : List α) : (S.sort l).length = l.length := (S.perm l).length_eq

/-- Where the keys are distinct there is one outcome. -/
theorem sort_eq {l l' : List α} (hperm : l'.Perm l) (hl : l.Pairwise fun a b => key a < key b) : S.sort l' = l := by
  have hnodup : (l.map key).Nodup := List.pairwise_map.mpr (hl.imp Nat.ne_of_lt)
  have hperm' := (S.perm l').trans hperm
  refine hperm'.eq_of_pairwise (fun a b ha hb hab hba => ?_) (S.sorted l') (hl.imp Nat.le_of_lt)
  exact List.inj_on_of_nodup_map hnodup (hperm'.mem_iff.mp ha) hb (Nat.le_antisymm hab hba)

/-- Sorting may put `x` at the position `i`: at most `i` elements are below it, and more than that are not above. -/
structure MayStandAt (key : α → Nat) (l : List α) (i : Nat) (x : α) : Prop where
  mem : x ∈ l
  below : (l.countP fun y => key y < key x) ≤ i
  not_above : i < l.countP fun y => key y ≤ key x

/-- Only such an element is put there. -/
theorem mayStandAt_of_getElem? {l : List α} {i : Nat} {x : α} (h : (S.sort l)[i]? = some x) :
    MayStandAt key l i x := by
  obtain ⟨hi, hx⟩ := List.getElem?_eq_some_iff.mp h
  have hsplit : S.sort l = (S.sort l).take i ++ x :: (S.sort l).drop (i + 1) := by
    rw [← hx, ← List.drop_eq_getElem_cons hi, List.take_append_drop]
  have hsorted := S.sorted l
  rw [hsplit, List.pairwise_append, List.pairwise_cons] at hsorted
  obtain ⟨-, ⟨hafter, -⟩, hbefore⟩ := hsorted
  have hlength : ((S.sort l).take i).length = i := by
    rw [List.length_take]
    omega
  refine ⟨(S.perm l).mem_iff.mp (List.mem_of_getElem? h), ?_, ?_⟩
  · have hnone : ((S.sort l).drop (i + 1)).countP (fun y => key y < key x) = 0 := by
      refine List.countP_eq_zero.mpr fun y hy => ?_
      have := hafter y hy
      simp only [decide_eq_true_eq]
      omega
    have hle := List.countP_le_length (p := fun y => decide (key y < key x)) (l := (S.sort l).take i)
    rw [← (S.perm l).countP_eq, hsplit, List.countP_append, List.countP_cons_of_neg (by simp), hnone]
    omega
  · have hall : ((S.sort l).take i).countP (fun y => key y ≤ key x) = i := by
      rw [List.countP_eq_length.mpr fun y hy => ?_, hlength]
      simpa using hbefore y hy x (List.mem_cons_self ..)
    rw [← (S.perm l).countP_eq, hsplit, List.countP_append, List.countP_cons_of_pos (by simp), hall]
    omega

/-- A sorting function with another outcome for one list. -/
theorem exists_sort_eq {l outcome : List α} (hperm : outcome.Perm l)
    (hsorted : outcome.Pairwise fun a b => key a ≤ key b) : ∃ S : StdSort α key, S.sort l = outcome := by
  classical
  refine ⟨⟨fun l' => if l' = l then outcome else (insertion key).sort l', fun l' => ?_, fun l' => ?_⟩, if_pos rfl⟩
  · split_ifs with heq
    · exact heq ▸ hperm
    · exact (insertion key).perm l'
  · split_ifs
    · exact hsorted
    · exact (insertion key).sorted l'

/-- A list divides into the elements below `x`, those with the same key, and those above. -/
theorem perm_three (key : α → Nat) (l : List α) (x : α) :
    ((l.filter fun y => key y < key x) ++ ((l.filter fun y => key y = key x) ++ l.filter fun y => key x < key y)).Perm
      l := by
  induction l with
  | nil => exact .refl _
  | cons a l ih =>
      rcases Nat.lt_trichotomy (key a) (key x) with h | h | h
      · have hne : key a ≠ key x := Nat.ne_of_lt h
        have hle : ¬key x < key a := Nat.lt_asymm h
        simp only [List.filter_cons, h, hne, hle, decide_true, decide_false, if_true, Bool.false_eq_true, if_false,
          List.cons_append]
        exact ih.cons a
      · simp only [List.filter_cons, h, Nat.lt_irrefl, decide_true, decide_false, if_true, Bool.false_eq_true,
          if_false, List.cons_append]
        exact List.perm_middle.trans (ih.cons a)
      · have hne : key a ≠ key x := Nat.ne_of_gt h
        have hle : ¬key a < key x := Nat.lt_asymm h
        simp only [List.filter_cons, h, hne, hle, decide_true, decide_false, if_true, Bool.false_eq_true, if_false]
        refine .trans ?_ (ih.cons a)
        rw [← List.append_assoc, ← List.append_assoc]
        exact List.perm_middle

theorem countP_le (l : List α) (x : α) : (l.countP fun y => key y ≤ key x) =
    (l.countP fun y => key y < key x) + (l.filter fun y => key y = key x).length := by
  rw [← List.countP_eq_length_filter]
  induction l with
  | nil => rfl
  | cons a l ih =>
      simp only [List.countP_cons, ih, decide_eq_true_eq]
      split_ifs <;> omega

/-- **Each such element is put there** by some sorting function. -/
theorem exists_sort_of_mayStandAt {l : List α} {i : Nat} {x : α} (h : MayStandAt key l i x) :
    ∃ S : StdSort α key, (S.sort l)[i]? = some x := by
  have hmem : x ∈ l.filter fun y => key y = key x := List.mem_filter.mpr ⟨h.mem, by simp⟩
  obtain ⟨left, right, hsame⟩ := List.append_of_mem hmem
  have hperm := perm_three key l x
  have hbelow := h.below
  have habove := h.not_above
  rw [countP_le, hsame] at habove
  rw [List.countP_eq_length_filter] at hbelow habove
  let low := (insertion key).sort (l.filter fun y => key y < key x)
  let high := (insertion key).sort (l.filter fun y => key x < key y)
  let same := left ++ right
  have hlow : ∀ y ∈ low, key y < key x := fun y hy => by
    simpa using (List.mem_filter.mp (((insertion key).perm _).mem_iff.mp hy)).2
  have hhigh : ∀ y ∈ high, key x < key y := fun y hy => by
    simpa using (List.mem_filter.mp (((insertion key).perm _).mem_iff.mp hy)).2
  have hlength : low.length = (l.filter fun y => key y < key x).length := (insertion key).length_sort _
  have hmiddle : ∀ k, (same.take k ++ x :: same.drop k).Perm (l.filter fun y => key y = key x) := by
    intro k
    rw [hsame]
    refine List.perm_middle.trans ?_
    rw [List.take_append_drop]
    exact List.perm_middle.symm
  have hkeys : ∀ k, ∀ y ∈ same.take k ++ x :: same.drop k, key y = key x := fun k y hy => by
    simpa using (List.mem_filter.mp ((hmiddle k).mem_iff.mp hy)).2
  have hj : i - low.length ≤ same.length := by
    simp only [List.length_append, List.length_cons] at habove
    simp only [same, List.length_append]
    omega
  generalize hk : i - low.length = k at hj
  have hsorted : (low ++ ((same.take k ++ x :: same.drop k) ++ high)).Pairwise fun a b => key a ≤ key b := by
    refine List.pairwise_append.mpr ⟨(insertion key).sorted _, List.pairwise_append.mpr ⟨?_, ?_, ?_⟩, ?_⟩
    · refine List.pairwise_of_forall_mem_list fun a ha b hb => ?_
      rw [hkeys k a ha, hkeys k b hb]
    · exact (insertion key).sorted _
    · intro a ha b hb
      rw [hkeys k a ha]
      exact Nat.le_of_lt (hhigh b hb)
    · intro a ha b hb
      rcases List.mem_append.mp hb with hb | hb
      · rw [hkeys k b hb]
        exact Nat.le_of_lt (hlow a ha)
      · exact Nat.le_of_lt ((hlow a ha).trans (hhigh b hb))
  have houtcome : (low ++ ((same.take k ++ x :: same.drop k) ++ high)).Perm l :=
    calc (low ++ ((same.take k ++ x :: same.drop k) ++ high)).Perm _ :=
        ((insertion key).perm _).append ((hmiddle k).append ((insertion key).perm _))
      List.Perm _ l := hperm
  obtain ⟨S, hS⟩ := exists_sort_eq houtcome hsorted
  refine ⟨S, ?_⟩
  have htake : (same.take k).length = k := List.length_take_of_le hj
  have hi : i = low.length + k := by omega
  rw [hS, List.getElem?_append_right (by omega), List.getElem?_append_left (by simp; omega),
    List.getElem?_append_right (by omega), htake, hi]
  simp

end StdSort

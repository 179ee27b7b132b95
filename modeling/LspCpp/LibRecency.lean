import Mathlib.Data.List.Nodup

/-! The order of last use: of some things in use, the one whose last use is the oldest stands first. The uses are
logged with the newest one first, so that an older one has a greater index. -/

namespace Recency

variable {α : Type*} [DecidableEq α]

/-- The order after `a` was used. -/
def use (a : α) (order : List α) : List α := order.erase a ++ [a]

/-- An order agrees with a log of the uses. -/
structure Agrees (uses order : List α) : Prop where
  used : ∀ a ∈ order, a ∈ uses
  ordered : order.Pairwise fun a b => uses.idxOf b < uses.idxOf a

namespace Agrees

variable {uses order : List α}

theorem nil (uses : List α) : Agrees uses [] := ⟨by simp, .nil⟩

theorem nodup (h : Agrees uses order) : order.Nodup := by
  refine List.Pairwise.imp ?_ h.ordered
  intro a b hlt heq
  rw [heq] at hlt
  exact Nat.lt_irrefl _ hlt

/-- Things that go out of use leave the order of the others as it is. -/
theorem sublist {order' : List α} (h : Agrees uses order) (hsub : order'.Sublist order) : Agrees uses order' :=
  ⟨fun a ha => h.used a (hsub.subset ha), h.ordered.sublist hsub⟩

theorem idxOf_cons_of_ne {a b : α} (hne : b ≠ a) (uses : List α) :
    (a :: uses).idxOf b = uses.idxOf b + 1 := by
  rw [List.idxOf_cons, beq_eq_false_iff_ne.mpr (Ne.symm hne)]
  rfl

/-- What is used goes to the end. -/
theorem use (h : Agrees uses order) (a : α) : Agrees (a :: uses) (use a order) := by
  have hne : ∀ b ∈ order.erase a, b ≠ a := fun b hb heq => h.nodup.not_mem_erase (heq ▸ hb)
  refine ⟨fun b hb => ?_, List.pairwise_append.mpr ⟨?_, List.pairwise_singleton _ _, fun b hb c hc => ?_⟩⟩
  · rcases List.mem_append.mp hb with hb | hb
    · exact List.mem_cons_of_mem _ (h.used b (List.mem_of_mem_erase hb))
    · rw [List.mem_singleton.mp hb]
      exact List.mem_cons_self ..
  · refine (h.ordered.sublist List.erase_sublist).imp_of_mem fun {b c} hb hc hlt => ?_
    rw [idxOf_cons_of_ne (hne b hb), idxOf_cons_of_ne (hne c hc)]
    omega
  · rw [List.mem_singleton.mp hc, List.idxOf_cons_self, idxOf_cons_of_ne (hne b hb)]
    exact Nat.succ_pos _

/-- The first one is that whose last use is the oldest. -/
theorem head_oldest {a : α} (h : Agrees uses (a :: order)) {b : α} (hb : b ∈ order) : uses.idxOf b < uses.idxOf a :=
  (List.pairwise_cons.mp h.ordered).1 b hb

end Agrees

end Recency

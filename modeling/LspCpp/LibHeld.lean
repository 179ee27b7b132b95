import Mathlib.Data.List.Perm.Basic

/-! Parties in a list each of which holds some resources: what one of them takes, gives back or passes on, in terms of
what all of them hold together. -/

namespace Held

variable {α ρ : Type*} {parties : List α} {p : Nat} {a : α}

/-- One party is set apart; the others hold what they hold. -/
theorem exists_others (held : α → List ρ) (h : parties[p]? = some a) :
    ∃ others, (parties.flatMap held).Perm (held a ++ others) ∧
      ∀ b, ((parties.set p b).flatMap held).Perm (held b ++ others) := by
  obtain ⟨hp, rfl⟩ := List.getElem?_eq_some_iff.mp h
  refine ⟨(parties.eraseIdx p).flatMap held, ?_, fun b => ?_⟩
  · have hperm := (List.getElem_cons_eraseIdx_perm hp).symm.flatMap_right held
    rwa [List.flatMap_cons] at hperm
  · have hperm := (List.set_perm_cons_eraseIdx hp b).flatMap_right held
    rwa [List.flatMap_cons] at hperm

variable (held : α → List ρ) {inUse inUse' : List ρ}

/-- The resources in use are those that the parties hold. -/
def Accounts (parties : List α) (inUse : List ρ) : Prop := inUse.Perm (parties.flatMap held)

variable {held} (h : Accounts held parties inUse) (ha : parties[p]? = some a) {b : α}
include h ha

theorem Accounts.keep (hheld : (held a).Perm (held b)) : Accounts held (parties.set p b) inUse := by
  obtain ⟨others, hbefore, hafter⟩ := exists_others held ha
  calc inUse.Perm (parties.flatMap held) := h
    List.Perm _ (held a ++ others) := hbefore
    List.Perm _ (held b ++ others) := hheld.append_right others
    List.Perm _ ((parties.set p b).flatMap held) := (hafter b).symm

theorem Accounts.take {new : List ρ} (hheld : (held b).Perm (held a ++ new)) :
    Accounts held (parties.set p b) (inUse ++ new) := by
  obtain ⟨others, hbefore, hafter⟩ := exists_others held ha
  calc (inUse ++ new).Perm ((held a ++ others) ++ new) := (h.trans hbefore).append_right new
    List.Perm _ ((held a ++ new) ++ others) := by
      rw [List.append_assoc, List.append_assoc]
      exact List.perm_append_comm.append_left _
    List.Perm _ (held b ++ others) := hheld.symm.append_right others
    List.Perm _ ((parties.set p b).flatMap held) := (hafter b).symm

theorem Accounts.mem {r : ρ} (hr : r ∈ held a) : r ∈ inUse := by
  apply h.mem_iff.mpr
  exact List.mem_flatMap.mpr ⟨a, List.mem_of_getElem? ha, hr⟩

/-- A resource that is given back was in use. -/
theorem Accounts.giveBack [DecidableEq ρ] {r : ρ} (hheld : (held a).Perm (r :: held b)) :
    Accounts held (parties.set p b) (inUse.erase r) := by
  obtain ⟨others, hbefore, hafter⟩ := exists_others held ha
  calc (inUse.erase r).Perm ((r :: held b ++ others).erase r) :=
        ((h.trans hbefore).trans (hheld.append_right others)).erase r
    List.Perm _ (held b ++ others) := by
      rw [List.cons_append, List.erase_cons_head]
    List.Perm _ ((parties.set p b).flatMap held) := (hafter b).symm

end Held

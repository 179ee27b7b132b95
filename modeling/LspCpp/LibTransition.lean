import Mathlib.Tactic.SplitIfs

/-! Transition systems given by an executable step, their reachable states, and the rules by which
an invariant is carried along every run. The states may be reached by all runs or only by the runs
whose steps each satisfy a condition on the action and on the state it is taken in. -/

namespace Transition

variable {σ α : Type*}

/-- An action is either not enabled in a state (`none`) or has exactly one result; the choice of the
action is the nondeterminism of the system. -/
structure System (σ α : Type*) where
  init : σ → Prop
  step : α → σ → Option σ

/-- A step with a guard was enabled, and has the result that the guard allows. -/
theorem of_guard {c : Prop} [Decidable c] {s s' : σ} (h : (if c then some s else none) = some s') : c ∧ s' = s := by
  split_ifs at h with hc
  exact ⟨hc, (Option.some.inj h).symm⟩

namespace System

variable (S : System σ α)

/-- The states reached by the runs all of whose steps meet `ok`. -/
inductive ReachableIf (ok : α → σ → Prop) : σ → Prop
  | init {s : σ} (hs : S.init s) : ReachableIf ok s
  | step {s s' : σ} {a : α} (hs : ReachableIf ok s) (hok : ok a s) (ha : S.step a s = some s') :
      ReachableIf ok s'

/-- The states reached by any run. -/
abbrev Reachable : σ → Prop := S.ReachableIf fun _ _ => True

variable {S}

theorem ReachableIf.mono {ok ok' : α → σ → Prop} (hok : ∀ a s, ok a s → ok' a s) {s : σ}
    (hs : S.ReachableIf ok s) : S.ReachableIf ok' s := by
  induction hs with
  | init hs => exact .init hs
  | step _ ha hstep ih => exact .step ih (hok _ _ ha) hstep

/-- The invariant rule: what holds initially and is kept by every step that meets `ok` holds in every
state those runs reach. -/
theorem ReachableIf.invariant {ok : α → σ → Prop} (Inv : σ → Prop) (hinit : ∀ s, S.init s → Inv s)
    (hstep : ∀ a s s', Inv s → ok a s → S.step a s = some s' → Inv s') {s : σ}
    (hs : S.ReachableIf ok s) : Inv s := by
  induction hs with
  | init hs => exact hinit _ hs
  | step _ hok ha ih => exact hstep _ _ _ ih hok ha

/-- The invariant rule with an invariant that is already known of the reachable states. -/
theorem ReachableIf.invariant_of {ok : α → σ → Prop} (Known Inv : σ → Prop)
    (hknown : ∀ s, S.ReachableIf ok s → Known s) (hinit : ∀ s, S.init s → Inv s)
    (hstep : ∀ a s s', Known s → Inv s → ok a s → S.step a s = some s' → Inv s') {s : σ}
    (hs : S.ReachableIf ok s) : Inv s := by
  induction hs with
  | init hs => exact hinit _ hs
  | step hr hok ha ih => exact hstep _ _ _ (hknown _ hr) ih hok ha

/-- The simulation rule for two systems: where each step of the one is a step of the other on what `f` makes of the
states, or leaves it as it is, `f` maps reachable states to reachable ones. -/
theorem ReachableIf.project {τ β : Type*} {T : System τ β} {ok : α → σ → Prop} {ok' : β → τ → Prop} (f : σ → τ)
    (hinit : ∀ s, S.init s → T.init (f s))
    (hstep : ∀ a s s', S.ReachableIf ok s → ok a s → S.step a s = some s' →
      f s' = f s ∨ ∃ b, ok' b (f s) ∧ T.step b (f s) = some (f s')) {s : σ}
    (hs : S.ReachableIf ok s) : T.ReachableIf ok' (f s) := by
  induction hs with
  | init hs => exact .init (hinit _ hs)
  | step hs hok ha ih =>
      rcases hstep _ _ _ hs hok ha with hsame | ⟨b, hok', hb⟩
      · rw [hsame]
        exact ih
      · exact .step ih hok' hb

variable (S)

/-- The state after a list of actions, each of which has to be enabled and to meet `ok`. -/
def runIf (ok : α → σ → Prop) [∀ a s, Decidable (ok a s)] : List α → σ → Option σ
  | [], s => some s
  | a :: rest, s => if ok a s then (S.step a s).bind (runIf ok rest) else none

/-- The state after a list of actions. -/
def run : List α → σ → Option σ
  | [], s => some s
  | a :: rest, s => (S.step a s).bind (run rest)

variable {S}

theorem run_append (actions actions' : List α) (s : σ) :
    S.run (actions ++ actions') s = (S.run actions s).bind (S.run actions') := by
  induction actions generalizing s with
  | nil => rfl
  | cons a rest ih =>
      rw [List.cons_append, run, run, Option.bind_assoc]
      congr 1
      funext next
      exact ih next

theorem run_concat (actions : List α) (a : α) (s : σ) :
    S.run (actions ++ [a]) s = (S.run actions s).bind (S.step a) := by
  rw [run_append]
  congr 1
  funext next
  exact Option.bind_fun_some _

/-- The simulation rule for two systems with the same actions: what `f` makes of a run is the run of the other
system, where one step commutes with `f` and keeps `Inv`. -/
theorem map_run {τ : Type*} {T : System τ α} (f : σ → τ) (Inv : σ → Prop) (ok : α → Prop)
    (hstep : ∀ a s, Inv s → ok a → (S.step a s).map f = T.step a (f s))
    (hinv : ∀ a s s', Inv s → ok a → S.step a s = some s' → Inv s') (actions : List α)
    (hactions : ∀ a ∈ actions, ok a) {s : σ} (hs : Inv s) :
    (S.run actions s).map f = T.run actions (f s) := by
  induction actions generalizing s with
  | nil => rfl
  | cons a rest ih =>
      have hok := hactions a (List.mem_cons_self ..)
      rw [run, run, ← hstep a s hs hok]
      cases hnext : S.step a s with
      | none => rfl
      | some s' =>
          exact ih (fun a' ha' => hactions a' (List.mem_cons_of_mem _ ha')) (hinv a s s' hs hok hnext)

theorem reachableIf_of_runIf {ok : α → σ → Prop} [∀ a s, Decidable (ok a s)] (actions : List α)
    {s s' : σ} (hs : S.ReachableIf ok s) (hrun : S.runIf ok actions s = some s') :
    S.ReachableIf ok s' := by
  induction actions generalizing s with
  | nil =>
      cases hrun
      exact hs
  | cons a rest ih =>
      rw [runIf] at hrun
      split_ifs at hrun with hok
      obtain ⟨next, hnext, hrest⟩ := Option.bind_eq_some_iff.mp hrun
      exact ih (.step hs hok hnext) hrest

/-- The ranking rule: while `Pending` holds, no step raises `rank + ticks`, until one reaches `Goal`, which stays. -/
theorem ranked_of_runIf {ok : α → σ → Prop} [∀ a s, Decidable (ok a s)] {Pending Goal : σ → Prop} (rank ticks : σ → Nat)
    (hpending : ∀ a s s', S.Reachable s → Pending s → ok a s → S.step a s = some s' →
      Goal s' ∨ Pending s' ∧ rank s' + ticks s' ≤ rank s + ticks s)
    (hgoal : ∀ a s s', Goal s → S.step a s = some s' → Goal s') {bound : Nat} (actions : List α) {s s' : σ}
    (hs : S.Reachable s) (h : Goal s ∨ Pending s ∧ rank s + ticks s ≤ bound) (hrun : S.runIf ok actions s = some s') :
    Goal s' ∨ Pending s' ∧ rank s' + ticks s' ≤ bound := by
  induction actions generalizing s with
  | nil =>
      cases hrun
      exact h
  | cons a rest ih =>
      rw [runIf] at hrun
      split_ifs at hrun with hok
      obtain ⟨next, hnext, hrest⟩ := Option.bind_eq_some_iff.mp hrun
      refine ih (.step hs trivial hnext) ?_ hrest
      rcases h with hg | ⟨hp, hbound⟩
      · exact .inl (hgoal a s next hg hnext)
      · refine (hpending a s next hs hp hok hnext).imp_right fun hnew => ⟨hnew.1, ?_⟩
        exact Nat.le_trans hnew.2 hbound

theorem reachable_of_run (actions : List α) {s s' : σ} (hs : S.Reachable s)
    (hrun : S.run actions s = some s') : S.Reachable s' := by
  induction actions generalizing s with
  | nil =>
      cases hrun
      exact hs
  | cons a rest ih =>
      obtain ⟨next, hnext, hrest⟩ := Option.bind_eq_some_iff.mp hrun
      exact ih (.step hs trivial hnext) hrest

end System

end Transition

import LspCpp.ProcessSystem
import Mathlib.Data.List.Dedup

/-! What the steps of the processes do: which ends an object still has to close and which child it has still to wait
for, and how each of its system calls changes this. -/

namespace LspCpp

/-- The ends that are still to be closed, or become those of the streams, behind a row of `close`. -/
def AfterClose.held : AfterClose → List PipeEnd
  | .throws _ | .reaps _ => []
  | .reads inPipe outPipe errPipe => [⟨errPipe, false⟩, ⟨inPipe, true⟩, ⟨outPipe, false⟩]
  | .streams inPipe outPipe => [⟨outPipe, false⟩, ⟨inPipe, true⟩]

def ImplPhase.held : ImplPhase → List PipeEnd
  | .piping pipes => pipes.flatMap PipeEnd.both
  | .closing ends next => ends ++ next.held
  | .reading inPipe outPipe errPipe => [⟨errPipe, false⟩, ⟨inPipe, true⟩, ⟨outPipe, false⟩]
  | _ => []

/-- The ends that belong to a `Process`: those that its constructor has made and not yet closed, and its streams'. -/
def Impl.held (impl : Impl) : List PipeEnd := impl.phase.held ++ (impl.inputFd.toList ++ impl.outputFd.toList)

/-- Its child. -/
def Impl.child (impl : Impl) : List Nat := impl.pid.toList

def Impl.closed (impl : Impl) : Prop := impl.inputFd = none ∧ impl.outputFd = none

/-- What the phases have in common with the members: the streams are made last, and closed once the child is gone. -/
def Impl.Ok (impl : Impl) : Prop :=
  match impl.phase with
  | .piping _ | .closing _ (.throws _) | .threw _ | .destroyed => impl.pid = none ∧ impl.closed
  | .closing .. | .reading .. | .reaping _ | .killing _ | .waiting _ => impl.pid ≠ none ∧ impl.closed
  | .idle | .checking _ => impl.pid = none → impl.closed
  | .closingInput _ => True
  | .closingOutput _ => impl.inputFd = none

/-- The phases of a constructor that has no child yet. -/
def ImplPhase.isPiping : ImplPhase → Bool
  | .piping _ => true
  | _ => false

/-- The phases in which a constructor has thrown or an object is destroyed. -/
def ImplPhase.isOver : ImplPhase → Bool
  | .threw _ | .destroyed => true
  | _ => false

theorem Impl.Ok.released {impl : Impl} (h : impl.Ok) (hover : impl.phase.isOver = true) :
    impl.held = [] ∧ impl.child = [] := by
  obtain ⟨pid, inputFd, outputFd, phase⟩ := impl
  cases phase with
  | threw error =>
      obtain ⟨rfl, rfl, rfl⟩ := h
      exact ⟨rfl, rfl⟩
  | destroyed =>
      obtain ⟨rfl, rfl, rfl⟩ := h
      exact ⟨rfl, rfl⟩
  | _ => cases hover

/-- An operation that ends leaves no stream of a child that is gone. -/
theorem Impl.ok_finished {inputFd outputFd : Option PipeEnd} {op : ProcessOp} (hinput : inputFd = none)
    (houtput : outputFd = none) :
    Impl.Ok { pid := none, inputFd := inputFd, outputFd := outputFd, phase := op.finished } := by
  cases op with
  | destroy => exact ⟨rfl, hinput, houtput⟩
  | terminateDestroy => exact ⟨rfl, hinput, houtput⟩
  | _ => exact fun _ => ⟨hinput, houtput⟩

theorem ProcessOp.held_finished (op : ProcessOp) : op.finished.held = [] := by
  cases op <;> rfl

theorem ProcessOp.held_running (op : ProcessOp) : op.running.held = [] := by
  cases op <;> rfl

theorem ProcessOp.isPiping_finished (op : ProcessOp) : op.finished.isPiping = false := by
  cases op <;> rfl

theorem ProcessOp.isPiping_running (op : ProcessOp) : op.running.isPiping = false := by
  cases op <;> rfl

namespace Processes

variable {s s' : Processes} {p pid : Nat} {impl impl' : Impl}

/-- The children that have not been waited for, but those whose `waitpid` was interrupted. -/
def unreaped (s : Processes) : List Nat :=
  (List.range s.children.length).filter fun pid => s.isChild pid ∧ pid ∉ s.abandoned

theorem lt_of_isChild (h : s.isChild pid = true) : pid < s.children.length := by
  rw [isChild] at h
  split at h
  · rename_i child hchild
    exact (List.getElem?_eq_some_iff.mp hchild).1
  · cases h

theorem mem_unreaped : pid ∈ s.unreaped ↔ s.isChild pid = true ∧ pid ∉ s.abandoned := by
  rw [unreaped, List.mem_filter, List.mem_range, decide_eq_true_iff]
  exact ⟨fun h => h.2, fun h => ⟨lt_of_isChild h.1, h⟩⟩

theorem unreaped_nodup (s : Processes) : s.unreaped.Nodup := List.nodup_range.filter _

theorem isChild_fork (s : Processes) (inPipe outPipe errPipe : Nat) :
    (s.fork inPipe outPipe errPipe).isChild pid = (s.isChild pid || pid = s.children.length) := by
  have hchild : (s.fork inPipe outPipe errPipe).children[pid]? =
      if pid < s.children.length then s.children[pid]?
      else if pid = s.children.length then some ⟨inPipe, outPipe, errPipe, s.opened, .forked, none⟩ else none := by
    rw [fork, List.getElem?_append]
    split_ifs with hlt heq
    · rfl
    · simp [heq]
    · simp; omega
  unfold isChild
  rw [hchild]
  rcases Nat.lt_trichotomy pid s.children.length with hlt | heq | hgt
  · simp [hlt, Nat.ne_of_lt hlt]
  · simp [heq]
  · simp [Nat.not_lt_of_gt hgt, Nat.ne_of_gt hgt]

theorem isChild_reap (s : Processes) (k : Nat) : (s.reap k).isChild pid = (s.isChild pid && pid ≠ k) := by
  have hchildren : (s.reap k).children = s.children.modify k fun child => { child with phase := .reaped } := rfl
  unfold isChild
  rw [hchildren, List.getElem?_modify]
  cases hchild : s.children[pid]? with
  | none => rfl
  | some child =>
      by_cases hk : k = pid
      · simp [hk]
      · simp [hk, Ne.symm hk]

theorem unreaped_fork (s : Processes) (hbound : ∀ pid ∈ s.abandoned, pid < s.children.length)
    (inPipe outPipe errPipe : Nat) :
    (s.fork inPipe outPipe errPipe).unreaped = s.unreaped ++ [s.children.length] := by
  have hlength : (s.fork inPipe outPipe errPipe).children.length = s.children.length + 1 := by
    rw [fork, List.length_append, List.length_singleton]
  rw [unreaped, hlength, List.range_succ, List.filter_append]
  congr 1
  · apply List.filter_congr
    intro pid hpid
    have hne : pid ≠ s.children.length := Nat.ne_of_lt (List.mem_range.mp hpid)
    rw [isChild_fork, decide_eq_false hne, Bool.or_false]
    rfl
  · have hnew : s.children.length ∉ s.abandoned := fun hmem => Nat.lt_irrefl _ (hbound _ hmem)
    have habandoned : (s.fork inPipe outPipe errPipe).abandoned = s.abandoned := rfl
    simp [isChild_fork, habandoned, hnew]

theorem length_reap (s : Processes) (k : Nat) : (s.reap k).children.length = s.children.length :=
  List.length_modify ..

theorem unreaped_reap (s : Processes) (k : Nat) : (s.reap k).unreaped = s.unreaped.erase k := by
  rw [s.unreaped_nodup.erase_eq_filter, unreaped, unreaped, length_reap, List.filter_filter]
  apply List.filter_congr
  intro pid _
  rw [isChild_reap]
  by_cases hk : pid = k
  · simp [hk]
  · simp [hk, reap]

theorem unreaped_abandon (s : Processes) (k : Nat) :
    unreaped { s with abandoned := k :: s.abandoned } = s.unreaped.erase k := by
  rw [s.unreaped_nodup.erase_eq_filter, unreaped, unreaped, List.filter_filter]
  apply List.filter_congr
  intro pid _
  by_cases hk : pid = k
  · simp [hk]
  · simp [hk, isChild]

/-! ### What a system call does -/

/-- What a system call of an object does to the ends and to the children, where it makes the object `impl'`. -/
inductive CallEffect (s : Processes) (p : Nat) (impl impl' : Impl) : Processes → Prop
  | keep (hheld : impl.held.Perm impl'.held) (hpid : impl'.pid = impl.pid) :
    CallEffect s p impl impl' (s.setImpl p impl')
  | close (fd : PipeEnd) (hheld : impl.held.Perm (fd :: impl'.held)) (hpid : impl'.pid = impl.pid) :
      CallEffect s p impl impl' ((s.close fd).setImpl p impl')
  | pipe (hphase : impl.phase.isPiping = true) (hheld : impl'.held.Perm (impl.held ++ PipeEnd.both s.nextPipe))
      (hnone : impl.pid = none) (hnone' : impl'.pid = none) :
      CallEffect s p impl impl'
        ({ s with nextPipe := s.nextPipe + 1, opened := s.opened ++ PipeEnd.both s.nextPipe }.setImpl p impl')
  | fork (inPipe outPipe errPipe : Nat) (hphase : impl.phase = .piping [inPipe, outPipe, errPipe])
      (hforked : impl'.phase.isPiping = false) (hheld : impl.held.Perm impl'.held) (hnone : impl.pid = none)
      (hpid : impl'.pid = some s.children.length) :
      CallEffect s p impl impl' ((s.fork inPipe outPipe errPipe).setImpl p impl')
  | reap (pid : Nat) (hended : s.hasEnded pid = true) (hheld : impl.held.Perm impl'.held) (hpid : impl.pid = some pid)
      (hnone : impl'.pid = none) : CallEffect s p impl impl' ((s.reap pid).setImpl p impl')
  | abandon (pid : Nat) (hheld : impl.held = []) (hheld' : impl'.held = []) (hpid : impl.pid = some pid)
      (hnone : impl'.pid = none) :
      CallEffect s p impl impl' ({ s with abandoned := pid :: s.abandoned }.setImpl p impl')

/-- The ends of the three pipes, in the order in which the constructor gives them up. -/
theorem held_forked (inPipe outPipe errPipe : Nat) :
    (ImplPhase.piping [inPipe, outPipe, errPipe]).held.Perm
      (ImplPhase.closing [⟨inPipe, false⟩, ⟨outPipe, true⟩, ⟨errPipe, true⟩] (.reads inPipe outPipe errPipe)).held := by
  simp only [ImplPhase.held, AfterClose.held, PipeEnd.both, List.flatMap_cons, List.flatMap_nil, List.cons_append,
    List.nil_append]
  apply List.Perm.cons
  apply List.perm_iff_count.mpr
  intro fd
  simp only [List.count_cons, List.count_nil]
  omega

/-- A `waitpid` that returns has reaped the child of the object, or it was interrupted. -/
theorem waitpid_effect {result : CallResult} {mid : Processes} (hchild : s.isChild pid = true)
    (hwait : s.waitpid pid result = some mid) (hheld : impl.held = []) (hheld' : impl'.held = [])
    (hpid : impl.pid = some pid) (hnone : impl'.pid = none) : s.CallEffect p impl impl' (mid.setImpl p impl') := by
  unfold Processes.waitpid at hwait
  split at hwait
  · rw [if_pos hchild] at hwait
    split_ifs at hwait with hended
    obtain rfl := Option.some.inj hwait
    exact .reap pid hended (by rw [hheld, hheld']) hpid hnone
  · obtain rfl := Option.some.inj hwait
    exact .abandon pid hheld hheld' hpid hnone
  · cases hwait

theorem constructStep_effect (hok : impl.Ok) (hchild : ∀ pid, impl.pid = some pid → s.isChild pid = true)
    {result : CallResult} (hstep : s.constructStep p impl result = some s') :
    ∃ impl', impl'.Ok ∧ s.CallEffect p impl impl' s' ∧ (impl'.phase.isPiping = true → impl.phase.isPiping = true) := by
  obtain ⟨pid, inputFd, outputFd, phase⟩ := impl
  unfold Processes.constructStep at hstep
  dsimp only at hstep
  split at hstep
  · obtain rfl := Option.some.inj hstep
    obtain ⟨rfl, hclosed⟩ := hok
    refine ⟨_, ?_, .fork _ _ _ rfl rfl ?_ rfl rfl, fun _ => rfl⟩
    · exact ⟨Option.some_ne_none _, hclosed⟩
    · exact (held_forked _ _ _).append_right _
  · obtain rfl := Option.some.inj hstep
    refine ⟨_, ?_, .pipe rfl ?_ hok.1 hok.1, fun _ => rfl⟩
    · exact hok
    · obtain ⟨-, rfl, rfl⟩ := hok
      simp [Impl.held, ImplPhase.held, List.flatMap_append]
  · obtain rfl := Option.some.inj hstep
    refine ⟨_, ?_, .keep ?_ rfl, fun _ => rfl⟩
    · exact hok
    · rw [Impl.held, Impl.held, ImplPhase.held, ImplPhase.held, AfterClose.held, List.append_nil]
  · rename_i fd rest next
    obtain rfl := Option.some.inj hstep
    refine ⟨_, ?_, .close fd (List.Perm.refl _) rfl, nofun⟩
    cases next with
    | _ => exact hok
  · obtain rfl := Option.some.inj hstep
    refine ⟨_, ?_, .keep (List.Perm.refl _) rfl, nofun⟩
    exact hok
  · obtain rfl := Option.some.inj hstep
    refine ⟨_, ?_, .keep (List.Perm.refl _) rfl, nofun⟩
    exact hok
  · obtain rfl := Option.some.inj hstep
    obtain ⟨hpid, rfl, rfl⟩ := hok
    refine ⟨_, ?_, .keep (List.Perm.refl _) rfl, nofun⟩
    intro hnone
    exact absurd hnone hpid
  · obtain rfl := Option.some.inj hstep
    refine ⟨_, ?_, .keep (List.Perm.refl _) rfl, nofun⟩
    exact hok
  · obtain ⟨pid, rfl, hstep⟩ := Option.bind_eq_some_iff.mp hstep
    obtain ⟨error, -, rfl⟩ := Option.map_eq_some_iff.mp hstep
    cases error with
    | some error =>
        refine ⟨_, ?_, .keep (List.Perm.refl _) rfl, nofun⟩
        exact hok
    | none =>
        refine ⟨_, ?_, .keep ?_ rfl, nofun⟩
        · exact hok
        · exact ((List.Perm.swap _ _ _).cons _).append_right _
  · obtain ⟨pid, rfl, hstep⟩ := Option.bind_eq_some_iff.mp hstep
    obtain ⟨mid, hwait, rfl⟩ := Option.map_eq_some_iff.mp hstep
    obtain ⟨-, rfl, rfl⟩ := hok
    refine ⟨_, ?_, waitpid_effect (hchild pid rfl) hwait rfl rfl rfl rfl, nofun⟩
    exact ⟨rfl, rfl, rfl⟩
  · cases hstep

theorem operateStep_effect (hok : impl.Ok) (hchild : ∀ pid, impl.pid = some pid → s.isChild pid = true)
    {result : CallResult} (hstep : s.operateStep p impl result = some s') :
    ∃ impl', impl'.Ok ∧ s.CallEffect p impl impl' s' ∧ (impl'.phase.isPiping = true → impl.phase.isPiping = true) := by
  obtain ⟨pid, inputFd, outputFd, phase⟩ := impl
  unfold Processes.operateStep at hstep
  dsimp only at hstep
  split at hstep
  · rename_i op
    cases pid with
    | none =>
        obtain rfl := Option.some.inj hstep
        obtain ⟨hinput, houtput⟩ := hok rfl
        refine ⟨_, Impl.ok_finished hinput houtput, .keep ?_ rfl, fun hpiping => ?_⟩
        · rw [Impl.held, Impl.held, op.held_finished]
          exact List.Perm.refl _
        · cases op.isPiping_finished.symm.trans hpiping
    | some pid =>
        have hstray : s.strayUnless pid = s := by rw [strayUnless, if_pos (hchild pid rfl)]
        dsimp only at hstep
        rw [hchild pid rfl, hstray] at hstep
        split_ifs at hstep with hrunning
        · obtain rfl := Option.some.inj hstep
          refine ⟨_, ?_, .keep ?_ rfl, fun hpiping => ?_⟩
          · cases op with
            | isRunning => exact fun hnone => nomatch hnone
            | destroy => exact fun hnone => nomatch hnone
            | _ => trivial
          · rw [Impl.held, Impl.held, op.held_running]
            exact List.Perm.refl _
          · cases op.isPiping_running.symm.trans hpiping
        · obtain rfl := Option.some.inj hstep
          have hended : s.hasEnded pid = true := by simpa using hrunning
          refine ⟨_, ?_, .reap pid hended ?_ rfl rfl, nofun⟩
          · trivial
          · exact List.Perm.refl _
  · obtain rfl := Option.some.inj hstep
    cases inputFd with
    | none =>
        refine ⟨_, ?_, .keep (List.Perm.refl _) rfl, nofun⟩
        rfl
    | some fd =>
        refine ⟨_, ?_, .close fd (List.Perm.refl _) rfl, nofun⟩
        rfl
  · rename_i op
    obtain rfl := Option.some.inj hstep
    obtain rfl : inputFd = none := hok
    have hok' : Impl.Ok
        { pid := pid, inputFd := none, outputFd := none,
          phase := if pid = none then op.finished else if op = .wait then .waiting op else .killing op } := by
      cases pid with
      | none => exact Impl.ok_finished rfl rfl
      | some pid =>
          rw [if_neg (Option.some_ne_none pid)]
          split_ifs
          · exact ⟨Option.some_ne_none pid, rfl, rfl⟩
          · exact ⟨Option.some_ne_none pid, rfl, rfl⟩
    have hnothing : (if pid = none then op.finished else if op = .wait then .waiting op else .killing op).held = [] ∧
        (if pid = none then op.finished else if op = .wait then .waiting op else .killing op).isPiping = false := by
      split_ifs
      · exact ⟨op.held_finished, op.isPiping_finished⟩
      · exact ⟨rfl, rfl⟩
      · exact ⟨rfl, rfl⟩
    cases outputFd with
    | none =>
        refine ⟨_, hok', .keep ?_ rfl, fun hpiping => ?_⟩
        · rw [Impl.held, Impl.held, hnothing.1]
          exact List.Perm.refl _
        · cases hnothing.2.symm.trans hpiping
    | some fd =>
        refine ⟨_, hok', .close fd ?_ rfl, fun hpiping => ?_⟩
        · rw [Impl.held, Impl.held, hnothing.1]
          exact List.Perm.refl _
        · cases hnothing.2.symm.trans hpiping
  · obtain ⟨pid, rfl, rfl⟩ := Option.map_eq_some_iff.mp hstep
    rw [strayUnless, if_pos (hchild pid rfl)]
    refine ⟨_, ?_, .keep (List.Perm.refl _) rfl, nofun⟩
    exact hok
  · rename_i op
    obtain ⟨pid, rfl, hstep⟩ := Option.bind_eq_some_iff.mp hstep
    obtain ⟨mid, hwait, rfl⟩ := Option.map_eq_some_iff.mp hstep
    obtain ⟨-, rfl, rfl⟩ := hok
    refine ⟨_, Impl.ok_finished rfl rfl, waitpid_effect (hchild pid rfl) hwait rfl ?_ rfl rfl, fun hpiping => ?_⟩
    · rw [Impl.held, op.held_finished]
      rfl
    · cases op.isPiping_finished.symm.trans hpiping
  · cases hstep

/-- The steps of an object: a system call, or the beginning of an operation. -/
theorem step_call {result : CallResult} (hstep : step (.call p result) s = some s')
    (hok : ∀ impl ∈ s.impls, impl.Ok)
    (hchild : ∀ impl ∈ s.impls, ∀ pid, impl.pid = some pid → s.isChild pid = true) :
    ∃ impl impl', s.impls[p]? = some impl ∧ impl'.Ok ∧ s.CallEffect p impl impl' s' ∧
      (impl'.phase.isPiping = true → impl.phase.isPiping = true) := by
  obtain ⟨impl, himpl, hstep⟩ := Option.bind_eq_some_iff.mp hstep
  have hmem := List.mem_of_getElem? himpl
  split at hstep
  · rename_i next hconstruct
    obtain rfl := Option.some.inj hstep
    obtain ⟨impl', hok', heffect, hpiping⟩ := constructStep_effect (hok impl hmem) (hchild impl hmem) hconstruct
    exact ⟨impl, impl', himpl, hok', heffect, hpiping⟩
  · obtain ⟨impl', hok', heffect, hpiping⟩ := operateStep_effect (hok impl hmem) (hchild impl hmem) hstep
    exact ⟨impl, impl', himpl, hok', heffect, hpiping⟩

theorem step_begin {op : ProcessOp} (hstep : step (.begin p op) s = some s') (hok : ∀ impl ∈ s.impls, impl.Ok) :
    ∃ impl impl', s.impls[p]? = some impl ∧ impl.phase = .idle ∧ impl'.Ok ∧ s.CallEffect p impl impl' s' ∧
      impl'.phase.isPiping = false := by
  obtain ⟨impl, himpl, hstep⟩ := Option.bind_eq_some_iff.mp hstep
  split_ifs at hstep with hguard
  obtain rfl := Option.some.inj hstep
  have himplOk := hok impl (List.mem_of_getElem? himpl)
  obtain ⟨pid, inputFd, outputFd, phase⟩ := impl
  obtain rfl : phase = .idle := hguard.1
  refine ⟨_, _, himpl, rfl, ?_, .keep (List.Perm.refl _) rfl, rfl⟩
  exact himplOk

/-- What a child does, which leaves it a child. -/
theorem step_child {ok : Child → Bool} {f : Child → Child} (hstep : s.childStep pid ok f = some s') :
    ∃ child, s.children[pid]? = some child ∧ ok child = true ∧
      s' = { s with children := s.children.set pid (f child) } := by
  obtain ⟨child, hchild, hstep⟩ := Option.bind_eq_some_iff.mp hstep
  split_ifs at hstep with hguard
  exact ⟨child, hchild, hguard, (Option.some.inj hstep).symm⟩

end Processes

end LspCpp

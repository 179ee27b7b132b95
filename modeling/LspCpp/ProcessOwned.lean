import LspCpp.LibHeld
import LspCpp.ProcessEffects

/-! What the processes own. Whatever system call fails and however the threads take turns, each descriptor and each
child belongs to one object, which closes it and waits for it once. -/

namespace LspCpp

namespace Processes

variable {s s' : Processes} {p pid : Nat} {impl impl' : Impl}

/-- The open ends and the children are those of the objects, each of one object; no call was made for anything else. -/
structure Accounted (s : Processes) : Prop where
  strays : s.strays = 0
  made : ∀ fd ∈ s.opened, fd.pipe < s.nextPipe
  distinct : s.opened.Nodup
  opened : Held.Accounts Impl.held s.impls s.opened
  children : Held.Accounts Impl.child s.impls s.unreaped
  abandoned : ∀ pid ∈ s.abandoned, pid < s.children.length
  ok : ∀ impl ∈ s.impls, impl.Ok

theorem ok_set (hok : ∀ impl ∈ s.impls, impl.Ok) (hok' : impl'.Ok) : ∀ impl ∈ (s.setImpl p impl').impls, impl.Ok := by
  intro other hother
  rcases List.mem_or_eq_of_mem_set hother with hold | rfl
  · exact hok other hold
  · exact hok'

section Books

variable (h : s.Accounted) (himpl : s.impls[p]? = some impl) (hok : impl'.Ok)
include h himpl hok

theorem Accounted.keep (hheld : impl.held.Perm impl'.held) (hchild : impl.child = impl'.child) :
    (s.setImpl p impl').Accounted :=
  { h with
    opened := h.opened.keep himpl hheld
    children := h.children.keep himpl (hchild ▸ List.Perm.refl _)
    ok := ok_set h.ok hok }

theorem Accounted.close {fd : PipeEnd} (hheld : impl.held.Perm (fd :: impl'.held)) (hchild : impl.child = impl'.child) :
    ((s.close fd).setImpl p impl').Accounted := by
  have hmem : fd ∈ s.opened := h.opened.mem himpl (hheld.mem_iff.mpr List.mem_cons_self)
  rw [Processes.close, if_pos hmem]
  exact
    { h with
      made := fun fd' hfd' => h.made fd' (List.mem_of_mem_erase hfd')
      distinct := h.distinct.erase fd
      opened := h.opened.giveBack himpl hheld
      children := h.children.keep himpl (hchild ▸ List.Perm.refl _)
      ok := ok_set h.ok hok }

theorem Accounted.pipe (hheld : impl'.held.Perm (impl.held ++ PipeEnd.both s.nextPipe))
    (hchild : impl.child = impl'.child) :
    ({ s with
      nextPipe := s.nextPipe + 1, opened := s.opened ++ PipeEnd.both s.nextPipe }.setImpl p impl').Accounted := by
  have hboth : ∀ fd ∈ PipeEnd.both s.nextPipe, fd.pipe = s.nextPipe := by
    intro fd hfd
    simp only [PipeEnd.both, List.mem_cons, List.not_mem_nil, or_false] at hfd
    rcases hfd with rfl | rfl <;> rfl
  exact
    { h with
      made := fun fd hfd => by
        rcases List.mem_append.mp hfd with hold | hnew
        · exact Nat.lt_succ_of_lt (h.made fd hold)
        · exact (hboth fd hnew).symm ▸ Nat.lt_succ_self _
      distinct := by
        apply List.Nodup.append h.distinct
        · simp [PipeEnd.both]
        · intro fd hold hnew
          have hlt := h.made fd hold
          rw [hboth fd hnew] at hlt
          exact Nat.lt_irrefl _ hlt
      opened := h.opened.take himpl hheld
      children := h.children.keep himpl (hchild ▸ List.Perm.refl _)
      ok := ok_set h.ok hok }

theorem Accounted.fork (hheld : impl.held.Perm impl'.held) (hnone : impl.child = [])
    (hchild : impl'.child = [s.children.length]) (inPipe outPipe errPipe : Nat) :
    ((s.fork inPipe outPipe errPipe).setImpl p impl').Accounted := by
  have hlength : (s.fork inPipe outPipe errPipe).children.length = s.children.length + 1 := by
    rw [Processes.fork, List.length_append, List.length_singleton]
  exact
    { h with
      opened := h.opened.keep himpl hheld
      children := by
        show Held.Accounts Impl.child (s.impls.set p impl') (s.fork inPipe outPipe errPipe).unreaped
        rw [unreaped_fork s h.abandoned]
        apply h.children.take himpl
        rw [hnone, hchild]
        rfl
      abandoned := fun pid hpid => hlength ▸ Nat.lt_succ_of_lt (h.abandoned pid hpid)
      ok := ok_set h.ok hok }

/-- The child of the object is waited for, or its `waitpid` is interrupted. -/
theorem Accounted.giveUp (hheld : impl.held.Perm impl'.held) (hchild : impl.child = [pid]) (hnone : impl'.child = []) :
    ((s.reap pid).setImpl p impl').Accounted ∧
      ({ s with abandoned := pid :: s.abandoned }.setImpl p impl').Accounted := by
  have hgiveBack : Held.Accounts Impl.child (s.impls.set p impl') (s.unreaped.erase pid) := by
    apply h.children.giveBack himpl
    rw [hchild, hnone]
  have hmem : pid ∈ s.unreaped := h.children.mem himpl (hchild ▸ List.mem_singleton_self pid)
  constructor
  · exact
      { h with
        opened := h.opened.keep himpl hheld
        children := by
          show Held.Accounts Impl.child (s.impls.set p impl') (s.reap pid).unreaped
          rw [unreaped_reap]
          exact hgiveBack
        abandoned := fun k hk => (s.length_reap pid).symm ▸ h.abandoned k hk
        ok := ok_set h.ok hok }
  · exact
      { h with
        opened := h.opened.keep himpl hheld
        children := by
          show Held.Accounts Impl.child (s.impls.set p impl') (unreaped { s with abandoned := pid :: s.abandoned })
          rw [unreaped_abandon]
          exact hgiveBack
        abandoned := fun k hk => by
          rcases List.mem_cons.mp hk with rfl | hold
          · exact lt_of_isChild (mem_unreaped.mp hmem).1
          · exact h.abandoned k hold
        ok := ok_set h.ok hok }

end Books

/-- The child of an object has not been waited for. -/
theorem Accounted.isChild (h : s.Accounted) (himpl : s.impls[p]? = some impl) (hpid : impl.pid = some pid) :
    s.isChild pid = true := by
  apply (mem_unreaped.mp (h.children.mem himpl ?_)).1
  rw [Impl.child, hpid]
  exact List.mem_singleton_self pid

theorem Accounted.isChild_of_mem (h : s.Accounted) (himpl : impl ∈ s.impls) (hpid : impl.pid = some pid) :
    s.isChild pid = true := by
  obtain ⟨p, hp⟩ := List.mem_iff_getElem?.mp himpl
  exact h.isChild hp hpid

theorem Accounted.effect (h : s.Accounted) (himpl : s.impls[p]? = some impl) (hok : impl'.Ok)
    (heffect : s.CallEffect p impl impl' s') : s'.Accounted := by
  cases heffect with
  | keep hheld hpid => exact h.keep himpl hok hheld (by rw [Impl.child, Impl.child, hpid])
  | close fd hheld hpid => exact h.close himpl hok hheld (by rw [Impl.child, Impl.child, hpid])
  | pipe _ hheld hnone hnone' => exact h.pipe himpl hok hheld (by rw [Impl.child, Impl.child, hnone, hnone'])
  | fork inPipe outPipe errPipe _ _ hheld hnone hpid =>
      exact h.fork himpl hok hheld (by rw [Impl.child, hnone]; rfl) (by rw [Impl.child, hpid]; rfl)
        inPipe outPipe errPipe
  | reap pid _ hheld hpid hnone =>
      exact (h.giveUp himpl hok hheld (by rw [Impl.child, hpid]; rfl) (by rw [Impl.child, hnone]; rfl)).1
  | abandon pid hheld hheld' hpid hnone =>
      exact (h.giveUp himpl hok (by rw [hheld, hheld']) (by rw [Impl.child, hpid]; rfl)
        (by rw [Impl.child, hnone]; rfl)).2

/-- What a child does itself. -/
theorem Accounted.childStep (h : s.Accounted) {ok : Child → Bool} {f : Child → Child}
    (hok : ∀ child, ok child = true → child.phase ≠ .reaped ∧ (f child).phase ≠ .reaped)
    (hstep : s.childStep pid ok f = some s') : s'.Accounted := by
  obtain ⟨child, hchild, hguard, rfl⟩ := step_child hstep
  obtain ⟨hbefore, hafter⟩ := hok child hguard
  have hsame : ∀ k, Processes.isChild { s with children := s.children.set pid (f child) } k = s.isChild k := by
    intro k
    unfold Processes.isChild
    rw [List.getElem?_set]
    obtain ⟨hlt, -⟩ := List.getElem?_eq_some_iff.mp hchild
    split_ifs with hk
    · subst hk
      rw [hchild]
      simp [hbefore, hafter]
    · rfl
  have hunreaped : unreaped { s with children := s.children.set pid (f child) } = s.unreaped := by
    rw [unreaped, unreaped, List.length_set]
    apply List.filter_congr
    intro k _
    rw [hsame]
  exact
    { h with
      children := by
        rw [hunreaped]
        exact h.children
      abandoned := fun k hk => (List.length_set ..).symm ▸ h.abandoned k hk }

theorem Accounted.step {a : ProcessAction} (h : s.Accounted) (hstep : step a s = some s') : s'.Accounted := by
  cases a with
  | start =>
      obtain rfl := Option.some.inj hstep
      refine { h with opened := ?_, children := ?_, ok := fun impl himpl => ?_ }
      · rw [Held.Accounts, List.flatMap_append]
        exact h.opened.trans (List.append_nil _ ▸ List.Perm.refl _)
      · rw [Held.Accounts, List.flatMap_append]
        exact h.children.trans (List.append_nil _ ▸ List.Perm.refl _)
      · rcases List.mem_append.mp himpl with hold | hnew
        · exact h.ok impl hold
        · rw [List.mem_singleton.mp hnew]
          exact ⟨rfl, rfl, rfl⟩
  | call p result =>
      obtain ⟨impl, impl', himpl, hok, heffect, -⟩ := step_call hstep h.ok
        fun _ hmem _ hpid => h.isChild_of_mem hmem hpid
      exact h.effect himpl hok heffect
  | begin p op =>
      obtain ⟨impl, impl', himpl, -, hok, heffect, -⟩ := step_begin hstep h.ok
      exact h.effect himpl hok heffect
  | childExecs pid =>
      refine h.childStep (fun child hguard => ?_) hstep
      rw [(of_decide_eq_true hguard).1]
      exact ⟨nofun, nofun⟩
  | childFails pid error =>
      refine h.childStep (fun child hguard => ?_) hstep
      rw [(of_decide_eq_true hguard).1]
      exact ⟨nofun, nofun⟩
  | childCloses pid fd =>
      refine h.childStep (fun child hguard => ?_) hstep
      rw [of_decide_eq_true hguard]
      exact ⟨nofun, nofun⟩
  | childExits pid =>
      refine h.childStep (fun child hguard => ?_) hstep
      refine ⟨?_, nofun⟩
      rcases of_decide_eq_true hguard with hphase | hphase
      · rw [hphase]
        nofun
      · rw [hphase]
        nofun

theorem accounted_init : Accounted {} where
  strays := rfl
  made _ h := nomatch h
  distinct := List.nodup_nil
  opened := List.Perm.refl _
  children := List.Perm.refl _
  abandoned _ h := nomatch h
  ok _ h := nomatch h

theorem reachable_accounted {ok : ProcessAction → Processes → Prop} (hs : processSystem.ReachableIf ok s) :
    s.Accounted := by
  refine hs.invariant Accounted ?_ fun a s s' h _ hstep => h.step hstep
  intro s hinit
  obtain rfl : s = {} := hinit
  exact accounted_init

/-- No two objects have the same child. -/
theorem Accounted.owner_unique (h : s.Accounted) {q : Nat} (himpl : s.impls[p]? = some impl)
    (himpl' : s.impls[q]? = some impl') (hpid : impl.pid = some pid) (hpid' : impl'.pid = some pid) : p = q := by
  have hnodup : (s.impls.flatMap Impl.child).Nodup := (h.children.nodup_iff).mp s.unreaped_nodup
  obtain ⟨hp, rfl⟩ := List.getElem?_eq_some_iff.mp himpl
  obtain ⟨hq, rfl⟩ := List.getElem?_eq_some_iff.mp himpl'
  have hmem : pid ∈ s.impls[p].child := by rw [Impl.child, hpid]; exact List.mem_singleton_self pid
  have hmem' : pid ∈ s.impls[q].child := by rw [Impl.child, hpid']; exact List.mem_singleton_self pid
  have hdisjoint := List.pairwise_iff_getElem.mp (List.nodup_flatMap.mp hnodup).2
  rcases Nat.lt_trichotomy p q with hlt | heq | hgt
  · exact absurd hmem' (hdisjoint p q hp hq hlt hmem)
  · exact heq
  · exact absurd hmem (hdisjoint q p hq hp hgt hmem')

/-- The books of the program with the operating system. No call is made for a descriptor or a child that is gone; each
open descriptor is one that an object still has to close or to use, none is held twice, and each child is that of one
object; an object whose child is gone has closed its streams; and when all constructors have thrown and all objects are
destroyed, nothing is open and every child has been waited for, but those whose `waitpid` was interrupted. -/
structure OwnsAll (s : Processes) : Prop where
  strays : s.strays = 0
  ends : s.opened.Nodup ∧ ∀ fd, fd ∈ s.opened ↔ ∃ impl ∈ s.impls, fd ∈ impl.held
  once : (s.impls.flatMap Impl.held).Nodup
  children : ∀ (p q : Nat) (impl impl' : Impl) (pid : Nat), s.impls[p]? = some impl → s.impls[q]? = some impl' →
    impl.pid = some pid → impl'.pid = some pid → p = q
  ended : ∀ impl ∈ s.impls, impl.phase = .idle → impl.pid = none → impl.inputFd = none ∧ impl.outputFd = none
  released : (∀ impl ∈ s.impls, impl.phase.isOver = true) →
    s.opened = [] ∧ ∀ pid, s.isChild pid = true → pid ∈ s.abandoned

/-- **Processes give back what they take**: in every run of any number of `Process` objects, whichever system calls fail
or are interrupted, whenever the children end and however the constructors, operations and destructors take turns. -/
theorem processes_ownAll (hs : processSystem.Reachable s) : s.OwnsAll := by
  have h := reachable_accounted hs
  refine ⟨h.strays, ⟨h.distinct, fun fd => ?_⟩, h.opened.nodup_iff.mp h.distinct,
    fun p q impl impl' pid => h.owner_unique, fun impl himpl hidle hpid => ?_, fun hover => ?_⟩
  · rw [h.opened.mem_iff, List.mem_flatMap]
  · have hok := h.ok impl himpl
    rw [Impl.Ok, hidle] at hok
    exact hok hpid
  · have hopened : s.impls.flatMap Impl.held = [] :=
      List.flatMap_eq_nil_iff.mpr fun impl himpl => ((h.ok impl himpl).released (hover impl himpl)).1
    have hchildren : s.impls.flatMap Impl.child = [] :=
      List.flatMap_eq_nil_iff.mpr fun impl himpl => ((h.ok impl himpl).released (hover impl himpl)).2
    constructor
    · apply List.Perm.eq_nil
      rw [← hopened]
      exact h.opened
    · intro pid hpid
      by_contra hmem
      have hunreaped := h.children.mem_iff.mp (mem_unreaped.mpr ⟨hpid, hmem⟩)
      rw [hchildren] at hunreaped
      cases hunreaped

def calls (p n : Nat) : List ProcessAction := List.replicate n (.call p .ok)

/-- The second `pipe` of a constructor fails, another constructor cannot execute its program, and a third object is
destroyed while its child runs. -/
def failedStartsRun : List ProcessAction :=
  [.start, .start, .call 0 .ok, .call 1 .ok, .call 1 .ok, .call 0 (.failed 24), .call 1 .ok, .call 0 .ok, .call 1 .ok,
    .childFails 0 2] ++ calls 0 2 ++ [.start] ++ calls 2 4 ++ calls 1 4 ++ [.call 1 .ok, .childExecs 1] ++ calls 2 3 ++
    [.childExits 0] ++ calls 1 5 ++ calls 2 4 ++ [.begin 2 .destroy] ++ calls 2 5 ++ [.childExits 1, .call 2 .ok]

theorem processes_ownAll_failedStarts :
    ∃ s, processSystem.run failedStartsRun {} = some s ∧
      s.impls.map Impl.phase = [.threw 24, .threw 2, .destroyed] ∧ s.OwnsAll :=
  ⟨_, rfl, rfl, processes_ownAll (Transition.System.reachable_of_run failedStartsRun (.init rfl) rfl)⟩

end Processes

end LspCpp

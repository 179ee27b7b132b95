import LspCpp.ProcessOwned

/-! What the children inherit. A child gets every end that this process holds when it is forked, and keeps those of
other children until it ends; a child whose constructor runs while no other object holds an end has its own two ends
only, and so finds the end of its input when its object closes the stream. -/

namespace LspCpp

def Child.pipes (child : Child) : List Nat := [child.inPipe, child.outPipe, child.errPipe]

/-- A child without the ends of others. -/
def Child.Alone (child : Child) : Prop :=
  match child.phase with
  | .forked => ∀ fd ∈ child.ends, fd.pipe ∈ child.pipes
  | .executing => ∀ fd ∈ child.ends, fd = ⟨child.inPipe, false⟩ ∨ fd = ⟨child.outPipe, true⟩
  | .zombie | .reaped => child.ends = []

theorem Child.Alone.execs {child : Child} (h : child.Alone) (hphase : child.phase = .forked) : child.execs.Alone := by
  rw [Child.Alone, hphase] at h
  intro fd hfd
  rcases List.mem_append.mp hfd with hother | hown
  · obtain ⟨hmem, hpipe⟩ := List.mem_filter.mp hother
    exact absurd (h fd hmem) (of_decide_eq_true hpipe)
  · show fd = ⟨child.inPipe, false⟩ ∨ fd = ⟨child.outPipe, true⟩
    simpa using hown

namespace Processes

variable {s s' : Processes} {p pid : Nat} {impl impl' : Impl} {child : Child}

/-- The pipes of a constructor are made and its child is forked while no other object holds an end. -/
def StartsAlone : ProcessAction → Processes → Prop
  | .call p _, s => ∀ impl ∈ s.impls[p]?, impl.phase.isPiping = true →
      ∀ q < s.impls.length, q ≠ p → ∀ other ∈ s.impls[q]?, other.held = []
  | _, _ => True

instance (a : ProcessAction) (s : Processes) : Decidable (StartsAlone a s) :=
  match a with
  | .call p _ => inferInstanceAs (Decidable (∀ impl ∈ s.impls[p]?, impl.phase.isPiping = true →
      ∀ q < s.impls.length, q ≠ p → ∀ other ∈ s.impls[q]?, other.held = []))
  | .start | .begin .. | .childExecs _ | .childFails .. | .childCloses .. | .childExits _ =>
      inferInstanceAs (Decidable True)

/-- The ends of an object are of no child's pipes. -/
def Unforked (s : Processes) (impl : Impl) : Prop :=
  ∀ fd ∈ impl.held, ∀ child ∈ s.children, fd.pipe ∉ child.pipes

/-- They are of the pipes of its child, also when that has been waited for. -/
def Forked (s : Processes) (impl : Impl) : Prop :=
  ∃ pid child, s.children[pid]? = some child ∧ (impl.pid = some pid ∨ impl.pid = none ∧ child.phase = .reaped) ∧
    ∀ fd ∈ impl.held, fd.pipe ∈ child.pipes

structure Apart (s : Processes) : Prop where
  alone : ∀ child ∈ s.children, child.Alone
  named : ∀ child ∈ s.children, child.pipes.Nodup ∧ ∀ pipe ∈ child.pipes, pipe < s.nextPipe
  disjoint : ∀ (k k' : Nat) (child child' : Child), s.children[k]? = some child → s.children[k']? = some child' →
    ∀ pipe ∈ child.pipes, pipe ∈ child'.pipes → k = k'
  owners : ∀ impl ∈ s.impls, s.Unforked impl ∨ s.Forked impl
  piping : ∀ impl ∈ s.impls, impl.phase.isPiping = true → s.Unforked impl

/-- The children are the same by their pipes, and more may be waited for. -/
structure KeepsPipes (s s' : Processes) : Prop where
  nextPipe : s.nextPipe ≤ s'.nextPipe
  back : ∀ (k : Nat) (child' : Child), s'.children[k]? = some child' →
    ∃ child, s.children[k]? = some child ∧ child'.pipes = child.pipes
  forth : ∀ (k : Nat) (child : Child), s.children[k]? = some child →
    ∃ child', s'.children[k]? = some child' ∧ child'.pipes = child.pipes ∧
    (child.phase = .reaped → child'.phase = .reaped)

theorem keepsPipes_of_same (hnext : s.nextPipe ≤ s'.nextPipe) (hchildren : s'.children = s.children) :
    s.KeepsPipes s' where
  nextPipe := hnext
  back _ child' h := ⟨child', hchildren ▸ h, rfl⟩
  forth _ child h := ⟨child, hchildren ▸ h, rfl, id⟩

/-- One child is changed. -/
theorem keepsPipes_of_set {f : Child → Child} (hchild : s.children[pid]? = some child)
    (hnext : s'.nextPipe = s.nextPipe)
    (hchildren : s'.children = s.children.set pid (f child)) (hpipes : (f child).pipes = child.pipes)
    (hphase : child.phase = .reaped → (f child).phase = .reaped) : s.KeepsPipes s' := by
  have hlt := (List.getElem?_eq_some_iff.mp hchild).1
  have hget : ∀ k : Nat, s'.children[k]? = if pid = k then some (f child) else s.children[k]? := by
    intro k
    rw [hchildren, List.getElem?_set]
    split_ifs <;> rfl
  refine ⟨Nat.le_of_eq hnext.symm, fun k child' hk => ?_, fun k other hk => ?_⟩
  · rw [hget] at hk
    split_ifs at hk with heq
    · cases hk
      exact ⟨child, heq ▸ hchild, hpipes⟩
    · exact ⟨child', hk, rfl⟩
  · rw [hget]
    split_ifs with heq
    · obtain rfl := Option.some.inj (hchild.symm.trans (heq ▸ hk))
      exact ⟨f child, rfl, hpipes, hphase⟩
    · exact ⟨other, hk, rfl, id⟩

theorem Unforked.keep (h : s.Unforked impl) (hkeeps : s.KeepsPipes s') (hheld : ∀ fd ∈ impl'.held, fd ∈ impl.held) :
    s'.Unforked impl' := by
  intro fd hfd child' hchild'
  obtain ⟨k, hk⟩ := List.mem_iff_getElem?.mp hchild'
  obtain ⟨child, hchild, hpipes⟩ := hkeeps.back k child' hk
  rw [hpipes]
  exact h fd (hheld fd hfd) child (List.mem_of_getElem? hchild)

theorem Forked.keep (h : s.Forked impl) (hkeeps : s.KeepsPipes s') (hheld : ∀ fd ∈ impl'.held, fd ∈ impl.held)
    (hpid : impl'.pid = impl.pid) : s'.Forked impl' := by
  obtain ⟨pid, child, hchild, howner, hends⟩ := h
  obtain ⟨child', hchild', hpipes, hreaped⟩ := hkeeps.forth pid child hchild
  refine ⟨pid, child', hchild', ?_, fun fd hfd => ?_⟩
  · rw [hpid]
    exact howner.imp_right fun ⟨hnone, hphase⟩ => ⟨hnone, hreaped hphase⟩
  · rw [hpipes]
    exact hends fd (hheld fd hfd)

theorem Apart.keep (h : s.Apart) (hkeeps : s.KeepsPipes s') (halone : ∀ child ∈ s'.children, child.Alone)
    (himpls : ∀ impl' ∈ s'.impls, impl' ∈ s.impls ∨
      (s'.Unforked impl' ∨ s'.Forked impl') ∧ (impl'.phase.isPiping = true → s'.Unforked impl')) : s'.Apart where
  alone := halone
  named child' hchild' := by
    obtain ⟨k, hk⟩ := List.mem_iff_getElem?.mp hchild'
    obtain ⟨child, hchild, hpipes⟩ := hkeeps.back k child' hk
    obtain ⟨hnodup, hmade⟩ := h.named child (List.mem_of_getElem? hchild)
    rw [hpipes]
    exact ⟨hnodup, fun pipe hpipe => Nat.lt_of_lt_of_le (hmade pipe hpipe) hkeeps.nextPipe⟩
  disjoint k k' child child' hk hk' pipe hpipe hpipe' := by
    obtain ⟨old, hold, hpipes⟩ := hkeeps.back k child hk
    obtain ⟨old', hold', hpipes'⟩ := hkeeps.back k' child' hk'
    exact h.disjoint k k' old old' hold hold' pipe (hpipes ▸ hpipe) (hpipes' ▸ hpipe')
  owners impl' himpl' := by
    rcases himpls impl' himpl' with hold | hnew
    · exact (h.owners impl' hold).imp (·.keep hkeeps fun _ hfd => hfd) (·.keep hkeeps (fun _ hfd => hfd) rfl)
    · exact hnew.1
  piping impl' himpl' hpiping := by
    rcases himpls impl' himpl' with hold | hnew
    · exact (h.piping impl' hold hpiping).keep hkeeps fun _ hfd => hfd
    · exact hnew.2 hpiping

/-- One object is replaced by another that holds no more. -/
theorem Apart.advance (h : s.Apart) (hmem : impl ∈ s.impls) (hkeeps : s.KeepsPipes s')
    (halone : ∀ child ∈ s'.children, child.Alone) (himpls : s'.impls = s.impls.set p impl')
    (hheld : ∀ fd ∈ impl'.held, fd ∈ impl.held) (hpid : impl'.pid = impl.pid)
    (hpiping : impl'.phase.isPiping = true → impl.phase.isPiping = true) : s'.Apart := by
  apply h.keep hkeeps halone
  intro other hother
  rw [himpls] at hother
  rcases List.mem_or_eq_of_mem_set hother with hold | rfl
  · exact .inl hold
  · refine .inr ⟨?_, fun hnew => (h.piping impl hmem (hpiping hnew)).keep hkeeps hheld⟩
    exact (h.owners impl hmem).imp (·.keep hkeeps hheld) (·.keep hkeeps hheld hpid)

/-! ### Steps -/

theorem modify_eq_set {k : Nat} {f : Child → Child} {children : List Child} (hchild : children[k]? = some child) :
    children.modify k f = children.set k (f child) := by
  apply List.ext_getElem?
  intro i
  rw [List.getElem?_modify, List.getElem?_set]
  obtain ⟨hlt, hget⟩ := List.getElem?_eq_some_iff.mp hchild
  by_cases hi : k = i
  · subst hi
    simp [hlt, hget]
  · simp [hi]

theorem alone_set (h : ∀ child ∈ s.children, child.Alone) {other : Child} (hother : other.Alone) :
    ∀ child ∈ s.children.set pid other, child.Alone := by
  intro child hchild
  rcases List.mem_or_eq_of_mem_set hchild with hold | rfl
  · exact h child hold
  · exact hother

theorem Apart.reap (h : s.Apart) (hmem : impl ∈ s.impls) (hended : s.hasEnded pid = true)
    (hheld : impl.held.Perm impl'.held) (hpid : impl.pid = some pid) (hnone : impl'.pid = none)
    (hpiping : impl'.phase.isPiping = true → impl.phase.isPiping = true) : ((s.reap pid).setImpl p impl').Apart := by
  rw [hasEnded] at hended
  split at hended
  · rename_i child hchild
    have hzombie : child.phase = .zombie := of_decide_eq_true hended
    have hchildren : (s.reap pid).children = s.children.set pid { child with phase := .reaped } := modify_eq_set hchild
    have hkeeps : s.KeepsPipes ((s.reap pid).setImpl p impl') :=
      keepsPipes_of_set (f := fun child => { child with phase := .reaped }) hchild rfl hchildren rfl fun _ => rfl
    have hheld' : ∀ fd ∈ impl'.held, fd ∈ impl.held := fun fd hfd => hheld.mem_iff.mpr hfd
    refine h.keep hkeeps ?_ fun other hother => ?_
    · show ∀ child ∈ (s.reap pid).children, child.Alone
      rw [hchildren]
      apply alone_set h.alone
      have halone := h.alone child (List.mem_of_getElem? hchild)
      rw [Child.Alone, hzombie] at halone
      exact halone
    · rcases List.mem_or_eq_of_mem_set hother with hold | rfl
      · exact .inl hold
      · refine .inr ⟨?_, fun hnew => (h.piping impl hmem (hpiping hnew)).keep hkeeps hheld'⟩
        rcases h.owners impl hmem with hunforked | ⟨k, old, hold, howner, hends⟩
        · exact .inl (hunforked.keep hkeeps hheld')
        · obtain rfl : k = pid := by
            rcases howner with hk | ⟨hk, -⟩
            · exact Option.some.inj (hk.symm.trans hpid)
            · cases hk.symm.trans hpid
          obtain rfl := Option.some.inj (hold.symm.trans hchild)
          refine .inr ⟨k, { old with phase := .reaped }, ?_, .inr ⟨hnone, rfl⟩, fun fd hfd => hends fd (hheld' fd hfd)⟩
          show (s.reap k).children[k]? = _
          rw [hchildren, List.getElem?_set_self (List.getElem?_eq_some_iff.mp hchild).1]
  · cases hended

/-- The pipes of a constructor that forks. -/
theorem held_piping (hok : impl.Ok) {pipes : List Nat} (hphase : impl.phase = .piping pipes) :
    impl.held = pipes.flatMap PipeEnd.both := by
  rw [Impl.Ok, hphase] at hok
  obtain ⟨-, hinput, houtput⟩ := hok
  rw [Impl.held, hphase, hinput, houtput, ImplPhase.held]
  exact List.append_nil _

theorem mem_both {fd : PipeEnd} {pipe : Nat} (h : fd ∈ PipeEnd.both pipe) : fd.pipe = pipe := by
  simp only [PipeEnd.both, List.mem_cons, List.not_mem_nil, or_false] at h
  rcases h with rfl | rfl <;> rfl

theorem nodup_of_both {pipes : List Nat} (h : (pipes.flatMap PipeEnd.both).Nodup) : pipes.Nodup := by
  apply (List.nodup_flatMap.mp h).2.imp
  intro pipe pipe' hdisjoint heq
  exact hdisjoint (a := ⟨pipe, false⟩) List.mem_cons_self (heq ▸ List.mem_cons_self)

theorem Apart.fork (h : s.Apart) (hbooks : s.Accounted) (himpl : s.impls[p]? = some impl)
    (hothers : ∀ q < s.impls.length, q ≠ p → ∀ other ∈ s.impls[q]?, other.held = []) {inPipe outPipe errPipe : Nat}
    (hphase : impl.phase = .piping [inPipe, outPipe, errPipe]) (hheld : impl.held.Perm impl'.held)
    (hpid : impl'.pid = some s.children.length)
    (hpiping : impl'.phase.isPiping = false) : ((s.fork inPipe outPipe errPipe).setImpl p impl').Apart := by
  have hmem := List.mem_of_getElem? himpl
  have hown := held_piping (hbooks.ok impl hmem) hphase
  have hpipes : ∀ fd ∈ impl.held, fd.pipe ∈ [inPipe, outPipe, errPipe] := by
    intro fd hfd
    rw [hown] at hfd
    obtain ⟨pipe, hpipe, hboth⟩ := List.mem_flatMap.mp hfd
    rw [mem_both hboth]
    exact hpipe
  have hends : ∀ pipe ∈ [inPipe, outPipe, errPipe], ⟨pipe, false⟩ ∈ impl.held := by
    intro pipe hpipe
    rw [hown]
    exact List.mem_flatMap.mpr ⟨pipe, hpipe, List.mem_cons_self⟩
  have hunforked := h.piping impl hmem (by rw [hphase]; rfl)
  have hopened : ∀ fd ∈ s.opened, fd ∈ impl.held := by
    intro fd hfd
    obtain ⟨other, hother, hfd⟩ := List.mem_flatMap.mp (hbooks.opened.mem_iff.mp hfd)
    obtain ⟨q, hq⟩ := List.mem_iff_getElem?.mp hother
    by_cases hqp : q = p
    · rw [hqp, himpl] at hq
      rw [Option.some.inj hq]
      exact hfd
    · rw [hothers q (List.getElem?_eq_some_iff.mp hq).1 hqp other hq] at hfd
      cases hfd
  have hnew : ∀ {k : Nat} {child : Child},
      (s.children ++ [⟨inPipe, outPipe, errPipe, s.opened, .forked, none⟩])[k]? = some child →
        s.children[k]? = some child ∨
          k = s.children.length ∧ child = ⟨inPipe, outPipe, errPipe, s.opened, .forked, none⟩ := by
    intro k child hk
    rcases Nat.lt_trichotomy k s.children.length with hlt | heq | hgt
    · rw [List.getElem?_append_left hlt] at hk
      exact .inl hk
    · rw [heq, List.getElem?_concat_length] at hk
      exact .inr ⟨heq, (Option.some.inj hk).symm⟩
    · rw [List.getElem?_eq_none (by simp; omega)] at hk
      cases hk
  have hlast : (s.children ++ [⟨inPipe, outPipe, errPipe, s.opened, .forked, none⟩])[s.children.length]? =
      some (⟨inPipe, outPipe, errPipe, s.opened, .forked, none⟩ : Child) := List.getElem?_concat_length ..
  constructor
  · intro child hchild
    rcases List.mem_append.mp hchild with hold | hnew
    · exact h.alone child hold
    · rw [List.mem_singleton.mp hnew]
      exact fun fd hfd => hpipes fd (hopened fd hfd)
  · intro child hchild
    rcases List.mem_append.mp hchild with hold | hnew
    · exact h.named child hold
    · rw [List.mem_singleton.mp hnew]
      constructor
      · have hnodup : (s.impls.flatMap Impl.held).Nodup := hbooks.opened.nodup_iff.mp hbooks.distinct
        have himplNodup := (List.nodup_flatMap.mp hnodup).1 impl hmem
        rw [hown] at himplNodup
        exact nodup_of_both himplNodup
      · intro pipe hpipe
        have hmade := hbooks.opened.mem himpl (hends pipe hpipe)
        exact hbooks.made _ hmade
  · intro k k' child child' hk hk' pipe hpipe hpipe'
    rcases hnew hk with hold | ⟨rfl, rfl⟩
    · rcases hnew hk' with hold' | ⟨rfl, rfl⟩
      · exact h.disjoint k k' child child' hold hold' pipe hpipe hpipe'
      · exact absurd hpipe (hunforked _ (hends pipe hpipe') child (List.mem_of_getElem? hold))
    · rcases hnew hk' with hold' | ⟨rfl, rfl⟩
      · exact absurd hpipe' (hunforked _ (hends pipe hpipe) child' (List.mem_of_getElem? hold'))
      · rfl
  · intro other hother
    rcases List.mem_iff_getElem?.mp hother with ⟨q, hq⟩
    replace hq : (s.impls.set p impl')[q]? = some other := hq
    rw [List.getElem?_set] at hq
    split_ifs at hq with hqp hlt
    · cases hq
      refine .inr ⟨s.children.length, _, hlast, .inl hpid, fun fd hfd => ?_⟩
      exact hpipes fd (hheld.mem_iff.mpr hfd)
    · refine .inl fun fd hfd => ?_
      rw [hothers q (List.getElem?_eq_some_iff.mp hq).1 (Ne.symm hqp) other hq] at hfd
      cases hfd
  · intro other hother hnewPiping
    rcases List.mem_iff_getElem?.mp hother with ⟨q, hq⟩
    replace hq : (s.impls.set p impl')[q]? = some other := hq
    rw [List.getElem?_set] at hq
    split_ifs at hq with hqp hlt
    · cases hq
      cases hpiping.symm.trans hnewPiping
    · intro fd hfd
      rw [hothers q (List.getElem?_eq_some_iff.mp hq).1 (Ne.symm hqp) other hq] at hfd
      cases hfd

theorem Apart.effect (h : s.Apart) (hbooks : s.Accounted) (himpl : s.impls[p]? = some impl)
    (hothers : impl.phase.isPiping = true → ∀ q < s.impls.length, q ≠ p → ∀ other ∈ s.impls[q]?, other.held = [])
    (hpiping : impl'.phase.isPiping = true → impl.phase.isPiping = true) (heffect : s.CallEffect p impl impl' s') :
    s'.Apart := by
  have hmem := List.mem_of_getElem? himpl
  cases heffect with
  | keep hheld hpid =>
      exact h.advance hmem (keepsPipes_of_same (Nat.le_refl _) rfl) h.alone rfl (fun fd hfd => hheld.mem_iff.mpr hfd)
        hpid hpiping
  | close fd hheld hpid =>
      have hopen : fd ∈ s.opened := hbooks.opened.mem himpl (hheld.mem_iff.mpr List.mem_cons_self)
      rw [close, if_pos hopen]
      exact h.advance hmem (keepsPipes_of_same (Nat.le_refl _) rfl) h.alone rfl
        (fun fd' hfd' => hheld.mem_iff.mpr (List.mem_cons_of_mem _ hfd')) hpid hpiping
  | pipe hphase hheld hnone hnone' =>
      have hkeeps : s.KeepsPipes
          ({ s with nextPipe := s.nextPipe + 1, opened := s.opened ++ PipeEnd.both s.nextPipe }.setImpl p impl') :=
        keepsPipes_of_same (Nat.le_succ _) rfl
      have hunforked : s.Unforked impl' := by
        intro fd hfd child hchild
        rcases List.mem_append.mp (hheld.mem_iff.mp hfd) with hold | hnew
        · exact h.piping impl hmem hphase fd hold child hchild
        · rw [mem_both hnew]
          exact fun hpipe => Nat.lt_irrefl _ ((h.named child hchild).2 _ hpipe)
      apply h.keep hkeeps h.alone
      intro other hother
      rcases List.mem_or_eq_of_mem_set hother with hold | rfl
      · exact .inl hold
      · exact .inr ⟨.inl (hunforked.keep hkeeps fun _ hfd => hfd), fun _ => hunforked.keep hkeeps fun _ hfd => hfd⟩
  | fork inPipe outPipe errPipe hphase hforked hheld hnone hpid =>
      exact h.fork hbooks himpl (hothers (by rw [hphase]; rfl)) hphase hheld hpid hforked
  | reap pid hended hheld hpid hnone => exact h.reap hmem hended hheld hpid hnone hpiping
  | abandon pid hheld hheld' hpid hnone =>
      have hkeeps : s.KeepsPipes ({ s with abandoned := pid :: s.abandoned }.setImpl p impl') :=
        keepsPipes_of_same (Nat.le_refl _) rfl
      have hunforked : Unforked ({ s with abandoned := pid :: s.abandoned }.setImpl p impl') impl' := by
        intro fd hfd
        rw [hheld'] at hfd
        cases hfd
      apply h.keep hkeeps h.alone
      intro other hother
      rcases List.mem_or_eq_of_mem_set hother with hold | rfl
      · exact .inl hold
      · exact .inr ⟨.inl hunforked, fun _ => hunforked⟩

theorem Apart.childStep (h : s.Apart) {ok : Child → Bool} {f : Child → Child}
    (hok : ∀ child, child.Alone → ok child = true →
      (f child).Alone ∧ (f child).pipes = child.pipes ∧ child.phase ≠ .reaped)
    (hstep : s.childStep pid ok f = some s') : s'.Apart := by
  obtain ⟨child, hchild, hguard, rfl⟩ := step_child hstep
  obtain ⟨halone, hpipes, hphase⟩ := hok child (h.alone child (List.mem_of_getElem? hchild)) hguard
  refine h.keep ?_ ?_ fun impl himpl => .inl himpl
  · exact keepsPipes_of_set hchild rfl rfl hpipes fun hreaped => absurd hreaped hphase
  · exact alone_set h.alone halone

theorem Apart.step {a : ProcessAction} (h : s.Apart) (hbooks : s.Accounted) (hok : StartsAlone a s)
    (hstep : step a s = some s') : s'.Apart := by
  cases a with
  | start =>
      obtain rfl := Option.some.inj hstep
      refine h.keep ?_ h.alone fun other hother => ?_
      · exact keepsPipes_of_same (Nat.le_refl _) rfl
      · rcases List.mem_append.mp hother with hold | hnew
        · exact .inl hold
        · rw [List.mem_singleton.mp hnew]
          exact .inr ⟨.inl fun _ hfd => (nomatch hfd), fun _ _ hfd => nomatch hfd⟩
  | call p result =>
      obtain ⟨impl, impl', himpl, -, heffect, hpiping⟩ :=
        step_call hstep hbooks.ok fun _ hmem _ hpid => hbooks.isChild_of_mem hmem hpid
      exact h.effect hbooks himpl (hok impl himpl) hpiping heffect
  | begin p op =>
      obtain ⟨impl, impl', himpl, hidle, -, heffect, hpiping⟩ := step_begin hstep hbooks.ok
      refine h.effect hbooks himpl (fun hnew => ?_) (fun hnew => ?_) heffect
      · rw [hidle] at hnew
        cases hnew
      · cases hpiping.symm.trans hnew
  | childExecs pid =>
      refine h.childStep (fun child halone hguard => ?_) hstep
      obtain ⟨hphase, -⟩ := of_decide_eq_true hguard
      exact ⟨halone.execs hphase, rfl, by rw [hphase]; nofun⟩
  | childFails pid error =>
      refine h.childStep (fun child halone hguard => ?_) hstep
      obtain ⟨hphase, -⟩ := of_decide_eq_true hguard
      refine ⟨?_, rfl, by rw [hphase]; nofun⟩
      exact halone
  | childCloses pid fd =>
      refine h.childStep (fun child halone hguard => ?_) hstep
      have hphase : child.phase = .executing := of_decide_eq_true hguard
      refine ⟨?_, rfl, by rw [hphase]; nofun⟩
      rw [Child.Alone, hphase] at halone
      rw [Child.Alone, hphase]
      exact fun fd' hfd' => halone fd' (List.mem_of_mem_erase hfd')
  | childExits pid =>
      refine h.childStep (fun child halone hguard => ?_) hstep
      refine ⟨rfl, rfl, ?_⟩
      rcases of_decide_eq_true hguard with hphase | hphase
      · rw [hphase]
        nofun
      · rw [hphase]
        nofun

theorem reachable_apart (hs : processSystem.ReachableIf StartsAlone s) : s.Apart := by
  refine hs.invariant_of Accounted Apart (fun _ => reachable_accounted) ?_ fun a s s' hbooks h hok hstep =>
    h.step hbooks hok hstep
  intro s hinit
  obtain rfl : s = {} := hinit
  exact ⟨fun _ h => (nomatch h), fun _ h => (nomatch h), fun _ _ _ _ h => (nomatch h), fun _ h => (nomatch h),
    fun _ h => nomatch h⟩

/-- No object holds an end of the pipes of a child whose own object has closed its streams. -/
theorem Apart.not_opened (h : s.Apart) (hbooks : s.Accounted) (himpl : s.impls[p]? = some impl)
    (hpid : impl.pid = some pid) (hheld : impl.held = []) (hchild : s.children[pid]? = some child)
    (hphase : child.phase ≠ .reaped) {fd : PipeEnd} (hfd : fd.pipe ∈ child.pipes) : fd ∉ s.opened := by
  intro hopened
  obtain ⟨other, hother, hmem⟩ := List.mem_flatMap.mp (hbooks.opened.mem_iff.mp hopened)
  rcases h.owners other hother with hunforked | ⟨k, child', hchild', howner, hends⟩
  · exact hunforked fd hmem child (List.mem_of_getElem? hchild) hfd
  · obtain rfl := h.disjoint k pid child' child hchild' hchild fd.pipe (hends fd hmem) hfd
    rcases howner with hk | ⟨-, hreaped⟩
    · obtain ⟨q, hq⟩ := List.mem_iff_getElem?.mp hother
      obtain rfl := hbooks.owner_unique hq himpl hk hpid
      obtain rfl := Option.some.inj (hq.symm.trans himpl)
      rw [hheld] at hmem
      cases hmem
    · obtain rfl := Option.some.inj (hchild'.symm.trans hchild)
      exact hphase hreaped

/-- The child that an object is waiting for finds the end of its input. -/
def ClosingReaches (s : Processes) : Prop :=
  ∀ impl ∈ s.impls, ∀ op, impl.phase = .killing op ∨ impl.phase = .waiting op → ∀ pid, impl.pid = some pid →
    ∀ child, s.children[pid]? = some child → child.phase = .executing → s.atEnd child.inPipe = true

/-- **`wait` and `terminate` let the child find the end of its input** in every run in which the pipes of a child are
made and it is forked while no other object holds an end. -/
theorem closing_reaches (hs : processSystem.ReachableIf StartsAlone s) : s.ClosingReaches := by
  intro impl himpl op hwaiting pid hpid child hchild hexecuting
  have h := reachable_apart hs
  have hbooks := reachable_accounted hs
  have hheld : impl.held = [] := by
    have hok := hbooks.ok impl himpl
    rw [Impl.Ok] at hok
    rcases hwaiting with hphase | hphase
    all_goals
      rw [hphase] at hok
      obtain ⟨-, hinput, houtput⟩ := hok
      rw [Impl.held, hphase, hinput, houtput]
      rfl
  have hne : child.phase ≠ .reaped := by
    rw [hexecuting]
    intro heq
    cases heq
  obtain ⟨p, hp⟩ := List.mem_iff_getElem?.mp himpl
  have hin : child.inPipe ∈ child.pipes := List.mem_cons_self
  apply decide_eq_true
  refine ⟨h.not_opened hbooks hp hpid hheld hchild hne hin, fun other hother hfd => ?_⟩
  have hmem := List.mem_of_getElem? hchild
  have halone := h.alone other hother
  obtain ⟨k, hk⟩ := List.mem_iff_getElem?.mp hother
  have hpipe : child.inPipe ∈ other.pipes := by
    cases hphase : other.phase with
    | forked =>
        rw [Child.Alone, hphase] at halone
        exact halone _ hfd
    | executing =>
        rw [Child.Alone, hphase] at halone
        rcases halone _ hfd with heq | heq
        · cases congrArg PipeEnd.writes heq
        · rw [PipeEnd.mk.injEq] at heq
          rw [heq.1]
          exact List.mem_cons_of_mem _ List.mem_cons_self
    | zombie | reaped =>
        rw [Child.Alone, hphase] at halone
        rw [halone] at hfd
        cases hfd
  obtain rfl := h.disjoint k pid other child hk hchild _ hpipe hin
  obtain rfl := Option.some.inj (hk.symm.trans hchild)
  rw [Child.Alone, hexecuting] at halone
  rcases halone _ hfd with heq | heq
  · cases heq
  · rw [PipeEnd.mk.injEq] at heq
    have hdistinct := (h.named other hmem).1
    rw [Child.pipes, heq.1] at hdistinct
    exact (List.nodup_cons.mp hdistinct).1 List.mem_cons_self

/-- A process is started and waited for, and then another. -/
def oneByOneRun : List ProcessAction :=
  [.start] ++ calls 0 8 ++ [.childExecs 0] ++ calls 0 3 ++ [.begin 0 .wait] ++ calls 0 3 ++ [.childExits 0] ++
    calls 0 1 ++ [.start] ++ calls 1 8 ++ [.childExecs 1] ++ calls 1 3 ++ [.begin 1 .wait] ++ calls 1 3

theorem closing_reaches_oneByOne :
    ∃ s, processSystem.runIf StartsAlone oneByOneRun {} = some s ∧
      s.impls.map Impl.phase = [.idle, .waiting .wait] ∧ s.ClosingReaches := by
  refine ⟨_, rfl, rfl, ?_⟩
  exact closing_reaches (Transition.System.reachableIf_of_runIf oneByOneRun (.init rfl) rfl)

/-- A second process is started while the first one runs. -/
def siblingsRun : List ProcessAction :=
  [.start] ++ calls 0 8 ++ [.childExecs 0] ++ calls 0 3 ++ [.start] ++ calls 1 8 ++ [.childExecs 1] ++ calls 1 3 ++
    [.begin 0 .wait] ++ calls 0 3

/-- Its child keeps the end of the first one's input, so that `wait` waits for both. -/
theorem siblingsRun_not_reaches :
    ∃ s, processSystem.run siblingsRun {} = some s ∧ ¬s.ClosingReaches := by
  refine ⟨_, rfl, fun h => ?_⟩
  exact absurd (h _ List.mem_cons_self .wait (.inr rfl) 0 rfl _ rfl rfl) (by decide)

end Processes

end LspCpp

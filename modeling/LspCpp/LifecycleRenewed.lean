import LspCpp.LifecycleFrames

/-! The window in which `startProcessingMessages` replaces the input and the parse pool. Outside it, both are those
of the current session. -/

namespace LspCpp

namespace LifecyclePhase

/-- A call of `startProcessingMessages`. -/
def isStarting : LifecyclePhase → Bool
  | .starting .. => true
  | .free | .stopping .. => false

/-- The parse pool has been stopped and no new one is in place. -/
def poolStopped : LifecyclePhase → Bool
  | .starting _ .output | .starting _ .async | .starting _ .bind | .starting _ .parsePool
  | .stopping _ .joinReader | .stopping _ .finish => true
  | _ => false

/-- The new input is in place. -/
def inputBound : LifecyclePhase → Bool
  | .starting _ .output | .starting _ .async | .starting _ .bind => false
  | phase => phase.isStarting

/-- The new parse pool is in place. -/
def poolRenewed : LifecyclePhase → Bool
  | .starting _ .parsePool => false
  | phase => phase.inputBound

end LifecyclePhase

namespace LifecycleState

variable {s s' : LifecycleState}

/-- The parse pool and the input are those of the current session, but for the window in which they are
replaced. -/
structure Renewed (s : LifecycleState) : Prop where
  current : s.parsePoolStopped = false → s.parsePool = s.generation
  idle : s.lifecycle = .free → s.working = false → s.parsePoolStopped = true
  begun : s.lifecycle.isStarting = true → s.working = true
  stopped : s.lifecycle.poolStopped = true → s.parsePoolStopped = true
  bound : s.lifecycle.inputBound = true → s.input = s.generation
  pooled : s.lifecycle.poolRenewed = true → s.parsePool = s.generation

theorem Renewed.frame (h : Renewed s) (hsame : SameLifecycle s s') : Renewed s' := by
  refine ⟨?_, ?_, ?_, ?_, ?_, ?_⟩
  · rw [hsame.parsePoolStopped, hsame.parsePool, hsame.generation]
    exact h.current
  · rw [hsame.working, hsame.lifecycle, hsame.parsePoolStopped]
    exact h.idle
  · rw [hsame.working, hsame.lifecycle]
    exact h.begun
  · rw [hsame.lifecycle, hsame.parsePoolStopped]
    exact h.stopped
  · rw [hsame.lifecycle, hsame.input, hsame.generation]
    exact h.bound
  · rw [hsame.lifecycle, hsame.parsePool, hsame.generation]
    exact h.pooled

theorem resume_sameLifecycle (s : LifecycleState) (caller : Caller) : SameLifecycle s (s.resume caller) := by
  rcases s.resume_cases caller with heq | ⟨_, _, _, _, _, heq⟩ | ⟨_, _, heq⟩ <;> rw [heq]
  all_goals constructor <;> rfl

theorem Renewed.startStep (h : Renewed s) {caller : Caller} {phase : StartPhase}
    (hlifecycle : s.lifecycle = .starting caller phase) (hstep : s.startStep caller phase = some s') :
    Renewed s' := by
  obtain ⟨hcurrent, hidle, hbegun, hstopped, hbound, hpooled⟩ := h
  rw [hlifecycle] at hidle hbegun hstopped hbound hpooled
  have hworking := hbegun rfl
  cases phase with
  | output =>
      cases hstep
      have hstop := hstopped rfl
      refine ⟨fun hrunning => ?_, ?_, fun _ => hworking, fun _ => hstop, ?_, ?_⟩
      · cases hstop.symm.trans hrunning
      all_goals exact fun hfalse => by cases hfalse
  | async =>
      cases hstep
      refine ⟨hcurrent, ?_, fun _ => hworking, fun _ => hstopped rfl, ?_, ?_⟩
      all_goals exact fun hfalse => by cases hfalse
  | bind =>
      cases hstep
      refine ⟨hcurrent, ?_, fun _ => hworking, fun _ => hstopped rfl, fun _ => rfl, ?_⟩
      all_goals exact fun hfalse => by cases hfalse
  | parsePool =>
      cases hstep
      refine ⟨fun _ => rfl, ?_, fun _ => hworking, ?_, fun _ => hbound rfl, fun _ => rfl⟩
      all_goals exact fun hfalse => by cases hfalse
  | joinParsers | joinWorkers | routing =>
      obtain ⟨_, rfl⟩ := Transition.of_guard hstep
      refine ⟨hcurrent, ?_, fun _ => hworking, ?_, fun _ => hbound rfl, fun _ => hpooled rfl⟩
      all_goals exact fun hfalse => by cases hfalse
  | handlerPool =>
      cases hstep
      refine ⟨hcurrent, ?_, fun _ => hworking, ?_, fun _ => hbound rfl, fun _ => hpooled rfl⟩
      all_goals exact fun hfalse => by cases hfalse
  | dispatcher =>
      obtain rfl | ⟨_, _, _, rfl⟩ := startStep_dispatcher hstep
      all_goals
        refine ⟨hcurrent, ?_, fun _ => hworking, ?_, fun _ => hbound rfl, fun _ => hpooled rfl⟩
        all_goals exact fun hfalse => by cases hfalse
  | reader =>
      cases hstep
      refine ⟨hcurrent, fun _ hidle => ?_, ?_, ?_, ?_, ?_⟩
      · cases hworking.symm.trans hidle
      all_goals exact fun hfalse => by cases hfalse

theorem Renewed.stopStep (h : Renewed s) {caller : Caller} {phase : ClearPhase}
    (hlifecycle : s.lifecycle = .stopping caller phase) (hstep : s.stopStep caller phase = some s') :
    Renewed s' := by
  obtain ⟨hcurrent, _, _, hstopped, _, _⟩ := h
  rw [hlifecycle] at hstopped
  cases phase with
  | quit | producer | output | dispatcher | async =>
      cases hstep
      refine ⟨hcurrent, ?_, ?_, ?_, ?_, ?_⟩
      all_goals exact fun hfalse => by cases hfalse
  | routing | joinAsync =>
      obtain ⟨_, rfl⟩ := Transition.of_guard hstep
      refine ⟨hcurrent, ?_, ?_, ?_, ?_, ?_⟩
      all_goals exact fun hfalse => by cases hfalse
  | joinLoop =>
      rw [stopStep_joinLoop hstep]
      refine ⟨hcurrent, ?_, ?_, ?_, ?_, ?_⟩
      all_goals exact fun hfalse => by cases hfalse
  | pools =>
      cases hstep
      refine ⟨?_, ?_, ?_, fun _ => rfl, ?_, ?_⟩
      all_goals exact fun hfalse => by cases hfalse
  | joinReader =>
      rw [(stopStep_joinReader hstep).2]
      refine ⟨hcurrent, ?_, ?_, fun _ => hstopped rfl, ?_, ?_⟩
      all_goals exact fun hfalse => by cases hfalse
  | finish =>
      cases hstep
      have hfree : Renewed { s with lifecycle := .free, messageProducerThread := none, working := false } := by
        refine ⟨hcurrent, fun _ _ => hstopped rfl, ?_, ?_, ?_, ?_⟩
        all_goals exact fun hfalse => by cases hfalse
      exact hfree.frame (resume_sameLifecycle _ caller)

theorem Renewed.step (h : Renewed s) {a : LifecycleAction} (hstep : LifecycleState.step a s = some s') :
    Renewed s' := by
  rcases step_kinds hstep with hlife | hread | hroute | hloop | hwork
  · rcases lifecycleStep_cases hlife with ⟨caller, hfree, hworking, rfl⟩ | ⟨caller, hfree, _, rfl | rfl⟩ |
      ⟨caller, phase, _, hlifecycle, hstart⟩ | ⟨caller, phase, hlifecycle, hstop⟩
    · refine ⟨h.current, ?_, fun _ => rfl, fun _ => h.idle hfree hworking, ?_, ?_⟩
      all_goals exact fun hfalse => by cases hfalse
    · refine ⟨h.current, ?_, ?_, ?_, ?_, ?_⟩
      all_goals exact fun hfalse => by cases hfalse
    · exact h.frame (resume_sameLifecycle s caller)
    · exact h.startStep hlifecycle hstart
    · exact h.stopStep hlifecycle hstop
  · exact h.frame (readerStep_sameLifecycle hread)
  · exact h.frame (routeStep_sameLifecycle hroute)
  · exact h.frame (loopStep_sameLifecycle hloop)
  · exact h.frame (workerStep_sameLifecycle hwork)

theorem reachable_renewed {ok : LifecycleAction → LifecycleState → Prop} (hs : lifecycleSystem.ReachableIf ok s) :
    Renewed s := by
  refine hs.invariant Renewed ?_ fun a s s' h _ hstep => h.step hstep
  rintro s ⟨limits, concurrentNotifications, rfl⟩
  refine ⟨?_, fun _ _ => rfl, ?_, ?_, ?_, ?_⟩
  all_goals exact fun hfalse => by cases hfalse

end LifecycleState

end LspCpp

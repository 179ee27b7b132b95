import LspCpp.LifecycleIsolation

/-! The slots of the parse queue. A slot is taken when a task is posted and given back by the task itself, so
the slots of the tasks that a stopped pool discards are lost: the counter is that of the tasks in every run in
which no pool is stopped over a backlog. -/

namespace LspCpp

namespace LifecyclePhase

/-- A call of `startProcessingMessages` has installed the output state of its session. -/
def outputInstalled : LifecyclePhase → Bool
  | .starting _ .output => false
  | phase => phase.isStarting

/-- The threads of the parse pool before have ended. -/
def parsersJoined : LifecyclePhase → Bool
  | .starting _ .joinParsers => false
  | phase => phase.poolRenewed

/-- A call of `stop` has come to a statement. -/
def stops (phase : ClearPhase) : LifecyclePhase → Bool
  | .stopping _ current => current = phase
  | .free | .starting .. => false

theorem isStarting_of_outputInstalled {phase : LifecyclePhase} (h : phase.outputInstalled = true) :
    phase.isStarting = true := by
  cases phase with
  | starting caller phase => rfl
  | _ => cases h

theorem outputInstalled_of_parsersJoined {phase : LifecyclePhase} (h : phase.parsersJoined = true) :
    phase.outputInstalled = true := by
  cases phase with
  | starting caller phase => cases phase <;> first | rfl | cases h
  | _ => cases h

end LifecyclePhase

namespace LifecycleState

variable {s s' : LifecycleState}

/-- A queued task is one of a pool that has not been stopped. -/
def mayRun (s : LifecycleState) (task : ParseTask) : Bool := task.pool == s.parsePool && !s.parsePoolStopped

/-- The number of parse tasks that may still run or are running. -/
def parseTasks (s : LifecycleState) : Nat := (s.parseQueue.filter s.mayRun).length + s.parsing.length

/-- The counter is that of the tasks, and no slot is taken in a session that has just been started. -/
def SlotsAccounted (s : LifecycleState) : Prop :=
  s.parseQueueSize = s.parseTasks ∧
    ∀ s', s.lifecycle.starts .reader = true → step .advance s = some s' → s'.parseQueueSize = 0

/-- No task waits in the parse pool when `stop` stops it, and no reader goes past its check of `quit` to post a task
to a stopped pool or while `startProcessingMessages` is under way. -/
def NoBacklog : LifecycleAction → LifecycleState → Prop
  | .advance, s => s.lifecycle.stops .pools = true → ∀ task ∈ s.parseQueue, s.mayRun task = false
  | .postParseTask _, s => s.quit = false → s.parsePoolStopped = false ∧ s.lifecycle.isStarting = false
  | _, _ => True

instance (a : LifecycleAction) (s : LifecycleState) : Decidable (NoBacklog a s) :=
  match a with
  | .advance => inferInstanceAs
      (Decidable (s.lifecycle.stops .pools = true → ∀ task ∈ s.parseQueue, s.mayRun task = false))
  | .postParseTask _ => inferInstanceAs
      (Decidable (s.quit = false → s.parsePoolStopped = false ∧ s.lifecycle.isStarting = false))
  | .start _ | .stop _ | .enterListen _ | .checkRunning _ | .receive _ | .deliver _ | .frameTooLarge _
  | .leaveListen .. | .dropNewest _ | .afterOverload _ | .parseBegins _ | .submit .. | .takeState | .route | .release
  | .take _ | .exit _ | .runHandler _ | .handlerSends _ | .handlerReturns _ | .complete _ | .postParked _ | .wait _
  | .workBegins _ | .workSends _ | .workLater _ | .workEnds _ | .asyncTake | .asyncRun _ =>
      inferInstanceAs (Decidable True)

/-- The counter and what it counts. -/
structure Slots (s : LifecycleState) : Prop where
  balanced : s.parseQueueSize = s.parseTasks
  overloaded : s.overloaded.Nodup ∧ ∀ task ∈ s.overloaded, task ∈ s.parsing
  pool : s.parsePool ≤ s.generation
  bound : ∀ task ∈ s.parseQueue ++ s.parsing, task.pool ≤ s.generation
  renewing : s.lifecycle.outputInstalled = true → ∀ task ∈ s.parseQueue ++ s.parsing, task.pool < s.generation
  joined : s.lifecycle.parsersJoined = true → s.parsing = []

theorem parseTasks_of_stopped (h : s.parsePoolStopped = true) : s.parseTasks = s.parsing.length := by
  have hnone : s.parseQueue.filter s.mayRun = [] := by
    apply List.filter_eq_nil_iff.mpr
    intro task _
    simp [mayRun, h]
  rw [parseTasks, hnone, List.length_nil, Nat.zero_add]

/-- The parse pool, its tasks and their slots. -/
def parsePart (s : LifecycleState) : Nat × List ParseTask × List ParseTask × List ParseTask × Nat × Bool × Nat :=
  (s.parseQueueSize, s.parseQueue, s.parsing, s.overloaded, s.parsePool, s.parsePoolStopped, s.generation)

/-- A statement of `startProcessingMessages` or `stop` that leaves the parse pool alone. -/
theorem Slots.goOn (h : Slots s) (hsame : s'.parsePart = s.parsePart)
    (hinstalled : s'.lifecycle.outputInstalled = true → s.lifecycle.outputInstalled = true)
    (hjoined : s'.lifecycle.parsersJoined = true → s.lifecycle.parsersJoined = true) : Slots s' := by
  simp only [parsePart, Prod.mk.injEq] at hsame
  obtain ⟨hsize, hqueue, hparsing, hoverloaded, hpool, hstopped, hgeneration⟩ := hsame
  have hmayRun : s'.mayRun = s.mayRun := by
    funext task
    rw [mayRun, mayRun, hpool, hstopped]
  constructor
  · rw [parseTasks, hsize, hqueue, hparsing, hmayRun]
    exact h.balanced
  · rw [hoverloaded, hparsing]
    exact h.overloaded
  · rw [hpool, hgeneration]
    exact h.pool
  · rw [hqueue, hparsing, hgeneration]
    exact h.bound
  · rw [hqueue, hparsing, hgeneration]
    exact fun hphase => h.renewing (hinstalled hphase)
  · rw [hparsing]
    exact fun hphase => h.joined (hjoined hphase)

/-- A statement after which no output state has been installed by a start that is under way. -/
theorem Slots.outsideStart (h : Slots s) (hsame : s'.parsePart = s.parsePart)
    (hnot : s'.lifecycle.outputInstalled = false) : Slots s' := by
  have hnone : s'.lifecycle.outputInstalled ≠ true := by
    rw [hnot]
    exact Bool.false_ne_true
  apply h.goOn hsame
  · exact fun hinstalled => absurd hinstalled hnone
  · exact fun hjoined => absurd (LifecyclePhase.outputInstalled_of_parsersJoined hjoined) hnone

/-- A step that moves no parse task. -/
theorem Slots.congr (h : Slots s) (hsame : SameLifecycle s s') (hsize : s'.parseQueueSize = s.parseQueueSize)
    (hqueue : s'.parseQueue = s.parseQueue) (hparsing : s'.parsing = s.parsing)
    (hoverloaded : s'.overloaded = s.overloaded) : Slots s' := by
  have hpart : s'.parsePart = s.parsePart := by
    simp only [parsePart, hsize, hqueue, hparsing, hoverloaded, hsame.parsePool, hsame.parsePoolStopped,
      hsame.generation]
  apply h.goOn hpart
  all_goals
    rw [hsame.lifecycle]
    exact id

/-- A parse task that is not in `handleOverload` ends. -/
theorem Slots.endParse (h : Slots s) {task : ParseTask} (htask : task ∈ s.parsing) (hfree : task ∉ s.overloaded) :
    Slots (s.endParse task) := by
  have hsub : ∀ other ∈ s.parseQueue ++ s.parsing.erase task, other ∈ s.parseQueue ++ s.parsing := by
    intro other hother
    rcases List.mem_append.mp hother with hother | hother
    · exact List.mem_append_left _ hother
    · exact List.mem_append_right _ (List.mem_of_mem_erase hother)
  refine ⟨?_, ⟨h.overloaded.1, fun other hother => ?_⟩, h.pool, fun other hother => h.bound other (hsub other hother),
    fun hphase other hother => h.renewing hphase other (hsub other hother), fun hphase => ?_⟩
  · have hbalanced := h.balanced
    have hpos := List.length_pos_of_mem htask
    change s.parseQueueSize - 1 = (s.parseQueue.filter s.mayRun).length + (s.parsing.erase task).length
    rw [parseTasks] at hbalanced
    rw [List.length_erase_of_mem htask]
    omega
  · have hne : other ≠ task := fun heq => hfree (heq ▸ hother)
    exact (List.mem_erase_of_ne hne).mpr (h.overloaded.2 other hother)
  · rw [h.joined hphase] at htask
    cases htask

/-- A parse task leaves `handleOverload`. -/
theorem Slots.leaveOverload (h : Slots s) (task : ParseTask) :
    Slots { s with overloaded := s.overloaded.erase task } :=
  { h with
    overloaded := ⟨h.overloaded.1.erase task, fun other hother =>
      h.overloaded.2 other (List.mem_of_mem_erase hother)⟩ }

theorem Slots.resume (h : Slots s) {caller : Caller} (hcaller : ∀ task, caller = .parser task → task ∈ s.overloaded) :
    Slots (s.resume caller) := by
  rcases s.resume_cases caller with heq | ⟨_, _, _, _, _, heq⟩ | ⟨task, hparser, heq⟩ <;> rw [heq]
  · exact h
  · exact { h with }
  · have htask := hcaller task hparser
    exact (h.leaveOverload task).endParse (h.overloaded.2 task htask) (h.overloaded.1.not_mem_erase)

theorem Slots.startStep (h : Slots s) (hrenewed : Renewed s) {caller : Caller} {phase : StartPhase}
    (hlifecycle : s.lifecycle = .starting caller phase) (hstep : s.startStep caller phase = some s') :
    Slots s' := by
  cases phase with
  | output =>
      cases hstep
      refine ⟨h.balanced, h.overloaded, Nat.le_succ_of_le h.pool,
        fun task htask => Nat.le_succ_of_le (h.bound task htask),
        fun _ task htask => Nat.lt_succ_of_le (h.bound task htask), ?_⟩
      exact fun hfalse => by cases hfalse
  | async | bind =>
      cases hstep
      refine h.goOn rfl (fun _ => by rw [hlifecycle]; rfl) ?_
      exact fun hfalse => by cases hfalse
  | parsePool =>
      cases hstep
      have holder := h.renewing (by rw [hlifecycle]; rfl)
      have hstopped := hrenewed.stopped (by rw [hlifecycle]; rfl)
      have hnone : s.parseQueue.filter
          (mayRun { s with
            lifecycle := .starting caller .joinParsers, parsePool := s.generation, parsePoolStopped := false }) =
              [] := by
        apply List.filter_eq_nil_iff.mpr
        intro task htask
        have hlt := holder task (List.mem_append_left _ htask)
        simp only [mayRun, Bool.not_false, Bool.and_true, beq_iff_eq]
        omega
      refine ⟨?_, h.overloaded, Nat.le_refl _, h.bound, fun _ => holder, ?_⟩
      · rw [parseTasks, hnone, List.length_nil, Nat.zero_add]
        exact h.balanced.trans (parseTasks_of_stopped hstopped)
      · exact fun hfalse => by cases hfalse
  | joinParsers =>
      obtain ⟨hended, rfl⟩ := Transition.of_guard hstep
      have holder := h.renewing (by rw [hlifecycle]; rfl)
      have hpool := hrenewed.pooled (by rw [hlifecycle]; rfl)
      have hparsing : s.parsing = [] := by
        apply List.eq_nil_iff_forall_not_mem.mpr
        intro task htask
        have hlt := holder task (List.mem_append_right _ htask)
        exact Nat.ne_of_lt hlt (hended task htask)
      have hsub : ∀ task ∈ s.parseQueue.filter (fun task => task.pool = s.generation) ++ s.parsing,
          task ∈ s.parseQueue ++ s.parsing := by
        intro task htask
        rcases List.mem_append.mp htask with htask | htask
        · exact List.mem_append_left _ (List.mem_filter.mp htask).1
        · exact List.mem_append_right _ htask
      refine ⟨?_, h.overloaded, h.pool, fun task htask => h.bound task (hsub task htask),
        fun _ task htask => holder task (hsub task htask), fun _ => hparsing⟩
      rw [parseTasks, List.filter_filter]
      refine h.balanced.trans ?_
      rw [parseTasks]
      congr 2
      apply List.filter_congr
      intro task _
      by_cases hnew : task.pool = s.generation
      · simp [mayRun, hnew]
      · simp [mayRun, hnew, hpool]
  | handlerPool =>
      cases hstep
      exact h.goOn rfl (fun _ => by rw [hlifecycle]; rfl) fun _ => by rw [hlifecycle]; rfl
  | joinWorkers | routing =>
      obtain ⟨_, rfl⟩ := Transition.of_guard hstep
      exact h.goOn rfl (fun _ => by rw [hlifecycle]; rfl) fun _ => by rw [hlifecycle]; rfl
  | dispatcher =>
      obtain rfl | ⟨_, _, _, rfl⟩ := startStep_dispatcher hstep
      all_goals
        exact h.goOn rfl (fun _ => by rw [hlifecycle]; rfl) fun _ => by rw [hlifecycle]; rfl
  | reader =>
      cases hstep
      exact h.outsideStart rfl rfl

theorem Slots.stopStep (h : Slots s) (hholds : ParserHolds s) {caller : Caller} {phase : ClearPhase}
    (hlifecycle : s.lifecycle = .stopping caller phase)
    (hok : phase = .pools → ∀ task ∈ s.parseQueue, s.mayRun task = false)
    (hstep : s.stopStep caller phase = some s') : Slots s' := by
  cases phase with
  | quit | producer | output | dispatcher | async =>
      cases hstep
      exact h.outsideStart rfl rfl
  | routing | joinAsync =>
      obtain ⟨_, rfl⟩ := Transition.of_guard hstep
      exact h.outsideStart rfl rfl
  | joinLoop =>
      rw [stopStep_joinLoop hstep]
      exact h.outsideStart rfl rfl
  | pools =>
      cases hstep
      have hnone : s.parseQueue.filter s.mayRun = [] := by
        apply List.filter_eq_nil_iff.mpr
        intro task htask
        simp [hok rfl task htask]
      refine ⟨?_, h.overloaded, h.pool, h.bound, ?_, ?_⟩
      · rw [parseTasks_of_stopped rfl]
        refine h.balanced.trans ?_
        rw [parseTasks, hnone, List.length_nil, Nat.zero_add]
      all_goals exact fun hfalse => by cases hfalse
  | joinReader =>
      rw [(stopStep_joinReader hstep).2]
      exact h.outsideStart rfl rfl
  | finish =>
      cases hstep
      have hdone : Slots { s with lifecycle := .free, messageProducerThread := none, working := false } := by
        exact h.outsideStart rfl rfl
      refine hdone.resume fun task heq => hholds.caller task .finish ?_
      rw [hlifecycle, heq]

theorem Slots.lifecycleStep (h : Slots s) (hrenewed : Renewed s) (hholds : ParserHolds s) {a : LifecycleAction}
    (hok : NoBacklog a s) (hstep : LifecycleState.lifecycleStep a s = some s') : Slots s' := by
  cases a with
  | start caller =>
      obtain ⟨_, _, rfl⟩ := step_start hstep
      exact h.outsideStart rfl rfl
  | stop caller =>
      obtain ⟨_, hmay, rfl | ⟨_, _, rfl⟩⟩ := step_stop hstep
      · exact h.outsideStart rfl rfl
      · refine h.resume fun task heq => ?_
        rw [heq] at hmay
        exact of_decide_eq_true hmay
  | advance =>
      obtain ⟨caller, phase, hlifecycle, hstart⟩ | ⟨caller, phase, hlifecycle, hstop⟩ := step_advance hstep
      · exact h.startStep hrenewed hlifecycle hstart
      · refine h.stopStep hholds hlifecycle (fun hpools => hok ?_) hstop
        rw [hlifecycle, hpools]
        rfl
  | _ => cases hstep

/-- A task is posted to a pool that runs. -/
theorem Slots.post (h : Slots s) {session sequence : Nat} {buffer : List Nat} (hrunning : s.parsePoolStopped = false)
    (hstarting : s.lifecycle.isStarting = false) :
    Slots (LifecycleState.setReader
      { s with
        parseQueueSize := s.parseQueueSize + 1
        parseQueue := s.parseQueue ++ [⟨sequence, s.parsePool⟩] } session ⟨buffer, .looping⟩) := by
  have hnot : s.lifecycle.outputInstalled ≠ true := by
    intro hinstalled
    rw [LifecyclePhase.isStarting_of_outputInstalled hinstalled] at hstarting
    cases hstarting
  refine ⟨?_, h.overloaded, h.pool, fun task htask => ?_, fun hinstalled => absurd hinstalled hnot,
    fun hjoined => absurd (LifecyclePhase.outputInstalled_of_parsersJoined hjoined) hnot⟩
  · have hmayRun : s.mayRun ⟨sequence, s.parsePool⟩ = true := by
      simp [mayRun, hrunning]
    change s.parseQueueSize + 1 =
      ((s.parseQueue ++ [(⟨sequence, s.parsePool⟩ : ParseTask)]).filter s.mayRun).length + s.parsing.length
    rw [h.balanced, parseTasks, List.filter_append, List.length_append, List.filter_cons_of_pos hmayRun]
    simp only [List.filter_nil, List.length_singleton]
    omega
  · have htask : task ∈ (s.parseQueue ++ [(⟨sequence, s.parsePool⟩ : ParseTask)]) ++ s.parsing := htask
    simp only [List.mem_append, List.mem_singleton] at htask
    rcases htask with (htask | rfl) | htask
    · exact h.bound task (List.mem_append_left _ htask)
    · exact h.pool
    · exact h.bound task (List.mem_append_right _ htask)

/-- A queued task begins. -/
theorem Slots.begin (h : Slots s) (hrenewed : Renewed s) {task : ParseTask} (htask : task ∈ s.parseQueue)
    (hpool : task.pool = s.parsePool) (hrunning : s.parsePoolStopped = false) :
    Slots { s with parseQueue := s.parseQueue.erase task, parsing := s.parsing ++ [task] } := by
  have hperm : s.parseQueue.Perm (task :: s.parseQueue.erase task) := List.perm_cons_erase htask
  have hmem : ∀ other, other ∈ s.parseQueue.erase task ++ (s.parsing ++ [task]) →
      other ∈ s.parseQueue ++ s.parsing := by
    intro other hother
    rw [List.mem_append, hperm.mem_iff, List.mem_cons]
    simp only [List.mem_append, List.mem_singleton] at hother
    tauto
  have hnot : s.lifecycle.outputInstalled ≠ true := by
    intro hinstalled
    have hlt := h.renewing hinstalled task (List.mem_append_left _ htask)
    rw [hpool, hrenewed.current hrunning] at hlt
    exact Nat.lt_irrefl _ hlt
  refine ⟨?_, ⟨h.overloaded.1, fun other hother => List.mem_append_left _ (h.overloaded.2 other hother)⟩, h.pool,
    fun other hother => h.bound other (hmem other hother), fun hinstalled => absurd hinstalled hnot,
    fun hjoined => absurd (LifecyclePhase.outputInstalled_of_parsersJoined hjoined) hnot⟩
  have hmayRun : s.mayRun task = true := by
    simp [mayRun, hpool, hrunning]
  have hcount := (hperm.filter s.mayRun).length_eq
  rw [List.filter_cons_of_pos hmayRun, List.length_cons] at hcount
  change s.parseQueueSize = ((s.parseQueue.erase task).filter s.mayRun).length + (s.parsing ++ [task]).length
  rw [h.balanced, parseTasks, hcount, List.length_append, List.length_singleton]
  omega

/-- A reader takes a slot for the task that it posts, and changes nothing else here. -/
theorem Slots.readerStep (h : Slots s) {a : LifecycleAction} (hok : NoBacklog a s)
    (hstep : LifecycleState.readerStep a s = some s') : Slots s' := by
  have hsame := readerStep_sameLifecycle hstep
  cases a with
  | postParseTask session =>
      obtain ⟨buffer, sequence, _, ⟨_, _, rfl⟩ | ⟨hquit, rfl⟩⟩ := step_postParseTask hstep
      · exact h.congr hsame rfl rfl rfl rfl
      · obtain ⟨hrunning, hstarting⟩ := hok hquit
        exact h.post hrunning hstarting
  | dropNewest session =>
      obtain ⟨_, _, _, _, rfl | ⟨_, _, _, _, rfl⟩⟩ := step_dropNewest hstep
      all_goals exact h.congr hsame rfl rfl rfl rfl
  | _ =>
      obtain ⟨_, _, _, _, rfl⟩ :=
        readerStep_buffer hstep (fun _ heq => by cases heq) fun _ heq => by cases heq
      exact h.congr hsame rfl rfl rfl rfl

theorem Slots.routeStep (h : Slots s) (hrenewed : Renewed s) (hholds : ParserHolds s) {a : LifecycleAction}
    (hstep : LifecycleState.routeStep a s = some s') : Slots s' := by
  have hsame := routeStep_sameLifecycle hstep
  cases a with
  | parseBegins task =>
      obtain ⟨htask, hpool, hrunning, rfl⟩ := step_parseBegins hstep
      exact h.begin hrenewed htask hpool hrunning
  | submit task parsed =>
      obtain ⟨htask, hfree, _, rfl | rfl | ⟨_, _, _, rfl⟩⟩ := step_submit hstep
      · exact h.endParse htask hfree
      · refine { h with overloaded := ⟨?_, fun other hother => ?_⟩ }
        · exact h.overloaded.1.append (List.nodup_singleton task) (by simpa using hfree)
        · rcases List.mem_append.mp hother with hother | hother
          · exact h.overloaded.2 other hother
          · exact List.mem_singleton.mp hother ▸ htask
      · exact h.congr hsame rfl rfl rfl rfl
  | takeState =>
      obtain ⟨_, _, _, _, _, _, rfl⟩ := step_takeState hstep
      exact h.congr hsame rfl rfl rfl rfl
  | route =>
      obtain ⟨holder, item, state, rest, _, rfl⟩ := step_route hstep
      obtain ⟨_, _, _, _, heq⟩ :=
        routeParsedIncoming_frame { s with dispatch := some ⟨holder, none, rest⟩ } item state
      rw [heq] at hsame ⊢
      exact h.congr hsame rfl rfl rfl rfl
  | release =>
      obtain ⟨holder, hdispatch, rfl⟩ := step_release hstep
      cases holder with
      | parser task =>
          obtain ⟨htask, hfree⟩ := hholds.holder _ task hdispatch rfl
          exact { h.endParse htask hfree with }
      | reader session =>
          rw [endDispatch] at hsame ⊢
          split at hsame <;> exact h.congr hsame rfl rfl rfl rfl
  | _ => cases hstep

theorem Slots.step (h : Slots s) (hrenewed : Renewed s) (hholds : ParserHolds s) {a : LifecycleAction}
    (hok : NoBacklog a s) (hstep : LifecycleState.step a s = some s') : Slots s' := by
  rcases step_kinds hstep with hlife | hread | hroute | hloop | hwork
  · exact h.lifecycleStep hrenewed hholds hok hlife
  · exact h.readerStep hok hread
  · exact h.routeStep hrenewed hholds hroute
  · have hsame := loopStep_sameLifecycle hloop
    obtain ⟨_, _, _, _, _, rfl⟩ := loopStep_frame hloop
    exact h.congr hsame rfl rfl rfl rfl
  · have hsame := workerStep_sameLifecycle hwork
    obtain ⟨_, _, _, _, _, rfl⟩ := workerStep_frame hwork
    exact h.congr hsame rfl rfl rfl rfl

theorem reachable_slots (hs : lifecycleSystem.ReachableIf NoBacklog s) : Slots s := by
  refine hs.invariant_of (fun s => Renewed s ∧ ParserHolds s) Slots
    (fun _ hr => ⟨reachable_renewed hr, reachable_parserHolds hr⟩) ?_
    fun _ _ _ hknown h hok hstep => h.step hknown.1 hknown.2 hok hstep
  rintro s ⟨limits, concurrentNotifications, rfl⟩
  refine ⟨rfl, ⟨List.nodup_nil, ?_⟩, Nat.le_refl _, ?_, ?_, ?_⟩
  · exact fun _ hmem => by cases hmem
  · exact fun _ hmem => by cases hmem
  · exact fun hfalse => by cases hfalse
  · exact fun hfalse => by cases hfalse

/-- When a start comes to its last statement, the tasks of the earlier sessions have ended or are lost with their
pool, and the new pool has none. -/
theorem Slots.parseTasks_reader (h : Slots s) (hrenewed : Renewed s) (hreader : s.lifecycle.starts .reader = true) :
    s.parseTasks = 0 := by
  obtain ⟨caller, hlifecycle⟩ : ∃ caller, s.lifecycle = .starting caller .reader := by
    cases hphase : s.lifecycle with
    | starting caller phase =>
        rw [hphase] at hreader
        exact ⟨caller, by rw [of_decide_eq_true hreader]⟩
    | _ =>
        rw [hphase] at hreader
        cases hreader
  have hparsing := h.joined (by rw [hlifecycle]; rfl)
  have holder := h.renewing (by rw [hlifecycle]; rfl)
  have hpool := hrenewed.pooled (by rw [hlifecycle]; rfl)
  have hnone : s.parseQueue.filter s.mayRun = [] := by
    apply List.filter_eq_nil_iff.mpr
    intro task htask
    have hlt := holder task (List.mem_append_left _ htask)
    have hne : task.pool ≠ s.parsePool := by omega
    simp [mayRun, hne]
  rw [parseTasks, hnone, hparsing]
  rfl

/-- A pool that is stopped over a backlog keeps its slots. -/
theorem Slots.lost (h : Slots s) (hbacklog : ¬NoBacklog .advance s) (hstep : LifecycleState.step .advance s = some s') :
    s'.parseTasks < s'.parseQueueSize := by
  rw [NoBacklog] at hbacklog
  push Not at hbacklog
  obtain ⟨hpools, task, htask, hmayRun⟩ := hbacklog
  obtain ⟨caller, phase, hlifecycle, _⟩ | ⟨caller, phase, hlifecycle, hstop⟩ := step_advance hstep
  · rw [hlifecycle] at hpools
    cases hpools
  · rw [hlifecycle] at hpools
    obtain rfl : phase = .pools := of_decide_eq_true hpools
    cases hstop
    rw [parseTasks_of_stopped rfl]
    have hmem : task ∈ s.parseQueue.filter s.mayRun := List.mem_filter.mpr ⟨htask, by simpa using hmayRun⟩
    have hpos := List.length_pos_of_mem hmem
    have hbalanced := h.balanced
    rw [parseTasks] at hbalanced
    change s.parsing.length < s.parseQueueSize
    omega

/-- **Parse slots are accounted for** in every run in which no parse pool is stopped over a backlog and no task is
posted to a stopped pool or during a start; and a pool that is stopped over a backlog breaks the account. -/
theorem slotsAccounted_of_noBacklog (s : LifecycleState) (hs : lifecycleSystem.ReachableIf NoBacklog s) :
    SlotsAccounted s ∧
      ∀ s', ¬NoBacklog .advance s → step .advance s = some s' → ¬SlotsAccounted s' := by
  have hslots := reachable_slots hs
  have hrenewed := reachable_renewed hs
  refine ⟨⟨hslots.balanced, fun s' hreader hstep => ?_⟩, fun s' hbacklog hstep haccounted => ?_⟩
  · have hzero := hslots.parseTasks_reader hrenewed hreader
    obtain ⟨caller, phase, hlifecycle, hstart⟩ | ⟨caller, phase, hlifecycle, _⟩ := step_advance hstep
    · rw [hlifecycle] at hreader
      obtain rfl : phase = .reader := of_decide_eq_true hreader
      cases hstart
      exact hslots.balanced.trans hzero
    · rw [hlifecycle] at hreader
      cases hreader
  · have hlost := hslots.lost hbacklog hstep
    rw [haccounted.1] at hlost
    exact Nat.lt_irrefl _ hlost

/-- The slot of the first session's message has been given back when the second session is started. -/
theorem slotsAccounted_of_noBacklog_restart :
    ∃ s, lifecycleSystem.runIf NoBacklog restartAfterParseRun {} = some s ∧ s.generation = 2 ∧
      s.parseQueueSize = 0 ∧ SlotsAccounted s := by
  obtain ⟨s, hrun, hgeneration, hsize⟩ : ∃ s, lifecycleSystem.runIf NoBacklog restartAfterParseRun {} = some s ∧
      s.generation = 2 ∧ s.parseQueueSize = 0 := ⟨_, rfl, rfl, rfl⟩
  have haccounted := slotsAccounted_of_noBacklog s
    (Transition.System.reachableIf_of_runIf restartAfterParseRun (.init ⟨{}, [], rfl⟩) hrun)
  exact ⟨s, hrun, hgeneration, hsize, haccounted.1⟩

/-- The first session is stopped with a message in its parse queue. -/
def restartOverBacklogRun : List LifecycleAction :=
  startCall .application ++ [.enterListen 1, .checkRunning 1, .receive 1, .deliver 1, .postParseTask 1] ++
    stopCall 1 ++ startCall .application

/-- With a limit of one, the second session has no slot left when it has just been started. -/
theorem restartOverBacklogRun_loses_slot :
    ∃ s, lifecycleSystem.run restartOverBacklogRun { limits := { maxParseQueueSize := 1 } } = some s ∧
      s.generation = 2 ∧ s.parseQueueSize = 1 ∧ s.parseTasks = 0 ∧ s.parseQueueFull = true ∧ ¬SlotsAccounted s := by
  obtain ⟨s, hrun, hgeneration, hsize, htasks, hfull⟩ :
      ∃ s, lifecycleSystem.run restartOverBacklogRun { limits := { maxParseQueueSize := 1 } } = some s ∧
        s.generation = 2 ∧ s.parseQueueSize = 1 ∧ s.parseTasks = 0 ∧ s.parseQueueFull = true :=
    ⟨_, rfl, rfl, rfl, rfl, rfl⟩
  refine ⟨s, hrun, hgeneration, hsize, htasks, hfull, fun haccounted => ?_⟩
  have hbalanced := haccounted.1
  rw [hsize, htasks] at hbalanced
  cases hbalanced

end LifecycleState

end LspCpp

import LspCpp.LifecycleSerial
import LspCpp.LifecycleSources

/-! What a message causes is written to the output of the session from whose stream the message came. The output
state that a message is answered through is taken once, when the message is routed, and goes with it through the
queues, the handlers and the asynchronous completions; so it is enough that it is the right one when it is taken. -/

namespace LspCpp

/-- The messages that a notification loop has in hand. -/
def NotificationLoopPhase.items : NotificationLoopPhase → List DispatchItem
  | .waiting => []
  | .taken item | .handling item | .returned item => [item]
  | .posting ready => ready.map ParkedRequest.request

namespace LifecycleState

instance (a : LifecycleAction) (s : LifecycleState) : Decidable (EarlierEnded a s) :=
  inferInstanceAs (Decidable ((_ → _ → _ = _) ∧ ∀ session ∈ a.listens, ∀ earlier < session, _ = _))

/-- What was written because of a message was written to the session from whose stream it came. -/
def SessionIsolation (s : LifecycleState) : Prop := ∀ p ∈ s.written, s.origin p.1 = some p.2

/-- Every message that has been routed goes with an output state that `P` allows for it. -/
structure Captured (P : Nat → Nat → Prop) (s : LifecycleState) : Prop where
  routing : ∀ d item state, s.dispatch = some d → d.current = some (item, state) → P item.sequence state
  queued : ∀ item ∈ s.dispatcher.notificationQueue, P item.sequence item.responseState
  parked : ∀ p ∈ s.dispatcher.parkedRequests, P p.request.sequence p.request.responseState
  loops : ∀ session phase, s.loops session = some phase → ∀ item ∈ phase.items, P item.sequence item.responseState
  posted : ∀ task ∈ s.handlerQueue, P task.item.sequence task.item.responseState
  handling : ∀ task ∈ s.handling, P task.item.sequence task.item.responseState
  completions : ∀ c ∈ s.asyncCompletions, P c.1 c.2
  running : ∀ c, s.asyncRunning = some c → P c.1 c.2
  written : ∀ p ∈ s.written, P p.1 p.2

variable {P Q : Nat → Nat → Prop} {s s' : LifecycleState}

theorem Captured.imp (h : Captured P s) (hPQ : ∀ sequence state, P sequence state → Q sequence state) :
    Captured Q s where
  routing d item state hd hcurrent := hPQ _ _ (h.routing d item state hd hcurrent)
  queued item hitem := hPQ _ _ (h.queued item hitem)
  parked p hp := hPQ _ _ (h.parked p hp)
  loops session phase hloop item hitem := hPQ _ _ (h.loops session phase hloop item hitem)
  posted task htask := hPQ _ _ (h.posted task htask)
  handling task htask := hPQ _ _ (h.handling task htask)
  completions c hc := hPQ _ _ (h.completions c hc)
  running c hc := hPQ _ _ (h.running c hc)
  written p hp := hPQ _ _ (h.written p hp)

theorem forall_mem_concat {α : Type} {l : List α} {a : α} {p : α → Prop} (hl : ∀ b ∈ l, p b) (ha : p a) :
    ∀ b ∈ l ++ [a], p b := by
  intro b hb
  rcases List.mem_append.mp hb with hold | hnew
  · exact hl b hold
  · rw [List.mem_singleton.mp hnew]
    exact ha

theorem Captured.setLoop (h : Captured P s) (session : Nat) {phase : NotificationLoopPhase}
    (hitems : ∀ item ∈ phase.items, P item.sequence item.responseState) : Captured P (s.setLoop session phase) := by
  refine { h with loops := fun session' phase' hloop' => ?_ }
  rcases Table.update_eq_some hloop' with ⟨_, heq⟩ | ⟨_, hold⟩
  · cases heq
    exact hitems
  · exact h.loops session' phase' hold

theorem Captured.sendSessionMessage (h : Captured P s) {sequence state : Nat} (hP : P sequence state) :
    Captured P (s.sendSessionMessage sequence state) := by
  rcases s.sendSessionMessage_cases sequence state with heq | heq <;> rw [heq]
  · exact h
  · exact { h with written := forall_mem_concat h.written hP }

theorem Captured.postToWorker (h : Captured P s) {item : DispatchItem} (hP : P item.sequence item.responseState) :
    Captured P (s.postToWorker item) := by
  rcases s.postToWorker_cases item with heq | heq <;> rw [heq]
  · exact h
  · exact { h with posted := forall_mem_concat h.posted hP }

theorem Captured.postAsyncCompletion (h : Captured P s) {sequence state : Nat} (hP : P sequence state) :
    Captured P (s.postAsyncCompletion sequence state) := by
  rcases s.postAsyncCompletion_cases sequence state with heq | heq <;> rw [heq]
  · exact h
  · exact { h with completions := forall_mem_concat h.completions hP }

/-- A message that is routed goes on with the output state that was taken for it. -/
theorem Captured.routeParsedIncoming (h : Captured P s) {item : SequencedParsedMessage} {state : Nat}
    (hP : P item.sequence state) : Captured P (s.routeParsedIncoming item state) := by
  rcases s.routeParsedIncoming_cases item state with
    heq | heq | heq | ⟨message, heq⟩ | ⟨message, heq⟩ | ⟨message, heq⟩ <;> rw [heq]
  · exact h
  · exact { h with }
  · exact h.sendSessionMessage hP
  · exact h.postToWorker hP
  · exact { h with queued := forall_mem_concat h.queued hP }
  · exact { h with parked := forall_mem_concat h.parked hP }

theorem Captured.resume (h : Captured P s) (caller : Caller) : Captured P (s.resume caller) := by
  rcases s.resume_cases caller with heq | ⟨_, _, _, _, _, heq⟩ | ⟨_, _, heq⟩ <;> rw [heq]
  · exact h
  · exact { h with }
  · exact { h with }

theorem Captured.startStep (h : Captured P s) {caller : Caller} {phase : StartPhase}
    (hstep : s.startStep caller phase = some s') : Captured P s' := by
  cases phase with
  | output | async | bind | parsePool | handlerPool | reader => cases hstep; exact { h with }
  | joinParsers | routing =>
      obtain ⟨_, rfl⟩ := Transition.of_guard hstep
      exact { h with }
  | joinWorkers =>
      obtain ⟨_, rfl⟩ := Transition.of_guard hstep
      exact { h with posted := fun task htask => h.posted task (List.mem_filter.mp htask).1 }
  | dispatcher =>
      have hreset : Captured P { s with dispatcher := s.dispatcher.startOrderedDispatcher } :=
        { h with queued := fun _ hitem => (by cases hitem), parked := fun _ hp => by cases hp }
      obtain rfl | ⟨_, _, _, rfl⟩ := startStep_dispatcher hstep
      · have hspawned : Captured P (LifecycleState.setLoop
            { s with dispatcher := s.dispatcher.startOrderedDispatcher } s.generation .waiting) :=
          hreset.setLoop s.generation fun _ hitem => by cases hitem
        exact { hspawned with }
      · exact { hreset with }

theorem Captured.stopStep (h : Captured P s) {caller : Caller} {phase : ClearPhase}
    (hstep : s.stopStep caller phase = some s') : Captured P s' := by
  cases phase with
  | quit | producer | output | pools => cases hstep; exact { h with }
  | routing | joinAsync =>
      obtain ⟨_, rfl⟩ := Transition.of_guard hstep
      exact { h with }
  | dispatcher =>
      cases hstep
      exact { h with queued := fun _ hitem => (by cases hitem), parked := fun _ hp => by cases hp }
  | joinLoop => rw [stopStep_joinLoop hstep]; exact { h with }
  | async => cases hstep; exact { h with completions := fun _ hc => by cases hc }
  | joinReader => rw [(stopStep_joinReader hstep).2]; exact { h with }
  | finish =>
      cases hstep
      have hdone : Captured P { s with lifecycle := .free, messageProducerThread := none, working := false } :=
        { h with }
      exact hdone.resume caller

theorem Captured.lifecycleStep (h : Captured P s) {a : LifecycleAction}
    (hstep : LifecycleState.lifecycleStep a s = some s') : Captured P s' := by
  rcases lifecycleStep_cases hstep with ⟨_, _, _, rfl⟩ | ⟨caller, _, _, rfl | rfl⟩ | ⟨_, _, _, _, hstart⟩ |
    ⟨_, _, _, hstop⟩
  · exact { h with }
  · exact { h with }
  · exact h.resume caller
  · exact h.startStep hstart
  · exact h.stopStep hstop

theorem Captured.readerStep (h : Captured P s) {a : LifecycleAction}
    (hstep : LifecycleState.readerStep a s = some s') : Captured P s' := by
  cases a with
  | dropNewest session =>
      obtain ⟨_, _, _, _, rfl | ⟨_, _, _, _, rfl⟩⟩ := step_dropNewest hstep
      · exact { h with }
      · refine { h with routing := fun d item state hd hcurrent => ?_ }
        cases hd
        cases hcurrent
  | _ =>
      obtain ⟨_, _, _, _, _, _, rfl⟩ := readerStep_frame hstep fun _ heq => by cases heq
      exact { h with }

/-- The output state that is taken for a message is that of the current session. -/
theorem Captured.routeStep (h : Captured P s) {a : LifecycleAction}
    (htake : ∀ d, s.dispatch = some d → ∀ item ∈ d.items, P item.sequence s.generation)
    (hstep : LifecycleState.routeStep a s = some s') : Captured P s' := by
  cases a with
  | parseBegins task => obtain ⟨_, _, _, rfl⟩ := step_parseBegins hstep; exact { h with }
  | submit task parsed =>
      obtain ⟨_, _, _, rfl | rfl | ⟨_, _, _, rfl⟩⟩ := step_submit hstep
      · exact { h with }
      · exact { h with }
      · refine { h with routing := fun d item state hd hcurrent => ?_ }
        cases hd
        cases hcurrent
  | takeState =>
      obtain ⟨holder, item, rest, current, hdispatch, hcurrent, rfl⟩ := step_takeState hstep
      refine { h with routing := fun d routed state hd hrouted => ?_ }
      cases hd
      rcases hcurrent with rfl | rfl
      · cases hrouted
      · cases hrouted
        exact htake _ hdispatch item List.mem_cons_self
  | route =>
      obtain ⟨holder, item, state, rest, hdispatch, rfl⟩ := step_route hstep
      have hleft : Captured P { s with dispatch := some ⟨holder, none, rest⟩ } := by
        refine { h with routing := fun d routed state' hd hcurrent => ?_ }
        cases hd
        cases hcurrent
      exact hleft.routeParsedIncoming (h.routing _ item state hdispatch rfl)
  | release =>
      obtain ⟨holder, _, rfl⟩ := step_release hstep
      rcases s.endDispatch_cases holder with ⟨_, heq⟩ | ⟨_, _, _, heq⟩ | heq <;> rw [heq]
      all_goals exact { h with routing := fun _ _ _ hd => by cases hd }
  | _ => cases hstep

theorem Captured.loopStep (h : Captured P s) {a : LifecycleAction}
    (hstep : LifecycleState.loopStep a s = some s') : Captured P s' := by
  cases a with
  | take session =>
      obtain ⟨item, rest, _, hqueue, rfl⟩ := step_take hstep
      have hqueued := h.queued
      rw [hqueue] at hqueued
      have htaken : Captured P (s.setLoop session (.taken item)) := by
        refine h.setLoop session fun item' hitem' => ?_
        rw [List.mem_singleton.mp hitem']
        exact hqueued item List.mem_cons_self
      exact { htaken with queued := fun item' hitem' => hqueued item' (List.mem_cons_of_mem _ hitem') }
  | exit session =>
      obtain ⟨_, rfl⟩ := step_exit hstep
      refine { h with loops := fun session' phase' hloop' => ?_ }
      rcases Table.update_eq_some hloop' with ⟨_, heq⟩ | ⟨_, hold⟩
      · cases heq
      · exact h.loops session' phase' hold
  | runHandler session =>
      obtain ⟨item, hloop, rfl | rfl⟩ := step_runHandler hstep
      all_goals have hitems := h.loops session _ hloop
      · exact h.setLoop session hitems
      · have hstarted : Captured P (s.setLoop session (.handling item)) := h.setLoop session hitems
        exact { hstarted with }
  | handlerSends session =>
      obtain ⟨item, hloop, rfl⟩ := step_handlerSends hstep
      exact h.sendSessionMessage (h.loops session _ hloop item (List.mem_singleton.mpr rfl))
  | handlerReturns session =>
      obtain ⟨item, hloop, rfl⟩ := step_handlerReturns hstep
      have hitems := h.loops session _ hloop
      exact h.setLoop session hitems
  | complete session =>
      obtain ⟨item, hloop, rfl⟩ := step_complete hstep
      have hposting : Captured P (s.setLoop session
          (.posting (s.dispatcher.completeNotification item.sequence).2)) := by
        refine h.setLoop session fun request hrequest => ?_
        obtain ⟨p, hp, rfl⟩ := List.mem_map.mp hrequest
        exact h.parked p (List.mem_filter.mp hp).1
      exact { hposting with parked := fun p hp => h.parked p (List.mem_filter.mp hp).1 }
  | postParked session =>
      obtain ⟨p, rest, hloop, rfl⟩ := step_postParked hstep
      have hitems := h.loops session _ hloop
      have hposting : Captured P (s.setLoop session (.posting rest)) :=
        h.setLoop session fun item hitem => hitems item (List.mem_cons_of_mem _ hitem)
      exact hposting.postToWorker (hitems p.request List.mem_cons_self)
  | wait session =>
      obtain ⟨_, rfl⟩ := step_wait hstep
      exact h.setLoop session fun _ hitem => by cases hitem
  | _ => cases hstep

theorem Captured.workerStep (h : Captured P s) {a : LifecycleAction}
    (hstep : LifecycleState.workerStep a s = some s') : Captured P s' := by
  cases a with
  | workBegins task =>
      obtain ⟨htask, handling, hhandling, rfl⟩ := step_workBegins hstep
      have hposted : ∀ task' ∈ s.handlerQueue.erase task, P task'.item.sequence task'.item.responseState :=
        fun task' htask' => h.posted task' (List.mem_of_mem_erase htask')
      rcases hhandling with rfl | rfl
      · exact { h with posted := hposted }
      · exact { h with posted := hposted, handling := forall_mem_concat h.handling (h.posted task htask) }
  | workSends task =>
      obtain ⟨htask, rfl⟩ := step_workSends hstep
      exact h.sendSessionMessage (h.handling task htask)
  | workLater task =>
      obtain ⟨htask, rfl⟩ := step_workLater hstep
      exact h.postAsyncCompletion (h.handling task htask)
  | workEnds task =>
      rw [step_workEnds hstep]
      exact { h with handling := fun task' htask' => h.handling task' (List.mem_of_mem_erase htask') }
  | asyncTake =>
      obtain ⟨completion, rest, hcompletions, rfl⟩ := step_asyncTake hstep
      have hall := h.completions
      rw [hcompletions] at hall
      refine { h with completions := fun c hc => hall c (List.mem_cons_of_mem _ hc), running := fun c hc => ?_ }
      cases hc
      exact hall completion List.mem_cons_self
  | asyncRun ready =>
      obtain ⟨completion, hrunning, hcases⟩ := step_asyncRun hstep
      have hP := h.running completion hrunning
      have hidle : Captured P { s with asyncRunning := none } := { h with running := fun _ hc => by cases hc }
      rcases hcases with rfl | rfl | rfl
      · exact hidle.sendSessionMessage hP
      · exact hidle
      · exact { hidle with completions := forall_mem_concat h.completions hP }
  | _ => cases hstep

theorem Captured.step (h : Captured P s) {a : LifecycleAction}
    (htake : ∀ d, s.dispatch = some d → ∀ item ∈ d.items, P item.sequence s.generation)
    (hstep : LifecycleState.step a s = some s') : Captured P s' := by
  rcases step_kinds hstep with hlife | hread | hroute | hloop | hwork
  · exact h.lifecycleStep hlife
  · exact h.readerStep hread
  · exact h.routeStep htake hroute
  · exact h.loopStep hloop
  · exact h.workerStep hwork

/-! ### The session of a message -/

theorem resume_origin (s : LifecycleState) (caller : Caller) : (s.resume caller).origin = s.origin := by
  rcases s.resume_cases caller with heq | ⟨_, _, _, _, _, heq⟩ | ⟨_, _, heq⟩ <;> rw [heq] <;> rfl

theorem lifecycleStep_origin {a : LifecycleAction} (h : LifecycleState.lifecycleStep a s = some s') :
    s'.origin = s.origin := by
  rcases lifecycleStep_cases h with ⟨_, _, _, rfl⟩ | ⟨caller, _, _, rfl | rfl⟩ | ⟨_, phase, _, _, hstart⟩ |
    ⟨caller, phase, _, hstop⟩
  · rfl
  · rfl
  · rw [resume_origin]
  · cases phase with
    | output | async | bind | parsePool | handlerPool | reader => cases hstart; rfl
    | joinParsers | joinWorkers | routing =>
        obtain ⟨_, rfl⟩ := Transition.of_guard hstart
        rfl
    | dispatcher => obtain rfl | ⟨_, _, _, rfl⟩ := startStep_dispatcher hstart <;> rfl
  · cases phase with
    | quit | producer | output | dispatcher | async | pools => cases hstop; rfl
    | routing | joinAsync =>
        obtain ⟨_, rfl⟩ := Transition.of_guard hstop
        rfl
    | joinLoop => rw [stopStep_joinLoop hstop]
    | joinReader => rw [(stopStep_joinReader hstop).2]
    | finish =>
        cases hstop
        rw [resume_origin]

/-- Only a reader that delivers a message notes a session. -/
theorem readerStep_origin {a : LifecycleAction} (h : LifecycleState.readerStep a s = some s') :
    s'.origin = s.origin ∨ ∃ stream, s'.origin = Function.update s.origin s.nextMessageSequence (some stream) := by
  cases a with
  | deliver session =>
      obtain ⟨stream, _, _, rfl⟩ := step_deliver h
      exact .inr ⟨stream, rfl⟩
  | enterListen session => obtain ⟨_, _, rfl⟩ := step_enterListen h; exact .inl rfl
  | checkRunning session => obtain ⟨_, _, ⟨_, rfl⟩ | rfl⟩ := step_checkRunning h <;> exact .inl rfl
  | receive session => obtain ⟨_, _, rfl⟩ := step_receive h; exact .inl rfl
  | frameTooLarge session => obtain ⟨_, _, _, _, rfl⟩ := step_frameTooLarge h; exact .inl rfl
  | leaveListen session stops => obtain ⟨_, _, rfl⟩ := step_leaveListen h; exact .inl rfl
  | postParseTask session =>
      obtain ⟨_, _, _, ⟨_, _, rfl⟩ | ⟨_, rfl⟩⟩ := step_postParseTask h <;> exact .inl rfl
  | dropNewest session => obtain ⟨_, _, _, _, rfl | ⟨_, _, _, _, rfl⟩⟩ := step_dropNewest h <;> exact .inl rfl
  | afterOverload session => obtain ⟨_, _, _, rfl | rfl⟩ := step_afterOverload h <;> exact .inl rfl
  | _ => cases h

theorem routeStep_origin {a : LifecycleAction} (h : LifecycleState.routeStep a s = some s') :
    s'.origin = s.origin := by
  cases a with
  | parseBegins task => obtain ⟨_, _, _, rfl⟩ := step_parseBegins h; rfl
  | submit task parsed => obtain ⟨_, _, _, rfl | rfl | ⟨_, _, _, rfl⟩⟩ := step_submit h <;> rfl
  | takeState => obtain ⟨_, _, _, _, _, _, rfl⟩ := step_takeState h; rfl
  | route =>
      obtain ⟨holder, item, state, rest, _, rfl⟩ := step_route h
      obtain ⟨_, _, _, _, heq⟩ :=
        routeParsedIncoming_frame { s with dispatch := some ⟨holder, none, rest⟩ } item state
      rw [heq]
  | release =>
      obtain ⟨holder, _, rfl⟩ := step_release h
      rcases s.endDispatch_cases holder with ⟨_, heq⟩ | ⟨_, _, _, heq⟩ | heq <;> rw [heq] <;> rfl
  | _ => cases h

/-- A message that has been read keeps its session. -/
theorem Sources.origin_step (h : Sources s) {a : LifecycleAction} (hstep : LifecycleState.step a s = some s')
    {k state : Nat} (hk : s.origin k = some state) : s'.origin k = some state := by
  rcases step_kinds hstep with hlife | hread | hroute | hloop | hwork
  · rw [lifecycleStep_origin hlife]
    exact hk
  · rcases readerStep_origin hread with heq | ⟨stream, heq⟩ <;> rw [heq]
    · exact hk
    · rw [Function.update_of_ne]
      · exact hk
      · rintro rfl
        cases (h.fresh _ (Nat.le_refl _)).symm.trans hk
  · rw [routeStep_origin hroute]
    exact hk
  · obtain ⟨_, _, _, _, _, rfl⟩ := loopStep_frame hloop
    exact hk
  · obtain ⟨_, _, _, _, _, rfl⟩ := workerStep_frame hwork
    exact hk

/-- **No byte that a message causes is written to another session than that of its stream**, in every run in which
no parse task is executing when a session installs its output state and no reader of an earlier session is alive
when a reader enters `listen`. -/
theorem sessionIsolation_of_earlierEnded (s : LifecycleState) (hs : lifecycleSystem.ReachableIf EarlierEnded s) :
    SessionIsolation s := by
  have hcaptured : Captured (fun sequence state => s.origin sequence = some state) s := by
    refine hs.invariant_of Sources (fun s => Captured (fun sequence state => s.origin sequence = some state) s)
      (fun _ => reachable_sources) ?_ fun a s s' hsources h _ hstep => ?_
    · rintro s ⟨limits, concurrentNotifications, rfl⟩
      refine ⟨?_, ?_, ?_, ?_, ?_, ?_, ?_, ?_, ?_⟩
      · exact fun _ _ _ hd => by cases hd
      · exact fun _ hitem => by cases hitem
      · exact fun _ hp => by cases hp
      · exact fun _ _ hloop => by cases hloop
      · exact fun _ htask => by cases htask
      · exact fun _ htask => by cases htask
      · exact fun _ hc => by cases hc
      · exact fun _ hc => by cases hc
      · exact fun _ hp => by cases hp
    · exact (h.step hsources.items hstep).imp fun _ _ hk => hsources.origin_step hstep hk
  exact hcaptured.written

/-- A message that `parseAndClassify` answers with an error. -/
def errorReply : ParsedMessage :=
  { ok := true, outgoing := true, kind := .response, message := some ⟨.response, "", .kInt 1⟩ }

/-- A call of `stop` by the application that waits for the loop and for the reader of the session. -/
def stopCall (session : Nat) : List LifecycleAction :=
  .stop .application :: List.replicate 5 .advance ++ .exit session :: List.replicate 4 .advance ++
    .checkRunning session :: List.replicate 2 .advance

/-- Each of two sessions answers a message of its own. -/
def restartAfterParseRun : List LifecycleAction :=
  startCall .application ++ .enterListen 1 :: messageCall 1 0 errorReply ++ stopCall 1 ++
    startCall .application ++ .enterListen 2 :: messageCall 2 1 errorReply

theorem sessionIsolation_of_earlierEnded_restart :
    ∃ s, lifecycleSystem.runIf EarlierEnded restartAfterParseRun {} = some s ∧ s.generation = 2 ∧
      s.written = [(0, 1), (1, 2)] ∧ SessionIsolation s := by
  refine ⟨_, rfl, rfl, rfl, ?_⟩
  exact sessionIsolation_of_earlierEnded _
    (Transition.System.reachableIf_of_runIf restartAfterParseRun (.init ⟨{}, [], rfl⟩) rfl)

/-- A parse task of the first session is executing when the second session installs its output state. -/
def restartDuringParseRun : List LifecycleAction :=
  startCall .application ++ [.enterListen 1, .checkRunning 1, .receive 1, .deliver 1, .postParseTask 1,
    .parseBegins ⟨0, 1⟩] ++ stopCall 1 ++
      [.start .application, .advance, .submit ⟨0, 1⟩ errorReply, .takeState, .route]

/-- The error reply to a message of the first session is written to the output of the second. -/
theorem restartDuringParseRun_not_isolated :
    ∃ s, lifecycleSystem.run restartDuringParseRun {} = some s ∧ s.origin 0 = some 1 ∧ s.written = [(0, 2)] ∧
      ¬SessionIsolation s := by
  refine ⟨_, rfl, rfl, rfl, fun hisolated => ?_⟩
  have hsame : some 1 = some 2 := hisolated (0, 2) List.mem_cons_self
  cases hsame

end LifecycleState

end LspCpp

import LspCpp.CancelPrune
import LspCpp.LifecycleFrames
import LspCpp.PendingTimeout

/-! The limits of an endpoint. The containers that they bound belong to three parts that share no lock: the
sessions with their queues, the outgoing requests, and the cancellation registry. -/

namespace LspCpp

/-- A container of some size keeps to a limit; zero means unlimited. -/
def Within (limit size : Nat) : Prop := limit ≠ 0 → size ≤ limit

namespace Within

variable {limit size size' : Nat}

theorem zero (limit : Nat) : Within limit 0 := fun _ => Nat.zero_le limit

theorem mono (h : Within limit size) (hle : size' ≤ size) : Within limit size' := fun hne => Nat.le_trans hle (h hne)

/-- Where the check of a limit leaves room, there is room for one element. -/
theorem succ (hroom : ¬(limit ≠ 0 ∧ limit ≤ size)) : Within limit (size + 1) := fun hne =>
  Nat.lt_of_not_le fun hle => hroom ⟨hne, hle⟩

end Within

namespace OrderedDispatcher

structure Limited (d : OrderedDispatcher) (limits : RemoteEndPointLimits) : Prop where
  notification : Within limits.maxNotificationQueueSize d.notificationQueue.length
  parked : Within limits.maxParkedRequestQueueSize d.parkedRequests.length

variable {d : OrderedDispatcher} {limits : RemoteEndPointLimits}

theorem Limited.enqueueNotification (h : Limited d limits) (quit : Bool) (item : DispatchItem) :
    Limited (d.enqueueNotification limits quit item).1 limits := by
  unfold OrderedDispatcher.enqueueNotification
  split_ifs with _ hfull
  · exact h
  · exact h
  · refine { h with notification := ?_ }
    rw [List.length_append, List.length_singleton]
    exact Within.succ hfull

theorem Limited.enqueueRequest (h : Limited d limits) (item : DispatchItem) :
    Limited (d.enqueueRequest limits item).1 limits := by
  unfold OrderedDispatcher.enqueueRequest
  split_ifs with _ hfull
  · exact h
  · refine { h with parked := ?_ }
    rw [List.length_append, List.length_singleton]
    exact Within.succ hfull
  · exact h

theorem Limited.take (h : Limited d limits) {item : DispatchItem} {rest : List DispatchItem}
    (hqueue : d.notificationQueue = item :: rest) : Limited { d with notificationQueue := rest } limits := by
  refine { h with notification := h.notification.mono ?_ }
  rw [hqueue, List.length_cons]
  exact Nat.le_succ _

theorem Limited.completeNotification (h : Limited d limits) (sequence : Nat) :
    Limited (d.completeNotification sequence).1 limits :=
  { h with parked := h.parked.mono (List.length_filter_le _ _) }

theorem limited_startOrderedDispatcher (d : OrderedDispatcher) (limits : RemoteEndPointLimits) :
    Limited d.startOrderedDispatcher limits := ⟨Within.zero _, Within.zero _⟩

theorem limited_stopOrderedDispatcher (d : OrderedDispatcher) (limits : RemoteEndPointLimits) :
    Limited d.stopOrderedDispatcher limits := ⟨Within.zero _, Within.zero _⟩

end OrderedDispatcher

namespace Reorder

/-- The messages in the buffer that are not placeholders. -/
def okMessages (r : Reorder) : Nat := Table.count ParsedMessage.ok r.reorderBuffer

theorem okMessages_drain_le (fuel : Nat) (r : Reorder) : (drain fuel r).1.okMessages ≤ r.okMessages := by
  induction fuel generalizing r with
  | zero => exact Nat.le_refl _
  | succ fuel ih =>
      rw [drain]
      split
      · exact Nat.le_refl _
      · exact Nat.le_trans (ih _) (Table.count_erase_le _ _ _)

/-- A message is put into the buffer only where there is room, and a placeholder does not count. -/
theorem within_submitParsedMessage {r r' : Reorder} {limits : RemoteEndPointLimits} {sequence : Nat}
    {parsed : ParsedMessage} {bypass : Bool} {submitted : Submitted}
    (h : Within limits.maxReorderBufferSize r.okMessages) (hbypass : bypass = true → parsed.ok = false)
    (hsubmit : r.submitParsedMessage limits sequence parsed bypass = (r', submitted)) :
    Within limits.maxReorderBufferSize r'.okMessages := by
  unfold submitParsedMessage at hsubmit
  split_ifs at hsubmit with hnext hrefused hfull
  · cases hsubmit
    exact h.mono (okMessages_drain_le _ _)
  · cases hsubmit
    exact h
  · cases hsubmit
    refine h.mono (Nat.le_trans (okMessages_drain_le _ _) ?_)
    exact Table.count_emplace_le ParsedMessage.ok r.reorderBuffer sequence {}
  · cases hsubmit
    have hcount := Table.count_emplace_le ParsedMessage.ok r.reorderBuffer sequence parsed
    have hdrain := okMessages_drain_le
      (Table.size (Table.emplace r.reorderBuffer sequence parsed))
      { r with reorderBuffer := Table.emplace r.reorderBuffer sequence parsed }
    cases bypass with
    | true =>
        rw [hbypass rfl] at hcount
        exact h.mono (Nat.le_trans hdrain hcount)
    | false =>
        have hroom : ¬(limits.maxReorderBufferSize ≠ 0 ∧ limits.maxReorderBufferSize ≤ r.okMessages) := by
          rintro ⟨hne, hle⟩
          have hsize : limits.maxReorderBufferSize ≤ r.reorderBuffer.size :=
            Nat.le_trans hle (Table.count_le_size _ _)
          simp [full, hne, hsize] at hfull
        refine (Within.succ hroom).mono ?_
        calc _ ≤ _ := hdrain
          _ ≤ _ := hcount
          _ ≤ r.okMessages + 1 := Nat.add_le_add_left (by split_ifs <;> omega) _

end Reorder

namespace LifecycleState

structure Limited (limits : RemoteEndPointLimits) (s : LifecycleState) : Prop where
  configured : s.limits = limits
  parse : Within s.limits.maxParseQueueSize s.parseQueueSize
  reorder : Within s.limits.maxReorderBufferSize s.reorder.okMessages
  dispatcher : s.dispatcher.Limited s.limits

variable {limits : RemoteEndPointLimits} {s s' : LifecycleState}

/-- A step that takes no slot and puts nothing into a queue. -/
theorem Limited.mono (h : Limited limits s) (hlimits : s'.limits = s.limits)
    (hsize : s'.parseQueueSize ≤ s.parseQueueSize)
    (hreorder : s'.reorder.okMessages ≤ s.reorder.okMessages) (hdispatcher : s'.dispatcher.Limited s.limits) :
    Limited limits s' := by
  constructor
  · exact hlimits.trans h.configured
  · rw [hlimits]
    exact h.parse.mono hsize
  · rw [hlimits]
    exact h.reorder.mono hreorder
  · rw [hlimits]
    exact hdispatcher

theorem Limited.resume (h : Limited limits s) (caller : Caller) : Limited limits (s.resume caller) := by
  rcases s.resume_cases caller with heq | ⟨_, _, _, _, _, heq⟩ | ⟨_, _, heq⟩ <;> rw [heq]
  · exact h
  · exact { h with }
  · exact h.mono rfl (Nat.sub_le _ _) (Nat.le_refl _) h.dispatcher

theorem Limited.startStep (h : Limited limits s) {caller : Caller} {phase : StartPhase}
    (hstep : s.startStep caller phase = some s') : Limited limits s' := by
  cases phase with
  | output | async | bind | parsePool | handlerPool | reader =>
      cases hstep
      exact { h with }
  | joinParsers | joinWorkers =>
      obtain ⟨_, rfl⟩ := Transition.of_guard hstep
      exact { h with }
  | dispatcher =>
      obtain rfl | ⟨_, _, _, rfl⟩ := startStep_dispatcher hstep
      all_goals exact { h with dispatcher := OrderedDispatcher.limited_startOrderedDispatcher s.dispatcher s.limits }
  | routing =>
      obtain ⟨_, rfl⟩ := Transition.of_guard hstep
      exact { h with reorder := Within.zero _ }

theorem Limited.stopStep (h : Limited limits s) {caller : Caller} {phase : ClearPhase}
    (hstep : s.stopStep caller phase = some s') : Limited limits s' := by
  cases phase with
  | quit | producer | output | async | pools =>
      cases hstep
      exact { h with }
  | dispatcher =>
      cases hstep
      exact { h with dispatcher := OrderedDispatcher.limited_stopOrderedDispatcher _ _ }
  | routing =>
      obtain ⟨_, rfl⟩ := Transition.of_guard hstep
      exact { h with reorder := Within.zero _ }
  | joinAsync =>
      obtain ⟨_, rfl⟩ := Transition.of_guard hstep
      exact { h with }
  | joinLoop =>
      rw [stopStep_joinLoop hstep]
      exact { h with }
  | joinReader =>
      rw [(stopStep_joinReader hstep).2]
      exact { h with }
  | finish =>
      cases hstep
      have hdone : Limited limits { s with lifecycle := .free, messageProducerThread := none, working := false } :=
        { h with }
      exact hdone.resume caller

theorem Limited.lifecycleStep (h : Limited limits s) {a : LifecycleAction}
    (hstep : LifecycleState.lifecycleStep a s = some s') : Limited limits s' := by
  rcases lifecycleStep_cases hstep with ⟨_, _, _, rfl⟩ | ⟨caller, _, _, rfl | rfl⟩ | ⟨_, _, _, _, hstart⟩ |
    ⟨_, _, _, hstop⟩
  · exact { h with }
  · exact { h with }
  · exact h.resume caller
  · exact h.startStep hstart
  · exact h.stopStep hstop

/-- `postParseTask` takes a slot only where there is one. -/
theorem Limited.postParseTask (h : Limited limits s) (session : Nat) (buffer : List Nat) (sequence : Nat) :
    Limited limits (s.postParseTask session buffer sequence) := by
  unfold LifecycleState.postParseTask
  by_cases hquit : (s.quit || s.parsePool == 0) = true
  · rw [if_pos hquit]
    exact { h with }
  · rw [if_neg hquit]
    by_cases hfull : s.parseQueueFull = true
    · rw [if_pos hfull]
      exact { h with }
    · rw [if_neg hfull]
      have hroom : ¬(s.limits.maxParseQueueSize ≠ 0 ∧ s.limits.maxParseQueueSize ≤ s.parseQueueSize) := by
        simpa [parseQueueFull] using hfull
      exact { h with parse := Within.succ hroom }

theorem Limited.readerStep (h : Limited limits s) {a : LifecycleAction}
    (hstep : LifecycleState.readerStep a s = some s') : Limited limits s' := by
  cases a with
  | postParseTask session =>
      rw [LifecycleState.readerStep] at hstep
      split at hstep
      · cases hstep
        exact h.postParseTask session _ _
      · cases hstep
  | dropNewest session =>
      obtain ⟨_, sequence, _, _, rfl | ⟨_, reorder, items, hsubmitted, rfl⟩⟩ := step_dropNewest hstep
      · exact { h with }
      · have hreorder := Reorder.within_submitParsedMessage h.reorder (fun _ => rfl) hsubmitted
        exact { h with reorder := hreorder }
  | _ =>
      obtain ⟨_, _, _, _, rfl⟩ :=
        readerStep_buffer hstep (fun _ heq => by cases heq) fun _ heq => by cases heq
      exact { h with }

/-- What routing a message does to the dispatcher. -/
theorem routeParsedIncoming_dispatcher (s : LifecycleState) (item : SequencedParsedMessage) (session : Nat) :
    (s.routeParsedIncoming item session).dispatcher = s.dispatcher ∨
      (∃ notification, (s.routeParsedIncoming item session).dispatcher =
        (s.dispatcher.enqueueNotification s.limits s.quit notification).1) ∨
      ∃ request, (s.routeParsedIncoming item session).dispatcher =
        (s.dispatcher.enqueueRequest s.limits request).1 := by
  have hoverload : s.overload.dispatcher = s.dispatcher := by
    unfold overload
    split_ifs <;> rfl
  unfold routeParsedIncoming
  split
  case h_4 =>
    rcases s.sendSessionMessage_cases item.sequence session with heq | heq <;> rw [heq] <;> exact .inl rfl
  case h_5 message _ =>
    rcases s.postToWorker_cases ⟨item.sequence, message, session⟩ with heq | heq <;> rw [heq] <;> exact .inl rfl
  case h_6 message _ =>
    split
    · exact .inl hoverload
    · rename_i henqueued
      exact .inr (.inl ⟨_, by rw [henqueued]⟩)
  case h_7 message _ =>
    split_ifs
    · exact .inl rfl
    · split
      · exact .inl hoverload
      · rcases s.postToWorker_cases ⟨item.sequence, message, session⟩ with heq | heq <;> rw [heq] <;> exact .inl rfl
      · rename_i henqueued
        exact .inr (.inr ⟨_, by rw [henqueued]⟩)
  all_goals exact .inl rfl

theorem Limited.routeParsedIncoming (h : Limited limits s) (item : SequencedParsedMessage) (session : Nat) :
    Limited limits (s.routeParsedIncoming item session) := by
  have hdispatcher : (s.routeParsedIncoming item session).dispatcher.Limited s.limits := by
    rcases s.routeParsedIncoming_dispatcher item session with heq | ⟨notification, heq⟩ | ⟨request, heq⟩ <;> rw [heq]
    · exact h.dispatcher
    · exact h.dispatcher.enqueueNotification s.quit notification
    · exact h.dispatcher.enqueueRequest request
  obtain ⟨_, _, _, _, heq⟩ := s.routeParsedIncoming_frame item session
  rw [heq] at hdispatcher ⊢
  exact { h with dispatcher := hdispatcher }

theorem Limited.routeStep (h : Limited limits s) {a : LifecycleAction}
    (hstep : LifecycleState.routeStep a s = some s') : Limited limits s' := by
  cases a with
  | parseBegins task =>
      obtain ⟨_, _, _, rfl⟩ := step_parseBegins hstep
      exact { h with }
  | submit task parsed =>
      obtain ⟨_, _, _, rfl | rfl | ⟨reorder, items, hsubmitted, rfl⟩⟩ := step_submit hstep
      · exact h.mono rfl (Nat.sub_le _ _) (Nat.le_refl _) h.dispatcher
      · exact { h with }
      · have hreorder := Reorder.within_submitParsedMessage h.reorder (fun hbypass : false = true => by cases hbypass)
          hsubmitted
        exact { h with reorder := hreorder }
  | takeState =>
      obtain ⟨_, _, _, _, _, _, rfl⟩ := step_takeState hstep
      exact { h with }
  | route =>
      obtain ⟨holder, item, state, rest, _, rfl⟩ := step_route hstep
      have hleft : Limited limits { s with dispatch := some ⟨holder, none, rest⟩ } := { h with }
      exact hleft.routeParsedIncoming item state
  | release =>
      obtain ⟨holder, _, rfl⟩ := step_release hstep
      rcases s.endDispatch_cases holder with ⟨_, heq⟩ | ⟨_, _, _, heq⟩ | heq <;> rw [heq]
      · exact h.mono rfl (Nat.sub_le _ _) (Nat.le_refl _) h.dispatcher
      · exact { h with }
      · exact { h with }
  | _ => cases hstep

theorem Limited.loopStep (h : Limited limits s) {a : LifecycleAction}
    (hstep : LifecycleState.loopStep a s = some s') : Limited limits s' := by
  cases a with
  | take session =>
      obtain ⟨item, rest, _, hqueue, rfl⟩ := step_take hstep
      exact { h with dispatcher := h.dispatcher.take hqueue }
  | complete session =>
      obtain ⟨item, _, rfl⟩ := step_complete hstep
      exact { h with dispatcher := h.dispatcher.completeNotification item.sequence }
  | exit session =>
      obtain ⟨_, rfl⟩ := step_exit hstep
      exact { h with }
  | runHandler session =>
      obtain ⟨_, _, rfl | rfl⟩ := step_runHandler hstep
      all_goals exact { h with }
  | handlerSends session =>
      obtain ⟨item, _, rfl⟩ := step_handlerSends hstep
      rcases s.sendSessionMessage_cases item.sequence item.responseState with heq | heq <;> rw [heq]
      all_goals exact { h with }
  | handlerReturns session =>
      obtain ⟨_, _, rfl⟩ := step_handlerReturns hstep
      exact { h with }
  | postParked session =>
      obtain ⟨parked, rest, _, rfl⟩ := step_postParked hstep
      rcases (s.setLoop session (.posting rest)).postToWorker_cases parked.request with heq | heq <;> rw [heq]
      all_goals exact { h with }
  | wait session =>
      obtain ⟨_, rfl⟩ := step_wait hstep
      exact { h with }
  | _ => cases hstep

theorem Limited.step (h : Limited limits s) {a : LifecycleAction} (hstep : LifecycleState.step a s = some s') :
    Limited limits s' := by
  rcases step_kinds hstep with hlife | hread | hroute | hloop | hwork
  · exact h.lifecycleStep hlife
  · exact h.readerStep hread
  · exact h.routeStep hroute
  · exact h.loopStep hloop
  · obtain ⟨_, _, _, _, _, rfl⟩ := workerStep_frame hwork
    exact { h with }

end LifecycleState

/-! ### The outgoing requests -/

namespace PendingState

structure Limited (limits : RemoteEndPointLimits) (s : PendingState) : Prop where
  configured : s.limits = limits
  futures : Within s.limits.maxPendingOutgoingRequests s.table.clientRequestFutures.size

theorem within_pendingRequest {t t' : PendingTable} {limits : RemoteEndPointLimits} {id id' : LsRequestId}
    {pending : Nat} (h : t.pendingRequest limits id pending = some (t', id')) :
    Within limits.maxPendingOutgoingRequests t'.clientRequestFutures.size := by
  unfold PendingTable.pendingRequest at h
  split_ifs at h with hfull
  all_goals
    cases h
    exact (Within.succ hfull).mono (Table.size_insert_le _ _ _)

theorem Limited.step {limits : RemoteEndPointLimits} {s s' : PendingState} {a : PendingAction} (h : Limited limits s)
    (hstep : PendingState.step a s = some s') : Limited limits s' := by
  by_cases ha : a = .sendRegister
  · subst ha
    obtain ⟨id, deferred, _, rfl | ⟨table, id', hreg, rfl⟩⟩ := step_sendRegister hstep
    · exact { h with }
    · exact { h with futures := within_pendingRequest hreg }
  · have hshrinks := shrinks_of_step ha hstep
    refine ⟨hshrinks.limits.trans h.configured, ?_⟩
    rw [hshrinks.limits]
    exact h.futures.mono (Table.size_le_of_lookup hshrinks.table)

end PendingState

/-- The three parts of an endpoint. -/
structure EndpointState where
  sessions : LifecycleState
  outgoing : PendingState
  cancellation : CancelState

inductive EndpointAction where
  | sessions (a : LifecycleAction)
  | outgoing (a : PendingAction)
  | cancellation (a : CancelAction)
  deriving DecidableEq, Repr

namespace EndpointState

def step : EndpointAction → EndpointState → Option EndpointState
  | .sessions a, s => (LifecycleState.step a s.sessions).map fun sessions => { s with sessions := sessions }
  | .outgoing a, s => (PendingState.step a s.outgoing).map fun outgoing => { s with outgoing := outgoing }
  | .cancellation a, s =>
      (CancelState.step a s.cancellation).map fun cancellation => { s with cancellation := cancellation }

/-- Every container keeps to its limit. -/
structure WithinLimits (s : EndpointState) (limits : RemoteEndPointLimits) : Prop where
  parseQueue : Within limits.maxParseQueueSize s.sessions.parseQueueSize
  reorderBuffer : Within limits.maxReorderBufferSize s.sessions.reorder.okMessages
  notificationQueue : Within limits.maxNotificationQueueSize s.sessions.dispatcher.notificationQueue.length
  parkedRequests : Within limits.maxParkedRequestQueueSize s.sessions.dispatcher.parkedRequests.length
  clientRequestFutures : Within limits.maxPendingOutgoingRequests s.outgoing.table.clientRequestFutures.size
  pendingCancelRequests :
    Within limits.maxPendingCancelRequests s.cancellation.registry.pendingCancelRequests.size
  seenRequestIds : Within limits.maxSeenRequestIds s.cancellation.registry.seenRequestIds.size

end EndpointState

/-- An endpoint that was never started, with the limits that it was constructed with. -/
def endpointSystem (limits : RemoteEndPointLimits) : Transition.System EndpointState EndpointAction where
  init s := ∃ concurrentNotifications, s =
    ⟨{ limits := limits, concurrentNotifications := concurrentNotifications }, { limits := limits },
      { limits := limits }⟩
  step := EndpointState.step

namespace EndpointState

/-- Each part keeps to the limits that it was configured with. -/
structure Configured (limits : RemoteEndPointLimits) (s : EndpointState) : Prop where
  sessions : s.sessions.Limited limits
  outgoing : s.outgoing.Limited limits
  cancellation : s.cancellation.limits = limits ∧ s.cancellation.registry.Limited s.cancellation.limits

theorem Configured.step {limits : RemoteEndPointLimits} {s s' : EndpointState} {a : EndpointAction}
    (h : Configured limits s) (hstep : step a s = some s') : Configured limits s' := by
  cases a with
  | sessions a =>
      obtain ⟨sessions, hsessions, rfl⟩ := Option.map_eq_some_iff.mp hstep
      exact { h with sessions := h.sessions.step hsessions }
  | outgoing a =>
      obtain ⟨outgoing, houtgoing, rfl⟩ := Option.map_eq_some_iff.mp hstep
      exact { h with outgoing := h.outgoing.step houtgoing }
  | cancellation a =>
      obtain ⟨cancellation, hcancellation, rfl⟩ := Option.map_eq_some_iff.mp hstep
      have hlimits := (CancelState.step_registry hcancellation).1
      exact { h with
        cancellation := ⟨hlimits.trans h.cancellation.1, CancelState.limited_step h.cancellation.2 hcancellation⟩ }

theorem configured_init {limits : RemoteEndPointLimits} {s : EndpointState} (h : (endpointSystem limits).init s) :
    Configured limits s := by
  obtain ⟨concurrentNotifications, rfl⟩ := h
  refine ⟨⟨rfl, Within.zero _, Within.zero _, ⟨Within.zero _, Within.zero _⟩⟩, ⟨rfl, Within.zero _⟩, rfl,
    ⟨nofun, nofun, Within.zero _, Within.zero _⟩⟩

/-- **The limits hold** in every reachable state of an endpoint, whatever they are and whatever is done when one
of them is met. -/
theorem withinLimits_of_reachable (limits : RemoteEndPointLimits) (s : EndpointState)
    (hs : (endpointSystem limits).Reachable s) : s.WithinLimits limits := by
  have hinv : Configured limits s :=
    hs.invariant (Configured limits) (fun _ => configured_init) fun _ _ _ h _ hstep => h.step hstep
  obtain ⟨⟨hconfigured, hparse, hreorder, hdispatcher⟩, ⟨hconfigured', hfutures⟩, hconfigured'', hregistry⟩ := hinv
  rw [hconfigured] at hparse hreorder hdispatcher
  rw [hconfigured'] at hfutures
  rw [hconfigured''] at hregistry
  exact ⟨hparse, hreorder, hdispatcher.notification, hdispatcher.parked, hfutures, hregistry.pendingSize,
    hregistry.seenSize⟩

/-- One of everything, and what does not fit is dropped. -/
def onlyOne : RemoteEndPointLimits :=
  { maxParseQueueSize := 1
    maxReorderBufferSize := 1
    maxNotificationQueueSize := 1
    maxParkedRequestQueueSize := 1
    maxPendingCancelRequests := 1
    maxSeenRequestIds := 1
    maxPendingOutgoingRequests := 1
    overloadPolicy := .dropNewest }

/-- Two messages come in before one is parsed, two requests are sent and two cancels find no request. -/
def crowdedRun : List EndpointAction :=
  .sessions (.start .application) :: List.replicate 10 (.sessions .advance) ++
    [.sessions (.enterListen 1), .sessions (.checkRunning 1), .sessions (.receive 1), .sessions (.deliver 1),
      .sessions (.postParseTask 1), .outgoing (.sendBegin (.kInt 1) false), .outgoing .sendRegister,
      .sessions (.checkRunning 1), .cancellation (.routeCancel (.kInt 8)), .sessions (.receive 1),
      .sessions (.deliver 1), .sessions (.postParseTask 1), .sessions (.dropNewest 1), .outgoing .sendReturn,
      .outgoing (.sendBegin (.kInt 2) false), .outgoing .sendRegister, .cancellation (.routeCancel (.kInt 9))]

theorem withinLimits_of_reachable_crowdedRun :
    ∃ s, (endpointSystem onlyOne).run crowdedRun ⟨{ limits := onlyOne }, { limits := onlyOne }, { limits := onlyOne }⟩ =
        some s ∧ s.sessions.parseQueueSize = 1 ∧ s.sessions.reorder.reorderBuffer.size = 1 ∧
      s.cancellation.registry.pendingCancelRequests.lookup (.kInt 9) = some 1 ∧ s.WithinLimits onlyOne := by
  obtain ⟨s, hrun, hparse, hreorder, hpending⟩ : ∃ s, (endpointSystem onlyOne).run crowdedRun
      ⟨{ limits := onlyOne }, { limits := onlyOne }, { limits := onlyOne }⟩ = some s ∧
        s.sessions.parseQueueSize = 1 ∧ s.sessions.reorder.reorderBuffer.size = 1 ∧
        s.cancellation.registry.pendingCancelRequests.lookup (.kInt 9) = some 1 := ⟨_, rfl, rfl, rfl, rfl⟩
  have hwithin := withinLimits_of_reachable onlyOne s
    (Transition.System.reachable_of_run crowdedRun (.init ⟨[], rfl⟩) hrun)
  exact ⟨s, hrun, hparse, hreorder, hpending, hwithin⟩

end EndpointState

end LspCpp

import LspCpp.OverloadRoom
import LspCpp.OverloadStop

/-! When a call of `submitParsedMessage` ends up waiting for a mutex that its own thread holds. The dispatch lock
is held while messages are routed, so a stop that a full queue asks for there comes to `clearMessageRouting`
with the lock held; the stop that a full reorder buffer asks for comes after the lock has been released. -/

namespace LspCpp

open Lock Lock.Exec

namespace EndPoint

/-- What the routing of a message leaves as it is. -/
structure SameSession (s s' : EndPoint) : Prop where
  limits : s'.limits = s.limits
  quit : s'.quit = s.quit
  working : s'.working = s.working
  messageProducerThread : s'.messageProducerThread = s.messageProducerThread
  concurrentNotifications : s'.concurrentNotifications = s.concurrentNotifications
  generation : s'.generation = s.generation

theorem SameSession.refl (s : EndPoint) : SameSession s s := ⟨rfl, rfl, rfl, rfl, rfl, rfl⟩

theorem SameSession.trans {s mid s' : EndPoint} (h : SameSession s mid) (h' : SameSession mid s') :
    SameSession s s' :=
  ⟨h'.limits.trans h.limits, h'.quit.trans h.quit, h'.working.trans h.working,
    h'.messageProducerThread.trans h.messageProducerThread,
    h'.concurrentNotifications.trans h.concurrentNotifications, h'.generation.trans h.generation⟩

theorem SameSession.harmless_iff {s s' : EndPoint} (h : SameSession s s') : s'.Harmless ↔ s.Harmless := by
  unfold Harmless Stoppable
  rw [h.limits, h.working, h.messageProducerThread]

/-- A program that comes to its end under the dispatch lock and leaves the session and the dispatcher alone. -/
def Passes (x : EndPointExec Unit) (s : EndPoint) : Prop :=
  ∃ s', Ends x [.routeDispatch] s () s' ∧ SameSession s s' ∧ s'.dispatcher = s.dispatcher

theorem Passes.after {x y : EndPointExec Unit} {s mid : EndPoint} (h : Passes y mid)
    (heq : x [.routeDispatch] s = y [.routeDispatch] mid) (hsame : SameSession s mid)
    (hdispatcher : mid.dispatcher = s.dispatcher) : Passes x s := by
  obtain ⟨s', hends, hsame', hdispatcher'⟩ := h
  exact ⟨s', heq.trans hends, hsame.trans hsame', hdispatcher'.trans hdispatcher⟩

/-- The call that `routeParsedIncoming` makes for each target. -/
def routeTo (sequence generation : Nat) : RouteTarget → EndPointExec Unit
  | .dropped => pure ()
  | .reply message => sendSessionMessage message
  | .cancel message => onCancel message sequence
  | .worker message => postToWorker message sequence generation
  | .notification message => enqueueNotification message sequence generation
  | .request message => enqueueRequest message sequence generation
  | .completePending message pending => completePendingResponse message pending

theorem allowsConcurrentNotification_ends {s : EndPoint} {held : List EndPointMutex} (method : String)
    (h : .route ∉ held) :
    Ends (allowsConcurrentNotification method) held s (decide (method ∈ s.concurrentNotifications)) s :=
  critical_ends h _ s

theorem routeParsedIncoming_eq {s : EndPoint} (hquit : s.quit = false) (item : SequencedParsedMessage) :
    routeParsedIncoming item [.routeDispatch] s =
      routeTo item.sequence s.generation (routeTarget s.concurrentNotifications item.parsed) [.routeDispatch] s := by
  unfold routeParsedIncoming routeTarget
  rw [get_bind, hquit]
  cases item.parsed.ok with
  | false => rfl
  | true =>
      cases item.parsed.message with
      | none => rfl
      | some message =>
          dsimp only
          by_cases houtgoing : item.parsed.outgoing = true
          · rw [if_pos houtgoing, if_pos houtgoing]
            rfl
          · rw [if_neg houtgoing, if_neg houtgoing]
            cases item.parsed.kind with
            | request => rfl
            | response => cases item.parsed.pending <;> rfl
            | notification =>
                dsimp only
                by_cases hcancel : message.method = cancelRequestMethod
                · rw [if_pos hcancel, if_pos hcancel]
                  rfl
                · rw [if_neg hcancel, if_neg hcancel,
                    (allowsConcurrentNotification_ends message.method (by decide)).bind_eq]
                  by_cases hconcurrent : message.method ∈ s.concurrentNotifications
                  · rw [if_pos hconcurrent, if_pos (decide_eq_true hconcurrent)]
                    rfl
                  · rw [if_neg hconcurrent, if_neg (by simpa using hconcurrent)]
                    rfl

theorem onCancel_passes (message : LspMessage) (sequence : Nat) (s : EndPoint) :
    Passes (onCancel message sequence) s :=
  ⟨_, critical_ends (by decide) _ s, ⟨rfl, rfl, rfl, rfl, rfl, rfl⟩, rfl⟩

theorem sendSessionMessage_passes (message : LspMessage) (s : EndPoint) :
    Passes (sendSessionMessage message) s := by
  unfold sendSessionMessage Passes Ends
  rw [get_bind]
  by_cases hactive : s.active = true
  · rw [if_pos hactive]
    refine ⟨_, critical_ends (by decide) _ s, ?_, ?_⟩ <;> dsimp only <;> rw [if_pos hactive]
    exact ⟨rfl, rfl, rfl, rfl, rfl, rfl⟩
  · rw [if_neg hactive]
    exact ⟨s, rfl, SameSession.refl s, rfl⟩

theorem post_sameSession (s : EndPoint) (task : HandlerTask) : SameSession s (s.post task) := by
  unfold post
  split_ifs
  · exact SameSession.refl s
  · exact ⟨rfl, rfl, rfl, rfl, rfl, rfl⟩

theorem post_dispatcher (s : EndPoint) (task : HandlerTask) : (s.post task).dispatcher = s.dispatcher := by
  unfold post
  split_ifs <;> rfl

theorem postToWorker_passes (message : LspMessage) (sequence responseState : Nat) (s : EndPoint) :
    Passes (postToWorker message sequence responseState) s :=
  ⟨_, ends_modify _ _ s, post_sameSession s _, post_dispatcher s _⟩

/-- A handler of the endpoint's own locks nothing. -/
theorem complete_passes {s : EndPoint} {pending : Nat} (h : (s.handlers pending).deferredCallback = false) :
    Passes (complete pending) s := by
  cases hcompleted : (s.handlers pending).completed with
  | true => exact ⟨s, complete_of_completed _ hcompleted, SameSession.refl s, rfl⟩
  | false =>
      refine ⟨s.markCompleted pending, ?_, ⟨rfl, rfl, rfl, rfl, rfl, rfl⟩, rfl⟩
      unfold Ends
      rw [complete_eq _ hcompleted, (s.handlers pending).fastStateOnly h]
      rfl

theorem completePendingResponse_passes (message : LspMessage) (pending : Nat) (s : EndPoint) :
    Passes (completePendingResponse message pending) s := by
  unfold completePendingResponse
  cases hremoved : s.pendingRequests.removeExpected message.id pending with
  | none =>
      refine ⟨s, ?_, SameSession.refl s, rfl⟩
      unfold Ends
      rw [Ends.bind_eq (critical_ends (by decide) _ s), get_bind, hremoved]
      rfl
  | some table =>
      have hsame : SameSession s { s with pendingRequests := table } := ⟨rfl, rfl, rfl, rfl, rfl, rfl⟩
      by_cases hdeferred : (s.handlers pending).deferredCallback = true
      · refine Passes.after (y := modify fun s => s.post (.complete pending)) ?_ ?_ hsame rfl
        · exact ⟨_, ends_modify _ _ _, post_sameSession _ _, post_dispatcher _ _⟩
        · rw [Ends.bind_eq (critical_ends (by decide) _ s), get_bind, hremoved]
          dsimp only
          rw [if_neg (by decide), if_pos hdeferred]
      · refine Passes.after (y := complete pending) (complete_passes ?_) ?_ hsame rfl
        · simpa using hdeferred
        · rw [Ends.bind_eq (critical_ends (by decide) _ s), get_bind, hremoved]
          dsimp only
          rw [if_neg (by decide), if_neg hdeferred]

/-- What an enqueue operation does when the session has not quit: the critical section, then the overload. -/
theorem enqueueNotification_eq {s : EndPoint} (hquit : s.quit = false) (message : LspMessage)
    (sequence responseState : Nat) :
    let enqueued := s.dispatcher.enqueueNotification s.limits false ⟨sequence, message, responseState⟩
    enqueueNotification message sequence responseState [.routeDispatch] s =
      afterEnqueue enqueued.2 (pure ()) [.routeDispatch] { s with dispatcher := enqueued.1 } := by
  unfold enqueueNotification
  rw [get_bind, if_neg (by simp [hquit]), Ends.bind_eq (critical_ends (by decide) _ s), hquit]

theorem enqueueRequest_eq {s : EndPoint} (hquit : s.quit = false) (message : LspMessage)
    (sequence responseState : Nat) :
    let enqueued := s.dispatcher.enqueueRequest s.limits ⟨sequence, message, responseState⟩
    enqueueRequest message sequence responseState [.routeDispatch] s =
      afterEnqueue enqueued.2 (postToWorker message sequence responseState) [.routeDispatch]
        { s with dispatcher := enqueued.1 } := by
  unfold enqueueRequest
  rw [get_bind, if_neg (by simp [hquit]), Ends.bind_eq (critical_ends (by decide) _ s)]

theorem afterEnqueue_passes {enqueued : Enqueued} {postNow : EndPointExec Unit} {s : EndPoint}
    (h : ∀ message, enqueued ≠ .overloaded message) (hpost : Passes postNow s) :
    Passes (afterEnqueue enqueued postNow) s := by
  cases enqueued with
  | overloaded message => exact absurd rfl (h message)
  | postNow => exact hpost
  | ignored => exact ⟨s, rfl, SameSession.refl s, rfl⟩
  | queued => exact ⟨s, rfl, SameSession.refl s, rfl⟩

/-- The dispatcher of an endpoint after a routed message, unless the queue that the message goes to is full. -/
def accepts (s : EndPoint) (item : SequencedParsedMessage) : Option OrderedDispatcher :=
  s.dispatcher.accept s.limits s.concurrentNotifications s.generation item

/-- A message that finds room is routed. -/
theorem routeParsedIncoming_ends {s : EndPoint} {item : SequencedParsedMessage} {d : OrderedDispatcher}
    (hquit : s.quit = false) (h : s.accepts item = some d) :
    ∃ s', Ends (routeParsedIncoming item) [.routeDispatch] s () s' ∧ SameSession s s' ∧ s'.dispatcher = d := by
  unfold Ends
  rw [routeParsedIncoming_eq hquit]
  unfold accepts OrderedDispatcher.accept at h
  have hsame : SameSession s { s with dispatcher := d } := ⟨rfl, rfl, rfl, rfl, rfl, rfl⟩
  cases htarget : routeTarget s.concurrentNotifications item.parsed <;> rw [htarget] at h <;> dsimp only at h
  case dropped => cases h; exact ⟨s, rfl, SameSession.refl s, rfl⟩
  case reply message => cases h; exact sendSessionMessage_passes message s
  case cancel message => cases h; exact onCancel_passes message item.sequence s
  case worker message => cases h; exact postToWorker_passes message item.sequence s.generation s
  case completePending message pending => cases h; exact completePendingResponse_passes message pending s
  case notification message =>
    obtain ⟨hd, hroom⟩ := OrderedDispatcher.accepted_eq_some h
    have hpure : Passes (pure ()) { s with dispatcher := d } := ⟨_, rfl, SameSession.refl _, rfl⟩
    rw [routeTo, enqueueNotification_eq hquit, hd]
    obtain ⟨s', hends, hsame', hd'⟩ := afterEnqueue_passes hroom hpure
    exact ⟨s', hends, hsame.trans hsame', hd'⟩
  case request message =>
    obtain ⟨hd, hroom⟩ := OrderedDispatcher.accepted_eq_some h
    rw [routeTo, enqueueRequest_eq hquit, hd]
    obtain ⟨s', hends, hsame', hd'⟩ := afterEnqueue_passes hroom
      (postToWorker_passes message item.sequence s.generation { s with dispatcher := d })
    exact ⟨s', hends, hsame.trans hsame', hd'⟩

/-- A message for a full queue is an overload. -/
theorem routeParsedIncoming_overload {s : EndPoint} {item : SequencedParsedMessage} (hquit : s.quit = false)
    (h : s.accepts item = none) :
    ∃ message postNow, routeParsedIncoming item [.routeDispatch] s =
      afterEnqueue (.overloaded message) postNow [.routeDispatch] s := by
  rw [routeParsedIncoming_eq hquit]
  unfold accepts OrderedDispatcher.accept at h
  cases htarget : routeTarget s.concurrentNotifications item.parsed <;> rw [htarget] at h <;> dsimp only at h
  case notification message =>
    obtain ⟨text, htext⟩ := OrderedDispatcher.accepted_eq_none h
    refine ⟨text, pure (), ?_⟩
    rw [routeTo, enqueueNotification_eq hquit, htext, OrderedDispatcher.enqueueNotification_overloaded htext]
  case request message =>
    obtain ⟨text, htext⟩ := OrderedDispatcher.accepted_eq_none h
    refine ⟨text, postToWorker message item.sequence s.generation, ?_⟩
    rw [routeTo, enqueueRequest_eq hquit, htext, OrderedDispatcher.enqueueRequest_overloaded htext]
  all_goals cases h

/-- Where a stop does nothing, a message is routed or dropped. -/
theorem routeParsedIncoming_harmless {s : EndPoint} (item : SequencedParsedMessage) (h : s.Harmless) :
    ∃ s', Ends (routeParsedIncoming item) [.routeDispatch] s () s' ∧ s'.Harmless := by
  cases hquit : s.quit with
  | true =>
      refine ⟨s, ?_, h⟩
      unfold routeParsedIncoming Ends
      rw [get_bind, hquit]
      cases item.parsed.ok <;> cases item.parsed.message <;> rfl
  | false =>
      cases haccepts : s.accepts item with
      | some d =>
          obtain ⟨s', hends, hsame, _⟩ := routeParsedIncoming_ends hquit haccepts
          exact ⟨s', hends, hsame.harmless_iff.mpr h⟩
      | none =>
          obtain ⟨message, _, heq⟩ := routeParsedIncoming_overload hquit haccepts
          have hfree : EndPointMutex.lifecycle ∉ [EndPointMutex.routeDispatch] := by decide
          obtain ⟨_, log, hends⟩ := handleOverload_ends message h hfree
          exact ⟨_, heq.trans (hends.bind (ends_pure () _ _)), h⟩

/-! ### Routing a batch -/

theorem routeEach_harmless {s : EndPoint} (items : List SequencedParsedMessage) (h : s.Harmless) :
    ∃ s', Ends (items.forM routeParsedIncoming) [.routeDispatch] s () s' := by
  induction items generalizing s with
  | nil => exact ⟨s, rfl⟩
  | cons item rest ih =>
      obtain ⟨mid, hfirst, hmid⟩ := routeParsedIncoming_harmless item h
      obtain ⟨s', hrest⟩ := ih hmid
      exact ⟨s', hfirst.bind hrest⟩

/-- Where a stop takes effect, a batch is routed exactly if every message of it finds room. -/
theorem routeEach_selfDeadlocks_iff {s : EndPoint} (items : List SequencedParsedMessage) (hquit : s.quit = false)
    (h : ¬s.Harmless) :
    ¬SelfDeadlocks (items.forM routeParsedIncoming) [.routeDispatch] s ↔
      s.dispatcher.Fits s.limits s.concurrentNotifications s.generation items := by
  induction items generalizing s with
  | nil => exact iff_of_true (ends_pure () _ s).not_selfDeadlocks trivial
  | cons item rest ih =>
      rw [forM_cons, OrderedDispatcher.Fits]
      cases haccepts : s.accepts item with
      | some d =>
          obtain ⟨s', hends, hsame, hd⟩ := routeParsedIncoming_ends hquit haccepts
          rw [hends.selfDeadlocks_bind, ih (hsame.quit.trans hquit) fun h' => h (hsame.harmless_iff.mp h'),
            hsame.limits, hsame.concurrentNotifications, hsame.generation, hd]
          refine ⟨fun hfits => ⟨d, haccepts, hfits⟩, fun ⟨d', hd', hfits⟩ => ?_⟩
          rwa [Option.some.inj (haccepts.symm.trans hd')]
      | none =>
          refine iff_of_false (not_not.mpr (SelfDeadlocks.bind ?_ _)) fun ⟨d', hd', _⟩ => ?_
          · obtain ⟨message, _, heq⟩ := routeParsedIncoming_overload hquit haccepts
            unfold SelfDeadlocks
            rw [heq]
            exact (handleOverload_selfDeadlocks message h List.mem_cons_self).bind _
          · cases haccepts.symm.trans hd'

section Submit

variable {s : EndPoint} {sequence : Nat} {parsed : ParsedMessage} {bypass : Bool}

theorem submitParsedMessage_quit (hquit : s.quit = true) :
    Ends (submitParsedMessage sequence parsed bypass) [] s () s := by
  have hdispatching : Ends (submitDispatching sequence parsed bypass) [] s none s := by
    unfold submitDispatching Ends
    rw [withLock_eq List.not_mem_nil, Ends.bind_eq (critical_ends (by decide) _ s), if_pos hquit]
    rfl
  exact hdispatching.bind (ends_pure () _ s)

/-- The call goes on with the batch, under the dispatch lock. -/
theorem submitParsedMessage_ready (hquit : s.quit = false) {reorder : Reorder} {items : List SequencedParsedMessage}
    (h : s.reorder.submitParsedMessage s.limits sequence parsed bypass = (reorder, .ready items)) :
    SelfDeadlocks (submitParsedMessage sequence parsed bypass) [] s ↔
      SelfDeadlocks (items.forM routeParsedIncoming) [.routeDispatch] { s with reorder := reorder } := by
  have hdispatching : submitDispatching sequence parsed bypass [] s =
      (items.forM routeParsedIncoming >>= fun _ => pure none : EndPointExec (Option String)) [.routeDispatch]
        { s with reorder := reorder } := by
    unfold submitDispatching
    rw [withLock_eq List.not_mem_nil, Ends.bind_eq (critical_ends (by decide) _ s), if_neg (by simp [hquit]), h]
  by_cases hdead : SelfDeadlocks (items.forM routeParsedIncoming) [.routeDispatch] { s with reorder := reorder }
  · refine iff_of_true (SelfDeadlocks.bind ?_ _) hdead
    unfold SelfDeadlocks
    rw [hdispatching]
    exact hdead.bind _
  · obtain ⟨_, s', hends⟩ := not_selfDeadlocks_iff.mp hdead
    have hnone : Ends (submitDispatching sequence parsed bypass) [] s none s' :=
      hdispatching.trans (hends.bind (ends_pure none _ s'))
    exact iff_of_false (hnone.bind (ends_pure () _ s')).not_selfDeadlocks hdead

/-- The call goes on with the overload, after the dispatch lock has been released. -/
theorem submitParsedMessage_overloaded (hquit : s.quit = false) {reorder : Reorder} {message : String}
    (h : s.reorder.submitParsedMessage s.limits sequence parsed bypass = (reorder, .overloaded message)) :
    SelfDeadlocks (submitParsedMessage sequence parsed bypass) [] s ↔
      SelfDeadlocks (handleOverload message) [] { s with reorder := reorder } := by
  have hdispatching : Ends (submitDispatching sequence parsed bypass) [] s (some message)
      { s with reorder := reorder } := by
    unfold submitDispatching Ends
    rw [withLock_eq List.not_mem_nil, Ends.bind_eq (critical_ends (by decide) _ s), if_neg (by simp [hquit]), h]
    rfl
  unfold submitParsedMessage
  rw [hdispatching.selfDeadlocks_bind]
  exact selfDeadlocks_bind_iff fun _ s' => (ends_pure () _ s').not_selfDeadlocks

theorem submitParsedMessage_harmless (hquit : s.quit = false) (h : s.Harmless) :
    ¬SelfDeadlocks (submitParsedMessage sequence parsed bypass) [] s := by
  rcases hsubmitted : s.reorder.submitParsedMessage s.limits sequence parsed bypass with ⟨reorder, submitted⟩
  have hharmless : Harmless { s with reorder := reorder } := h
  cases submitted with
  | ready items =>
      rw [submitParsedMessage_ready hquit hsubmitted]
      obtain ⟨_, hends⟩ := routeEach_harmless items hharmless
      exact hends.not_selfDeadlocks
  | overloaded message =>
      rw [submitParsedMessage_overloaded hquit hsubmitted]
      obtain ⟨_, _, hends⟩ := handleOverload_ends message hharmless List.not_mem_nil
      exact hends.not_selfDeadlocks

theorem submitParsedMessage_refused (hquit : s.quit = false) (h : ¬s.Harmless) (hrefused : s.Refuses sequence bypass) :
    ¬SelfDeadlocks (submitParsedMessage sequence parsed bypass) [] s ↔
      HandlersSpare .lifecycle s.pendingRequests.takeAll.2 s := by
  obtain ⟨hseq, hbypass, hfull⟩ := hrefused
  obtain ⟨message, hmessage⟩ := Reorder.submitParsedMessage_overloaded parsed (not_or.mp h).1 hseq hbypass hfull
  rw [submitParsedMessage_overloaded hquit hmessage]
  exact handleOverload_selfDeadlocks_iff message h

theorem submitParsedMessage_routes (hquit : s.quit = false) (h : ¬s.Harmless)
    (hrefused : ¬s.Refuses sequence bypass) :
    ¬SelfDeadlocks (submitParsedMessage sequence parsed bypass) [] s ↔ s.HasRoom sequence parsed := by
  have hroom : sequence = s.reorder.nextRouteSequence ∨ bypass = true ∨ s.reorder.full s.limits = false := by
    unfold Refuses at hrefused
    simp only [ne_eq, not_and_or, not_not, Bool.not_eq_false, Bool.not_eq_true] at hrefused
    exact hrefused
  have hready := Reorder.submitParsedMessage_ready parsed hroom
  rcases hsubmitted : s.reorder.submitParsedMessage s.limits sequence parsed bypass with ⟨reorder, submitted⟩
  rw [hsubmitted] at hready
  cases hready
  rw [submitParsedMessage_ready hquit hsubmitted]
  exact routeEach_selfDeadlocks_iff (s := { s with reorder := reorder }) _ hquit h

end Submit

/-- **A call of `submitParsedMessage` that is not interrupted never waits for a mutex that its own thread holds
exactly if** the session has quit, or the policy is to drop the newest message, or there is nothing to stop, or
the message is refused by the reorder buffer and no handler of a pending request locks the lifecycle mutex, or
every message that the call makes ready finds room in the queue that it goes to. -/
theorem submitParsedMessage_selfDeadlockFree_iff (s : EndPoint) (sequence : Nat) (parsed : ParsedMessage)
    (bypass : Bool) :
    ¬SelfDeadlocks (submitParsedMessage sequence parsed bypass) [] s ↔
      s.quit = true ∨ s.limits.overloadPolicy = .dropNewest ∨ ¬s.Stoppable ∨
        (s.Refuses sequence bypass ∧ HandlersSpare .lifecycle s.pendingRequests.takeAll.2 s) ∨
        (¬s.Refuses sequence bypass ∧ s.HasRoom sequence parsed) := by
  cases hquit : s.quit with
  | true => exact iff_of_true (submitParsedMessage_quit hquit).not_selfDeadlocks (.inl rfl)
  | false =>
      by_cases hharmless : s.Harmless
      · exact iff_of_true (submitParsedMessage_harmless hquit hharmless) (.inr (hharmless.imp_right .inl))
      · obtain ⟨hpolicy, hstop⟩ := not_or.mp hharmless
        by_cases hrefused : s.Refuses sequence bypass
        · rw [submitParsedMessage_refused hquit hharmless hrefused]
          simp [hpolicy, not_not.mp hstop, hrefused]
        · rw [submitParsedMessage_routes hquit hharmless hrefused]
          simp [hpolicy, not_not.mp hstop, hrefused]

/-- A working endpoint with room for one notification, which is queued. -/
def fullEndPoint : EndPoint :=
  { limits := { maxNotificationQueueSize := 1 }
    working := true
    messageProducerThread := true
    reorder := ⟨∅, 1⟩
    dispatcher := { notificationQueue := [⟨0, ⟨.notification, "textDocument/didOpen", .kNone⟩, 0⟩] } }

/-- The notification that comes next. -/
def nextNotification : ParsedMessage :=
  { ok := true, message := some ⟨.notification, "textDocument/didChange", .kNone⟩ }

/-- The call routes a notification to a full queue: it stops the session under the dispatch lock and waits for
that lock in `clearMessageRouting`. -/
theorem fullEndPoint_selfDeadlocks :
    SelfDeadlocks (submitParsedMessage 1 nextNotification false) [] fullEndPoint :=
  ⟨.routeDispatch, by rfl⟩

end EndPoint

end LspCpp

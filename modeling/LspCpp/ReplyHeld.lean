import LspCpp.ReplySystem

/-! Where the messages of a session are. Without limits nothing is refused: what the reorder buffer and the routing hold
was submitted by a parse task, and every step of the dispatcher but the execution of a message keeps the messages that
it holds. -/

namespace LspCpp

namespace Reorder

theorem full_of_unlimited {limits : RemoteEndPointLimits} (h : limits.Unlimited) (r : Reorder) :
    r.full limits = false := by
  rw [h]
  rfl

/-- What a call without limits makes ready and what it keeps is the submitted message or was buffered. -/
theorem submitParsedMessage_sources {r r' : Reorder} {limits : RemoteEndPointLimits} {sequence : Nat}
    {parsed : ParsedMessage} {items : List SequencedParsedMessage} (hlimits : limits.Unlimited)
    (h : r.submitParsedMessage limits sequence parsed false = (r', .ready items)) :
    (∀ item ∈ items, item = ⟨sequence, parsed⟩ ∨ r.reorderBuffer.lookup item.sequence = some item.parsed) ∧
      ∀ k kept, r'.reorderBuffer.lookup k = some kept →
        k = sequence ∧ kept = parsed ∨ r.reorderBuffer.lookup k = some kept := by
  refine submitParsedMessage_sources_of_kept (fun _ => ?_) h
  rw [full_of_unlimited hlimits, Bool.and_false]

theorem submitParsedMessage_not_overloaded {r r' : Reorder} {limits : RemoteEndPointLimits} {sequence : Nat}
    {parsed : ParsedMessage} {message : String} (hlimits : limits.Unlimited) :
    r.submitParsedMessage limits sequence parsed false ≠ (r', .overloaded message) := by
  intro h
  rw [submitParsedMessage, full_of_unlimited hlimits r] at h
  by_cases hseq : sequence = r.nextRouteSequence
  · rw [if_pos hseq] at h
    cases h
  · rw [if_neg hseq] at h
    cases h

end Reorder

namespace RouteState

/-- Without limits no message is refused. -/
theorem step_submit_unlimited {s s' : RouteState} {sequence : Nat} {parsed : ParsedMessage}
    (hlimits : s.limits.Unlimited) (h : step (.submit sequence parsed false) s = some s') :
    s.ready = none ∧ sequence ∈ s.inFlight ∧ ∃ reorder items,
      s.reorder.submitParsedMessage s.limits sequence parsed false = (reorder, .ready items) ∧
      s' = { s with
        reorder := reorder
        inFlight := s.inFlight.erase sequence
        ready := some items
        submitted := sequence :: s.submitted } := by
  rw [step] at h
  split_ifs at h with hok
  obtain rfl := Option.some.inj h
  refine ⟨hok.2.1, hok.2.2, ?_⟩
  unfold submit
  split
  · rename_i hover
    exact absurd hover (Reorder.submitParsedMessage_not_overloaded hlimits)
  · rename_i reorder items hsubmit
    exact ⟨reorder, items, hsubmit, rfl⟩

end RouteState

namespace GateAction

theorem ne_route_of_moves (a : GateAction) (ha : a.moves = true) : a ≠ .route := by
  rintro rfl
  cases ha

/-- Only the release of the routing lock is a step of the routing. -/
theorem routeAction_of_moves (a : GateAction) (ha : a.moves = true) {b : RouteAction}
    (hb : GateState.routeAction a = some b) : b = .release := by
  cases a <;> cases ha <;> cases hb
  rfl

end GateAction

/-- The messages that the loop has taken and has neither executed nor posted. -/
def LoopPhase.items : LoopPhase → List DispatchItem
  | .running item => [item]
  | .posting ready => ready.map ParkedRequest.request
  | .waiting | .returned _ => []

/-- The parked requests are split by the state of their gate. -/
theorem OrderedDispatcher.countP_completeNotification (d : OrderedDispatcher) (sequence : Nat)
    (q : DispatchItem → Bool) :
    ((d.completeNotification sequence).2.map ParkedRequest.request).countP q +
        ((d.completeNotification sequence).1.parkedRequests.map ParkedRequest.request).countP q =
      (d.parkedRequests.map ParkedRequest.request).countP q := by
  rw [completeNotification, releaseParkedRequestsLocked, ← List.countP_append, ← List.map_append]
  exact ((List.filter_append_perm _ _).map _).countP_eq q

/-- The message that a routed message hands to the dispatcher or to a worker. -/
def RouteTarget.dispatched : RouteTarget → Option LspMessage
  | .worker message | .notification message | .request message => some message
  | .dropped | .reply _ | .cancel _ | .completePending .. => none

namespace GateState

/-- The number of messages with the property `q` that are queued, parked, executed by the loop, or on their way to the
handler pool or in it. -/
def holding (g : GateState) (q : DispatchItem → Bool) : Nat :=
  g.posting.toList.countP q + g.dispatcher.notificationQueue.countP q + g.loop.items.countP q +
    (g.dispatcher.parkedRequests.map ParkedRequest.request).countP q + g.handlerPool.countP q

/-- The message that a call of `routeParsedIncoming` hands over. -/
def handedOver (g : GateState) (item : SequencedParsedMessage) : List DispatchItem :=
  ((routeTarget g.concurrentNotifications item.parsed).dispatched.map (⟨item.sequence, ·, g.generation⟩)).toList

/-- A routed message is handed over, and nothing else changes hands. -/
theorem routeParsedIncoming_unlimited (item : SequencedParsedMessage) {g : GateState} (hposting : g.posting = none)
    (hrunning : g.dispatcher.notificationStop = false) (hlimits : g.route.limits.Unlimited) :
    (g.routeParsedIncoming item).route = g.route ∧
      (g.routeParsedIncoming item).concurrentNotifications = g.concurrentNotifications ∧
      (g.routeParsedIncoming item).generation = g.generation ∧
      ∀ q, (g.routeParsedIncoming item).holding q = g.holding q + (g.handedOver item).countP q := by
  have hqueue : ¬(g.route.limits.maxNotificationQueueSize ≠ 0 ∧
      g.route.limits.maxNotificationQueueSize ≤ g.dispatcher.notificationQueue.length) := by
    rw [hlimits]
    exact fun h => h.1 rfl
  have hparked : ¬(g.route.limits.maxParkedRequestQueueSize ≠ 0 ∧
      g.route.limits.maxParkedRequestQueueSize ≤ g.dispatcher.parkedRequests.length) := by
    rw [hlimits]
    exact fun h => h.1 rfl
  unfold routeParsedIncoming
  split
  case h_5 message htarget =>
    refine ⟨rfl, rfl, rfl, fun q => ?_⟩
    simp only [handedOver, htarget, RouteTarget.dispatched, holding, List.countP_append, Option.map_some,
      Option.toList_some]
    omega
  case h_6 message htarget =>
    rw [OrderedDispatcher.enqueueNotification, hrunning, if_neg (by simp), if_neg hqueue]
    refine ⟨rfl, rfl, rfl, fun q => ?_⟩
    simp only [handedOver, htarget, RouteTarget.dispatched, holding, List.countP_append, Option.map_some,
      Option.toList_some]
    omega
  case h_7 message htarget =>
    unfold OrderedDispatcher.enqueueRequest
    by_cases hgate : (!g.dispatcher.notificationStop && g.dispatcher.hasLastOrderedNotification &&
        !g.dispatcher.notificationGateSatisfied g.dispatcher.lastOrderedNotificationSeq) = true
    · rw [if_pos hgate, if_neg hparked]
      refine ⟨rfl, rfl, rfl, fun q => ?_⟩
      simp only [handedOver, htarget, RouteTarget.dispatched, holding, List.map_append, List.countP_append,
        Option.map_some, Option.toList_some, List.map_cons, List.map_nil]
      omega
    · rw [if_neg hgate]
      refine ⟨rfl, rfl, rfl, fun q => ?_⟩
      simp only [handedOver, htarget, RouteTarget.dispatched, holding, hposting, Option.map_some, Option.toList_some,
        Option.toList_none, List.countP_nil]
      omega
  all_goals
    rename_i htarget
    refine ⟨rfl, rfl, rfl, fun q => ?_⟩
    rw [handedOver, htarget]
    rfl

/-- The step of the routing that calls `routeParsedIncoming`. -/
theorem step_route_unlimited {g g' : GateState} {item : SequencedParsedMessage} {rest : List SequencedParsedMessage}
    (hrunning : g.dispatcher.notificationStop = false) (hlimits : g.route.limits.Unlimited)
    (hready : g.route.ready = some (item :: rest)) (h : step .route g = some g') :
    RouteState.step .route g.route = some g'.route ∧ g'.route.routed = g.route.routed ++ [item] ∧
      g'.concurrentNotifications = g.concurrentNotifications ∧
      ∀ q, g'.holding q = g.holding q + (g'.handedOver item).countP q := by
  obtain ⟨item', rest', route, hposting, hready', hroute, rfl⟩ := step_route h
  obtain ⟨rfl, rfl⟩ := List.cons.inj (Option.some.inj (hready.symm.trans hready'))
  have hnext : route = { g.route with ready := some rest, routed := g.route.routed ++ [item] } := by
    obtain ⟨_, _, hready', _, rfl⟩ := RouteState.step_route hroute
    obtain ⟨rfl, rfl⟩ := List.cons.inj (Option.some.inj (hready.symm.trans hready'))
    rfl
  have hlimits' : route.limits.Unlimited := by
    rw [hnext]
    exact hlimits
  obtain ⟨hsame, hconcurrent, hgeneration, hholding⟩ :=
    routeParsedIncoming_unlimited item (g := { g with route := route }) hposting hrunning hlimits'
  refine ⟨hsame ▸ hroute, ?_, hconcurrent, fun q => ?_⟩
  · rw [hsame, hnext]
  · rw [hholding, handedOver, handedOver, hconcurrent, hgeneration]
    rfl

/-- Moving messages along neither loses nor doubles one. -/
theorem holding_moves {g g' : GateState} {a : GateAction} (ha : a.moves = true) (h : step a g = some g')
    (q : DispatchItem → Bool) : g'.holding q = g.holding q := by
  cases a with
  | postNow =>
      obtain ⟨request, hposting, rfl⟩ := step_postNow h
      simp only [holding, postRequest, hposting, List.countP_append, Option.toList_some, Option.toList_none,
        List.countP_nil]
      omega
  | release =>
      obtain ⟨route, _, rfl⟩ := step_routing rfl h
      rfl
  | take =>
      obtain ⟨item, rest, hloop, hqueue, rfl⟩ := step_take h
      simp only [holding, hloop, hqueue, LoopPhase.items, List.countP_cons, List.countP_nil]
      omega
  | complete =>
      obtain ⟨item, hloop, rfl⟩ := step_complete h
      have hqueue : (g.dispatcher.completeNotification item.sequence).1.notificationQueue =
          g.dispatcher.notificationQueue := rfl
      have hsplit := g.dispatcher.countP_completeNotification item.sequence q
      simp only [holding, hloop, hqueue, LoopPhase.items, List.countP_nil]
      omega
  | postParked =>
      obtain ⟨parked, rest, hloop, rfl⟩ := step_postParked h
      simp only [holding, postRequest, hloop, LoopPhase.items, List.countP_append, List.map_cons, List.countP_cons,
        List.countP_nil]
      omega
  | wait =>
      obtain ⟨hloop, rfl⟩ := step_wait h
      simp only [holding, hloop, LoopPhase.items, List.map_nil]
  | read | submit _ _ _ | route | handlerEnds | work | stop => cases ha

end GateState

end LspCpp

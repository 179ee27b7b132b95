import LspCpp.DispatchOrdered
import LspCpp.RouteOrder

/-! One session of an endpoint: the routing, the ordered dispatcher with its notification loop, and the
workers of the handler pool, in any interleaving. -/

namespace LspCpp

/-- Where the notification loop is: waiting for an item, in the handler of one, past it, or posting the
requests that it has released. -/
inductive LoopPhase where
  | waiting
  | running (item : DispatchItem)
  | returned (item : DispatchItem)
  | posting (ready : List ParkedRequest)
  deriving DecidableEq, Repr

/-- A notification that the loop has taken and not completed. -/
def LoopPhase.current : LoopPhase → List Nat
  | .running item | .returned item => [item.sequence]
  | .waiting | .posting _ => []

/-- `posting` is a request that `enqueueRequest` has still to post; `accepted`, `finished` and `posted` record
the notifications put into the queue, those whose handler has ended and the requests posted. -/
structure GateState where
  route : RouteState := {}
  concurrentNotifications : List String := []
  generation : Nat := 0
  dispatcher : OrderedDispatcher := {}
  posting : Option DispatchItem := none
  loop : LoopPhase := .waiting
  handlerPool : List DispatchItem := []
  accepted : List Nat := []
  finished : List Nat := []
  posted : List Nat := []

inductive GateAction where
  | read
  | submit (sequence : Nat) (parsed : ParsedMessage) (bypassReorderLimit : Bool)
  | route
  | postNow
  | release
  | take
  | handlerEnds
  | complete
  | postParked
  | wait
  | work
  | stop
  deriving DecidableEq, Repr

namespace GateState

/-- `handleOverload`: the newest message is dropped, or the session is stopped. -/
def overload (s : GateState) : GateState :=
  if s.route.limits.overloadPolicy = .dropNewest then s else { s with route := { s.route with quit := true } }

/-- `routeParsedIncoming` up to the post of a request. What it does with replies, cancels and responses does
not concern the gate. -/
def routeParsedIncoming (s : GateState) (item : SequencedParsedMessage) : GateState :=
  match routeTarget s.concurrentNotifications item.parsed with
  | .dropped | .reply _ | .cancel _ | .completePending .. => s
  | .worker message => { s with handlerPool := s.handlerPool ++ [⟨item.sequence, message, s.generation⟩] }
  | .notification message =>
      match s.dispatcher.enqueueNotification s.route.limits false ⟨item.sequence, message, s.generation⟩ with
      | (_, .overloaded _) => s.overload
      | (dispatcher, .queued) =>
          { s with dispatcher := dispatcher, accepted := s.accepted ++ [item.sequence] }
      | (dispatcher, _) => { s with dispatcher := dispatcher }
  | .request message =>
      match s.dispatcher.enqueueRequest s.route.limits ⟨item.sequence, message, s.generation⟩ with
      | (_, .overloaded _) => s.overload
      | (dispatcher, .postNow) =>
          { s with dispatcher := dispatcher, posting := some ⟨item.sequence, message, s.generation⟩ }
      | (dispatcher, _) => { s with dispatcher := dispatcher }

/-- `postToWorker` with a request. -/
def postRequest (s : GateState) (request : DispatchItem) : GateState :=
  { s with handlerPool := s.handlerPool ++ [request], posted := s.posted ++ [request.sequence] }

/-- A step of the routing that is not a call of `routeParsedIncoming`. -/
def routeStep (a : RouteAction) (s : GateState) : Option GateState :=
  (RouteState.step a s.route).map fun route => { s with route := route }

/-- A step of a session that has not quit. -/
def running : GateAction → GateState → Option GateState
  | .read, s => routeStep .read s
  | .submit sequence parsed bypass, s => routeStep (.submit sequence parsed bypass) s
  | .route, s =>
      match s.posting, s.route.ready with
      | none, some (item :: _) => (routeStep .route s).map fun s => s.routeParsedIncoming item
      | _, _ => none
  | .postNow, s => s.posting.map fun request => { s.postRequest request with posting := none }
  | .release, s => if s.posting = none then routeStep .release s else none
  | .take, s =>
      match s.loop, s.dispatcher.notificationQueue with
      | .waiting, item :: rest =>
          some { s with
            dispatcher := { s.dispatcher with notificationQueue := rest }, loop := .running item }
      | _, _ => none
  | .handlerEnds, s =>
      match s.loop with
      | .running item => some { s with loop := .returned item, finished := s.finished ++ [item.sequence] }
      | _ => none
  | .complete, s =>
      match s.loop with
      | .returned item =>
          let released := s.dispatcher.completeNotification item.sequence
          some { s with dispatcher := released.1, loop := .posting released.2 }
      | _ => none
  | .postParked, s =>
      match s.loop with
      | .posting (parked :: rest) => some { s.postRequest parked.request with loop := .posting rest }
      | _ => none
  | .wait, s => if s.loop = .posting [] then some { s with loop := .waiting } else none
  | .work, s =>
      match s.handlerPool with
      | _ :: rest => some { s with handlerPool := rest }
      | [] => none
  | .stop, s => routeStep .stop s

def step (a : GateAction) (s : GateState) : Option GateState := if s.route.quit then none else running a s

end GateState

/-- A session right after its start: the dispatcher and the routing are reset. -/
def gateSystem : Transition.System GateState GateAction where
  init s := ∃ route concurrentNotifications generation dispatcher, routeSystem.init route ∧
    s = { route := route, concurrentNotifications := concurrentNotifications, generation := generation,
          dispatcher := OrderedDispatcher.startOrderedDispatcher dispatcher }
  step := GateState.step

namespace GateState

/-! ### What one step can do -/

/-- What `routeParsedIncoming` does to the dispatcher. -/
theorem routeParsedIncoming_cases (s : GateState) (item : SequencedParsedMessage) :
    (s.routeParsedIncoming item = s ∨
      s.routeParsedIncoming item = { s with route := { s.route with quit := true } } ∨
      ∃ handlerPool, s.routeParsedIncoming item = { s with handlerPool := handlerPool }) ∨
    (s.dispatcher.notificationStop = false ∧ ∃ notification : DispatchItem,
      notification.sequence = item.sequence ∧ s.routeParsedIncoming item = { s with
        dispatcher := { s.dispatcher with
          hasLastOrderedNotification := true
          lastOrderedNotificationSeq := item.sequence
          notificationQueue := s.dispatcher.notificationQueue ++ [notification] }
        accepted := s.accepted ++ [item.sequence] }) ∨
    (∃ request : DispatchItem, request.sequence = item.sequence ∧
      (s.dispatcher.hasLastOrderedNotification = true ∧
        s.dispatcher.notificationGateSatisfied s.dispatcher.lastOrderedNotificationSeq = false) ∧
      s.routeParsedIncoming item = { s with
        dispatcher := { s.dispatcher with
          parkedRequests := s.dispatcher.parkedRequests ++
            [⟨s.dispatcher.lastOrderedNotificationSeq, request⟩] } }) ∨
    ∃ request : DispatchItem, request.sequence = item.sequence ∧
      (s.dispatcher.notificationStop = true ∨ s.dispatcher.hasLastOrderedNotification = false ∨
        s.dispatcher.notificationGateSatisfied s.dispatcher.lastOrderedNotificationSeq = true) ∧
      s.routeParsedIncoming item = { s with posting := some request } := by
  have hoverload : s.overload = s ∨ s.overload = { s with route := { s.route with quit := true } } := by
    unfold overload
    split_ifs
    · exact .inl rfl
    · exact .inr rfl
  unfold routeParsedIncoming
  split
  case h_6 message _ =>
    unfold OrderedDispatcher.enqueueNotification
    by_cases hstop : (s.dispatcher.notificationStop || false) = true
    · rw [if_pos hstop]
      exact .inl (.inl rfl)
    · rw [if_neg hstop]
      by_cases hfull : s.route.limits.maxNotificationQueueSize ≠ 0 ∧
          s.route.limits.maxNotificationQueueSize ≤ s.dispatcher.notificationQueue.length
      · simp only [if_pos hfull]
        exact .inl (hoverload.imp_right .inl)
      · simp only [if_neg hfull]
        exact .inr (.inl ⟨by simpa using hstop, _, rfl, rfl⟩)
  case h_7 message _ =>
    unfold OrderedDispatcher.enqueueRequest
    by_cases hgate : (!s.dispatcher.notificationStop && s.dispatcher.hasLastOrderedNotification &&
        !s.dispatcher.notificationGateSatisfied s.dispatcher.lastOrderedNotificationSeq) = true
    · rw [if_pos hgate]
      by_cases hfull : s.route.limits.maxParkedRequestQueueSize ≠ 0 ∧
          s.route.limits.maxParkedRequestQueueSize ≤ s.dispatcher.parkedRequests.length
      · simp only [if_pos hfull]
        exact .inl (hoverload.imp_right .inl)
      · simp only [if_neg hfull]
        simp only [Bool.and_eq_true, Bool.not_eq_true'] at hgate
        exact .inr (.inr (.inl ⟨_, rfl, ⟨hgate.1.2, hgate.2⟩, rfl⟩))
    · rw [if_neg hgate]
      refine .inr (.inr (.inr ⟨_, rfl, ?_, rfl⟩))
      simp only [Bool.and_eq_true, Bool.not_eq_true', not_and_or, Bool.not_eq_false, Bool.not_eq_true] at hgate
      tauto
  case h_5 message _ => exact .inl (.inr (.inr ⟨_, rfl⟩))
  all_goals exact .inl (.inl rfl)

theorem running_of_step {a : GateAction} {s s' : GateState} (h : step a s = some s') :
    running a s = some s' := by
  rw [step] at h
  split_ifs at h
  exact h

theorem routeStep_eq_some {a : RouteAction} {s s' : GateState} (h : routeStep a s = some s') :
    ∃ route, RouteState.step a s.route = some route ∧ s' = { s with route := route } := by
  obtain ⟨route, hroute, rfl⟩ := Option.map_eq_some_iff.mp h
  exact ⟨route, hroute, rfl⟩

/-- The actions that are steps of the routing only. -/
def routeAction : GateAction → Option RouteAction
  | .read => some .read
  | .submit sequence parsed bypass => some (.submit sequence parsed bypass)
  | .release => some .release
  | .stop => some .stop
  | _ => none

theorem step_routing {a : GateAction} {b : RouteAction} {s s' : GateState} (ha : routeAction a = some b)
    (h : step a s = some s') :
    ∃ route, RouteState.step b s.route = some route ∧ s' = { s with route := route } := by
  replace h := running_of_step h
  cases a <;> cases ha <;> rw [running] at h
  case release.refl =>
    split_ifs at h
    exact routeStep_eq_some h
  all_goals exact routeStep_eq_some h

theorem step_route {s s' : GateState} (h : step .route s = some s') :
    ∃ item rest route, s.posting = none ∧ s.route.ready = some (item :: rest) ∧
      RouteState.step .route s.route = some route ∧
      s' = { s with route := route }.routeParsedIncoming item := by
  replace h := running_of_step h
  rw [running] at h
  split at h
  · rename_i item rest hposting hready
    obtain ⟨mid, hmid, rfl⟩ := Option.map_eq_some_iff.mp h
    obtain ⟨route, hroute, rfl⟩ := routeStep_eq_some hmid
    exact ⟨item, rest, route, hposting, hready, hroute, rfl⟩
  · cases h

theorem step_postNow {s s' : GateState} (h : step .postNow s = some s') :
    ∃ request, s.posting = some request ∧ s' = { s.postRequest request with posting := none } := by
  replace h := running_of_step h
  obtain ⟨request, hrequest, rfl⟩ := Option.map_eq_some_iff.mp h
  exact ⟨request, hrequest, rfl⟩

theorem step_take {s s' : GateState} (h : step .take s = some s') :
    ∃ item rest, s.loop = .waiting ∧ s.dispatcher.notificationQueue = item :: rest ∧
      s' = { s with dispatcher := { s.dispatcher with notificationQueue := rest }, loop := .running item } := by
  replace h := running_of_step h
  rw [running] at h
  split at h
  · rename_i item rest hloop hqueue
    exact ⟨item, rest, hloop, hqueue, (Option.some.inj h).symm⟩
  · cases h

theorem step_handlerEnds {s s' : GateState} (h : step .handlerEnds s = some s') :
    ∃ item, s.loop = .running item ∧
      s' = { s with loop := .returned item, finished := s.finished ++ [item.sequence] } := by
  replace h := running_of_step h
  rw [running] at h
  split at h
  · rename_i item hloop
    exact ⟨item, hloop, (Option.some.inj h).symm⟩
  · cases h

theorem step_complete {s s' : GateState} (h : step .complete s = some s') :
    ∃ item, s.loop = .returned item ∧
      s' = { s with
        dispatcher := (s.dispatcher.completeNotification item.sequence).1
        loop := .posting (s.dispatcher.completeNotification item.sequence).2 } := by
  replace h := running_of_step h
  rw [running] at h
  split at h
  · rename_i item hloop
    exact ⟨item, hloop, (Option.some.inj h).symm⟩
  · cases h

theorem step_postParked {s s' : GateState} (h : step .postParked s = some s') :
    ∃ parked rest, s.loop = .posting (parked :: rest) ∧
      s' = { s.postRequest parked.request with loop := .posting rest } := by
  replace h := running_of_step h
  rw [running] at h
  split at h
  · rename_i parked rest hloop
    exact ⟨parked, rest, hloop, (Option.some.inj h).symm⟩
  · cases h

theorem step_wait {s s' : GateState} (h : step .wait s = some s') :
    s.loop = .posting [] ∧ s' = { s with loop := .waiting } := by
  replace h := running_of_step h
  rw [running] at h
  split_ifs at h with hloop
  exact ⟨hloop, (Option.some.inj h).symm⟩

theorem step_work {s s' : GateState} (h : step .work s = some s') :
    ∃ item rest, s.handlerPool = item :: rest ∧ s' = { s with handlerPool := rest } := by
  replace h := running_of_step h
  rw [running] at h
  split at h
  · rename_i item rest hpool
    exact ⟨item, rest, hpool, (Option.some.inj h).symm⟩
  · cases h

/-- Every step but a call of `routeParsedIncoming` is a step of the routing or leaves it alone. -/
theorem step_frame {a : GateAction} {s s' : GateState} (ha : a ≠ .route) (h : step a s = some s') :
    s'.concurrentNotifications = s.concurrentNotifications ∧
      (s'.route = s.route ∨ ∃ b, routeAction a = some b ∧ RouteState.step b s.route = some s'.route) := by
  have hrouting : ∀ b, routeAction a = some b → s'.concurrentNotifications = s.concurrentNotifications ∧
      (s'.route = s.route ∨ ∃ b, routeAction a = some b ∧ RouteState.step b s.route = some s'.route) := by
    intro b hb
    obtain ⟨route, hroute, rfl⟩ := step_routing hb h
    exact ⟨rfl, .inr ⟨b, hb, hroute⟩⟩
  cases a with
  | read => exact hrouting _ rfl
  | submit sequence parsed bypass => exact hrouting _ rfl
  | release => exact hrouting _ rfl
  | stop => exact hrouting _ rfl
  | route => exact absurd rfl ha
  | postNow => obtain ⟨_, _, rfl⟩ := step_postNow h; exact ⟨rfl, .inl rfl⟩
  | take => obtain ⟨_, _, _, _, rfl⟩ := step_take h; exact ⟨rfl, .inl rfl⟩
  | handlerEnds => obtain ⟨_, _, rfl⟩ := step_handlerEnds h; exact ⟨rfl, .inl rfl⟩
  | complete => obtain ⟨_, _, rfl⟩ := step_complete h; exact ⟨rfl, .inl rfl⟩
  | postParked => obtain ⟨_, _, _, rfl⟩ := step_postParked h; exact ⟨rfl, .inl rfl⟩
  | wait => obtain ⟨_, rfl⟩ := step_wait h; exact ⟨rfl, .inl rfl⟩
  | work => obtain ⟨_, _, _, rfl⟩ := step_work h; exact ⟨rfl, .inl rfl⟩

theorem routeParsedIncoming_route (s : GateState) (item : SequencedParsedMessage) :
    (s.routeParsedIncoming item).route = s.route ∨
      (s.routeParsedIncoming item).route = { s.route with quit := true } := by
  rcases s.routeParsedIncoming_cases item with (h | h | ⟨_, h⟩) | ⟨_, _, _, h⟩ | ⟨_, _, _, h⟩ |
    ⟨_, _, _, h⟩ <;> rw [h]
  case inl.inr.inl => exact .inr rfl
  all_goals exact .inl rfl

/-- The routing of a session is a run of the router. -/
theorem reachable_route {s : GateState} (hs : gateSystem.Reachable s) : routeSystem.Reachable s.route := by
  refine hs.invariant (fun s => routeSystem.Reachable s.route) ?_ ?_
  · rintro s ⟨route, _, _, _, hroute, rfl⟩
    exact .init hroute
  · intro a s s' hinv _ h
    by_cases ha : a = .route
    · subst ha
      obtain ⟨item, rest, route, _, _, hroute, rfl⟩ := step_route h
      have hnext : routeSystem.Reachable route := RouteState.reachable_step hinv hroute
      rcases routeParsedIncoming_route { s with route := route } item with heq | heq <;> rw [heq]
      · exact hnext
      · obtain ⟨_, _, _, hquit, rfl⟩ := RouteState.step_route hroute
        refine RouteState.reachable_step (a := .stop) hnext ?_
        simp [RouteState.step, hquit]
    · obtain ⟨-, heq | ⟨b, -, hroute⟩⟩ := step_frame ha h
      · rw [heq]
        exact hinv
      · exact RouteState.reachable_step hinv hroute

end GateState

end LspCpp

import LspCpp.DispatchGateInvariant

/-! No parked request is stranded: each waits for a notification that the loop has still to complete, and the
completion of a notification releases the requests at the front of the line. -/

namespace LspCpp

/-- Where no element that meets `p` follows one that does not, `p` selects the front of the list. -/
theorem filter_append_filter_not {α : Type*} {p : α → Bool} {xs : List α}
    (h : xs.Pairwise fun a b => p b = true → p a = true) : xs.filter p ++ xs.filter (fun a => !p a) = xs := by
  induction xs with
  | nil => rfl
  | cons x xs ih =>
      obtain ⟨hx, hxs⟩ := List.pairwise_cons.mp h
      cases hp : p x with
      | true => simpa [hp] using ih hxs
      | false =>
          have hnone : xs.filter p = [] := by
            apply List.filter_eq_nil_iff.mpr
            intro a ha hpa
            rw [hx a ha hpa] at hp
            cases hp
          have hall := ih hxs
          rw [hnone, List.nil_append] at hall
          simp [hp, hnone, hall]

namespace GateState

/-- The notifications that are in the queue or that the loop executes. -/
def pendingNotifications (s : GateState) : List Nat :=
  s.loop.current ++ s.dispatcher.notificationQueue.map DispatchItem.sequence

/-- The last notification has been completed or is pending, and so are the gates of the parked requests, which
stand in the order of their gates. -/
structure Waiting (s : GateState) : Prop where
  last : s.dispatcher.hasLastOrderedNotification = true →
    s.dispatcher.notificationGateSatisfied s.dispatcher.lastOrderedNotificationSeq = true ∨
      s.dispatcher.lastOrderedNotificationSeq ∈ s.pendingNotifications
  parked : ∀ p ∈ s.dispatcher.parkedRequests, p.gate ∈ s.pendingNotifications
  sorted : s.dispatcher.parkedRequests.Pairwise fun p q => p.gate ≤ q.gate

/-- A step that leaves the dispatcher as it is, or moves a notification from its queue to the loop. -/
theorem Waiting.congr {s s' : GateState} (hinv : Waiting s)
    (hpending : s'.pendingNotifications = s.pendingNotifications)
    (hdispatcher : s'.dispatcher =
      { s.dispatcher with notificationQueue := s'.dispatcher.notificationQueue }) : Waiting s' := by
  constructor
  · rw [hpending, hdispatcher]
    exact hinv.last
  · rw [hpending, hdispatcher]
    exact hinv.parked
  · rw [hdispatcher]
    exact hinv.sorted

theorem Gated.accepted_of_pending {s : GateState} (hinv : Gated s) {n : Nat} (hn : n ∈ s.pendingNotifications) :
    n ∈ s.accepted := by
  obtain ⟨done, haccepted, _, _⟩ := hinv.split
  rw [haccepted]
  exact List.mem_append_right _ hn

theorem Waiting.accept {s : GateState} (hinv : Waiting s) {route : RouteState} {accepted : List Nat}
    {item : SequencedParsedMessage} {notification : DispatchItem}
    (hsequence : notification.sequence = item.sequence) :
    Waiting { s with
      route := route
      dispatcher := { s.dispatcher with
        hasLastOrderedNotification := true
        lastOrderedNotificationSeq := item.sequence
        notificationQueue := s.dispatcher.notificationQueue ++ [notification] }
      accepted := accepted } := by
  have hpending : ∀ n, n ∈ s.pendingNotifications ∨ n = item.sequence → n ∈ s.loop.current ++
      (s.dispatcher.notificationQueue ++ [notification]).map DispatchItem.sequence := by
    intro n hn
    rw [List.map_append, List.map_singleton, hsequence, ← List.append_assoc, List.mem_append, List.mem_singleton]
    exact hn
  exact ⟨fun _ => .inr (hpending _ (.inr rfl)), fun p hp => hpending _ (.inl (hinv.parked p hp)), hinv.sorted⟩

/-- A request is parked only where the last notification is pending. -/
theorem Waiting.park {s : GateState} (hinv : Waiting s) (hgated : Gated s) {route : RouteState}
    {request : DispatchItem} (hlast : s.dispatcher.hasLastOrderedNotification = true)
    (hgate : s.dispatcher.notificationGateSatisfied s.dispatcher.lastOrderedNotificationSeq = false) :
    Waiting { s with
      route := route
      dispatcher := { s.dispatcher with
        parkedRequests := s.dispatcher.parkedRequests ++
          [⟨s.dispatcher.lastOrderedNotificationSeq, request⟩] } } := by
  have hpending : s.dispatcher.lastOrderedNotificationSeq ∈ s.pendingNotifications := by
    rcases hinv.last hlast with hopen | hpending
    · rw [hgate] at hopen
      cases hopen
    · exact hpending
  refine ⟨hinv.last, fun p hp => ?_, ?_⟩
  · rcases List.mem_append.mp hp with hp | hp
    · exact hinv.parked p hp
    · rw [List.mem_singleton.mp hp]
      exact hpending
  · apply List.pairwise_append.mpr
    refine ⟨hinv.sorted, List.pairwise_singleton _ _, fun p hp q hq => ?_⟩
    rw [List.mem_singleton.mp hq]
    exact hgated.last.2 _ (hgated.accepted_of_pending (hinv.parked p hp))

/-- The completion of a notification opens the gates up to it and no other: the gates behind it are pending
still, as is the last notification. -/
theorem Waiting.complete {s : GateState} (hinv : Waiting s) (hgated : Gated s) {item : DispatchItem}
    (hloop : s.loop = .returned item) :
    Waiting { s with
      dispatcher := (s.dispatcher.completeNotification item.sequence).1
      loop := .posting (s.dispatcher.completeNotification item.sequence).2 } := by
  have hpending : s.pendingNotifications =
      item.sequence :: s.dispatcher.notificationQueue.map DispatchItem.sequence := by
    rw [pendingNotifications, hloop]
    rfl
  refine ⟨fun hlast => ?_, fun p hp => ?_, hinv.sorted.sublist List.filter_sublist⟩
  · change (true && decide (s.dispatcher.lastOrderedNotificationSeq ≤ item.sequence)) = true ∨ _
    rw [Bool.true_and, decide_eq_true_eq]
    rcases hinv.last hlast with hopen | hmem
    · rw [OrderedDispatcher.notificationGateSatisfied, Bool.and_eq_true, decide_eq_true_eq] at hopen
      obtain ⟨_, _, _, hlater⟩ := hgated.split
      have hlt : s.dispatcher.completedNotificationSeq < item.sequence := by
        apply (hlater hopen.1).2
        rw [hloop]
        exact List.mem_cons_self
      exact .inl (by omega)
    · rw [hpending, List.mem_cons] at hmem
      exact hmem.imp Nat.le_of_eq id
  · obtain ⟨hparked, hgate⟩ := List.mem_filter.mp hp
    have hmem := hinv.parked p hparked
    rw [hpending, List.mem_cons] at hmem
    rcases hmem with heq | hmem
    · simp [OrderedDispatcher.notificationGateSatisfied, heq] at hgate
    · exact hmem

theorem Waiting.step {s s' : GateState} {a : GateAction} (hinv : Waiting s) (hgated : Gated s)
    (h : step a s = some s') : Waiting s' := by
  have hrouting : ∀ b, routeAction a = some b → Waiting s' := by
    intro b hb
    obtain ⟨route, _, rfl⟩ := step_routing hb h
    exact hinv.congr rfl rfl
  cases a with
  | read => exact hrouting _ rfl
  | submit sequence parsed bypass => exact hrouting _ rfl
  | release => exact hrouting _ rfl
  | stop => exact hrouting _ rfl
  | route =>
      obtain ⟨item, rest, route, _, _, _, rfl⟩ := step_route h
      rcases routeParsedIncoming_cases { s with route := route } item with
        (heq | heq | ⟨_, heq⟩) | ⟨_, notification, hsequence, heq⟩ | ⟨request, _, hgate, heq⟩ | ⟨_, _, _, heq⟩ <;>
        rw [heq]
      · exact hinv.congr rfl rfl
      · exact hinv.congr rfl rfl
      · exact hinv.congr rfl rfl
      · exact hinv.accept hsequence
      · exact hinv.park hgated hgate.1 hgate.2
      · exact hinv.congr rfl rfl
  | postNow =>
      obtain ⟨request, _, rfl⟩ := step_postNow h
      exact hinv.congr rfl rfl
  | take =>
      obtain ⟨item, rest, hloop, hqueue, rfl⟩ := step_take h
      refine hinv.congr ?_ rfl
      rw [pendingNotifications, pendingNotifications, hloop, hqueue]
      rfl
  | handlerEnds =>
      obtain ⟨item, hloop, rfl⟩ := step_handlerEnds h
      refine hinv.congr ?_ rfl
      rw [pendingNotifications, pendingNotifications, hloop]
      rfl
  | complete =>
      obtain ⟨item, hloop, rfl⟩ := step_complete h
      exact hinv.complete hgated hloop
  | postParked =>
      obtain ⟨parked, rest, hloop, rfl⟩ := step_postParked h
      refine hinv.congr ?_ rfl
      rw [pendingNotifications, pendingNotifications, hloop]
      rfl
  | wait =>
      obtain ⟨hloop, rfl⟩ := step_wait h
      refine hinv.congr ?_ rfl
      rw [pendingNotifications, pendingNotifications, hloop]
      rfl
  | work =>
      obtain ⟨_, _, _, rfl⟩ := step_work h
      exact hinv.congr rfl rfl

theorem waiting_of_reachable {s : GateState} (hs : gateSystem.Reachable s) : Waiting s := by
  refine hs.invariant_of Gated Waiting (fun _ => gated_of_reachable) ?_
    fun _ _ _ hgated hinv _ h => hinv.step hgated h
  rintro s ⟨route, concurrentNotifications, generation, dispatcher, _, rfl⟩
  exact ⟨nofun, nofun, List.Pairwise.nil⟩

/-! ### The release of parked requests -/

/-- The requests that the completion of a notification releases stand in front of those that stay. -/
theorem Waiting.release {s s' : GateState} (hinv : Waiting s) (h : GateState.step .complete s = some s') :
    ∃ ready, s'.loop = .posting ready ∧
      s.dispatcher.parkedRequests = ready ++ s'.dispatcher.parkedRequests := by
  obtain ⟨item, _, rfl⟩ := step_complete h
  refine ⟨_, rfl, (filter_append_filter_not (hinv.sorted.imp fun {p q} hle hopen => ?_)).symm⟩
  rw [OrderedDispatcher.notificationGateSatisfied, Bool.and_eq_true, decide_eq_true_eq] at hopen ⊢
  exact ⟨hopen.1, hle.trans hopen.2⟩

/-- The loop has posted some of the requests that it released, in their order, and the rest is still to post. -/
def PostedInOrder (ready : List ParkedRequest) (s s' : GateState) : Prop :=
  ∃ now rest news, ready = now ++ rest ∧ s'.loop = .posting rest ∧ s'.posted = s.posted ++ news ∧
    (now.map fun p => p.request.sequence).Sublist news

/-- The routing of a message posts no request: a post is a step of its own. -/
theorem routeParsedIncoming_posted (s : GateState) (item : SequencedParsedMessage) :
    (s.routeParsedIncoming item).loop = s.loop ∧ (s.routeParsedIncoming item).posted = s.posted := by
  rcases s.routeParsedIncoming_cases item with
    (h | h | ⟨_, h⟩) | ⟨_, _, _, h⟩ | ⟨_, _, _, h⟩ | ⟨_, _, _, h⟩ <;> rw [h] <;> exact ⟨rfl, rfl⟩

theorem postedInOrder_step {s s' : GateState} {a : GateAction} {ready : List ParkedRequest}
    (hloop : s.loop = .posting ready) (ha : a ≠ .wait) (h : step a s = some s') : PostedInOrder ready s s' := by
  have hother : ∀ news, s'.loop = s.loop → s'.posted = s.posted ++ news → PostedInOrder ready s s' :=
    fun news hsame hposted => ⟨[], ready, news, rfl, hsame.trans hloop, hposted, List.nil_sublist _⟩
  have hrouting : ∀ b, routeAction a = some b → PostedInOrder ready s s' := by
    intro b hb
    obtain ⟨route, _, rfl⟩ := step_routing hb h
    exact hother [] rfl (List.append_nil _).symm
  cases a with
  | read => exact hrouting _ rfl
  | submit sequence parsed bypass => exact hrouting _ rfl
  | release => exact hrouting _ rfl
  | stop => exact hrouting _ rfl
  | route =>
      obtain ⟨item, rest, route, _, _, _, rfl⟩ := step_route h
      obtain ⟨hsame, hposted⟩ := routeParsedIncoming_posted { s with route := route } item
      exact hother [] hsame (hposted.trans (List.append_nil _).symm)
  | postNow =>
      obtain ⟨request, _, rfl⟩ := step_postNow h
      exact hother [request.sequence] rfl rfl
  | take =>
      obtain ⟨_, _, hwaiting, _, _⟩ := step_take h
      rw [hloop] at hwaiting
      cases hwaiting
  | handlerEnds =>
      obtain ⟨_, hrunning, _⟩ := step_handlerEnds h
      rw [hloop] at hrunning
      cases hrunning
  | complete =>
      obtain ⟨_, hreturned, _⟩ := step_complete h
      rw [hloop] at hreturned
      cases hreturned
  | postParked =>
      obtain ⟨parked, rest, hposting, rfl⟩ := step_postParked h
      obtain rfl := LoopPhase.posting.inj (hloop.symm.trans hposting)
      exact ⟨[parked], rest, [parked.request.sequence], rfl, rfl, rfl, List.Sublist.refl _⟩
  | wait => exact absurd rfl ha
  | work =>
      obtain ⟨_, _, _, rfl⟩ := step_work h
      exact hother [] rfl (List.append_nil _).symm

/-- `postReadyParkedRequests`: until the loop waits again it posts what it released, in its order, whatever the
other threads do meanwhile. -/
theorem postedInOrder_run (actions : List GateAction) {s s' : GateState} {ready : List ParkedRequest}
    (hloop : s.loop = .posting ready) (hactions : .wait ∉ actions) (hrun : gateSystem.run actions s = some s') :
    PostedInOrder ready s s' := by
  induction actions generalizing s ready with
  | nil =>
      cases hrun
      exact ⟨[], ready, [], rfl, hloop, (List.append_nil _).symm, List.nil_sublist _⟩
  | cons a actions ih =>
      obtain ⟨next, hnext, hrest⟩ := Option.bind_eq_some_iff.mp hrun
      rw [List.mem_cons, not_or] at hactions
      obtain ⟨now, left, news, rfl, hleft, hnews, hnow⟩ := postedInOrder_step hloop (Ne.symm hactions.1) hnext
      obtain ⟨now', rest, news', rfl, hend, hnews', hnow'⟩ := ih hleft hactions.2 hrest
      refine ⟨now ++ now', rest, news ++ news', (List.append_assoc _ _ _).symm, hend, ?_, ?_⟩
      · rw [hnews', hnews, List.append_assoc]
      · rw [List.map_append]
        exact hnow.append hnow'

/-- **No stranded request**: every parked request waits for a notification that is in the queue or that the loop
executes, so that none is parked where there is no such notification. The completion of a notification releases
a front part of the parked requests, and the loop posts them in their order before it waits again. -/
theorem parked_not_stranded (s : GateState) (hs : gateSystem.Reachable s) :
    (∀ p ∈ s.dispatcher.parkedRequests, p.gate ∈ s.loop.current ∨
      ∃ item ∈ s.dispatcher.notificationQueue, item.sequence = p.gate) ∧
    (s.dispatcher.notificationQueue = [] → s.loop.current = [] → s.dispatcher.parkedRequests = []) ∧
    ∀ s', GateState.step .complete s = some s' → ∃ ready, s'.loop = .posting ready ∧
      s.dispatcher.parkedRequests = ready ++ s'.dispatcher.parkedRequests ∧
      ∀ actions s'', .wait ∉ actions → gateSystem.run actions s' = some s'' →
        PostedInOrder ready s' s'' ∧
        (GateState.step .wait s'' ≠ none → ∃ news, s''.posted = s'.posted ++ news ∧
          (ready.map fun p => p.request.sequence).Sublist news) := by
  have hinv := waiting_of_reachable hs
  refine ⟨fun p hp => ?_, fun hqueue hcurrent => ?_, fun s' hcomplete => ?_⟩
  · have hmem := hinv.parked p hp
    rw [pendingNotifications, List.mem_append, List.mem_map] at hmem
    exact hmem
  · apply List.eq_nil_iff_forall_not_mem.mpr
    intro p hp
    have hmem := hinv.parked p hp
    rw [pendingNotifications, hqueue, hcurrent] at hmem
    cases hmem
  · obtain ⟨ready, hloop, hparked⟩ := hinv.release hcomplete
    refine ⟨ready, hloop, hparked, fun actions s'' hactions hrun => ?_⟩
    have horder := postedInOrder_run actions hloop hactions hrun
    refine ⟨horder, fun hwait => ?_⟩
    obtain ⟨now, rest, news, rfl, hrest, hnews, hnow⟩ := horder
    obtain ⟨final, hfinal⟩ := Option.ne_none_iff_exists'.mp hwait
    obtain rfl := LoopPhase.posting.inj (hrest.symm.trans (step_wait hfinal).1)
    rw [List.append_nil]
    exact ⟨news, hnews, hnow⟩

/-- Two requests are parked behind one notification. -/
def strandedRun : List GateAction :=
  [.read, .read, .read,
    .submit 0 { ok := true, message := some ⟨.notification, "didOpen", .kNone⟩ } false, .route, .release,
    .submit 1 { ok := true, kind := .request, message := some ⟨.request, "hover", .kInt 1⟩ } false, .route, .release,
    .submit 2 { ok := true, kind := .request, message := some ⟨.request, "rename", .kInt 2⟩ } false, .route,
    .release, .take, .handlerEnds]

theorem parked_not_stranded_strandedRun :
    ∃ s s' s'', gateSystem.run strandedRun {} = some s ∧ GateState.step .complete s = some s' ∧
      gateSystem.run [.postParked, .read, .postParked] s' = some s'' ∧
      s.dispatcher.parkedRequests.map ParkedRequest.gate = [0, 0] ∧ s.loop.current = [0] ∧
      s''.posted = [1, 2] ∧
      (∀ p ∈ s.dispatcher.parkedRequests, p.gate ∈ s.loop.current ∨
        ∃ item ∈ s.dispatcher.notificationQueue, item.sequence = p.gate) ∧
      ∃ ready, PostedInOrder ready s' s'' := by
  obtain ⟨s, s', s'', hrun, hcomplete, hpost, hgates, hcurrent, hposted⟩ :
      ∃ s s' s'', gateSystem.run strandedRun {} = some s ∧ GateState.step .complete s = some s' ∧
        gateSystem.run [.postParked, .read, .postParked] s' = some s'' ∧
        s.dispatcher.parkedRequests.map ParkedRequest.gate = [0, 0] ∧ s.loop.current = [0] ∧
        s''.posted = [1, 2] := ⟨_, _, _, rfl, rfl, rfl, rfl, rfl, rfl⟩
  have h := parked_not_stranded s (Transition.System.reachable_of_run strandedRun
    (.init ⟨{}, [], 0, {}, ⟨{}, 0, {}, rfl⟩, rfl⟩) hrun)
  obtain ⟨ready, _, _, hready⟩ := h.2.2 s' hcomplete
  have horder := hready [.postParked, .read, .postParked] s'' (by decide) hpost
  exact ⟨s, s', s'', hrun, hcomplete, hpost, hgates, hcurrent, hposted, h.1, ready, horder.1⟩

end GateState

end LspCpp

import LspCpp.DispatchGate

/-! The notification gate: a request reaches the handler pool only when the handlers of all ordered
notifications that were accepted before it have returned or thrown. -/

namespace LspCpp

namespace GateState

/-- The messages that have been routed. -/
def routedSequences (s : GateState) : List Nat := s.route.routed.map SequencedParsedMessage.sequence

/-- A request has been routed and the handlers of all notifications accepted before it have ended. -/
def Passed (s : GateState) (r : Nat) : Prop :=
  r ∈ s.routedSequences ∧ ∀ n ∈ s.accepted, n < r → n ∈ s.finished

/-- The fields of the gate against what was accepted and what has ended. -/
structure Gated (s : GateState) : Prop where
  running : s.dispatcher.notificationStop = false
  sorted : s.accepted.Pairwise (· < ·)
  split : ∃ done, s.accepted =
      done ++ (s.loop.current ++ s.dispatcher.notificationQueue.map DispatchItem.sequence) ∧
    (∀ n ∈ done, n ∈ s.finished) ∧
    (s.dispatcher.hasCompletedNotification = true → s.dispatcher.completedNotificationSeq ∈ done ∧
      ∀ n ∈ s.loop.current ++ s.dispatcher.notificationQueue.map DispatchItem.sequence,
        s.dispatcher.completedNotificationSeq < n)
  ended : ∀ item, s.loop = .returned item → item.sequence ∈ s.finished
  last : (s.dispatcher.hasLastOrderedNotification = false → s.accepted = []) ∧
    ∀ n ∈ s.accepted, n ≤ s.dispatcher.lastOrderedNotificationSeq
  routed : ∀ n ∈ s.accepted, n ∈ s.routedSequences
  parked : ∀ p ∈ s.dispatcher.parkedRequests, p.request.sequence ∈ s.routedSequences ∧
    ∀ n ∈ s.accepted, n < p.request.sequence → n ≤ p.gate
  released : ∀ ready, s.loop = .posting ready → ∀ p ∈ ready, s.Passed p.request.sequence
  postingNow : ∀ request, s.posting = some request → s.Passed request.sequence
  posted : ∀ r ∈ s.posted, s.Passed r

/-- An open gate stands for ended handlers. -/
theorem Gated.finished_of_gate {s : GateState} (hinv : Gated s) {gate n : Nat}
    (hgate : s.dispatcher.notificationGateSatisfied gate = true) (hn : n ∈ s.accepted) (hle : n ≤ gate) :
    n ∈ s.finished := by
  obtain ⟨done, haccepted, hdone, hlater⟩ := hinv.split
  rw [OrderedDispatcher.notificationGateSatisfied, Bool.and_eq_true, decide_eq_true_eq] at hgate
  rw [haccepted, List.mem_append] at hn
  rcases hn with hn | hn
  · exact hdone n hn
  · have := (hlater hgate.1).2 n hn
    omega

theorem gated_init {s : GateState} (h : gateSystem.init s) : Gated s := by
  obtain ⟨route, concurrentNotifications, generation, dispatcher, _, rfl⟩ := h
  refine ⟨rfl, List.Pairwise.nil, ⟨[], rfl, nofun, nofun⟩, nofun, ⟨fun _ => rfl, nofun⟩, nofun, nofun, ?_, nofun,
    nofun⟩
  intro ready hready
  cases hready

/-- A step that routes messages at most, or ends a handler. -/
theorem Passed.mono {s s' : GateState} {r : Nat} (h : s.Passed r)
    (hrouted : ∀ n ∈ s.routedSequences, n ∈ s'.routedSequences) (haccepted : s'.accepted = s.accepted)
    (hfinished : ∀ n ∈ s.finished, n ∈ s'.finished) : s'.Passed r := by
  refine ⟨hrouted r h.1, fun n hn hlt => ?_⟩
  rw [haccepted] at hn
  exact hfinished n (h.2 n hn hlt)

/-- The routing goes on, and keeps what was routed. -/
theorem Gated.setRoute {s : GateState} (hinv : Gated s) {route : RouteState}
    (hrouted : ∀ n ∈ s.routedSequences, n ∈ { s with route := route }.routedSequences) :
    Gated { s with route := route } := by
  have hpassed : ∀ r, s.Passed r → { s with route := route }.Passed r := fun r h =>
    h.mono hrouted rfl fun _ hn => hn
  exact { hinv with
    routed := fun n hn => hrouted n (hinv.routed n hn)
    parked := fun p hp => ⟨hrouted _ (hinv.parked p hp).1, (hinv.parked p hp).2⟩
    released := fun ready hready p hp => hpassed _ (hinv.released ready hready p hp)
    postingNow := fun request hrequest => hpassed _ (hinv.postingNow request hrequest)
    posted := fun r hr => hpassed r (hinv.posted r hr) }

section Route

variable {s : GateState} {item : SequencedParsedMessage} {route : RouteState}

theorem routedSequences_route (hroute : route.routed = s.route.routed ++ [item]) :
    { s with route := route }.routedSequences = s.routedSequences ++ [item.sequence] := by
  rw [routedSequences, routedSequences, hroute, List.map_append]
  rfl

theorem mem_routedSequences_route (hroute : route.routed = s.route.routed ++ [item]) :
    ∀ n ∈ s.routedSequences, n ∈ { s with route := route }.routedSequences := by
  rw [routedSequences_route hroute]
  exact fun n hn => List.mem_append_left _ hn

/-- A notification is accepted: its number is greater than those of all messages routed before. -/
theorem Gated.accept (hinv : Gated s) (hroute : route.routed = s.route.routed ++ [item])
    (hlt : ∀ n ∈ s.routedSequences, n < item.sequence) {notification : DispatchItem}
    (hsequence : notification.sequence = item.sequence) :
    Gated { s with
      route := route
      dispatcher := { s.dispatcher with
        hasLastOrderedNotification := true
        lastOrderedNotificationSeq := item.sequence
        notificationQueue := s.dispatcher.notificationQueue ++ [notification] }
      accepted := s.accepted ++ [item.sequence] } := by
  have hrouted : ∀ n, n ∈ s.routedSequences ∨ n = item.sequence →
      n ∈ { s with route := route }.routedSequences := by
    intro n hn
    rw [routedSequences_route hroute, List.mem_append, List.mem_singleton]
    exact hn
  have hbefore : ∀ n ∈ s.accepted, n < item.sequence := fun n hn => hlt n (hinv.routed n hn)
  have hpassed : ∀ r, s.Passed r → r ∈ { s with route := route }.routedSequences ∧
      ∀ n ∈ s.accepted ++ [item.sequence], n < r → n ∈ s.finished := by
    intro r hr
    refine ⟨hrouted r (.inl hr.1), fun n hn hlt' => ?_⟩
    rcases List.mem_append.mp hn with hn | hn
    · exact hr.2 n hn hlt'
    · have := hlt r hr.1
      rw [List.mem_singleton] at hn
      omega
  obtain ⟨done, haccepted, hdone, hlater⟩ := hinv.split
  refine ⟨hinv.running, ?_, ⟨done, ?_, hdone, fun hcompleted => ⟨(hlater hcompleted).1, fun n hn => ?_⟩⟩,
    hinv.ended, ⟨nofun, fun n hn => ?_⟩,
    fun n hn => ?_, fun p hp => ⟨hrouted _ (.inl (hinv.parked p hp).1), fun n hn hlt' => ?_⟩,
    fun ready hready p hp => hpassed _ (hinv.released ready hready p hp),
    fun request hrequest => hpassed _ (hinv.postingNow request hrequest),
    fun r hr => hpassed r (hinv.posted r hr)⟩
  · rw [List.pairwise_append]
    refine ⟨hinv.sorted, List.pairwise_singleton _ _, fun n hn m hm => ?_⟩
    rw [List.mem_singleton] at hm
    exact hm ▸ hbefore n hn
  · rw [haccepted, List.map_append, List.map_singleton, hsequence]
    simp
  · rw [List.map_append, List.map_singleton, hsequence, ← List.append_assoc, List.mem_append] at hn
    rcases hn with hn | hn
    · exact (hlater hcompleted).2 n hn
    · rw [List.mem_singleton.mp hn]
      exact hbefore _ (haccepted ▸ List.mem_append_left _ (hlater hcompleted).1)
  · rcases List.mem_append.mp hn with hn | hn
    · exact Nat.le_of_lt (hbefore n hn)
    · rw [List.mem_singleton] at hn
      exact Nat.le_of_eq hn
  · rcases List.mem_append.mp hn with hn | hn
    · exact hrouted n (.inl (hinv.routed n hn))
    · exact hrouted n (.inr (List.mem_singleton.mp hn))
  · rcases List.mem_append.mp hn with hn | hn
    · exact (hinv.parked p hp).2 n hn hlt'
    · have := hlt _ (hinv.parked p hp).1
      rw [List.mem_singleton] at hn
      omega

/-- A request is parked behind the last notification accepted. -/
theorem Gated.park (hinv : Gated s) (hroute : route.routed = s.route.routed ++ [item])
    {request : DispatchItem} (hsequence : request.sequence = item.sequence) :
    Gated { s with
      route := route
      dispatcher := { s.dispatcher with
        parkedRequests := s.dispatcher.parkedRequests ++
          [⟨s.dispatcher.lastOrderedNotificationSeq, request⟩] } } := by
  have hold : Gated { s with route := route } := hinv.setRoute (mem_routedSequences_route hroute)
  refine { hold with parked := fun p hp => ?_ }
  rcases List.mem_append.mp hp with hp | hp
  · exact hold.parked p hp
  · obtain rfl := List.mem_singleton.mp hp
    refine ⟨?_, fun n hn _ => hinv.last.2 n hn⟩
    have hmem : item.sequence ∈ { s with route := route }.routedSequences := by
      rw [routedSequences_route hroute]
      exact List.mem_append_right _ (List.mem_singleton.mpr rfl)
    exact hsequence ▸ hmem

/-- A request passes the gate at once. -/
theorem Gated.pass (hinv : Gated s) (hroute : route.routed = s.route.routed ++ [item])
    {request : DispatchItem} (hsequence : request.sequence = item.sequence)
    (hgate : s.dispatcher.notificationStop = true ∨ s.dispatcher.hasLastOrderedNotification = false ∨
      s.dispatcher.notificationGateSatisfied s.dispatcher.lastOrderedNotificationSeq = true) :
    Gated { s with route := route, posting := some request } := by
  have hold : Gated { s with route := route } := hinv.setRoute (mem_routedSequences_route hroute)
  refine { hold with postingNow := fun request' hrequest' => ?_ }
  obtain rfl := Option.some.inj hrequest'
  have hmem : item.sequence ∈ { s with route := route }.routedSequences := by
    rw [routedSequences_route hroute]
    exact List.mem_append_right _ (List.mem_singleton.mpr rfl)
  refine ⟨hsequence ▸ hmem, fun n hn _ => ?_⟩
  rcases hgate with h | h | h
  · cases hinv.running.symm.trans h
  · rw [show ({ s with route := route, posting := some request } : GateState).accepted = [] from
      hinv.last.1 h] at hn
    cases hn
  · exact hinv.finished_of_gate h hn (hinv.last.2 n hn)

theorem Gated.routeIncoming (hinv : Gated s) (hroute : route.routed = s.route.routed ++ [item])
    (hlt : ∀ n ∈ s.routedSequences, n < item.sequence) :
    Gated ({ s with route := route }.routeParsedIncoming item) := by
  have hold : Gated { s with route := route } := hinv.setRoute (mem_routedSequences_route hroute)
  rcases routeParsedIncoming_cases { s with route := route } item with
    (h | h | ⟨_, h⟩) | ⟨_, notification, hsequence, h⟩ | ⟨request, hsequence, _, h⟩ |
      ⟨request, hsequence, hgate, h⟩ <;> rw [h]
  · exact hold
  · exact { hold with }
  · exact { hold with }
  · exact hinv.accept hroute hlt hsequence
  · exact hinv.park hroute hsequence
  · exact hinv.pass hroute hsequence hgate

end Route

/-- A request that has passed is posted. -/
theorem Gated.post {s : GateState} (hinv : Gated s) {request : DispatchItem}
    (hpassed : s.Passed request.sequence) : Gated (s.postRequest request) := by
  refine { hinv with posted := fun r hr => ?_ }
  rcases List.mem_append.mp hr with hr | hr
  · exact hinv.posted r hr
  · exact List.mem_singleton.mp hr ▸ hpassed

theorem Gated.complete {s : GateState} (hinv : Gated s) {item : DispatchItem}
    (hloop : s.loop = .returned item) :
    Gated { s with
      dispatcher := (s.dispatcher.completeNotification item.sequence).1
      loop := .posting (s.dispatcher.completeNotification item.sequence).2 } := by
  obtain ⟨done, haccepted, hdone, _⟩ := hinv.split
  have hended := hinv.ended item hloop
  rw [hloop] at haccepted
  have hsorted := hinv.sorted
  rw [haccepted, List.pairwise_append] at hsorted
  have hlater := (List.pairwise_cons.mp hsorted.2.1).1
  refine ⟨hinv.running, hinv.sorted, ⟨done ++ [item.sequence], ?_, fun n hn => ?_, fun _ => ⟨?_, hlater⟩⟩, nofun,
    hinv.last, hinv.routed, fun p hp => hinv.parked p (List.mem_filter.mp hp).1, fun ready hready p hp => ?_,
    hinv.postingNow, hinv.posted⟩
  · rw [List.append_assoc]
    exact haccepted
  · rcases List.mem_append.mp hn with hn | hn
    · exact hdone n hn
    · exact List.mem_singleton.mp hn ▸ hended
  · exact List.mem_append_right _ (List.mem_singleton.mpr rfl)
  · obtain rfl := LoopPhase.posting.inj hready
    obtain ⟨hparked, hgate⟩ := List.mem_filter.mp hp
    obtain ⟨hrouted, hbefore⟩ := hinv.parked p hparked
    refine ⟨hrouted, fun n hn hlt => ?_⟩
    have hle : n ≤ item.sequence := by
      have := hbefore n hn hlt
      simp only [OrderedDispatcher.notificationGateSatisfied, Bool.true_and, decide_eq_true_eq] at hgate
      omega
    have hn : n ∈ done ++ ([item.sequence] ++ _) := haccepted ▸ hn
    rcases List.mem_append.mp hn with hn | hn
    · exact hdone n hn
    · rcases List.mem_cons.mp hn with rfl | hn
      · exact hended
      · have := hlater n hn
        omega

theorem Gated.step {s s' : GateState} {a : GateAction} (hinv : Gated s) (hordered : s.route.Ordered)
    (h : step a s = some s') : Gated s' := by
  have hrouting : ∀ b, routeAction a = some b → b ≠ .route → Gated s' := by
    intro b hb hne
    obtain ⟨route, hroute, rfl⟩ := step_routing hb h
    refine hinv.setRoute fun n hn => ?_
    rw [routedSequences, RouteState.step_routed hne hroute]
    exact hn
  cases a with
  | read => exact hrouting _ rfl nofun
  | submit sequence parsed bypass => exact hrouting _ rfl nofun
  | release => exact hrouting _ rfl nofun
  | stop => exact hrouting _ rfl nofun
  | route =>
      obtain ⟨item, rest, route, _, hready, hroute, rfl⟩ := step_route h
      obtain ⟨item', rest', hready', _, rfl⟩ := RouteState.step_route hroute
      obtain ⟨rfl, rfl⟩ := List.cons.inj (Option.some.inj (hready.symm.trans hready'))
      exact hinv.routeIncoming rfl (hordered.lt_of_ready hready)
  | postNow =>
      obtain ⟨request, hposting, rfl⟩ := step_postNow h
      have hpost := hinv.post (hinv.postingNow request hposting)
      exact { hpost with postingNow := nofun }
  | take =>
      obtain ⟨item, rest, hloop, hqueue, rfl⟩ := step_take h
      obtain ⟨done, haccepted, hdone, hlater⟩ := hinv.split
      rw [hloop, hqueue] at haccepted hlater
      exact { hinv with split := ⟨done, haccepted, hdone, hlater⟩, ended := nofun, released := nofun }
  | handlerEnds =>
      obtain ⟨item, hloop, rfl⟩ := step_handlerEnds h
      have hpassed : ∀ r, s.Passed r → { s with
          loop := .returned item, finished := s.finished ++ [item.sequence] }.Passed r := fun r hr =>
        hr.mono (fun _ hn => hn) rfl fun _ hn => List.mem_append_left _ hn
      obtain ⟨done, haccepted, hdone, hlater⟩ := hinv.split
      rw [hloop] at haccepted hlater
      refine ⟨hinv.running, hinv.sorted, ⟨done, haccepted, fun n hn => List.mem_append_left _ (hdone n hn), hlater⟩,
        fun item' hitem' => ?_, hinv.last, hinv.routed, hinv.parked, nofun,
        fun request hrequest => hpassed _ (hinv.postingNow request hrequest),
        fun r hr => hpassed r (hinv.posted r hr)⟩
      obtain rfl := LoopPhase.returned.inj hitem'
      exact List.mem_append_right _ (List.mem_singleton.mpr rfl)
  | complete =>
      obtain ⟨item, hloop, rfl⟩ := step_complete h
      exact hinv.complete hloop
  | postParked =>
      obtain ⟨parked, rest, hloop, rfl⟩ := step_postParked h
      have hpost := hinv.post (hinv.released _ hloop parked List.mem_cons_self)
      have hsplit := hpost.split
      rw [show (s.postRequest parked.request).loop = .posting (parked :: rest) from hloop] at hsplit
      refine { hpost with split := hsplit, ended := nofun, released := fun ready hready p hp => ?_ }
      obtain rfl := LoopPhase.posting.inj hready
      exact hinv.released _ hloop p (List.mem_cons_of_mem _ hp)
  | wait =>
      obtain ⟨hloop, rfl⟩ := step_wait h
      have hsplit := hinv.split
      rw [hloop] at hsplit
      exact { hinv with split := hsplit, ended := nofun, released := nofun }
  | work =>
      obtain ⟨_, _, _, rfl⟩ := step_work h
      exact { hinv with }

theorem gated_of_reachable {s : GateState} (hs : gateSystem.Reachable s) : Gated s :=
  hs.invariant_of (fun s => s.route.Ordered) Gated
    (fun _ hr => RouteState.reachable_ordered (reachable_route hr)) (fun _ => gated_init)
    fun _ _ _ hordered hinv _ h => hinv.step hordered h

/-- **The notification gate**: whenever a request has been posted to the handler pool, the handler of every
ordered notification that was accepted with a smaller sequence number has ended. -/
theorem posted_after_notifications (s : GateState) (hs : gateSystem.Reachable s) :
    ∀ r ∈ s.posted, ∀ n ∈ s.accepted, n < r → n ∈ s.finished := by
  have hinv := gated_of_reachable hs
  exact fun r hr n hn hlt => (hinv.posted r hr).2 n hn hlt

/-- A notification (0), a request behind it (1) and a concurrent notification (2); the request is parked, and
posted when the handler of the notification has ended. -/
def parkedRun : List GateAction :=
  [.read, .read, .read,
    .submit 1 { ok := true, kind := .request, message := some ⟨.request, "hover", .kInt 1⟩ } false, .release,
    .submit 0 { ok := true, message := some ⟨.notification, "didOpen", .kNone⟩ } false, .route, .take, .route,
    .release, .submit 2 { ok := true, message := some ⟨.notification, "progress", .kNone⟩ } false, .route, .work,
    .handlerEnds, .complete, .postParked, .wait]

theorem posted_after_notifications_parkedRun :
    ∃ s, gateSystem.run parkedRun { concurrentNotifications := ["progress"] } = some s ∧
      s.accepted = [0] ∧ s.posted = [1] ∧ ∀ r ∈ s.posted, ∀ n ∈ s.accepted, n < r → n ∈ s.finished :=
  ⟨_, rfl, rfl, rfl, posted_after_notifications _ (Transition.System.reachable_of_run parkedRun
    (.init ⟨_, ["progress"], 0, {}, ⟨{}, 0, {}, rfl⟩, rfl⟩) rfl)⟩

end GateState

end LspCpp

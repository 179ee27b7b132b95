import LspCpp.DispatchGateInvariant

/-! The order of the notifications in a session: the accepted ones are first handled, then run and then queued, and each
of them is one of the routed messages. -/

namespace LspCpp

namespace RouteState

variable {s s' : RouteState}

theorem step_config {a : RouteAction} (h : step a s = some s') : s'.limits = s.limits ∧ s'.start = s.start := by
  cases a with
  | read => obtain ⟨_, rfl⟩ := step_read h; exact ⟨rfl, rfl⟩
  | submit sequence parsed bypass =>
      obtain ⟨_, _, _, rfl | ⟨_, _, _, rfl⟩⟩ := step_submit h <;> exact ⟨rfl, rfl⟩
  | route => obtain ⟨_, _, _, _, rfl⟩ := step_route h; exact ⟨rfl, rfl⟩
  | release => obtain ⟨_, _, rfl⟩ := step_release h; exact ⟨rfl, rfl⟩
  | stop => obtain ⟨_, rfl⟩ := step_stop h; exact ⟨rfl, rfl⟩

/-- The routed messages are the first ones. -/
theorem Ordered.routed_eq (hinv : Ordered s) :
    s.routed.map SequencedParsedMessage.sequence = List.range' s.start s.routed.length := by
  have hlog := hinv.dispatched_eq
  have hlen := congrArg List.length hlog
  rw [List.length_map, List.length_range', dispatched, List.length_append] at hlen
  calc s.routed.map SequencedParsedMessage.sequence
      = (s.dispatched.map SequencedParsedMessage.sequence).take s.routed.length := by
        rw [dispatched, List.map_append, List.take_left' (List.length_map _)]
    _ = List.range' s.start s.routed.length := by
        rw [hlog, List.take_range'_of_length_ge (by omega)]

/-- The message that the lock holder routes next is the one after them. -/
theorem Ordered.sequence_of_ready (hinv : Ordered s) {item : SequencedParsedMessage}
    {rest : List SequencedParsedMessage} (hready : s.ready = some (item :: rest)) :
    item.sequence = s.start + s.routed.length := by
  have hlog := hinv.dispatched_eq
  have hitem : (s.dispatched.map SequencedParsedMessage.sequence)[s.routed.length]? = some item.sequence := by
    rw [dispatched, hready, Option.getD_some, List.map_append, List.getElem?_append_right (by rw [List.length_map])]
    simp
  rw [hlog] at hitem
  obtain ⟨hlt, heq⟩ := List.getElem?_eq_some_iff.mp hitem
  rw [List.getElem_range', Nat.one_mul] at heq
  exact heq.symm

theorem Ordered.routed_le (hinv : Ordered s) : s.start + s.routed.length ≤ s.nextMessageSequence := by
  have hlen := congrArg List.length hinv.dispatched_eq
  rw [List.length_map, List.length_range', dispatched, List.length_append] at hlen
  have hstart := hinv.start_le
  have hread := hinv.read_le
  by_cases hnone : s.start = s.reorder.nextRouteSequence
  · omega
  · have hlast := (hinv.submitted_iff (s.reorder.nextRouteSequence - 1)).mpr (.inl ⟨by omega, by omega⟩)
    have hlt := hinv.submitted_lt _ hlast
    omega

end RouteState

/-- The notification whose handler is running. -/
def LoopPhase.handling : LoopPhase → List Nat
  | .running item => [item.sequence]
  | _ => []

namespace GateState

variable {s s' : GateState}

theorem routeParsedIncoming_config (s : GateState) (item : SequencedParsedMessage) :
    (s.routeParsedIncoming item).route.limits = s.route.limits ∧
      (s.routeParsedIncoming item).route.start = s.route.start ∧
      (s.routeParsedIncoming item).concurrentNotifications = s.concurrentNotifications := by
  rcases s.routeParsedIncoming_cases item with (h | h | ⟨_, h⟩) | ⟨_, _, _, h⟩ | ⟨_, _, _, h⟩ | ⟨_, _, _, h⟩ <;>
    rw [h] <;> exact ⟨rfl, rfl, rfl⟩

theorem step_config {a : GateAction} (h : step a s = some s') :
    s'.route.limits = s.route.limits ∧ s'.route.start = s.route.start ∧
      s'.concurrentNotifications = s.concurrentNotifications := by
  by_cases ha : a = .route
  · subst ha
    obtain ⟨item, _, route, _, _, hroute, rfl⟩ := step_route h
    obtain ⟨hlimits, hstart⟩ := RouteState.step_config hroute
    obtain ⟨hlimits', hstart', hconcurrent⟩ := routeParsedIncoming_config { s with route := route } item
    exact ⟨hlimits'.trans hlimits, hstart'.trans hstart, hconcurrent⟩
  · obtain ⟨hconcurrent, heq | ⟨_, _, hroute⟩⟩ := step_frame ha h
    · exact ⟨by rw [heq], by rw [heq], hconcurrent⟩
    · obtain ⟨hlimits, hstart⟩ := RouteState.step_config hroute
      exact ⟨hlimits, hstart, hconcurrent⟩

/-- What `routeParsedIncoming` leaves alone of the loop. -/
theorem routeParsedIncoming_loop (s : GateState) (item : SequencedParsedMessage) :
    (s.routeParsedIncoming item).loop = s.loop ∧ (s.routeParsedIncoming item).finished = s.finished := by
  rcases s.routeParsedIncoming_cases item with (h | h | ⟨_, h⟩) | ⟨_, _, _, h⟩ | ⟨_, _, _, h⟩ | ⟨_, _, _, h⟩ <;>
    rw [h] <;> exact ⟨rfl, rfl⟩

/-- The accepted notifications are those whose handlers have ended, the one that is handled and those in the queue. -/
def Serial (s : GateState) : Prop :=
  s.accepted = s.finished ++ (s.loop.handling ++ s.dispatcher.notificationQueue.map DispatchItem.sequence)

theorem Serial.step {a : GateAction} (hinv : Serial s) (h : step a s = some s') : Serial s' := by
  have hrouting : ∀ b, routeAction a = some b → Serial s' := by
    intro b hb
    obtain ⟨_, _, rfl⟩ := step_routing hb h
    exact hinv
  cases a with
  | read => exact hrouting _ rfl
  | submit sequence parsed bypass => exact hrouting _ rfl
  | release => exact hrouting _ rfl
  | stop => exact hrouting _ rfl
  | route =>
      obtain ⟨item, _, route, _, _, _, rfl⟩ := step_route h
      have hold : Serial { s with route := route } := hinv
      rcases routeParsedIncoming_cases { s with route := route } item with
        (h | h | ⟨_, h⟩) | ⟨_, notification, hsequence, h⟩ | ⟨_, _, _, h⟩ | ⟨_, _, _, h⟩ <;> rw [h]
      · exact hold
      · exact hold
      · exact hold
      · rw [Serial] at hinv
        rw [Serial, List.map_append, List.map_singleton, hsequence, hinv]
        simp only [List.append_assoc]
      · exact hold
      · exact hold
  | postNow =>
      obtain ⟨_, _, rfl⟩ := step_postNow h
      exact hinv
  | take =>
      obtain ⟨item, rest, hloop, hqueue, rfl⟩ := step_take h
      rw [Serial, hloop, hqueue] at hinv
      exact hinv
  | handlerEnds =>
      obtain ⟨item, hloop, rfl⟩ := step_handlerEnds h
      rw [Serial, hloop] at hinv
      rw [Serial, hinv]
      exact (List.append_assoc ..).symm
  | complete =>
      obtain ⟨item, hloop, rfl⟩ := step_complete h
      rw [Serial, hloop] at hinv
      exact hinv
  | postParked =>
      obtain ⟨_, _, hloop, rfl⟩ := step_postParked h
      rw [Serial, hloop] at hinv
      exact hinv
  | wait =>
      obtain ⟨hloop, rfl⟩ := step_wait h
      rw [Serial, hloop] at hinv
      exact hinv
  | work =>
      obtain ⟨_, _, _, rfl⟩ := step_work h
      exact hinv

theorem serial_of_reachable (hs : gateSystem.Reachable s) : Serial s := by
  refine hs.invariant Serial ?_ fun _ _ _ hinv _ h => hinv.step h
  rintro s ⟨_, _, _, _, _, rfl⟩
  rfl

theorem step_finished {a : GateAction} (ha : a ≠ .handlerEnds) (h : step a s = some s') : s'.finished = s.finished := by
  have hrouting : ∀ b, routeAction a = some b → s'.finished = s.finished := by
    intro b hb
    obtain ⟨_, _, rfl⟩ := step_routing hb h
    rfl
  cases a with
  | read => exact hrouting _ rfl
  | submit sequence parsed bypass => exact hrouting _ rfl
  | release => exact hrouting _ rfl
  | stop => exact hrouting _ rfl
  | route =>
      obtain ⟨item, _, route, _, _, _, rfl⟩ := step_route h
      exact (routeParsedIncoming_loop { s with route := route } item).2
  | postNow => obtain ⟨_, _, rfl⟩ := step_postNow h; rfl
  | take => obtain ⟨_, _, _, _, rfl⟩ := step_take h; rfl
  | handlerEnds => exact absurd rfl ha
  | complete => obtain ⟨_, _, rfl⟩ := step_complete h; rfl
  | postParked => obtain ⟨_, _, _, rfl⟩ := step_postParked h; rfl
  | wait => obtain ⟨_, rfl⟩ := step_wait h; rfl
  | work => obtain ⟨_, _, _, rfl⟩ := step_work h; rfl

/-- A running handler goes on until it ends. -/
theorem step_running {a : GateAction} {item : DispatchItem} (hloop : s.loop = .running item) (ha : a ≠ .handlerEnds)
    (h : step a s = some s') : s'.loop = .running item := by
  have hrouting : ∀ b, routeAction a = some b → s'.loop = .running item := by
    intro b hb
    obtain ⟨_, _, rfl⟩ := step_routing hb h
    exact hloop
  have hother : ∀ phase, s.loop = phase → phase ≠ .running item → s'.loop = .running item := fun phase hphase hne =>
    absurd (hphase.symm.trans hloop) hne
  cases a with
  | read => exact hrouting _ rfl
  | submit sequence parsed bypass => exact hrouting _ rfl
  | release => exact hrouting _ rfl
  | stop => exact hrouting _ rfl
  | route =>
      obtain ⟨item', _, route, _, _, _, rfl⟩ := step_route h
      exact (routeParsedIncoming_loop { s with route := route } item').1.trans hloop
  | postNow => obtain ⟨_, _, rfl⟩ := step_postNow h; exact hloop
  | take => obtain ⟨_, _, hphase, _, _⟩ := step_take h; exact hother _ hphase nofun
  | handlerEnds => exact absurd rfl ha
  | complete => obtain ⟨_, hphase, _⟩ := step_complete h; exact hother _ hphase nofun
  | postParked => obtain ⟨_, _, hphase, _⟩ := step_postParked h; exact hother _ hphase nofun
  | wait => obtain ⟨hphase, _⟩ := step_wait h; exact hother _ hphase nofun
  | work => obtain ⟨_, _, _, rfl⟩ := step_work h; exact hloop

theorem step_accepted {a : GateAction} (ha : a ≠ .route) (h : step a s = some s') :
    s'.accepted = s.accepted ∧ s'.route.routed = s.route.routed := by
  have hrouting : ∀ b, routeAction a = some b → b ≠ .route →
      s'.accepted = s.accepted ∧ s'.route.routed = s.route.routed := by
    intro b hb hne
    obtain ⟨_, hroute, rfl⟩ := step_routing hb h
    exact ⟨rfl, RouteState.step_routed hne hroute⟩
  cases a with
  | read => exact hrouting _ rfl nofun
  | submit sequence parsed bypass => exact hrouting _ rfl nofun
  | release => exact hrouting _ rfl nofun
  | stop => exact hrouting _ rfl nofun
  | route => exact absurd rfl ha
  | postNow => obtain ⟨_, _, rfl⟩ := step_postNow h; exact ⟨rfl, rfl⟩
  | take => obtain ⟨_, _, _, _, rfl⟩ := step_take h; exact ⟨rfl, rfl⟩
  | handlerEnds => obtain ⟨_, _, rfl⟩ := step_handlerEnds h; exact ⟨rfl, rfl⟩
  | complete => obtain ⟨_, _, rfl⟩ := step_complete h; exact ⟨rfl, rfl⟩
  | postParked => obtain ⟨_, _, _, rfl⟩ := step_postParked h; exact ⟨rfl, rfl⟩
  | wait => obtain ⟨_, rfl⟩ := step_wait h; exact ⟨rfl, rfl⟩
  | work => obtain ⟨_, _, _, rfl⟩ := step_work h; exact ⟨rfl, rfl⟩

theorem routeParsedIncoming_accepted (s : GateState) (item : SequencedParsedMessage) :
    (s.routeParsedIncoming item).accepted = s.accepted ∨
      (s.routeParsedIncoming item).accepted = s.accepted ++ [item.sequence] := by
  rcases s.routeParsedIncoming_cases item with (h | h | ⟨_, h⟩) | ⟨_, _, _, h⟩ | ⟨_, _, _, h⟩ | ⟨_, _, _, h⟩ <;> rw [h]
  · exact .inl rfl
  · exact .inl rfl
  · exact .inl rfl
  · exact .inr rfl
  · exact .inl rfl
  · exact .inl rfl

theorem quit_of_step {a : GateAction} (h : step a s = some s') : s.route.quit = false := by
  rw [step] at h
  split_ifs at h with hquit
  exact Bool.eq_false_iff.mpr hquit

/-- Every accepted notification is one of the routed messages. -/
theorem routed_of_accepted (hs : gateSystem.Reachable s) :
    ∀ k ∈ s.accepted, s.route.start ≤ k ∧ k < s.route.start + s.route.routed.length := by
  intro k hk
  have hrouted := (gated_of_reachable hs).routed k hk
  rw [routedSequences, (RouteState.reachable_ordered (reachable_route hs)).routed_eq, List.mem_range'_1] at hrouted
  exact hrouted

end GateState

end LspCpp

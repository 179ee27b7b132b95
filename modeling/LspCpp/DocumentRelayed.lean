import LspCpp.DispatchSerial
import LspCpp.DocumentSync

/-! What the client sends and what reaches the dispatcher: where no message can be dropped, the routing hands on what
was parsed of each message under its own number, and a change of a document is accepted or ends the session. -/

namespace LspCpp

/-- No message is dropped: a session with a full queue is stopped, or there is no limit that could drop one. -/
def RemoteEndPointLimits.Lossless (limits : RemoteEndPointLimits) : Prop :=
  limits.overloadPolicy = .stopProcessing ∨
    limits.maxFrameSize = 0 ∧ limits.maxParseQueueSize = 0 ∧ limits.maxReorderBufferSize = 0 ∧
      limits.maxNotificationQueueSize = 0

instance (limits : RemoteEndPointLimits) : Decidable limits.Lossless := inferInstanceAs (Decidable (_ ∨ _))

namespace RemoteEndPointLimits.Lossless

variable {limits : RemoteEndPointLimits}

theorem not_dropsUnparsed (h : limits.Lossless) : SyncState.dropsUnparsed limits = false := by
  rcases h with h | ⟨-, h, -⟩ <;> simp [SyncState.dropsUnparsed, h]

theorem keeps_submitted (h : limits.Lossless) (r : Reorder) (bypass : Bool)
    (hdrops : limits.overloadPolicy = .dropNewest) :
    (!bypass && r.full limits) = false := by
  rcases h with h | ⟨-, -, h, -⟩
  · cases h.symm.trans hdrops
  · simp [Reorder.full, h]

end RemoteEndPointLimits.Lossless

/-- What was parsed of the message with this number. -/
def Carries (sent : List ClientMessage) (start sequence : Nat) (parsed : ParsedMessage) : Prop :=
  ∃ message, sent[sequence - start]? = some message ∧ parsed = message.parsed

/-- The sequence numbers and the parsed messages of a session against what the client has sent. -/
structure Relayed (sent : List ClientMessage) (route : RouteState) : Prop where
  bounded : route.nextMessageSequence ≤ route.start + sent.length
  covered : route.quit = false → ∀ k, route.start ≤ k → k < route.nextMessageSequence →
    k ∈ route.inFlight ∨ k ∈ route.submitted
  dispatched : ∀ item ∈ route.dispatched, Carries sent route.start item.sequence item.parsed
  buffered : ∀ k parsed, route.reorder.reorderBuffer.lookup k = some parsed → Carries sent route.start k parsed

namespace Relayed

variable {sent : List ClientMessage} {route route' : RouteState}

theorem send (h : Relayed sent route) (message : ClientMessage) : Relayed (sent ++ [message]) route := by
  have hcarries : ∀ k parsed, Carries sent route.start k parsed → Carries (sent ++ [message]) route.start k parsed := by
    rintro k parsed ⟨carried, hget, hparsed⟩
    exact ⟨carried, by rw [List.getElem?_append_left (List.getElem?_eq_some_iff.mp hget).1, hget], hparsed⟩
  refine ⟨?_, h.covered, fun item hitem => hcarries _ _ (h.dispatched item hitem),
    fun k parsed hk => hcarries _ _ (h.buffered k parsed hk)⟩
  rw [List.length_append]
  exact Nat.le_trans h.bounded (by omega)

theorem read (h : Relayed sent route) (hsent : route.nextMessageSequence < route.start + sent.length)
    (hstep : RouteState.step .read route = some route') : Relayed sent route' := by
  obtain ⟨_, rfl⟩ := RouteState.step_read hstep
  refine { h with bounded := hsent, covered := fun hquit k hk hlt => ?_ }
  rcases Nat.lt_succ_iff_lt_or_eq.mp hlt with hlt | rfl
  · exact (h.covered hquit k hk hlt).imp_left (List.mem_cons_of_mem _)
  · exact .inl List.mem_cons_self

theorem submit (h : Relayed sent route) (hlossless : route.limits.Lossless) {sequence : Nat} {parsed : ParsedMessage}
    {bypass : Bool} (hcarries : Carries sent route.start sequence parsed)
    (hstep : RouteState.step (.submit sequence parsed bypass) route = some route') : Relayed sent route' := by
  obtain ⟨_, hready, _, rfl | ⟨reorder, items, hsubmit, rfl⟩⟩ := RouteState.step_submit hstep
  · exact { h with covered := fun hquit => absurd rfl (Bool.eq_false_iff.mp hquit) }
  · obtain ⟨hitems, hkept⟩ := Reorder.submitParsedMessage_sources_of_kept
      (hlossless.keeps_submitted route.reorder bypass) hsubmit
    refine { h with
      covered := fun hquit k hk hlt => ?_, dispatched := fun item hitem => ?_, buffered := fun k kept hk => ?_ }
    · rcases h.covered hquit k hk hlt with hflight | hdone
      · by_cases heq : k = sequence
        · exact .inr (heq ▸ List.mem_cons_self)
        · exact .inl ((List.mem_erase_of_ne heq).mpr hflight)
      · exact .inr (List.mem_cons_of_mem _ hdone)
    · rcases List.mem_append.mp hitem with hold | hnew
      · exact h.dispatched item (List.mem_append_left _ hold)
      · rcases hitems item hnew with rfl | hbuffered
        · exact hcarries
        · exact h.buffered _ _ hbuffered
    · rcases hkept k kept hk with ⟨rfl, rfl⟩ | hbuffered
      · exact hcarries
      · exact h.buffered k kept hbuffered

/-- The lock holder takes the next message or is done. -/
theorem dispatch (h : Relayed sent route) {b : RouteAction} (hb : b = .route ∨ b = .release ∨ b = .stop)
    (hstep : RouteState.step b route = some route') : Relayed sent route' := by
  rcases hb with rfl | rfl | rfl
  · obtain ⟨item, rest, hready, _, rfl⟩ := RouteState.step_route hstep
    refine { h with dispatched := fun other hother => h.dispatched other ?_ }
    rw [RouteState.dispatched, hready]
    simpa [RouteState.dispatched] using hother
  · obtain ⟨_, hready, rfl⟩ := RouteState.step_release hstep
    refine { h with dispatched := fun other hother => h.dispatched other ?_ }
    rw [RouteState.dispatched, hready]
    simpa [RouteState.dispatched] using hother
  · obtain ⟨_, rfl⟩ := RouteState.step_stop hstep
    exact { h with covered := fun hquit => absurd rfl (Bool.eq_false_iff.mp hquit) }

end Relayed

namespace SyncState

variable {posix : Posix} {s s' : SyncState}

theorem relayed_endpoint {a : GateAction} {gate : GateState} (hinv : Relayed s.sent s.gate.route)
    (hlossless : s.gate.route.limits.Lossless) (hallows : s.allows a = true)
    (h : GateState.step a s.gate = some gate) : Relayed s.sent gate.route := by
  by_cases ha : a = .route
  · subst ha
    obtain ⟨item, _, route, _, _, hroute, rfl⟩ := GateState.step_route h
    have hnext : Relayed s.sent route := hinv.dispatch (.inl rfl) hroute
    rcases GateState.routeParsedIncoming_route { s.gate with route := route } item with heq | heq <;> rw [heq]
    · exact hnext
    · exact { hnext with covered := fun hquit => absurd rfl (Bool.eq_false_iff.mp hquit) }
  · obtain ⟨-, heq | ⟨b, hb, hroute⟩⟩ := GateState.step_frame ha h
    · rw [heq]
      exact hinv
    · cases a <;> cases hb
      case read.refl => exact hinv.read (of_decide_eq_true hallows) hroute
      case submit.refl sequence parsed bypass =>
        rw [allows, hlossless.not_dropsUnparsed, Option.any_eq_true] at hallows
        obtain ⟨message, hmessage, hparsed⟩ := hallows
        exact hinv.submit hlossless ⟨message, hmessage, by simpa using hparsed⟩ hroute
      case release.refl => exact hinv.dispatch (.inr (.inl rfl)) hroute
      case stop.refl => exact hinv.dispatch (.inr (.inr rfl)) hroute

end SyncState

namespace GateState

variable {s : GateState}

/-- A notification that is not exempt from the order is put into the queue, or the session ends. -/
theorem routeParsedIncoming_notification {item : SequencedParsedMessage} {method : String}
    (hparsed : item.parsed = ClientMessage.notification method) (hcancel : method ≠ cancelRequestMethod)
    (hordered : method ∉ s.concurrentNotifications) (hrunning : s.dispatcher.notificationStop = false)
    (hlossless : s.route.limits.Lossless) :
    (s.routeParsedIncoming item).accepted = s.accepted ++ [item.sequence] ∨
      (s.routeParsedIncoming item).accepted = s.accepted ∧ (s.routeParsedIncoming item).route.quit = true := by
  have htarget : routeTarget s.concurrentNotifications item.parsed = .notification ⟨.notification, method, .kNone⟩ := by
    rw [hparsed]
    simp [routeTarget, ClientMessage.notification, hcancel, hordered]
  rw [routeParsedIncoming, htarget]
  simp only [OrderedDispatcher.enqueueNotification, hrunning, Bool.or_self, Bool.false_eq_true, if_false]
  by_cases hfull : s.route.limits.maxNotificationQueueSize ≠ 0 ∧
      s.route.limits.maxNotificationQueueSize ≤ s.dispatcher.notificationQueue.length
  · simp only [if_pos hfull]
    have hstops : s.route.limits.overloadPolicy ≠ .dropNewest := by
      rcases hlossless with h | ⟨-, -, -, h⟩
      · rw [h]
        exact nofun
      · exact absurd h hfull.1
    rw [overload, if_neg hstops]
    exact .inr ⟨rfl, rfl⟩
  · simp only [if_neg hfull]
    exact .inl trivial

end GateState

end LspCpp

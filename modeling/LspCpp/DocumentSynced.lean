import LspCpp.DocumentRelayed

/-! The documents of the server are at every time those that the client had after some of its messages, and a request
finds in them all that was sent before it. -/

namespace LspCpp

namespace ClientMessage

/-- A message that changes a document is one of the three notifications. -/
theorem parsed_of_action {message : ClientMessage} {a : WorkingAction LsDocumentUri} (h : message.action = some a) :
    ∃ method ∈ documentMethods, message.parsed = notification method := by
  cases message with
  | didOpen => exact ⟨_, .head _, rfl⟩
  | didChange => exact ⟨_, .tail _ (.head _), rfl⟩
  | didClose => exact ⟨_, .tail _ (.tail _ (.head _)), rfl⟩
  | other => cases h

end ClientMessage

namespace SyncState

variable {posix : Posix} {s s' : SyncState}

/-- The notifications whose handlers have done their call of the store. -/
def executed (s : SyncState) : List Nat := s.gate.finished ++ if s.handled then s.gate.loop.handling else []

/-- The accepted notifications whose handlers have not. -/
def waiting (s : SyncState) : List Nat :=
  (if s.handled then [] else s.gate.loop.handling) ++ s.gate.dispatcher.notificationQueue.map DispatchItem.sequence

theorem accepted_eq (h : s.gate.Serial) : s.gate.accepted = s.executed ++ s.waiting := by
  rw [h, executed, waiting]
  cases s.handled <;> simp

/-- The message changes a document. -/
def changes (s : SyncState) (sequence : Nat) : Bool := (s.action? sequence).isSome

/-- Of the first `m` messages those that change a document have been accepted. These are all routed ones, or all but the
one that ended the session. -/
structure Accepts (s : SyncState) (m : Nat) : Prop where
  le : m ≤ s.gate.route.routed.length
  ge : s.gate.route.routed.length ≤ m + 1
  running : s.gate.route.quit = false → m = s.gate.route.routed.length
  changes : s.gate.accepted.filter s.changes = (List.range' s.gate.route.start m).filter s.changes

/-- The documents against the messages. -/
structure Tracked (posix : Posix) (s : SyncState) : Prop where
  relayed : Relayed s.sent s.gate.route
  handled : s.handled = true → ∃ item, s.gate.loop = .running item
  accepts : ∃ m, s.Accepts m
  client : s.textsAfter posix s.sent.length = some s.texts
  plain : ∀ message ∈ s.sent, ∀ a ∈ message.action, WorkingFiles.NoBackslash posix a
  server : (textSystem (LsDocumentUri.getAbsolutePath posix)).run (s.executed.filterMap s.action?) (fun _ => none) =
    some s.files.texts
  placed : s.files.Placed

theorem Tracked.routed_le (h : Tracked posix s) (hs : gateSystem.Reachable s.gate) :
    s.gate.route.routed.length ≤ s.sent.length := by
  have hordered := (RouteState.reachable_ordered (GateState.reachable_route hs)).routed_le
  have hbounded := h.relayed.bounded
  omega

/-- A further message changes none of the earlier ones. -/
theorem action?_send {k : Nat} (hk : k - s.gate.route.start < s.sent.length) (message : ClientMessage)
    (texts : TextMap) :
    { s with sent := s.sent ++ [message], texts := texts }.action? k = s.action? k := by
  rw [action?, action?, message?, message?, List.getElem?_append_left hk]

theorem Tracked.send (h : Tracked posix s) (hs : gateSystem.Reachable s.gate) {message : ClientMessage}
    (hplain : ∀ a ∈ message.action, WorkingFiles.NoBackslash posix a) {texts : TextMap}
    (htexts : (textSystem (LsDocumentUri.getAbsolutePath posix)).run message.action.toList s.texts = some texts) :
    Tracked posix { s with sent := s.sent ++ [message], texts := texts } := by
  have hsent : ∀ k, s.gate.route.start ≤ k → k < s.gate.route.start + s.gate.route.routed.length →
      { s with sent := s.sent ++ [message], texts := texts }.action? k = s.action? k := by
    intro k hk hlt
    have hle := h.routed_le hs
    exact action?_send (by omega) message texts
  have haccepted : ∀ k ∈ s.gate.accepted,
      { s with sent := s.sent ++ [message], texts := texts }.action? k = s.action? k := fun k hk =>
    hsent k (GateState.routed_of_accepted hs k hk).1 (GateState.routed_of_accepted hs k hk).2
  obtain ⟨m, hm⟩ := h.accepts
  refine ⟨h.relayed.send message, h.handled, ⟨m, hm.le, hm.ge, hm.running, ?_⟩, ?_, ?_, ?_, h.placed⟩
  · calc s.gate.accepted.filter { s with sent := s.sent ++ [message], texts := texts }.changes
        = s.gate.accepted.filter s.changes := List.filter_congr fun k hk => by rw [changes, haccepted k hk, changes]
      _ = (List.range' s.gate.route.start m).filter s.changes := hm.changes
      _ = (List.range' s.gate.route.start m).filter { s with sent := s.sent ++ [message], texts := texts }.changes :=
          List.filter_congr fun k hk => by
            obtain ⟨hk, hlt⟩ := List.mem_range'_1.mp hk
            rw [changes, changes, hsent k hk (by have := hm.le; omega)]
  · have hold := h.client
    rw [textsAfter, List.take_length] at hold
    rw [textsAfter, List.take_length, List.filterMap_append, Transition.System.run_append, hold]
    cases haction : message.action <;> rw [haction] at htexts <;> simpa [haction] using htexts
  · intro other hother
    rcases List.mem_append.mp hother with hother | hother
    · exact h.plain other hother
    · rw [List.mem_singleton.mp hother]
      exact hplain
  · have hexecuted : ∀ k ∈ s.executed,
        { s with sent := s.sent ++ [message], texts := texts }.action? k = s.action? k := fun k hk =>
      haccepted k (accepted_eq (GateState.serial_of_reachable hs) ▸ List.mem_append_left _ hk)
    have hserver := h.server
    rw [← List.filterMap_congr hexecuted] at hserver
    exact hserver

theorem filterMap_singleton (f : Nat → Option (WorkingAction LsDocumentUri)) (k : Nat) :
    [k].filterMap f = (f k).toList := by
  cases h : f k <;> simp [h]

/-- What a message does is one of the operations that the client has sent. -/
theorem Tracked.plain_action (h : Tracked posix s) {k : Nat} :
    ∀ a ∈ (s.action? k).toList, WorkingFiles.NoBackslash posix a := by
  intro a ha
  obtain ⟨message, hmessage, hact⟩ := Option.bind_eq_some_iff.mp (Option.mem_toList.mp ha)
  exact h.plain message (List.mem_of_getElem? hmessage) a hact

/-- The store after an operation is the one of the abstract machine. -/
theorem Tracked.texts_run (h : Tracked posix s) (k : Nat) :
    ((workingSystem (LsDocumentUri.getAbsolutePath posix)).run (s.action? k).toList s.files).map WorkingFiles.texts =
      (textSystem (LsDocumentUri.getAbsolutePath posix)).run (s.action? k).toList s.files.texts :=
  Transition.System.map_run WorkingFiles.texts WorkingFiles.Placed (WorkingFiles.NoBackslash posix)
    (fun _ _ hplaced _ => WorkingFiles.texts_step hplaced) (fun _ _ _ hplaced hok hstep => hplaced.step hok hstep) _
    h.plain_action h.placed

theorem Tracked.placed_run (h : Tracked posix s) {k : Nat} {files : WorkingFiles}
    (hrun : (workingSystem (LsDocumentUri.getAbsolutePath posix)).run (s.action? k).toList s.files = some files) :
    files.Placed := by
  have hplain : ∀ a ∈ (s.action? k).toList, WorkingFiles.NoBackslash posix a := h.plain_action
  cases haction : s.action? k with
  | none =>
      rw [haction] at hrun
      cases hrun
      exact h.placed
  | some a =>
      rw [haction] at hrun hplain
      obtain ⟨files', hstep, hrest⟩ := Option.bind_eq_some_iff.mp hrun
      cases hrest
      exact h.placed.step (hplain a (List.mem_singleton.mpr rfl)) hstep

theorem Tracked.handle (h : Tracked posix s) {item : DispatchItem} {files : WorkingFiles}
    (hloop : s.gate.loop = .running item) (hhandled : s.handled = false)
    (hfiles : (workingSystem (LsDocumentUri.getAbsolutePath posix)).run (s.action? item.sequence).toList s.files =
      some files) : Tracked posix { s with files := files, handled := true } := by
  obtain ⟨m, hm⟩ := h.accepts
  refine ⟨h.relayed, fun _ => ⟨item, hloop⟩, ⟨m, hm.le, hm.ge, hm.running, hm.changes⟩, h.client, h.plain, ?_,
    h.placed_run hfiles⟩
  have hexecuted : { s with files := files, handled := true }.executed = s.executed ++ [item.sequence] := by
    rw [executed, executed, hhandled, hloop]
    simp [LoopPhase.handling]
  have htexts := h.texts_run item.sequence
  rw [hfiles] at htexts
  rw [hexecuted, List.filterMap_append, Transition.System.run_append]
  have hserver := h.server
  calc ((textSystem (LsDocumentUri.getAbsolutePath posix)).run (s.executed.filterMap s.action?) fun _ => none).bind
        ((textSystem (LsDocumentUri.getAbsolutePath posix)).run ([item.sequence].filterMap s.action?))
      = (textSystem (LsDocumentUri.getAbsolutePath posix)).run (s.action? item.sequence).toList s.files.texts := by
        rw [hserver, filterMap_singleton]
        rfl
    _ = some files.texts := htexts.symm

theorem executed_endpoint {a : GateAction} {gate : GateState} (h : Tracked posix s) (hallows : s.allows a = true)
    (hstep : GateState.step a s.gate = some gate) :
    (s.advance a gate).executed = s.executed := by
  by_cases ha : a = .handlerEnds
  · subst ha
    obtain ⟨item, hloop, rfl⟩ := GateState.step_handlerEnds hstep
    have hhandled : s.handled = true := hallows
    simp [executed, advance, hhandled, hloop, LoopPhase.handling]
  · have hfinished := GateState.step_finished ha hstep
    cases hhandled : s.handled with
    | false =>
        simp [executed, advance, hhandled, hfinished]
    | true =>
        obtain ⟨item, hloop⟩ := h.handled hhandled
        have hloop' := GateState.step_running hloop ha hstep
        simp [executed, advance, hhandled, hloop, hloop', hfinished, ha]

theorem action?_advance {a : GateAction} {gate : GateState} (hstep : GateState.step a s.gate = some gate) :
    (s.advance a gate).action? = s.action? := by
  funext k
  rw [action?, action?, message?, message?]
  have hstart : gate.route.start = s.gate.route.start := (GateState.step_config hstep).2.1
  rw [show (s.advance a gate).gate.route.start = s.gate.route.start from hstart]
  rfl

/-- The next message is routed: if it changes a document it is accepted, or the session ends. -/
theorem Tracked.accepts_route (h : Tracked posix s) (hs : gateSystem.Reachable s.gate)
    (hlossless : s.gate.route.limits.Lossless)
    (hordered : ∀ method ∈ documentMethods, method ∉ s.gate.concurrentNotifications) {gate : GateState}
    (hstep : GateState.step .route s.gate = some gate) : ∃ m, (s.advance .route gate).Accepts m := by
  have hquit := GateState.quit_of_step hstep
  have haction := action?_advance (a := .route) hstep
  have hstart : gate.route.start = s.gate.route.start := (GateState.step_config hstep).2.1
  have hchanges : (s.advance .route gate).changes = s.changes := by
    funext k
    rw [changes, haction, changes]
  obtain ⟨m, hm⟩ := h.accepts
  obtain rfl := hm.running hquit
  obtain ⟨item, rest, route, _, hready, hroute, rfl⟩ := GateState.step_route hstep
  have hsequence := (RouteState.reachable_ordered (GateState.reachable_route hs)).sequence_of_ready hready
  obtain ⟨_, _, hready', _, hrouted⟩ := RouteState.step_route hroute
  obtain ⟨rfl, rfl⟩ := List.cons.inj (Option.some.inj (hready.symm.trans hready'))
  obtain ⟨message, hmessage, hparsed⟩ := h.relayed.dispatched item (by
    rw [RouteState.dispatched, hready]
    simp)
  have hlength : ({ s.gate with route := route }.routeParsedIncoming item).route.routed.length =
      s.gate.route.routed.length + 1 := by
    rcases GateState.routeParsedIncoming_route { s.gate with route := route } item with heq | heq <;>
      rw [heq, hrouted] <;> exact List.length_append
  have hrange : (List.range' s.gate.route.start (s.gate.route.routed.length + 1)).filter s.changes =
      s.gate.accepted.filter s.changes ++ [item.sequence].filter s.changes := by
    rw [List.range'_concat, List.filter_append, hm.changes, hsequence, Nat.one_mul]
  have hnext : ∀ accepted, accepted.filter s.changes =
      s.gate.accepted.filter s.changes ++ [item.sequence].filter s.changes →
      ({ s.gate with route := route }.routeParsedIncoming item).accepted = accepted →
      (s.advance .route ({ s.gate with route := route }.routeParsedIncoming item)).Accepts
        (s.gate.route.routed.length + 1) := by
    rintro accepted hfilter rfl
    refine ⟨Nat.le_of_eq hlength.symm, by rw [advance, hlength]; omega, fun _ => hlength.symm, ?_⟩
    rw [hchanges, advance, hstart, hrange]
    exact hfilter
  cases hact : message.action with
  | none =>
      have hnone : [item.sequence].filter s.changes = [] := by
        have hnot : s.changes item.sequence = false := by
          rw [changes, action?, message?, hmessage, Option.bind_some, hact, Option.isSome_none]
        simp [hnot]
      refine ⟨_, hnext _ ?_ rfl⟩
      rcases GateState.routeParsedIncoming_accepted { s.gate with route := route } item with heq | heq <;> rw [heq]
      · rw [hnone, List.append_nil]
      · exact List.filter_append ..
  | some a =>
      obtain ⟨method, hmethod, hnotification⟩ := ClientMessage.parsed_of_action hact
      have hcancel : method ≠ cancelRequestMethod := by
        rintro rfl
        exact absurd hmethod (by decide)
      have hlimits : route.limits.Lossless := by
        rw [(RouteState.step_config hroute).1]
        exact hlossless
      rcases GateState.routeParsedIncoming_notification (s := { s.gate with route := route })
        (hparsed.trans hnotification) hcancel (hordered method hmethod)
          (GateState.gated_of_reachable hs).running hlimits with
        heq | ⟨heq, hended⟩
      · exact ⟨_, hnext _ (List.filter_append ..) heq⟩
      · refine ⟨s.gate.route.routed.length, by rw [advance, hlength]; omega, by rw [advance, hlength], ?_, ?_⟩
        · intro hrunning
          cases hended.symm.trans hrunning
        · rw [hchanges, advance, hstart, heq]
          exact hm.changes

theorem Tracked.endpoint (h : Tracked posix s) (hs : gateSystem.Reachable s.gate)
    (hlossless : s.gate.route.limits.Lossless)
    (hordered : ∀ method ∈ documentMethods, method ∉ s.gate.concurrentNotifications) {a : GateAction} {gate : GateState}
    (hallows : s.allows a = true) (hstep : GateState.step a s.gate = some gate) :
    Tracked posix (s.advance a gate) := by
  have haction := action?_advance hstep
  have hstart : gate.route.start = s.gate.route.start := (GateState.step_config hstep).2.1
  have hrelayed : Relayed s.sent gate.route := relayed_endpoint h.relayed hlossless hallows hstep
  refine ⟨hrelayed, fun hhandled => ?_, ?_, h.client, h.plain, ?_, h.placed⟩
  · rw [advance, Bool.and_eq_true, decide_eq_true_eq] at hhandled
    obtain ⟨item, hloop⟩ := h.handled hhandled.1
    exact ⟨item, GateState.step_running hloop hhandled.2 hstep⟩
  · by_cases ha : a = .route
    · subst ha
      exact h.accepts_route hs hlossless hordered hstep
    · obtain ⟨m, hm⟩ := h.accepts
      obtain ⟨haccepted, hrouted⟩ := GateState.step_accepted ha hstep
      have hchanges : (s.advance a gate).changes = s.changes := by
        funext k
        rw [changes, haction, changes]
      obtain rfl := hm.running (GateState.quit_of_step hstep)
      refine ⟨s.gate.route.routed.length, ?_, ?_, fun _ => ?_, ?_⟩
      · rw [advance, hrouted]
      · rw [advance, hrouted]
        exact hm.ge
      · rw [advance, hrouted]
      · rw [hchanges, advance, haccepted, hstart]
        exact hm.changes
  · rw [executed_endpoint h hallows hstep, haction]
    exact h.server

/-- A request. -/
def hover : ParsedMessage := { ok := true, kind := .request, message := some ⟨.request, "textDocument/hover", .kInt 1⟩ }

def opened : ClientMessage := .didOpen ⟨bytesOf "file:///a/b"⟩ 1 (bytesOf "x\ny\n")

def edited : ClientMessage := .didChange ⟨bytesOf "file:///a/b"⟩ (some 2) [⟨some ⟨⟨1, 0⟩, ⟨1, 1⟩⟩, bytesOf "zz"⟩]

/-- With `dropNewest` and a queue of one notification the edit is dropped, and the documents stay different. -/
theorem dropNewest_not_synced :
    ∃ s, (syncSystem {}).runIf (SendsPlain {})
        ([.send opened, .send edited] ++
          [.read, .read, .submit 0 opened.parsed false, .route, .release, .submit 1 edited.parsed false,
            .route, .release, .take].map .endpoint ++ [.handle] ++ [.handlerEnds, .complete, .wait].map .endpoint)
        { gate := { route := { limits := { maxNotificationQueueSize := 1, overloadPolicy := .dropNewest } } } } =
          some s ∧
      s.Settled ∧ s.files.texts ≠ s.texts := by
  refine ⟨_, rfl, ⟨rfl, rfl, rfl, rfl, rfl, rfl⟩, fun heq => ?_⟩
  have htext := congrFun heq ⟨bytesOf "/a/b"⟩
  exact absurd htext (by decide)

end SyncState

end LspCpp

import LspCpp.ReplyHeld

/-! Every request is answered exactly once. The replies that are owed by a message somewhere in the session and the
replies that have been given are together those of the routed requests, and every message that is read is routed
once. -/

namespace LspCpp

/-- The message under this number is a content that was read, and it leads to a reply exactly when it is a request. -/
def ReadAs (concurrentNotifications : List String) (incoming : List Incoming) (sequence : Nat)
    (parsed : ParsedMessage) : Prop :=
  ∃ content, ⟨sequence, content⟩ ∈ incoming ∧
    (routeTarget concurrentNotifications parsed).owesReply = content.requestId

/-- What was read against the sequence numbers that are parsed, buffered and routed. -/
structure Fed (concurrentNotifications : List String) (incoming : List Incoming) (route : RouteState) : Prop where
  running : route.quit = false
  unlimited : route.limits.Unlimited
  sequences : incoming.map Incoming.sequence =
    List.range' route.start (route.nextMessageSequence - route.start)
  start_le : route.start ≤ route.nextMessageSequence
  ids : ∀ message ∈ incoming, ∀ id ∈ message.content.requestId, id.IsRequestId
  covered : ∀ k, route.start ≤ k → k < route.nextMessageSequence → k ∈ route.inFlight ∨ k ∈ route.submitted
  dispatched : ∀ item ∈ route.dispatched, ReadAs concurrentNotifications incoming item.sequence item.parsed
  buffered : ∀ k parsed, route.reorder.reorderBuffer.lookup k = some parsed →
    ReadAs concurrentNotifications incoming k parsed

section Fed

variable {concurrentNotifications : List String} {incoming : List Incoming} {route route' : RouteState}

theorem ReadAs.append {sequence : Nat} {parsed : ParsedMessage}
    (h : ReadAs concurrentNotifications incoming sequence parsed) (more : List Incoming) :
    ReadAs concurrentNotifications (incoming ++ more) sequence parsed := by
  obtain ⟨content, hcontent, howes⟩ := h
  exact ⟨content, List.mem_append_left _ hcontent, howes⟩

theorem Fed.read (hinv : Fed concurrentNotifications incoming route) {content : Content}
    (hids : ∀ id ∈ content.requestId, id.IsRequestId) (h : RouteState.step .read route = some route') :
    Fed concurrentNotifications (incoming ++ [⟨route.nextMessageSequence, content⟩]) route' := by
  obtain ⟨_, rfl⟩ := RouteState.step_read h
  have hle := hinv.start_le
  refine ⟨hinv.running, hinv.unlimited, ?_, Nat.le_succ_of_le hle, fun message hmessage => ?_, fun k hk hlt => ?_,
    fun item hitem => (hinv.dispatched item hitem).append _, fun k parsed hk => (hinv.buffered k parsed hk).append _⟩
  · have hcount : route.nextMessageSequence + 1 - route.start =
        route.nextMessageSequence - route.start + 1 := by omega
    have hlast : route.start + 1 * (route.nextMessageSequence - route.start) = route.nextMessageSequence := by omega
    rw [List.map_append, hinv.sequences, hcount, List.range'_concat, hlast]
    rfl
  · rcases List.mem_append.mp hmessage with hold | hnew
    · exact hinv.ids message hold
    · rw [List.mem_singleton.mp hnew]
      exact hids
  · rcases Nat.lt_succ_iff_lt_or_eq.mp hlt with hlt | rfl
    · exact (hinv.covered k hk hlt).imp_left (List.mem_cons_of_mem _)
    · exact .inl List.mem_cons_self

theorem Fed.submit (hinv : Fed concurrentNotifications incoming route) {sequence : Nat} {parsed : ParsedMessage}
    (hread : ReadAs concurrentNotifications incoming sequence parsed)
    (h : RouteState.step (.submit sequence parsed false) route = some route') :
    Fed concurrentNotifications incoming route' := by
  obtain ⟨hready, _, reorder, items, hsubmit, rfl⟩ := RouteState.step_submit_unlimited hinv.unlimited h
  obtain ⟨hitems, hkept⟩ := Reorder.submitParsedMessage_sources hinv.unlimited hsubmit
  refine { hinv with
    covered := fun k hk hlt => ?_, dispatched := fun item hitem => ?_, buffered := fun k kept hk => ?_ }
  · rcases hinv.covered k hk hlt with hflight | hdone
    · by_cases hk : k = sequence
      · exact .inr (hk ▸ List.mem_cons_self)
      · exact .inl ((List.mem_erase_of_ne hk).mpr hflight)
    · exact .inr (List.mem_cons_of_mem _ hdone)
  · rcases List.mem_append.mp hitem with hold | hnew
    · exact hinv.dispatched item (List.mem_append_left _ hold)
    · rcases hitems item hnew with rfl | hbuffered
      · exact hread
      · exact hinv.buffered _ _ hbuffered
  · rcases hkept k kept hk with ⟨rfl, rfl⟩ | hbuffered
    · exact hread
    · exact hinv.buffered k kept hbuffered

theorem Fed.routeNext (hinv : Fed concurrentNotifications incoming route)
    (h : RouteState.step .route route = some route') : Fed concurrentNotifications incoming route' := by
  obtain ⟨item, rest, hready, _, rfl⟩ := RouteState.step_route h
  refine { hinv with dispatched := fun other hother => hinv.dispatched other ?_ }
  rw [RouteState.dispatched, hready]
  simpa [RouteState.dispatched] using hother

theorem Fed.release (hinv : Fed concurrentNotifications incoming route)
    (h : RouteState.step .release route = some route') : Fed concurrentNotifications incoming route' := by
  obtain ⟨_, hready, rfl⟩ := RouteState.step_release h
  refine { hinv with dispatched := fun other hother => hinv.dispatched other ?_ }
  rw [RouteState.dispatched, hready]
  simpa [RouteState.dispatched] using hother

end Fed

/-- The message owes a reply with the property `p`. -/
def DispatchItem.owes (p : Nat → JsonValue → Bool) (item : DispatchItem) : Bool :=
  item.message.owesReply.any (p item.sequence)

namespace ReplyState

/-- The number of replies with the property `p` that messages in the dispatcher, messages that workers execute and
futures still owe. -/
def owed (s : ReplyState) (p : Nat → JsonValue → Bool) : Nat :=
  s.gate.holding (DispatchItem.owes p) + s.running.countP (DispatchItem.owes p) +
    (s.asyncCompletions ++ s.completing.toList).countP fun completion =>
      p completion.sequence completion.id.reflectWriter

/-- The replies that have been owed or given. -/
def replies (s : ReplyState) (p : Nat → JsonValue → Bool) : Nat :=
  s.owed p + (s.frames ++ s.dropped).countP fun frame => p frame.sequence frame.id

/-- The replies that the routed messages lead to. -/
def routedReplies (g : GateState) (p : Nat → JsonValue → Bool) : Nat :=
  g.route.routed.countP fun item =>
    (routeTarget g.concurrentNotifications item.parsed).owesReply.any (p item.sequence)

/-- Nothing but a reply is added, owed or given. -/
structure Adds (s s' : ReplyState) (sequence : Nat) (id : Option JsonValue) : Prop where
  gate : s'.gate = s.gate
  incoming : s'.incoming = s.incoming
  written : (s.outputBad = false → s.dropped = []) → s'.outputBad = false → s'.dropped = []
  replies : ∀ p, s'.replies p = s.replies p + (if id.any (p sequence) then 1 else 0)

theorem adds_sendSessionMessage (s : ReplyState) (sequence : Nat) (id : LsRequestId) (body : ReplyBody) :
    Adds s (s.sendSessionMessage sequence id body) sequence (some id.reflectWriter) := by
  obtain ⟨hbad, heq⟩ | ⟨hgood, heq⟩ := s.sendSessionMessage_cases sequence id body
  · rw [heq]
    refine ⟨rfl, rfl, fun _ h => absurd (hbad.symm.trans h) nofun, fun p => ?_⟩
    simp only [replies, owed, List.countP_append, List.countP_singleton, Option.any_some]
    omega
  · rw [heq]
    refine ⟨rfl, rfl, fun h => h, fun p => ?_⟩
    simp only [replies, owed, List.countP_append, List.countP_singleton, Option.any_some]
    omega

theorem adds_postAsyncCompletion (s : ReplyState) (completion : AsyncCompletion) :
    Adds s (s.postAsyncCompletion completion) completion.sequence (some completion.id.reflectWriter) := by
  refine ⟨rfl, rfl, fun h => h, fun p => ?_⟩
  simp only [replies, owed, postAsyncCompletion, List.countP_append, List.countP_singleton, Option.any_some]
  omega

/-- Executing a message gives the reply that it owes, or leaves it to a future. -/
theorem adds_mainLoop {s s' : ReplyState} {item : DispatchItem} {run : HandlerRun}
    (h : s.mainLoop item run = some s') : Adds s s' item.sequence item.message.owesReply := by
  rcases mainLoop_eq_some h with ⟨hkind, rfl⟩ | ⟨hkind, ⟨body, rfl⟩ | rfl⟩
  · rw [LspMessage.owesReply, if_neg hkind]
    exact ⟨rfl, rfl, fun h => h, fun p => rfl⟩
  · rw [LspMessage.owesReply, if_pos hkind]
    exact adds_sendSessionMessage _ _ _ _
  · rw [LspMessage.owesReply, if_pos hkind]
    exact adds_postAsyncCompletion _ _

theorem replies_gate (s : ReplyState) (gate : GateState) (p : Nat → JsonValue → Bool) :
    { s with gate := gate }.replies p + s.gate.holding (DispatchItem.owes p) =
      s.replies p + gate.holding (DispatchItem.owes p) := by
  simp only [replies, owed]
  omega

/-- Routing a message gives its reply, or hands the message over. -/
theorem adds_reply (s : ReplyState) (item : SequencedParsedMessage) :
    (s.reply item).gate = s.gate ∧ (s.reply item).incoming = s.incoming ∧
      ((s.outputBad = false → s.dropped = []) → (s.reply item).outputBad = false → (s.reply item).dropped = []) ∧
      ∀ p, (s.reply item).replies p + (s.gate.handedOver item).countP (DispatchItem.owes p) =
        s.replies p + if (routeTarget s.gate.concurrentNotifications item.parsed).owesReply.any (p item.sequence)
          then 1 else 0 := by
  unfold reply GateState.handedOver
  cases htarget : routeTarget s.gate.concurrentNotifications item.parsed with
  | reply message =>
      have hadds := s.adds_sendSessionMessage item.sequence message.id
        (.error ((s.errors.lookup item.sequence).getD {}))
      exact ⟨hadds.gate, hadds.incoming, hadds.written, hadds.replies⟩
  | worker message | notification message | request message =>
      refine ⟨rfl, rfl, fun h => h, fun p => ?_⟩
      simp only [RouteTarget.dispatched, RouteTarget.owesReply, Option.map_some, Option.toList_some,
        List.countP_singleton, DispatchItem.owes]
      congr
  | dropped => exact ⟨rfl, rfl, fun h => h, fun p => rfl⟩
  | cancel message => exact ⟨rfl, rfl, fun h => h, fun p => rfl⟩
  | completePending message pending => exact ⟨rfl, rfl, fun h => h, fun p => rfl⟩

/-! ### The balance -/

/-- The replies owed and given are those of the routed messages. -/
structure Accounted (s : ReplyState) : Prop where
  reached : gateSystem.Reachable s.gate
  fed : Fed s.gate.concurrentNotifications s.incoming s.gate.route
  written : s.outputBad = false → s.dropped = []
  balanced : ∀ p, s.replies p = routedReplies s.gate p

theorem accounted_init {s : ReplyState} (h : replySystem.init s) : Accounted s := by
  obtain ⟨gate, jsonHandler, method2request, hgate, hlimits, rfl⟩ := h
  refine ⟨.init hgate, ?_, fun _ => rfl, ?_⟩
  · obtain ⟨route, _, _, _, ⟨limits, start, reorder, rfl⟩, rfl⟩ := hgate
    refine ⟨rfl, hlimits, ?_, Nat.le_refl _, fun _ h => absurd h List.not_mem_nil, fun k hk hlt => ?_,
      fun _ h => absurd h List.not_mem_nil, fun k parsed h => ?_⟩
    · dsimp only
      rw [Nat.sub_self]
      rfl
    · exact absurd hlt (Nat.not_lt.mpr hk)
    · cases h
  · obtain ⟨route, _, _, _, ⟨limits, start, reorder, rfl⟩, rfl⟩ := hgate
    exact fun p => rfl

section Step

variable {s s' : ReplyState} {gate : GateState}

theorem Accounted.reach (hinv : Accounted s) {a : GateAction} (h : GateState.step a s.gate = some gate) :
    gateSystem.Reachable gate :=
  .step (a := a) hinv.reached trivial h

/-- A step of the dispatcher that only moves messages. -/
theorem Accounted.moves (hinv : Accounted s) {a : GateAction} (ha : a.moves = true)
    (h : GateState.step a s.gate = some gate) : Accounted { s with gate := gate } := by
  obtain ⟨hconcurrent, hroute⟩ := GateState.step_frame (a.ne_route_of_moves ha) h
  replace hroute : gate.route = s.gate.route ∨ RouteState.step .release s.gate.route = some gate.route := by
    refine hroute.imp_right ?_
    rintro ⟨b, hb, hstep⟩
    exact a.routeAction_of_moves ha hb ▸ hstep
  have hrouted : gate.route.routed = s.gate.route.routed := by
    rcases hroute with hroute | hroute
    · rw [hroute]
    · exact RouteState.step_routed (a := .release) nofun hroute
  refine ⟨hinv.reach h, ?_, hinv.written, fun p => ?_⟩
  · show Fed gate.concurrentNotifications s.incoming gate.route
    rw [hconcurrent]
    rcases hroute with hroute | hroute
    · rw [hroute]
      exact hinv.fed
    · exact hinv.fed.release hroute
  · have hreplies := s.replies_gate gate p
    rw [GateState.holding_moves ha h, hinv.balanced p] at hreplies
    have hsame : routedReplies gate p = routedReplies s.gate p := by
      rw [routedReplies, routedReplies, hrouted, hconcurrent]
    show { s with gate := gate }.replies p = routedReplies gate p
    omega

theorem Accounted.read (hinv : Accounted s) {content : Content} (hids : ∀ id ∈ content.requestId, id.IsRequestId)
    (h : GateState.step .read s.gate = some gate) :
    Accounted { s with
      gate := gate, incoming := s.incoming ++ [⟨s.gate.route.nextMessageSequence, content⟩] } := by
  have hreach := hinv.reach h
  obtain ⟨route, hroute, rfl⟩ := GateState.step_routing rfl h
  have hrouted : route.routed = s.gate.route.routed := RouteState.step_routed (a := .read) nofun hroute
  refine ⟨hreach, hinv.fed.read hids hroute, hinv.written, fun p => (hinv.balanced p).trans ?_⟩
  show routedReplies s.gate p = routedReplies { s.gate with route := route } p
  rw [routedReplies, routedReplies, hrouted]

theorem Accounted.submit (hinv : Accounted s) {sequence : Nat} {outcome : ParseOutcome} {content : Content}
    (hcontent : ⟨sequence, content⟩ ∈ s.incoming)
    (h : GateState.step (.submit sequence (parseAndClassify s.jsonHandler outcome content).1 false) s.gate =
      some gate) (errors : List (Nat × LsResponseError)) :
    Accounted { s with gate := gate, errors := errors } := by
  have hreach := hinv.reach h
  obtain ⟨route, hroute, rfl⟩ := GateState.step_routing rfl h
  have hread : ReadAs s.gate.concurrentNotifications s.incoming sequence
      (parseAndClassify s.jsonHandler outcome content).1 :=
    ⟨content, hcontent, owesReply_parseAndClassify (hinv.fed.ids _ hcontent)⟩
  have hrouted : route.routed = s.gate.route.routed :=
    RouteState.step_routed (a := .submit sequence (parseAndClassify s.jsonHandler outcome content).1 false) nofun hroute
  refine ⟨hreach, hinv.fed.submit hread hroute, hinv.written, fun p => (hinv.balanced p).trans ?_⟩
  show routedReplies s.gate p = routedReplies { s.gate with route := route } p
  rw [routedReplies, routedReplies, hrouted]

theorem Accounted.route (hinv : Accounted s) {item : SequencedParsedMessage} {rest : List SequencedParsedMessage}
    (hready : s.gate.route.ready = some (item :: rest)) (h : GateState.step .route s.gate = some gate) :
    Accounted ({ s with gate := gate }.reply item) := by
  obtain ⟨hroute, hrouted, hconcurrent, hholding⟩ := GateState.step_route_unlimited
    (GateState.gated_of_reachable hinv.reached).running hinv.fed.unlimited hready h
  obtain ⟨hgate, hincoming, hwritten, hadds⟩ := adds_reply { s with gate := gate } item
  refine ⟨hgate ▸ hinv.reach h, ?_, hwritten hinv.written, fun p => ?_⟩
  · rw [hgate, hincoming]
    show Fed gate.concurrentNotifications s.incoming gate.route
    rw [hconcurrent]
    exact hinv.fed.routeNext hroute
  · replace hadds := hadds p
    have hbefore := s.replies_gate gate p
    have hafter : routedReplies gate p = routedReplies s.gate p +
        if (routeTarget gate.concurrentNotifications item.parsed).owesReply.any (p item.sequence) then 1 else 0 := by
      rw [routedReplies, hrouted, List.countP_append, List.countP_singleton, hconcurrent]
      rfl
    rw [hholding, hinv.balanced p] at hbefore
    rw [hgate]
    dsimp only at hadds ⊢
    omega

/-- A message or a future is taken out, and the reply that it owes is given or left to a future. -/
theorem Accounted.adds {mid : ReplyState} {sequence : Nat} {id : Option JsonValue} (hadds : Adds mid s' sequence id)
    (hreach : gateSystem.Reachable mid.gate)
    (hfed : Fed mid.gate.concurrentNotifications mid.incoming mid.gate.route)
    (hwritten : mid.outputBad = false → mid.dropped = [])
    (hbalance : ∀ p, mid.replies p + (if id.any (p sequence) then 1 else 0) = routedReplies mid.gate p) :
    Accounted s' := by
  refine ⟨hadds.gate ▸ hreach, ?_, hadds.written hwritten, fun p => ?_⟩
  · rw [hadds.gate, hadds.incoming]
    exact hfed
  · rw [hadds.replies, hadds.gate]
    exact hbalance p

theorem Accounted.handlerEnds (hinv : Accounted s) {item : DispatchItem} {run : HandlerRun}
    (hloop : s.gate.loop = .running item) (h : GateState.step .handlerEnds s.gate = some gate)
    (hmain : { s with gate := gate }.mainLoop item run = some s') : Accounted s' := by
  have hreach := hinv.reach h
  obtain ⟨item', hloop', rfl⟩ := GateState.step_handlerEnds h
  refine .adds (adds_mainLoop hmain) hreach hinv.fed hinv.written fun p => Eq.trans ?_ (hinv.balanced p)
  change _ + (if item.owes p then 1 else 0) = _
  simp only [replies, owed, GateState.holding, hloop, LoopPhase.items, List.countP_singleton, List.countP_nil]
  omega

theorem Accounted.work (hinv : Accounted s) {item : DispatchItem} {rest : List DispatchItem}
    (hpool : s.gate.handlerPool = item :: rest) (h : GateState.step .work s.gate = some gate) :
    Accounted { s with gate := gate, running := item :: s.running } := by
  have hreach := hinv.reach h
  obtain ⟨item', rest', hpool', rfl⟩ := GateState.step_work h
  obtain ⟨rfl, rfl⟩ := List.cons.inj (hpool.symm.trans hpool')
  refine ⟨hreach, hinv.fed, hinv.written, fun p => Eq.trans ?_ (hinv.balanced p)⟩
  simp only [replies, owed, GateState.holding, hpool, List.countP_cons]
  omega

theorem Accounted.finish (hinv : Accounted s) {item : DispatchItem} {run : HandlerRun} (hitem : item ∈ s.running)
    (hmain : { s with running := s.running.erase item }.mainLoop item run = some s') : Accounted s' := by
  refine .adds (adds_mainLoop hmain) hinv.reached hinv.fed hinv.written fun p => ?_
  have hcount : s.running.countP (DispatchItem.owes p) = (s.running.erase item).countP (DispatchItem.owes p) +
      if item.owes p then 1 else 0 := by
    rw [(List.perm_cons_erase hitem).countP_eq, List.countP_cons]
  refine Eq.trans ?_ (hinv.balanced p)
  change _ + (if item.owes p then 1 else 0) = _
  simp only [replies, owed, hcount]
  omega

theorem Accounted.takeCompletion (hinv : Accounted s) {completion : AsyncCompletion} {rest : List AsyncCompletion}
    (hnone : s.completing = none) (hqueue : s.asyncCompletions = completion :: rest) :
    Accounted { s with completing := some completion, asyncCompletions := rest } := by
  refine ⟨hinv.reached, hinv.fed, hinv.written, fun p => Eq.trans ?_ (hinv.balanced p)⟩
  simp only [replies, owed, hnone, hqueue, List.countP_append, List.countP_cons, Option.toList_some,
    Option.toList_none, List.countP_nil]
  omega

/-- The reply of the future that the loop is at is given, or left to it. -/
theorem Accounted.poll (hinv : Accounted s) {completion : AsyncCompletion} (hsome : s.completing = some completion)
    (hadds : Adds { s with completing := none } s' completion.sequence (some completion.id.reflectWriter)) :
    Accounted s' := by
  refine .adds hadds hinv.reached hinv.fed hinv.written fun p => Eq.trans ?_ (hinv.balanced p)
  simp only [replies, owed, hsome, List.countP_append, List.countP_singleton, Option.toList_some, Option.toList_none,
    List.countP_nil, Option.any_some]
  omega

theorem Accounted.step {a : ReplyAction} (hinv : Accounted s) (hids : ReadsRequestIds a s)
    (h : step a s = some s') : Accounted s' := by
  cases a with
  | read content =>
      obtain ⟨gate, hgate, rfl⟩ := step_read h
      exact hinv.read hids hgate
  | parse sequence outcome =>
      obtain ⟨content, gate, errors, hcontent, hgate, rfl⟩ := step_parse h
      exact hinv.submit hcontent hgate errors
  | route =>
      obtain ⟨item, rest, gate, hready, hgate, rfl⟩ := step_route h
      exact hinv.route hready hgate
  | dispatch a =>
      obtain ⟨hmoves, gate, hgate, rfl⟩ := step_dispatch h
      exact hinv.moves hmoves hgate
  | handlerEnds run =>
      obtain ⟨item, gate, hloop, hgate, hmain⟩ := step_handlerEnds h
      exact hinv.handlerEnds hloop hgate hmain
  | work =>
      obtain ⟨item, rest, gate, hpool, hgate, rfl⟩ := step_work h
      exact hinv.work hpool hgate
  | finish item run =>
      obtain ⟨hitem, hmain⟩ := step_finish h
      exact hinv.finish hitem hmain
  | takeCompletion =>
      obtain ⟨completion, rest, hnone, hqueue, rfl⟩ := step_takeCompletion h
      exact hinv.takeCompletion hnone hqueue
  | pollUnready =>
      obtain ⟨completion, hsome, rfl⟩ := step_pollUnready h
      exact hinv.poll hsome (adds_postAsyncCompletion { s with completing := none } completion)
  | pollReady outcome =>
      obtain ⟨completion, hsome, rfl⟩ := step_pollReady h
      exact hinv.poll hsome (adds_sendSessionMessage _ _ _ _)
  | outputFails =>
      obtain rfl := Option.some.inj h
      exact { hinv with written := nofun }

end Step

theorem accounted_of_reachable {s : ReplyState} (hs : replySystem.ReachableIf ReadsRequestIds s) : Accounted s :=
  hs.invariant Accounted (fun _ => accounted_init) fun _ _ _ hinv hids h => hinv.step hids h

/-! ### What the balance says about the frames -/

section Frames

variable {s : ReplyState}

theorem Accounted.ordered (hinv : Accounted s) : s.gate.route.Ordered :=
  RouteState.reachable_ordered (GateState.reachable_route hinv.reached)

/-- The messages that were routed, by their numbers. -/
theorem Accounted.routed_nodup (hinv : Accounted s) :
    (s.gate.route.routed.map SequencedParsedMessage.sequence).Nodup := by
  have hdispatched : (s.gate.route.dispatched.map SequencedParsedMessage.sequence).Nodup := by
    rw [hinv.ordered.dispatched_eq]
    exact List.nodup_range'
  rw [RouteState.dispatched, List.map_append] at hdispatched
  exact hdispatched.of_append_left

theorem Accounted.content_unique (hinv : Accounted s) {sequence : Nat} {content content' : Content}
    (h : ⟨sequence, content⟩ ∈ s.incoming) (h' : ⟨sequence, content'⟩ ∈ s.incoming) : content = content' := by
  have hnodup : (s.incoming.map Incoming.sequence).Nodup := by
    rw [hinv.fed.sequences]
    exact List.nodup_range'
  exact congrArg Incoming.content (List.inj_on_of_nodup_map hnodup h h' rfl)

theorem Accounted.frames_le (hinv : Accounted s) (p : Nat → JsonValue → Bool) :
    (s.frames.countP fun frame => p frame.sequence frame.id) ≤ routedReplies s.gate p := by
  rw [← hinv.balanced p, replies, List.countP_append]
  omega

/-- A frame answers a request that was read, under its id. -/
theorem Accounted.frame_source (hinv : Accounted s) {frame : ResponseFrame} (hframe : frame ∈ s.frames) :
    ∃ content, ⟨frame.sequence, content⟩ ∈ s.incoming ∧ content.requestId = some frame.id := by
  have hpos : 0 < s.frames.countP fun f => f.sequence = frame.sequence ∧ f.id = frame.id :=
    List.countP_pos_iff.mpr ⟨frame, hframe, by simp⟩
  have hle := hinv.frames_le fun n id => n = frame.sequence ∧ id = frame.id
  obtain ⟨item, hitem, howes⟩ := List.countP_pos_iff.mp (Nat.lt_of_lt_of_le hpos hle)
  obtain ⟨id, hid, hmatch⟩ := (Option.any_eq_true _ _).mp howes
  obtain ⟨hsequence, rfl⟩ := of_decide_eq_true hmatch
  obtain ⟨content, hcontent, hrequest⟩ := hinv.fed.dispatched item (List.mem_append_left _ hitem)
  exact ⟨content, hsequence ▸ hcontent, hrequest.symm.trans hid⟩

/-- A message is routed once, so it leads to one reply at most. -/
theorem Accounted.routedReplies_le (hinv : Accounted s) (sequence : Nat) :
    routedReplies s.gate (fun n _ => n = sequence) ≤ 1 := by
  calc routedReplies s.gate (fun n _ => n = sequence)
      ≤ s.gate.route.routed.countP fun item => item.sequence == sequence := by
        apply List.countP_mono_left
        intro item _ howes
        obtain ⟨_, _, hmatch⟩ := (Option.any_eq_true _ _).mp howes
        exact beq_iff_eq.mpr (of_decide_eq_true hmatch)
    _ = (s.gate.route.routed.map SequencedParsedMessage.sequence).count sequence := by
        rw [List.count, List.countP_map]
        rfl
    _ ≤ 1 := List.nodup_iff_count_le_one.mp hinv.routed_nodup sequence

/-- When no parse task is left and nothing is ready, every message that was read has been routed. -/
theorem Accounted.routed_of_read (hinv : Accounted s) (hflight : s.gate.route.inFlight = [])
    (hready : s.gate.route.ready = none) {message : Incoming} (hmessage : message ∈ s.incoming) :
    ∃ item ∈ s.gate.route.routed, item.sequence = message.sequence := by
  have hordered := hinv.ordered
  have hsubmitted : ∀ k, s.gate.route.start ≤ k → k < s.gate.route.nextMessageSequence →
      (s.gate.route.start ≤ k ∧ k < s.gate.route.reorder.nextRouteSequence) ∨
        k ∈ s.gate.route.reorder.reorderBuffer := by
    intro k hle hlt
    refine (hordered.submitted_iff k).mp ?_
    rcases hinv.fed.covered k hle hlt with hk | hk
    · rw [hflight] at hk
      cases hk
    · exact hk
  have hrange : message.sequence ∈ List.range' s.gate.route.start
      (s.gate.route.nextMessageSequence - s.gate.route.start) := by
    rw [← hinv.fed.sequences]
    exact List.mem_map_of_mem hmessage
  obtain ⟨hle, hlt⟩ := List.mem_range'_1.mp hrange
  have hstart := hordered.start_le
  have hrouted : message.sequence < s.gate.route.reorder.nextRouteSequence := by
    by_contra hge
    rcases hsubmitted s.gate.route.reorder.nextRouteSequence hstart (by omega) with h | h
    · exact Nat.lt_irrefl _ h.2
    · exact Nat.lt_irrefl _ (hordered.keys _ h)
  have hmem : message.sequence ∈ s.gate.route.dispatched.map SequencedParsedMessage.sequence := by
    rw [hordered.dispatched_eq]
    exact List.mem_range'_1.mpr ⟨hle, by omega⟩
  rw [RouteState.dispatched, hready, Option.getD_none, List.append_nil] at hmem
  exact List.mem_map.mp hmem

end Frames

/-- No task is queued, parked or running, and none waits for a future. -/
structure Quiet (s : ReplyState) : Prop where
  inFlight : s.gate.route.inFlight = []
  ready : s.gate.route.ready = none
  posting : s.gate.posting = none
  notificationQueue : s.gate.dispatcher.notificationQueue = []
  parkedRequests : s.gate.dispatcher.parkedRequests = []
  loop : s.gate.loop = .waiting
  handlerPool : s.gate.handlerPool = []
  running : s.running = []
  asyncCompletions : s.asyncCompletions = []
  completing : s.completing = none

theorem Quiet.owed {s : ReplyState} (h : Quiet s) (p : Nat → JsonValue → Bool) : s.owed p = 0 := by
  simp only [ReplyState.owed, GateState.holding, h.posting, h.notificationQueue, h.parkedRequests, h.loop,
    h.handlerPool, h.running, h.asyncCompletions, h.completing, LoopPhase.items, Option.toList_none, List.map_nil,
    List.append_nil, List.countP_nil]

/-- The response frames that a message has caused. -/
def responses (s : ReplyState) (sequence : Nat) : List ResponseFrame :=
  s.frames.filter fun frame => frame.sequence = sequence

/-- A request has caused at most one response frame, which carries its id, and exactly one when the session is quiet,
unless the stream has gone bad; nothing else that was read has caused one, and there are no other response frames. -/
structure OneResponse (s : ReplyState) : Prop where
  atMostOne : ∀ message ∈ s.incoming, (s.responses message.sequence).length ≤ 1
  ownId : ∀ message ∈ s.incoming, ∀ frame ∈ s.responses message.sequence,
    message.content.requestId = some frame.id
  exactlyOne : s.Quiet → s.outputBad = false → ∀ message ∈ s.incoming, message.content.requestId ≠ none →
    (s.responses message.sequence).length = 1
  otherwiseNone : ∀ message ∈ s.incoming, message.content.requestId = none → s.responses message.sequence = []
  caused : ∀ frame ∈ s.frames, ∃ message ∈ s.incoming, frame ∈ s.responses message.sequence

theorem length_responses (s : ReplyState) (sequence : Nat) :
    (s.responses sequence).length = s.frames.countP fun frame => frame.sequence = sequence := by
  rw [responses, List.countP_eq_length_filter]

/-- **Exactly one response per request**, whatever the parsers, the handlers and their futures do and however the
threads are interleaved. -/
theorem oneResponse_of_reachable (s : ReplyState) (hs : replySystem.ReachableIf ReadsRequestIds s) :
    OneResponse s := by
  have hinv := accounted_of_reachable hs
  have hmost : ∀ message ∈ s.incoming, (s.responses message.sequence).length ≤ 1 := by
    intro message _
    rw [length_responses]
    exact Nat.le_trans (hinv.frames_le fun n _ => n = message.sequence) (hinv.routedReplies_le message.sequence)
  have hown : ∀ message ∈ s.incoming, ∀ frame ∈ s.responses message.sequence,
      message.content.requestId = some frame.id := by
    intro message hmessage frame hframe
    obtain ⟨hframe, hsequence⟩ := List.mem_filter.mp hframe
    obtain ⟨content, hcontent, hid⟩ := hinv.frame_source hframe
    rw [of_decide_eq_true hsequence] at hcontent
    rw [hinv.content_unique hmessage hcontent, hid]
  refine ⟨hmost, hown, fun hquiet hgood message hmessage hrequest => ?_, fun message hmessage hnone => ?_,
    fun frame hframe => ?_⟩
  · refine Nat.le_antisymm (hmost message hmessage) ?_
    obtain ⟨item, hitem, hsequence⟩ := hinv.routed_of_read hquiet.inFlight hquiet.ready hmessage
    obtain ⟨content, hcontent, howes⟩ := hinv.fed.dispatched item (List.mem_append_left _ hitem)
    rw [hsequence] at hcontent
    obtain ⟨id, hid⟩ := Option.ne_none_iff_exists'.mp hrequest
    rw [← hinv.content_unique hmessage hcontent, hid] at howes
    have hpos : 0 < routedReplies s.gate fun n _ => n = message.sequence := by
      refine List.countP_pos_iff.mpr ⟨item, hitem, ?_⟩
      rw [howes]
      exact decide_eq_true hsequence
    rw [← hinv.balanced, replies, hquiet.owed, hinv.written hgood, List.append_nil, Nat.zero_add] at hpos
    rw [length_responses]
    exact hpos
  · refine List.eq_nil_iff_forall_not_mem.mpr fun frame hframe => ?_
    have hsome := hown message hmessage frame hframe
    rw [hnone] at hsome
    cases hsome
  · obtain ⟨content, hcontent, _⟩ := hinv.frame_source hframe
    exact ⟨_, hcontent, List.mem_filter.mpr ⟨hframe, decide_eq_true rfl⟩⟩

/-- A notification (0), a request that is parked behind it and whose handler throws (1), one without a parser that is
parsed before it (2), one whose future is not ready at once (3), and a response (4). -/
def answeredRun : List ReplyAction :=
  [.read (.object [("jsonrpc", .string "2.0"), ("method", .string "didOpen")]),
    .read (.object [("jsonrpc", .string "2.0"), ("id", .integer 1), ("method", .string "hover")]),
    .read (.object [("jsonrpc", .string "2.0"), ("id", .string "a"), ("method", .string "eval")]),
    .read (.object [("jsonrpc", .string "2.0"), ("id", .integer (-7)), ("method", .string "lint")]),
    .read (.object [("jsonrpc", .string "2.0"), ("id", .integer 1), ("result", .null)]),
    .parse 0 {}, .route, .dispatch .release, .parse 2 {}, .dispatch .release, .parse 1 {}, .route, .route,
    .dispatch .release, .dispatch .take, .handlerEnds (.ended (.returned .result)), .dispatch .complete,
    .dispatch .postParked, .dispatch .wait, .work,
    .finish ⟨1, ⟨.request, "hover", .kInt 1⟩, 0⟩ (.ended (.threw .unknown)), .parse 3 {}, .route, .dispatch .postNow,
    .dispatch .release, .work, .finish ⟨3, ⟨.request, "lint", .kInt (-7)⟩, 0⟩ .future, .takeCompletion, .pollUnready,
    .takeCompletion, .pollReady (.returned .result), .parse 4 {}, .route, .dispatch .release]

/-- The parsers and handlers that are registered for the run. -/
def answeredStart : ReplyState :=
  { jsonHandler := { method2request := ["hover", "lint"], method2notification := ["didOpen"] }
    method2request := [("hover", .sync), ("lint", .async)] }

theorem oneResponse_of_reachable_answeredRun :
    ∃ s, replySystem.runIf ReadsRequestIds answeredRun answeredStart = some s ∧
      s.frames.map (fun frame => (frame.sequence, frame.id)) = [(2, .string "a"), (1, .integer 1), (3, .integer (-7))] ∧
      s.Quiet ∧ OneResponse s := by
  obtain ⟨s, hrun, hframes, hquiet⟩ : ∃ s, replySystem.runIf ReadsRequestIds answeredRun answeredStart = some s ∧
      s.frames.map (fun frame => (frame.sequence, frame.id)) =
        [(2, .string "a"), (1, .integer 1), (3, .integer (-7))] ∧ s.Quiet :=
    ⟨_, rfl, rfl, ⟨rfl, rfl, rfl, rfl, rfl, rfl, rfl, rfl, rfl, rfl⟩⟩
  have hinit : replySystem.init answeredStart :=
    ⟨{}, answeredStart.jsonHandler, answeredStart.method2request, ⟨{}, [], 0, {}, ⟨{}, 0, {}, rfl⟩, rfl⟩, rfl, rfl⟩
  exact ⟨s, hrun, hframes, hquiet,
    oneResponse_of_reachable s (Transition.System.reachableIf_of_runIf answeredRun (.init hinit) hrun)⟩

end ReplyState

end LspCpp

import LspCpp.PendingUnderway
import LspCpp.RpcAgreement

/-! That no answer is lost. When everything that was written has been read, and nobody has anything left to do, each
request that was written, sent and not withdrawn has been completed with the answer of the other endpoint. -/

namespace LspCpp

/-- When a session is quiet and its stream is good, a request that it has read has been answered. -/
theorem ReplyState.Accounted.frame_of_quiet {s : ReplyState} (h : s.Accounted) (hquiet : s.Quiet)
    (hgood : s.outputBad = false) {message : Incoming} (hmessage : message ∈ s.incoming) {id : JsonValue}
    (hid : message.content.requestId = some id) :
    ∃ frame ∈ s.frames, frame.sequence = message.sequence ∧ frame.id = id := by
  obtain ⟨item, hitem, hsequence⟩ := h.routed_of_read hquiet.inFlight hquiet.ready hmessage
  obtain ⟨content, hcontent, howes⟩ := h.fed.dispatched item (List.mem_append_left _ hitem)
  rw [hsequence] at hcontent
  rw [← h.content_unique hmessage hcontent, hid] at howes
  have hpos : 0 < routedReplies s.gate fun n k => n = message.sequence ∧ k = id := by
    apply List.countP_pos_iff.mpr
    refine ⟨item, hitem, ?_⟩
    rw [howes]
    exact decide_eq_true ⟨hsequence, rfl⟩
  rw [← h.balanced, replies, hquiet.owed, h.written hgood, List.append_nil, Nat.zero_add] at hpos
  obtain ⟨frame, hframe, hmatch⟩ := List.countP_pos_iff.mp hpos
  exact ⟨frame, hframe, of_decide_eq_true hmatch⟩

namespace RpcState

variable {s s' : RpcState}

/-- The client uses no id twice and is not stopped. -/
def Unstopped (a : RpcAction) (s : RpcState) : Prop := FreshIds a s ∧ a ≠ .client .stop

instance (a : RpcAction) (s : RpcState) : Decidable (Unstopped a s) := inferInstanceAs (Decidable (_ ∧ _))

theorem reachable_freshIds (hs : rpcSystem.ReachableIf Unstopped s) : rpcSystem.ReachableIf FreshIds s :=
  hs.mono fun _ _ hok => hok.1

theorem reachable_unstopped (hs : rpcSystem.ReachableIf Unstopped s) :
    pendingSystem.ReachableIf PendingState.Unstopped s.client := by
  apply hs.project RpcState.client
  · intro s hinit
    obtain ⟨client, server, hclient, -, rfl⟩ := hinit
    exact hclient
  · intro a s s' _ hok hstep
    cases a with
    | client a =>
        obtain ⟨-, client, hclient, rfl⟩ := step_client hstep
        exact .inr ⟨a, ⟨hok.1, fun heq => hok.2 (congrArg RpcAction.client heq)⟩, hclient⟩
    | write method =>
        obtain ⟨_, _, -, -, -, rfl⟩ := step_write hstep
        exact .inl rfl
    | writeOther content =>
        obtain ⟨-, rfl⟩ := step_writeOther hstep
        exact .inl rfl
    | read =>
        obtain ⟨_, _, -, -, rfl⟩ := step_read hstep
        exact .inl rfl
    | server a =>
        obtain ⟨-, _, -, rfl⟩ := step_server hstep
        exact .inl rfl
    | receive place =>
        obtain ⟨-, id, hclient⟩ := client_of_receive hstep
        exact .inr ⟨.receive id, ⟨trivial, fun heq => by cases heq⟩, hclient⟩
    | parsed t =>
        obtain ⟨r, client, -, hclient, rfl⟩ := step_parsed hstep
        exact .inr ⟨.parsed t r.id, ⟨trivial, fun heq => by cases heq⟩, hclient⟩

/-- A frame that the client has looked up is on its way to its request for as long as that is pending. -/
def Answering (s : RpcState) : Prop :=
  ∀ place ∈ s.received, ∀ frame, s.server.frames[place]? = some frame → ∀ o,
    s.client.table.getRequestInfo (.reflectReader frame.id) = some o → s.client.Underway (.reflectReader frame.id)

/-- Frames that are written are not yet looked up. -/
theorem Answering.frames (h : s.Answering) (htraced : s.Traced) {server : ReplyState}
    (hframes : s.server.frames <+: server.frames) : Answering { s with server := server } := by
  intro place hplace frame hframe
  obtain ⟨more, hmore⟩ := hframes
  replace hframe : server.frames[place]? = some frame := hframe
  rw [← hmore, List.getElem?_append_left (htraced.bound place hplace)] at hframe
  exact h place hplace frame hframe

/-- A registration puts no id into the table under which a frame has been written. -/
theorem entry_of_register (hs : rpcSystem.ReachableIf FreshIds s) {client : PendingState}
    (hfresh : PendingState.FreshId .sendRegister s.client)
    (hstep : PendingState.step .sendRegister s.client = some client)
    {frame : ResponseFrame} (hframe : frame ∈ s.server.frames) {o : Nat}
    (hentry : client.table.getRequestInfo (.reflectReader frame.id) = some o) :
    s.client.table.getRequestInfo (.reflectReader frame.id) = some o := by
  obtain ⟨id, deferred, hsending, rfl | ⟨table, accepted, hreg, rfl⟩⟩ := PendingState.step_sendRegister hstep
  · exact hentry
  · obtain ⟨-, htable⟩ := PendingTable.pendingRequest_eq_some hreg
    replace hentry : table.getRequestInfo (.reflectReader frame.id) = some o := hentry
    rw [htable, if_neg] at hentry
    · exact hentry
    · intro heq
      obtain ⟨o', info, _, hinfo, hid, -⟩ := request_of_frame hs hframe
      have hbound := (PendingState.reachable_keyed (reachable_client hs)).bound o' info hinfo
      exact hfresh id (by rw [hsending]; rfl) (table, accepted) hreg o' hbound info hinfo (by rw [hid, heq])

theorem Answering.client (h : s.Answering) (hs : rpcSystem.ReachableIf Unstopped s) {a : PendingAction}
    {client : PendingState} (hfresh : PendingState.FreshId a s.client) (ha : a ≠ .stop)
    (hparsed : ∀ t msgId, a = .parsed t msgId → ∀ r, s.client.responses t = some r → msgId = r.id)
    (hstep : PendingState.step a s.client = some client) : Answering { s with client := client } := by
  intro place hplace frame hframe o hentry'
  have hentry : s.client.table.getRequestInfo (.reflectReader frame.id) = some o := by
    by_cases hregister : a = .sendRegister
    · subst hregister
      exact entry_of_register (reachable_freshIds hs) hfresh hstep (List.mem_of_getElem? hframe) hentry'
    · exact (PendingState.shrinks_of_step hregister hstep).table _ o hentry'
  have hunstopped := reachable_unstopped hs
  have hkeyed := PendingState.reachable_keyed (reachable_client (reachable_freshIds hs))
  exact (h place hplace frame hframe o hentry).step hkeyed (PendingState.reachable_locked hunstopped)
    (PendingState.reachable_running hunstopped) ha hparsed hentry hentry' hstep

theorem Answering.step {a : RpcAction} (h : s.Answering) (hs : rpcSystem.ReachableIf Unstopped s) (hok : Unstopped a s)
    (hstep : step a s = some s') : s'.Answering := by
  have htraced := traced hs
  cases a with
  | client a =>
      obtain ⟨hown, client, hclient, rfl⟩ := step_client hstep
      refine h.client hs hok.1 (fun heq => hok.2 (congrArg RpcAction.client heq)) (fun t msgId heq => ?_) hclient
      rw [heq] at hown
      cases hown
  | write method =>
      obtain ⟨_, _, -, -, -, rfl⟩ := step_write hstep
      exact h
  | writeOther content =>
      obtain ⟨-, rfl⟩ := step_writeOther hstep
      exact h
  | read =>
      obtain ⟨_, _, -, hserver, rfl⟩ := step_read hstep
      exact h.frames htraced (ReplyState.frames_step hserver).1
  | server a =>
      obtain ⟨-, _, hserver, rfl⟩ := step_server hstep
      exact h.frames htraced (ReplyState.frames_step hserver).1
  | receive place =>
      obtain ⟨frame, -, hframe, hcases⟩ := step_receive hstep
      obtain ⟨hnone, rfl⟩ | ⟨holder, -, rfl⟩ := hcases
      · intro place' hplace' frame' hframe' o hentry
        rcases List.mem_append.mp hplace' with hold | hnew
        · exact h place' hold frame' hframe' o hentry
        · rw [List.mem_singleton.mp hnew] at hframe'
          rw [Option.some.inj (hframe'.symm.trans hframe)] at hentry
          cases hnone.symm.trans hentry
      · have hresponses : PendingState.responses
            { s.client.setPhase s.client.nextResponse ⟨.reflectReader frame.id, holder, .parsing⟩ .parsing with
              nextResponse := s.client.nextResponse + 1 } =
            (s.client.setPhase s.client.nextResponse ⟨.reflectReader frame.id, holder, .parsing⟩ .parsing).responses :=
            rfl
        have hlocked := PendingState.reachable_locked (reachable_unstopped hs)
        obtain ⟨hreceived, hkept⟩ := PendingState.underway_receive hlocked _ holder hresponses
        intro place' hplace' frame' hframe' o hentry
        rcases List.mem_append.mp hplace' with hold | hnew
        · exact hkept _ (h place' hold frame' hframe' o hentry)
        · rw [List.mem_singleton.mp hnew] at hframe'
          rw [Option.some.inj (hframe'.symm.trans hframe)]
          exact hreceived
  | parsed t =>
      obtain ⟨r, client, hr, hclient, rfl⟩ := step_parsed hstep
      refine h.client (a := .parsed t r.id) hs trivial (fun heq => by cases heq) (fun t' msgId heq r' hr' => ?_) hclient
      cases heq
      rw [Option.some.inj (hr.symm.trans hr')]

theorem answering (hs : rpcSystem.ReachableIf Unstopped s) : s.Answering := by
  induction hs with
  | init hinit =>
      obtain ⟨client, server, -, ⟨gate, jsonHandler, method2request, -, -, rfl⟩, rfl⟩ := hinit
      intro place hplace
      cases hplace
  | step hs hok hstep ih => exact ih.step hs hok hstep

/-- Everything that was written has been read, and each frame looked up, and neither side has anything left to do. -/
structure Settled (s : RpcState) : Prop where
  read : s.server.incoming.length = s.written.length
  quiet : s.server.Quiet
  received : ∀ place < s.server.frames.length, place ∈ s.received
  responses : ∀ t r, s.client.responses t = some r → r.phase = .done
  queued : s.client.poolQueue = []
  running : s.client.poolRunning = []

/-- A request that was written has been answered in a frame that was looked up. -/
theorem Settled.frame (h : s.Settled) (hs : rpcSystem.ReachableIf FreshIds s) (hgood : s.server.outputBad = false)
    {o : Nat} {info : PendingRequestInfo} (hinfo : s.client.infos o = some info)
    (hwritten : some o ∈ s.written.map Prod.fst) :
    ∃ place ∈ s.received, ∃ frame, s.server.frames[place]? = some frame ∧
      LsRequestId.reflectReader frame.id = info.id := by
  obtain ⟨⟨tag, content⟩, hmem, rfl⟩ := List.mem_map.mp hwritten
  obtain ⟨info', hinfo', hcontent⟩ := (reachable_written hs).requests o content hmem
  obtain rfl := Option.some.inj (hinfo.symm.trans hinfo')
  have hread : content ∈ s.server.incoming.map Incoming.content := by
    rw [(reachable_written hs).read, h.read, List.take_length]
    exact List.mem_map_of_mem hmem
  obtain ⟨message, hmessage, rfl⟩ := List.mem_map.mp hread
  obtain ⟨frame, hframe, -, hid⟩ :=
    (ReplyState.accounted_of_reachable (reachable_server hs)).frame_of_quiet h.quiet hgood hmessage hcontent
  obtain ⟨place, hlt, hget⟩ := List.mem_iff_getElem.mp hframe
  refine ⟨place, h.received place hlt, frame, List.getElem?_eq_some_iff.mpr ⟨hlt, hget⟩, ?_⟩
  rw [hid]
  exact ((PendingState.reachable_keyed (reachable_client hs)).written o info hinfo).reflectReader

/-- The request is no longer pending, so it is completed. -/
theorem Settled.completed (h : s.Settled) (hs : rpcSystem.ReachableIf Unstopped s) (hgood : s.server.outputBad = false)
    {o : Nat} {info : PendingRequestInfo} (hinfo : s.client.infos o = some info) (hsent : info.sent = true)
    (hwithdrawn : info.withdrawn = false) (hwritten : some o ∈ s.written.map Prod.fst) : info.completed = true := by
  have hunstopped := reachable_unstopped hs
  cases (PendingState.reachable_accounted hunstopped).covered o info hinfo hwithdrawn (.inl hsent) with
  | table hentry =>
      obtain ⟨place, hplace, frame, hframe, hid⟩ := h.frame (reachable_freshIds hs) hgood hinfo hwritten
      rw [← hid] at hentry
      obtain ⟨t, r, hr, -, hunderway⟩ := answering hs place hplace frame hframe o hentry
      exact absurd (h.responses t r hr) hunderway.ne_done
  | response t r hr howed =>
      rw [h.responses t r hr] at howed
      cases howed
  | task c hc hrequest =>
      rw [h.queued, h.running] at hc
      cases hc
  | failing rest hphase hmem => cases hphase.symm.trans (PendingState.reachable_running hunstopped).stopPhase
  | completed hcompleted => exact hcompleted

end RpcState

end LspCpp

import LspCpp.RpcSystem

/-! What a response means to the endpoint that sent the request: each one that completes a request is the answer of the
other endpoint to that very request. -/

namespace LspCpp

namespace ReplyState

variable {s s' : ReplyState}

theorem frames_sendSessionMessage (s : ReplyState) (sequence : Nat) (id : LsRequestId) (body : ReplyBody) :
    s.frames <+: (s.sendSessionMessage sequence id body).frames ∧
      (s.sendSessionMessage sequence id body).incoming = s.incoming := by
  obtain ⟨-, heq⟩ | ⟨-, heq⟩ := s.sendSessionMessage_cases sequence id body
  · rw [heq]
    exact ⟨List.prefix_refl _, rfl⟩
  · rw [heq]
    exact ⟨List.prefix_append _ _, rfl⟩

theorem frames_mainLoop {item : DispatchItem} {run : HandlerRun} (h : s.mainLoop item run = some s') :
    s.frames <+: s'.frames ∧ s'.incoming = s.incoming := by
  rcases mainLoop_eq_some h with ⟨-, rfl⟩ | ⟨-, ⟨body, rfl⟩ | rfl⟩
  · exact ⟨List.prefix_refl _, rfl⟩
  · exact s.frames_sendSessionMessage _ _ _
  · exact ⟨List.prefix_refl _, rfl⟩

theorem frames_reply (s : ReplyState) (item : SequencedParsedMessage) :
    s.frames <+: (s.reply item).frames ∧ (s.reply item).incoming = s.incoming := by
  rw [reply]
  split
  · exact s.frames_sendSessionMessage _ _ _
  · exact ⟨List.prefix_refl _, rfl⟩

/-- Frames are written behind those that were, and only a read adds to what was read. -/
theorem frames_step {a : ReplyAction} (h : step a s = some s') :
    s.frames <+: s'.frames ∧ (a.isOwn = true → s'.incoming = s.incoming) := by
  cases a with
  | read content =>
      obtain ⟨gate, -, rfl⟩ := step_read h
      exact ⟨List.prefix_refl _, fun hown => nomatch hown⟩
  | parse sequence outcome =>
      obtain ⟨content, gate, errors, -, -, rfl⟩ := step_parse h
      exact ⟨List.prefix_refl _, fun _ => rfl⟩
  | route =>
      obtain ⟨item, rest, gate, -, -, rfl⟩ := step_route h
      obtain ⟨hframes, hincoming⟩ := frames_reply { s with gate := gate } item
      exact ⟨hframes, fun _ => hincoming⟩
  | dispatch a =>
      obtain ⟨-, gate, -, rfl⟩ := step_dispatch h
      exact ⟨List.prefix_refl _, fun _ => rfl⟩
  | handlerEnds run =>
      obtain ⟨item, gate, -, -, hloop⟩ := step_handlerEnds h
      obtain ⟨hframes, hincoming⟩ := frames_mainLoop hloop
      exact ⟨hframes, fun _ => hincoming⟩
  | work =>
      obtain ⟨item, rest, gate, -, -, rfl⟩ := step_work h
      exact ⟨List.prefix_refl _, fun _ => rfl⟩
  | finish item run =>
      obtain ⟨-, hloop⟩ := step_finish h
      obtain ⟨hframes, hincoming⟩ := frames_mainLoop hloop
      exact ⟨hframes, fun _ => hincoming⟩
  | takeCompletion =>
      obtain ⟨completion, rest, -, -, rfl⟩ := step_takeCompletion h
      exact ⟨List.prefix_refl _, fun _ => rfl⟩
  | pollUnready =>
      obtain ⟨completion, -, rfl⟩ := step_pollUnready h
      exact ⟨List.prefix_refl _, fun _ => rfl⟩
  | pollReady outcome =>
      obtain ⟨completion, -, rfl⟩ := step_pollReady h
      obtain ⟨hframes, hincoming⟩ := frames_sendSessionMessage { s with completing := none } completion.sequence
        completion.id outcome.body
      exact ⟨hframes, fun _ => hincoming⟩
  | outputFails =>
      obtain rfl := Option.some.inj h
      exact ⟨List.prefix_refl _, fun _ => rfl⟩

theorem readsRequestIds_of_isOwn {a : ReplyAction} (ha : a.isOwn = true) (s : ReplyState) : ReadsRequestIds a s := by
  cases a with
  | read content => cases ha
  | _ => trivial

/-- The messages that were read have their places among the sequence numbers. -/
theorem Accounted.getElem?_of_mem (h : Accounted s) {message : Incoming} (hmessage : message ∈ s.incoming) :
    s.incoming[message.sequence - s.gate.route.start]? = some message := by
  obtain ⟨i, hi, hget⟩ := List.mem_iff_getElem.mp hmessage
  have hsequence : message.sequence = s.gate.route.start + i := by
    have hmap : (s.incoming.map Incoming.sequence)[i]? = some message.sequence := by
      rw [List.getElem?_map, List.getElem?_eq_getElem hi, hget]
      rfl
    have hlength := congrArg List.length h.fed.sequences
    rw [List.length_map, List.length_range'] at hlength
    rw [h.fed.sequences, List.getElem?_range' (by omega)] at hmap
    have := Option.some.inj hmap
    omega
  rw [hsequence, Nat.add_sub_cancel_left, List.getElem?_eq_getElem hi, hget]

end ReplyState

theorem requestId_requestContent (id : LsRequestId) (method : String) :
    (requestContent id method).requestId = some id.reflectWriter := by
  rw [requestContent, Content.requestId, if_pos]
  · rfl
  · rfl

namespace RpcState

variable {s s' : RpcState}

/-- What the client has written, and what the server has read of it. -/
structure Written (s : RpcState) : Prop where
  requests : ∀ o content, (some o, content) ∈ s.written →
    ∃ info, s.client.infos o = some info ∧ content.requestId = some info.id.reflectWriter
  others : ∀ content, (none, content) ∈ s.written → content.requestId = none
  read : s.server.incoming.map Incoming.content = (s.written.take s.server.incoming.length).map Prod.snd

/-- Steps that write nothing. -/
theorem Written.keep (h : s.Written) (hwritten : s'.written = s.written)
    (hclient : ∀ o info, s.client.infos o = some info → ∃ info', s'.client.infos o = some info' ∧ info'.id = info.id)
    (hserver : s'.server.incoming = s.server.incoming) : s'.Written where
  requests o content hmem := by
    rw [hwritten] at hmem
    obtain ⟨info, hinfo, hid⟩ := h.requests o content hmem
    obtain ⟨info', hinfo', hid'⟩ := hclient o info hinfo
    exact ⟨info', hinfo', by rw [hid', hid]⟩
  others content hmem := h.others content (hwritten ▸ hmem)
  read := by rw [hserver, hwritten, h.read]

theorem Written.append (h : s.Written) (entry : Option Nat × Content)
    (hrequest : ∀ o, entry.1 = some o →
      ∃ info, s.client.infos o = some info ∧ entry.2.requestId = some info.id.reflectWriter)
    (hother : entry.1 = none → entry.2.requestId = none) : Written { s with written := s.written ++ [entry] } where
  requests o content hmem := by
    rcases List.mem_append.mp hmem with hold | hnew
    · exact h.requests o content hold
    · rw [List.mem_singleton] at hnew
      subst hnew
      exact hrequest o rfl
  others content hmem := by
    rcases List.mem_append.mp hmem with hold | hnew
    · exact h.others content hold
    · rw [List.mem_singleton] at hnew
      subst hnew
      exact hother rfl
  read := by
    have hlength := congrArg List.length h.read
    rw [List.length_map, List.length_map, List.length_take] at hlength
    show s.server.incoming.map Incoming.content = ((s.written ++ [entry]).take s.server.incoming.length).map Prod.snd
    rw [List.take_append_of_le_length (by omega)]
    exact h.read

/-- Registered requests keep their ids. -/
theorem infos_of_step {a : PendingAction} {client : PendingState} (hkeyed : s.client.Keyed)
    (h : PendingState.step a s.client = some client) (o : Nat) (info : PendingRequestInfo)
    (hinfo : s.client.infos o = some info) : ∃ info', client.infos o = some info' ∧ info'.id = info.id := by
  by_cases hregister : a = .sendRegister
  · subst hregister
    obtain ⟨id, deferred, -, rfl | ⟨table, id', -, rfl⟩⟩ := PendingState.step_sendRegister h
    · exact ⟨info, hinfo, rfl⟩
    · refine ⟨info, ?_, rfl⟩
      show (s.client.setInfo _ _).infos o = some info
      rw [PendingState.setInfo_infos, if_neg (Nat.ne_of_lt (hkeyed.bound o info hinfo)), hinfo]
  by_cases hbegin : ∃ id deferred, a = .sendBegin id deferred
  · obtain ⟨id, deferred, rfl⟩ := hbegin
    obtain ⟨-, ⟨-, rfl⟩ | ⟨-, rfl⟩⟩ := PendingState.step_sendBegin h
    · exact ⟨info, hinfo, rfl⟩
    · exact ⟨info, hinfo, rfl⟩
  · exact (PendingState.keeps_of_step hregister (fun id deferred heq => hbegin ⟨id, deferred, heq⟩) h).infos
      o info hinfo

theorem Written.step {a : RpcAction} (h : s.Written) (hkeyed : s.client.Keyed) (hfresh : FreshIds a s)
    (hstep : step a s = some s') : s'.Written := by
  have hsame : ∀ o info, s.client.infos o = some info → ∃ info', s.client.infos o = some info' ∧ info'.id = info.id :=
    fun o info hinfo => ⟨info, hinfo, rfl⟩
  cases a with
  | client a =>
      obtain ⟨-, client, hclient, rfl⟩ := step_client hstep
      exact h.keep rfl (infos_of_step hkeyed hclient) rfl
  | write method =>
      obtain ⟨o, info, -, -, hinfo, rfl⟩ := step_write hstep
      refine h.append (some o, requestContent info.id method) (fun o' ho' => ?_) (fun hnone => nomatch hnone)
      obtain rfl := Option.some.inj ho'
      exact ⟨info, hinfo, requestId_requestContent info.id method⟩
  | writeOther content =>
      obtain ⟨hnone, rfl⟩ := step_writeOther hstep
      exact h.append (none, content) (fun o ho => nomatch ho) (fun _ => hnone)
  | read =>
      obtain ⟨entry, server, hentry, hserver, rfl⟩ := step_read hstep
      obtain ⟨gate, -, rfl⟩ := ReplyState.step_read hserver
      refine ⟨h.requests, h.others, ?_⟩
      obtain ⟨hlt, hget⟩ := List.getElem?_eq_some_iff.mp hentry
      rw [List.length_append, List.length_singleton, List.map_append, h.read, List.take_succ_eq_append_getElem hlt,
        List.map_append, hget]
      rfl
  | server a =>
      obtain ⟨hown, server, hserver, rfl⟩ := step_server hstep
      exact h.keep rfl hsame ((ReplyState.frames_step hserver).2 hown)
  | receive place =>
      obtain ⟨frame, -, -, ⟨-, rfl⟩ | ⟨o, -, rfl⟩⟩ := step_receive hstep
      · exact h.keep rfl hsame rfl
      · exact h.keep rfl hsame rfl
  | parsed t =>
      obtain ⟨r, client, -, hclient, rfl⟩ := step_parsed hstep
      exact h.keep rfl (infos_of_step hkeyed hclient) rfl

theorem reachable_written (hs : rpcSystem.ReachableIf FreshIds s) : s.Written := by
  refine hs.invariant_of (fun s => s.client.Keyed) Written
    (fun s hs => PendingState.reachable_keyed (reachable_client hs))
    ?_ fun a s s' hkeyed h hfresh hstep => h.step hkeyed hfresh hstep
  intro s hinit
  obtain ⟨client, server, -, ⟨gate, jsonHandler, method2request, -, -, rfl⟩, rfl⟩ := hinit
  constructor
  · intro o content hmem
    cases hmem
  · intro content hmem
    cases hmem
  · rfl

theorem reachable_server (hs : rpcSystem.ReachableIf FreshIds s) :
    replySystem.ReachableIf ReplyState.ReadsRequestIds s.server := by
  apply hs.project RpcState.server
  · intro s hinit
    obtain ⟨client, server, -, hserver, rfl⟩ := hinit
    exact hserver
  · intro a s s' hs _ hstep
    rcases step_ofServer hstep with hsame | ⟨b, hown, hb⟩ | ⟨entry, hentry, hread⟩
    · exact .inl hsame
    · exact .inr ⟨b, ReplyState.readsRequestIds_of_isOwn hown _, hb⟩
    · refine .inr ⟨.read entry.2, fun id hid => ?_, hread⟩
      have hmem := List.mem_of_getElem? hentry
      obtain ⟨tag, content⟩ := entry
      cases tag with
      | none =>
          rw [(reachable_written hs).others content hmem] at hid
          cases hid
      | some o =>
          obtain ⟨info, hinfo, hcontent⟩ := (reachable_written hs).requests o content hmem
          rw [hcontent] at hid
          obtain rfl := Option.some.inj hid
          exact (PendingState.reachable_keyed (reachable_client hs)).written o info hinfo

/-- A message that the server has read is what the client has written at its place. -/
theorem written_of_incoming (hs : rpcSystem.ReachableIf FreshIds s) {message : Incoming}
    (hmessage : message ∈ s.server.incoming) :
    ∃ tag, s.written[message.sequence - s.server.gate.route.start]? = some (tag, message.content) := by
  have hget := (ReplyState.accounted_of_reachable (reachable_server hs)).getElem?_of_mem hmessage
  have hread := congrArg (·[message.sequence - s.server.gate.route.start]?) (reachable_written hs).read
  simp only [List.getElem?_map, hget, Option.map_some] at hread
  obtain ⟨entry, hentry, hcontent⟩ := Option.map_eq_some_iff.mp hread.symm
  refine ⟨entry.1, ?_⟩
  rw [List.getElem?_take] at hentry
  split_ifs at hentry
  rw [hentry, ← hcontent]

/-! ### Where responses come from -/

/-- Every frame is looked up once, and the responses that the client has taken up are frames that were, under the ids of
these. -/
structure Traced (s : RpcState) : Prop where
  length : s.origins.length = s.client.nextResponse
  bound : ∀ place ∈ s.received, place < s.server.frames.length
  once : s.received.Nodup
  frames : ∀ frame ∈ s.origins, frame ∈ s.server.frames
  ids : ∀ t r, s.client.responses t = some r → ∃ frame, s.origins[t]? = some frame ∧ r.id = .reflectReader frame.id

/-- Steps that look up no frame. -/
theorem Traced.keep (h : s.Traced) (horigins : s'.origins = s.origins) (hreceived : s'.received = s.received)
    (hframes : s.server.frames <+: s'.server.frames)
    (hclient : s'.client.nextResponse = s.client.nextResponse ∧ ∀ t r', s'.client.responses t = some r' →
      ∃ r, s.client.responses t = some r ∧ r'.id = r.id ∧ r'.heldBy = r.heldBy) : s'.Traced where
  length := by rw [horigins, hclient.1, h.length]
  bound place hplace := Nat.lt_of_lt_of_le (h.bound place (hreceived ▸ hplace)) hframes.length_le
  once := by rw [hreceived]; exact h.once
  frames frame hframe := hframes.subset (h.frames frame (horigins ▸ hframe))
  ids t r' hr' := by
    obtain ⟨r, hr, hid, -⟩ := hclient.2 t r' hr'
    obtain ⟨frame, hframe, hid'⟩ := h.ids t r hr
    exact ⟨frame, horigins ▸ hframe, by rw [hid, hid']⟩

/-- A place that is new. -/
theorem Traced.look (h : s.Traced) {place : Nat} {frame : ResponseFrame} (hnew : place ∉ s.received)
    (hframe : s.server.frames[place]? = some frame) :
    (∀ place' ∈ s.received ++ [place], place' < s.server.frames.length) ∧ (s.received ++ [place]).Nodup := by
  refine ⟨fun place' hplace' => ?_, ?_⟩
  · rcases List.mem_append.mp hplace' with hold | hplace'
    · exact h.bound place' hold
    · rw [List.mem_singleton.mp hplace']
      exact (List.getElem?_eq_some_iff.mp hframe).1
  · rw [← List.concat_eq_append]
    exact h.once.concat hnew

theorem Traced.receive (h : s.Traced) {place : Nat} {frame : ResponseFrame} (hnew : place ∉ s.received)
    (hframe : s.server.frames[place]? = some frame) (o : Nat) :
    Traced { s with
      client := { s.client.setPhase s.client.nextResponse ⟨.reflectReader frame.id, o, .parsing⟩ .parsing with
        nextResponse := s.client.nextResponse + 1 }
      received := s.received ++ [place]
      origins := s.origins ++ [frame] } := by
  obtain ⟨hbound, honce⟩ := h.look hnew hframe
  refine ⟨?_, hbound, honce, ?_, ?_⟩
  · show (s.origins ++ [frame]).length = s.client.nextResponse + 1
    rw [List.length_append, List.length_singleton, h.length]
  · intro frame' hframe'
    rcases List.mem_append.mp hframe' with hold | hframe'
    · exact h.frames frame' hold
    · rw [List.mem_singleton.mp hframe']
      exact List.mem_of_getElem? hframe
  · intro t r hr
    replace hr : (if t = s.client.nextResponse then _ else s.client.responses t) = some r :=
      (PendingState.setPhase_responses _ _ _ _ _).symm.trans hr
    split_ifs at hr with ht
    · cases hr
      refine ⟨frame, ?_, rfl⟩
      show (s.origins ++ [frame])[t]? = some frame
      rw [ht, ← h.length, List.getElem?_concat_length]
    · obtain ⟨origin, horigin, hid⟩ := h.ids t r hr
      refine ⟨origin, ?_, hid⟩
      show (s.origins ++ [frame])[t]? = some origin
      rw [List.getElem?_append_left (List.getElem?_eq_some_iff.mp horigin).1]
      exact horigin

theorem Traced.step {a : RpcAction} (h : s.Traced) (hstep : step a s = some s') : s'.Traced := by
  have hsame : ∀ t r', s.client.responses t = some r' →
      ∃ r, s.client.responses t = some r ∧ r'.id = r.id ∧ r'.heldBy = r.heldBy := fun t r' hr' => ⟨r', hr', rfl, rfl⟩
  cases a with
  | client a =>
      obtain ⟨hown, client, hclient, rfl⟩ := step_client hstep
      refine h.keep rfl rfl (List.prefix_refl _) (PendingState.responses_of_step (fun id heq => ?_) hclient)
      rw [heq] at hown
      cases hown
  | write method =>
      obtain ⟨o, info, -, -, -, rfl⟩ := step_write hstep
      exact h.keep rfl rfl (List.prefix_refl _) ⟨rfl, hsame⟩
  | writeOther content =>
      obtain ⟨-, rfl⟩ := step_writeOther hstep
      exact h.keep rfl rfl (List.prefix_refl _) ⟨rfl, hsame⟩
  | read =>
      obtain ⟨entry, server, -, hserver, rfl⟩ := step_read hstep
      exact h.keep rfl rfl (ReplyState.frames_step hserver).1 ⟨rfl, hsame⟩
  | server a =>
      obtain ⟨-, server, hserver, rfl⟩ := step_server hstep
      exact h.keep rfl rfl (ReplyState.frames_step hserver).1 ⟨rfl, hsame⟩
  | receive place =>
      obtain ⟨frame, hnew, hframe, ⟨-, rfl⟩ | ⟨o, -, rfl⟩⟩ := step_receive hstep
      · obtain ⟨hbound, honce⟩ := h.look hnew hframe
        exact ⟨h.length, hbound, honce, h.frames, h.ids⟩
      · exact h.receive hnew hframe o
  | parsed t =>
      obtain ⟨r, client, -, hclient, rfl⟩ := step_parsed hstep
      refine h.keep rfl rfl (List.prefix_refl _) (PendingState.responses_of_step (fun id heq => ?_) hclient)
      cases heq

theorem traced {ok : RpcAction → RpcState → Prop} (hs : rpcSystem.ReachableIf ok s) : s.Traced := by
  refine hs.invariant Traced ?_ fun a s s' h _ hstep => h.step hstep
  intro s hinit
  obtain ⟨client, server, ⟨limits, rfl⟩, -, rfl⟩ := hinit
  refine ⟨rfl, nofun, List.nodup_nil, nofun, ?_⟩
  intro t r hr
  cases hr

/-- The request that the server has read under the number of one of its frames is the request that the client has
registered under the id of the frame. -/
theorem request_of_frame (hs : rpcSystem.ReachableIf FreshIds s) {frame : ResponseFrame}
    (hframe : frame ∈ s.server.frames) :
    ∃ o info content, s.client.infos o = some info ∧ info.id = .reflectReader frame.id ∧
      ⟨frame.sequence, content⟩ ∈ s.server.incoming ∧
      s.written[frame.sequence - s.server.gate.route.start]? = some (some o, content) := by
  have haccounted := ReplyState.accounted_of_reachable (reachable_server hs)
  obtain ⟨content, hcontent, hid⟩ := haccounted.frame_source hframe
  obtain ⟨tag, htag⟩ := written_of_incoming hs hcontent
  have hmem := List.mem_of_getElem? htag
  cases tag with
  | none => cases hid.symm.trans ((reachable_written hs).others content hmem)
  | some o =>
      obtain ⟨info, hinfo, hwritten⟩ := (reachable_written hs).requests o content hmem
      have hkeyed := PendingState.reachable_keyed (reachable_client hs)
      refine ⟨o, info, content, hinfo, ?_, hcontent, htag⟩
      rw [← (hkeyed.written o info hinfo).reflectReader, ← Option.some.inj (hwritten.symm.trans hid)]

end RpcState

end LspCpp

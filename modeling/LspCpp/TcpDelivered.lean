import LspCpp.StreamCutOff
import LspCpp.TcpSent

/-! What has left a TCP session and what its peer makes of it. The bytes that the socket has taken are counted also
where the write that they belong to fails later. -/

namespace LspCpp

/-- A session and the bytes that its socket has taken. -/
structure WireState where
  session : TcpState := {}
  wire : Bytes := []
  deriving DecidableEq

namespace TcpState

/-- The bytes that a transfer takes from the element that its write refers to. -/
def transferred (s : TcpState) : TcpAction → Bytes
  | .transfer index count =>
      match s.asyncWrites[index]? with
      | some op => (((s.bufferOf op).getD []).drop op.written.length).take count
      | none => []
  | _ => []

end TcpState

/-- The session as it is, with a record of the bytes. -/
def wireSystem : Transition.System WireState TcpAction where
  init s := s = {}
  step a s := (TcpState.step a s.session).map fun session =>
    { session := session, wire := s.wire ++ s.session.transferred a }

namespace TcpState

/-- What the socket has taken where no write has failed: what was sent, and a part of the front of the queue. -/
def given (s : TcpState) : Bytes := s.sent ++ (s.outstanding.map (·.written)).flatten

theorem given_eq {s s' : TcpState} (hsent : s'.sent = s.sent) (hwrites : s'.asyncWrites = s.asyncWrites)
    (hwaiting : completions s'.strand = completions s.strand) : s'.given = s.given := by
  rw [given, given, outstanding, outstanding, hsent, hwrites, hwaiting]

section Steps

variable {s s' : TcpState}

theorem transferred_eq {index count : Nat} {op : AsyncWrite} {buffer : Bytes} (hop : s.asyncWrites[index]? = some op)
    (hbuffer : s.bufferOf op = some buffer) :
    s.transferred (.transfer index count) = (buffer.drop op.written.length).take count := by
  simp [transferred, hop, hbuffer]

/-- A transfer adds its bytes. -/
theorem given_transfer {index count : Nat} (h : Served s) (hstep : step (.transfer index count) s = some s') :
    s'.given = s.given ++ s.transferred (.transfer index count) ∧ s.failed = false ∧ s'.failed = false := by
  obtain ⟨op, buffer, hop, hbuffer, rfl⟩ := step_transfer hstep
  obtain ⟨message, rest, hqueue, hwrites, hwaiting, hfailed, rfl, hwritten⟩ := h.serving.of_getElem? hop
  refine ⟨?_, hfailed, hfailed⟩
  rw [transferred_eq hop hbuffer]
  simp [given, outstanding, hwrites, hwaiting]

theorem given_finish {index : Nat} {ec : Bool} (h : Served s) (hstep : step (.finish index ec) s = some s') :
    s'.given = s.given := by
  obtain ⟨op, buffer, hop, hbuffer, hall, rfl⟩ := step_finish hstep
  obtain ⟨message, rest, hqueue, hwrites, hwaiting, hfailed, rfl, hwritten⟩ := h.serving.of_getElem? hop
  have hcompletions : completions (s.strand ++ [.written ec op]) = [(ec, op)] := by
    rw [completions_append, hwaiting]
    rfl
  simp [given, outstanding, hwrites, hwaiting, hcompletions]

/-- The handler of a write that went well counts the bytes of the write as sent. -/
theorem given_runTask (h : Served s) (hstep : step .runTask s = some s') (hgood : s'.failed = false) :
    s'.given = s.given := by
  obtain ⟨task, rest, hstrand, rfl⟩ := step_runTask hstep
  cases task with
  | read ec =>
      have hwaiting : completions rest = completions s.strand := by rw [hstrand]; rfl
      cases ec with
      | false => exact given_eq rfl rfl hwaiting
      | true => exact given_eq rfl rfl hwaiting
  | write message =>
      have hwaiting : completions s.strand = completions rest := by rw [hstrand]; rfl
      show ({ s with strand := rest }.doWrite message).given = s.given
      by_cases hempty : s.writeQueue = []
      · rw [doWrite_of_empty (s := { s with strand := rest }) hempty]
        simp [given, outstanding, hwaiting]
      · rw [doWrite_of_ne (s := { s with strand := rest }) hempty]
        exact given_eq rfl rfl hwaiting.symm
  | written ec op =>
      have hwaiting : completions s.strand = (ec, op) :: completions rest := by rw [hstrand]; rfl
      have hserving := h.serving
      rw [hwaiting] at hserving
      obtain ⟨message, queue, hqueue, hwrites, hnone, hfailed, hall⟩ := hserving.of_waiting
      cases ec with
      | true => cases hgood
      | false =>
          show ({ s with strand := rest }.writeCompleted false op).given = s.given
          cases queue with
          | nil =>
              rw [writeCompleted_last (s := { s with strand := rest }) hqueue]
              simp [given, outstanding, hwaiting, hwrites, hnone]
          | cons next queue =>
              rw [writeCompleted_next (s := { s with strand := rest }) hqueue]
              simp [given, outstanding, hwaiting, hwrites, hnone]

/-- What one step adds to the bytes that the socket has taken. -/
theorem given_step {a : TcpAction} (h : Served s) (hstep : step a s = some s') (hgood : s'.failed = false) :
    s'.given = s.given ++ s.transferred a := by
  cases a with
  | transfer index count => exact (given_transfer h hstep).1
  | finish index ec =>
      rw [given_finish h hstep]
      exact (List.append_nil _).symm
  | runTask =>
      rw [given_runTask h hstep hgood]
      exact (List.append_nil _).symm
  | lock sender frame =>
      obtain ⟨-, rfl⟩ := step_lock hstep
      exact (List.append_nil _).symm
  | check allowed =>
      obtain ⟨sender, frame, -, rfl | rfl⟩ := step_check hstep
      · exact (List.append_nil _).symm
      · exact (List.append_nil _).symm
  | post =>
      obtain ⟨sender, piece, rest, -, rfl⟩ := step_post hstep
      have hwaiting : completions (s.strand ++ [.write piece]) = completions s.strand := by
        rw [completions_append]
        exact List.append_nil _
      rw [show s.transferred .post = [] from rfl, List.append_nil]
      exact given_eq rfl rfl hwaiting
  | unlock =>
      obtain ⟨sender, -, rfl⟩ := step_unlock hstep
      exact (List.append_nil _).symm
  | readCompleted ec =>
      obtain rfl := Option.some.inj hstep
      have hwaiting : completions (s.strand ++ [.read ec]) = completions s.strand := by
        rw [completions_append]
        exact List.append_nil _
      rw [show s.transferred (.readCompleted ec) = [] from rfl, List.append_nil]
      exact given_eq rfl rfl hwaiting
  | interrupt | close =>
      obtain rfl := Option.some.inj hstep
      exact (List.append_nil _).symm

/-- The frames that were written are not forgotten, and neither is a failure. -/
theorem frames_prefix {a : TcpAction} (h : Served s) (hstep : step a s = some s') :
    s.frames <+: s'.frames ∧ (s.failed = true → s'.failed = true) := by
  cases a with
  | check allowed =>
      obtain ⟨sender, frame, -, rfl | rfl⟩ := step_check hstep
      · exact ⟨List.prefix_append _ _, id⟩
      · exact ⟨List.prefix_refl _, id⟩
  | runTask =>
      obtain ⟨task, rest, hstrand, rfl⟩ := step_runTask hstep
      cases task with
      | read ec => cases ec <;> exact ⟨List.prefix_refl _, id⟩
      | write message =>
          show s.frames <+: ({ s with strand := rest }.doWrite message).frames ∧
            (s.failed = true → ({ s with strand := rest }.doWrite message).failed = true)
          by_cases hempty : s.writeQueue = []
          · rw [doWrite_of_empty (s := { s with strand := rest }) hempty]
            exact ⟨List.prefix_refl _, id⟩
          · rw [doWrite_of_ne (s := { s with strand := rest }) hempty]
            exact ⟨List.prefix_refl _, id⟩
      | written ec op =>
          have hwaiting : completions s.strand = (ec, op) :: completions rest := by rw [hstrand]; rfl
          have hserving := h.serving
          rw [hwaiting] at hserving
          obtain ⟨message, queue, hqueue, -, -, hfailed, -⟩ := hserving.of_waiting
          refine ⟨?_, fun hold => absurd (hfailed.symm.trans hold) Bool.false_ne_true⟩
          show s.frames <+: ({ s with strand := rest }.writeCompleted ec op).frames
          cases ec with
          | true => exact List.prefix_refl _
          | false =>
              cases queue with
              | nil =>
                  rw [writeCompleted_last (s := { s with strand := rest }) hqueue]
              | cons next queue =>
                  rw [writeCompleted_next (s := { s with strand := rest }) hqueue]
  | lock sender frame =>
      obtain ⟨-, rfl⟩ := step_lock hstep
      exact ⟨List.prefix_refl _, id⟩
  | post =>
      obtain ⟨sender, piece, rest, -, rfl⟩ := step_post hstep
      exact ⟨List.prefix_refl _, id⟩
  | unlock =>
      obtain ⟨sender, -, rfl⟩ := step_unlock hstep
      exact ⟨List.prefix_refl _, id⟩
  | transfer index count =>
      obtain ⟨op, buffer, -, -, rfl⟩ := step_transfer hstep
      exact ⟨List.prefix_refl _, id⟩
  | finish index ec =>
      obtain ⟨op, buffer, -, -, -, rfl⟩ := step_finish hstep
      exact ⟨List.prefix_refl _, id⟩
  | readCompleted ec =>
      obtain rfl := Option.some.inj hstep
      exact ⟨List.prefix_refl _, id⟩
  | interrupt | close =>
      obtain rfl := Option.some.inj hstep
      exact ⟨List.prefix_refl _, id⟩

end Steps

/-- Where no write has failed, what was given to the socket is the beginning of the frames. -/
theorem given_prefix {s : TcpState} (h : Served s) (hgood : s.failed = false) : s.given <+: s.frames.flatten := by
  rw [← h.pipeline hgood, TcpState.pipeline, List.append_assoc, List.append_assoc]
  refine (List.prefix_append_right_inj _).mpr ?_
  have hserving := h.serving
  rw [hgood] at hserving
  rw [outstanding]
  generalize s.asyncWrites = asyncWrites at hserving
  generalize completions s.strand = waiting at hserving
  generalize s.writeQueue = queue at hserving
  cases hserving with
  | idle => exact List.nil_prefix
  | transferring op message rest written =>
      simp only [List.map_nil, List.append_nil, List.map_cons, List.flatten_cons, List.flatten_nil, List.append_assoc]
      exact written.trans (List.prefix_append _ _)
  | completed ec op message rest written =>
      simp only [List.map_nil, List.nil_append, List.map_cons, List.flatten_cons, List.flatten_nil, List.append_nil,
        List.append_assoc]
      exact written.trans (List.prefix_append _ _)

end TcpState

namespace WireState

/-- The account of the wire: it is the beginning of the frames, and where no write has failed it is what was given to
the socket. -/
structure Wired (s : WireState) : Prop where
  served : s.session.Served
  given : s.session.failed = false → s.wire = s.session.given
  front : s.wire <+: s.session.frames.flatten

theorem Wired.step {a : TcpAction} {s s' : WireState} (h : s.Wired) (hstep : wireSystem.step a s = some s') :
    s'.Wired := by
  obtain ⟨session, hsession, rfl⟩ := Option.map_eq_some_iff.mp hstep
  obtain ⟨hframes, hfailure⟩ := TcpState.frames_prefix h.served hsession
  have hserved := h.served.step hsession
  have hgiven : session.failed = false → s.wire ++ s.session.transferred a = session.given := by
    intro hgood
    have hbefore : s.session.failed = false := by
      by_contra hfailed
      exact absurd (hfailure (Bool.not_eq_false _ ▸ hfailed)) (by simp [hgood])
    rw [TcpState.given_step h.served hsession hgood, h.given hbefore]
  refine ⟨hserved, hgiven, ?_⟩
  cases hfailed : session.failed with
  | false =>
      rw [hgiven hfailed]
      exact TcpState.given_prefix hserved hfailed
  | true =>
      have hnothing : s.session.transferred a = [] := by
        cases a with
        | transfer index count =>
            have hgood := (TcpState.given_transfer h.served hsession).2.2
            exact absurd (hfailed.symm.trans hgood) (by decide)
        | _ => rfl
      have hflatten : s.session.frames.flatten <+: session.frames.flatten := by
        obtain ⟨later, hlater⟩ := hframes
        rw [← hlater, List.flatten_append]
        exact List.prefix_append _ _
      show s.wire ++ s.session.transferred a <+: _
      rw [hnothing, List.append_nil]
      exact h.front.trans hflatten

theorem wired {s : WireState} (hs : wireSystem.Reachable s) : s.Wired := by
  refine hs.invariant Wired ?_ fun a s s' h _ hstep => h.step hstep
  intro s hinit
  obtain rfl : s = {} := hinit
  exact ⟨TcpState.served (.init rfl), fun _ => rfl, List.nil_prefix⟩

/-- Nothing is on its way to the socket: no sender holds the mutex, and the strand and the queue have no message. -/
def Idle (s : TcpState) : Prop := s.sendMutex = none ∧ TcpState.posted s.strand = [] ∧ s.writeQueue = []

theorem wire_front {s : WireState} (hs : wireSystem.Reachable s) {bodies : List Bytes}
    (hframes : s.session.frames = bodies.map writerMsg) : s.wire <+: bodies.flatMap writerMsg := by
  have hfront := (wired hs).front
  rwa [hframes] at hfront

theorem wire_complete {s : WireState} (hs : wireSystem.Reachable s) {bodies : List Bytes}
    (hframes : s.session.frames = bodies.map writerMsg) (hgood : s.session.failed = false) (hidle : Idle s.session) :
    s.wire = bodies.flatMap writerMsg := by
  have h := wired hs
  obtain ⟨hmutex, hposted, hqueue⟩ := hidle
  have hpipeline := h.served.pipeline hgood
  have hserving := h.served.serving
  rw [hqueue] at hserving
  obtain ⟨hwrites, hwaiting, -⟩ := hserving.of_empty
  calc s.wire = s.session.given := h.given hgood
    _ = s.session.sent := by simp [TcpState.given, TcpState.outstanding, hwrites, hwaiting]
    _ = s.session.pipeline := by simp [TcpState.pipeline, TcpState.unposted, hmutex, hposted, hqueue]
    _ = s.session.frames.flatten := hpipeline
    _ = bodies.flatMap writerMsg := by rw [hframes]; rfl

/-- **A TCP session sends whole frames in the order of the mutex**: in every state of every interleaving of the senders,
the strand, the transfers, the reads and the ends of the session, a peer that reads in whatever pieces what has left the
session is handed the bodies of exactly the frames that have left it as a whole; where no write has failed and nothing
is on its way, these are all of them. -/
theorem tcpWrites_delivered (settings : ProducerSettings) (bodies : List Bytes)
    (hfits : ∀ body ∈ bodies, Fits settings body) {s : WireState} (hs : wireSystem.Reachable s)
    (hframes : s.session.frames = bodies.map writerMsg) :
    (∀ (σ : Type) (S : IStream σ) (At : σ → Bytes → Prop), S.Yields At → ∀ peer, At peer s.wire →
      ∃ rounds, ∀ fuel, rounds ≤ fuel → ∃ events, listen S settings fuel peer [] = some events ∧
        messages events = bodies.take (wholeFrames bodies s.wire.length)) ∧
      (s.session.failed = false → Idle s.session → wholeFrames bodies s.wire.length = bodies.length) := by
  have htake := List.prefix_iff_eq_take.mp (wire_front hs hframes)
  have hmessages := (decode_take_flatMap bodies hfits s.wire.length).1
  rw [← htake] at hmessages
  constructor
  · intro σ S At hS peer hpeer
    refine ⟨s.wire.length + 2, fun fuel hfuel => ⟨decode settings s.wire, ?_, hmessages⟩⟩
    exact hS.listen_eq_decode settings fuel hpeer [] (by rw [List.nil_append]; omega)
  · intro hgood hidle
    rw [wire_complete hs hframes hgood hidle]
    exact wholeFrames_length bodies

/-- Two frames of which the second fails behind its fourth byte. -/
theorem tcpWrites_delivered_failed :
    ∃ s : WireState, s.session.failed = true ∧ s.session.sent = writerMsg (bytesOf "1") ∧ s.wire.length = 26 ∧
      ∃ rounds, ∀ fuel, rounds ≤ fuel → ∃ events, listen (piecesOf 3) {} fuel (s.wire, false) [] = some events ∧
        messages events = [bytesOf "1", bytesOf "2"].take (wholeFrames [bytesOf "1", bytesOf "2"] s.wire.length) := by
  have hrun : wireSystem.run [.lock 1 (writerMsg (bytesOf "1")), .check true, .post, .unlock, .runTask,
      .lock 2 (writerMsg (bytesOf "2")), .check true, .transfer 0 100, .finish 0 false, .post, .unlock,
      .runTask, .runTask, .transfer 0 4, .finish 0 true, .runTask] {} = some
        { session :=
            { quit := true, failed := true, writeQueue := [(1, writerMsg (bytesOf "2"))], nextElement := 2,
              frames := [writerMsg (bytesOf "1"), writerMsg (bytesOf "2")], sent := writerMsg (bytesOf "1") },
          wire := writerMsg (bytesOf "1") ++ (writerMsg (bytesOf "2")).take 4 } := by
    decide +kernel
  have hs := Transition.System.reachable_of_run _ (.init rfl) hrun
  have hfits : ∀ body ∈ [bytesOf "1", bytesOf "2"], Fits {} body := by decide
  exact ⟨_, rfl, rfl, by decide,
    (tcpWrites_delivered {} _ hfits hs rfl).1 _ (piecesOf 3) _ (piecesOf_yields (by decide)) _ rfl⟩

end WireState

end LspCpp

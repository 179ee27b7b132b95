import LspCpp.TcpWrite
import Mathlib.Data.List.Infix

/-! What a TCP session sends. There is never more than one write to the socket, it refers to the front of the queue,
and what was sent, what is queued and what is posted are together the frames in the order of the send mutex. -/

namespace LspCpp

namespace TcpState

/-- The messages that wait in the strand for their way into the queue. -/
def posted (strand : List StrandTask) : List Bytes :=
  strand.filterMap fun task =>
    match task with
    | .write message => some message
    | _ => none

/-- The completion handlers of writes that wait in the strand. -/
def completions (strand : List StrandTask) : List (Bool × AsyncWrite) :=
  strand.filterMap fun task =>
    match task with
    | .written ec op => some (ec, op)
    | _ => none

/-- The writes that were started and whose handlers have not run. -/
def outstanding (s : TcpState) : List AsyncWrite := s.asyncWrites ++ (completions s.strand).map (·.2)

/-- The pieces that the holder of the send mutex has still to post. -/
def unposted (s : TcpState) : List Bytes :=
  match s.sendMutex with
  | some (_, .writing pieces) => pieces
  | _ => []

/-- The bytes on their way through the session. -/
def pipeline (s : TcpState) : Bytes :=
  s.sent ++ (s.writeQueue.map (·.2)).flatten ++ (posted s.strand).flatten ++ s.unposted.flatten

/-- How a write queue is served: there is nothing to write, the write of the front is being transferred or waits for
its handler, or a failed one has left the queue as it was. -/
inductive Serving : List (Nat × Bytes) → List AsyncWrite → List (Bool × AsyncWrite) → Bool → Prop where
  | idle : Serving [] [] [] false
  | transferring (op : AsyncWrite) (message : Bytes) (rest : List (Nat × Bytes))
      (written : op.written <+: message) : Serving ((op.element, message) :: rest) [op] [] false
  | completed (ec : Bool) (op : AsyncWrite) (message : Bytes) (rest : List (Nat × Bytes))
      (written : op.written <+: message) (all : ec = false → op.written = message) :
      Serving ((op.element, message) :: rest) [] [(ec, op)] false
  | stuck (front : Nat × Bytes) (rest : List (Nat × Bytes)) : Serving (front :: rest) [] [] true

structure Served (s : TcpState) : Prop where
  /-- Identities are not used again. -/
  below : ∀ e ∈ s.writeQueue, e.1 < s.nextElement
  distinct : s.writeQueue.Pairwise fun a b => a.1 < b.1
  serving : Serving s.writeQueue s.asyncWrites (completions s.strand) s.failed
  pipeline : s.failed = false → s.pipeline = s.frames.flatten

theorem posted_append (strand strand' : List StrandTask) :
    posted (strand ++ strand') = posted strand ++ posted strand' := List.filterMap_append

theorem completions_append (strand strand' : List StrandTask) :
    completions (strand ++ strand') = completions strand ++ completions strand' := List.filterMap_append

/-- A queue that is served is served with a message more. -/
theorem Serving.push {queue : List (Nat × Bytes)} {asyncWrites : List AsyncWrite}
    {waiting : List (Bool × AsyncWrite)} {failed : Bool} (h : Serving queue asyncWrites waiting failed)
    (hne : queue ≠ []) (e : Nat × Bytes) : Serving (queue ++ [e]) asyncWrites waiting failed := by
  cases h with
  | idle => exact absurd rfl hne
  | transferring op message rest written => exact .transferring op message _ written
  | completed ec op message rest written all => exact .completed ec op message _ written all
  | stuck front rest => exact .stuck front _

theorem Serving.of_empty {asyncWrites : List AsyncWrite} {waiting : List (Bool × AsyncWrite)} {failed : Bool}
    (h : Serving [] asyncWrites waiting failed) : asyncWrites = [] ∧ waiting = [] ∧ failed = false := by
  cases h
  exact ⟨rfl, rfl, rfl⟩

/-- A handler that waits is that of the only write. -/
theorem Serving.of_waiting {queue : List (Nat × Bytes)} {asyncWrites : List AsyncWrite}
    {waiting : List (Bool × AsyncWrite)} {failed ec : Bool} {op : AsyncWrite}
    (h : Serving queue asyncWrites ((ec, op) :: waiting) failed) :
    ∃ message rest, queue = (op.element, message) :: rest ∧ asyncWrites = [] ∧ waiting = [] ∧ failed = false ∧
      (ec = false → op.written = message) := by
  cases h with
  | completed _ _ message rest _ all => exact ⟨message, rest, rfl, rfl, rfl, rfl, all⟩

theorem lookup_front (op : AsyncWrite) (message : Bytes) (rest : List (Nat × Bytes)) :
    ((op.element, message) :: rest).lookup op.element = some message := List.lookup_cons_self

/-- A write in transfer is the only one, and its data is at the front. -/
theorem Serving.of_getElem? {queue : List (Nat × Bytes)} {asyncWrites : List AsyncWrite}
    {waiting : List (Bool × AsyncWrite)} {failed : Bool} (h : Serving queue asyncWrites waiting failed)
    {index : Nat} {op : AsyncWrite} (hop : asyncWrites[index]? = some op) :
    ∃ message rest, queue = (op.element, message) :: rest ∧ asyncWrites = [op] ∧ waiting = [] ∧ failed = false ∧
      index = 0 ∧ op.written <+: message := by
  cases h with
  | transferring op' message rest written =>
      cases index with
      | zero =>
          obtain rfl := Option.some.inj hop
          exact ⟨message, rest, rfl, rfl, rfl, rfl, rfl, written⟩
      | succ index => cases hop
  | idle => cases hop
  | completed => cases hop
  | stuck => cases hop

/-! ### The steps -/

/-- Steps that leave the queue and its writes alone. -/
theorem Served.frame {s s' : TcpState} (h : Served s) (hqueue : s'.writeQueue = s.writeQueue)
    (hnext : s'.nextElement = s.nextElement) (hwrites : s'.asyncWrites = s.asyncWrites)
    (hwaiting : completions s'.strand = completions s.strand) (hfailed : s'.failed = s.failed)
    (hpipeline : s'.failed = false → s.pipeline = s.frames.flatten → s'.pipeline = s'.frames.flatten) :
    Served s' where
  below := by
    rw [hqueue, hnext]
    exact h.below
  distinct := by
    rw [hqueue]
    exact h.distinct
  serving := by
    rw [hqueue, hwrites, hwaiting, hfailed]
    exact h.serving
  pipeline hs' := hpipeline hs' (h.pipeline (hfailed ▸ hs'))

theorem Served.lock {sender : Nat} {frame : Bytes} {s s' : TcpState} (h : Served s)
    (hstep : step (.lock sender frame) s = some s') : Served s' := by
  obtain ⟨hmutex, rfl⟩ := step_lock hstep
  refine h.frame rfl rfl rfl rfl rfl fun _ hpipeline => ?_
  rw [← hpipeline]
  simp only [TcpState.pipeline, unposted, hmutex]

/-- A sender that begins its frame has all of it still to post. -/
theorem Served.check {allowed : Bool} {s s' : TcpState} (h : Served s)
    (hstep : step (.check allowed) s = some s') : Served s' := by
  obtain ⟨sender, frame, hmutex, rfl | rfl⟩ := step_check hstep
  · refine h.frame rfl rfl rfl rfl rfl fun _ hpipeline => ?_
    simp only [TcpState.pipeline, unposted, hmutex, List.flatten_nil, List.append_nil] at hpipeline ⊢
    rw [hpipeline, flatten_tcpWrite, List.flatten_append, List.flatten_singleton]
  · refine h.frame rfl rfl rfl rfl rfl fun _ hpipeline => ?_
    rw [← hpipeline]
    simp only [TcpState.pipeline, unposted, hmutex]

theorem Served.post {s s' : TcpState} (h : Served s) (hstep : step .post s = some s') : Served s' := by
  obtain ⟨sender, piece, rest, hmutex, rfl⟩ := step_post hstep
  have hwaiting : completions (s.strand ++ [.write piece]) = completions s.strand := by
    rw [completions_append]
    exact List.append_nil _
  refine h.frame rfl rfl rfl hwaiting rfl fun _ hpipeline => ?_
  have hposted : posted (s.strand ++ [.write piece]) = posted s.strand ++ [piece] := posted_append _ _
  rw [← hpipeline]
  simp only [TcpState.pipeline, unposted, hmutex, hposted, List.flatten_append, List.flatten_cons, List.flatten_nil,
    List.append_nil, List.append_assoc]

theorem Served.unlock {s s' : TcpState} (h : Served s) (hstep : step .unlock s = some s') : Served s' := by
  obtain ⟨sender, hmutex, rfl⟩ := step_unlock hstep
  refine h.frame rfl rfl rfl rfl rfl fun _ hpipeline => ?_
  rw [← hpipeline]
  simp only [TcpState.pipeline, unposted, hmutex]

theorem Served.readCompleted {ec : Bool} {s s' : TcpState} (h : Served s)
    (hstep : step (.readCompleted ec) s = some s') : Served s' := by
  obtain rfl := Option.some.inj hstep
  have hwaiting : completions (s.strand ++ [.read ec]) = completions s.strand := by
    rw [completions_append]
    exact List.append_nil _
  refine h.frame rfl rfl rfl hwaiting rfl fun _ hpipeline => ?_
  have hposted : posted (s.strand ++ [.read ec]) = posted s.strand := by
    rw [posted_append]
    exact List.append_nil _
  rw [← hpipeline]
  simp only [TcpState.pipeline, unposted, hposted]

/-- A transfer goes on where it was in the front of the queue. -/
theorem Served.transfer {index count : Nat} {s s' : TcpState} (h : Served s)
    (hstep : step (.transfer index count) s = some s') : Served s' := by
  obtain ⟨op, buffer, hop, hbuffer, rfl⟩ := step_transfer hstep
  obtain ⟨message, rest, hqueue, hwrites, hwaiting, hfailed, rfl, hwritten⟩ := h.serving.of_getElem? hop
  rw [bufferOf, hqueue, lookup_front] at hbuffer
  obtain rfl := Option.some.inj hbuffer
  refine ⟨h.below, h.distinct, ?_, h.pipeline⟩
  obtain ⟨left, rfl⟩ := hwritten
  simp only [hqueue, hwrites, hwaiting, hfailed, List.set_cons_zero, List.drop_left]
  refine .transferring { op with written := op.written ++ left.take count } (op.written ++ left) rest ?_
  exact (List.prefix_append_right_inj _).mpr (List.take_prefix _ _)

/-- A write that ends without an error has written all of the front. -/
theorem Served.finish {index : Nat} {ec : Bool} {s s' : TcpState} (h : Served s)
    (hstep : step (.finish index ec) s = some s') : Served s' := by
  obtain ⟨op, buffer, hop, hbuffer, hall, rfl⟩ := step_finish hstep
  obtain ⟨message, rest, hqueue, hwrites, hwaiting, hfailed, rfl, hwritten⟩ := h.serving.of_getElem? hop
  rw [bufferOf, hqueue, lookup_front] at hbuffer
  obtain rfl := Option.some.inj hbuffer
  have hcompletions : completions (s.strand ++ [.written ec op]) = [(ec, op)] := by
    rw [completions_append, hwaiting]
    rfl
  have hposted : posted (s.strand ++ [.written ec op]) = posted s.strand := by
    rw [posted_append]
    exact List.append_nil _
  refine ⟨h.below, h.distinct, ?_, fun hs => ?_⟩
  · simp only [hqueue, hwrites, hfailed, hcompletions, List.eraseIdx_cons_zero]
    exact .completed ec op message rest hwritten fun hec => hwritten.eq_of_length (hall hec)
  · rw [← h.pipeline hs]
    simp only [TcpState.pipeline, unposted, hposted]

/-- A message comes to the end of the queue; only an empty queue has its write started. -/
theorem Served.doWrite {s : TcpState} {message : Bytes} {rest : List StrandTask} (h : Served s)
    (hstrand : s.strand = .write message :: rest) : Served ({ s with strand := rest }.doWrite message) := by
  have hwaiting : completions s.strand = completions rest := by rw [hstrand]; rfl
  have hposted : posted s.strand = message :: posted rest := by rw [hstrand]; rfl
  have hbelow : ∀ e ∈ s.writeQueue ++ [(s.nextElement, message)], e.1 < s.nextElement + 1 := by
    intro e he
    rcases List.mem_append.mp he with he | he
    · exact Nat.lt_succ_of_lt (h.below e he)
    · rw [List.mem_singleton.mp he]
      exact Nat.lt_succ_self _
  have hdistinct : (s.writeQueue ++ [(s.nextElement, message)]).Pairwise fun a b => a.1 < b.1 := by
    refine List.pairwise_append.mpr ⟨h.distinct, List.pairwise_singleton _ _, fun e he e' he' => ?_⟩
    rw [List.mem_singleton.mp he']
    exact h.below e he
  have hpipeline : s.failed = false →
      s.sent ++ ((s.writeQueue ++ [(s.nextElement, message)]).map (·.2)).flatten ++ (posted rest).flatten ++
        s.unposted.flatten = s.frames.flatten := by
    intro hs
    rw [← h.pipeline hs]
    simp only [TcpState.pipeline, hposted, List.map_append, List.map_cons, List.map_nil, List.flatten_append,
      List.flatten_cons, List.flatten_nil, List.append_nil, List.append_assoc]
  have hserving := h.serving
  rw [hwaiting] at hserving
  by_cases hempty : s.writeQueue = []
  · rw [hempty] at hserving
    obtain ⟨hwrites, hnone, hfailed⟩ := hserving.of_empty
    rw [hempty, List.nil_append] at hbelow hdistinct hpipeline
    rw [doWrite_of_empty (s := { s with strand := rest }) hempty]
    refine ⟨hbelow, hdistinct, ?_, hpipeline⟩
    simp only [hwrites, hnone, hfailed]
    exact .transferring { element := s.nextElement } message [] (List.nil_prefix)
  · rw [doWrite_of_ne (s := { s with strand := rest }) hempty]
    exact ⟨hbelow, hdistinct, hserving.push hempty _, hpipeline⟩

/-- The handler of a write takes the front away, and the next write is that of the new front. -/
theorem Served.writeCompleted {s : TcpState} {ec : Bool} {op : AsyncWrite} {rest : List StrandTask} (h : Served s)
    (hstrand : s.strand = .written ec op :: rest) : Served ({ s with strand := rest }.writeCompleted ec op) := by
  have hwaiting : completions s.strand = (ec, op) :: completions rest := by rw [hstrand]; rfl
  have hposted : posted s.strand = posted rest := by rw [hstrand]; rfl
  have hserving := h.serving
  rw [hwaiting] at hserving
  obtain ⟨message, queue, hqueue, hwrites, hnone, hfailed, hall⟩ := hserving.of_waiting
  have hbelow := h.below
  have hdistinct := h.distinct
  rw [hqueue] at hbelow hdistinct
  cases ec with
  | true =>
      rw [writeCompleted_error]
      refine ⟨h.below, h.distinct, ?_, nofun⟩
      simp only [hqueue, hwrites, hnone]
      exact .stuck _ _
  | false =>
      have hbelow' : ∀ e ∈ queue, e.1 < s.nextElement := fun e he => hbelow e (List.mem_cons_of_mem _ he)
      have hdistinct' := (List.pairwise_cons.mp hdistinct).2
      have hpipeline : s.sent ++ op.written ++ (queue.map (·.2)).flatten ++ (posted rest).flatten ++
          s.unposted.flatten = s.frames.flatten := by
        rw [← h.pipeline hfailed, hall rfl]
        simp only [TcpState.pipeline, hqueue, hposted, List.map_cons, List.flatten_cons, List.append_assoc]
      cases queue with
      | nil =>
          rw [writeCompleted_last (s := { s with strand := rest }) hqueue]
          refine ⟨hbelow', hdistinct', ?_, fun _ => hpipeline⟩
          simp only [hwrites, hnone, hfailed]
          exact .idle
      | cons next queue =>
          rw [writeCompleted_next (s := { s with strand := rest }) hqueue]
          refine ⟨hbelow', hdistinct', ?_, fun _ => hpipeline⟩
          simp only [hwrites, hnone, hfailed, List.nil_append]
          exact .transferring { element := next.1 } next.2 queue List.nil_prefix

theorem Served.runTask {s s' : TcpState} (h : Served s) (hstep : step .runTask s = some s') : Served s' := by
  obtain ⟨task, rest, hstrand, rfl⟩ := step_runTask hstep
  cases task with
  | write message => exact h.doWrite hstrand
  | written ec op => exact h.writeCompleted hstrand
  | read ec =>
      have hwaiting : completions rest = completions s.strand := by rw [hstrand]; rfl
      have hposted : posted rest = posted s.strand := by rw [hstrand]; rfl
      have hread : Served { s with strand := rest } := by
        refine h.frame rfl rfl rfl hwaiting rfl fun _ hpipeline => ?_
        rw [← hpipeline]
        simp only [TcpState.pipeline, unposted, hposted]
      cases ec with
      | false => exact hread
      | true => exact hread.frame rfl rfl rfl rfl rfl fun _ => id

theorem Served.step {a : TcpAction} {s s' : TcpState} (h : Served s) (hstep : step a s = some s') : Served s' := by
  cases a with
  | lock sender frame => exact h.lock hstep
  | check allowed => exact h.check hstep
  | post => exact h.post hstep
  | unlock => exact h.unlock hstep
  | runTask => exact h.runTask hstep
  | transfer index count => exact h.transfer hstep
  | finish index ec => exact h.finish hstep
  | readCompleted ec => exact h.readCompleted hstep
  | interrupt =>
      obtain rfl := Option.some.inj hstep
      exact h.frame rfl rfl rfl rfl rfl fun _ => id
  | close =>
      obtain rfl := Option.some.inj hstep
      exact h.frame rfl rfl rfl rfl rfl fun _ => id

theorem served {s : TcpState} (hs : tcpSystem.Reachable s) : Served s := by
  refine hs.invariant Served ?_ fun a s s' h _ hstep => h.step hstep
  rintro s rfl
  exact ⟨nofun, .nil, .idle, fun _ => rfl⟩

/-- The only write that is outstanding refers to the front of the queue and has a part of it written. -/
theorem Serving.outstanding {queue : List (Nat × Bytes)} {asyncWrites : List AsyncWrite}
    {waiting : List (Bool × AsyncWrite)} {failed : Bool} (h : Serving queue asyncWrites waiting failed) :
    (asyncWrites ++ waiting.map (·.2)).length ≤ 1 ∧ ∀ op ∈ asyncWrites ++ waiting.map (·.2),
      ∃ message rest, queue = (op.element, message) :: rest ∧ op.written <+: message := by
  cases h with
  | idle => exact ⟨Nat.zero_le _, nofun⟩
  | transferring op message rest written =>
      refine ⟨Nat.le_refl _, fun op' hop => ?_⟩
      obtain rfl := List.mem_singleton.mp hop
      exact ⟨message, rest, rfl, written⟩
  | completed ec op message rest written =>
      refine ⟨Nat.le_refl _, fun op' hop => ?_⟩
      obtain rfl := List.mem_singleton.mp hop
      exact ⟨message, rest, rfl, written⟩
  | stuck => exact ⟨Nat.zero_le _, nofun⟩

/-- In every state at most one write is outstanding, it refers to the front of the queue, whose elements are told apart
by their identities, and without a failed write the bytes sent, queued, posted and still to be posted by the holder of
the send mutex are the frames in the order of the mutex. Between two senders nothing is left to be posted. -/
theorem tcpWrites_inOrder {s : TcpState} (hs : tcpSystem.Reachable s) :
    s.outstanding.length ≤ 1 ∧
      (∀ op ∈ s.outstanding, ∃ message rest, s.writeQueue = (op.element, message) :: rest ∧ op.written <+: message) ∧
      (s.writeQueue.Pairwise fun a b => a.1 < b.1) ∧
      (s.failed = false →
        s.sent ++ (s.writeQueue.map (·.2)).flatten ++ (posted s.strand).flatten ++ s.unposted.flatten =
          s.frames.flatten) ∧
      (s.sendMutex = none → s.unposted = []) := by
  have h := served hs
  obtain ⟨hone, hfront⟩ := h.serving.outstanding
  refine ⟨hone, hfront, h.distinct, h.pipeline, fun hmutex => ?_⟩
  rw [unposted, hmutex]

/-- Two senders, the second while the frame of the first is on its way. -/
theorem tcpWrites_inOrder_twoSenders :
    ∃ s : TcpState, s.sent = [65] ∧ s.writeQueue = [(1, [66])] ∧ s.failed = false ∧
      s.sent ++ (s.writeQueue.map (·.2)).flatten ++ (posted s.strand).flatten ++ s.unposted.flatten =
        s.frames.flatten := by
  have hrun : tcpSystem.run [.lock 1 [65], .check true, .post, .unlock, .runTask, .lock 2 [66], .transfer 0 1,
      .finish 0 false, .check true, .post, .runTask, .runTask] {} = some
        { sendMutex := some (2, .writing []), writeQueue := [(1, [66])], nextElement := 2,
          asyncWrites := [{ element := 1 }], frames := [[65], [66]], sent := [65] } := by decide
  exact ⟨_, rfl, rfl, rfl, (tcpWrites_inOrder (Transition.System.reachable_of_run _ (.init rfl) hrun)).2.2.2.1 rfl⟩

/-- A sender that has posted `piece` and has `rest` still to post. -/
def midFrame (piece rest : Bytes) : TcpState :=
  { sendMutex := some (1, .writing [rest]), strand := [.write piece], frames := [piece ++ rest] }

theorem sent_midFrame (piece rest : Bytes) :
    (midFrame piece rest).sent ++ ((midFrame piece rest).writeQueue.map (·.2)).flatten ++
      (posted (midFrame piece rest).strand).flatten = piece := by
  simp [midFrame, posted]

/-- In the middle of a frame of more than one piece, what is sent, queued and posted is no sequence of whole frames. -/
theorem tcpWrites_midFrame :
    ∃ s : TcpState, tcpSystem.Reachable s ∧ s.failed = false ∧
      ∀ k, s.sent ++ (s.writeQueue.map (·.2)).flatten ++ (posted s.strand).flatten ≠ (s.frames.take k).flatten := by
  have hrun : tcpSystem.run [.lock 1 (List.replicate 1024 65 ++ [65]), .check true, .post] {} =
      some (midFrame (List.replicate 1024 65) [65]) := by decide +kernel
  refine ⟨_, Transition.System.reachable_of_run _ (.init rfl) hrun, rfl, fun k heq => ?_⟩
  rw [sent_midFrame] at heq
  have hlength := congrArg List.length heq
  rw [List.length_replicate] at hlength
  cases k with
  | zero =>
      rw [List.take_zero] at hlength
      exact absurd hlength (by decide)
  | succ k =>
      rw [midFrame, List.take_succ_cons, List.take_nil, List.flatten_singleton, List.length_append,
        List.length_replicate] at hlength
      exact absurd hlength (by decide)

end TcpState

end LspCpp

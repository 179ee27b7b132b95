import LspCpp.LibTransition
import LspCpp.StreamHeader

/-! The output side of a TCP session. A sender holds the send mutex while it posts the pieces of its frame to the
strand; the tasks of the strand put them into the write queue, and one write to the socket starts the next. The
elements of the queue have identities, which a write refers to. -/

namespace LspCpp

/-- The loop of `tcp_stream_wrapper::write` from offset `off` on: the pieces that `do_write` is called for. -/
def tcpPieces (c : Bytes) : Nat → Nat → List Bytes
  | 0, _ => []
  | fuel + 1, off =>
      if off < c.length then
        if off + 1024 < c.length then (c.drop off).take 1024 :: tcpPieces c fuel (off + 1024)
        else [c.drop off]
      else []

/-- `tcp_stream_wrapper::write`. -/
def tcpWrite (c : Bytes) : List Bytes := tcpPieces c c.length 0

theorem flatten_tcpPieces (c : Bytes) (fuel off : Nat) (h : c.length ≤ off + fuel) :
    (tcpPieces c fuel off).flatten = c.drop off := by
  induction fuel generalizing off with
  | zero => rw [tcpPieces, List.flatten_nil, List.drop_eq_nil_of_le (by simpa using h)]
  | succ fuel ih =>
      rw [tcpPieces]
      split_ifs with hoff hmore
      · rw [List.flatten_cons, ih (off + 1024) (by omega), ← List.drop_drop, List.take_append_drop]
      · exact List.flatten_singleton
      · rw [List.flatten_nil, List.drop_eq_nil_of_le (by omega)]

/-- The pieces of a frame of any length make up the frame. -/
theorem flatten_tcpWrite (c : Bytes) : (tcpWrite c).flatten = c :=
  flatten_tcpPieces c c.length 0 (Nat.le_add_left _ _)

/-- An `asio::async_write` of the queue element with this identity, and what it has transferred. -/
structure AsyncWrite where
  element : Nat
  written : Bytes := []
  deriving DecidableEq

/-- What is posted to the strand of a session: the lambda of `do_write`, the completion handlers of a write and of
a read. -/
inductive StrandTask where
  | write (message : Bytes)
  | written (ec : Bool) (op : AsyncWrite)
  | read (ec : Bool)
  deriving DecidableEq

/-- Where the holder of the send mutex is: before its look at the output, or with these pieces still to post. -/
inductive WritePhase where
  | checking (frame : Bytes)
  | writing (pieces : List Bytes)
  deriving DecidableEq

/-- `frames` are the frames that were written in the order in which their senders got the mutex, `sent` the bytes of
completed writes; `failed` tells of a completion with an error. -/
structure TcpState where
  quit : Bool := false
  isOpen : Bool := true
  sendMutex : Option (Nat × WritePhase) := none
  strand : List StrandTask := []
  writeQueue : List (Nat × Bytes) := []
  nextElement : Nat := 0
  asyncWrites : List AsyncWrite := []
  frames : List Bytes := []
  sent : Bytes := []
  failed : Bool := false
  deriving DecidableEq

inductive TcpAction where
  | lock (sender : Nat) (frame : Bytes)
  | check (allowed : Bool)
  | post
  | unlock
  | runTask
  | transfer (index : Nat) (count : Nat)
  | finish (index : Nat) (ec : Bool)
  | readCompleted (ec : Bool)
  | interrupt
  | close
  deriving DecidableEq

namespace TcpState

/-- `tcp_stream_wrapper::bad`. -/
def bad (s : TcpState) : Bool := s.quit || !s.isOpen

/-- The data that a write refers to, as long as its element is in the queue. -/
def bufferOf (s : TcpState) (op : AsyncWrite) : Option Bytes := s.writeQueue.lookup op.element

/-- `tcp_connect_session::do_write_queued`. -/
def doWriteQueued (s : TcpState) : TcpState :=
  match s.writeQueue with
  | [] => s
  | front :: _ => { s with asyncWrites := s.asyncWrites ++ [{ element := front.1 }] }

/-- The task that `tcp_connect_session::do_write` posts. -/
def doWrite (s : TcpState) (message : Bytes) : TcpState :=
  let pushed := { s with
    writeQueue := s.writeQueue ++ [(s.nextElement, message)]
    nextElement := s.nextElement + 1 }
  if s.writeQueue.isEmpty then pushed.doWriteQueued else pushed

/-- The completion handler of a write. -/
def writeCompleted (s : TcpState) (ec : Bool) (op : AsyncWrite) : TcpState :=
  if ec then { s with failed := true, quit := true }
  else
    let popped := { s with writeQueue := s.writeQueue.tail, sent := s.sent ++ op.written }
    if popped.writeQueue.isEmpty then popped else popped.doWriteQueued

/-- The strand runs its earliest task. -/
def runTask (s : TcpState) : StrandTask → TcpState
  | .write message => s.doWrite message
  | .written ec op => s.writeCompleted ec op
  | .read ec => if ec then { s with quit := true } else s

/-- `allowed` stands for what a sender checks besides `bad`: the session is active and, for a request, its id is not
pending. A transfer takes its bytes from the element that the write refers to. -/
def step : TcpAction → TcpState → Option TcpState
  | .lock sender frame, s =>
      if s.sendMutex = none then some { s with sendMutex := some (sender, .checking frame) } else none
  | .check allowed, s =>
      match s.sendMutex with
      | some (sender, .checking frame) =>
          if allowed && !s.bad then
            some { s with sendMutex := some (sender, .writing (tcpWrite frame)), frames := s.frames ++ [frame] }
          else some { s with sendMutex := none }
      | _ => none
  | .post, s =>
      match s.sendMutex with
      | some (sender, .writing (piece :: rest)) =>
          some { s with sendMutex := some (sender, .writing rest), strand := s.strand ++ [.write piece] }
      | _ => none
  | .unlock, s =>
      match s.sendMutex with
      | some (_, .writing []) => some { s with sendMutex := none }
      | _ => none
  | .runTask, s =>
      match s.strand with
      | [] => none
      | task :: rest => some ({ s with strand := rest }.runTask task)
  | .transfer index count, s =>
      (s.asyncWrites[index]?).bind fun op => (s.bufferOf op).map fun buffer =>
        { s with
          asyncWrites := s.asyncWrites.set index
            { op with written := op.written ++ (buffer.drop op.written.length).take count } }
  | .finish index ec, s =>
      (s.asyncWrites[index]?).bind fun op => (s.bufferOf op).bind fun buffer =>
        if ec || op.written.length == buffer.length then
          some { s with asyncWrites := s.asyncWrites.eraseIdx index, strand := s.strand ++ [.written ec op] }
        else none
  | .readCompleted ec, s => some { s with strand := s.strand ++ [.read ec] }
  | .interrupt, s => some { s with quit := true }
  | .close, s => some { s with isOpen := false }

end TcpState

/-- A session from its start on. -/
def tcpSystem : Transition.System TcpState TcpAction where
  init s := s = {}
  step := TcpState.step

namespace TcpState

theorem doWrite_of_empty {s : TcpState} (h : s.writeQueue = []) (message : Bytes) :
    s.doWrite message = { s with
      writeQueue := [(s.nextElement, message)]
      nextElement := s.nextElement + 1
      asyncWrites := s.asyncWrites ++ [{ element := s.nextElement }] } := by
  simp [doWrite, doWriteQueued, h]

theorem doWrite_of_ne {s : TcpState} (h : s.writeQueue ≠ []) (message : Bytes) :
    s.doWrite message = { s with
      writeQueue := s.writeQueue ++ [(s.nextElement, message)]
      nextElement := s.nextElement + 1 } := by
  simp [doWrite, h]

theorem writeCompleted_error (s : TcpState) (op : AsyncWrite) :
    s.writeCompleted true op = { s with failed := true, quit := true } := rfl

theorem writeCompleted_last {s : TcpState} {front : Nat × Bytes} (h : s.writeQueue = [front]) (op : AsyncWrite) :
    s.writeCompleted false op = { s with writeQueue := [], sent := s.sent ++ op.written } := by
  simp [writeCompleted, h]

theorem writeCompleted_next {s : TcpState} {front next : Nat × Bytes} {rest : List (Nat × Bytes)}
    (h : s.writeQueue = front :: next :: rest) (op : AsyncWrite) :
    s.writeCompleted false op = { s with
      writeQueue := next :: rest
      sent := s.sent ++ op.written
      asyncWrites := s.asyncWrites ++ [{ element := next.1 }] } := by
  simp [writeCompleted, doWriteQueued, h]

theorem step_lock {sender : Nat} {frame : Bytes} {s s' : TcpState} (h : step (.lock sender frame) s = some s') :
    s.sendMutex = none ∧ s' = { s with sendMutex := some (sender, .checking frame) } := by
  rw [step] at h
  split_ifs at h with hmutex
  exact ⟨hmutex, (Option.some.inj h).symm⟩

theorem step_check {allowed : Bool} {s s' : TcpState} (h : step (.check allowed) s = some s') :
    ∃ sender frame, s.sendMutex = some (sender, .checking frame) ∧
      (s' = { s with sendMutex := some (sender, .writing (tcpWrite frame)), frames := s.frames ++ [frame] } ∨
        s' = { s with sendMutex := none }) := by
  rw [step] at h
  split at h
  · rename_i sender frame hmutex
    refine ⟨sender, frame, hmutex, ?_⟩
    split_ifs at h
    · exact .inl (Option.some.inj h).symm
    · exact .inr (Option.some.inj h).symm
  · cases h

theorem step_post {s s' : TcpState} (h : step .post s = some s') :
    ∃ sender piece rest, s.sendMutex = some (sender, .writing (piece :: rest)) ∧
      s' = { s with sendMutex := some (sender, .writing rest), strand := s.strand ++ [.write piece] } := by
  rw [step] at h
  split at h
  · rename_i sender piece rest hmutex
    exact ⟨sender, piece, rest, hmutex, (Option.some.inj h).symm⟩
  · cases h

theorem step_unlock {s s' : TcpState} (h : step .unlock s = some s') :
    ∃ sender, s.sendMutex = some (sender, .writing []) ∧ s' = { s with sendMutex := none } := by
  rw [step] at h
  split at h
  · rename_i sender hmutex
    exact ⟨sender, hmutex, (Option.some.inj h).symm⟩
  · cases h

theorem step_runTask {s s' : TcpState} (h : step .runTask s = some s') :
    ∃ task rest, s.strand = task :: rest ∧ s' = { s with strand := rest }.runTask task := by
  rw [step] at h
  split at h
  · cases h
  · rename_i task rest hstrand
    exact ⟨task, rest, hstrand, (Option.some.inj h).symm⟩

theorem step_transfer {index count : Nat} {s s' : TcpState} (h : step (.transfer index count) s = some s') :
    ∃ op buffer, s.asyncWrites[index]? = some op ∧ s.bufferOf op = some buffer ∧
      s' = { s with
        asyncWrites := s.asyncWrites.set index
          { op with written := op.written ++ (buffer.drop op.written.length).take count } } := by
  obtain ⟨op, hop, h⟩ := Option.bind_eq_some_iff.mp h
  obtain ⟨buffer, hbuffer, rfl⟩ := Option.map_eq_some_iff.mp h
  exact ⟨op, buffer, hop, hbuffer, rfl⟩

theorem step_finish {index : Nat} {ec : Bool} {s s' : TcpState} (h : step (.finish index ec) s = some s') :
    ∃ op buffer, s.asyncWrites[index]? = some op ∧ s.bufferOf op = some buffer ∧
      (ec = false → op.written.length = buffer.length) ∧
      s' = { s with asyncWrites := s.asyncWrites.eraseIdx index, strand := s.strand ++ [.written ec op] } := by
  obtain ⟨op, hop, h⟩ := Option.bind_eq_some_iff.mp h
  obtain ⟨buffer, hbuffer, h⟩ := Option.bind_eq_some_iff.mp h
  split_ifs at h with hdone
  refine ⟨op, buffer, hop, hbuffer, fun hec => ?_, (Option.some.inj h).symm⟩
  simpa [hec] using hdone

end TcpState

end LspCpp

import LspCpp.LibTransition
import LspCpp.StreamRoundTrip

/-! `LSPStreamMessageProducer::listen` on the stream of a TCP or a WebSocket connection. The bytes of the peer go
into a queue and the end of the connection sets a flag; the reader looks at the one or the other at every access to
the stream, and each access is a step of its own. The socket is not closed from this side. -/

namespace LspCpp

/-- The two streams over a connection. -/
inductive StreamWrapper where
  | tcp
  | websocket
  deriving DecidableEq

/-- One test of the flag in `listen`, with what is reported where it is set. -/
structure Look where
  info : Bytes
  level : LogLevel
  reason : Bool
  deriving DecidableEq

/-- The tests of `reportInputState`: `bad`, then `fail`. Neither wrapper needs its state cleared. -/
def inputState : List Look :=
  [⟨bytesOf "Input stream is bad.", .severe, true⟩, ⟨bytesOf "Input fail.", .warning, true⟩]

/-- The tests after the bulk read of a body: `bad`, `eof`, then `fail`. -/
def bodyState : List Look :=
  [⟨bytesOf "Input stream is bad.", .severe, true⟩,
    ⟨bytesOf "No more input when reading content body", .info, false⟩,
    ⟨bytesOf "Input fail.", .warning, true⟩]

/-- The tests in `discardBytes`: `bad`, then `eof` or `fail`. -/
def discardState : List Look :=
  [⟨bytesOf "Input stream is bad while discarding oversized frame.", .severe, false⟩,
    ⟨bytesOf "Input ended while discarding oversized frame.", .warning, false⟩,
    ⟨bytesOf "Input ended while discarding oversized frame.", .warning, false⟩]

/-- Where the reader is in `listen`: what it does next. -/
inductive ReaderPc where
  | looking (looks : List Look) (next : ReaderPc)
  | findHeader
  | tryDequeue
  | get
  | dequeueRest (c : UInt8)
  | readBody (contentLength : Nat)
  | getBody (contentLength : Nat)
  | discard (count : Nat)
  | getDiscarded (left count : Nat)
  | callBack (contentLength : Nat)
  | afterCallBack
  | returned
  deriving DecidableEq

/-- The head of the loop of `listen`. -/
def loopHead : ReaderPc := .looking inputState .findHeader

/-- `readMore`, by the `read_some` of the wrapper: the TCP wrapper takes what the queue holds and waits only where it
holds nothing; the WebSocket wrapper has the one of `lsp::istream`, which takes single bytes. -/
def StreamWrapper.readMore : StreamWrapper → ReaderPc
  | .tcp => .tryDequeue
  | .websocket => .get

/-- A wrapper and its reader. `notOpen` is the ready state of a WebSocket; `arrived` are all the bytes that have been
put into the queue. -/
structure WrapperState where
  onRequest : Bytes := []
  quit : Bool := false
  errorMessage : Bytes := []
  notOpen : Bool := false
  pc : ReaderPc := loopHead
  buffer : Bytes := []
  events : List ListenEvent := []
  arrived : Bytes := []
  deriving DecidableEq

inductive WrapperAction where
  | enqueueAll (elements : Bytes)
  | interrupt (error : Option Bytes)
  | readyState (notOpen : Bool)
  | reader
  deriving DecidableEq

namespace WrapperState

/-- `bad`, and so `eof` and `fail`. -/
def bad (s : WrapperState) : Bool := s.quit

def what (s : WrapperState) : Bytes :=
  if s.errorMessage ≠ [] then s.errorMessage
  else if s.notOpen then bytesOf "Socket is not open."
  else []

/-- The rest of `readMore`, and the look at the stream after it. -/
def append (s : WrapperState) (chunk : Bytes) : WrapperState :=
  { s with buffer := s.buffer ++ chunk, pc := loopHead }

/-- `listen` returns after these events. -/
def stop (s : WrapperState) (events : List ListenEvent) : WrapperState :=
  { s with pc := .returned, events := s.events ++ events }

/-- One test of the flag. -/
def look (s : WrapperState) (look : Look) (looks : List Look) (next : ReaderPc) : WrapperState :=
  if s.bad then
    s.stop [.issue (if look.reason then withReason look.info s.what else look.info) look.level]
  else { s with pc := .looking looks next }

/-- What `listen` makes of a header block, where `rest` is what the buffer holds after it. -/
def handleHeader (settings : ProducerSettings) (s : WrapperState) (headerBlock rest : Bytes) : WrapperState :=
  let contentLength := (parseHeaderBlock headerBlock {}).contentLength
  if contentLength < 0 then
    { s with
      buffer := rest
      pc := loopHead
      events := s.events ++ [.issue (bytesOf "Unexpected token:" ++ headerBlock ++
        bytesOf "  (expected Content-Length: sequence);") .warning] }
  else if settings.maxFrameSize ≠ 0 ∧ settings.maxFrameSize < contentLength.toNat then
    let report := reportOverload settings (overloadMessage contentLength.toNat settings.maxFrameSize)
    if report.1 = false then { s with buffer := rest }.stop report.2
    else
      { s with
        buffer := rest.drop contentLength.toNat
        pc := .discard (contentLength.toNat - min rest.length contentLength.toNat)
        events := s.events ++ report.2 }
  else if rest.length < contentLength.toNat then
    { s with buffer := rest, pc := .readBody contentLength.toNat }
  else { s with buffer := rest, pc := .callBack contentLength.toNat }

/-- `get`: the first byte of the queue, or the end of the input where the flag is set. It waits where neither is
there: the reader has no step. -/
def get (s : WrapperState) (eof : WrapperState) (item : UInt8 → WrapperState → WrapperState) :
    Option WrapperState :=
  if s.quit then some eof
  else
    match s.onRequest with
    | [] => none
    | c :: rest => some (item c { s with onRequest := rest })

/-- One step of the reader. -/
def read (wrapper : StreamWrapper) (settings : ProducerSettings) (s : WrapperState) : Option WrapperState :=
  match s.pc with
  | .looking [] next => some { s with pc := next }
  | .looking (l :: looks) next => some (s.look l looks next)
  | .findHeader =>
      match findHeaderEnd s.buffer with
      | none => some { s with pc := wrapper.readMore }
      | some (headerEnd, delimiterSize) =>
          some (s.handleHeader settings (s.buffer.take headerEnd) (s.buffer.drop (headerEnd + delimiterSize)))
  | .tryDequeue =>
      match s.onRequest.take 4096 with
      | [] => some { s with pc := .get }
      | chunk => some ({ s with onRequest := s.onRequest.drop 4096 }.append chunk)
  | .get =>
      s.get
        (s.stop (if s.buffer = [] then []
          else [.issue (bytesOf "No more input when reading message headers") .info]))
        fun c s =>
          match wrapper with
          | .tcp => { s with pc := .dequeueRest c }
          | .websocket => s.append [c]
  | .dequeueRest c => some ({ s with onRequest := s.onRequest.drop 4095 }.append (c :: s.onRequest.take 4095))
  | .readBody contentLength =>
      let needed := contentLength - s.buffer.length
      some { s with
        onRequest := s.onRequest.drop needed
        buffer := s.buffer ++ s.onRequest.take needed
        pc := .getBody contentLength }
  | .getBody contentLength =>
      let left := contentLength - s.buffer.length
      if left = 0 then some { s with pc := .looking bodyState (.callBack contentLength) }
      else
        s.get { s with buffer := s.buffer ++ List.replicate left 0, pc := .looking bodyState (.callBack contentLength) }
          fun c s => { s with buffer := s.buffer ++ [c] }
  | .discard 0 => some { s with pc := loopHead }
  | .discard count =>
      let toRead := min count 4096
      some { s with
        onRequest := s.onRequest.drop toRead
        pc := .getDiscarded (toRead - (s.onRequest.take toRead).length) (count - toRead) }
  | .getDiscarded 0 count => some { s with pc := .looking discardState (.discard count) }
  | .getDiscarded (left + 1) count =>
      s.get { s with pc := .looking discardState (.discard count) } fun _ s => { s with pc := .getDiscarded left count }
  | .callBack contentLength =>
      some { s with
        buffer := s.buffer.drop contentLength
        pc := .afterCallBack
        events := s.events ++ [.message (s.buffer.take contentLength)] }
  | .afterCallBack => some { s with pc := if s.bad && s.buffer.isEmpty then .returned else loopHead }
  | .returned => none

/-- The completion of a read or of a write with an error sets the message of the error before it interrupts the
stream; a WebSocket that is closed only interrupts it. -/
def step (wrapper : StreamWrapper) (settings : ProducerSettings) : WrapperAction → WrapperState → Option WrapperState
  | .enqueueAll elements, s =>
      some { s with onRequest := s.onRequest ++ elements, arrived := s.arrived ++ elements }
  | .interrupt error, s => some { s with errorMessage := error.getD s.errorMessage, quit := true }
  | .readyState notOpen, s =>
      match wrapper with
      | .tcp => none
      | .websocket => some { s with notOpen := notOpen }
  | .reader, s => s.read wrapper settings

end WrapperState

/-- A connection from its start on, with the messages that its producer is configured for. -/
def wrapperSystem (wrapper : StreamWrapper) (settings : ProducerSettings) :
    Transition.System WrapperState WrapperAction where
  init s := s = {}
  step := WrapperState.step wrapper settings

end LspCpp

import LspCpp.StreamHeader

/-! The producer of the standard JSON stream style: it reads its input in pieces of any size, cuts the frames
out of it and hands their bodies on. -/

namespace LspCpp

/-- `lsp::istream`, by what its operations return in a state `σ` of the stream and the state they leave.
`read` returns the bytes that it stores. -/
structure IStream (σ : Type*) where
  readSome : Nat → σ → Bytes × σ
  read : Nat → σ → Bytes × σ
  eof : σ → Bool
  fail : σ → Bool
  bad : σ → Bool
  what : σ → Bytes
  needToClearTheState : σ → Bool
  clear : σ → σ

/-- The levels of `lsp::Log` at which the producer reports. -/
inductive LogLevel where
  | severe
  | warning
  | info
  deriving DecidableEq, Repr

/-- What the producer does to its surroundings: a call of the message consumer or of the issue handler. -/
inductive ListenEvent where
  | message (content : Bytes)
  | issue (text : Bytes) (level : LogLevel)
  deriving DecidableEq, Repr

/-- The settings of a `StreamMessageProducer`. -/
structure ProducerSettings where
  maxFrameSize : Nat := 0
  overloadHandler : Option (Bytes → Bool) := none

section Listen

variable {σ : Type*} (S : IStream σ)

/-- A reason is appended where there is one. -/
def withReason (info what : Bytes) : Bytes :=
  if what = [] then info else info ++ bytesOf "Reason:" ++ what

/-- `reportInputState`: whether reading may go on, the state of the stream and what was reported. -/
def reportInputState (s : σ) : Bool × σ × List ListenEvent :=
  if S.bad s then
    (false, s, [.issue (withReason (bytesOf "Input stream is bad.") (S.what s)) .severe])
  else if S.fail s then
    let issue := .issue (withReason (bytesOf "Input fail.") (S.what s)) .warning
    if S.needToClearTheState s then (true, S.clear s, [issue]) else (false, s, [issue])
  else (true, s, [])

/-- `StreamMessageProducer::reportOverload`. -/
def reportOverload (settings : ProducerSettings) (message : Bytes) : Bool × List ListenEvent :=
  (match settings.overloadHandler with
    | none => false
    | some handler => handler message, [.issue message .warning])

/-- `discardBytes`, where `rounds` bounds the number of reads. -/
def discardBytes : Nat → Nat → σ → Option σ × List ListenEvent
  | _, 0, s => (some s, [])
  | 0, _, s => (some s, [])
  | rounds + 1, count, s =>
      let toRead := min count 4096
      let s := (S.read toRead s).2
      if S.bad s then
        (none, [.issue (bytesOf "Input stream is bad while discarding oversized frame.") .severe])
      else if S.eof s || S.fail s then
        (none, [.issue (bytesOf "Input ended while discarding oversized frame.") .warning])
      else discardBytes rounds (count - toRead) s

/-- How a part of the loop ends: `listen` returns, or it goes on with a stream and a buffer. -/
inductive Listening (σ β : Type*) where
  | returned (events : List ListenEvent)
  | goesOn (events : List ListenEvent) (next : β) (s : σ) (buffer : Bytes)

/-- The events come before those of what follows. -/
def Listening.after {σ β : Type*} (events : List ListenEvent) : Listening σ β → Listening σ β
  | .returned events' => .returned (events ++ events')
  | .goesOn events' next s buffer => .goesOn (events ++ events') next s buffer

/-- The inner loop of `listen`: read until the buffer holds the end of a header. -/
def fillBuffer : Nat → σ → Bytes → Option (Listening σ (Nat × Nat))
  | fuel, s, buffer =>
      match findHeaderEnd buffer with
      | some headerEnd => some (.goesOn [] headerEnd s buffer)
      | none =>
          match fuel with
          | 0 => none
          | fuel + 1 =>
              match S.readSome 4096 s with
              | ([], _) =>
                  some (.returned (if buffer = [] then []
                    else [.issue (bytesOf "No more input when reading message headers") .info]))
              | (chunk, s) =>
                  match reportInputState S s with
                  | (false, _, events) => some (.returned events)
                  | (true, s, events) => (fillBuffer fuel s (buffer ++ chunk)).map (.after events)

/-- The body of a frame is in the buffer. -/
def deliver (contentLength : Nat) (s : σ) (buffer : Bytes) : Listening σ Unit :=
  let events := [.message (buffer.take contentLength)]
  let buffer := buffer.drop contentLength
  if S.eof s && buffer.isEmpty then .returned events else .goesOn events () s buffer

/-- The bulk read of the part of the body that is not in the buffer yet. -/
def readBody (contentLength : Nat) (s : σ) (buffer : Bytes) : Listening σ Unit :=
  let needed := contentLength - buffer.length
  let (chunk, s) := S.read needed s
  if S.bad s then
    .returned [.issue (withReason (bytesOf "Input stream is bad.") (S.what s)) .severe]
  else if S.eof s then
    .returned [.issue (bytesOf "No more input when reading content body") .info]
  else if S.fail s then
    .returned [.issue (withReason (bytesOf "Input fail.") (S.what s)) .warning]
  else deliver S contentLength s (buffer ++ chunk ++ List.replicate (needed - chunk.length) 0)

def overloadMessage (contentLength maxFrameSize : Nat) : Bytes :=
  bytesOf "LSP frame size " ++ toDecimal contentLength ++ bytesOf " exceeds configured maximum " ++
    toDecimal maxFrameSize ++ bytesOf "."

/-- A frame that is too large is skipped, or ends the reading. -/
def skipBody (settings : ProducerSettings) (contentLength : Nat) (s : σ) (buffer : Bytes) :
    Listening σ Unit :=
  match reportOverload settings (overloadMessage contentLength settings.maxFrameSize) with
  | (false, events) => .returned events
  | (true, events) =>
      let remaining := contentLength - min buffer.length contentLength
      match discardBytes S remaining remaining s with
      | (none, events') => .returned (events ++ events')
      | (some s, events') => .goesOn (events ++ events') () s (buffer.drop contentLength)

/-- One round of `listen` after the end of a header has been found. -/
def handleFrame (settings : ProducerSettings) (headerBlock : Bytes) (s : σ) (buffer : Bytes) :
    Listening σ Unit :=
  let contentLength := (parseHeaderBlock headerBlock {}).contentLength
  if contentLength < 0 then
    .goesOn [.issue (bytesOf "Unexpected token:" ++ headerBlock ++
      bytesOf "  (expected Content-Length: sequence);") .warning] () s buffer
  else if settings.maxFrameSize ≠ 0 ∧ settings.maxFrameSize < contentLength.toNat then
    skipBody S settings contentLength.toNat s buffer
  else if buffer.length < contentLength.toNat then
    readBody S contentLength.toNat s buffer
  else deliver S contentLength.toNat s buffer

/-- `LSPStreamMessageProducer::listen` on a stream that no other thread interrupts: the events in their
order, where it returns within the given number of rounds. -/
def listen (settings : ProducerSettings) : Nat → σ → Bytes → Option (List ListenEvent)
  | 0, _, _ => none
  | fuel + 1, s, buffer =>
      match reportInputState S s with
      | (false, _, events) => some events
      | (true, s, events) =>
          match fillBuffer S fuel s buffer with
          | none => none
          | some (.returned events') => some (events ++ events')
          | some (.goesOn events' (headerEnd, delimiterSize) s buffer) =>
              match handleFrame S settings (buffer.take headerEnd) s (buffer.drop (headerEnd + delimiterSize)) with
              | .returned events'' => some (events ++ events' ++ events'')
              | .goesOn events'' _ s buffer =>
                  (listen settings fuel s buffer).map (events ++ events' ++ events'' ++ ·)

end Listen

end LspCpp

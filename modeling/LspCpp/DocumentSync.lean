import LspCpp.DispatchGateInvariant
import LspCpp.WorkingRefines

/-! A client with documents and a server that follows them. The handlers of `textDocument/didOpen`,
`textDocument/didChange` and `textDocument/didClose` call the store of documents, one after the other on the thread of
the ordered dispatcher, while the parse tasks and the handlers of requests run on theirs. -/

namespace LspCpp

/-- `kMethodInfo` of the notifications whose handlers change the store. -/
def documentMethods : List String := ["textDocument/didOpen", "textDocument/didChange", "textDocument/didClose"]

/-- A message of the client. Of one that changes no document it is kept what `parseAndClassify` makes of its frame. -/
inductive ClientMessage where
  | didOpen (uri : LsDocumentUri) (version : Int) (text : Bytes)
  | didChange (uri : LsDocumentUri) (version : Option Int) (contentChanges : List ContentChange)
  | didClose (uri : LsDocumentUri)
  | other (parsed : ParsedMessage) (h : ∀ message ∈ parsed.message, message.method ∉ documentMethods)

namespace ClientMessage

/-- What the handler of a message does with the store. -/
def action : ClientMessage → Option (WorkingAction LsDocumentUri)
  | .didOpen uri version text => some (.onOpen uri version text)
  | .didChange uri version contentChanges => some (.onChange uri version contentChanges)
  | .didClose uri => some (.onClose uri)
  | .other .. => none

/-- A notification that its parser has read. -/
def notification (method : String) : ParsedMessage := { ok := true, message := some ⟨.notification, method, .kNone⟩ }

def parsed : ClientMessage → ParsedMessage
  | .didOpen .. => notification "textDocument/didOpen"
  | .didChange .. => notification "textDocument/didChange"
  | .didClose .. => notification "textDocument/didClose"
  | .other parsed _ => parsed

end ClientMessage

/-- `sent` and `texts` are the messages and the documents of the client; `handled` tells that the handler of the running
notification has done its call of the store. -/
structure SyncState where
  gate : GateState := {}
  sent : List ClientMessage := []
  texts : TextMap := fun _ => none
  files : WorkingFiles := {}
  handled : Bool := false

inductive SyncAction where
  | send (message : ClientMessage)
  | endpoint (a : GateAction)
  | handle

namespace SyncState

/-- The message that the reader gives this number. -/
def message? (s : SyncState) (sequence : Nat) : Option ClientMessage := s.sent[sequence - s.gate.route.start]?

def action? (s : SyncState) (sequence : Nat) : Option (WorkingAction LsDocumentUri) :=
  (s.message? sequence).bind ClientMessage.action

/-- `acquireParseQueueSlot` submits an empty placeholder for a message that it drops. -/
def dropsUnparsed (limits : RemoteEndPointLimits) : Bool :=
  limits.overloadPolicy = .dropNewest && limits.maxParseQueueSize ≠ 0

/-- A message is read once it has been sent, a parse task submits what it makes of its frame, and a handler has done its
call when it returns. -/
def allows (s : SyncState) : GateAction → Bool
  | .read => s.gate.route.nextMessageSequence < s.gate.route.start + s.sent.length
  | .submit sequence parsed _ =>
      (s.message? sequence).any fun message =>
        parsed = message.parsed || (dropsUnparsed s.gate.route.limits && parsed = {})
  | .handlerEnds => s.handled
  | _ => true

/-- After a step of the endpoint; where a handler has ended, the next one has done nothing yet. -/
def advance (s : SyncState) (a : GateAction) (gate : GateState) : SyncState :=
  { s with gate := gate, handled := s.handled && a ≠ .handlerEnds }

/-- A client changes its own documents when it sends the change; an edit that has no valid range in them is not sent.
The operations of the store hold `files_mutex`, so that a call is one step. -/
def step (posix : Posix) : SyncAction → SyncState → Option SyncState
  | .send message, s =>
      ((textSystem (LsDocumentUri.getAbsolutePath posix)).run message.action.toList s.texts).map fun texts =>
        { s with sent := s.sent ++ [message], texts := texts }
  | .endpoint a, s =>
      if s.allows a then (GateState.step a s.gate).map (s.advance a) else none
  | .handle, s =>
      match s.gate.loop, s.handled with
      | .running item, false =>
          ((workingSystem (LsDocumentUri.getAbsolutePath posix)).run (s.action? item.sequence).toList s.files).map
            fun files => { s with files := files, handled := true }
      | _, _ => none

/-- The documents of the client after its first `n` messages. -/
def textsAfter (posix : Posix) (s : SyncState) (n : Nat) : Option TextMap :=
  (textSystem (LsDocumentUri.getAbsolutePath posix)).run ((s.sent.take n).filterMap ClientMessage.action) fun _ => none

/-- Everything that was sent has been read, parsed, routed and handled. -/
structure Settled (s : SyncState) : Prop where
  running : s.gate.route.quit = false
  read : s.gate.route.nextMessageSequence = s.gate.route.start + s.sent.length
  submitted : s.gate.route.inFlight = []
  routed : s.gate.route.ready = none
  taken : s.gate.dispatcher.notificationQueue = []
  completed : s.gate.loop = .waiting

/-- The client sends URIs without a backslash in their paths. -/
def SendsPlain (posix : Posix) : SyncAction → SyncState → Prop
  | .send message, _ => ∀ a ∈ message.action, WorkingFiles.NoBackslash posix a
  | _, _ => True

instance (posix : Posix) (a : WorkingAction LsDocumentUri) : Decidable (WorkingFiles.NoBackslash posix a) :=
  inferInstanceAs (Decidable (∀ uri ∈ a.uri?, 92 ∉ (uri.getAbsolutePath posix).path))

instance (posix : Posix) (a : SyncAction) (s : SyncState) : Decidable (SendsPlain posix a s) :=
  match a with
  | .send message => inferInstanceAs (Decidable (∀ a ∈ message.action, WorkingFiles.NoBackslash posix a))
  | .endpoint _ => isTrue trivial
  | .handle => isTrue trivial

end SyncState

/-- A session of the server right after its start, with an empty store. -/
def syncSystem (posix : Posix) : Transition.System SyncState SyncAction where
  init s := ∃ gate, gateSystem.init gate ∧ s = { gate := gate }
  step := SyncState.step posix

namespace SyncState

variable {posix : Posix} {s s' : SyncState}

end SyncState

end LspCpp

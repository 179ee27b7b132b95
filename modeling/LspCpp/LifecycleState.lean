import LspCpp.DispatchOrdered
import LspCpp.RouteReorder
import Mathlib.Logic.Function.Basic
import Mathlib.Tactic.SplitIfs

/-! An endpoint over any number of sessions: `startProcessingMessages` and `stop`, statement by statement, and
the threads that they start, wait for and detach. What belongs to one session (its reader, its notification
loop, its pools, its output state) is named by the generation of that session. -/

namespace LspCpp

/-- A task of a parse pool. -/
structure ParseTask where
  sequence : Nat
  pool : Nat
  deriving DecidableEq, Repr

/-- A task of a handler pool. -/
structure WorkerTask where
  item : DispatchItem
  pool : Nat
  deriving DecidableEq, Repr

/-- The thread that calls `startProcessingMessages` or `stop`: one of the application, a notification loop in a
handler, a worker in a handler, or a reader or a parse task in `handleOverload`. -/
inductive Caller where
  | application
  | loop (session : Nat)
  | worker (task : WorkerTask)
  | reader (session : Nat)
  | parser (task : ParseTask)
  deriving DecidableEq, Repr

/-- The statement of `startProcessingMessages` that comes next. A new pool is in place before the assignment
destroys the old one, which joins its threads. -/
inductive StartPhase where
  | output
  | async
  | bind
  | parsePool
  | joinParsers
  | handlerPool
  | joinWorkers
  | dispatcher
  | routing
  | reader
  deriving DecidableEq, Repr

/-- The statement of `stop` and of `clear` that comes next. -/
inductive ClearPhase where
  | quit
  | routing
  | producer
  | output
  | dispatcher
  | joinLoop
  | async
  | joinAsync
  | pools
  | joinReader
  | finish
  deriving DecidableEq, Repr

/-- Who holds `lifecycle_mutex`, and how far the call is. -/
inductive LifecyclePhase where
  | free
  | starting (caller : Caller) (phase : StartPhase)
  | stopping (caller : Caller) (phase : ClearPhase)
  deriving DecidableEq, Repr

def LifecyclePhase.caller : LifecyclePhase → Option Caller
  | .free => none
  | .starting caller _ | .stopping caller _ => some caller

/-- A call of `startProcessingMessages` has come to a statement. -/
def LifecyclePhase.starts (phase : StartPhase) : LifecyclePhase → Bool
  | .starting _ current => current = phase
  | .free | .stopping .. => false

/-- Where a reader is: before `listen`, at the head of its loop, inside a pass of it, with a message for
`postParseTask`, with a message that the parse queue has no room for, routing, in `handleOverload`, past it.
A reader that met an oversized frame leaves `listen` after the overload. -/
inductive ReaderPhase where
  | entering
  | looping
  | reading
  | posting (sequence : Nat)
  | dropping (sequence : Nat)
  | routing
  | overloaded (leaves : Bool)
  | handled (leaves : Bool)
  deriving DecidableEq, Repr

/-- `buffer` holds the messages that were read and not delivered, each by the session of its stream. -/
structure Reader where
  buffer : List Nat := []
  phase : ReaderPhase := .entering
  deriving DecidableEq, Repr

/-- Where a notification loop is: waiting, with an item in hand, in the handler of one, past it, or posting the
requests that it has released. -/
inductive NotificationLoopPhase where
  | waiting
  | taken (item : DispatchItem)
  | handling (item : DispatchItem)
  | returned (item : DispatchItem)
  | posting (ready : List ParkedRequest)
  deriving DecidableEq, Repr

/-- The thread that holds the dispatch lock. -/
inductive DispatchHolder where
  | parser (task : ParseTask)
  | reader (session : Nat)
  deriving DecidableEq, Repr

/-- A call of `submitParsedMessage` that routes: the message that is being routed, with the output state taken
for it, and those after it. -/
structure Dispatch where
  holder : DispatchHolder
  current : Option (SequencedParsedMessage × Nat) := none
  items : List SequencedParsedMessage
  deriving DecidableEq, Repr

/-- `active` is that of the output state of each session. `origin` records the session from whose stream the
message with a sequence number came, `started` the notifications whose handlers were started and `written` the
messages that wrote and the session written to. `stuck` is set when the thread that routes calls `stop`, which
waits for the dispatch lock. -/
structure LifecycleState where
  limits : RemoteEndPointLimits := {}
  concurrentNotifications : List String := []
  lifecycle : LifecyclePhase := .free
  working : Bool := false
  quit : Bool := false
  generation : Nat := 0
  active : Nat → Bool := fun _ => false
  input : Nat := 0
  keepRunning : Bool := false
  messageProducerThread : Option Nat := none
  readers : Nat → Option Reader := fun _ => none
  nextMessageSequence : Nat := 0
  origin : Nat → Option Nat := fun _ => none
  parsePool : Nat := 0
  parsePoolStopped : Bool := true
  parseQueueSize : Nat := 0
  parseQueue : List ParseTask := []
  parsing : List ParseTask := []
  overloaded : List ParseTask := []
  reorder : Reorder := {}
  dispatch : Option Dispatch := none
  stuck : Bool := false
  dispatcher : OrderedDispatcher := {}
  notificationThread : Option Nat := none
  loops : Nat → Option NotificationLoopPhase := fun _ => none
  handlerPool : Nat := 0
  handlerPoolStopped : Bool := true
  handlerQueue : List WorkerTask := []
  handling : List WorkerTask := []
  asyncCompletionStop : Bool := false
  asyncCompletions : List (Nat × Nat) := []
  asyncRunning : Option (Nat × Nat) := none
  started : List Nat := []
  written : List (Nat × Nat) := []

namespace LifecycleState

def setReader (s : LifecycleState) (session : Nat) (reader : Reader) : LifecycleState :=
  { s with readers := Function.update s.readers session (some reader) }

def removeReader (s : LifecycleState) (session : Nat) : LifecycleState :=
  { s with readers := Function.update s.readers session none }

def setLoop (s : LifecycleState) (session : Nat) (phase : NotificationLoopPhase) : LifecycleState :=
  { s with loops := Function.update s.loops session (some phase) }

/-- The end of a parse task gives its slot back. -/
def endParse (s : LifecycleState) (task : ParseTask) : LifecycleState :=
  { s with parsing := s.parsing.erase task, parseQueueSize := s.parseQueueSize - 1 }

/-- The caller of `stop` goes on. -/
def resume (s : LifecycleState) : Caller → LifecycleState
  | .application | .loop _ | .worker _ => s
  | .reader session =>
      match s.readers session with
      | some ⟨buffer, .overloaded leaves⟩ => s.setReader session ⟨buffer, .handled leaves⟩
      | _ => s
  | .parser task => { s.endParse task with overloaded := s.overloaded.erase task }

/-- The caller of `stop` is all that changes. -/
theorem resume_cases (s : LifecycleState) (caller : Caller) :
    s.resume caller = s ∨
      (∃ session buffer leaves, caller = .reader session ∧
        s.readers session = some ⟨buffer, .overloaded leaves⟩ ∧
        s.resume caller = s.setReader session ⟨buffer, .handled leaves⟩) ∨
      ∃ task, caller = .parser task ∧
        s.resume caller = { s.endParse task with overloaded := s.overloaded.erase task } := by
  cases caller with
  | reader session =>
      rw [resume]
      split
      · rename_i buffer leaves hreader
        exact .inr (.inl ⟨session, buffer, leaves, rfl, hreader, rfl⟩)
      · exact .inl rfl
  | parser task => exact .inr (.inr ⟨task, rfl, rfl⟩)
  | _ => exact .inl rfl

/-- A thread that may call `startProcessingMessages`. -/
def mayStart (s : LifecycleState) : Caller → Bool
  | .application => true
  | .loop session =>
      match s.loops session with
      | some (.handling _) => true
      | _ => false
  | .worker task => task ∈ s.handling
  | .reader _ | .parser _ => false

/-- A thread that may call `stop`. -/
def mayStop (s : LifecycleState) : Caller → Bool
  | .reader session =>
      match s.readers session with
      | some ⟨_, .overloaded _⟩ => true
      | _ => false
  | .parser task => task ∈ s.overloaded
  | caller => s.mayStart caller

/-- `sendSessionMessage` for the message `sequence`, through the output state of `session`. -/
def sendSessionMessage (s : LifecycleState) (sequence session : Nat) : LifecycleState :=
  if s.active session then { s with written := s.written ++ [(sequence, session)] } else s

def postToWorker (s : LifecycleState) (item : DispatchItem) : LifecycleState :=
  if s.quit || s.handlerPool == 0 then s
  else { s with handlerQueue := s.handlerQueue ++ [⟨item, s.handlerPool⟩] }

def postAsyncCompletion (s : LifecycleState) (sequence session : Nat) : LifecycleState :=
  if s.asyncCompletionStop || s.quit then s
  else { s with asyncCompletions := s.asyncCompletions ++ [(sequence, session)] }

theorem sendSessionMessage_cases (s : LifecycleState) (sequence session : Nat) :
    s.sendSessionMessage sequence session = s ∨
      s.sendSessionMessage sequence session = { s with written := s.written ++ [(sequence, session)] } := by
  unfold sendSessionMessage
  split_ifs
  · exact .inr rfl
  · exact .inl rfl

theorem postToWorker_cases (s : LifecycleState) (item : DispatchItem) :
    s.postToWorker item = s ∨
      s.postToWorker item = { s with handlerQueue := s.handlerQueue ++ [⟨item, s.handlerPool⟩] } := by
  unfold postToWorker
  split_ifs
  · exact .inl rfl
  · exact .inr rfl

theorem postAsyncCompletion_cases (s : LifecycleState) (sequence session : Nat) :
    s.postAsyncCompletion sequence session = s ∨ s.postAsyncCompletion sequence session =
      { s with asyncCompletions := s.asyncCompletions ++ [(sequence, session)] } := by
  unfold postAsyncCompletion
  split_ifs
  · exact .inl rfl
  · exact .inr rfl

/-- `handleOverload` on the thread that routes. -/
def overload (s : LifecycleState) : LifecycleState :=
  if s.limits.overloadPolicy = .dropNewest then s else { s with stuck := true }

/-- `routeParsedIncoming` after it has taken the output state. Cancels and responses cause no writes here. -/
def routeParsedIncoming (s : LifecycleState) (item : SequencedParsedMessage) (session : Nat) : LifecycleState :=
  match routeTarget s.concurrentNotifications item.parsed with
  | .dropped | .cancel _ | .completePending .. => s
  | .reply _ => s.sendSessionMessage item.sequence session
  | .worker message => s.postToWorker ⟨item.sequence, message, session⟩
  | .notification message =>
      match s.dispatcher.enqueueNotification s.limits s.quit ⟨item.sequence, message, session⟩ with
      | (_, .overloaded _) => s.overload
      | (dispatcher, _) => { s with dispatcher := dispatcher }
  | .request message =>
      if s.quit then s
      else
        match s.dispatcher.enqueueRequest s.limits ⟨item.sequence, message, session⟩ with
        | (_, .overloaded _) => s.overload
        | (_, .postNow) => s.postToWorker ⟨item.sequence, message, session⟩
        | (dispatcher, _) => { s with dispatcher := dispatcher }

/-- The critical section of `submitParsedMessage` where `quit` is not set: the thread routes what is ready, or
goes on with an overload. -/
def submitParsedMessage (s : LifecycleState) (holder : DispatchHolder) (sequence : Nat) (parsed : ParsedMessage)
    (bypassReorderLimit : Bool) : Option LifecycleState :=
  match s.reorder.submitParsedMessage s.limits sequence parsed bypassReorderLimit with
  | (_, .overloaded _) => none
  | (reorder, .ready items) => some { s with reorder := reorder, dispatch := some { holder := holder, items := items } }

end LifecycleState

end LspCpp

import LspCpp.CancelRegistry
import LspCpp.DispatchOrdered
import LspCpp.LibLock
import LspCpp.PendingTable
import LspCpp.RouteReorder

/-! A call of `submitParsedMessage` with everything that it calls, as the program of the thread that makes it,
with the mutexes that it locks. A wait for another thread (the joins of `stop`) locks nothing and is left out,
and so are the other threads: the call is not interrupted. -/

namespace LspCpp

open Lock Lock.Exec

/-- The mutexes of an endpoint; none of them is recursive. -/
inductive EndPointMutex where
  | routeDispatch
  | route
  | ordered
  | lifecycle
  | send
  | registry
  | requestInfo
  | asyncCompletion
  deriving DecidableEq, Repr

/-- The handler of a pending request, with the mutexes that it locks one after the other. A handler that is
not deferred is one of the endpoint's own, which store the response and lock nothing. -/
structure ResponseHandler where
  completed : Bool := false
  deferredCallback : Bool := true
  locks : List EndPointMutex := []
  fastStateOnly : deferredCallback = false → locks = [] := by decide

inductive HandlerTask where
  | dispatch (item : DispatchItem)
  | complete (pending : Nat)
  deriving DecidableEq, Repr

/-- The fields of an endpoint that `submitParsedMessage` and `stop` work on. `active`, `output` and
`generation` are the current `SessionOutputState`. -/
structure EndPoint where
  limits : RemoteEndPointLimits := {}
  quit : Bool := false
  working : Bool := false
  messageProducerThread : Bool := false
  reorder : Reorder := {}
  dispatcher : OrderedDispatcher := {}
  concurrentNotifications : List String := []
  active : Bool := true
  output : Option (List LspMessage) := some []
  generation : Nat := 0
  cancellationRegistry : RequestCancellationRegistry := {}
  pendingRequests : PendingTable := {}
  handlers : Nat → ResponseHandler := fun _ => {}
  handlerPool : Option (List HandlerTask) := some []
  asyncCompletionStop : Bool := false
  log : List String := []

abbrev EndPointExec := Exec EndPointMutex EndPoint

namespace EndPoint

def markCompleted (s : EndPoint) (pending : Nat) : EndPoint :=
  { s with handlers := Function.update s.handlers pending { s.handlers pending with completed := true } }

/-- `PendingRequestInfo::complete`. -/
def complete (pending : Nat) : EndPointExec Unit := do
  let s ← get
  if (s.handlers pending).completed then pure ()
  else
    modify fun s => s.markCompleted pending
    lockEach (s.handlers pending).locks

def clearMessageRouting : EndPointExec Unit :=
  withLock .routeDispatch (critical .route fun s =>
    ((), { s with reorder := s.reorder.clearMessageRouting }))

def failPendingRequests : EndPointExec Unit := do
  let pending ← critical .requestInfo fun s =>
    (s.pendingRequests.takeAll.2, { s with pendingRequests := s.pendingRequests.takeAll.1 })
  pending.forM complete

def stopOrderedDispatcher : EndPointExec Unit :=
  critical .ordered fun s => ((), { s with dispatcher := s.dispatcher.stopOrderedDispatcher })

def stopAsyncCompletionLoop : EndPointExec Unit :=
  critical .asyncCompletion fun s => ((), { s with asyncCompletionStop := true })

/-- `Data::clear`. The cancelers that it takes out of the registry set a flag. -/
def clear : EndPointExec Unit := do
  modify fun s => { s with quit := true }
  clearMessageRouting
  modify fun s => { s with active := false }
  critical .send fun s => ((), { s with output := none })
  critical .registry fun s => ((), { s with cancellationRegistry := s.cancellationRegistry.clear.1 })
  failPendingRequests
  stopOrderedDispatcher
  stopAsyncCompletionLoop

/-- `RemoteEndPoint::stop`. -/
def stop : EndPointExec Unit :=
  withLock .lifecycle do
    let s ← get
    if !s.working && !s.messageProducerThread then pure ()
    else
      clear
      modify fun s => { s with messageProducerThread := false, working := false }

/-- `Data::handleOverload`: whether the newest message is dropped and the session goes on. -/
def handleOverload (message : String) : EndPointExec Bool := do
  modify fun s => { s with log := s.log ++ ["RemoteEndPoint overload: " ++ message] }
  let s ← get
  if s.limits.overloadPolicy = .dropNewest then pure true
  else
    stop
    pure false

/-- A task for the handler pool. -/
def post (s : EndPoint) (task : HandlerTask) : EndPoint :=
  if s.quit then s else { s with handlerPool := s.handlerPool.map (· ++ [task]) }

def postToWorker (message : LspMessage) (sequence responseState : Nat) : EndPointExec Unit :=
  modify fun s => s.post (.dispatch ⟨sequence, message, responseState⟩)

def sendSessionMessage (message : LspMessage) : EndPointExec Unit := do
  let s ← get
  if s.active then
    critical .send fun s =>
      ((), if s.active then { s with output := s.output.map (· ++ [message]) } else s)
  else pure ()

def onCancel (message : LspMessage) (sequence : Nat) : EndPointExec Unit :=
  critical .registry fun s => ((), { s with
    cancellationRegistry := (s.cancellationRegistry.onCancel s.limits message.id sequence).1 })

def allowsConcurrentNotification (method : String) : EndPointExec Bool :=
  critical .route fun s => (decide (method ∈ s.concurrentNotifications), s)

def completePendingResponse (message : LspMessage) (pending : Nat) : EndPointExec Unit := do
  let removed ← critical .requestInfo fun s =>
    match s.pendingRequests.removeExpected message.id pending with
    | none => (false, s)
    | some table => (true, { s with pendingRequests := table })
  let s ← get
  if !removed then pure ()
  else if (s.handlers pending).deferredCallback then modify fun s => s.post (.complete pending)
  else complete pending

/-- What the enqueue operations do after their critical section with a message for a full queue. -/
def afterEnqueue (enqueued : Enqueued) (postNow : EndPointExec Unit) : EndPointExec Unit :=
  match enqueued with
  | .overloaded message => do
      let _ ← handleOverload message
      pure ()
  | .postNow => postNow
  | .ignored | .queued => pure ()

def enqueueNotification (message : LspMessage) (sequence responseState : Nat) : EndPointExec Unit := do
  let s ← get
  if s.quit then pure ()
  else
    let enqueued ← critical .ordered fun s =>
      let enqueued := s.dispatcher.enqueueNotification s.limits s.quit ⟨sequence, message, responseState⟩
      (enqueued.2, { s with dispatcher := enqueued.1 })
    afterEnqueue enqueued (pure ())

def enqueueRequest (message : LspMessage) (sequence responseState : Nat) : EndPointExec Unit := do
  let s ← get
  if s.quit then pure ()
  else
    let enqueued ← critical .ordered fun s =>
      let enqueued := s.dispatcher.enqueueRequest s.limits ⟨sequence, message, responseState⟩
      (enqueued.2, { s with dispatcher := enqueued.1 })
    afterEnqueue enqueued (postToWorker message sequence responseState)

/-- `RemoteEndPoint::routeParsedIncoming`. -/
def routeParsedIncoming (item : SequencedParsedMessage) : EndPointExec Unit := do
  let s ← get
  match item.parsed.ok, item.parsed.message, s.quit with
  | true, some message, false =>
      if item.parsed.outgoing then sendSessionMessage message
      else
        match item.parsed.kind, item.parsed.pending with
        | .notification, _ =>
            if message.method = cancelRequestMethod then onCancel message item.sequence
            else do
              let concurrent ← allowsConcurrentNotification message.method
              if concurrent then postToWorker message item.sequence s.generation
              else enqueueNotification message item.sequence s.generation
        | .request, _ => enqueueRequest message item.sequence s.generation
        | .response, some pending => completePendingResponse message pending
        | .response, none => postToWorker message item.sequence s.generation
  | _, _, _ => pure ()

/-- The part of `submitParsedMessage` under the dispatch lock: the text of an overload that remains to be
handled. -/
def submitDispatching (sequence : Nat) (parsed : ParsedMessage) (bypassReorderLimit : Bool) :
    EndPointExec (Option String) :=
  withLock .routeDispatch do
    let submitted ← critical .route fun s =>
      if s.quit then (none, s)
      else
        let submitted := s.reorder.submitParsedMessage s.limits sequence parsed bypassReorderLimit
        (some submitted.2, { s with reorder := submitted.1 })
    match submitted with
    | some (.ready items) => do
        items.forM routeParsedIncoming
        pure none
    | some (.overloaded message) => pure (some message)
    | none => pure none

/-- `Data::submitParsedMessage`. A message that the reorder buffer has no room for is handled after the
dispatch lock has been released. -/
def submitParsedMessage (sequence : Nat) (parsed : ParsedMessage) (bypassReorderLimit : Bool) :
    EndPointExec Unit := do
  let overloaded ← submitDispatching sequence parsed bypassReorderLimit
  match overloaded with
  | some message => do
      let _ ← handleOverload message
      pure ()
  | none => pure ()

end EndPoint

end LspCpp

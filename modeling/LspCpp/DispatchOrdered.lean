import LspCpp.EndpointMessage

/-! The ordered dispatcher: the queue of notifications that one loop executes in order, and the requests that
are parked until the notifications before them have been executed. The functions here are the critical
sections under `ordered_mutex`, and the decision of `routeParsedIncoming` that leads to them. -/

namespace LspCpp

/-- A message with its sequence number and the generation of the output state that it is answered through. -/
structure DispatchItem where
  sequence : Nat
  message : LspMessage
  responseState : Nat
  deriving DecidableEq, Repr

/-- A request that waits for the notification with the sequence number `gate`. -/
structure ParkedRequest where
  gate : Nat
  request : DispatchItem
  deriving DecidableEq, Repr

structure OrderedDispatcher where
  notificationQueue : List DispatchItem := []
  parkedRequests : List ParkedRequest := []
  notificationStop : Bool := false
  hasLastOrderedNotification : Bool := false
  lastOrderedNotificationSeq : Nat := 0
  hasCompletedNotification : Bool := false
  completedNotificationSeq : Nat := 0
  deriving DecidableEq, Repr

/-- How the critical section of an enqueue operation ends: nothing is done, the message is queued or parked,
it is to be posted to the handler pool, or a queue is full. -/
inductive Enqueued where
  | ignored
  | queued
  | postNow
  | overloaded (message : String)
  deriving DecidableEq, Repr

namespace OrderedDispatcher

def notificationGateSatisfied (d : OrderedDispatcher) (gate : Nat) : Bool :=
  d.hasCompletedNotification && gate ≤ d.completedNotificationSeq

/-- `startOrderedDispatcher` resets everything. -/
def startOrderedDispatcher (_ : OrderedDispatcher) : OrderedDispatcher := {}

def stopOrderedDispatcher (d : OrderedDispatcher) : OrderedDispatcher :=
  { d with notificationStop := true, notificationQueue := [], parkedRequests := [] }

/-- `enqueueNotification` after its first check of `quit`. -/
def enqueueNotification (d : OrderedDispatcher) (limits : RemoteEndPointLimits) (quit : Bool)
    (item : DispatchItem) : OrderedDispatcher × Enqueued :=
  if d.notificationStop || quit then (d, .ignored)
  else if limits.maxNotificationQueueSize ≠ 0 ∧
      limits.maxNotificationQueueSize ≤ d.notificationQueue.length then
    (d, .overloaded ("notification queue size would exceed configured maximum " ++
      toString limits.maxNotificationQueueSize ++ "."))
  else
    ({ d with
        hasLastOrderedNotification := true
        lastOrderedNotificationSeq := item.sequence
        notificationQueue := d.notificationQueue ++ [item] }, .queued)

/-- `enqueueRequest` after its check of `quit`. -/
def enqueueRequest (d : OrderedDispatcher) (limits : RemoteEndPointLimits) (item : DispatchItem) :
    OrderedDispatcher × Enqueued :=
  if !d.notificationStop && d.hasLastOrderedNotification &&
      !d.notificationGateSatisfied d.lastOrderedNotificationSeq then
    if limits.maxParkedRequestQueueSize ≠ 0 ∧
        limits.maxParkedRequestQueueSize ≤ d.parkedRequests.length then
      (d, .overloaded ("parked request queue size would exceed configured maximum " ++
        toString limits.maxParkedRequestQueueSize ++ "."))
    else
      ({ d with parkedRequests := d.parkedRequests ++ [⟨d.lastOrderedNotificationSeq, item⟩] }, .queued)
  else (d, .postNow)

/-- `releaseParkedRequestsLocked`: the requests whose gate is open leave in their order. -/
def releaseParkedRequestsLocked (d : OrderedDispatcher) : OrderedDispatcher × List ParkedRequest :=
  ({ d with parkedRequests := d.parkedRequests.filter fun p => !d.notificationGateSatisfied p.gate },
    d.parkedRequests.filter fun p => d.notificationGateSatisfied p.gate)

/-- What `notificationLoop` does after the handler of a notification has returned or thrown. -/
def completeNotification (d : OrderedDispatcher) (sequence : Nat) : OrderedDispatcher × List ParkedRequest :=
  releaseParkedRequestsLocked
    { d with hasCompletedNotification := true, completedNotificationSeq := sequence }

end OrderedDispatcher

/-- Where `routeParsedIncoming` takes a message. -/
inductive RouteTarget where
  | dropped
  | reply (message : LspMessage)
  | cancel (message : LspMessage)
  | worker (message : LspMessage)
  | notification (message : LspMessage)
  | request (message : LspMessage)
  | completePending (message : LspMessage) (pending : Nat)
  deriving DecidableEq, Repr

/-- The decision of `routeParsedIncoming`, where `quit` is not set. -/
def routeTarget (concurrentNotifications : List String) (parsed : ParsedMessage) : RouteTarget :=
  match parsed.ok, parsed.message with
  | true, some message =>
      if parsed.outgoing then .reply message
      else
        match parsed.kind, parsed.pending with
        | .notification, _ =>
            if message.method = cancelRequestMethod then .cancel message
            else if message.method ∈ concurrentNotifications then .worker message
            else .notification message
        | .request, _ => .request message
        | .response, some pending => .completePending message pending
        | .response, none => .worker message
  | _, _ => .dropped

end LspCpp

import Mathlib.Init

/-! The messages an endpoint exchanges and the limits it is configured with. Of a message only what
the endpoint itself looks at is kept: its kind, its method and its request id. -/

namespace LspCpp

/-- `lsRequestId`: an id that was not set, a number or a string. Two ids compare equal when they are
of one type and their value of that type is the same. -/
inductive LsRequestId where
  | kNone
  | kInt (value : Int)
  | kString (k_string : String)
  deriving DecidableEq, Repr

/-- `lsRequestId::has_value`. -/
def LsRequestId.hasValue : LsRequestId → Bool
  | .kNone => false
  | _ => true

/-- `LspMessage::Kind`. -/
inductive MessageKind where
  | request
  | response
  | notification
  deriving DecidableEq, Repr

structure LspMessage where
  kind : MessageKind
  method : String
  id : LsRequestId := .kNone
  deriving DecidableEq, Repr

/-- `Notify_Cancellation::notify::kMethodInfo`. -/
def cancelRequestMethod : String := "$/cancelRequest"

/-- What `parseAndClassify` hands to the router; the default value is the empty placeholder.
`pending` names the entry of the pending table that the parser captured. -/
structure ParsedMessage where
  ok : Bool := false
  outgoing : Bool := false
  kind : MessageKind := .notification
  message : Option LspMessage := none
  pending : Option Nat := none
  deriving DecidableEq, Repr

inductive RemoteEndPointOverloadPolicy where
  | stopProcessing
  | dropNewest
  deriving DecidableEq, Repr

/-- `RemoteEndPointLimits`: zero means unlimited. -/
structure RemoteEndPointLimits where
  maxFrameSize : Nat := 0
  maxParseQueueSize : Nat := 0
  maxReorderBufferSize : Nat := 0
  maxNotificationQueueSize : Nat := 0
  maxParkedRequestQueueSize : Nat := 0
  maxPendingCancelRequests : Nat := 0
  maxSeenRequestIds : Nat := 0
  maxPendingOutgoingRequests : Nat := 0
  overloadPolicy : RemoteEndPointOverloadPolicy := .stopProcessing
  deriving DecidableEq, Repr

end LspCpp

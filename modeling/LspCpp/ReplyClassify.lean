import LspCpp.DispatchOrdered
import Mathlib.Algebra.Ring.Int.Defs
import Mathlib.Data.List.TakeWhile

/-! How the content of a frame becomes a message: what `parseAndClassify` looks at in the document, the request id
that it reads, and the error that it makes itself for a request without a parser or with parameters that its parser
rejects. -/

namespace LspCpp

/-- A member of a document. Numbers that are no integers are all alike here, and so are arrays and objects. -/
inductive JsonValue where
  | null
  | bool (value : Bool)
  | integer (value : Int)
  | double
  | string (value : String)
  | structured
  deriving DecidableEq, Repr

/-- What `document.Parse` makes of the content of a frame: nothing, a value without members, or an object. -/
inductive Content where
  | parseError
  | value
  | object (members : List (String × JsonValue))
  deriving DecidableEq, Repr

/-- `JsonReader::GetString` goes through a C string. -/
def getString (value : String) : String := String.ofList (value.toList.takeWhile (· ≠ '\x00'))

namespace LsRequestId

/-- `Reflect(Reader&, lsRequestId&)`; its branches for 32 and for 64 bits store the same number. -/
def reflectReader : JsonValue → LsRequestId
  | .integer value => if -2 ^ 63 ≤ value ∧ value < 2 ^ 63 then .kInt value else .kNone
  | .string value => .kString (getString value)
  | _ => .kNone

/-- `Reflect(Writer&, lsRequestId&)`. -/
def reflectWriter : LsRequestId → JsonValue
  | .kNone => .null
  | .kInt value => .integer value
  | .kString k_string => .string k_string

end LsRequestId

/-- The codes of `lsErrorCodes` that the endpoint sets itself, and those of an application. -/
inductive LsErrorCodes where
  | methodNotFound
  | invalidParams
  | internalError
  | unknownErrorCode
  | other (code : Int)
  deriving DecidableEq, Repr

structure LsResponseError where
  code : LsErrorCodes := .unknownErrorCode
  message : String := ""
  deriving DecidableEq, Repr

/-- `makeErrorMessage`; the error itself is kept beside the message. -/
def makeErrorMessage (id : LsRequestId) : LspMessage := ⟨.response, "", id⟩

/-- What the parser of a message does. -/
inductive ParserOutcome where
  | message
  | null
  | throws (what : String)
  deriving DecidableEq, Repr

/-- `MessageJsonHandler`: the methods that have a parser. -/
structure MessageJsonHandler where
  method2request : List String := []
  method2response : List String := []
  method2notification : List String := []
  deriving DecidableEq, Repr

namespace MessageJsonHandler

variable (handler : MessageJsonHandler) (method : String) (outcome : ParserOutcome)

def parseRequstMessage : ParserOutcome := if method ∈ handler.method2request then outcome else .null

def parseResponseMessage : ParserOutcome := if method ∈ handler.method2response then outcome else .null

def parseNotificationMessage : ParserOutcome := if method ∈ handler.method2notification then outcome else .null

end MessageJsonHandler

/-- What a call of `parseAndClassify` meets: the parser that it calls, and the entry of the pending table with the
method of its request that `getRequestInfo` finds before and after that. -/
structure ParseOutcome where
  parser : ParserOutcome := .message
  requestInfo : Option (Nat × String) := none
  requestInfoAfter : Option (Nat × String) := none
  deriving DecidableEq, Repr

section Classify

variable (members : List (String × JsonValue))

/-- The member `jsonrpc` is the text 2.0. -/
def hasVersion : Bool :=
  match members.lookup "jsonrpc" with
  | some (.string value) => getString value = "2.0"
  | _ => false

def isRequestMessage : Bool :=
  match members.lookup "method" with
  | some (.string _) => (members.lookup "id").isSome
  | _ => false

def isResponseMessage : Bool :=
  (members.lookup "id").isSome && ((members.lookup "result").isSome || (members.lookup "error").isSome)

def isNotificationMessage : Bool :=
  match members.lookup "method" with
  | some (.string _) => (members.lookup "id").isNone
  | _ => false

/-- `ReflectMember(visitor, "id", id)`: a missing member leaves the id unset. -/
def reflectId : LsRequestId := ((members.lookup "id").map LsRequestId.reflectReader).getD .kNone

/-- `visitor["method"]->GetString()`. -/
def methodOf : String :=
  match members.lookup "method" with
  | some (.string value) => getString value
  | _ => ""

variable (handler : MessageJsonHandler) (outcome : ParseOutcome)

/-- The answer to a request that does not reach a handler: it can only be given when the id was read. -/
def rejectRequest (error : LsResponseError) : ParsedMessage × Option LsResponseError :=
  let id := reflectId members
  if id.hasValue then
    ({ ok := true, outgoing := true, kind := .response, message := some (makeErrorMessage id) }, some error)
  else ({}, none)

/-- A response whose parser failed completes the pending request with an error. -/
def failResponse (pending : Nat) : ParsedMessage × Option LsResponseError :=
  ({ ok := true, kind := .response, message := some (makeErrorMessage (reflectId members)), pending := some pending },
    some ⟨.internalError, "Failed to parse response message."⟩)

def classifyRequest : ParsedMessage × Option LsResponseError :=
  let method := methodOf members
  match handler.parseRequstMessage method outcome.parser with
  | .message => ({ ok := true, kind := .request, message := some ⟨.request, method, reflectId members⟩ }, none)
  | .null => rejectRequest members ⟨.methodNotFound, "Method not found: " ++ method⟩
  | .throws what => rejectRequest members ⟨.invalidParams, what⟩

def classifyResponse : ParsedMessage × Option LsResponseError :=
  match outcome.requestInfo with
  | none => ({ ok := true, kind := .response }, none)
  | some (pending, method) =>
      match handler.parseResponseMessage method outcome.parser with
      | .message =>
          ({ ok := true, kind := .response, message := some ⟨.response, "", reflectId members⟩,
             pending := some pending }, none)
      | .null => failResponse members pending
      | .throws _ =>
          match outcome.requestInfoAfter with
          | some (pending, _) => if (reflectId members).hasValue then failResponse members pending else ({}, none)
          | none => ({}, none)

def classifyNotification : ParsedMessage × Option LsResponseError :=
  let method := methodOf members
  match handler.parseNotificationMessage method outcome.parser with
  | .message => ({ ok := true, message := some ⟨.notification, method, .kNone⟩ }, none)
  | .null | .throws _ => ({}, none)

end Classify

/-- `parseAndClassify`, with the error of the message where it made one. -/
def parseAndClassify (handler : MessageJsonHandler) (outcome : ParseOutcome) :
    Content → ParsedMessage × Option LsResponseError
  | .parseError | .value => ({}, none)
  | .object members =>
      if hasVersion members then
        if isRequestMessage members then classifyRequest members handler outcome
        else if isResponseMessage members then classifyResponse members handler outcome
        else if isNotificationMessage members then classifyNotification members handler outcome
        else ({}, none)
      else ({}, none)

/-- The id of a request; no other content has one. -/
def Content.requestId : Content → Option JsonValue
  | .parseError | .value => none
  | .object members => if hasVersion members && isRequestMessage members then members.lookup "id" else none

/-- A 64-bit integer or a string without a NUL. -/
def JsonValue.IsRequestId : JsonValue → Prop
  | .integer value => -2 ^ 63 ≤ value ∧ value < 2 ^ 63
  | .string value => '\x00' ∉ value.toList
  | _ => False

instance : (value : JsonValue) → Decidable value.IsRequestId
  | .integer value => inferInstanceAs (Decidable (-2 ^ 63 ≤ value ∧ value < 2 ^ 63))
  | .string value => inferInstanceAs (Decidable ('\x00' ∉ value.toList))
  | .null | .bool _ | .double | .structured => isFalse id

/-- The id under which a message is answered, where it is a request. -/
def LspMessage.owesReply (message : LspMessage) : Option JsonValue :=
  if message.kind = .request then some message.id.reflectWriter else none

/-- The id under which a routed message is answered, on the spot or by a handler. -/
def RouteTarget.owesReply : RouteTarget → Option JsonValue
  | .reply message => some message.id.reflectWriter
  | .worker message | .notification message | .request message => message.owesReply
  | .dropped | .cancel _ | .completePending .. => none

theorem getString_eq_self {value : String} (h : '\x00' ∉ value.toList) : getString value = value := by
  have hall : value.toList.takeWhile (· ≠ '\x00') = value.toList := by
    rw [List.takeWhile_eq_self_iff]
    intro c hc
    apply decide_eq_true
    exact fun heq => h (heq ▸ hc)
  rw [getString, hall, String.ofList_toList]

/-- An id is written as it was read. -/
theorem reflectWriter_reflectReader {value : JsonValue} (h : value.IsRequestId) :
    (LsRequestId.reflectReader value).reflectWriter = value := by
  cases value with
  | integer value =>
      have hrange : -2 ^ 63 ≤ value ∧ value < 2 ^ 63 := h
      rw [LsRequestId.reflectReader, if_pos hrange, LsRequestId.reflectWriter]
  | string value => rw [LsRequestId.reflectReader, getString_eq_self h, LsRequestId.reflectWriter]
  | null | bool _ | double | structured => exact h.elim

theorem hasValue_reflectReader {value : JsonValue} (h : value.IsRequestId) :
    (LsRequestId.reflectReader value).hasValue = true := by
  cases value with
  | integer value =>
      have hrange : -2 ^ 63 ≤ value ∧ value < 2 ^ 63 := h
      rw [LsRequestId.reflectReader, if_pos hrange]
      rfl
  | string value => rfl
  | null | bool _ | double | structured => exact h.elim

section Owed

variable {members : List (String × JsonValue)} {handler : MessageJsonHandler} {outcome : ParseOutcome}
  {concurrentNotifications : List String}

theorem owesReply_rejectRequest {value : JsonValue} (hid : members.lookup "id" = some value)
    (hvalue : value.IsRequestId) (error : LsResponseError) :
    (routeTarget concurrentNotifications (rejectRequest members error).1).owesReply = some value := by
  have hread : reflectId members = LsRequestId.reflectReader value := by rw [reflectId, hid]; rfl
  have hset : (reflectId members).hasValue = true := by rw [hread, hasValue_reflectReader hvalue]
  simp only [rejectRequest, if_pos hset]
  show some (reflectId members).reflectWriter = some value
  rw [hread, reflectWriter_reflectReader hvalue]

/-- A request is answered under its own id, whatever its parser does. -/
theorem owesReply_classifyRequest {value : JsonValue} (hid : members.lookup "id" = some value)
    (hvalue : value.IsRequestId) :
    (routeTarget concurrentNotifications (classifyRequest members handler outcome).1).owesReply = some value := by
  unfold classifyRequest
  dsimp only
  split
  · have hread : reflectId members = LsRequestId.reflectReader value := by rw [reflectId, hid]; rfl
    show some (reflectId members).reflectWriter = some value
    rw [hread, reflectWriter_reflectReader hvalue]
  · exact owesReply_rejectRequest hid hvalue _
  · exact owesReply_rejectRequest hid hvalue _

theorem owesReply_classifyResponse :
    (routeTarget concurrentNotifications (classifyResponse members handler outcome).1).owesReply = none := by
  unfold classifyResponse
  split
  · rfl
  · split
    · rfl
    · rfl
    · split
      · split_ifs <;> rfl
      · rfl

theorem owesReply_classifyNotification :
    (routeTarget concurrentNotifications (classifyNotification members handler outcome).1).owesReply = none := by
  unfold classifyNotification
  dsimp only
  split
  · simp only [routeTarget, Bool.false_eq_true, if_false]
    split_ifs <;> rfl
  all_goals rfl

/-- A content leads to a reply exactly when it is a request, and then to one under its id. -/
theorem owesReply_parseAndClassify {content : Content}
    (hvalue : ∀ value, content.requestId = some value → value.IsRequestId) :
    (routeTarget concurrentNotifications (parseAndClassify handler outcome content).1).owesReply =
      content.requestId := by
  cases content with
  | parseError => rfl
  | value => rfl
  | object members =>
      rw [parseAndClassify]
      unfold Content.requestId at hvalue ⊢
      dsimp only at hvalue ⊢
      by_cases hversion : hasVersion members = true
      · by_cases hrequest : isRequestMessage members = true
        · rw [hversion, hrequest] at hvalue ⊢
          obtain ⟨value, hid⟩ : ∃ value, members.lookup "id" = some value := by
            unfold isRequestMessage at hrequest
            split at hrequest
            · exact Option.isSome_iff_exists.mp hrequest
            · cases hrequest
          show (routeTarget _ (classifyRequest members handler outcome).1).owesReply = members.lookup "id"
          rw [hid]
          exact owesReply_classifyRequest hid (hvalue value hid)
        · rw [if_pos hversion, if_neg hrequest]
          simp only [hversion, hrequest, Bool.true_and, Bool.false_eq_true, if_false]
          split_ifs
          · exact owesReply_classifyResponse
          · exact owesReply_classifyNotification
          · rfl
      · rw [if_neg hversion]
        simp only [hversion, Bool.false_and, Bool.false_eq_true, if_false]
        rfl

end Owed

end LspCpp

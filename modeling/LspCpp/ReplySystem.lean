import LspCpp.DispatchGateInvariant
import LspCpp.ReplyClassify

/-! The replies of one session: the parse tasks, the dispatcher and its notification loop, the workers and the async
completion loop in any interleaving, over every content that is read and everything that parsers and handlers can do.
Of what is written only the response frames are recorded. -/

namespace LspCpp

/-- The content of a frame with the sequence number it was read under. -/
structure Incoming where
  sequence : Nat
  content : Content
  deriving DecidableEq, Repr

/-- `ResponseOrError`: a result, or an error. -/
inductive ReplyBody where
  | result
  | error (error : LsResponseError)
  deriving DecidableEq, Repr

/-- `sequence` names the message that the frame answers; it is not part of what is written. -/
structure ResponseFrame where
  sequence : Nat
  id : JsonValue
  body : ReplyBody
  deriving DecidableEq, Repr

/-- What a handler or its future can throw, by the `catch` clauses of the registered wrappers. -/
inductive Thrown where
  | requestError (error : LsResponseError)
  | exception (what : String)
  | unknown
  deriving DecidableEq, Repr

/-- How a handler or the `get` of its future ends. -/
inductive HandlerOutcome where
  | returned (body : ReplyBody)
  | threw (thrown : Thrown)
  deriving DecidableEq, Repr

def Thrown.body : Thrown → ReplyBody
  | .requestError error => .error error
  | .exception what => .error ⟨.internalError, what⟩
  | .unknown => .error ⟨.internalError, "Unhandled exception."⟩

def HandlerOutcome.body : HandlerOutcome → ReplyBody
  | .returned body => body
  | .threw thrown => thrown.body

/-- How a request handler was registered: by `registerSyncRequestHandler` or `registerAsyncRequestHandler`. The variants
with a cancel monitor reply in the same way. -/
inductive RequestHandler where
  | sync
  | async
  deriving DecidableEq, Repr

/-- The application in a call of `mainLoop`: it ends, or hands out a future. -/
inductive HandlerRun where
  | ended (outcome : HandlerOutcome)
  | future
  deriving DecidableEq, Repr

/-- The closure that `completeAsyncHandler` posts. -/
structure AsyncCompletion where
  sequence : Nat
  id : LsRequestId
  deriving DecidableEq, Repr

/-- `running` are the tasks that the workers of the handler pool have taken, `completing` is the closure that the async
completion loop is executing. `errors` are the errors inside the messages that parse tasks made, by sequence number.
`dropped` records the replies that `sendSessionMessage` did not write since the stream was bad. -/
structure ReplyState where
  gate : GateState := {}
  jsonHandler : MessageJsonHandler := {}
  method2request : List (String × RequestHandler) := []
  incoming : List Incoming := []
  errors : List (Nat × LsResponseError) := []
  running : List DispatchItem := []
  asyncCompletions : List AsyncCompletion := []
  completing : Option AsyncCompletion := none
  outputBad : Bool := false
  frames : List ResponseFrame := []
  dropped : List ResponseFrame := []

inductive ReplyAction where
  | read (content : Content)
  | parse (sequence : Nat) (outcome : ParseOutcome)
  | route
  | dispatch (action : GateAction)
  | handlerEnds (run : HandlerRun)
  | work
  | finish (item : DispatchItem) (run : HandlerRun)
  | takeCompletion
  | pollUnready
  | pollReady (outcome : HandlerOutcome)
  | outputFails
  deriving DecidableEq, Repr

/-- The steps of the dispatcher that neither read nor execute a message. -/
def GateAction.moves : GateAction → Bool
  | .postNow | .release | .take | .complete | .postParked | .wait => true
  | .read | .submit .. | .route | .handlerEnds | .work | .stop => false

namespace ReplyState

/-- `sendSessionMessage` in a session that is not stopped, where the output state is active. -/
def sendSessionMessage (s : ReplyState) (sequence : Nat) (id : LsRequestId) (body : ReplyBody) : ReplyState :=
  if s.outputBad then { s with dropped := s.dropped ++ [⟨sequence, id.reflectWriter, body⟩] }
  else { s with frames := s.frames ++ [⟨sequence, id.reflectWriter, body⟩] }

/-- `postAsyncCompletion` in a session that is not stopped. -/
def postAsyncCompletion (s : ReplyState) (completion : AsyncCompletion) : ReplyState :=
  { s with asyncCompletions := s.asyncCompletions ++ [completion] }

/-- `mainLoop`, with the wrapper of the request handler that `onRequest` finds. Notifications and responses go to
handlers that are not answered. -/
def mainLoop (s : ReplyState) (item : DispatchItem) (run : HandlerRun) : Option ReplyState :=
  match item.message.kind with
  | .notification | .response => some s
  | .request =>
      match s.method2request.lookup item.message.method, run with
      | none, _ =>
          some (s.sendSessionMessage item.sequence item.message.id
            (.error ⟨.methodNotFound, "Method not found: " ++ item.message.method⟩))
      | some .sync, .ended outcome =>
          some (s.sendSessionMessage item.sequence item.message.id outcome.body)
      | some .async, .ended (.threw thrown) =>
          some (s.sendSessionMessage item.sequence item.message.id thrown.body)
      | some .async, .future => some (s.postAsyncCompletion ⟨item.sequence, item.message.id⟩)
      | some .sync, .future | some .async, .ended (.returned _) => none

/-- A step of the dispatcher. -/
def gateStep (s : ReplyState) (a : GateAction) : Option ReplyState :=
  (GateState.step a s.gate).map fun gate => { s with gate := gate }

/-- A call of `routeParsedIncoming` writes the errors of `parseAndClassify` itself. -/
def reply (s : ReplyState) (item : SequencedParsedMessage) : ReplyState :=
  match routeTarget s.gate.concurrentNotifications item.parsed with
  | .reply message =>
      s.sendSessionMessage item.sequence message.id (.error ((s.errors.lookup item.sequence).getD {}))
  | _ => s

/-- The content that was read under a sequence number. -/
def contentOf (s : ReplyState) (sequence : Nat) : Option Content :=
  (s.incoming.find? fun incoming => incoming.sequence = sequence).map Incoming.content

/-- A parse task hands its message to `submitParsedMessage`. -/
def submit (s : ReplyState) (sequence : Nat) (classified : ParsedMessage × Option LsResponseError) :
    Option ReplyState :=
  (s.gateStep (.submit sequence classified.1 false)).map fun s' =>
    { s' with errors := (classified.2.map (sequence, ·)).toList ++ s'.errors }

/-- A step of a session that has not quit. A reply is one step with the post or the end of the task that causes it. -/
def step : ReplyAction → ReplyState → Option ReplyState
  | .read content, s =>
      (s.gateStep .read).map fun s' =>
        { s' with incoming := s'.incoming ++ [⟨s.gate.route.nextMessageSequence, content⟩] }
  | .parse sequence outcome, s =>
      (s.contentOf sequence).bind fun content => s.submit sequence (parseAndClassify s.jsonHandler outcome content)
  | .route, s =>
      match s.gate.route.ready with
      | some (item :: _) => (s.gateStep .route).map fun s' => s'.reply item
      | _ => none
  | .dispatch a, s => if a.moves then s.gateStep a else none
  | .handlerEnds run, s =>
      match s.gate.loop with
      | .running item => (s.gateStep .handlerEnds).bind fun s' => s'.mainLoop item run
      | _ => none
  | .work, s =>
      match s.gate.handlerPool with
      | item :: _ => (s.gateStep .work).map fun s' => { s' with running := item :: s'.running }
      | [] => none
  | .finish item run, s =>
      if item ∈ s.running then { s with running := s.running.erase item }.mainLoop item run else none
  | .takeCompletion, s =>
      match s.completing, s.asyncCompletions with
      | none, completion :: rest => some { s with completing := some completion, asyncCompletions := rest }
      | _, _ => none
  | .pollUnready, s =>
      s.completing.map fun completion => { s.postAsyncCompletion completion with completing := none }
  | .pollReady outcome, s =>
      s.completing.map fun completion =>
        { s with completing := none }.sendSessionMessage completion.sequence completion.id outcome.body
  | .outputFails, s => some { s with outputBad := true }

end ReplyState

/-- No queue has a limit. -/
def RemoteEndPointLimits.Unlimited (limits : RemoteEndPointLimits) : Prop :=
  limits = { overloadPolicy := limits.overloadPolicy }

/-- A session right after its start, with any registered parsers and handlers. -/
def replySystem : Transition.System ReplyState ReplyAction where
  init s := ∃ gate jsonHandler method2request, gateSystem.init gate ∧ gate.route.limits.Unlimited ∧
    s = { gate := gate, jsonHandler := jsonHandler, method2request := method2request }
  step := ReplyState.step

namespace ReplyState

/-- The requests that are read have ids that are 64-bit integers or strings without a NUL. -/
def ReadsRequestIds : ReplyAction → ReplyState → Prop
  | .read content, _ => ∀ id ∈ content.requestId, id.IsRequestId
  | _, _ => True

instance : (a : ReplyAction) → (s : ReplyState) → Decidable (ReadsRequestIds a s)
  | .read content, _ => inferInstanceAs (Decidable (∀ id ∈ content.requestId, id.IsRequestId))
  | .parse .., _ | .route, _ | .dispatch _, _ | .handlerEnds _, _ | .work, _ | .finish .., _ | .takeCompletion, _
  | .pollUnready, _ | .pollReady _, _ | .outputFails, _ => isTrue trivial

/-! ### What one step can do -/

theorem gateStep_eq_some {s s' : ReplyState} {a : GateAction} (h : s.gateStep a = some s') :
    ∃ gate, GateState.step a s.gate = some gate ∧ s' = { s with gate := gate } := by
  obtain ⟨gate, hgate, rfl⟩ := Option.map_eq_some_iff.mp h
  exact ⟨gate, hgate, rfl⟩

/-- A reply is written or dropped. -/
theorem sendSessionMessage_cases (s : ReplyState) (sequence : Nat) (id : LsRequestId) (body : ReplyBody) :
    (s.outputBad = true ∧ s.sendSessionMessage sequence id body =
        { s with dropped := s.dropped ++ [⟨sequence, id.reflectWriter, body⟩] }) ∨
      (s.outputBad = false ∧ s.sendSessionMessage sequence id body =
        { s with frames := s.frames ++ [⟨sequence, id.reflectWriter, body⟩] }) := by
  unfold sendSessionMessage
  split_ifs with hbad
  · exact .inl ⟨hbad, rfl⟩
  · exact .inr ⟨by simpa using hbad, rfl⟩

/-- A message that is no request is only executed; a request is answered, or its completion is posted. -/
theorem mainLoop_eq_some {s s' : ReplyState} {item : DispatchItem} {run : HandlerRun}
    (h : s.mainLoop item run = some s') :
    (item.message.kind ≠ .request ∧ s' = s) ∨
      (item.message.kind = .request ∧
        ((∃ body, s' = s.sendSessionMessage item.sequence item.message.id body) ∨
          s' = s.postAsyncCompletion ⟨item.sequence, item.message.id⟩)) := by
  unfold mainLoop at h
  split at h
  · rename_i hkind
    exact .inl ⟨by rw [hkind]; nofun, (Option.some.inj h).symm⟩
  · rename_i hkind
    exact .inl ⟨by rw [hkind]; nofun, (Option.some.inj h).symm⟩
  · rename_i hkind
    refine .inr ⟨hkind, ?_⟩
    split at h
    · exact .inl ⟨_, (Option.some.inj h).symm⟩
    · exact .inl ⟨_, (Option.some.inj h).symm⟩
    · exact .inl ⟨_, (Option.some.inj h).symm⟩
    · exact .inr (Option.some.inj h).symm
    · cases h
    · cases h

theorem step_read {s s' : ReplyState} {content : Content} (h : step (.read content) s = some s') :
    ∃ gate, GateState.step .read s.gate = some gate ∧
      s' = { s with
        gate := gate, incoming := s.incoming ++ [⟨s.gate.route.nextMessageSequence, content⟩] } := by
  obtain ⟨mid, hmid, rfl⟩ := Option.map_eq_some_iff.mp h
  obtain ⟨gate, hgate, rfl⟩ := gateStep_eq_some hmid
  exact ⟨gate, hgate, rfl⟩

theorem step_parse {s s' : ReplyState} {sequence : Nat} {outcome : ParseOutcome}
    (h : step (.parse sequence outcome) s = some s') :
    ∃ content gate errors, ⟨sequence, content⟩ ∈ s.incoming ∧
      GateState.step (.submit sequence (parseAndClassify s.jsonHandler outcome content).1 false) s.gate = some gate ∧
      s' = { s with gate := gate, errors := errors } := by
  obtain ⟨content, hcontent, h⟩ := Option.bind_eq_some_iff.mp h
  obtain ⟨mid, hmid, rfl⟩ := Option.map_eq_some_iff.mp h
  obtain ⟨gate, hgate, rfl⟩ := gateStep_eq_some hmid
  obtain ⟨incoming, hfind, rfl⟩ := Option.map_eq_some_iff.mp hcontent
  have hsequence : incoming.sequence = sequence := by simpa using List.find?_some hfind
  refine ⟨incoming.content, gate, _, ?_, hgate, rfl⟩
  rw [← hsequence]
  exact List.mem_of_find?_eq_some hfind

theorem step_route {s s' : ReplyState} (h : step .route s = some s') :
    ∃ item rest gate, s.gate.route.ready = some (item :: rest) ∧ GateState.step .route s.gate = some gate ∧
      s' = { s with gate := gate }.reply item := by
  rw [step] at h
  split at h
  · rename_i item rest hready
    obtain ⟨mid, hmid, rfl⟩ := Option.map_eq_some_iff.mp h
    obtain ⟨gate, hgate, rfl⟩ := gateStep_eq_some hmid
    exact ⟨item, rest, gate, hready, hgate, rfl⟩
  · cases h

theorem step_dispatch {s s' : ReplyState} {a : GateAction} (h : step (.dispatch a) s = some s') :
    a.moves = true ∧ ∃ gate, GateState.step a s.gate = some gate ∧ s' = { s with gate := gate } := by
  rw [step] at h
  split_ifs at h with hmoves
  exact ⟨hmoves, gateStep_eq_some h⟩

theorem step_handlerEnds {s s' : ReplyState} {run : HandlerRun} (h : step (.handlerEnds run) s = some s') :
    ∃ item gate, s.gate.loop = .running item ∧ GateState.step .handlerEnds s.gate = some gate ∧
      { s with gate := gate }.mainLoop item run = some s' := by
  rw [step] at h
  split at h
  · rename_i item hloop
    obtain ⟨mid, hmid, h⟩ := Option.bind_eq_some_iff.mp h
    obtain ⟨gate, hgate, rfl⟩ := gateStep_eq_some hmid
    exact ⟨item, gate, hloop, hgate, h⟩
  · cases h

theorem step_work {s s' : ReplyState} (h : step .work s = some s') :
    ∃ item rest gate, s.gate.handlerPool = item :: rest ∧ GateState.step .work s.gate = some gate ∧
      s' = { s with gate := gate, running := item :: s.running } := by
  rw [step] at h
  split at h
  · rename_i item rest hpool
    obtain ⟨mid, hmid, rfl⟩ := Option.map_eq_some_iff.mp h
    obtain ⟨gate, hgate, rfl⟩ := gateStep_eq_some hmid
    exact ⟨item, rest, gate, hpool, hgate, rfl⟩
  · cases h

theorem step_finish {s s' : ReplyState} {item : DispatchItem} {run : HandlerRun}
    (h : step (.finish item run) s = some s') :
    item ∈ s.running ∧ { s with running := s.running.erase item }.mainLoop item run = some s' := by
  rw [step] at h
  split_ifs at h with hmem
  exact ⟨hmem, h⟩

theorem step_takeCompletion {s s' : ReplyState} (h : step .takeCompletion s = some s') :
    ∃ completion rest, s.completing = none ∧ s.asyncCompletions = completion :: rest ∧
      s' = { s with completing := some completion, asyncCompletions := rest } := by
  rw [step] at h
  split at h
  · rename_i completion rest hnone hqueue
    exact ⟨completion, rest, hnone, hqueue, (Option.some.inj h).symm⟩
  · cases h

theorem step_pollUnready {s s' : ReplyState} (h : step .pollUnready s = some s') :
    ∃ completion, s.completing = some completion ∧
      s' = { s.postAsyncCompletion completion with completing := none } := by
  obtain ⟨completion, hcompletion, rfl⟩ := Option.map_eq_some_iff.mp h
  exact ⟨completion, hcompletion, rfl⟩

theorem step_pollReady {s s' : ReplyState} {outcome : HandlerOutcome} (h : step (.pollReady outcome) s = some s') :
    ∃ completion, s.completing = some completion ∧
      s' = { s with completing := none }.sendSessionMessage completion.sequence completion.id outcome.body := by
  obtain ⟨completion, hcompletion, rfl⟩ := Option.map_eq_some_iff.mp h
  exact ⟨completion, hcompletion, rfl⟩

end ReplyState

end LspCpp

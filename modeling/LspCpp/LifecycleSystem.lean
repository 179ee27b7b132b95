import LspCpp.LifecycleState
import LspCpp.LibTransition
import Mathlib.Tactic.SplitIfs

/-! The steps of an endpoint over any number of sessions, in any interleaving: the statements of the calls of
`startProcessingMessages` and `stop`, the readers, the parse tasks, the thread that routes, the notification
loops, the workers of the handler pools and the loop of the asynchronous completions. -/

namespace LspCpp

inductive LifecycleAction where
  | start (caller : Caller)
  | stop (caller : Caller)
  | advance
  | enterListen (session : Nat)
  | checkRunning (session : Nat)
  | receive (session : Nat)
  | deliver (session : Nat)
  | frameTooLarge (session : Nat)
  | leaveListen (session : Nat) (stops : Bool)
  | postParseTask (session : Nat)
  | dropNewest (session : Nat)
  | afterOverload (session : Nat)
  | parseBegins (task : ParseTask)
  | submit (task : ParseTask) (parsed : ParsedMessage)
  | takeState
  | route
  | release
  | take (session : Nat)
  | exit (session : Nat)
  | runHandler (session : Nat)
  | handlerSends (session : Nat)
  | handlerReturns (session : Nat)
  | complete (session : Nat)
  | postParked (session : Nat)
  | wait (session : Nat)
  | workBegins (task : WorkerTask)
  | workSends (task : WorkerTask)
  | workLater (task : WorkerTask)
  | workEnds (task : WorkerTask)
  | asyncTake
  | asyncRun (ready : Bool)
  deriving DecidableEq, Repr

namespace LifecycleState

/-- `startOrderedDispatcher` where the thread of an earlier loop is not joinable. -/
def spawnLoop (s : LifecycleState) (caller : Caller) : LifecycleState :=
  { s with
    lifecycle := .starting caller .routing
    dispatcher := s.dispatcher.startOrderedDispatcher
    notificationThread := some s.generation
    loops := Function.update s.loops s.generation (some .waiting) }

def startStep (s : LifecycleState) (caller : Caller) : StartPhase → Option LifecycleState
  | .output =>
      some { s with
        lifecycle := .starting caller .async
        generation := s.generation + 1
        active := Function.update s.active (s.generation + 1) true }
  | .async => some { s with lifecycle := .starting caller .bind, asyncCompletionStop := false }
  | .bind => some { s with lifecycle := .starting caller .parsePool, input := s.generation }
  | .parsePool =>
      some { s with
        lifecycle := .starting caller .joinParsers, parsePool := s.generation, parsePoolStopped := false }
  | .joinParsers =>
      if ∀ task ∈ s.parsing, task.pool = s.generation then
        some { s with
          lifecycle := .starting caller .handlerPool
          parseQueue := s.parseQueue.filter fun task => task.pool = s.generation }
      else none
  | .handlerPool =>
      some { s with
        lifecycle := .starting caller .joinWorkers, handlerPool := s.generation, handlerPoolStopped := false }
  | .joinWorkers =>
      if ∀ task ∈ s.handling, task.pool = s.generation then
        some { s with
          lifecycle := .starting caller .dispatcher
          handlerQueue := s.handlerQueue.filter fun task => task.pool = s.generation }
      else none
  | .dispatcher =>
      match s.notificationThread with
      | none => some (s.spawnLoop caller)
      | some session =>
          if caller = .loop session then
            some { s with
              lifecycle := .starting caller .routing, dispatcher := s.dispatcher.startOrderedDispatcher }
          else if s.loops session = none then some (s.spawnLoop caller)
          else none
  | .routing =>
      if s.dispatch = none then
        some { s with
          lifecycle := .starting caller .reader
          reorder := s.reorder.resetMessageRouting s.nextMessageSequence }
      else none
  | .reader =>
      some { s with
        lifecycle := .free
        readers := Function.update s.readers s.generation (some {})
        messageProducerThread := some s.generation }

def stopStep (s : LifecycleState) (caller : Caller) : ClearPhase → Option LifecycleState
  | .quit => some { s with lifecycle := .stopping caller .routing, quit := true }
  | .routing =>
      if s.dispatch = none then
        some { s with lifecycle := .stopping caller .producer, reorder := s.reorder.clearMessageRouting }
      else none
  | .producer => some { s with lifecycle := .stopping caller .output, keepRunning := false }
  | .output =>
      some { s with
        lifecycle := .stopping caller .dispatcher, active := Function.update s.active s.generation false }
  | .dispatcher =>
      some { s with
        lifecycle := .stopping caller .joinLoop, dispatcher := s.dispatcher.stopOrderedDispatcher }
  | .joinLoop =>
      match s.notificationThread with
      | none => some { s with lifecycle := .stopping caller .async }
      | some session =>
          if caller = .loop session ∨ s.loops session = none then
            some { s with lifecycle := .stopping caller .async, notificationThread := none }
          else none
  | .async =>
      some { s with
        lifecycle := .stopping caller .joinAsync, asyncCompletionStop := true, asyncCompletions := [] }
  | .joinAsync => if s.asyncRunning = none then some { s with lifecycle := .stopping caller .pools } else none
  | .pools =>
      some { s with
        lifecycle := .stopping caller .joinReader, parsePoolStopped := true, handlerPoolStopped := true }
  | .joinReader =>
      match s.messageProducerThread with
      | none => some { s with lifecycle := .stopping caller .finish }
      | some session =>
          if caller = .reader session ∨ s.readers session = none then
            some { s with lifecycle := .stopping caller .finish }
          else none
  | .finish =>
      some (resume { s with lifecycle := .free, messageProducerThread := none, working := false } caller)

/-- A call of `startProcessingMessages` on a working endpoint only logs. -/
def lifecycleStep : LifecycleAction → LifecycleState → Option LifecycleState
  | .start caller, s =>
      if s.lifecycle = .free ∧ s.stuck = false ∧ s.working = false ∧ s.mayStart caller = true then
        some { s with lifecycle := .starting caller .output, working := true, quit := false }
      else none
  | .stop caller, s =>
      if s.lifecycle = .free ∧ s.stuck = false ∧ s.mayStop caller = true then
        if s.working = true ∨ s.messageProducerThread ≠ none then
          some { s with lifecycle := .stopping caller .quit }
        else some (s.resume caller)
      else none
  | .advance, s =>
      match s.lifecycle with
      | .free => none
      | .starting caller phase => s.startStep caller phase
      | .stopping caller phase => s.stopStep caller phase
  | _, _ => none

/-! ### Readers -/

/-- The parse queue is at its limit. -/
def parseQueueFull (s : LifecycleState) : Bool :=
  s.limits.maxParseQueueSize ≠ 0 && s.limits.maxParseQueueSize ≤ s.parseQueueSize

/-- `postParseTask` with `acquireParseQueueSlot`. -/
def postParseTask (s : LifecycleState) (session : Nat) (buffer : List Nat) (sequence : Nat) : LifecycleState :=
  if s.quit || s.parsePool == 0 then s.setReader session ⟨buffer, .looping⟩
  else if s.parseQueueFull then
    s.setReader session
      ⟨buffer, if s.limits.overloadPolicy = .dropNewest then .dropping sequence else .overloaded false⟩
  else
    LifecycleState.setReader
      { s with
        parseQueueSize := s.parseQueueSize + 1
        parseQueue := s.parseQueue ++ [⟨sequence, s.parsePool⟩] } session ⟨buffer, .looping⟩

def readerStep : LifecycleAction → LifecycleState → Option LifecycleState
  | .enterListen session, s =>
      match s.readers session with
      | some ⟨buffer, .entering⟩ => some { s.setReader session ⟨buffer, .looping⟩ with keepRunning := true }
      | _ => none
  | .checkRunning session, s =>
      match s.readers session with
      | some ⟨buffer, .looping⟩ =>
          some (if s.keepRunning then s.setReader session ⟨buffer, .reading⟩ else s.removeReader session)
      | _ => none
  | .receive session, s =>
      match s.readers session with
      | some ⟨buffer, .reading⟩ => some (s.setReader session ⟨buffer ++ [s.input], .reading⟩)
      | _ => none
  | .deliver session, s =>
      match s.readers session with
      | some ⟨stream :: buffer, .reading⟩ =>
          some { s.setReader session ⟨buffer, .posting s.nextMessageSequence⟩ with
            nextMessageSequence := s.nextMessageSequence + 1
            origin := Function.update s.origin s.nextMessageSequence (some stream) }
      | _ => none
  | .frameTooLarge session, s =>
      match s.readers session with
      | some ⟨buffer, .reading⟩ =>
          if s.limits.maxFrameSize = 0 then none
          else some (s.setReader session
            ⟨buffer, if s.limits.overloadPolicy = .dropNewest then .looping else .overloaded true⟩)
      | _ => none
  | .leaveListen session stops, s =>
      match s.readers session with
      | some ⟨_, .reading⟩ =>
          some { s.removeReader session with keepRunning := s.keepRunning && !stops }
      | _ => none
  | .postParseTask session, s =>
      match s.readers session with
      | some ⟨buffer, .posting sequence⟩ => some (s.postParseTask session buffer sequence)
      | _ => none
  | .dropNewest session, s =>
      match s.readers session with
      | some ⟨buffer, .dropping sequence⟩ =>
          if s.dispatch = none then
            if s.quit then some (s.setReader session ⟨buffer, .looping⟩)
            else LifecycleState.submitParsedMessage (s.setReader session ⟨buffer, .routing⟩) (.reader session)
              sequence {} true
          else none
      | _ => none
  | .afterOverload session, s =>
      match s.readers session with
      | some ⟨buffer, .handled leaves⟩ =>
          some (if leaves then { s.removeReader session with keepRunning := false }
            else s.setReader session ⟨buffer, .looping⟩)
      | _ => none
  | _, _ => none

/-- The end of `submitParsedMessage`. -/
def endDispatch (s : LifecycleState) : DispatchHolder → LifecycleState
  | .parser task => { s.endParse task with dispatch := none }
  | .reader session =>
      match s.readers session with
      | some reader => { s.setReader session { reader with phase := .looping } with dispatch := none }
      | none => { s with dispatch := none }

def routeStep : LifecycleAction → LifecycleState → Option LifecycleState
  | .parseBegins task, s =>
      if task ∈ s.parseQueue ∧ task.pool = s.parsePool ∧ s.parsePoolStopped = false then
        some { s with parseQueue := s.parseQueue.erase task, parsing := s.parsing ++ [task] }
      else none
  | .submit task parsed, s =>
      if task ∈ s.parsing ∧ task ∉ s.overloaded ∧ s.dispatch = none then
        if s.quit then some (s.endParse task)
        else some ((s.submitParsedMessage (.parser task) task.sequence parsed false).getD
          { s with overloaded := s.overloaded ++ [task] })
      else none
  | .takeState, s =>
      match s.dispatch with
      | some ⟨holder, none, item :: rest⟩ =>
          if s.stuck then none
          else some { s with
            dispatch := some ⟨holder, if s.quit then none else some (item, s.generation), rest⟩ }
      | _ => none
  | .route, s =>
      match s.dispatch with
      | some ⟨holder, some (item, session), rest⟩ =>
          if s.stuck then none
          else some (routeParsedIncoming { s with dispatch := some ⟨holder, none, rest⟩ } item session)
      | _ => none
  | .release, s =>
      match s.dispatch with
      | some ⟨holder, none, []⟩ => if s.stuck then none else some (s.endDispatch holder)
      | _ => none
  | _, _ => none

def loopStep : LifecycleAction → LifecycleState → Option LifecycleState
  | .take session, s =>
      match s.loops session, s.dispatcher.notificationQueue with
      | some .waiting, item :: rest =>
          some { s.setLoop session (.taken item) with
            dispatcher := { s.dispatcher with notificationQueue := rest } }
      | _, _ => none
  | .exit session, s =>
      if s.loops session = some .waiting ∧ s.dispatcher.notificationStop = true ∧
          s.dispatcher.notificationQueue = [] then
        some { s with loops := Function.update s.loops session none }
      else none
  | .runHandler session, s =>
      match s.loops session with
      | some (.taken item) =>
          some (if s.quit then s.setLoop session (.returned item)
            else { s.setLoop session (.handling item) with started := s.started ++ [item.sequence] })
      | _ => none
  | .handlerSends session, s =>
      match s.loops session with
      | some (.handling item) => some (s.sendSessionMessage item.sequence item.responseState)
      | _ => none
  | .handlerReturns session, s =>
      match s.loops session with
      | some (.handling item) =>
          if s.lifecycle.caller = some (.loop session) then none
          else some (s.setLoop session (.returned item))
      | _ => none
  | .complete session, s =>
      match s.loops session with
      | some (.returned item) =>
          let released := s.dispatcher.completeNotification item.sequence
          some { s.setLoop session (.posting released.2) with dispatcher := released.1 }
      | _ => none
  | .postParked session, s =>
      match s.loops session with
      | some (.posting (parked :: rest)) =>
          some (postToWorker (s.setLoop session (.posting rest)) parked.request)
      | _ => none
  | .wait session, s =>
      if s.loops session = some (.posting []) then some (s.setLoop session .waiting) else none
  | _, _ => none

def workerStep : LifecycleAction → LifecycleState → Option LifecycleState
  | .workBegins task, s =>
      if task ∈ s.handlerQueue ∧ task.pool = s.handlerPool ∧ s.handlerPoolStopped = false then
        some { s with
          handlerQueue := s.handlerQueue.erase task
          handling := if s.quit then s.handling else s.handling ++ [task] }
      else none
  | .workSends task, s =>
      if task ∈ s.handling then some (s.sendSessionMessage task.item.sequence task.item.responseState) else none
  | .workLater task, s =>
      if task ∈ s.handling then some (s.postAsyncCompletion task.item.sequence task.item.responseState) else none
  | .workEnds task, s =>
      if task ∈ s.handling ∧ s.lifecycle.caller ≠ some (.worker task) then
        some { s with handling := s.handling.erase task }
      else none
  | .asyncTake, s =>
      match s.asyncRunning, s.asyncCompletions with
      | none, completion :: rest =>
          if s.asyncCompletionStop then none
          else some { s with asyncRunning := some completion, asyncCompletions := rest }
      | _, _ => none
  | .asyncRun ready, s =>
      match s.asyncRunning with
      | some completion =>
          if ready then some (sendSessionMessage { s with asyncRunning := none } completion.1 completion.2)
          else if s.asyncCompletionStop then some { s with asyncRunning := none }
          else some { s with asyncRunning := none, asyncCompletions := s.asyncCompletions ++ [completion] }
      | none => none
  | _, _ => none

/-- Each action is a step of one kind of thread. -/
def step (a : LifecycleAction) (s : LifecycleState) : Option LifecycleState :=
  match a with
  | .start _ | .stop _ | .advance => lifecycleStep a s
  | .enterListen _ | .checkRunning _ | .receive _ | .deliver _ | .frameTooLarge _ | .leaveListen ..
  | .postParseTask _ | .dropNewest _ | .afterOverload _ => readerStep a s
  | .parseBegins _ | .submit .. | .takeState | .route | .release => routeStep a s
  | .take _ | .exit _ | .runHandler _ | .handlerSends _ | .handlerReturns _ | .complete _ | .postParked _
  | .wait _ => loopStep a s
  | .workBegins _ | .workSends _ | .workLater _ | .workEnds _ | .asyncTake | .asyncRun _ => workerStep a s

end LifecycleState

/-- An endpoint that was never started. -/
def lifecycleSystem : Transition.System LifecycleState LifecycleAction where
  init s := ∃ limits concurrentNotifications,
    s = { limits := limits, concurrentNotifications := concurrentNotifications }
  step := LifecycleState.step

end LspCpp

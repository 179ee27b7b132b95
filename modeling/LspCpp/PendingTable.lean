import LspCpp.EndpointMessage
import LspCpp.LibTable
import LspCpp.LibTransition
import Mathlib.Logic.Function.Basic

/-! The outgoing requests of an endpoint that wait for a response: the table of pending requests under
its senders, the responses that are parsed and routed, the timeouts and one `stop`. A pending request
is named by the position of its registration, as the source names it by a shared pointer. -/

namespace LspCpp

/-- `std::atomic<int>::fetch_add(1)` wraps around. -/
def incrementInt (n : Int) : Int := if n = 2147483647 then -2147483648 else n + 1

/-- `_client_request_futures` and `m_id`. -/
structure PendingTable where
  clientRequestFutures : Table LsRequestId Nat := ∅
  mId : Int := 0

namespace PendingTable

/-- `Data::pendingRequest`, which registers the request `pending`: the table and the id it is
registered under. An id that is drawn from `m_id` is not looked up first. -/
def pendingRequest (t : PendingTable) (limits : RemoteEndPointLimits) (id : LsRequestId)
    (pending : Nat) : Option (PendingTable × LsRequestId) :=
  if limits.maxPendingOutgoingRequests ≠ 0 ∧
      limits.maxPendingOutgoingRequests ≤ t.clientRequestFutures.size then
    none
  else if id.hasValue then
    if id ∈ t.clientRequestFutures then none
    else some ({ t with clientRequestFutures := t.clientRequestFutures.insert id pending }, id)
  else
    some (⟨t.clientRequestFutures.insert (.kInt t.mId) pending, incrementInt t.mId⟩, .kInt t.mId)

/-- `Data::getRequestInfo`. -/
def getRequestInfo (t : PendingTable) (id : LsRequestId) : Option Nat := t.clientRequestFutures.lookup id

/-- `Data::removeRequestInfo(id)`. -/
def removeRequestInfo (t : PendingTable) (id : LsRequestId) : PendingTable :=
  { t with clientRequestFutures := t.clientRequestFutures.erase id }

/-- `Data::removeRequestInfo(id, expected)`. -/
def removeExpected (t : PendingTable) (id : LsRequestId) (expected : Nat) : Option PendingTable :=
  if t.getRequestInfo id = some expected then some (t.removeRequestInfo id) else none

/-- The critical section of `failPendingRequests`: the requests taken out of the table. -/
def takeAll (t : PendingTable) : PendingTable × List Nat :=
  ({ t with clientRequestFutures := ∅ }, t.clientRequestFutures.entries.map Sigma.snd)

theorem mem_takeAll {t : PendingTable} {id : LsRequestId} {o : Nat} (h : t.getRequestInfo id = some o) :
    o ∈ t.takeAll.2 := by
  have hentry : (⟨id, o⟩ : Sigma fun _ : LsRequestId => Nat) ∈ t.clientRequestFutures.entries :=
    AList.mem_lookup_iff.mp h
  exact List.mem_map_of_mem (f := Sigma.snd) hentry

theorem getRequestInfo_removeRequestInfo (t : PendingTable) (id id' : LsRequestId) :
    (t.removeRequestInfo id).getRequestInfo id' = if id' = id then none else t.getRequestInfo id' :=
  Table.lookup_erase_ite _ _ _

/-- What a registration does: the request is put under an id that has a value, and an id chosen by the
caller was not in the table. -/
theorem pendingRequest_eq_some {t t' : PendingTable} {limits : RemoteEndPointLimits}
    {id id' : LsRequestId} {pending : Nat} (h : t.pendingRequest limits id pending = some (t', id')) :
    (id.hasValue = true ∧ t.getRequestInfo id = none ∧ id' = id ∨
        id.hasValue = false ∧ id' = .kInt t.mId) ∧
      ∀ k, t'.getRequestInfo k = if k = id' then some pending else t.getRequestInfo k := by
  rw [pendingRequest] at h
  split_ifs at h with _ hvalue hmem
  · obtain ⟨rfl, rfl⟩ := Prod.mk.inj (Option.some.inj h)
    refine ⟨.inl ⟨hvalue, AList.lookup_eq_none.mpr hmem, rfl⟩, fun k => ?_⟩
    exact Table.lookup_insert_ite _ _ _ _
  · obtain ⟨rfl, rfl⟩ := Prod.mk.inj (Option.some.inj h)
    refine ⟨.inr ⟨by simpa using hvalue, rfl⟩, fun k => ?_⟩
    exact Table.lookup_insert_ite _ _ _ _

theorem removeExpected_eq_some {t t' : PendingTable} {id : LsRequestId} {o : Nat}
    (h : t.removeExpected id o = some t') : t.getRequestInfo id = some o ∧ t' = t.removeRequestInfo id := by
  rw [removeExpected] at h
  split_ifs at h with hentry
  exact ⟨hentry, (Option.some.inj h).symm⟩

end PendingTable

/-- A pending request. `sent` and `withdrawn` record that `internalSendRequestWithPolicy` returned true
and that a timeout took the request out of the table. -/
structure PendingRequestInfo where
  id : LsRequestId
  deferredCallback : Bool
  completed : Bool := false
  sent : Bool := false
  withdrawn : Bool := false
  deriving DecidableEq, Repr

/-- The sender that holds `m_sendMutex`: past the check of the output, past the registration. -/
inductive SendPhase where
  | checked (id : LsRequestId) (deferred : Bool)
  | registered (o : Nat)
  deriving DecidableEq, Repr

/-- Where a response with a known id is. `submitted` to `posting` are inside `submitParsedMessage`, which
holds the dispatch lock: past its check of `quit`, past that of `routeParsedIncoming`, out of the pending
table, past the check of `quit` before the hand-off to the handler pool. -/
inductive ResponsePhase where
  | parsing
  | parsed (msgId : LsRequestId) (pending : Nat)
  | submitted (msgId : LsRequestId) (pending : Nat)
  | routed (msgId : LsRequestId) (pending : Nat)
  | removed (pending : Nat)
  | posting (pending : Nat)
  | done
  deriving DecidableEq, Repr

namespace ResponsePhase

/-- The request that was captured for the response. -/
def captured : ResponsePhase → Option Nat
  | .parsed _ o | .submitted _ o | .routed _ o | .removed o | .posting o => some o
  | .parsing | .done => none

/-- Inside `submitParsedMessage`. -/
def inDispatch : ResponsePhase → Bool
  | .submitted .. | .routed .. | .removed _ | .posting _ => true
  | .parsing | .parsed .. | .done => false

/-- The request that the response has taken out of the table and still has to complete. -/
def owed : ResponsePhase → Option Nat
  | .removed o | .posting o => some o
  | _ => none

end ResponsePhase

/-- A response, with the request that held its id when its parsing began. -/
structure IncomingResponse where
  id : LsRequestId
  heldBy : Nat
  phase : ResponsePhase
  deriving DecidableEq, Repr

/-- A completion handed to the handler pool. -/
structure DeferredCompletion where
  request : Nat
  response : Nat
  deriving DecidableEq, Repr

/-- A call of a response handler; a call without a response is made by `failPendingRequests`. -/
structure Invocation where
  request : Nat
  response : Option Nat
  deriving DecidableEq, Repr

/-- How far `stop` is, by the parts of `clear` that concern pending requests. -/
inductive StopPhase where
  | notCalled
  | quitSet
  | routingCleared
  | outputInactive
  | outputReset
  | failing (rest : List Nat)
  | poolsStopped
  | returned
  deriving DecidableEq, Repr

structure PendingState where
  limits : RemoteEndPointLimits := {}
  table : PendingTable := {}
  infos : Nat → Option PendingRequestInfo := fun _ => none
  nextInfo : Nat := 0
  sending : Option SendPhase := none
  active : Bool := true
  quit : Bool := false
  dispatch : Option Nat := none
  responses : Nat → Option IncomingResponse := fun _ => none
  nextResponse : Nat := 0
  poolQueue : List DeferredCompletion := []
  poolRunning : List DeferredCompletion := []
  poolStopped : Bool := false
  stopPhase : StopPhase := .notCalled
  invocations : List Invocation := []

inductive PendingAction where
  | sendBegin (id : LsRequestId) (deferred : Bool)
  | sendRegister
  | sendReturn
  | sendThrow
  | receive (id : LsRequestId)
  | parsed (t : Nat) (msgId : LsRequestId)
  | parseThrows (t : Nat)
  | submit (t : Nat)
  | route (t : Nat)
  | remove (t : Nat)
  | completeNow (t : Nat)
  | handOff (t : Nat)
  | post (t : Nat)
  | poolBegin (task : DeferredCompletion)
  | poolComplete (task : DeferredCompletion)
  | timeout (o : Nat)
  | stop
  deriving DecidableEq, Repr

namespace PendingState

def setInfo (s : PendingState) (o : Nat) (info : PendingRequestInfo) : PendingState :=
  { s with infos := Function.update s.infos o (some info) }

def setPhase (s : PendingState) (t : Nat) (r : IncomingResponse) (phase : ResponsePhase) : PendingState :=
  { s with responses := Function.update s.responses t (some { r with phase := phase }) }

/-- `PendingRequestInfo::complete`: only the first call invokes the handler. -/
def complete (s : PendingState) (o : Nat) (response : Option Nat) : PendingState :=
  match s.infos o with
  | none => s
  | some info =>
      if info.completed then s
      else { s.setInfo o { info with completed := true } with invocations := ⟨o, response⟩ :: s.invocations }

def timesInvoked (s : PendingState) (o : Nat) : Nat := s.invocations.countP fun i => i.request = o

/-- The registration in `internalSendRequestWithPolicy`; a refused request releases the mutex. -/
def registerRequest (s : PendingState) (id : LsRequestId) (deferred : Bool) : PendingState :=
  match s.table.pendingRequest s.limits id s.nextInfo with
  | none => { s with sending := none }
  | some (table, id') =>
      { s.setInfo s.nextInfo { id := id', deferredCallback := deferred } with
        table := table
        nextInfo := s.nextInfo + 1
        sending := some (.registered s.nextInfo) }

/-- The first lookup of `parseAndClassify`; a response with an unknown id is dropped. -/
def receiveResponse (s : PendingState) (id : LsRequestId) : PendingState :=
  match s.table.getRequestInfo id with
  | none => s
  | some o =>
      { s.setPhase s.nextResponse ⟨id, o, .parsing⟩ .parsing with nextResponse := s.nextResponse + 1 }

/-- The handler of `parseAndClassify` for an exception looks the id up once more. -/
def catchParseError (s : PendingState) (t : Nat) (r : IncomingResponse) : PendingState :=
  match s.table.getRequestInfo r.id with
  | some o => if r.id.hasValue then s.setPhase t r (.parsed r.id o) else s.setPhase t r .done
  | none => s.setPhase t r .done

/-- A timed out caller withdraws its id; the request that was registered under it is gone. -/
def withdraw (s : PendingState) (id : LsRequestId) : PendingState :=
  let removed := { s with table := s.table.removeRequestInfo id }
  match s.table.getRequestInfo id with
  | none => removed
  | some o =>
      match s.infos o with
      | none => removed
      | some info => removed.setInfo o { info with withdrawn := true }

/-- The next part of `stop`, where no lock that it needs is taken. -/
def stopStep (s : PendingState) : Option PendingState :=
  match s.stopPhase with
  | .notCalled => some { s with quit := true, stopPhase := .quitSet }
  | .quitSet => if s.dispatch = none then some { s with stopPhase := .routingCleared } else none
  | .routingCleared => some { s with active := false, stopPhase := .outputInactive }
  | .outputInactive => if s.sending = none then some { s with stopPhase := .outputReset } else none
  | .outputReset => some { s with table := s.table.takeAll.1, stopPhase := .failing s.table.takeAll.2 }
  | .failing (o :: rest) => some { s.complete o none with stopPhase := .failing rest }
  | .failing [] => some { s with poolStopped := true, stopPhase := .poolsStopped }
  | .poolsStopped => some { s with stopPhase := .returned }
  | .returned => none

def step : PendingAction → PendingState → Option PendingState
  | .sendBegin id deferred, s =>
      if s.sending = none then
        some (if s.active then { s with sending := some (.checked id deferred) } else s)
      else none
  | .sendRegister, s =>
      match s.sending with
      | some (.checked id deferred) => some (s.registerRequest id deferred)
      | _ => none
  | .sendReturn, s =>
      match s.sending with
      | some (.registered o) =>
          (s.infos o).bind fun info =>
            some { s.setInfo o { info with sent := true } with sending := none }
      | _ => none
  | .sendThrow, s =>
      match s.sending with
      | some (.registered o) =>
          (s.infos o).bind fun info =>
            some { s with table := (s.table.removeExpected info.id o).getD s.table, sending := none }
      | _ => none
  | .receive id, s => some (s.receiveResponse id)
  | .parsed t msgId, s =>
      (s.responses t).bind fun r =>
        if r.phase = .parsing then some (s.setPhase t r (.parsed msgId r.heldBy)) else none
  | .parseThrows t, s =>
      (s.responses t).bind fun r =>
        if r.phase = .parsing then some (s.catchParseError t r) else none
  | .submit t, s =>
      (s.responses t).bind fun r =>
        match r.phase with
        | .parsed msgId o =>
            if s.dispatch = none then
              some (if s.quit then s.setPhase t r .done
                else { s.setPhase t r (.submitted msgId o) with dispatch := some t })
            else none
        | _ => none
  | .route t, s =>
      (s.responses t).bind fun r =>
        match r.phase with
        | .submitted msgId o =>
            some (if s.quit then { s.setPhase t r .done with dispatch := none }
              else s.setPhase t r (.routed msgId o))
        | _ => none
  | .remove t, s =>
      (s.responses t).bind fun r =>
        match r.phase with
        | .routed msgId o =>
            match s.table.removeExpected msgId o with
            | some table => some { s.setPhase t r (.removed o) with table := table }
            | none => some { s.setPhase t r .done with dispatch := none }
        | _ => none
  | .completeNow t, s =>
      (s.responses t).bind fun r =>
        match r.phase with
        | .removed o =>
            (s.infos o).bind fun info =>
              if info.deferredCallback then none
              else some { (s.complete o (some t)).setPhase t r .done with dispatch := none }
        | _ => none
  | .handOff t, s =>
      (s.responses t).bind fun r =>
        match r.phase with
        | .removed o =>
            (s.infos o).bind fun info =>
              if info.deferredCallback then
                some (if s.quit then { s.setPhase t r .done with dispatch := none }
                  else s.setPhase t r (.posting o))
              else none
        | _ => none
  | .post t, s =>
      (s.responses t).bind fun r =>
        match r.phase with
        | .posting o =>
            some { s.setPhase t r .done with dispatch := none, poolQueue := s.poolQueue ++ [⟨o, t⟩] }
        | _ => none
  | .poolBegin task, s =>
      if task ∈ s.poolQueue ∧ s.poolStopped = false then
        some { s with poolQueue := s.poolQueue.erase task, poolRunning := task :: s.poolRunning }
      else none
  | .poolComplete task, s =>
      if task ∈ s.poolRunning then
        some { s.complete task.request (some task.response) with
          poolRunning := s.poolRunning.erase task }
      else none
  | .timeout o, s =>
      (s.infos o).bind fun info => if info.sent then some (s.withdraw info.id) else none
  | .stop, s => s.stopStep

/-! ### What one step can do -/

@[simp] theorem setInfo_infos (s : PendingState) (o o' : Nat) (info : PendingRequestInfo) :
    (s.setInfo o info).infos o' = if o' = o then some info else s.infos o' :=
  Function.update_apply _ _ _ _

@[simp] theorem setPhase_responses (s : PendingState) (t t' : Nat) (r : IncomingResponse)
    (phase : ResponsePhase) :
    (s.setPhase t r phase).responses t' = if t' = t then some { r with phase := phase } else s.responses t' :=
  Function.update_apply _ _ _ _

/-- A completion either invokes nothing or is the one that invokes the handler. -/
theorem complete_cases (s : PendingState) (o : Nat) (response : Option Nat) :
    (s.complete o response = s ∧ ∀ info, s.infos o = some info → info.completed = true) ∨
      ∃ info, s.infos o = some info ∧ info.completed = false ∧ s.complete o response =
        { s.setInfo o { info with completed := true } with
          invocations := ⟨o, response⟩ :: s.invocations } := by
  unfold complete
  split
  · rename_i hnone
    refine .inl ⟨rfl, fun info hinfo => ?_⟩
    rw [hnone] at hinfo
    cases hinfo
  · rename_i info hinfo
    split_ifs with hcompleted
    · refine .inl ⟨rfl, fun info' hinfo' => ?_⟩
      rw [← Option.some.inj (hinfo.symm.trans hinfo')]
      exact hcompleted
    · exact .inr ⟨info, hinfo, by simpa using hcompleted, rfl⟩

/-- A completion changes nothing but the request's record and the log. -/
theorem complete_frame (s : PendingState) (o : Nat) (response : Option Nat) :
    ∃ infos invocations, s.complete o response = { s with infos := infos, invocations := invocations } ∧
      ∀ i ∈ invocations, i ∈ s.invocations ∨ i = ⟨o, response⟩ := by
  rcases complete_cases s o response with ⟨heq, _⟩ | ⟨info, _, _, heq⟩
  · exact ⟨s.infos, s.invocations, heq, fun i hi => .inl hi⟩
  · refine ⟨_, _, heq, fun i hi => ?_⟩
    rcases List.mem_cons.mp hi with rfl | hi
    · exact .inr rfl
    · exact .inl hi

theorem step_sendBegin {id : LsRequestId} {deferred : Bool} {s s' : PendingState}
    (h : step (.sendBegin id deferred) s = some s') :
    s.sending = none ∧
      (s.active = true ∧ s' = { s with sending := some (.checked id deferred) } ∨
        s.active = false ∧ s' = s) := by
  rw [step] at h
  split_ifs at h with hsending hactive
  · exact ⟨hsending, .inl ⟨hactive, (Option.some.inj h).symm⟩⟩
  · exact ⟨hsending, .inr ⟨by simpa using hactive, (Option.some.inj h).symm⟩⟩

theorem step_sendRegister {s s' : PendingState} (h : step .sendRegister s = some s') :
    ∃ id deferred, s.sending = some (.checked id deferred) ∧
      (s' = { s with sending := none } ∨
        ∃ table id', s.table.pendingRequest s.limits id s.nextInfo = some (table, id') ∧
          s' = { s.setInfo s.nextInfo { id := id', deferredCallback := deferred } with
            table := table
            nextInfo := s.nextInfo + 1
            sending := some (.registered s.nextInfo) }) := by
  rw [step] at h
  split at h
  · rename_i id deferred hsending
    refine ⟨id, deferred, hsending, ?_⟩
    obtain rfl := Option.some.inj h
    unfold registerRequest
    split
    · exact .inl rfl
    · rename_i table id' hreg
      exact .inr ⟨table, id', hreg, rfl⟩
  · cases h

theorem step_sendReturn {s s' : PendingState} (h : step .sendReturn s = some s') :
    ∃ o info, s.sending = some (.registered o) ∧ s.infos o = some info ∧
      s' = { s.setInfo o { info with sent := true } with sending := none } := by
  rw [step] at h
  split at h
  · rename_i o hsending
    obtain ⟨info, hinfo, h⟩ := Option.bind_eq_some_iff.mp h
    exact ⟨o, info, hsending, hinfo, (Option.some.inj h).symm⟩
  · cases h

theorem step_sendThrow {s s' : PendingState} (h : step .sendThrow s = some s') :
    ∃ o info, s.sending = some (.registered o) ∧ s.infos o = some info ∧
      s' = { s with table := (s.table.removeExpected info.id o).getD s.table, sending := none } := by
  rw [step] at h
  split at h
  · rename_i o hsending
    obtain ⟨info, hinfo, h⟩ := Option.bind_eq_some_iff.mp h
    exact ⟨o, info, hsending, hinfo, (Option.some.inj h).symm⟩
  · cases h

theorem step_receive {id : LsRequestId} {s s' : PendingState} (h : step (.receive id) s = some s') :
    s' = s ∨ ∃ o, s.table.getRequestInfo id = some o ∧
      s' = { s.setPhase s.nextResponse ⟨id, o, .parsing⟩ .parsing with
        nextResponse := s.nextResponse + 1 } := by
  obtain rfl := Option.some.inj h
  unfold receiveResponse
  split
  · exact .inl rfl
  · rename_i o ho
    exact .inr ⟨o, ho, rfl⟩

theorem step_parsed {t : Nat} {msgId : LsRequestId} {s s' : PendingState}
    (h : step (.parsed t msgId) s = some s') :
    ∃ r, s.responses t = some r ∧ r.phase = .parsing ∧
      s' = s.setPhase t r (.parsed msgId r.heldBy) := by
  obtain ⟨r, hr, h⟩ := Option.bind_eq_some_iff.mp h
  split_ifs at h with hphase
  exact ⟨r, hr, hphase, (Option.some.inj h).symm⟩

theorem step_parseThrows {t : Nat} {s s' : PendingState} (h : step (.parseThrows t) s = some s') :
    ∃ r, s.responses t = some r ∧ r.phase = .parsing ∧
      (s' = s.setPhase t r .done ∨
        ∃ o, s.table.getRequestInfo r.id = some o ∧ s' = s.setPhase t r (.parsed r.id o)) := by
  obtain ⟨r, hr, h⟩ := Option.bind_eq_some_iff.mp h
  split_ifs at h with hphase
  refine ⟨r, hr, hphase, ?_⟩
  obtain rfl := Option.some.inj h
  unfold catchParseError
  split
  · rename_i o ho
    split_ifs
    · exact .inr ⟨o, ho, rfl⟩
    · exact .inl rfl
  · exact .inl rfl

theorem step_submit {t : Nat} {s s' : PendingState} (h : step (.submit t) s = some s') :
    ∃ r msgId o, s.responses t = some r ∧ r.phase = .parsed msgId o ∧ s.dispatch = none ∧
      (s.quit = true ∧ s' = s.setPhase t r .done ∨
        s.quit = false ∧ s' = { s.setPhase t r (.submitted msgId o) with dispatch := some t }) := by
  obtain ⟨r, hr, h⟩ := Option.bind_eq_some_iff.mp h
  split at h
  · rename_i msgId o hphase
    split_ifs at h with hfree hquit
    · exact ⟨r, msgId, o, hr, hphase, hfree, .inl ⟨hquit, (Option.some.inj h).symm⟩⟩
    · exact ⟨r, msgId, o, hr, hphase, hfree, .inr ⟨by simpa using hquit, (Option.some.inj h).symm⟩⟩
  · cases h

theorem step_route {t : Nat} {s s' : PendingState} (h : step (.route t) s = some s') :
    ∃ r msgId o, s.responses t = some r ∧ r.phase = .submitted msgId o ∧
      (s' = { s.setPhase t r .done with dispatch := none } ∨ s' = s.setPhase t r (.routed msgId o)) := by
  obtain ⟨r, hr, h⟩ := Option.bind_eq_some_iff.mp h
  split at h
  · rename_i msgId o hphase
    obtain rfl := Option.some.inj h
    refine ⟨r, msgId, o, hr, hphase, ?_⟩
    split_ifs
    · exact .inl rfl
    · exact .inr rfl
  · cases h

theorem step_remove {t : Nat} {s s' : PendingState} (h : step (.remove t) s = some s') :
    ∃ r msgId o, s.responses t = some r ∧ r.phase = .routed msgId o ∧
      (s' = { s.setPhase t r .done with dispatch := none } ∨
        s.table.getRequestInfo msgId = some o ∧
          s' = { s.setPhase t r (.removed o) with table := s.table.removeRequestInfo msgId }) := by
  obtain ⟨r, hr, h⟩ := Option.bind_eq_some_iff.mp h
  split at h
  · rename_i msgId o hphase
    refine ⟨r, msgId, o, hr, hphase, ?_⟩
    split at h
    · rename_i table hremoved
      obtain ⟨hentry, rfl⟩ := PendingTable.removeExpected_eq_some hremoved
      exact .inr ⟨hentry, (Option.some.inj h).symm⟩
    · exact .inl (Option.some.inj h).symm
  · cases h

theorem step_completeNow {t : Nat} {s s' : PendingState} (h : step (.completeNow t) s = some s') :
    ∃ r o, s.responses t = some r ∧ r.phase = .removed o ∧
      s' = { (s.complete o (some t)).setPhase t r .done with dispatch := none } := by
  obtain ⟨r, hr, h⟩ := Option.bind_eq_some_iff.mp h
  split at h
  · rename_i o hphase
    obtain ⟨info, _, h⟩ := Option.bind_eq_some_iff.mp h
    split_ifs at h
    exact ⟨r, o, hr, hphase, (Option.some.inj h).symm⟩
  · cases h

theorem step_handOff {t : Nat} {s s' : PendingState} (h : step (.handOff t) s = some s') :
    ∃ r o, s.responses t = some r ∧ r.phase = .removed o ∧
      (s.quit = true ∧ s' = { s.setPhase t r .done with dispatch := none } ∨
        s.quit = false ∧ s' = s.setPhase t r (.posting o)) := by
  obtain ⟨r, hr, h⟩ := Option.bind_eq_some_iff.mp h
  split at h
  · rename_i o hphase
    obtain ⟨info, _, h⟩ := Option.bind_eq_some_iff.mp h
    split_ifs at h with _ hquit
    · exact ⟨r, o, hr, hphase, .inl ⟨hquit, (Option.some.inj h).symm⟩⟩
    · exact ⟨r, o, hr, hphase, .inr ⟨by simpa using hquit, (Option.some.inj h).symm⟩⟩
  · cases h

theorem step_post {t : Nat} {s s' : PendingState} (h : step (.post t) s = some s') :
    ∃ r o, s.responses t = some r ∧ r.phase = .posting o ∧
      s' = { s.setPhase t r .done with
        dispatch := none, poolQueue := s.poolQueue ++ [⟨o, t⟩] } := by
  obtain ⟨r, hr, h⟩ := Option.bind_eq_some_iff.mp h
  split at h
  · rename_i o hphase
    exact ⟨r, o, hr, hphase, (Option.some.inj h).symm⟩
  · cases h

theorem step_poolBegin {task : DeferredCompletion} {s s' : PendingState}
    (h : step (.poolBegin task) s = some s') :
    task ∈ s.poolQueue ∧ s.poolStopped = false ∧
      s' = { s with poolQueue := s.poolQueue.erase task, poolRunning := task :: s.poolRunning } := by
  rw [step] at h
  split_ifs at h with hok
  exact ⟨hok.1, hok.2, (Option.some.inj h).symm⟩

theorem step_poolComplete {task : DeferredCompletion} {s s' : PendingState}
    (h : step (.poolComplete task) s = some s') :
    task ∈ s.poolRunning ∧
      s' = { s.complete task.request (some task.response) with
        poolRunning := s.poolRunning.erase task } := by
  rw [step] at h
  split_ifs at h with hmem
  exact ⟨hmem, (Option.some.inj h).symm⟩

theorem step_timeout {o : Nat} {s s' : PendingState} (h : step (.timeout o) s = some s') :
    ∃ info, s.infos o = some info ∧
      (s' = { s with table := s.table.removeRequestInfo info.id } ∧
          (∀ o', s.table.getRequestInfo info.id = some o' → s.infos o' = none) ∨
        ∃ o' info', s.table.getRequestInfo info.id = some o' ∧ s.infos o' = some info' ∧
          s' = { s.setInfo o' { info' with withdrawn := true } with
            table := s.table.removeRequestInfo info.id }) := by
  obtain ⟨info, hinfo, h⟩ := Option.bind_eq_some_iff.mp h
  split_ifs at h
  obtain rfl := Option.some.inj h
  refine ⟨info, hinfo, ?_⟩
  unfold withdraw
  dsimp only
  split
  · rename_i hnone
    refine .inl ⟨rfl, fun o' ho' => ?_⟩
    rw [hnone] at ho'
    cases ho'
  · rename_i o' ho'
    split
    · rename_i hnone
      refine .inl ⟨rfl, fun o'' ho'' => ?_⟩
      rw [← Option.some.inj (ho'.symm.trans ho'')]
      exact hnone
    · rename_i info' hinfo'
      exact .inr ⟨o', info', ho', hinfo', rfl⟩

theorem step_stop {s s' : PendingState} (h : step .stop s = some s') :
    s.stopPhase = .notCalled ∧ s' = { s with quit := true, stopPhase := .quitSet } ∨
      s.stopPhase = .quitSet ∧ s.dispatch = none ∧ s' = { s with stopPhase := .routingCleared } ∨
      s.stopPhase = .routingCleared ∧ s' = { s with active := false, stopPhase := .outputInactive } ∨
      s.stopPhase = .outputInactive ∧ s.sending = none ∧ s' = { s with stopPhase := .outputReset } ∨
      s.stopPhase = .outputReset ∧
        s' = { s with table := s.table.takeAll.1, stopPhase := .failing s.table.takeAll.2 } ∨
      (∃ o rest, s.stopPhase = .failing (o :: rest) ∧
        s' = { s.complete o none with stopPhase := .failing rest }) ∨
      s.stopPhase = .failing [] ∧ s' = { s with poolStopped := true, stopPhase := .poolsStopped } ∨
      s.stopPhase = .poolsStopped ∧ s' = { s with stopPhase := .returned } := by
  change s.stopStep = some s' at h
  unfold stopStep at h
  split at h <;> rename_i hphase
  · exact .inl ⟨hphase, (Option.some.inj h).symm⟩
  · split_ifs at h with hfree
    exact .inr (.inl ⟨hphase, hfree, (Option.some.inj h).symm⟩)
  · exact .inr (.inr (.inl ⟨hphase, (Option.some.inj h).symm⟩))
  · split_ifs at h with hfree
    exact .inr (.inr (.inr (.inl ⟨hphase, hfree, (Option.some.inj h).symm⟩)))
  · exact .inr (.inr (.inr (.inr (.inl ⟨hphase, (Option.some.inj h).symm⟩))))
  · exact .inr (.inr (.inr (.inr (.inr (.inl ⟨_, _, hphase, (Option.some.inj h).symm⟩)))))
  · exact .inr (.inr (.inr (.inr (.inr (.inr (.inl ⟨hphase, (Option.some.inj h).symm⟩))))))
  · exact .inr (.inr (.inr (.inr (.inr (.inr (.inr ⟨hphase, (Option.some.inj h).symm⟩))))))
  · cases h

end PendingState

/-- A started endpoint that has sent and received nothing. -/
def pendingSystem : Transition.System PendingState PendingAction where
  init s := ∃ limits, s = { limits := limits }
  step := PendingState.step

end LspCpp

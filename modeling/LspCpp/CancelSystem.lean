import LspCpp.CancelRegistry
import LspCpp.LibTransition
import Mathlib.Logic.Function.Basic
import Mathlib.Tactic.SplitIfs

/-! The cancellation registry under its callers. Requests and cancels are routed in wire order; a
routed request registers, enters its scope, may take and release retainers and leaves its scope at any
later time, in any order with the others. -/

namespace LspCpp

/-- Where a request is: routed but not started, past the critical section of
`cancelableRequestContext` but before the call of its canceler, in its scope, out of it. -/
inductive RequestPhase where
  | routed
  | registered (invoke : Bool)
  | inScope
  | exited
  deriving DecidableEq, Repr

/-- A request and the bookkeeping of what happened to it: the retainers it holds, whether it has
released one of its own, and the wire position at which its registration was given up (its scope
exited with no retainer left, or its last retainer was released). -/
structure RequestRecord where
  id : LsRequestId
  cookie : Nat := 0
  phase : RequestPhase := .routed
  cancelled : Bool := false
  retainers : List CancelKey := []
  released : Bool := false
  endedAt : Option Nat := none
  deriving DecidableEq, Repr

namespace RequestRecord

def Started (request : RequestRecord) : Prop := request.phase ≠ .routed

instance (request : RequestRecord) : Decidable request.Started :=
  inferInstanceAs (Decidable (_ ≠ _))

/-- The canceler that `cancelableRequestContext` may have to invoke has been invoked. -/
def Entered (request : RequestRecord) : Prop := request.phase = .inScope ∨ request.phase = .exited

instance (request : RequestRecord) : Decidable request.Entered :=
  inferInstanceAs (Decidable (_ ∨ _))

/-- The scope has exited and every retainer the request took is released. -/
def Finished (request : RequestRecord) : Prop := request.phase = .exited ∧ request.retainers = []

instance (request : RequestRecord) : Decidable request.Finished :=
  inferInstanceAs (Decidable (_ ∧ _))

/-- The registration is given up now, unless it was before. -/
def markEnded (request : RequestRecord) (now : Nat) : RequestRecord :=
  { request with endedAt := request.endedAt.or (some now) }

end RequestRecord

/-- `starts` counts the calls of `cancelableRequestContext`, `cancels` lists the cancels processed so
far and `latest` names the last request that started with an id. -/
structure CancelState where
  limits : RemoteEndPointLimits := {}
  registry : RequestCancellationRegistry := {}
  nextRequestCookie : Nat := 0
  nextSequence : Nat := 0
  requests : Nat → Option RequestRecord := fun _ => none
  cancels : List (LsRequestId × Nat) := []
  starts : Nat := 0
  latest : LsRequestId → Option Nat := fun _ => none

inductive CancelAction where
  | routeRequest (id : LsRequestId)
  | routeCancel (id : LsRequestId)
  | routeOther
  | register (r : Nat)
  | enter (r : Nat)
  | retain (r : Nat)
  | release (r : Nat) (key : CancelKey)
  | exit (r : Nat)
  deriving DecidableEq, Repr

namespace CancelState

def setRequest (s : CancelState) (r : Nat) (request : RequestRecord) : CancelState :=
  { s with requests := Function.update s.requests r (some request) }

/-- Invoke a canceler: its flag is set. -/
def cancel (s : CancelState) : Option Canceler → CancelState
  | none => s
  | some r =>
      match s.requests r with
      | none => s
      | some request => s.setRequest r { request with cancelled := true }

/-- The critical section of `cancelableRequestContext`. -/
def registerRequest (s : CancelState) (r : Nat) (request : RequestRecord) : CancelState :=
  let locked := s.registry.cancelableRequestContext s.limits request.id r r s.nextRequestCookie
  setRequest
    { s with
      registry := locked.1
      nextRequestCookie := (s.nextRequestCookie + 1) % cookieModulus
      starts := s.starts + 1
      latest := Function.update s.latest request.id (some r) }
    r { request with cookie := s.nextRequestCookie, phase := .registered locked.2 }

/-- The request's handler calls `retainRequestCancellation` with the id of the request. -/
def retainRequest (s : CancelState) (r : Nat) (request : RequestRecord) : CancelState :=
  let locked := s.registry.retainRequestCancellation request.id
  setRequest { s with registry := locked.1 } r
    { request with retainers := locked.2.toList ++ request.retainers }

def releaseRequest (s : CancelState) (r : Nat) (request : RequestRecord) (key : CancelKey) :
    CancelState :=
  let left := { request with retainers := request.retainers.erase key, released := true }
  setRequest { s with registry := s.registry.releaseRetainer key } r
    (if left.retainers = [] then left.markEnded s.nextSequence else left)

def exitRequest (s : CancelState) (r : Nat) (request : RequestRecord) : CancelState :=
  let left := { request with phase := .exited }
  setRequest { s with registry := s.registry.scopeExit request.id request.cookie } r
    (if left.retainers = [] then left.markEnded s.nextSequence else left)

def step : CancelAction → CancelState → Option CancelState
  | .routeRequest id, s =>
      some (setRequest { s with nextSequence := s.nextSequence + 1 } s.nextSequence { id := id })
  | .routeCancel id, s =>
      let locked := s.registry.onCancel s.limits id s.nextSequence
      some (cancel
        { s with
          registry := locked.1
          nextSequence := s.nextSequence + 1
          cancels := s.cancels ++ [(id, s.nextSequence)] } locked.2)
  | .routeOther, s => some { s with nextSequence := s.nextSequence + 1 }
  | .register r, s =>
      (s.requests r).bind fun request =>
        if request.phase = .routed then some (s.registerRequest r request) else none
  | .enter r, s =>
      (s.requests r).bind fun request =>
        match request.phase with
        | .registered invoke =>
            some (s.setRequest r
              { request with phase := .inScope, cancelled := request.cancelled || invoke })
        | _ => none
  | .retain r, s =>
      (s.requests r).bind fun request =>
        if request.phase = .inScope then some (s.retainRequest r request) else none
  | .release r key, s =>
      (s.requests r).bind fun request =>
        if key ∈ request.retainers then some (s.releaseRequest r request key) else none
  | .exit r, s =>
      (s.requests r).bind fun request =>
        if request.phase = .inScope then some (s.exitRequest r request) else none

@[simp] theorem setRequest_requests (s : CancelState) (r r' : Nat) (request : RequestRecord) :
    (s.setRequest r request).requests r' = if r' = r then some request else s.requests r' :=
  Function.update_apply _ _ _ _

/-- After an update a record is the new one, or one that was there. -/
theorem requests_of_setRequest {s : CancelState} {r r' : Nat} {request q : RequestRecord}
    (h : (s.setRequest r request).requests r' = some q) :
    (r' = r ∧ q = request) ∨ (r' ≠ r ∧ s.requests r' = some q) := by
  rw [setRequest_requests] at h
  split_ifs at h with hr
  · exact .inl ⟨hr, (Option.some.inj h).symm⟩
  · exact .inr ⟨hr, h⟩

/-- After a start a record is that of the request that started, or one that was there. -/
theorem requests_of_registerRequest {s : CancelState} {r r' : Nat} {request q : RequestRecord}
    (h : (s.registerRequest r request).requests r' = some q) :
    (r' = r ∧ ∃ invoke, q = { request with cookie := s.nextRequestCookie, phase := .registered invoke }) ∨
      (r' ≠ r ∧ s.requests r' = some q) :=
  (requests_of_setRequest h).imp_left fun ⟨hr, hq⟩ => ⟨hr, _, hq⟩

theorem step_register {r : Nat} {s s' : CancelState} (h : step (.register r) s = some s') :
    ∃ request, s.requests r = some request ∧ request.phase = .routed ∧
      s' = s.registerRequest r request := by
  obtain ⟨request, hrequest, h⟩ := Option.bind_eq_some_iff.mp h
  split_ifs at h with hphase
  exact ⟨request, hrequest, hphase, (Option.some.inj h).symm⟩

theorem step_enter {r : Nat} {s s' : CancelState} (h : step (.enter r) s = some s') :
    ∃ request invoke, s.requests r = some request ∧ request.phase = .registered invoke ∧
      s' = s.setRequest r
        { request with phase := .inScope, cancelled := request.cancelled || invoke } := by
  obtain ⟨request, hrequest, h⟩ := Option.bind_eq_some_iff.mp h
  split at h
  · rename_i invoke hphase
    exact ⟨request, invoke, hrequest, hphase, (Option.some.inj h).symm⟩
  · cases h

theorem step_retain {r : Nat} {s s' : CancelState} (h : step (.retain r) s = some s') :
    ∃ request, s.requests r = some request ∧ request.phase = .inScope ∧
      s' = s.retainRequest r request := by
  obtain ⟨request, hrequest, h⟩ := Option.bind_eq_some_iff.mp h
  split_ifs at h with hphase
  exact ⟨request, hrequest, hphase, (Option.some.inj h).symm⟩

theorem step_release {r : Nat} {key : CancelKey} {s s' : CancelState}
    (h : step (.release r key) s = some s') :
    ∃ request, s.requests r = some request ∧ key ∈ request.retainers ∧
      s' = s.releaseRequest r request key := by
  obtain ⟨request, hrequest, h⟩ := Option.bind_eq_some_iff.mp h
  split_ifs at h with hkey
  exact ⟨request, hrequest, hkey, (Option.some.inj h).symm⟩

theorem step_exit {r : Nat} {s s' : CancelState} (h : step (.exit r) s = some s') :
    ∃ request, s.requests r = some request ∧ request.phase = .inScope ∧
      s' = s.exitRequest r request := by
  obtain ⟨request, hrequest, h⟩ := Option.bind_eq_some_iff.mp h
  split_ifs at h with hphase
  exact ⟨request, hrequest, hphase, (Option.some.inj h).symm⟩

end CancelState

/-- A fresh endpoint: nothing registered and nothing routed. -/
def cancelSystem : Transition.System CancelState CancelAction where
  init s := ∃ limits, s = { limits := limits }
  step := CancelState.step

end LspCpp

import LspCpp.EndpointMessage
import LspCpp.LibTable
import Mathlib.Algebra.Group.Nat.Defs
import Mathlib.Tactic.SplitIfs

/-! The cancellation registry of an endpoint: the cancelers of the requests in progress, the cancels
that found no request, the ids that were seen, and the retainers of asynchronous handlers. Every
function here is one critical section of the registry's mutex. -/

namespace LspCpp

/-- `RequestCancellationRegistry::CancelKey`: the id and the cookie of one registration. -/
abbrev CancelKey := LsRequestId × Nat

/-- A canceler, identified with the request whose `cancelled` flag it stores to. -/
abbrev Canceler := Nat

/-- The cookie counter is a 32-bit unsigned integer. -/
def cookieModulus : Nat := 2 ^ 32

structure RequestCancellationRegistry where
  requestCancelers : Table LsRequestId (Canceler × Nat) := ∅
  pendingCancelRequests : Table LsRequestId Nat := ∅
  pendingCancelOrder : List (LsRequestId × Nat) := []
  seenRequestIds : Table LsRequestId Nat := ∅
  seenRequestOrder : List (LsRequestId × Nat) := []
  retainedRequestCancelers : Table CancelKey Nat := ∅

namespace RequestCancellationRegistry

/-- The loop of `prunePendingCancels` and `pruneSeenRequests`, which differ only in the tables they
work on: forget the oldest records until the table is small enough. A record that was overwritten or
erased since is passed over. -/
def prune (limit : Nat) (table : Table LsRequestId Nat) :
    List (LsRequestId × Nat) → Table LsRequestId Nat × List (LsRequestId × Nat)
  | [] => (table, [])
  | oldest :: rest =>
      if limit < Table.size table then
        prune limit (if table.lookup oldest.1 = some oldest.2 then table.erase oldest.1 else table) rest
      else (table, oldest :: rest)

def prunePendingCancels (registry : RequestCancellationRegistry) (limit : Nat) :
    RequestCancellationRegistry :=
  if limit = 0 then registry
  else
    let kept := prune limit registry.pendingCancelRequests registry.pendingCancelOrder
    { registry with pendingCancelRequests := kept.1, pendingCancelOrder := kept.2 }

def pruneSeenRequests (registry : RequestCancellationRegistry) (limit : Nat) :
    RequestCancellationRegistry :=
  if limit = 0 then registry
  else
    let kept := prune limit registry.seenRequestIds registry.seenRequestOrder
    { registry with seenRequestIds := kept.1, seenRequestOrder := kept.2 }

def recordPendingCancel (registry : RequestCancellationRegistry) (id : LsRequestId)
    (sequence limit : Nat) : RequestCancellationRegistry :=
  prunePendingCancels
    { registry with
      pendingCancelRequests := registry.pendingCancelRequests.insert id sequence
      pendingCancelOrder := registry.pendingCancelOrder ++ [(id, sequence)] } limit

def recordSeenRequest (registry : RequestCancellationRegistry) (id : LsRequestId)
    (sequence limit : Nat) : RequestCancellationRegistry :=
  pruneSeenRequests
    { registry with
      seenRequestIds := registry.seenRequestIds.insert id sequence
      seenRequestOrder := registry.seenRequestOrder ++ [(id, sequence)] } limit

/-- `Data::onCancel`: the canceler it invokes, if the id is registered; otherwise the cancel is kept
for a request that starts later. -/
def onCancel (registry : RequestCancellationRegistry) (limits : RemoteEndPointLimits)
    (id : LsRequestId) (sequence : Nat) : RequestCancellationRegistry × Option Canceler :=
  match registry.requestCancelers.lookup id with
  | some entry => (registry, some entry.1)
  | none =>
      match registry.pendingCancelRequests.lookup id with
      | none => (registry.recordPendingCancel id sequence limits.maxPendingCancelRequests, none)
      | some pending =>
          if pending < sequence then
            (registry.recordPendingCancel id sequence limits.maxPendingCancelRequests, none)
          else (registry, none)

/-- The critical section of `Data::cancelableRequestContext` for a request whose flag is `canceler`
and which drew `cookie`: the registry after it, and whether the canceler is invoked afterwards. -/
def cancelableRequestContext (registry : RequestCancellationRegistry) (limits : RemoteEndPointLimits)
    (id : LsRequestId) (sequence : Nat) (canceler : Canceler) (cookie : Nat) :
    RequestCancellationRegistry × Bool :=
  let registered :=
    { registry with requestCancelers := registry.requestCancelers.insert id (canceler, cookie) }
  match registered.pendingCancelRequests.lookup id with
  | none => (registered.recordSeenRequest id sequence limits.maxSeenRequestIds, false)
  | some pending =>
      let shouldCancel : Bool := registered.seenRequestIds.lookup id = none ∨ sequence < pending
      let consumed :=
        { registered with pendingCancelRequests := registered.pendingCancelRequests.erase id }
      (consumed.recordSeenRequest id sequence limits.maxSeenRequestIds, shouldCancel)

/-- Erase the registration of `id` if it still has the cookie: the last lines of the scope exit and
of the release of a retainer. -/
def eraseCanceler (registry : RequestCancellationRegistry) (id : LsRequestId) (cookie : Nat) :
    RequestCancellationRegistry :=
  match registry.requestCancelers.lookup id with
  | some entry =>
      if entry.2 = cookie then
        { registry with requestCancelers := registry.requestCancelers.erase id }
      else registry
  | none => registry

/-- The scope exit of a request's context. -/
def scopeExit (registry : RequestCancellationRegistry) (id : LsRequestId) (cookie : Nat) :
    RequestCancellationRegistry :=
  match registry.retainedRequestCancelers.lookup (id, cookie) with
  | some _ => registry
  | none => registry.eraseCanceler id cookie

/-- `Data::retainRequestCancellation`: the retainer refers to whatever registration the id has now;
there is none when the id is not registered. -/
def retainRequestCancellation (registry : RequestCancellationRegistry) (id : LsRequestId) :
    RequestCancellationRegistry × Option CancelKey :=
  match registry.requestCancelers.lookup id with
  | none => (registry, none)
  | some entry =>
      let key : CancelKey := (id, entry.2)
      let count := (registry.retainedRequestCancelers.lookup key).getD 0
      ({ registry with
          retainedRequestCancelers := registry.retainedRequestCancelers.insert key (count + 1) },
        some key)

/-- The deleter of a retainer. -/
def releaseRetainer (registry : RequestCancellationRegistry) (key : CancelKey) :
    RequestCancellationRegistry :=
  match registry.retainedRequestCancelers.lookup key with
  | none => registry.eraseCanceler key.1 key.2
  | some count =>
      if count - 1 ≠ 0 then
        { registry with
          retainedRequestCancelers := registry.retainedRequestCancelers.insert key (count - 1) }
      else
        RequestCancellationRegistry.eraseCanceler
          { registry with retainedRequestCancelers := registry.retainedRequestCancelers.erase key }
          key.1 key.2

/-- What `Data::clear` does to the registry: the cancelers it invokes, and nothing left. -/
def clear (registry : RequestCancellationRegistry) : RequestCancellationRegistry × List Canceler :=
  ({}, registry.requestCancelers.entries.map fun entry => entry.2.1)

/-! ### What each critical section does to the cancelers and the retainers -/

@[simp] theorem prunePendingCancels_requestCancelers (registry : RequestCancellationRegistry)
    (limit : Nat) : (registry.prunePendingCancels limit).requestCancelers = registry.requestCancelers := by
  unfold prunePendingCancels
  split_ifs <;> rfl

@[simp] theorem prunePendingCancels_retained (registry : RequestCancellationRegistry) (limit : Nat) :
    (registry.prunePendingCancels limit).retainedRequestCancelers =
      registry.retainedRequestCancelers := by
  unfold prunePendingCancels
  split_ifs <;> rfl

@[simp] theorem pruneSeenRequests_requestCancelers (registry : RequestCancellationRegistry)
    (limit : Nat) : (registry.pruneSeenRequests limit).requestCancelers = registry.requestCancelers := by
  unfold pruneSeenRequests
  split_ifs <;> rfl

@[simp] theorem pruneSeenRequests_retained (registry : RequestCancellationRegistry) (limit : Nat) :
    (registry.pruneSeenRequests limit).retainedRequestCancelers =
      registry.retainedRequestCancelers := by
  unfold pruneSeenRequests
  split_ifs <;> rfl

@[simp] theorem onCancel_requestCancelers (registry : RequestCancellationRegistry)
    (limits : RemoteEndPointLimits) (id : LsRequestId) (sequence : Nat) :
    (registry.onCancel limits id sequence).1.requestCancelers = registry.requestCancelers := by
  unfold onCancel recordPendingCancel
  split
  · rfl
  · split
    · simp
    · split_ifs <;> simp

@[simp] theorem onCancel_retained (registry : RequestCancellationRegistry)
    (limits : RemoteEndPointLimits) (id : LsRequestId) (sequence : Nat) :
    (registry.onCancel limits id sequence).1.retainedRequestCancelers =
      registry.retainedRequestCancelers := by
  unfold onCancel recordPendingCancel
  split
  · rfl
  · split
    · simp
    · split_ifs <;> simp

@[simp] theorem cancelableRequestContext_requestCancelers (registry : RequestCancellationRegistry)
    (limits : RemoteEndPointLimits) (id : LsRequestId) (sequence canceler cookie : Nat) :
    (registry.cancelableRequestContext limits id sequence canceler cookie).1.requestCancelers =
      registry.requestCancelers.insert id (canceler, cookie) := by
  unfold cancelableRequestContext recordSeenRequest
  dsimp only
  split <;> simp

@[simp] theorem cancelableRequestContext_retained (registry : RequestCancellationRegistry)
    (limits : RemoteEndPointLimits) (id : LsRequestId) (sequence canceler cookie : Nat) :
    (registry.cancelableRequestContext limits id sequence canceler cookie).1.retainedRequestCancelers =
      registry.retainedRequestCancelers := by
  unfold cancelableRequestContext recordSeenRequest
  dsimp only
  split <;> simp

@[simp] theorem eraseCanceler_retained (registry : RequestCancellationRegistry) (id : LsRequestId)
    (cookie : Nat) : (registry.eraseCanceler id cookie).retainedRequestCancelers =
      registry.retainedRequestCancelers := by
  unfold eraseCanceler
  split
  · split_ifs <;> rfl
  · rfl

/-- Erasing a canceler takes out the registration with that id and cookie and no other. -/
theorem eraseCanceler_lookup (registry : RequestCancellationRegistry) (id id' : LsRequestId)
    (cookie : Nat) (entry : Canceler × Nat) :
    (registry.eraseCanceler id cookie).requestCancelers.lookup id' = some entry ↔
      registry.requestCancelers.lookup id' = some entry ∧ ¬(id' = id ∧ entry.2 = cookie) := by
  unfold eraseCanceler
  split
  · rename_i old hold
    split_ifs with hcookie
    · rw [Table.lookup_erase_ite]
      by_cases hid : id' = id
      · subst hid
        rw [if_pos rfl, hold]
        constructor
        · intro h
          cases h
        · rintro ⟨h, hne⟩
          cases h
          exact absurd ⟨rfl, hcookie⟩ hne
      · rw [if_neg hid]
        exact ⟨fun h => ⟨h, fun hc => hid hc.1⟩, fun h => h.1⟩
    · constructor
      · intro h
        refine ⟨h, ?_⟩
        rintro ⟨rfl, hentry⟩
        rw [hold] at h
        cases h
        exact hcookie hentry
      · exact fun h => h.1
  · rename_i hold
    constructor
    · intro h
      refine ⟨h, ?_⟩
      rintro ⟨rfl, _⟩
      rw [hold] at h
      cases h
    · exact fun h => h.1

/-! What each critical section does to the pending cancels and the seen ids. With no limits nothing is pruned. -/

theorem onCancel_pending (registry : RequestCancellationRegistry) (limits : RemoteEndPointLimits)
    (hlimit : limits.maxPendingCancelRequests = 0) (id id' : LsRequestId) (sequence : Nat) :
    (registry.onCancel limits id sequence).1.pendingCancelRequests.lookup id' =
      if id' = id ∧ registry.requestCancelers.lookup id = none ∧
        ∀ pending ∈ registry.pendingCancelRequests.lookup id, pending < sequence then some sequence
      else registry.pendingCancelRequests.lookup id' := by
  unfold onCancel recordPendingCancel prunePendingCancels
  rw [hlimit]
  cases hentry : registry.requestCancelers.lookup id with
  | some entry => simp
  | none =>
      cases hpending : registry.pendingCancelRequests.lookup id with
      | none => simp [Table.lookup_insert_ite]
      | some pending =>
          by_cases hlt : pending < sequence
          · simp [hlt, Table.lookup_insert_ite]
          · simp [hlt]

@[simp] theorem onCancel_seen (registry : RequestCancellationRegistry) (limits : RemoteEndPointLimits)
    (id : LsRequestId) (sequence : Nat) :
    (registry.onCancel limits id sequence).1.seenRequestIds = registry.seenRequestIds := by
  unfold onCancel recordPendingCancel prunePendingCancels
  split
  · rfl
  · split
    · split_ifs <;> rfl
    · split_ifs <;> rfl

theorem onCancel_canceler (registry : RequestCancellationRegistry) (limits : RemoteEndPointLimits)
    (id : LsRequestId) (sequence : Nat) :
    (registry.onCancel limits id sequence).2 =
      (registry.requestCancelers.lookup id).map fun entry => entry.1 := by
  unfold onCancel
  cases registry.requestCancelers.lookup id with
  | some entry => rfl
  | none =>
      dsimp only
      split
      · rfl
      · split_ifs <;> rfl

theorem cancelableRequestContext_pending (registry : RequestCancellationRegistry)
    (limits : RemoteEndPointLimits) (id id' : LsRequestId) (sequence canceler cookie : Nat) :
    (registry.cancelableRequestContext limits id sequence canceler cookie).1.pendingCancelRequests.lookup id' =
      if id' = id then none else registry.pendingCancelRequests.lookup id' := by
  unfold cancelableRequestContext recordSeenRequest pruneSeenRequests
  dsimp only
  cases hpending : registry.pendingCancelRequests.lookup id with
  | none =>
      dsimp only
      split_ifs with hlimit hid hid
      · rw [hid, hpending]
      · rfl
      · rw [hid, hpending]
      · rfl
  | some pending =>
      dsimp only
      split_ifs <;> simp_all [Table.lookup_erase_ite]

theorem cancelableRequestContext_seen (registry : RequestCancellationRegistry)
    (limits : RemoteEndPointLimits) (hlimit : limits.maxSeenRequestIds = 0) (id id' : LsRequestId)
    (sequence canceler cookie : Nat) :
    (registry.cancelableRequestContext limits id sequence canceler cookie).1.seenRequestIds.lookup id' =
      if id' = id then some sequence else registry.seenRequestIds.lookup id' := by
  unfold cancelableRequestContext recordSeenRequest pruneSeenRequests
  rw [hlimit]
  dsimp only
  split <;> simp [Table.lookup_insert_ite]

/-- The canceler is invoked for a pending cancel that is later on the wire or whose id is new. -/
theorem cancelableRequestContext_invoke (registry : RequestCancellationRegistry)
    (limits : RemoteEndPointLimits) (id : LsRequestId) (sequence canceler cookie : Nat) :
    (registry.cancelableRequestContext limits id sequence canceler cookie).2 = true ↔
      ∃ pending, registry.pendingCancelRequests.lookup id = some pending ∧
        (registry.seenRequestIds.lookup id = none ∨ sequence < pending) := by
  unfold cancelableRequestContext
  dsimp only
  cases registry.pendingCancelRequests.lookup id with
  | none => simp
  | some pending => simp

@[simp] theorem eraseCanceler_pending (registry : RequestCancellationRegistry) (id : LsRequestId)
    (cookie : Nat) : (registry.eraseCanceler id cookie).pendingCancelRequests =
      registry.pendingCancelRequests := by
  unfold eraseCanceler
  split
  · split_ifs <;> rfl
  · rfl

@[simp] theorem eraseCanceler_seen (registry : RequestCancellationRegistry) (id : LsRequestId)
    (cookie : Nat) : (registry.eraseCanceler id cookie).seenRequestIds = registry.seenRequestIds := by
  unfold eraseCanceler
  split
  · split_ifs <;> rfl
  · rfl

/-- Scope exits, retainers and their release touch neither table. -/
theorem handler_pending_seen (registry : RequestCancellationRegistry) (id : LsRequestId)
    (cookie : Nat) (key : CancelKey) :
    ((registry.scopeExit id cookie).pendingCancelRequests = registry.pendingCancelRequests ∧
      (registry.scopeExit id cookie).seenRequestIds = registry.seenRequestIds) ∧
    ((registry.retainRequestCancellation id).1.pendingCancelRequests = registry.pendingCancelRequests ∧
      (registry.retainRequestCancellation id).1.seenRequestIds = registry.seenRequestIds) ∧
    (registry.releaseRetainer key).pendingCancelRequests = registry.pendingCancelRequests ∧
      (registry.releaseRetainer key).seenRequestIds = registry.seenRequestIds := by
  refine ⟨?_, ?_, ?_⟩
  · unfold scopeExit
    split <;> simp
  · unfold retainRequestCancellation
    split <;> simp
  · unfold releaseRetainer
    split
    · simp
    · split_ifs <;> simp

end RequestCancellationRegistry

end LspCpp

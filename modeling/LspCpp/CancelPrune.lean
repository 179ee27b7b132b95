import LspCpp.CancelSystem

/-! The pruning of the pending cancels and of the seen ids. Each table has a list of its records in their order;
as long as every entry of the table has a record, the pruning ends with a table within its limit. -/

namespace LspCpp

namespace RequestCancellationRegistry

variable {table : Table LsRequestId Nat} {order : List (LsRequestId × Nat)}

/-- The rule for the loop: what every round keeps while the table is too large holds of what the loop leaves. -/
theorem prune_rule (limit : Nat) (Inv : Table LsRequestId Nat → List (LsRequestId × Nat) → Prop)
    (hdrop : ∀ table oldest rest, limit < table.size → Inv table (oldest :: rest) →
      Inv (if table.lookup oldest.1 = some oldest.2 then table.erase oldest.1 else table) rest)
    (h : Inv table order) : Inv (prune limit table order).1 (prune limit table order).2 := by
  induction order generalizing table with
  | nil => exact h
  | cons oldest rest ih =>
      rw [prune]
      by_cases hsize : limit < table.size
      · rw [if_pos hsize]
        exact ih (hdrop table oldest rest hsize h)
      · rw [if_neg hsize]
        exact h

/-- The loop ends with a small table or with no records. -/
theorem prune_ends (limit : Nat) (table : Table LsRequestId Nat) (order : List (LsRequestId × Nat)) :
    (prune limit table order).1.size ≤ limit ∨ (prune limit table order).2 = [] := by
  induction order generalizing table with
  | nil => exact Or.inr rfl
  | cons oldest rest ih =>
      rw [prune]
      by_cases hsize : limit < table.size
      · rw [if_pos hsize]
        exact ih _
      · rw [if_neg hsize]
        exact Or.inl (Nat.not_lt.mp hsize)

end RequestCancellationRegistry

/-- Every entry of the table has a record. -/
def Tracked (table : Table LsRequestId Nat) (order : List (LsRequestId × Nat)) : Prop :=
  ∀ id sequence, table.lookup id = some sequence → (id, sequence) ∈ order

namespace Tracked

variable {table : Table LsRequestId Nat} {order : List (LsRequestId × Nat)}

theorem record (h : Tracked table order) (id : LsRequestId) (sequence : Nat) :
    Tracked (table.insert id sequence) (order ++ [(id, sequence)]) := by
  intro id' sequence' hlookup
  rw [Table.lookup_insert_ite] at hlookup
  rw [List.mem_append, List.mem_singleton]
  split_ifs at hlookup with hid
  · cases hlookup
    exact .inr (by rw [hid])
  · exact .inl (h id' sequence' hlookup)

theorem erase (h : Tracked table order) (id : LsRequestId) : Tracked (table.erase id) order := by
  intro id' sequence' hlookup
  rw [Table.lookup_erase_ite] at hlookup
  split_ifs at hlookup
  exact h id' sequence' hlookup

/-- The oldest record is dropped with the entry that it stands for. -/
theorem drop {oldest : LsRequestId × Nat} {rest : List (LsRequestId × Nat)} (h : Tracked table (oldest :: rest)) :
    Tracked (if table.lookup oldest.1 = some oldest.2 then table.erase oldest.1 else table) rest := by
  intro id sequence hlookup
  have hentry : table.lookup id = some sequence ∧ (id, sequence) ≠ oldest := by
    split_ifs at hlookup with holdest
    · rw [Table.lookup_erase_ite] at hlookup
      split_ifs at hlookup with hid
      exact ⟨hlookup, fun heq => hid (by rw [← heq])⟩
    · refine ⟨hlookup, fun heq => holdest ?_⟩
      rw [← heq]
      exact hlookup
  rcases List.mem_cons.mp (h id sequence hentry.1) with heq | hmem
  · exact absurd heq hentry.2
  · exact hmem

theorem size_eq_zero (h : Tracked table []) : table.size = 0 := by
  have hempty : table = ∅ := by
    apply Table.eq_empty_of_forall_not_mem
    intro id hid
    obtain ⟨sequence, hlookup⟩ := Option.isSome_iff_exists.mp (AList.lookup_isSome.mpr hid)
    cases h id sequence hlookup
  rw [hempty]
  rfl

/-- The loop keeps a record for every entry and ends within the limit. -/
theorem prune (h : Tracked table order) (limit : Nat) :
    Tracked (RequestCancellationRegistry.prune limit table order).1
        (RequestCancellationRegistry.prune limit table order).2 ∧
      (RequestCancellationRegistry.prune limit table order).1.size ≤ limit := by
  have hkept := RequestCancellationRegistry.prune_rule limit Tracked (fun _ _ _ _ htracked => htracked.drop) h
  refine ⟨hkept, ?_⟩
  rcases RequestCancellationRegistry.prune_ends limit table order with hsize | hnil
  · exact hsize
  · rw [hnil] at hkept
    rw [hkept.size_eq_zero]
    exact Nat.zero_le limit

end Tracked

namespace RequestCancellationRegistry

/-- Both tables are tracked and within their limits. -/
structure Limited (registry : RequestCancellationRegistry) (limits : RemoteEndPointLimits) : Prop where
  pending : Tracked registry.pendingCancelRequests registry.pendingCancelOrder
  seen : Tracked registry.seenRequestIds registry.seenRequestOrder
  pendingSize : limits.maxPendingCancelRequests ≠ 0 →
    registry.pendingCancelRequests.size ≤ limits.maxPendingCancelRequests
  seenSize : limits.maxSeenRequestIds ≠ 0 → registry.seenRequestIds.size ≤ limits.maxSeenRequestIds

variable {registry : RequestCancellationRegistry} {limits : RemoteEndPointLimits}

theorem Limited.recordPendingCancel (h : Limited registry limits) (id : LsRequestId) (sequence : Nat) :
    Limited (registry.recordPendingCancel id sequence limits.maxPendingCancelRequests) limits := by
  have hrecord := h.pending.record id sequence
  unfold RequestCancellationRegistry.recordPendingCancel prunePendingCancels
  split_ifs with hlimit
  · exact ⟨hrecord, h.seen, fun hne => absurd hlimit hne, h.seenSize⟩
  · obtain ⟨htracked, hsize⟩ := hrecord.prune limits.maxPendingCancelRequests
    exact ⟨htracked, h.seen, fun _ => hsize, h.seenSize⟩

theorem Limited.recordSeenRequest (h : Limited registry limits) (id : LsRequestId) (sequence : Nat) :
    Limited (registry.recordSeenRequest id sequence limits.maxSeenRequestIds) limits := by
  have hrecord := h.seen.record id sequence
  unfold RequestCancellationRegistry.recordSeenRequest pruneSeenRequests
  split_ifs with hlimit
  · exact ⟨h.pending, hrecord, h.pendingSize, fun hne => absurd hlimit hne⟩
  · obtain ⟨htracked, hsize⟩ := hrecord.prune limits.maxSeenRequestIds
    exact ⟨h.pending, htracked, h.pendingSize, fun _ => hsize⟩

theorem Limited.onCancel (h : Limited registry limits) (id : LsRequestId) (sequence : Nat) :
    Limited (registry.onCancel limits id sequence).1 limits := by
  unfold RequestCancellationRegistry.onCancel
  split
  · exact h
  · split
    · exact h.recordPendingCancel id sequence
    · split_ifs
      · exact h.recordPendingCancel id sequence
      · exact h

theorem Limited.cancelableRequestContext (h : Limited registry limits) (id : LsRequestId)
    (sequence canceler cookie : Nat) :
    Limited (registry.cancelableRequestContext limits id sequence canceler cookie).1 limits := by
  have hregistered : Limited
      { registry with requestCancelers := registry.requestCancelers.insert id (canceler, cookie) } limits :=
    { h with }
  unfold RequestCancellationRegistry.cancelableRequestContext
  dsimp only
  split
  · exact hregistered.recordSeenRequest id sequence
  · have hconsumed : Limited
        { registry with
          requestCancelers := registry.requestCancelers.insert id (canceler, cookie)
          pendingCancelRequests := registry.pendingCancelRequests.erase id } limits :=
      { hregistered with
        pending := h.pending.erase id
        pendingSize := fun hne => Nat.le_trans (Table.size_erase_le _ _) (h.pendingSize hne) }
    exact hconsumed.recordSeenRequest id sequence

/-- The cancelers and the retainers are all that changes. -/
def SameRecords (registry registry' : RequestCancellationRegistry) : Prop :=
  ∃ cancelers retained, registry' =
    { registry with requestCancelers := cancelers, retainedRequestCancelers := retained }

theorem sameRecords_eraseCanceler (registry : RequestCancellationRegistry) (id : LsRequestId) (cookie : Nat) :
    SameRecords registry (registry.eraseCanceler id cookie) := by
  unfold eraseCanceler
  split
  · split_ifs <;> exact ⟨_, _, rfl⟩
  · exact ⟨_, _, rfl⟩

theorem sameRecords_scopeExit (registry : RequestCancellationRegistry) (id : LsRequestId) (cookie : Nat) :
    SameRecords registry (registry.scopeExit id cookie) := by
  unfold scopeExit
  split
  · exact ⟨_, _, rfl⟩
  · exact sameRecords_eraseCanceler registry id cookie

theorem sameRecords_retain (registry : RequestCancellationRegistry) (id : LsRequestId) :
    SameRecords registry (registry.retainRequestCancellation id).1 := by
  unfold retainRequestCancellation
  split <;> exact ⟨_, _, rfl⟩

theorem sameRecords_release (registry : RequestCancellationRegistry) (key : CancelKey) :
    SameRecords registry (registry.releaseRetainer key) := by
  unfold releaseRetainer
  split
  · exact sameRecords_eraseCanceler registry key.1 key.2
  · split_ifs
    · exact ⟨_, _, rfl⟩
    · obtain ⟨cancelers, retained, heq⟩ := sameRecords_eraseCanceler
        { registry with retainedRequestCancelers := registry.retainedRequestCancelers.erase key } key.1 key.2
      exact ⟨cancelers, retained, heq⟩

theorem Limited.congr (h : Limited registry limits) {registry' : RequestCancellationRegistry}
    (hsame : SameRecords registry registry') : Limited registry' limits := by
  obtain ⟨_, _, rfl⟩ := hsame
  exact { h with }

end RequestCancellationRegistry

namespace CancelState

theorem cancel_registry (s : CancelState) (canceler : Option Canceler) :
    (s.cancel canceler).registry = s.registry ∧ (s.cancel canceler).limits = s.limits := by
  unfold cancel
  split
  · exact ⟨rfl, rfl⟩
  · split <;> exact ⟨rfl, rfl⟩

/-- The registry after a step: a cancel or the start of a request has recorded its id, or no record has changed. -/
theorem step_registry {a : CancelAction} {s s' : CancelState} (h : step a s = some s') :
    s'.limits = s.limits ∧
      ((∃ id, a = .routeCancel id ∧ s'.registry = (s.registry.onCancel s.limits id s.nextSequence).1) ∨
        (∃ r request, a = .register r ∧ s.requests r = some request ∧ request.phase = .routed ∧ s'.registry =
          (s.registry.cancelableRequestContext s.limits request.id r r s.nextRequestCookie).1) ∨
        (∀ id, a ≠ .routeCancel id) ∧ (∀ r, a ≠ .register r) ∧ s.registry.SameRecords s'.registry) := by
  cases a with
  | routeRequest id =>
      cases h
      exact ⟨rfl, .inr (.inr ⟨nofun, nofun, _, _, rfl⟩)⟩
  | routeCancel id =>
      cases h
      obtain ⟨hregistry, hlimits⟩ := cancel_registry
        { s with
          registry := (s.registry.onCancel s.limits id s.nextSequence).1
          nextSequence := s.nextSequence + 1
          cancels := s.cancels ++ [(id, s.nextSequence)] } (s.registry.onCancel s.limits id s.nextSequence).2
      exact ⟨hlimits, .inl ⟨id, rfl, hregistry⟩⟩
  | routeOther =>
      cases h
      exact ⟨rfl, .inr (.inr ⟨nofun, nofun, _, _, rfl⟩)⟩
  | register r =>
      obtain ⟨request, hrequest, hphase, rfl⟩ := step_register h
      exact ⟨rfl, .inr (.inl ⟨r, request, rfl, hrequest, hphase, rfl⟩)⟩
  | enter r =>
      obtain ⟨request, invoke, _, _, rfl⟩ := step_enter h
      exact ⟨rfl, .inr (.inr ⟨nofun, nofun, _, _, rfl⟩)⟩
  | retain r =>
      obtain ⟨request, _, _, rfl⟩ := step_retain h
      exact ⟨rfl, .inr (.inr ⟨nofun, nofun, RequestCancellationRegistry.sameRecords_retain _ _⟩)⟩
  | release r key =>
      obtain ⟨request, _, _, rfl⟩ := step_release h
      exact ⟨rfl, .inr (.inr ⟨nofun, nofun, RequestCancellationRegistry.sameRecords_release _ _⟩)⟩
  | exit r =>
      obtain ⟨request, _, _, rfl⟩ := step_exit h
      exact ⟨rfl, .inr (.inr ⟨nofun, nofun, RequestCancellationRegistry.sameRecords_scopeExit _ _ _⟩)⟩

theorem limited_step {a : CancelAction} {s s' : CancelState} (h : s.registry.Limited s.limits)
    (hstep : step a s = some s') : s'.registry.Limited s'.limits := by
  obtain ⟨hlimits, ⟨id, _, hregistry⟩ | ⟨r, request, _, _, _, hregistry⟩ | ⟨_, _, hsame⟩⟩ := step_registry hstep
  · rw [hlimits, hregistry]
    exact h.onCancel id s.nextSequence
  · rw [hlimits, hregistry]
    exact h.cancelableRequestContext request.id r r s.nextRequestCookie
  · rw [hlimits]
    exact h.congr hsame

theorem limited_of_reachable {ok : CancelAction → CancelState → Prop} {s : CancelState}
    (hs : cancelSystem.ReachableIf ok s) : s.registry.Limited s.limits := by
  refine hs.invariant (fun s => s.registry.Limited s.limits) ?_ fun a s s' h _ hstep => limited_step h hstep
  rintro s ⟨limits, rfl⟩
  exact ⟨nofun, nofun, fun _ => Nat.zero_le _, fun _ => Nat.zero_le _⟩

end CancelState

end LspCpp

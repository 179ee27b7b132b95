import LspCpp.CancelPrune

/-! The size of the cancellation bookkeeping as a whole. The tables are within their limits, but the lists of their
records lose a record only when a table is over its limit: an entry that is overwritten or consumed leaves its
record behind. The bookkeeping is bounded in every run in which no entry is. -/

namespace LspCpp

/-- The records are those of the entries and no others. -/
structure Exact (table : Table LsRequestId Nat) (order : List (LsRequestId × Nat)) : Prop where
  nodup : (order.map Prod.fst).Nodup
  entry : ∀ id sequence, (id, sequence) ∈ order ↔ table.lookup id = some sequence

namespace Exact

variable {table : Table LsRequestId Nat} {order : List (LsRequestId × Nat)}

theorem length_eq (h : Exact table order) : order.length = table.size := by
  have hperm : (order.map Prod.fst).Perm table.keys := by
    apply (List.perm_ext_iff_of_nodup h.nodup table.keys_nodup).mpr
    intro id
    rw [← AList.mem_keys, ← AList.lookup_isSome, Option.isSome_iff_exists, List.mem_map]
    constructor
    · rintro ⟨⟨id', sequence⟩, hmem, rfl⟩
      exact ⟨sequence, (h.entry id' sequence).mp hmem⟩
    · rintro ⟨sequence, hlookup⟩
      exact ⟨(id, sequence), (h.entry id sequence).mpr hlookup, rfl⟩
  rw [Table.size_eq_length_keys, ← hperm.length_eq, List.length_map]

theorem record (h : Exact table order) {id : LsRequestId} (hnew : table.lookup id = none) (sequence : Nat) :
    Exact (table.insert id sequence) (order ++ [(id, sequence)]) := by
  constructor
  · rw [List.map_append, List.map_singleton]
    apply h.nodup.append (List.nodup_singleton _)
    rw [List.disjoint_singleton]
    intro hmem
    obtain ⟨⟨_, sequence'⟩, hrecord, rfl⟩ := List.mem_map.mp hmem
    rw [(h.entry _ sequence').mp hrecord] at hnew
    cases hnew
  · intro id' sequence'
    rw [List.mem_append, List.mem_singleton, Table.lookup_insert_ite]
    split_ifs with hid
    · rw [h.entry, hid, hnew]
      simp [eq_comm]
    · rw [h.entry]
      simp [hid]

theorem drop {oldest : LsRequestId × Nat} {rest : List (LsRequestId × Nat)} (h : Exact table (oldest :: rest)) :
    Exact (if table.lookup oldest.1 = some oldest.2 then table.erase oldest.1 else table) rest := by
  have holdest : table.lookup oldest.1 = some oldest.2 := (h.entry oldest.1 oldest.2).mp List.mem_cons_self
  have hnodup := List.nodup_cons.mp h.nodup
  rw [if_pos holdest]
  refine ⟨hnodup.2, fun id sequence => ?_⟩
  rw [Table.lookup_erase_ite]
  split_ifs with hid
  · refine iff_of_false (fun hmem => hnodup.1 ?_) nofun
    exact List.mem_map.mpr ⟨(id, sequence), hmem, hid⟩
  · rw [← h.entry, List.mem_cons]
    constructor
    · exact .inr
    · rintro (heq | hmem)
      · exact absurd (congrArg Prod.fst heq) hid
      · exact hmem

theorem prune (h : Exact table order) (limit : Nat) :
    Exact (RequestCancellationRegistry.prune limit table order).1
      (RequestCancellationRegistry.prune limit table order).2 :=
  RequestCancellationRegistry.prune_rule limit Exact (fun _ _ _ _ hexact => hexact.drop) h

end Exact

namespace RequestCancellationRegistry

/-- The entries of the two tables. -/
def entries (registry : RequestCancellationRegistry) : Nat :=
  registry.pendingCancelRequests.size + registry.seenRequestIds.size

/-- The records in their order. -/
def records (registry : RequestCancellationRegistry) : Nat :=
  registry.pendingCancelOrder.length + registry.seenRequestOrder.length

/-- The elements of all four containers. -/
def bookkeeping (registry : RequestCancellationRegistry) : Nat := registry.entries + registry.records

/-- Neither table has left a record behind. -/
structure Recorded (registry : RequestCancellationRegistry) : Prop where
  pending : Exact registry.pendingCancelRequests registry.pendingCancelOrder
  seen : Exact registry.seenRequestIds registry.seenRequestOrder

variable {registry : RequestCancellationRegistry}

theorem Recorded.records_eq (h : Recorded registry) : registry.records = registry.entries := by
  rw [records, entries, h.pending.length_eq, h.seen.length_eq]

theorem Recorded.congr (h : Recorded registry) {registry' : RequestCancellationRegistry}
    (hsame : SameRecords registry registry') : Recorded registry' := by
  obtain ⟨_, _, rfl⟩ := hsame
  exact { h with }

theorem Recorded.recordPendingCancel (h : Recorded registry) {id : LsRequestId}
    (hnew : registry.pendingCancelRequests.lookup id = none) (sequence limit : Nat) :
    Recorded (registry.recordPendingCancel id sequence limit) := by
  have hrecord := h.pending.record hnew sequence
  unfold RequestCancellationRegistry.recordPendingCancel prunePendingCancels
  split_ifs
  · exact { h with pending := hrecord }
  · exact { h with pending := hrecord.prune limit }

theorem Recorded.recordSeenRequest (h : Recorded registry) {id : LsRequestId}
    (hnew : registry.seenRequestIds.lookup id = none) (sequence limit : Nat) :
    Recorded (registry.recordSeenRequest id sequence limit) := by
  have hrecord := h.seen.record hnew sequence
  unfold RequestCancellationRegistry.recordSeenRequest pruneSeenRequests
  split_ifs
  · exact { h with seen := hrecord }
  · exact { h with seen := hrecord.prune limit }

/-- An id is recorded over an entry of a table within its limit: nothing is pruned. -/
theorem prune_of_le {limit : Nat} {table : Table LsRequestId Nat} (hsize : table.size ≤ limit)
    (order : List (LsRequestId × Nat)) : prune limit table order = (table, order) := by
  cases order with
  | nil => rfl
  | cons oldest rest => rw [prune, if_neg (Nat.not_lt.mpr hsize)]

theorem recordSeenRequest_pending (registry : RequestCancellationRegistry) (id : LsRequestId)
    (sequence limit : Nat) :
    (registry.recordSeenRequest id sequence limit).pendingCancelRequests = registry.pendingCancelRequests ∧
      (registry.recordSeenRequest id sequence limit).pendingCancelOrder = registry.pendingCancelOrder := by
  unfold recordSeenRequest pruneSeenRequests
  split_ifs <;> exact ⟨rfl, rfl⟩

/-- A cancel that is recorded over another leaves a record behind. -/
theorem Recorded.records_recordPendingCancel (h : Recorded registry) {id : LsRequestId}
    (hold : registry.pendingCancelRequests.lookup id ≠ none) {limit : Nat}
    (hlimit : limit ≠ 0 → registry.pendingCancelRequests.size ≤ limit) (sequence : Nat) :
    (registry.recordPendingCancel id sequence limit).entries <
      (registry.recordPendingCancel id sequence limit).records := by
  have hmem : id ∈ registry.pendingCancelRequests := by
    rw [← AList.lookup_isSome]
    exact Option.isSome_iff_ne_none.mpr hold
  have hsize := Table.size_insert_of_mem hmem sequence
  have heq : registry.recordPendingCancel id sequence limit =
      { registry with
        pendingCancelRequests := registry.pendingCancelRequests.insert id sequence
        pendingCancelOrder := registry.pendingCancelOrder ++ [(id, sequence)] } := by
    unfold RequestCancellationRegistry.recordPendingCancel prunePendingCancels
    split_ifs with hzero
    · rfl
    · rw [prune_of_le (hsize.symm ▸ hlimit hzero)]
  have hrecords := h.records_eq
  rw [heq]
  simp only [entries, records, List.length_append, List.length_singleton, hsize] at hrecords ⊢
  omega

/-- The record of a request that starts: one is left behind where the id was seen before. -/
theorem records_recordSeenRequest (registry : RequestCancellationRegistry)
    (h : Exact registry.seenRequestIds registry.seenRequestOrder) (id : LsRequestId) {limit : Nat}
    (hlimit : limit ≠ 0 → registry.seenRequestIds.size ≤ limit) (sequence : Nat) :
    (registry.recordSeenRequest id sequence limit).seenRequestIds.size ≤
        (registry.recordSeenRequest id sequence limit).seenRequestOrder.length ∧
      (registry.seenRequestIds.lookup id ≠ none →
        (registry.recordSeenRequest id sequence limit).seenRequestIds.size <
          (registry.recordSeenRequest id sequence limit).seenRequestOrder.length) := by
  by_cases hnew : registry.seenRequestIds.lookup id = none
  · have hexact : Exact (registry.recordSeenRequest id sequence limit).seenRequestIds
        (registry.recordSeenRequest id sequence limit).seenRequestOrder := by
      unfold RequestCancellationRegistry.recordSeenRequest pruneSeenRequests
      split_ifs
      · exact h.record hnew sequence
      · exact (h.record hnew sequence).prune limit
    exact ⟨Nat.le_of_eq hexact.length_eq.symm, fun hold => absurd hnew hold⟩
  · have hmem : id ∈ registry.seenRequestIds := by
      rw [← AList.lookup_isSome]
      exact Option.isSome_iff_ne_none.mpr hnew
    have hsize := Table.size_insert_of_mem hmem sequence
    have heq : registry.recordSeenRequest id sequence limit =
        { registry with
          seenRequestIds := registry.seenRequestIds.insert id sequence
          seenRequestOrder := registry.seenRequestOrder ++ [(id, sequence)] } := by
      unfold RequestCancellationRegistry.recordSeenRequest pruneSeenRequests
      split_ifs with hzero
      · rfl
      · rw [prune_of_le (hsize.symm ▸ hlimit hzero)]
    have hlength := h.length_eq
    rw [heq]
    simp only [List.length_append, List.length_singleton, hsize]
    omega

/-- A request that starts with an id that was seen, or for which a cancel is pending, leaves a record behind. -/
theorem Recorded.records_cancelableRequestContext (h : Recorded registry) {limits : RemoteEndPointLimits}
    (hlimited : Limited registry limits) {id : LsRequestId}
    (hreuse : registry.seenRequestIds.lookup id ≠ none ∨ registry.pendingCancelRequests.lookup id ≠ none)
    (sequence canceler cookie : Nat) :
    (registry.cancelableRequestContext limits id sequence canceler cookie).1.entries <
      (registry.cancelableRequestContext limits id sequence canceler cookie).1.records := by
  have hpending := h.pending.length_eq
  unfold RequestCancellationRegistry.cancelableRequestContext
  dsimp only
  split
  · rename_i hnone
    have hseen := records_recordSeenRequest
      { registry with requestCancelers := registry.requestCancelers.insert id (canceler, cookie) }
      h.seen id hlimited.seenSize sequence
    have hlt := hseen.2 (hreuse.resolve_right fun hsome => hsome hnone)
    obtain ⟨htable, horder⟩ := recordSeenRequest_pending
      { registry with requestCancelers := registry.requestCancelers.insert id (canceler, cookie) } id sequence
      limits.maxSeenRequestIds
    rw [entries, records, htable, horder]
    dsimp only
    omega
  · rename_i pending hsome
    have hsize := Table.size_erase (Table.mem_of_lookup hsome)
    have hseen := records_recordSeenRequest
      { registry with
        requestCancelers := registry.requestCancelers.insert id (canceler, cookie)
        pendingCancelRequests := registry.pendingCancelRequests.erase id }
      h.seen id hlimited.seenSize sequence
    obtain ⟨htable, horder⟩ := recordSeenRequest_pending
      { registry with
        requestCancelers := registry.requestCancelers.insert id (canceler, cookie)
        pendingCancelRequests := registry.pendingCancelRequests.erase id } id sequence limits.maxSeenRequestIds
    rw [entries, records, htable, horder]
    dsimp only
    have hle := hseen.1
    omega

theorem Recorded.onCancel (h : Recorded registry) (limits : RemoteEndPointLimits) {id : LsRequestId} {sequence : Nat}
    (hnone : registry.requestCancelers.lookup id = none →
      ∀ pending ∈ registry.pendingCancelRequests.lookup id, sequence ≤ pending) :
    Recorded (registry.onCancel limits id sequence).1 := by
  unfold RequestCancellationRegistry.onCancel
  split
  · exact h
  · rename_i hcanceler
    split
    · rename_i hnew
      exact h.recordPendingCancel hnew sequence _
    · rename_i pending hpending
      rw [if_neg (Nat.not_lt.mpr (hnone hcanceler pending hpending))]
      exact h

theorem Recorded.records_onCancel (h : Recorded registry) {limits : RemoteEndPointLimits}
    (hlimited : Limited registry limits) {id : LsRequestId} {sequence pending : Nat}
    (hcanceler : registry.requestCancelers.lookup id = none)
    (hpending : registry.pendingCancelRequests.lookup id = some pending) (hlt : pending < sequence) :
    (registry.onCancel limits id sequence).1.entries < (registry.onCancel limits id sequence).1.records := by
  have hold : registry.pendingCancelRequests.lookup id ≠ none := by
    rw [hpending]
    exact Option.some_ne_none _
  simp only [RequestCancellationRegistry.onCancel, hcanceler, hpending, if_pos hlt]
  exact h.records_recordPendingCancel hold hlimited.pendingSize sequence

theorem Recorded.cancelableRequestContext (h : Recorded registry) (limits : RemoteEndPointLimits) {id : LsRequestId}
    (hseen : registry.seenRequestIds.lookup id = none) (hpending : registry.pendingCancelRequests.lookup id = none)
    (sequence canceler cookie : Nat) :
    Recorded (registry.cancelableRequestContext limits id sequence canceler cookie).1 := by
  have hregistered : Recorded
      { registry with requestCancelers := registry.requestCancelers.insert id (canceler, cookie) } := { h with }
  simp only [RequestCancellationRegistry.cancelableRequestContext, hpending]
  exact hregistered.recordSeenRequest hseen sequence _

end RequestCancellationRegistry

/-! ### Runs -/

namespace CancelState

/-- The number of requests that have been routed and have not finished. -/
def inProgress (s : CancelState) : Nat :=
  (List.range s.nextSequence).countP fun r => (s.requests r).any fun request => !decide request.Finished

/-- No request starts with an id that is among the seen ones or for which a cancel is pending, and no cancel is
recorded for an id for which one is pending. -/
def NoneReplaced : CancelAction → CancelState → Prop
  | .register r, s => ∀ request ∈ s.requests r, request.phase = .routed →
      s.registry.seenRequestIds.lookup request.id = none ∧
        s.registry.pendingCancelRequests.lookup request.id = none
  | .routeCancel id, s => s.registry.requestCancelers.lookup id = none →
      ∀ pending ∈ s.registry.pendingCancelRequests.lookup id, s.nextSequence ≤ pending
  | _, _ => True

instance (a : CancelAction) (s : CancelState) : Decidable (NoneReplaced a s) :=
  match a with
  | .register r => inferInstanceAs (Decidable (∀ request ∈ s.requests r, request.phase = .routed →
      s.registry.seenRequestIds.lookup request.id = none ∧
        s.registry.pendingCancelRequests.lookup request.id = none))
  | .routeCancel id => inferInstanceAs (Decidable (s.registry.requestCancelers.lookup id = none →
      ∀ pending ∈ s.registry.pendingCancelRequests.lookup id, s.nextSequence ≤ pending))
  | .routeRequest _ | .routeOther | .enter _ | .retain _ | .release .. | .exit _ =>
      inferInstanceAs (Decidable True)

theorem recorded_of_reachable {s : CancelState} (hs : cancelSystem.ReachableIf NoneReplaced s) :
    s.registry.Recorded := by
  refine hs.invariant (fun s => s.registry.Recorded) ?_ fun a s s' h hok hstep => ?_
  · rintro s ⟨limits, rfl⟩
    refine ⟨⟨List.nodup_nil, fun _ _ => ?_⟩, ⟨List.nodup_nil, fun _ _ => ?_⟩⟩ <;> exact iff_of_false nofun nofun
  · obtain ⟨_, ⟨id, rfl, hregistry⟩ | ⟨r, request, rfl, hrequest, hphase, hregistry⟩ | ⟨_, _, hsame⟩⟩ :=
      step_registry hstep
    · rw [hregistry]
      exact h.onCancel s.limits hok
    · obtain ⟨hseen, hpending⟩ := hok request hrequest hphase
      rw [hregistry]
      exact h.cancelableRequestContext s.limits hseen hpending r r s.nextRequestCookie
    · exact h.congr hsame

/-- A step that replaces an entry leaves a record behind. -/
theorem entries_lt_records_of_step {a : CancelAction} {s s' : CancelState} (hrecorded : s.registry.Recorded)
    (hlimited : s.registry.Limited s.limits) (hreplaced : ¬NoneReplaced a s) (hstep : step a s = some s') :
    s'.registry.entries < s'.registry.records := by
  obtain ⟨_, ⟨id, rfl, hregistry⟩ | ⟨r, request, rfl, hrequest, hphase, hregistry⟩ | ⟨hcancel, hregister, _⟩⟩ :=
    step_registry hstep
  · rw [NoneReplaced] at hreplaced
    push Not at hreplaced
    obtain ⟨hcanceler, pending, hpending, hlt⟩ := hreplaced
    rw [hregistry]
    exact hrecorded.records_onCancel hlimited hcanceler hpending hlt
  · rw [NoneReplaced] at hreplaced
    push Not at hreplaced
    obtain ⟨request', hrequest', _, hreuse⟩ := hreplaced
    obtain rfl := Option.some.inj (hrequest.symm.trans hrequest')
    rw [hregistry]
    refine hrecorded.records_cancelableRequestContext hlimited ?_ r r s.nextRequestCookie
    by_cases hseen : s.registry.seenRequestIds.lookup request.id = none
    · exact .inr (hreuse hseen)
    · exact .inl hseen
  · cases a with
    | routeCancel id => exact absurd rfl (hcancel id)
    | register r => exact absurd rfl (hregister r)
    | _ => exact absurd trivial hreplaced

/-- **The cancellation bookkeeping is bounded** by twice the limits in every run in which no entry of it is replaced
or consumed; and every step that replaces or consumes one leaves a record behind. -/
theorem bookkeeping_le_of_noneReplaced (s : CancelState) (hs : cancelSystem.ReachableIf NoneReplaced s)
    (hpending : 0 < s.limits.maxPendingCancelRequests) (hseen : 0 < s.limits.maxSeenRequestIds) :
    s.registry.bookkeeping ≤ 2 * s.limits.maxPendingCancelRequests + 2 * s.limits.maxSeenRequestIds ∧
      ∀ a s', ¬NoneReplaced a s → step a s = some s' → s'.registry.entries < s'.registry.records := by
  have hrecorded := recorded_of_reachable hs
  have hlimited := limited_of_reachable hs
  refine ⟨?_, fun a s' hreplaced hstep => entries_lt_records_of_step hrecorded hlimited hreplaced hstep⟩
  have hrecords := hrecorded.records_eq
  have hpendingSize := hlimited.pendingSize (Nat.ne_of_gt hpending)
  have hseenSize := hlimited.seenSize (Nat.ne_of_gt hseen)
  rw [RequestCancellationRegistry.bookkeeping, hrecords, RequestCancellationRegistry.entries]
  omega

/-- Two requests with ids of their own, each ended before the next starts, and a cancel that finds no request. -/
def freshIdsRun : List CancelAction :=
  [.routeRequest (.kInt 1), .register 0, .enter 0, .exit 0, .routeCancel (.kInt 7), .routeRequest (.kInt 2),
    .register 2, .enter 2, .exit 2]

theorem bookkeeping_le_of_noneReplaced_freshIdsRun :
    ∃ s, cancelSystem.runIf NoneReplaced freshIdsRun
        { limits := { maxPendingCancelRequests := 1, maxSeenRequestIds := 1 } } = some s ∧
      s.registry.seenRequestOrder = [(.kInt 2, 2)] ∧ s.registry.pendingCancelOrder = [(.kInt 7, 1)] ∧
      s.registry.bookkeeping ≤ 4 := by
  obtain ⟨s, hrun, hseen, hpending, hlimits⟩ : ∃ s, cancelSystem.runIf NoneReplaced freshIdsRun
        { limits := { maxPendingCancelRequests := 1, maxSeenRequestIds := 1 } } = some s ∧
      s.registry.seenRequestOrder = [(.kInt 2, 2)] ∧ s.registry.pendingCancelOrder = [(.kInt 7, 1)] ∧
      s.limits = { maxPendingCancelRequests := 1, maxSeenRequestIds := 1 } := ⟨_, rfl, rfl, rfl, rfl⟩
  have hbound := bookkeeping_le_of_noneReplaced s
    (Transition.System.reachableIf_of_runIf freshIdsRun (.init ⟨_, rfl⟩) hrun) (by rw [hlimits]; decide)
    (by rw [hlimits]; decide)
  rw [hlimits] at hbound
  exact ⟨s, hrun, hseen, hpending, hbound.1⟩

/-- With limits of one: all requests so far had the id 1 and have finished, and each of them has left a record. -/
structure Repeated (n : Nat) (s : CancelState) : Prop where
  reachable : cancelSystem.Reachable s
  limits : s.limits = { maxPendingCancelRequests := 1, maxSeenRequestIds := 1 }
  nextSequence : s.nextSequence = n
  finished : ∀ r request, s.requests r = some request → request.Finished
  pending : s.registry.pendingCancelRequests.lookup (.kInt 1) = none
  seen : ∀ id ∈ s.registry.seenRequestIds, id = .kInt 1
  records : s.registry.seenRequestOrder.length = n

theorem Repeated.inProgress_eq {n : Nat} {s : CancelState} (h : Repeated n s) : s.inProgress = 0 := by
  apply List.countP_eq_zero.mpr
  intro r _ hany
  cases hrequest : s.requests r with
  | none =>
      rw [hrequest] at hany
      cases hany
  | some request =>
      rw [hrequest] at hany
      have hfinished := h.finished r request hrequest
      simp [hfinished] at hany

/-- A table with no other id than one has at most one entry. -/
theorem size_insert_le_one {table : Table LsRequestId Nat} {id : LsRequestId} (h : ∀ id' ∈ table, id' = id)
    (sequence : Nat) : Table.size (table.insert id sequence) ≤ 1 := by
  by_cases hmem : id ∈ table
  · rw [Table.size_insert_of_mem hmem, ← Table.size_erase hmem]
    have hempty : table.erase id = ∅ := by
      apply Table.eq_empty_of_forall_not_mem
      intro id' hid'
      obtain ⟨hne, hold⟩ := AList.mem_erase.mp hid'
      exact hne (h id' hold)
    rw [hempty]
    exact Nat.le_refl 1
  · have hempty : table = ∅ := by
      apply Table.eq_empty_of_forall_not_mem
      intro id' hid'
      exact hmem (h id' hid' ▸ hid')
    rw [Table.size_insert_of_not_mem hmem, hempty]
    exact Nat.le_refl 1

/-- The registry after the start of one more request. -/
theorem Repeated.registered {n : Nat} {s : CancelState} (h : Repeated n s) (cookie : Nat) :
    (s.registry.cancelableRequestContext s.limits (.kInt 1) n n cookie).1 =
      { s.registry with
        requestCancelers := s.registry.requestCancelers.insert (.kInt 1) (n, cookie)
        seenRequestIds := s.registry.seenRequestIds.insert (.kInt 1) n
        seenRequestOrder := s.registry.seenRequestOrder ++ [(.kInt 1, n)] } := by
  have hsize := size_insert_le_one h.seen n
  simp only [RequestCancellationRegistry.cancelableRequestContext, h.pending, h.limits,
    RequestCancellationRegistry.recordSeenRequest, RequestCancellationRegistry.pruneSeenRequests,
    RequestCancellationRegistry.prune_of_le hsize]
  split_ifs <;> rfl

/-- One more request with the id is routed, starts and ends. -/
theorem Repeated.run {n : Nat} {s : CancelState} (h : Repeated n s) :
    ∃ s', cancelSystem.run [.routeRequest (.kInt 1), .register n, .enter n, .exit n] s = some s' ∧
      s'.limits = s.limits ∧ s'.nextSequence = n + 1 ∧
      (∀ r request, s'.requests r = some request → r ≠ n → s.requests r = some request) ∧
      (∀ request, s'.requests n = some request → request.Finished) ∧
      (s.registry.cancelableRequestContext s.limits (.kInt 1) n n s.nextRequestCookie).1.SameRecords s'.registry := by
  obtain ⟨s₁, hroute, hlimits₁, hregistry₁, hcookie₁, hnext₁, hrequests₁⟩ : ∃ s₁,
      step (.routeRequest (.kInt 1)) s = some s₁ ∧ s₁.limits = s.limits ∧ s₁.registry = s.registry ∧
        s₁.nextRequestCookie = s.nextRequestCookie ∧ s₁.nextSequence = n + 1 ∧
        ∀ r, s₁.requests r = if r = n then some { id := .kInt 1 } else s.requests r := by
    refine ⟨_, rfl, rfl, rfl, rfl, ?_, fun r => ?_⟩
    · exact congrArg (· + 1) h.nextSequence
    · rw [setRequest_requests, h.nextSequence]
  obtain ⟨s₂, hregister, hlimits₂, hregistry₂, hnext₂, request, invoke, hphase, hretainers, hrequests₂⟩ : ∃ s₂,
      step (.register n) s₁ = some s₂ ∧ s₂.limits = s₁.limits ∧ s₂.registry =
        (s₁.registry.cancelableRequestContext s₁.limits (.kInt 1) n n s₁.nextRequestCookie).1 ∧
        s₂.nextSequence = s₁.nextSequence ∧ ∃ request invoke, request.phase = .registered invoke ∧
          request.retainers = [] ∧ ∀ r, s₂.requests r = if r = n then some request else s₁.requests r := by
    have hrequest := hrequests₁ n
    rw [if_pos rfl] at hrequest
    refine ⟨s₁.registerRequest n { id := .kInt 1 }, ?_, rfl, rfl, rfl, _,
      (s₁.registry.cancelableRequestContext s₁.limits (.kInt 1) n n s₁.nextRequestCookie).2, ?_, ?_,
      fun r => setRequest_requests _ n r _⟩
    · rw [step, hrequest]
      rfl
    · rfl
    · rfl
  obtain ⟨s₃, henter, hlimits₃, hregistry₃, hnext₃, request', hphase', hretainers', hrequests₃⟩ : ∃ s₃,
      step (.enter n) s₂ = some s₃ ∧ s₃.limits = s₂.limits ∧ s₃.registry = s₂.registry ∧
        s₃.nextSequence = s₂.nextSequence ∧ ∃ request, request.phase = .inScope ∧ request.retainers = [] ∧
          ∀ r, s₃.requests r = if r = n then some request else s₂.requests r := by
    have hrequest := hrequests₂ n
    rw [if_pos rfl] at hrequest
    refine ⟨s₂.setRequest n { request with phase := .inScope, cancelled := request.cancelled || invoke }, ?_, rfl, rfl,
      rfl, _, ?_, ?_, fun r => setRequest_requests _ n r _⟩
    · simp [step, hrequest, hphase]
    · rfl
    · exact hretainers
  have hrequest := hrequests₃ n
  rw [if_pos rfl] at hrequest
  have hexit : step (.exit n) s₃ = some (s₃.exitRequest n request') := by
    simp [step, hrequest, hphase']
  refine ⟨s₃.exitRequest n request', ?_, ?_, ?_, fun r other hother hr => ?_, fun other hother => ?_, ?_⟩
  · simp [Transition.System.run, cancelSystem, hroute, hregister, henter, hexit]
  · calc s₃.limits = s₂.limits := hlimits₃
      _ = s₁.limits := hlimits₂
      _ = s.limits := hlimits₁
  · calc s₃.nextSequence = s₂.nextSequence := hnext₃
      _ = s₁.nextSequence := hnext₂
      _ = _ := hnext₁
  · rw [exitRequest, setRequest_requests, if_neg hr] at hother
    have hother : s₃.requests r = some other := hother
    rw [hrequests₃, if_neg hr, hrequests₂, if_neg hr, hrequests₁, if_neg hr] at hother
    exact hother
  · rw [exitRequest, setRequest_requests, if_pos rfl, if_pos hretainers'] at hother
    cases hother
    exact ⟨rfl, hretainers'⟩
  · rw [← hcookie₁, ← hlimits₁, ← hregistry₁, ← hregistry₂, ← hregistry₃]
    exact RequestCancellationRegistry.sameRecords_scopeExit _ _ _

/-- One more request with the id starts and ends. -/
theorem Repeated.succ {n : Nat} {s : CancelState} (h : Repeated n s) : ∃ s', Repeated (n + 1) s' := by
  obtain ⟨s', hrun, hlimits, hnext, hothers, hself, cancelers, retained, hsame⟩ := h.run
  rw [h.registered] at hsame
  refine ⟨s', Transition.System.reachable_of_run _ h.reachable hrun, hlimits.trans h.limits, hnext,
    fun r request hrequest => ?_, ?_, fun id hid => ?_, ?_⟩
  · by_cases hr : r = n
    · exact hself request (hr ▸ hrequest)
    · exact h.finished r request (hothers r request hrequest hr)
  · rw [hsame]
    exact h.pending
  · rw [hsame] at hid
    rcases (AList.mem_insert _).mp hid with heq | hold
    · exact heq
    · exact h.seen id hold
  · rw [hsame]
    simp [h.records]

theorem exists_repeated (n : Nat) : ∃ s, Repeated n s := by
  induction n with
  | zero =>
      refine ⟨{ limits := { maxPendingCancelRequests := 1, maxSeenRequestIds := 1 } }, .init ⟨_, rfl⟩, rfl, rfl, nofun,
        rfl, ?_, rfl⟩
      exact fun id hid => absurd hid (AList.notMem_empty id)
  | succ n ih =>
      obtain ⟨s, hs⟩ := ih
      exact hs.succ

/-- No bound on the bookkeeping depends on the limits and the requests in progress alone. -/
theorem bookkeeping_unbounded :
    ¬∃ bound : Nat → Nat → Nat → Nat, ∀ s, cancelSystem.Reachable s → 0 < s.limits.maxPendingCancelRequests →
      0 < s.limits.maxSeenRequestIds → s.registry.bookkeeping ≤
        bound s.limits.maxPendingCancelRequests s.limits.maxSeenRequestIds s.inProgress := by
  rintro ⟨bound, hbound⟩
  obtain ⟨s, hs⟩ := exists_repeated (bound 1 1 0 + 1)
  have hle := hbound s hs.reachable (by rw [hs.limits]; decide) (by rw [hs.limits]; decide)
  rw [hs.limits, hs.inProgress_eq] at hle
  change s.registry.entries + (s.registry.pendingCancelOrder.length + s.registry.seenRequestOrder.length) ≤
    bound 1 1 0 at hle
  rw [hs.records] at hle
  omega

end CancelState

end LspCpp

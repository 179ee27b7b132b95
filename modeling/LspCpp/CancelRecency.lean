import LspCpp.CancelPrune
import LspCpp.LibRecency

/-! Which ids the pruning forgets. The records that still stand for an entry of the table are in the order in which the
ids were last recorded; the others are stale and are passed over, and so the id that goes first is the one whose last
record is the oldest. -/

namespace LspCpp

/-- The ids of the records that their entry still has, in the order of the records. -/
def liveIds (table : Table LsRequestId Nat) (order : List (LsRequestId × Nat)) : List LsRequestId :=
  (order.filter fun record => table.lookup record.1 = some record.2).map Prod.fst

section Live

variable {table : Table LsRequestId Nat} {order : List (LsRequestId × Nat)}

theorem mem_liveIds (h : Tracked table order) {id : LsRequestId} : id ∈ liveIds table order ↔ id ∈ table := by
  constructor
  · intro hid
    obtain ⟨record, hrecord, rfl⟩ := List.mem_map.mp hid
    exact Table.mem_of_lookup (of_decide_eq_true (List.mem_filter.mp hrecord).2)
  · intro hid
    obtain ⟨sequence, hlookup⟩ := Option.isSome_iff_exists.mp (AList.lookup_isSome.mpr hid)
    exact List.mem_map.mpr ⟨(id, sequence), List.mem_filter.mpr ⟨h id sequence hlookup, decide_eq_true hlookup⟩, rfl⟩

/-- With one entry less its record is stale. -/
theorem liveIds_erase (table : Table LsRequestId Nat) (order : List (LsRequestId × Nat)) (id : LsRequestId) :
    liveIds (table.erase id) order = (liveIds table order).filter (· != id) := by
  rw [liveIds, liveIds, List.filter_map, List.filter_filter]
  congr 1
  apply List.filter_congr
  intro record _
  rw [Table.lookup_erase_ite]
  by_cases hid : record.1 = id <;> simp [hid]

/-- A record with a new sequence number makes the older one of its id stale. -/
theorem liveIds_record {id : LsRequestId} {sequence : Nat} (hfresh : ∀ record ∈ order, record.2 ≠ sequence)
    (hnodup : (liveIds table order).Nodup) :
    liveIds (table.insert id sequence) (order ++ [(id, sequence)]) = Recency.use id (liveIds table order) := by
  have hold : order.filter (fun record => (table.insert id sequence).lookup record.1 = some record.2) =
      order.filter fun record => (table.erase id).lookup record.1 = some record.2 := by
    apply List.filter_congr
    intro record hrecord
    have hne := hfresh record hrecord
    rw [Table.lookup_insert_ite, Table.lookup_erase_ite]
    by_cases hid : record.1 = id <;> simp [hid, hne.symm]
  rw [liveIds, List.filter_append, hold, List.map_append, ← liveIds, liveIds_erase, Recency.use,
    hnodup.erase_eq_filter]
  simp [AList.lookup_insert]

/-- One round of the pruning takes out the first id that is live, if it comes upon its record. -/
theorem liveIds_drop {oldest : LsRequestId × Nat} {rest : List (LsRequestId × Nat)}
    (hnodup : (liveIds table (oldest :: rest)).Nodup) :
    liveIds (if table.lookup oldest.1 = some oldest.2 then table.erase oldest.1 else table) rest <:+
      liveIds table (oldest :: rest) := by
  by_cases hlive : table.lookup oldest.1 = some oldest.2
  · have hcons : liveIds table (oldest :: rest) = oldest.1 :: liveIds table rest := by
      rw [liveIds, List.filter_cons_of_pos (by simpa using hlive), List.map_cons, ← liveIds]
    rw [hcons] at hnodup ⊢
    have hnot : oldest.1 ∉ liveIds table rest := (List.nodup_cons.mp hnodup).1
    rw [if_pos hlive, liveIds_erase, List.filter_eq_self.mpr fun id hid => by
      rw [bne_iff_ne]
      rintro rfl
      exact hnot hid]
    exact List.suffix_cons _ _
  · have hskip : liveIds table (oldest :: rest) = liveIds table rest := by
      rw [liveIds, List.filter_cons_of_neg (by simpa using hlive), ← liveIds]
    rw [if_neg hlive]
    exact ⟨[], hskip.symm⟩

/-- **The pruning forgets the ids that were live first.** -/
theorem liveIds_prune (limit : Nat) (hnodup : (liveIds table order).Nodup) :
    liveIds (RequestCancellationRegistry.prune limit table order).1
        (RequestCancellationRegistry.prune limit table order).2 <:+ liveIds table order := by
  refine RequestCancellationRegistry.prune_rule limit
    (fun table' order' => liveIds table' order' <:+ liveIds table order) ?_ (List.suffix_refl _)
  intro table' oldest rest _ hsuffix
  exact (liveIds_drop (hnodup.sublist hsuffix.sublist)).trans hsuffix

theorem prune_order_suffix (limit : Nat) (table : Table LsRequestId Nat) (order : List (LsRequestId × Nat)) :
    (RequestCancellationRegistry.prune limit table order).2 <:+ order := by
  refine RequestCancellationRegistry.prune_rule limit (fun _ order' => order' <:+ order) ?_ (List.suffix_refl _)
  intro _ oldest rest _ hsuffix
  exact (List.suffix_cons oldest rest).trans hsuffix

/-- One round forgets one id at most. -/
theorem prune_size_pos {limit : Nat} (hlimit : 0 < limit) (order : List (LsRequestId × Nat)) (h : 0 < table.size) :
    0 < (RequestCancellationRegistry.prune limit table order).1.size := by
  refine RequestCancellationRegistry.prune_rule limit (fun table' _ => 0 < table'.size) ?_ h
  intro table' oldest rest hsize hpos
  split_ifs with hlive
  · have herase := Table.size_erase (Table.mem_of_lookup hlive)
    omega
  · exact hpos

end Live

/-- The records agree with the log of all that was recorded, which has the newest record first. -/
structure Recent (log : List (LsRequestId × Nat)) (table : Table LsRequestId Nat)
    (order : List (LsRequestId × Nat)) : Prop where
  tracked : Tracked table order
  logged : ∀ record ∈ order, record ∈ log
  agrees : Recency.Agrees (log.map Prod.fst) (liveIds table order)

namespace Recent

variable {log : List (LsRequestId × Nat)} {table : Table LsRequestId Nat} {order : List (LsRequestId × Nat)}

theorem empty : Recent [] ∅ [] := ⟨nofun, nofun, .nil _⟩

theorem erase (h : Recent log table order) (id : LsRequestId) : Recent log (table.erase id) order := by
  refine ⟨h.tracked.erase id, h.logged, ?_⟩
  rw [liveIds_erase]
  exact h.agrees.sublist List.filter_sublist

/-- The ids that are live after a new record: the id of the record is the last one. -/
theorem live_record (h : Recent log table order) {sequence : Nat} (hfresh : sequence ∉ log.map Prod.snd)
    (id : LsRequestId) :
    liveIds (table.insert id sequence) (order ++ [(id, sequence)]) = Recency.use id (liveIds table order) := by
  refine liveIds_record (fun record hrecord heq => hfresh ?_) h.agrees.nodup
  rw [← heq]
  exact List.mem_map_of_mem (h.logged record hrecord)

theorem record (h : Recent log table order) {sequence : Nat} (hfresh : sequence ∉ log.map Prod.snd)
    (id : LsRequestId) : Recent ((id, sequence) :: log) (table.insert id sequence) (order ++ [(id, sequence)]) := by
  refine ⟨h.tracked.record id sequence, fun record hrecord => ?_, ?_⟩
  · rcases List.mem_append.mp hrecord with hrecord | hrecord
    · exact List.mem_cons_of_mem _ (h.logged record hrecord)
    · rw [List.mem_singleton.mp hrecord]
      exact List.mem_cons_self ..
  · rw [h.live_record hfresh]
    exact h.agrees.use id

theorem prune (h : Recent log table order) (limit : Nat) :
    Recent log (RequestCancellationRegistry.prune limit table order).1
      (RequestCancellationRegistry.prune limit table order).2 where
  tracked := (h.tracked.prune limit).1
  logged := fun record hrecord => h.logged record ((prune_order_suffix limit table order).subset hrecord)
  agrees := h.agrees.sublist (liveIds_prune limit h.agrees.nodup).sublist

/-- **What the pruning forgets was recorded less recently** than all that it keeps. -/
theorem prune_evicts (h : Recent log table order) (limit : Nat) {evicted remaining : LsRequestId}
    (hevicted : evicted ∈ table) (hforgotten : evicted ∉ (RequestCancellationRegistry.prune limit table order).1)
    (hremaining : remaining ∈ (RequestCancellationRegistry.prune limit table order).1) :
    (log.map Prod.fst).idxOf remaining < (log.map Prod.fst).idxOf evicted := by
  have htracked := (h.prune limit).tracked
  obtain ⟨front, hfront⟩ := liveIds_prune limit h.agrees.nodup
  have hordered := h.agrees.ordered
  rw [← hfront] at hordered
  have hsplit : evicted ∈ front := by
    have hlive := (mem_liveIds h.tracked).mpr hevicted
    rw [← hfront] at hlive
    exact (List.mem_append.mp hlive).resolve_right fun hkept => hforgotten ((mem_liveIds htracked).mp hkept)
  exact (List.pairwise_append.mp hordered).2.2 evicted hsplit remaining ((mem_liveIds htracked).mpr hremaining)

/-- The id that was recorded last stays. -/
theorem mem_prune (h : Recent log table order) {limit : Nat} (hlimit : 0 < limit) {id : LsRequestId}
    {earlier : List LsRequestId} (hlast : liveIds table order = earlier ++ [id]) :
    id ∈ (RequestCancellationRegistry.prune limit table order).1 := by
  have htracked := (h.prune limit).tracked
  have hid : id ∈ table := (mem_liveIds h.tracked).mp (by rw [hlast]; exact List.mem_append_right _ List.mem_cons_self)
  have hpos : 0 < (RequestCancellationRegistry.prune limit table order).1.size := by
    apply prune_size_pos hlimit
    rw [Table.size_eq_length_keys]
    exact List.length_pos_of_mem (AList.mem_keys.mp hid)
  rw [Table.size_eq_length_keys] at hpos
  obtain ⟨id', hid'⟩ := List.exists_mem_of_length_pos hpos
  have hlive := (mem_liveIds htracked).mpr (AList.mem_keys.mpr hid')
  have hsuffix := liveIds_prune limit h.agrees.nodup
  rw [hlast] at hsuffix
  rw [← mem_liveIds htracked]
  rcases List.suffix_concat_iff.mp hsuffix with hnil | ⟨later, hlater, _⟩
  · rw [hnil] at hlive
    cases hlive
  · rw [hlater]
    exact List.mem_append_right _ List.mem_cons_self

end Recent

/-! ### The registry -/

/-- The two kinds of records: each has a table, an order and a limit of its own. -/
inductive RecordKind
  | pendingCancel
  | seenRequest
  deriving DecidableEq, Repr

namespace RequestCancellationRegistry

/-- The table of a kind with its order. -/
def recordsOf (registry : RequestCancellationRegistry) :
    RecordKind → Table LsRequestId Nat × List (LsRequestId × Nat)
  | .pendingCancel => (registry.pendingCancelRequests, registry.pendingCancelOrder)
  | .seenRequest => (registry.seenRequestIds, registry.seenRequestOrder)

/-- `recordPendingCancel` or `recordSeenRequest`. -/
def record (registry : RequestCancellationRegistry) (id : LsRequestId) (sequence limit : Nat) :
    RecordKind → RequestCancellationRegistry
  | .pendingCancel => registry.recordPendingCancel id sequence limit
  | .seenRequest => registry.recordSeenRequest id sequence limit

/-- The erasure of an id from one of the tables. -/
def eraseRecord (registry : RequestCancellationRegistry) (id : LsRequestId) : RecordKind → RequestCancellationRegistry
  | .pendingCancel => { registry with pendingCancelRequests := registry.pendingCancelRequests.erase id }
  | .seenRequest => { registry with seenRequestIds := registry.seenRequestIds.erase id }

variable (registry : RequestCancellationRegistry) (id : LsRequestId) (sequence limit : Nat)

theorem recordsOf_record_self (kind : RecordKind) :
    (registry.record id sequence limit kind).recordsOf kind =
      let inserted := (registry.recordsOf kind).1.insert id sequence
      let appended := (registry.recordsOf kind).2 ++ [(id, sequence)]
      if limit = 0 then (inserted, appended) else prune limit inserted appended := by
  cases kind with
  | pendingCancel =>
      rw [record, recordPendingCancel, prunePendingCancels]
      split_ifs <;> rfl
  | seenRequest =>
      rw [record, recordSeenRequest, pruneSeenRequests]
      split_ifs <;> rfl

theorem recordsOf_record_of_ne {kind kind' : RecordKind} (h : kind' ≠ kind) :
    (registry.record id sequence limit kind).recordsOf kind' = registry.recordsOf kind' := by
  cases kind with
  | pendingCancel =>
      obtain rfl : kind' = .seenRequest := by
        cases kind' with
        | pendingCancel => exact absurd rfl h
        | seenRequest => rfl
      rw [record, recordPendingCancel, prunePendingCancels]
      split_ifs <;> rfl
  | seenRequest =>
      obtain rfl : kind' = .pendingCancel := by
        cases kind' with
        | pendingCancel => rfl
        | seenRequest => exact absurd rfl h
      rw [record, recordSeenRequest, pruneSeenRequests]
      split_ifs <;> rfl

theorem recordsOf_eraseRecord (kind kind' : RecordKind) :
    (registry.eraseRecord id kind).recordsOf kind' =
      if kind' = kind then ((registry.recordsOf kind).1.erase id, (registry.recordsOf kind).2)
      else registry.recordsOf kind' := by
  cases kind <;> cases kind' <;> rfl

end RequestCancellationRegistry

/-- What happens to the records, one critical section after the other. -/
inductive RecordAction
  | record (kind : RecordKind) (id : LsRequestId) (sequence : Nat)
  | erase (kind : RecordKind) (id : LsRequestId)
  deriving DecidableEq, Repr

/-- The limit of a kind. -/
def RemoteEndPointLimits.recordsOf (limits : RemoteEndPointLimits) : RecordKind → Nat
  | .pendingCancel => limits.maxPendingCancelRequests
  | .seenRequest => limits.maxSeenRequestIds

/-- The registry with the log of all that was recorded, which has the newest record first. -/
structure RecordState where
  registry : RequestCancellationRegistry := {}
  log : RecordKind → List (LsRequestId × Nat) := fun _ => []

namespace RecordState

def apply (limits : RemoteEndPointLimits) (s : RecordState) : RecordAction → RecordState
  | .record kind id sequence =>
      ⟨s.registry.record id sequence (limits.recordsOf kind) kind,
        Function.update s.log kind ((id, sequence) :: s.log kind)⟩
  | .erase kind id => ⟨s.registry.eraseRecord id kind, s.log⟩

def system (limits : RemoteEndPointLimits) : Transition.System RecordState RecordAction where
  init s := s = {}
  step a s := some (s.apply limits a)

/-- The sequence number is none of those with which ids of this kind were recorded. -/
def FreshSequence : RecordAction → RecordState → Prop
  | .record kind _ sequence, s => sequence ∉ (s.log kind).map Prod.snd
  | .erase _ _, _ => True

instance (a : RecordAction) (s : RecordState) : Decidable (FreshSequence a s) :=
  match a with
  | .record _ _ _ => inferInstanceAs (Decidable (_ ∉ _))
  | .erase _ _ => inferInstanceAs (Decidable True)

/-- The records of every kind agree with what was recorded. -/
def AllRecent (s : RecordState) : Prop :=
  ∀ kind, Recent (s.log kind) (s.registry.recordsOf kind).1 (s.registry.recordsOf kind).2

variable {limits : RemoteEndPointLimits} {s : RecordState}

theorem AllRecent.apply (h : AllRecent s) {a : RecordAction} (hfresh : FreshSequence a s) :
    AllRecent (s.apply limits a) := by
  intro kind'
  cases a with
  | record kind id sequence =>
      by_cases hkind : kind' = kind
      · have hrecorded := (h kind).record hfresh id
        rw [hkind]
        dsimp only [RecordState.apply]
        rw [Function.update_self, RequestCancellationRegistry.recordsOf_record_self]
        dsimp only
        split_ifs
        · exact hrecorded
        · exact hrecorded.prune _
      · dsimp only [RecordState.apply]
        rw [Function.update_of_ne hkind, RequestCancellationRegistry.recordsOf_record_of_ne _ _ _ _ hkind]
        exact h kind'
  | erase kind id =>
      dsimp only [RecordState.apply]
      rw [RequestCancellationRegistry.recordsOf_eraseRecord]
      split_ifs with hkind
      · rw [hkind]
        exact (h kind).erase id
      · exact h kind'

theorem allRecent_of_reachable (hs : (system limits).ReachableIf FreshSequence s) : AllRecent s := by
  refine hs.invariant AllRecent ?_ ?_
  · rintro s rfl kind
    cases kind with
    | pendingCancel => exact Recent.empty
    | seenRequest => exact Recent.empty
  · intro a s s' h hfresh hstep
    obtain rfl := Option.some.inj hstep
    exact h.apply hfresh

/-- **The pruning keeps the most recent ids** in every run in which the sequence numbers of a kind are pairwise
different: every entry has its record, and a call of `recordPendingCancel` or `recordSeenRequest` with a limit keeps the
id it records, leaves no more ids than the limit, and forgets only ids that were recorded less recently than all that
stay. -/
theorem record_keeps_recent (hs : (system limits).ReachableIf FreshSequence s) (kind : RecordKind) :
    (∀ id sequence, (s.registry.recordsOf kind).1.lookup id = some sequence →
        (id, sequence) ∈ (s.registry.recordsOf kind).2) ∧
      (0 < limits.recordsOf kind → ∀ id sequence, FreshSequence (.record kind id sequence) s →
        let s' := s.apply limits (.record kind id sequence)
        id ∈ (s'.registry.recordsOf kind).1 ∧ (s'.registry.recordsOf kind).1.size ≤ limits.recordsOf kind ∧
          ∀ evicted ∈ (s.registry.recordsOf kind).1, evicted ∉ (s'.registry.recordsOf kind).1 →
            ∀ remaining ∈ (s'.registry.recordsOf kind).1,
              ((s'.log kind).map Prod.fst).idxOf remaining < ((s'.log kind).map Prod.fst).idxOf evicted) := by
  have hrecent := allRecent_of_reachable hs kind
  refine ⟨hrecent.tracked, fun hlimit id sequence hfresh => ?_⟩
  have hrecorded := hrecent.record hfresh id
  have hlive := hrecent.live_record hfresh id
  dsimp only [RecordState.apply]
  rw [Function.update_self, RequestCancellationRegistry.recordsOf_record_self]
  dsimp only
  rw [if_neg (Nat.pos_iff_ne_zero.mp hlimit)]
  refine ⟨hrecorded.mem_prune hlimit hlive, (hrecorded.tracked.prune _).2,
    fun evicted hevicted hforgotten remaining hremaining => ?_⟩
  refine hrecorded.prune_evicts _ ?_ hforgotten hremaining
  rw [AList.mem_insert]
  exact .inr hevicted

/-- An id that was recorded again outlasts one that was recorded after its first record. -/
theorem record_keeps_recent_again :
    let limits : RemoteEndPointLimits := { maxPendingCancelRequests := 2 }
    let s : RecordState := [RecordAction.record .pendingCancel (.kInt 0) 1, .record .pendingCancel (.kInt 1) 2,
      .record .pendingCancel (.kInt 0) 3].foldl (apply limits) {}
    let s' := s.apply limits (.record .pendingCancel (.kInt 2) 4)
    (.kInt 1) ∉ s'.registry.pendingCancelRequests ∧
      ((s'.log .pendingCancel).map Prod.fst).idxOf (.kInt 0) < ((s'.log .pendingCancel).map Prod.fst).idxOf (.kInt 1) :=
  ⟨by decide, ((record_keeps_recent (Transition.System.reachableIf_of_runIf
    [RecordAction.record .pendingCancel (.kInt 0) 1, .record .pendingCancel (.kInt 1) 2,
      .record .pendingCancel (.kInt 0) 3] (.init rfl) rfl) .pendingCancel).2 (by decide) (.kInt 2) 4 (by decide)).2.2
    (.kInt 1) (by decide) (by decide) (.kInt 0) (by decide)⟩

end RecordState

end LspCpp

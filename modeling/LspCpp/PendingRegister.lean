import LspCpp.PendingTable

/-! What a registration does to the requests that are pending already. The ids that a caller chooses and those that
are drawn from `m_id` are keys of one table, and only an id of the caller is looked up first. -/

namespace LspCpp

namespace PendingTable

/-- All entries of `t` are in `t'`, which has exactly one key more. -/
def AddsOneKey (t t' : PendingTable) : Prop :=
  (∀ id o, t.getRequestInfo id = some o → t'.getRequestInfo id = some o) ∧
    ∃ id, id ∉ t.clientRequestFutures ∧
      ∀ id', id' ∈ t'.clientRequestFutures ↔ id' = id ∨ id' ∈ t.clientRequestFutures

/-- A registration that evicts nothing: it is refused, and then the table is as before, or it adds one key. -/
def NeverEvicts (t : PendingTable) (limits : RemoteEndPointLimits) (id : LsRequestId) (pending : Nat) : Prop :=
  ∀ t' id', t.pendingRequest limits id pending = some (t', id') → t.AddsOneKey t'

/-- `pendingRequest` refuses every request. -/
def Full (t : PendingTable) (limits : RemoteEndPointLimits) : Prop :=
  limits.maxPendingOutgoingRequests ≠ 0 ∧ limits.maxPendingOutgoingRequests ≤ t.clientRequestFutures.size

theorem addsOneKey_insert {t t' : PendingTable} {id : LsRequestId} {pending : Nat}
    (hid : id ∉ t.clientRequestFutures)
    (ht' : t'.clientRequestFutures = t.clientRequestFutures.insert id pending) : t.AddsOneKey t' := by
  refine ⟨fun id' o hid' => ?_, id, hid, fun id' => ?_⟩
  · have hne : id' ≠ id := by
      rintro rfl
      exact hid (Table.mem_of_lookup hid')
    rw [getRequestInfo, ht', Table.lookup_insert_ite, if_neg hne]
    exact hid'
  · rw [ht']
    exact AList.mem_insert _

/-- An entry under the key that is written loses its place: no key is new. -/
theorem not_addsOneKey_insert {t t' : PendingTable} {id : LsRequestId} {pending : Nat}
    (hid : id ∈ t.clientRequestFutures)
    (ht' : t'.clientRequestFutures = t.clientRequestFutures.insert id pending) : ¬t.AddsOneKey t' := by
  rintro ⟨_, added, hadded, hkeys⟩
  have hmem : added ∈ t'.clientRequestFutures := (hkeys added).mpr (.inl rfl)
  rw [ht'] at hmem
  rcases (AList.mem_insert _).mp hmem with rfl | hmem
  · exact hadded hid
  · exact hadded hmem

/-- **Registering never evicts** exactly when the id is not drawn onto a pending one: the caller chose the id, the
table is full, or the value of `m_id` is not a key. -/
theorem neverEvicts_iff (t : PendingTable) (limits : RemoteEndPointLimits) (id : LsRequestId) (pending : Nat) :
    t.NeverEvicts limits id pending ↔
      id.hasValue = true ∨ t.Full limits ∨ .kInt t.mId ∉ t.clientRequestFutures := by
  unfold NeverEvicts Full
  by_cases hfull : limits.maxPendingOutgoingRequests ≠ 0 ∧
      limits.maxPendingOutgoingRequests ≤ t.clientRequestFutures.size
  · have hnone : t.pendingRequest limits id pending = none := by rw [pendingRequest, if_pos hfull]
    simp [hnone, hfull]
  by_cases hvalue : id.hasValue = true
  · refine iff_of_true (fun t' id' h => ?_) (.inl hvalue)
    rw [pendingRequest, if_neg hfull, if_pos hvalue] at h
    split_ifs at h with hmem
    obtain ⟨rfl, rfl⟩ := Prod.mk.inj (Option.some.inj h)
    exact addsOneKey_insert hmem rfl
  · have hdrawn : t.pendingRequest limits id pending =
        some (⟨t.clientRequestFutures.insert (.kInt t.mId) pending, incrementInt t.mId⟩, .kInt t.mId) := by
      rw [pendingRequest, if_neg hfull, if_neg hvalue]
    rw [hdrawn]
    constructor
    · intro h
      refine .inr (.inr fun hmem => ?_)
      exact not_addsOneKey_insert hmem rfl (h _ _ rfl)
    · rintro (hset | hset | hmem)
      · exact absurd hset hvalue
      · exact absurd hset hfull
      · intro t' id' h
        obtain ⟨rfl, rfl⟩ := Prod.mk.inj (Option.some.inj h)
        exact addsOneKey_insert hmem rfl

end PendingTable

namespace PendingState

/-- A caller sends a request under the id 0, which is also the first that the endpoint draws. -/
def chosenIdRun : List PendingAction := [.sendBegin (.kInt 0) false, .sendRegister, .sendReturn]

/-- The next request without an id takes the place of the first one. -/
theorem chosenIdRun_evicts :
    ∃ s, pendingSystem.run chosenIdRun {} = some s ∧ pendingSystem.Reachable s ∧
      s.table.getRequestInfo (.kInt 0) = some 0 ∧
      (∃ t', s.table.pendingRequest s.limits .kNone 1 = some (t', .kInt 0) ∧
        t'.getRequestInfo (.kInt 0) = some 1) ∧
      ¬s.table.NeverEvicts s.limits .kNone 1 := by
  refine ⟨_, rfl, Transition.System.reachable_of_run chosenIdRun (.init ⟨{}, rfl⟩) rfl, rfl, ⟨_, rfl, rfl⟩, ?_⟩
  intro h
  have hkept := (h _ _ rfl).1 (.kInt 0) 0 rfl
  exact absurd hkept (by decide)

end PendingState

end LspCpp

import LspCpp.EndpointMessage
import LspCpp.LibTable
import LspCpp.LibTransition

/-! The reorder buffer. Messages are parsed on several threads and routed in the order in which they were
read: `submitParsedMessage` routes a message and the run of buffered successors that it completes, or
buffers it. Sequence numbers are natural numbers: a session that reads 2^64 messages is out of scope. -/

namespace LspCpp

structure SequencedParsedMessage where
  sequence : Nat
  parsed : ParsedMessage
  deriving DecidableEq, Repr

/-- `reorder_buffer` and `next_route_sequence`. -/
structure Reorder where
  reorderBuffer : Table Nat ParsedMessage := ∅
  nextRouteSequence : Nat := 0

/-- How the critical section of `submitParsedMessage` ends. -/
inductive Submitted where
  | overloaded (message : String)
  | ready (items : List SequencedParsedMessage)
  deriving DecidableEq, Repr

namespace Reorder

/-- `resetMessageRouting`. -/
def resetMessageRouting (_ : Reorder) (nextMessageSequence : Nat) : Reorder := ⟨∅, nextMessageSequence⟩

/-- `clearMessageRouting`. -/
def clearMessageRouting (r : Reorder) : Reorder := { r with reorderBuffer := ∅ }

/-- The loop of `submitParsedMessage` that takes the next message out of the buffer while it is there. -/
def drain : Nat → Reorder → Reorder × List SequencedParsedMessage
  | 0, r => (r, [])
  | fuel + 1, r =>
      match r.reorderBuffer.lookup r.nextRouteSequence with
      | none => (r, [])
      | some parsed =>
          let rest := drain fuel
            ⟨r.reorderBuffer.erase r.nextRouteSequence, r.nextRouteSequence + 1⟩
          (rest.1, ⟨r.nextRouteSequence, parsed⟩ :: rest.2)

/-- The buffer is at its limit. -/
def full (r : Reorder) (limits : RemoteEndPointLimits) : Bool :=
  limits.maxReorderBufferSize ≠ 0 && limits.maxReorderBufferSize ≤ r.reorderBuffer.size

/-- The critical section of `submitParsedMessage` after its check of `quit`. The loop ends before it has
gone once more round than the buffer has entries. -/
def submitParsedMessage (r : Reorder) (limits : RemoteEndPointLimits) (sequence : Nat)
    (parsed : ParsedMessage) (bypassReorderLimit : Bool) : Reorder × Submitted :=
  if sequence = r.nextRouteSequence then
    let drained := drain r.reorderBuffer.size { r with nextRouteSequence := r.nextRouteSequence + 1 }
    (drained.1, .ready (⟨sequence, parsed⟩ :: drained.2))
  else if !bypassReorderLimit && r.full limits && limits.overloadPolicy ≠ .dropNewest then
    (r, .overloaded ("reorder buffer size would exceed configured maximum " ++
      toString limits.maxReorderBufferSize ++ "."))
  else
    let kept := if !bypassReorderLimit && r.full limits then {} else parsed
    let buffered := { r with reorderBuffer := Table.emplace r.reorderBuffer sequence kept }
    let drained := drain buffered.reorderBuffer.size buffered
    (drained.1, .ready drained.2)

/-- The loop takes a run of consecutive messages out of the buffer, from the next one on, and ends at the
first that is not there. -/
structure Drained (r r' : Reorder) (items : List SequencedParsedMessage) : Prop where
  sequences : items.map SequencedParsedMessage.sequence = List.range' r.nextRouteSequence items.length
  next : r'.nextRouteSequence = r.nextRouteSequence + items.length
  taken : ∀ k, r.nextRouteSequence ≤ k → k < r'.nextRouteSequence → k ∈ r.reorderBuffer
  kept : ∀ k, r'.reorderBuffer.lookup k =
    if r.nextRouteSequence ≤ k ∧ k < r'.nextRouteSequence then none else r.reorderBuffer.lookup k
  ended : r'.nextRouteSequence ∉ r'.reorderBuffer

theorem drain_drained (fuel : Nat) (r : Reorder) (hfuel : r.reorderBuffer.size ≤ fuel) :
    Drained r (drain fuel r).1 (drain fuel r).2 := by
  induction fuel generalizing r with
  | zero =>
      refine ⟨rfl, rfl, fun k h h' => absurd h' (Nat.not_lt.mpr h), fun k => ?_, ?_⟩
      · rw [if_neg (by rintro ⟨h, h'⟩; exact absurd h' (Nat.not_lt.mpr h))]
        rfl
      · exact Table.not_mem_of_size_eq_zero (Nat.le_zero.mp hfuel) _
  | succ fuel ih =>
      cases hnext : r.reorderBuffer.lookup r.nextRouteSequence with
      | none =>
          have heq : drain (fuel + 1) r = (r, []) := by rw [drain, hnext]
          rw [heq]
          refine ⟨rfl, rfl, fun k h h' => absurd h' (Nat.not_lt.mpr h), fun k => ?_, ?_⟩
          · rw [if_neg (by rintro ⟨h, h'⟩; exact absurd h' (Nat.not_lt.mpr h))]
          · exact AList.lookup_eq_none.mp hnext
      | some parsed =>
          have hmem := Table.mem_of_lookup hnext
          have hsize := Table.size_erase hmem
          obtain ⟨hsequences, hnext', htaken, hkept, hended⟩ :=
            ih ⟨r.reorderBuffer.erase r.nextRouteSequence, r.nextRouteSequence + 1⟩ (by dsimp only; omega)
          have heq : drain (fuel + 1) r =
              ((drain fuel ⟨r.reorderBuffer.erase r.nextRouteSequence, r.nextRouteSequence + 1⟩).1,
                ⟨r.nextRouteSequence, parsed⟩ ::
                  (drain fuel ⟨r.reorderBuffer.erase r.nextRouteSequence, r.nextRouteSequence + 1⟩).2) := by
            rw [drain, hnext]
          rw [heq]
          dsimp only at hsequences hnext' htaken hkept hended ⊢
          refine ⟨?_, ?_, fun k hle hlt => ?_, fun k => ?_, hended⟩
          · rw [List.map_cons, List.length_cons, List.range'_succ, hsequences]
          · rw [hnext', List.length_cons]
            omega
          · by_cases hk : k = r.nextRouteSequence
            · exact hk ▸ hmem
            · exact AList.mem_erase.mp (htaken k (by omega) hlt) |>.2
          · rw [hkept, Table.lookup_erase_ite]
            split_ifs <;> first | rfl | omega

/-- A call that is not refused routes a run of consecutive messages from the next one on, the submitted one
or buffered ones; it keeps the others and ends at the first message that is not there. -/
structure Routes (r r' : Reorder) (sequence : Nat) (items : List SequencedParsedMessage) : Prop where
  sequences : items.map SequencedParsedMessage.sequence = List.range' r.nextRouteSequence items.length
  next : r'.nextRouteSequence = r.nextRouteSequence + items.length
  taken : ∀ k, r.nextRouteSequence ≤ k → k < r'.nextRouteSequence → k = sequence ∨ k ∈ r.reorderBuffer
  kept : ∀ k, k ∈ r'.reorderBuffer ↔
    (k = sequence ∨ k ∈ r.reorderBuffer) ∧ ¬(r.nextRouteSequence ≤ k ∧ k < r'.nextRouteSequence)
  ended : r'.nextRouteSequence ∉ r'.reorderBuffer

theorem mem_reorderBuffer_iff {r : Reorder} {k : Nat} :
    k ∈ r.reorderBuffer ↔ r.reorderBuffer.lookup k ≠ none := by
  rw [← AList.lookup_isSome, Option.isSome_iff_ne_none]

/-- The submitted message is the next one. -/
theorem routes_next {r : Reorder} (hkeys : ∀ k ∈ r.reorderBuffer, r.nextRouteSequence < k)
    (parsed : ParsedMessage) {drained : Reorder × List SequencedParsedMessage}
    (hdrained : drain r.reorderBuffer.size { r with nextRouteSequence := r.nextRouteSequence + 1 } = drained) :
    Routes r drained.1 r.nextRouteSequence (⟨r.nextRouteSequence, parsed⟩ :: drained.2) := by
  obtain ⟨hsequences, hnext, htaken, hkept, hended⟩ :=
    drain_drained _ { r with nextRouteSequence := r.nextRouteSequence + 1 } (Nat.le_refl _)
  dsimp only at hsequences hnext htaken hkept hended
  rw [hdrained] at hsequences hnext htaken hkept hended
  refine ⟨?_, ?_, fun k hle hlt => ?_, fun k => ?_, hended⟩
  · rw [List.map_cons, List.length_cons, List.range'_succ, hsequences]
  · rw [hnext, List.length_cons]
    omega
  · by_cases hk : k = r.nextRouteSequence
    · exact .inl hk
    · exact .inr (htaken k (by omega) hlt)
  · rw [mem_reorderBuffer_iff, hkept]
    split_ifs with htook
    · exact iff_of_false (fun h => h rfl) fun h => h.2 ⟨by omega, htook.2⟩
    · rw [← mem_reorderBuffer_iff]
      refine ⟨fun hk => ⟨.inr hk, fun hin => ?_⟩, fun ⟨hk, hout⟩ => ?_⟩
      · have := hkeys k hk
        omega
      · rcases hk with rfl | hk
        · omega
        · exact hk

/-- The submitted message, or what is kept of it, is buffered. -/
theorem routes_buffered {r : Reorder} {sequence : Nat} (hnew : sequence ∉ r.reorderBuffer)
    (stored : ParsedMessage) {buffered : Reorder}
    (hbuffered : buffered = { r with reorderBuffer := Table.emplace r.reorderBuffer sequence stored }) :
    Routes r (drain buffered.reorderBuffer.size buffered).1 sequence
      (drain buffered.reorderBuffer.size buffered).2 := by
  obtain ⟨hsequences, hnext, htaken, hkept, hended⟩ := drain_drained _ buffered (Nat.le_refl _)
  have hsame : buffered.nextRouteSequence = r.nextRouteSequence := by rw [hbuffered]
  have hmem : ∀ k, k ∈ buffered.reorderBuffer ↔ k = sequence ∨ k ∈ r.reorderBuffer := by
    intro k
    rw [hbuffered, ← AList.lookup_isSome, Table.lookup_emplace hnew, ← AList.lookup_isSome]
    split_ifs with hk <;> simp [hk]
  rw [hsame] at hsequences hnext htaken hkept
  refine ⟨hsequences, hnext, fun k hle hlt => (hmem k).mp (htaken k hle hlt), fun k => ?_, hended⟩
  rw [mem_reorderBuffer_iff, hkept]
  split_ifs with htook
  · exact iff_of_false (fun h => h rfl) fun h => h.2 htook
  · rw [← mem_reorderBuffer_iff, hmem]
    exact ⟨fun hk => ⟨hk, htook⟩, fun hk => hk.1⟩

/-- A call that is not refused empties the buffer as far as it goes, behind the submitted message or together with what
is kept of it. -/
theorem submitParsedMessage_drained {r r' : Reorder} {limits : RemoteEndPointLimits} {sequence : Nat}
    {parsed : ParsedMessage} {bypass : Bool} {items : List SequencedParsedMessage}
    (h : r.submitParsedMessage limits sequence parsed bypass = (r', .ready items)) :
    (sequence = r.nextRouteSequence ∧ ∃ rest, items = ⟨sequence, parsed⟩ :: rest ∧
        drain r.reorderBuffer.size { r with nextRouteSequence := r.nextRouteSequence + 1 } = (r', rest)) ∨
      ∃ stored, drain (Table.emplace r.reorderBuffer sequence stored).size
        { r with reorderBuffer := Table.emplace r.reorderBuffer sequence stored } = (r', items) := by
  rw [submitParsedMessage] at h
  by_cases hseq : sequence = r.nextRouteSequence
  · rw [if_pos hseq] at h
    cases h
    exact .inl ⟨hseq, _, rfl, rfl⟩
  · rw [if_neg hseq] at h
    by_cases hrefused : (!bypass && r.full limits && limits.overloadPolicy ≠ .dropNewest) = true
    · rw [if_pos hrefused] at h
      cases h
    · rw [if_neg hrefused] at h
      cases h
      exact .inr ⟨_, rfl⟩

theorem submitParsedMessage_routes {r r' : Reorder} {limits : RemoteEndPointLimits} {sequence : Nat}
    {parsed : ParsedMessage} {bypass : Bool} {items : List SequencedParsedMessage}
    (hkeys : ∀ k ∈ r.reorderBuffer, r.nextRouteSequence < k) (hnew : sequence ∉ r.reorderBuffer)
    (h : r.submitParsedMessage limits sequence parsed bypass = (r', .ready items)) :
    Routes r r' sequence items := by
  rcases submitParsedMessage_drained h with ⟨rfl, rest, rfl, hdrain⟩ | ⟨stored, hdrain⟩
  · exact routes_next hkeys parsed hdrain
  · have hroutes := routes_buffered hnew stored rfl
    rwa [hdrain] at hroutes

/-- What a call that is not refused does in any state, also where messages of an earlier session are left in the
buffer. -/
structure Advances (r r' : Reorder) (sequence : Nat) (items : List SequencedParsedMessage) : Prop where
  sequences : items.map SequencedParsedMessage.sequence = List.range' r.nextRouteSequence items.length
  next : r'.nextRouteSequence = r.nextRouteSequence + items.length
  taken : ∀ k, r.nextRouteSequence ≤ k → k < r'.nextRouteSequence → k = sequence ∨ k ∈ r.reorderBuffer
  kept : ∀ k ∈ r'.reorderBuffer, k = sequence ∨ k ∈ r.reorderBuffer

theorem Drained.mem_of_mem {r r' : Reorder} {items : List SequencedParsedMessage} (h : Drained r r' items) {k : Nat}
    (hk : k ∈ r'.reorderBuffer) : k ∈ r.reorderBuffer := by
  rw [mem_reorderBuffer_iff, h.kept] at hk
  split_ifs at hk
  · exact absurd rfl hk
  · exact mem_reorderBuffer_iff.mpr hk

theorem submitParsedMessage_advances {r r' : Reorder} {limits : RemoteEndPointLimits} {sequence : Nat}
    {parsed : ParsedMessage} {bypass : Bool} {items : List SequencedParsedMessage}
    (h : r.submitParsedMessage limits sequence parsed bypass = (r', .ready items)) :
    Advances r r' sequence items := by
  rcases submitParsedMessage_drained h with ⟨rfl, rest, rfl, hdrain⟩ | ⟨stored, hdrain⟩
  · have hdrained := drain_drained _ { r with nextRouteSequence := r.nextRouteSequence + 1 } (Nat.le_refl _)
    rw [hdrain] at hdrained
    refine ⟨?_, ?_, fun k hle hlt => ?_, fun k hk => .inr (hdrained.mem_of_mem hk)⟩
    · rw [List.map_cons, List.length_cons, List.range'_succ, hdrained.sequences]
    · rw [hdrained.next, List.length_cons]
      dsimp only
      omega
    · by_cases hk : k = r.nextRouteSequence
      · exact .inl hk
      · exact .inr (hdrained.taken k (by dsimp only; omega) hlt)
  · have hdrained := drain_drained _
      { r with reorderBuffer := Table.emplace r.reorderBuffer sequence stored } (Nat.le_refl _)
    rw [hdrain] at hdrained
    exact ⟨hdrained.sequences, hdrained.next, fun k hle hlt => Table.mem_emplace.mp (hdrained.taken k hle hlt),
      fun k hk => Table.mem_emplace.mp (hdrained.mem_of_mem hk)⟩

theorem lookup_of_mem_drain (fuel : Nat) (r : Reorder) {item : SequencedParsedMessage}
    (hitem : item ∈ (drain fuel r).2) : r.reorderBuffer.lookup item.sequence = some item.parsed := by
  induction fuel generalizing r with
  | zero => cases hitem
  | succ fuel ih =>
      rw [drain] at hitem
      split at hitem
      · cases hitem
      · rename_i parsed hnext
        rcases List.mem_cons.mp hitem with rfl | hitem
        · exact hnext
        · have hrest := ih _ hitem
          rw [Table.lookup_erase_ite] at hrest
          split_ifs at hrest
          exact hrest

theorem Drained.lookup_of_lookup {r r' : Reorder} {items : List SequencedParsedMessage} (h : Drained r r' items)
    {k : Nat} {parsed : ParsedMessage} (hk : r'.reorderBuffer.lookup k = some parsed) :
    r.reorderBuffer.lookup k = some parsed := by
  rw [h.kept] at hk
  split_ifs at hk
  exact hk

/-- What a call that does not drop its message makes ready or keeps is the submitted message or was buffered. -/
theorem submitParsedMessage_sources_of_kept {r r' : Reorder} {limits : RemoteEndPointLimits} {sequence : Nat}
    {parsed : ParsedMessage} {bypass : Bool} {items : List SequencedParsedMessage}
    (hkept : limits.overloadPolicy = .dropNewest → (!bypass && r.full limits) = false)
    (h : r.submitParsedMessage limits sequence parsed bypass = (r', .ready items)) :
    (∀ item ∈ items, item = ⟨sequence, parsed⟩ ∨ r.reorderBuffer.lookup item.sequence = some item.parsed) ∧
      ∀ k kept, r'.reorderBuffer.lookup k = some kept →
        k = sequence ∧ kept = parsed ∨ r.reorderBuffer.lookup k = some kept := by
  rw [submitParsedMessage] at h
  by_cases hseq : sequence = r.nextRouteSequence
  · rw [if_pos hseq] at h
    cases h
    have hdrained := drain_drained _ { r with nextRouteSequence := r.nextRouteSequence + 1 } (Nat.le_refl _)
    refine ⟨fun item hitem => ?_, fun k kept hk => .inr (hdrained.lookup_of_lookup hk)⟩
    rcases List.mem_cons.mp hitem with hitem | hitem
    · exact .inl hitem
    · exact .inr (lookup_of_mem_drain _ { r with nextRouteSequence := r.nextRouteSequence + 1 } hitem)
  · rw [if_neg hseq] at h
    split_ifs at h with hover hfull
    · cases h
    · have hdrops : limits.overloadPolicy = .dropNewest := by
        by_contra hne
        exact hover (by rw [hfull, Bool.true_and, decide_eq_true hne])
      rw [hkept hdrops] at hfull
      cases hfull
    · cases h
      have hdrained := drain_drained _ { r with reorderBuffer := Table.emplace r.reorderBuffer sequence parsed }
        (Nat.le_refl _)
      refine ⟨fun item hitem => ?_, fun k kept hk => ?_⟩
      · rcases Table.lookup_emplace_eq_some (lookup_of_mem_drain _ _ hitem) with ⟨hsequence, hparsed⟩ | hold
        · exact .inl (by rw [← hsequence, ← hparsed])
        · exact .inr hold
      · exact Table.lookup_emplace_eq_some (hdrained.lookup_of_lookup hk)

end Reorder

end LspCpp

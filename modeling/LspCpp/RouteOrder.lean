import LspCpp.RouteReorder
import Mathlib.Data.List.Range

/-! Routing in wire order. The reader hands out the sequence numbers; the parse tasks, and the reader itself
where the parse queue is full, submit them in any order; whoever holds the dispatch lock routes what its call
has made ready. A session ends for this system when `quit` is set. -/

namespace LspCpp

/-- `ready` is what the holder of the dispatch lock has still to route; `start` is the counter at the reset of
the routing, `submitted` and `routed` record the calls of `submitParsedMessage` and `routeParsedIncoming`. -/
structure RouteState where
  limits : RemoteEndPointLimits := {}
  start : Nat := 0
  nextMessageSequence : Nat := 0
  reorder : Reorder := {}
  inFlight : List Nat := []
  ready : Option (List SequencedParsedMessage) := none
  quit : Bool := false
  submitted : List Nat := []
  routed : List SequencedParsedMessage := []

inductive RouteAction where
  | read
  | submit (sequence : Nat) (parsed : ParsedMessage) (bypassReorderLimit : Bool)
  | route
  | release
  | stop
  deriving DecidableEq, Repr

namespace RouteState

/-- A call of `submitParsedMessage` up to the first message that it routes. -/
def submit (s : RouteState) (sequence : Nat) (parsed : ParsedMessage) (bypass : Bool) : RouteState :=
  match s.reorder.submitParsedMessage s.limits sequence parsed bypass with
  | (_, .overloaded _) => { s with inFlight := s.inFlight.erase sequence, quit := true }
  | (reorder, .ready items) =>
      { s with
        reorder := reorder
        inFlight := s.inFlight.erase sequence
        ready := some items
        submitted := sequence :: s.submitted }

def step : RouteAction → RouteState → Option RouteState
  | .read, s =>
      if s.quit then none
      else some { s with
        nextMessageSequence := s.nextMessageSequence + 1
        inFlight := s.nextMessageSequence :: s.inFlight }
  | .submit sequence parsed bypass, s =>
      if s.quit = false ∧ s.ready = none ∧ sequence ∈ s.inFlight then some (s.submit sequence parsed bypass)
      else none
  | .route, s =>
      match s.ready with
      | some (item :: rest) =>
          if s.quit then none else some { s with ready := some rest, routed := s.routed ++ [item] }
      | _ => none
  | .release, s => if s.quit = false ∧ s.ready = some [] then some { s with ready := none } else none
  | .stop, s => if s.quit then none else some { s with quit := true }

theorem step_read {s s' : RouteState} (h : step .read s = some s') :
    s.quit = false ∧ s' = { s with
      nextMessageSequence := s.nextMessageSequence + 1
      inFlight := s.nextMessageSequence :: s.inFlight } := by
  rw [step] at h
  split_ifs at h with hquit
  exact ⟨by simpa using hquit, (Option.some.inj h).symm⟩

theorem step_submit {sequence : Nat} {parsed : ParsedMessage} {bypass : Bool} {s s' : RouteState}
    (h : step (.submit sequence parsed bypass) s = some s') :
    s.quit = false ∧ s.ready = none ∧ sequence ∈ s.inFlight ∧
      (s' = { s with inFlight := s.inFlight.erase sequence, quit := true } ∨
        ∃ reorder items,
          s.reorder.submitParsedMessage s.limits sequence parsed bypass = (reorder, .ready items) ∧
          s' = { s with
            reorder := reorder
            inFlight := s.inFlight.erase sequence
            ready := some items
            submitted := sequence :: s.submitted }) := by
  rw [step] at h
  split_ifs at h with hok
  refine ⟨hok.1, hok.2.1, hok.2.2, ?_⟩
  obtain rfl := Option.some.inj h
  unfold submit
  split
  · exact .inl rfl
  · rename_i reorder items hsubmit
    exact .inr ⟨reorder, items, hsubmit, rfl⟩

theorem step_route {s s' : RouteState} (h : step .route s = some s') :
    ∃ item rest, s.ready = some (item :: rest) ∧ s.quit = false ∧
      s' = { s with ready := some rest, routed := s.routed ++ [item] } := by
  rw [step] at h
  split at h
  · rename_i item rest hready
    split_ifs at h with hquit
    exact ⟨item, rest, hready, by simpa using hquit, (Option.some.inj h).symm⟩
  · cases h

theorem step_release {s s' : RouteState} (h : step .release s = some s') :
    s.quit = false ∧ s.ready = some [] ∧ s' = { s with ready := none } := by
  rw [step] at h
  split_ifs at h with hok
  exact ⟨hok.1, hok.2, (Option.some.inj h).symm⟩

theorem step_stop {s s' : RouteState} (h : step .stop s = some s') :
    s.quit = false ∧ s' = { s with quit := true } := by
  rw [step] at h
  split_ifs at h with hquit
  exact ⟨by simpa using hquit, (Option.some.inj h).symm⟩

/-- Only a call of `routeParsedIncoming` is logged. -/
theorem step_routed {a : RouteAction} {s s' : RouteState} (ha : a ≠ .route) (h : step a s = some s') :
    s'.routed = s.routed := by
  cases a with
  | read => obtain ⟨_, rfl⟩ := step_read h; rfl
  | submit sequence parsed bypass => obtain ⟨_, _, _, rfl | ⟨_, _, _, rfl⟩⟩ := step_submit h <;> rfl
  | route => exact absurd rfl ha
  | release => obtain ⟨_, _, rfl⟩ := step_release h; rfl
  | stop => obtain ⟨_, rfl⟩ := step_stop h; rfl

end RouteState

/-- The states right after `resetMessageRouting` at the start of a session. -/
def routeSystem : Transition.System RouteState RouteAction where
  init s := ∃ limits start reorder,
    s = { limits := limits, start := start, nextMessageSequence := start,
          reorder := Reorder.resetMessageRouting reorder start }
  step := RouteState.step

namespace RouteState

/-! ### The order -/

/-- The messages that were routed and those that the lock holder has still to route. -/
def dispatched (s : RouteState) : List SequencedParsedMessage := s.routed ++ s.ready.getD []

/-- The buffer, the counter and what has been dispatched against the messages handed out. -/
structure Ordered (s : RouteState) : Prop where
  dispatched_eq : s.dispatched.map SequencedParsedMessage.sequence =
    List.range' s.start (s.reorder.nextRouteSequence - s.start)
  start_le : s.start ≤ s.reorder.nextRouteSequence
  read_le : s.start ≤ s.nextMessageSequence
  keys : ∀ k ∈ s.reorder.reorderBuffer, s.reorder.nextRouteSequence < k
  submitted_iff : ∀ k, k ∈ s.submitted ↔
    (s.start ≤ k ∧ k < s.reorder.nextRouteSequence) ∨ k ∈ s.reorder.reorderBuffer
  submitted_lt : ∀ k ∈ s.submitted, k < s.nextMessageSequence
  inFlight_lt : ∀ k ∈ s.inFlight, s.start ≤ k ∧ k < s.nextMessageSequence
  nodup : s.inFlight.Nodup
  fresh : ∀ k ∈ s.inFlight, k ∉ s.submitted

theorem ordered_init {s : RouteState} (h : routeSystem.init s) : Ordered s := by
  obtain ⟨limits, start, reorder, rfl⟩ := h
  refine ⟨?_, Nat.le_refl _, Nat.le_refl _, nofun, fun k => ?_, nofun, nofun, List.nodup_nil, nofun⟩
  · rw [Reorder.resetMessageRouting, Nat.sub_self]
    rfl
  · refine iff_of_false nofun ?_
    rintro (⟨hle, hlt⟩ | hmem)
    · exact absurd hlt (Nat.not_lt.mpr hle)
    · cases hmem

theorem Ordered.submit {s : RouteState} (hinv : Ordered s) {sequence : Nat} {parsed : ParsedMessage}
    {bypass : Bool} {reorder : Reorder} {items : List SequencedParsedMessage} (hready : s.ready = none)
    (hmem : sequence ∈ s.inFlight)
    (hsubmit : s.reorder.submitParsedMessage s.limits sequence parsed bypass = (reorder, .ready items)) :
    Ordered { s with
      reorder := reorder
      inFlight := s.inFlight.erase sequence
      ready := some items
      submitted := sequence :: s.submitted } := by
  have hnew : sequence ∉ s.reorder.reorderBuffer := fun h =>
    hinv.fresh sequence hmem ((hinv.submitted_iff sequence).mpr (.inr h))
  have hge : s.reorder.nextRouteSequence ≤ sequence := by
    by_contra hlt
    exact hinv.fresh sequence hmem
      ((hinv.submitted_iff sequence).mpr (.inl ⟨(hinv.inFlight_lt sequence hmem).1, by omega⟩))
  obtain ⟨hsequences, hnext, htaken, hkept, hended⟩ :=
    Reorder.submitParsedMessage_routes hinv.keys hnew hsubmit
  have hle := hinv.start_le
  refine ⟨?_, ?_, hinv.read_le, fun k hk => ?_, fun k => ?_, fun k hk => ?_, fun k hk => ?_, hinv.nodup.erase _,
    fun k hk => ?_⟩
  · have hold := hinv.dispatched_eq
    rw [dispatched, hready, Option.getD_none, List.append_nil] at hold
    rw [dispatched, Option.getD_some, List.map_append, hold, hsequences]
    have hstart : s.reorder.nextRouteSequence =
        s.start + 1 * (s.reorder.nextRouteSequence - s.start) := by omega
    nth_rewrite 2 [hstart]
    rw [List.range'_append, hnext]
    congr 1
    dsimp only
    omega
  · dsimp only
    omega
  · obtain ⟨hk', hout⟩ := (hkept k).mp hk
    have hne : k ≠ reorder.nextRouteSequence := fun heq => hended (heq ▸ hk)
    have hge' : s.reorder.nextRouteSequence ≤ k := by
      rcases hk' with rfl | hk'
      · exact hge
      · exact Nat.le_of_lt (hinv.keys k hk')
    dsimp only
    omega
  · rw [List.mem_cons, hinv.submitted_iff, hkept]
    dsimp only
    constructor
    · rintro (rfl | ⟨h1, h2⟩ | hk)
      · by_cases hin : k < reorder.nextRouteSequence
        · exact .inl ⟨(hinv.inFlight_lt k hmem).1, hin⟩
        · exact .inr ⟨.inl rfl, fun h => hin h.2⟩
      · exact .inl ⟨h1, by omega⟩
      · have := hinv.keys k hk
        by_cases hin : k < reorder.nextRouteSequence
        · exact .inl ⟨by omega, hin⟩
        · exact .inr ⟨.inr hk, fun h => hin h.2⟩
    · rintro (⟨h1, h2⟩ | ⟨hk, _⟩)
      · by_cases hin : k < s.reorder.nextRouteSequence
        · exact .inr (.inl ⟨h1, hin⟩)
        · exact (htaken k (by omega) h2).imp_right .inr
      · exact hk.imp_right .inr
  · rcases List.mem_cons.mp hk with rfl | hk
    · exact (hinv.inFlight_lt k hmem).2
    · exact hinv.submitted_lt k hk
  · exact hinv.inFlight_lt k (List.mem_of_mem_erase hk)
  · rw [hinv.nodup.mem_erase_iff] at hk
    rw [List.mem_cons, not_or]
    exact ⟨hk.1, hinv.fresh k hk.2⟩

theorem Ordered.step {s s' : RouteState} {a : RouteAction} (hinv : Ordered s) (h : step a s = some s') :
    Ordered s' := by
  cases a with
  | read =>
      obtain ⟨_, rfl⟩ := step_read h
      have hfree : s.nextMessageSequence ∉ s.inFlight := fun hk =>
        Nat.lt_irrefl _ (hinv.inFlight_lt _ hk).2
      refine { hinv with
        read_le := Nat.le_succ_of_le hinv.read_le
        submitted_lt := fun k hk => ?_
        inFlight_lt := fun k hk => ?_
        nodup := List.nodup_cons.mpr ⟨hfree, hinv.nodup⟩
        fresh := fun k hk => ?_ }
      · exact Nat.lt_succ_of_lt (hinv.submitted_lt k hk)
      · rcases List.mem_cons.mp hk with rfl | hk
        · exact ⟨hinv.read_le, Nat.lt_succ_self _⟩
        · exact ⟨(hinv.inFlight_lt k hk).1, Nat.lt_succ_of_lt (hinv.inFlight_lt k hk).2⟩
      · rcases List.mem_cons.mp hk with rfl | hk
        · exact fun hsub => Nat.lt_irrefl _ (hinv.submitted_lt _ hsub)
        · exact hinv.fresh k hk
  | submit sequence parsed bypass =>
      obtain ⟨_, hready, hmem, rfl | ⟨reorder, items, hsubmit, rfl⟩⟩ := step_submit h
      · refine { hinv with
          inFlight_lt := fun k hk => ?_, nodup := hinv.nodup.erase _, fresh := fun k hk => ?_ }
        · exact hinv.inFlight_lt k (List.mem_of_mem_erase hk)
        · exact hinv.fresh k (List.mem_of_mem_erase hk)
      · exact hinv.submit hready hmem hsubmit
  | route =>
      obtain ⟨item, rest, hready, _, rfl⟩ := step_route h
      refine { hinv with dispatched_eq := Eq.trans ?_ hinv.dispatched_eq }
      rw [dispatched, dispatched, hready]
      simp
  | release =>
      obtain ⟨_, hready, rfl⟩ := step_release h
      refine { hinv with dispatched_eq := Eq.trans ?_ hinv.dispatched_eq }
      rw [dispatched, dispatched, hready]
      simp
  | stop =>
      obtain ⟨_, rfl⟩ := step_stop h
      exact { hinv with }

theorem reachable_step {s s' : RouteState} {a : RouteAction} (hs : routeSystem.Reachable s)
    (h : step a s = some s') : routeSystem.Reachable s' :=
  .step (a := a) hs trivial h

theorem reachable_ordered {s : RouteState} (hs : routeSystem.Reachable s) : Ordered s :=
  hs.invariant Ordered (fun _ => ordered_init) fun _ _ _ hinv _ h => hinv.step h

/-- What the lock holder routes next comes after everything that was routed. -/
theorem Ordered.lt_of_ready {s : RouteState} (hinv : Ordered s) {item : SequencedParsedMessage}
    {rest : List SequencedParsedMessage} (hready : s.ready = some (item :: rest)) :
    ∀ n ∈ s.routed.map SequencedParsedMessage.sequence, n < item.sequence := by
  have hsorted : (s.dispatched.map SequencedParsedMessage.sequence).Pairwise (· < ·) := by
    rw [hinv.dispatched_eq]
    exact List.pairwise_lt_range'
  rw [dispatched, hready, Option.getD_some, List.map_append, List.pairwise_append] at hsorted
  exact fun n hn => hsorted.2.2 n hn item.sequence (by simp)

/-- The calls of `routeParsedIncoming` are those of the messages from the first one on, without a gap, a
repetition or an inversion; every buffered message comes after the next one to route; and where the
submitted messages are an initial segment nothing is buffered and all of them are dispatched. -/
def WireOrdered (s : RouteState) : Prop :=
  s.routed.map SequencedParsedMessage.sequence = List.range' s.start s.routed.length ∧
    (∀ k ∈ s.reorder.reorderBuffer, s.reorder.nextRouteSequence < k) ∧
    ∀ n, (∀ k, k ∈ s.submitted ↔ s.start ≤ k ∧ k < s.start + n) →
      s.reorder.reorderBuffer = ∅ ∧ s.dispatched.length = n

/-- **Messages are routed in wire order**, whatever the order in which they are submitted. -/
theorem wireOrdered_of_reachable (s : RouteState) (hs : routeSystem.Reachable s) : WireOrdered s := by
  have hinv := reachable_ordered hs
  have hlog := hinv.dispatched_eq
  have hle := hinv.start_le
  refine ⟨?_, hinv.keys, fun n hn => ?_⟩
  · rw [dispatched, List.map_append] at hlog
    have hlen := congrArg List.length hlog
    rw [List.length_append, List.length_map, List.length_map, List.length_range'] at hlen
    have htake := congrArg (List.take s.routed.length) hlog
    rw [List.take_left' (List.length_map _), List.take_range'_of_length_ge (by omega)] at htake
    exact htake
  · have hempty : s.reorder.reorderBuffer = ∅ := by
      refine Table.eq_empty_of_forall_not_mem fun k hk => ?_
      have hlt := hinv.keys k hk
      have hbound := (hn k).mp ((hinv.submitted_iff k).mpr (.inr hk))
      rcases (hinv.submitted_iff _).mp ((hn s.reorder.nextRouteSequence).mpr ⟨hle, by omega⟩) with h | h
      · exact Nat.lt_irrefl _ h.2
      · exact Nat.lt_irrefl _ (hinv.keys _ h)
    refine ⟨hempty, ?_⟩
    have hlen := congrArg List.length hlog
    rw [List.length_map, List.length_range'] at hlen
    have hiff : ∀ k, s.start ≤ k → (k < s.reorder.nextRouteSequence ↔ k < s.start + n) := by
      intro k hk
      have hsub := hinv.submitted_iff k
      rw [hempty, hn] at hsub
      constructor
      · exact fun h => (hsub.mpr (.inl ⟨hk, h⟩)).2
      · intro h
        rcases hsub.mp ⟨hk, h⟩ with h | h
        · exact h.2
        · cases h
    have h1 := hiff (s.start + n) (by omega)
    have h2 := hiff s.reorder.nextRouteSequence hle
    omega

/-- Three messages are submitted in the order 2, 0, 1, the second one as a placeholder. -/
def reversedRun : List RouteAction :=
  [.read, .read, .read, .submit 7 { ok := true } false, .release, .submit 5 {} true, .route, .release,
    .submit 6 { ok := true } false, .route, .route]

theorem wireOrdered_of_reachable_reversedRun :
    ∃ s, routeSystem.run reversedRun
        { start := 5, nextMessageSequence := 5, reorder := Reorder.resetMessageRouting {} 5 } = some s ∧
      s.routed.map SequencedParsedMessage.sequence = [5, 6, 7] ∧ WireOrdered s :=
  ⟨_, rfl, rfl, wireOrdered_of_reachable _
    (Transition.System.reachable_of_run reversedRun (.init ⟨{}, 5, {}, rfl⟩) rfl)⟩

end RouteState

end LspCpp

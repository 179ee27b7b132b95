import LspCpp.CancelHandler

/-! Cancels against the requests they name. A client that reuses an id only after the previous request
with it has ended never has a cancel lost, and a cancel never reaches a request it was not sent for,
except one that came before any request with its id. -/

namespace LspCpp

namespace CancelState

/-- No cancel is lost and none is misdirected. -/
def CancelsMatch (s : CancelState) : Prop :=
  (∀ r q c, s.requests r = some q → (q.id, c) ∈ s.cancels → r < c →
    (∀ n, q.endedAt = some n → c < n) → q.Entered → q.cancelled = true) ∧
  ∀ r q, s.requests r = some q → q.cancelled = true →
    (∃ c, (q.id, c) ∈ s.cancels ∧ r < c) ∨
    (∃ c, (q.id, c) ∈ s.cancels ∧ c < r) ∧
      ∀ r' q', s.requests r' = some q' → r' < r → q'.id = q.id → ¬q'.Started

/-- The client sends a request with an id only when every earlier request with it has ended. -/
def ReusesEnded : CancelAction → CancelState → Prop
  | .routeRequest id, s => ∀ r < s.nextSequence, ∀ q ∈ s.requests r, q.id = id → q.Finished
  | _, _ => True

instance (a : CancelAction) (s : CancelState) : Decidable (ReusesEnded a s) :=
  match a with
  | .routeRequest id =>
      inferInstanceAs (Decidable (∀ r < s.nextSequence, ∀ q ∈ s.requests r, q.id = id → q.Finished))
  | .register _ | .retain _ | .routeCancel _ | .routeOther | .enter _ | .release _ _ | .exit _ =>
      inferInstanceAs (Decidable True)

/-- Why a request may be cancelled. -/
def Caused (s : CancelState) (r : Nat) (q : RequestRecord) : Prop :=
  (∃ c, (q.id, c) ∈ s.cancels ∧ r < c) ∨
  (∃ c, (q.id, c) ∈ s.cancels ∧ c < r) ∧
    ∀ r' q', s.requests r' = some q' → r' < r → q'.id = q.id → ¬q'.Started

/-- The tables of the registry against the cancels on the wire. -/
structure WireOrdered (s : CancelState) : Prop where
  registered : Registered s
  single : ∀ r r' q q', s.requests r = some q → s.requests r' = some q' → q.id = q'.id → r < r' →
    q.Finished
  cancelBound : ∀ id c, (id, c) ∈ s.cancels → c < s.nextSequence
  cancelSeq : ∀ id c, (id, c) ∈ s.cancels → s.requests c = none
  endedBound : ∀ r q n, s.requests r = some q → q.endedAt = some n → n ≤ s.nextSequence
  finished : ∀ r q, s.requests r = some q → q.Finished → q.endedAt ≠ none
  latest : ∀ r q, s.requests r = some q → q.Live → s.latest q.id = some r
  seen : ∀ r q, s.requests r = some q → q.Started → s.registry.seenRequestIds.lookup q.id ≠ none
  pending : ∀ id c, s.registry.pendingCancelRequests.lookup id = some c → (id, c) ∈ s.cancels
  waiting : ∀ r q c, s.requests r = some q → q.phase = .routed → (q.id, c) ∈ s.cancels → r < c →
    ∃ c', s.registry.pendingCancelRequests.lookup q.id = some c' ∧ c ≤ c'
  delivered : ∀ r q c, s.requests r = some q → (q.id, c) ∈ s.cancels → r < c → q.Started →
    (∀ n, q.endedAt = some n → c < n) → q.cancelled = true ∨ q.phase = .registered true
  caused : ∀ r q, s.requests r = some q → q.cancelled = true ∨ q.phase = .registered true →
    Caused s r q

theorem wireOrdered_init (limits : RemoteEndPointLimits) : WireOrdered { limits := limits } where
  registered := registered_init limits
  single _ _ _ _ h := by cases h
  cancelBound _ _ h := by cases h
  cancelSeq _ _ h := by cases h
  endedBound _ _ _ h := by cases h
  finished _ _ h := by cases h
  latest _ _ h := by cases h
  seen _ _ h := by cases h
  pending _ _ h := by cases h
  waiting _ _ _ h := by cases h
  delivered _ _ _ h := by cases h
  caused _ _ h := by cases h

/-- Two requests with one id of which neither has finished are the same. -/
theorem WireOrdered.unique {s : CancelState} (hinv : WireOrdered s) {r r' : Nat}
    {q q' : RequestRecord} (hq : s.requests r = some q) (hq' : s.requests r' = some q')
    (hid : q.id = q'.id) (hfin : ¬q.Finished) (hfin' : ¬q'.Finished) : r = r' := by
  rcases Nat.lt_trichotomy r r' with h | h | h
  · exact absurd (hinv.single r r' q q' hq hq' hid h) hfin
  · exact h
  · exact absurd (hinv.single r' r q' q hq' hq hid.symm h) hfin'

theorem not_finished_of_routed {q : RequestRecord} (hphase : q.phase = .routed) : ¬q.Finished := by
  rintro ⟨h, _⟩
  rw [hphase] at h
  cases h

/-- Under this client every request registers alone and retains its own registration. -/
theorem WireOrdered.takesOwn {s : CancelState} (hinv : WireOrdered s) {a : CancelAction} {s' : CancelState}
    (h : step a s = some s') : TakesOwn a s := by
  cases a with
  | register r =>
      obtain ⟨request, hrequest, hphase, _⟩ := step_register h
      intro q hq r' q' hq' hlive hid
      obtain rfl := Option.some.inj (hrequest.symm.trans hq)
      obtain rfl := hinv.unique hq hq' hid.symm (not_finished_of_routed hphase) hlive.2
      obtain rfl := Option.some.inj (hrequest.symm.trans hq')
      exact absurd hphase hlive.1
  | retain r =>
      obtain ⟨request, hrequest, hphase, _⟩ := step_retain h
      intro q hq entry hentry
      obtain rfl := Option.some.inj (hrequest.symm.trans hq)
      obtain ⟨q', hq', hid, hcookie, hlive, _⟩ := hinv.registered.owner _ entry hentry
      have hr := hinv.unique hrequest hq' hid.symm (live_of_inScope hphase).2 hlive.2
      rw [← hr] at hq'
      obtain rfl := Option.some.inj (hrequest.symm.trans hq')
      exact hcookie.symm
  | _ => exact (trivial : True)

/-- A step of one unfinished request, which is started after it. -/
structure RequestStep (s s' : CancelState) (r : Nat) (q q' : RequestRecord) : Prop where
  request : s.requests r = some q
  unfinished : ¬q.Finished
  requests : s'.requests = Function.update s.requests r (some q')
  id : q'.id = q.id
  cancels : s'.cancels = s.cancels
  nextSequence : s'.nextSequence = s.nextSequence
  started : q'.Started
  finished : q'.Finished → q'.endedAt ≠ none
  ended : q'.endedAt = q.endedAt ∨ q.endedAt = none ∧ q'.endedAt = some s.nextSequence
  latest : q'.Live → s'.latest q.id = some r
  latest_ne : ∀ id, id ≠ q.id → s'.latest id = s.latest id
  seen : s'.registry.seenRequestIds.lookup q.id ≠ none
  seen_ne : ∀ id, id ≠ q.id → s'.registry.seenRequestIds.lookup id = s.registry.seenRequestIds.lookup id
  pending : ∀ c, s'.registry.pendingCancelRequests.lookup q.id = some c → (q.id, c) ∈ s.cancels
  pending_ne : ∀ id, id ≠ q.id → s'.registry.pendingCancelRequests.lookup id =
    s.registry.pendingCancelRequests.lookup id
  delivered : ∀ c, (q.id, c) ∈ s.cancels → r < c → (∀ n, q.endedAt = some n → c < n) →
    q'.cancelled = true ∨ q'.phase = .registered true
  caused : q'.cancelled = true ∨ q'.phase = .registered true → Caused s r q

section Update

variable {s s' : CancelState} {r : Nat} {q q' : RequestRecord}

/-- What the requests of the new state were before. -/
theorem RequestStep.back (h : RequestStep s s' r q q') {r' : Nat} {p : RequestRecord}
    (hp : s'.requests r' = some p) : r' = r ∧ p = q' ∨ r' ≠ r ∧ s.requests r' = some p := by
  rw [h.requests] at hp
  exact (Table.update_eq_some hp).imp_left fun hself => ⟨hself.1, (Option.some.inj hself.2).symm⟩

/-- An unfinished request other than this one has another id. -/
theorem RequestStep.id_ne (h : RequestStep s s' r q q') (hinv : WireOrdered s) {r' : Nat} {p : RequestRecord}
    (hr : r' ≠ r) (hp : s.requests r' = some p) (hfin : ¬p.Finished) : p.id ≠ q.id :=
  fun hid => hr (hinv.unique hp h.request hid hfin h.unfinished)

/-- No later request has this id. -/
theorem RequestStep.last (h : RequestStep s s' r q q') (hinv : WireOrdered s) {r' : Nat} {p : RequestRecord}
    (hp : s.requests r' = some p) (hid : p.id = q.id) : ¬r < r' :=
  fun hlt => h.unfinished (hinv.single r r' q p h.request hp hid.symm hlt)

/-- Why a request may be cancelled stays, also where this request has now started. -/
theorem RequestStep.caused_of (h : RequestStep s s' r q q') {r' : Nat} {p p' : RequestRecord}
    (hpid : p'.id = p.id) (hafter : p'.id = q.id → r' = r ∨ ¬r < r') (hcaused : Caused s r' p') :
    Caused s' r' p := by
  rcases hcaused with ⟨c, hc, hlt⟩ | ⟨⟨c, hc, hlt⟩, hnone⟩
  · exact .inl ⟨c, by rw [h.cancels, ← hpid]; exact hc, hlt⟩
  · refine .inr ⟨⟨c, by rw [h.cancels, ← hpid]; exact hc, hlt⟩, fun r₀ p₀ hp₀ hlt₀ hid₀ => ?_⟩
    rcases h.back hp₀ with ⟨rfl, rfl⟩ | ⟨_, hp₀⟩
    · have hid : p'.id = q.id :=
        calc p'.id = p.id := hpid
          _ = _ := hid₀.symm
          _ = q.id := h.id
      rcases hafter hid with heq | hnot
      · exact absurd hlt₀ (by rw [heq]; exact Nat.lt_irrefl _)
      · exact absurd hlt₀ hnot
    · exact hnone r₀ p₀ hp₀ hlt₀ (hid₀.trans hpid.symm)

theorem WireOrdered.ofUpdate (hinv : WireOrdered s) (hreg : Registered s') (h : RequestStep s s' r q q') :
    WireOrdered s' where
  registered := hreg
  single r₁ r₂ p₁ p₂ h₁ h₂ hpid hlt := by
    rcases h.back h₁ with ⟨rfl, rfl⟩ | ⟨_, h₁⟩
    · rcases h.back h₂ with ⟨rfl, rfl⟩ | ⟨_, h₂⟩
      · exact absurd hlt (Nat.lt_irrefl _)
      · exact absurd hlt (h.last hinv h₂ (hpid.symm.trans h.id))
    · rcases h.back h₂ with ⟨rfl, rfl⟩ | ⟨_, h₂⟩
      · exact hinv.single r₁ r₂ p₁ q h₁ h.request (hpid.trans h.id) hlt
      · exact hinv.single r₁ r₂ p₁ p₂ h₁ h₂ hpid hlt
  cancelBound id c hc := by
    rw [h.nextSequence]
    exact hinv.cancelBound id c (h.cancels ▸ hc)
  cancelSeq id c hc := by
    have hnone := hinv.cancelSeq id c (h.cancels ▸ hc)
    have hr : c ≠ r := by
      rintro rfl
      cases h.request.symm.trans hnone
    rw [h.requests, Function.update_of_ne hr]
    exact hnone
  endedBound r' p n hp hend := by
    rw [h.nextSequence]
    rcases h.back hp with ⟨rfl, rfl⟩ | ⟨_, hp⟩
    · rcases h.ended with heq | ⟨_, heq⟩
      · exact hinv.endedBound r' q n h.request (heq.symm.trans hend)
      · rw [heq] at hend
        exact Nat.le_of_eq (Option.some.inj hend).symm
    · exact hinv.endedBound r' p n hp hend
  finished r' p hp hpf := by
    rcases h.back hp with ⟨_, rfl⟩ | ⟨_, hp⟩
    · exact h.finished hpf
    · exact hinv.finished r' p hp hpf
  latest r' p hp hpl := by
    rcases h.back hp with ⟨rfl, rfl⟩ | ⟨hr, hp⟩
    · rw [h.id]
      exact h.latest hpl
    · rw [h.latest_ne _ (h.id_ne hinv hr hp hpl.2)]
      exact hinv.latest r' p hp hpl
  seen r' p hp hps := by
    by_cases hpid : p.id = q.id
    · rw [hpid]
      exact h.seen
    · rcases h.back hp with ⟨_, rfl⟩ | ⟨_, hp⟩
      · exact absurd h.id hpid
      · rw [h.seen_ne _ hpid]
        exact hinv.seen r' p hp hps
  pending id c hc := by
    rw [h.cancels]
    by_cases hid : id = q.id
    · subst hid
      exact h.pending c hc
    · rw [h.pending_ne id hid] at hc
      exact hinv.pending id c hc
  waiting r' p c hp hphase hc hlt := by
    rw [h.cancels] at hc
    rcases h.back hp with ⟨_, rfl⟩ | ⟨hr, hp⟩
    · exact absurd hphase h.started
    · rw [h.pending_ne _ (h.id_ne hinv hr hp (not_finished_of_routed hphase))]
      exact hinv.waiting r' p c hp hphase hc hlt
  delivered r' p c hp hc hlt hps hend := by
    rw [h.cancels] at hc
    rcases h.back hp with ⟨rfl, rfl⟩ | ⟨_, hp⟩
    · rw [h.id] at hc
      refine h.delivered c hc hlt fun n hn => ?_
      rcases h.ended with heq | ⟨hnone, _⟩
      · exact hend n (heq.trans hn)
      · cases hnone.symm.trans hn
    · exact hinv.delivered r' p c hp hc hlt hps hend
  caused r' p hp hpc := by
    rcases h.back hp with ⟨rfl, rfl⟩ | ⟨_, hp⟩
    · exact h.caused_of h.id.symm (fun _ => .inl rfl) (h.caused hpc)
    · exact h.caused_of rfl (fun hpid => .inr (h.last hinv hp hpid)) (hinv.caused r' p hp hpc)

end Update

theorem WireOrdered.routeRequest {s s' : CancelState} (hinv : WireOrdered s) {id : LsRequestId}
    (hok : ReusesEnded (.routeRequest id) s) (h : step (.routeRequest id) s = some s') :
    WireOrdered s' := by
  have hreg := hinv.registered.step (hinv.takesOwn h) h
  obtain rfl := Option.some.inj h
  have hbound := hinv.registered.bound
  have hnew : ¬(RequestRecord.Started { id := id }) := fun h => h rfl
  constructor
  case registered =>
    exact hreg
  case single =>
    intro r r' q q' hq hq' hid hlt
    rcases requests_of_setRequest hq with ⟨rfl, rfl⟩ | ⟨_, hq⟩
    · rcases requests_of_setRequest hq' with ⟨rfl, _⟩ | ⟨_, hq'⟩
      · exact absurd hlt (Nat.lt_irrefl _)
      · have := hbound r' q' hq'
        omega
    · rcases requests_of_setRequest hq' with ⟨rfl, rfl⟩ | ⟨_, hq'⟩
      · exact hok r (hbound r q hq) q hq hid
      · exact hinv.single r r' q q' hq hq' hid hlt
  case cancelBound =>
    exact fun id' c hc => Nat.lt_succ_of_lt (hinv.cancelBound id' c hc)
  case cancelSeq =>
    intro id' c hc
    rw [setRequest_requests, if_neg (Nat.ne_of_lt (hinv.cancelBound id' c hc))]
    exact hinv.cancelSeq id' c hc
  case endedBound =>
    intro r q n hq hend
    rcases requests_of_setRequest hq with ⟨_, rfl⟩ | ⟨_, hq⟩
    · cases hend
    · exact Nat.le_succ_of_le (hinv.endedBound r q n hq hend)
  case finished =>
    intro r q hq hfin
    rcases requests_of_setRequest hq with ⟨_, rfl⟩ | ⟨_, hq⟩
    · exact absurd hfin (not_finished_of_routed rfl)
    · exact hinv.finished r q hq hfin
  case latest =>
    intro r q hq hlive
    rcases requests_of_setRequest hq with ⟨_, rfl⟩ | ⟨_, hq⟩
    · exact absurd hlive.1 hnew
    · exact hinv.latest r q hq hlive
  case seen =>
    intro r q hq hstart
    rcases requests_of_setRequest hq with ⟨_, rfl⟩ | ⟨_, hq⟩
    · exact absurd hstart hnew
    · exact hinv.seen r q hq hstart
  case pending =>
    exact hinv.pending
  case waiting =>
    intro r q c hq hphase hc hlt
    rcases requests_of_setRequest hq with ⟨rfl, rfl⟩ | ⟨_, hq⟩
    · have := hinv.cancelBound _ c hc
      omega
    · exact hinv.waiting r q c hq hphase hc hlt
  case delivered =>
    intro r q c hq hc hlt hstart hend
    rcases requests_of_setRequest hq with ⟨_, rfl⟩ | ⟨_, hq⟩
    · exact absurd hstart hnew
    · exact hinv.delivered r q c hq hc hlt hstart hend
  case caused =>
    intro r q hq hcancelled
    rcases requests_of_setRequest hq with ⟨_, rfl⟩ | ⟨_, hq⟩
    · rcases hcancelled with h | h <;> cases h
    · rcases hinv.caused r q hq hcancelled with hcause | ⟨hcause, hnone⟩
      · exact Or.inl hcause
      · refine Or.inr ⟨hcause, fun r' q' hq' hlt hid => ?_⟩
        rcases requests_of_setRequest hq' with ⟨_, rfl⟩ | ⟨_, hq'⟩
        · exact hnew
        · exact hnone r' q' hq' hlt hid

theorem WireOrdered.routeOther {s s' : CancelState} (hinv : WireOrdered s)
    (h : step .routeOther s = some s') : WireOrdered s' := by
  have hreg := hinv.registered.step (hinv.takesOwn h) h
  obtain rfl := Option.some.inj h
  exact ⟨hreg, hinv.single, fun id c hc => Nat.lt_succ_of_lt (hinv.cancelBound id c hc),
    hinv.cancelSeq, fun r q n hq hend => Nat.le_succ_of_le (hinv.endedBound r q n hq hend),
    hinv.finished, hinv.latest, hinv.seen, hinv.pending, hinv.waiting, hinv.delivered, hinv.caused⟩

/-- A started request whose registration was not given up is the one the registry has under its id. -/
theorem WireOrdered.registeredEntry {s : CancelState} (hinv : WireOrdered s) {r : Nat} {q : RequestRecord}
    (hq : s.requests r = some q) (hstart : q.Started) (hend : q.endedAt = none) :
    s.registry.requestCancelers.lookup q.id = some (r, q.cookie) := by
  have hlive : q.Live := ⟨hstart, fun hfin => hinv.finished r q hq hfin hend⟩
  exact hinv.registered.held r q hq hstart hend (hinv.latest r q hq hlive)

/-- No registration stands under the id of a request that has not started. -/
theorem WireOrdered.no_entry {s : CancelState} (hinv : WireOrdered s) {r : Nat} {q : RequestRecord}
    (hq : s.requests r = some q) (hphase : q.phase = .routed) :
    s.registry.requestCancelers.lookup q.id = none := by
  by_contra h
  obtain ⟨entry, hentry⟩ := Option.ne_none_iff_exists'.mp h
  obtain ⟨q', hq', hid, _, hlive, _⟩ := hinv.registered.owner _ entry hentry
  have hr := hinv.unique hq hq' hid.symm (not_finished_of_routed hphase) hlive.2
  rw [← hr] at hq'
  obtain rfl := Option.some.inj (hq.symm.trans hq')
  exact hlive.1 hphase

section RouteCancel

variable {s s' : CancelState} {id : LsRequestId}

/-- A cancel sets the flag of the request whose canceler stands under its id, and changes no other request. -/
theorem requests_of_routeCancel (h : step (.routeCancel id) s = some s') {r : Nat} {q' : RequestRecord}
    (hq' : s'.requests r = some q') :
    ∃ q, s.requests r = some q ∧ Alike q q' ∧ q'.phase = q.phase ∧ (q'.cancelled = true ↔
      (s.registry.requestCancelers.lookup id).map Prod.fst = some r ∨ q.cancelled = true) := by
  obtain ⟨_, _, _, _, _, _, _, hrequests⟩ := step_routeCancel h
  rw [hrequests] at hq'
  obtain ⟨q, hq, rfl⟩ := Option.map_eq_some_iff.mp hq'
  refine ⟨q, hq, alike_cancelled q _, ?_, ?_⟩
  · split_ifs <;> rfl
  · split_ifs with hhit <;> simp [hhit]

theorem mem_cancels_routeCancel (h : step (.routeCancel id) s = some s') (id' : LsRequestId) (c : Nat) :
    (id', c) ∈ s'.cancels ↔ (id', c) ∈ s.cancels ∨ id' = id ∧ c = s.nextSequence := by
  obtain ⟨_, _, hcancels, _⟩ := step_routeCancel h
  rw [hcancels, List.mem_append, List.mem_singleton, Prod.mk.injEq]

theorem pending_routeCancel (hlimit : s.limits.maxPendingCancelRequests = 0)
    (h : step (.routeCancel id) s = some s') (id' : LsRequestId) :
    s'.registry.pendingCancelRequests.lookup id' =
      if id' = id ∧ s.registry.requestCancelers.lookup id = none ∧
          (∀ c, s.registry.pendingCancelRequests.lookup id = some c → c < s.nextSequence) then
        some s.nextSequence
      else s.registry.pendingCancelRequests.lookup id' := by
  rw [(step_routeCancel h).1]
  exact RequestCancellationRegistry.onCancel_pending s.registry s.limits hlimit id id' s.nextSequence

/-- A cancel that precedes the start of its request is kept for it. -/
theorem WireOrdered.waiting_routeCancel (hinv : WireOrdered s) (hlimit : s.limits.maxPendingCancelRequests = 0)
    (h : step (.routeCancel id) s = some s') {r c : Nat} {q : RequestRecord} (hq : s'.requests r = some q)
    (hphase : q.phase = .routed) (hc : (q.id, c) ∈ s'.cancels) (hlt : r < c) :
    ∃ c', s'.registry.pendingCancelRequests.lookup q.id = some c' ∧ c ≤ c' := by
  obtain ⟨p, hp, hal, hsame, _⟩ := requests_of_routeCancel h hq
  rw [hsame] at hphase
  rw [hal.id, mem_cancels_routeCancel h] at hc
  rw [hal.id, pending_routeCancel hlimit h]
  by_cases hid : p.id = id
  · have hearlier : ∀ c', s.registry.pendingCancelRequests.lookup id = some c' → c' < s.nextSequence :=
      fun c' hc' => hinv.cancelBound id c' (hinv.pending id c' hc')
    refine ⟨s.nextSequence, ?_, ?_⟩
    · rw [if_pos ⟨hid, hid ▸ hinv.no_entry hp hphase, hearlier⟩]
    · rcases hc with hc | ⟨_, rfl⟩
      · exact Nat.le_of_lt (hinv.cancelBound _ c hc)
      · exact Nat.le_refl _
  · rw [if_neg fun hnew => hid hnew.1]
    exact hinv.waiting r p c hp hphase (hc.resolve_right fun hnew => hid hnew.1) hlt

/-- A cancel that follows the start of its request reaches it, unless the request has ended. -/
theorem WireOrdered.delivered_routeCancel (hinv : WireOrdered s) (h : step (.routeCancel id) s = some s')
    {r c : Nat} {q : RequestRecord} (hq : s'.requests r = some q) (hc : (q.id, c) ∈ s'.cancels) (hlt : r < c)
    (hstart : q.Started) (hend : ∀ n, q.endedAt = some n → c < n) :
    q.cancelled = true ∨ q.phase = .registered true := by
  obtain ⟨p, hp, hal, hsame, hflag⟩ := requests_of_routeCancel h hq
  rw [hal.id, mem_cancels_routeCancel h] at hc
  rw [hal.endedAt] at hend
  rw [hal.started] at hstart
  rw [hsame, hflag]
  rcases hc with hc | ⟨hid, rfl⟩
  · exact (hinv.delivered r p c hp hc hlt hstart hend).imp_left .inr
  · have hnone : p.endedAt = none := by
      by_contra hsome
      obtain ⟨n, hn⟩ := Option.ne_none_iff_exists'.mp hsome
      exact Nat.not_le_of_lt (hend n hn) (hinv.endedBound r p n hp hn)
    have hentry := hinv.registeredEntry hp hstart hnone
    rw [hid] at hentry
    exact .inl (.inl (by rw [hentry]; rfl))

theorem WireOrdered.caused_routeCancel (hinv : WireOrdered s) (h : step (.routeCancel id) s = some s') {r : Nat}
    {q : RequestRecord} (hq : s'.requests r = some q)
    (hcancelled : q.cancelled = true ∨ q.phase = .registered true) : Caused s' r q := by
  obtain ⟨p, hp, hal, hsame, hflag⟩ := requests_of_routeCancel h hq
  rw [hsame, hflag, or_assoc] at hcancelled
  have hold : ∀ c, (p.id, c) ∈ s.cancels → (q.id, c) ∈ s'.cancels := fun c hc => by
    rw [hal.id, mem_cancels_routeCancel h]
    exact .inl hc
  rcases hcancelled with hhit | hbefore
  · obtain ⟨entry, hentry, rfl⟩ := Option.map_eq_some_iff.mp hhit
    obtain ⟨p', hp', hid, _⟩ := hinv.registered.owner id entry hentry
    obtain rfl := Option.some.inj (hp.symm.trans hp')
    refine .inl ⟨s.nextSequence, ?_, hinv.registered.bound _ p hp⟩
    rw [hal.id, mem_cancels_routeCancel h]
    exact .inr ⟨hid, rfl⟩
  · rcases hinv.caused r p hp hbefore with ⟨c, hc, hlt⟩ | ⟨⟨c, hc, hlt⟩, hnone⟩
    · exact .inl ⟨c, hold c hc, hlt⟩
    · refine .inr ⟨⟨c, hold c hc, hlt⟩, fun r' q' hq' hlt' hid => ?_⟩
      obtain ⟨p', hp', hal', _⟩ := requests_of_routeCancel h hq'
      rw [hal'.started]
      have hbefore : p'.id = p.id :=
        calc p'.id = q'.id := hal'.id.symm
          _ = _ := hid
          _ = p.id := hal.id
      exact hnone r' p' hp' hlt' hbefore

theorem WireOrdered.routeCancel (hinv : WireOrdered s) (hlimit : s.limits.maxPendingCancelRequests = 0)
    (h : step (.routeCancel id) s = some s') : WireOrdered s' where
  registered := hinv.registered.step (hinv.takesOwn h) h
  single r r' q q' hq hq' hid hlt := by
    obtain ⟨p, hp, hal, _⟩ := requests_of_routeCancel h hq
    obtain ⟨p', hp', hal', _⟩ := requests_of_routeCancel h hq'
    have hbefore : p.id = p'.id :=
      calc p.id = q.id := hal.id.symm
        _ = q'.id := hid
        _ = p'.id := hal'.id
    have hfin := hinv.single r r' p p' hp hp' hbefore hlt
    exact ⟨hal.exited.mpr hfin.1, hal.retainers.trans hfin.2⟩
  cancelBound id' c hc := by
    rw [mem_cancels_routeCancel h] at hc
    rw [(step_routeCancel h).2.1]
    rcases hc with hc | ⟨_, rfl⟩
    · exact Nat.lt_succ_of_lt (hinv.cancelBound id' c hc)
    · exact Nat.lt_succ_self _
  cancelSeq id' c hc := by
    rw [mem_cancels_routeCancel h] at hc
    refine Option.eq_none_iff_forall_ne_some.mpr fun q hq => ?_
    obtain ⟨p, hp, _⟩ := requests_of_routeCancel h hq
    rcases hc with hc | ⟨_, rfl⟩
    · cases (hinv.cancelSeq id' c hc).symm.trans hp
    · exact Nat.lt_irrefl _ (hinv.registered.bound _ p hp)
  endedBound r q n hq hend := by
    obtain ⟨p, hp, hal, _⟩ := requests_of_routeCancel h hq
    rw [hal.endedAt] at hend
    rw [(step_routeCancel h).2.1]
    exact Nat.le_succ_of_le (hinv.endedBound r p n hp hend)
  finished r q hq hfin := by
    obtain ⟨p, hp, hal, _⟩ := requests_of_routeCancel h hq
    rw [hal.endedAt]
    exact hinv.finished r p hp ⟨hal.exited.mp hfin.1, hal.retainers ▸ hfin.2⟩
  latest r q hq hlive := by
    obtain ⟨p, hp, hal, _⟩ := requests_of_routeCancel h hq
    rw [(step_routeCancel h).2.2.2.1, hal.id]
    exact hinv.latest r p hp (hal.live.mp hlive)
  seen r q hq hstart := by
    obtain ⟨p, hp, hal, _⟩ := requests_of_routeCancel h hq
    rw [(step_routeCancel h).1, hal.id, RequestCancellationRegistry.onCancel_seen]
    exact hinv.seen r p hp (hal.started.mp hstart)
  pending id' c hc := by
    rw [pending_routeCancel hlimit h] at hc
    rw [mem_cancels_routeCancel h]
    split_ifs at hc with hnew
    · exact .inr ⟨hnew.1, (Option.some.inj hc).symm⟩
    · exact .inl (hinv.pending id' c hc)
  waiting _ _ _ hq hphase hc hlt := hinv.waiting_routeCancel hlimit h hq hphase hc hlt
  delivered _ _ _ hq hc hlt hstart hend := hinv.delivered_routeCancel h hq hc hlt hstart hend
  caused _ _ hq hcancelled := hinv.caused_routeCancel h hq hcancelled

end RouteCancel

theorem WireOrdered.register {s s' : CancelState} (hinv : WireOrdered s) {r : Nat}
    (hlimit : s.limits.maxSeenRequestIds = 0) (h : step (.register r) s = some s') : WireOrdered s' := by
  have hreg := hinv.registered.step (hinv.takesOwn h) h
  obtain ⟨request, hrequest, hphase, rfl⟩ := step_register h
  have hfresh := hinv.registered.fresh r request hrequest (by
    rintro (h | h) <;> rw [hphase] at h <;> cases h)
  have hinvoke := RequestCancellationRegistry.cancelableRequestContext_invoke s.registry s.limits
    request.id r r s.nextRequestCookie
  have hseen := fun id' => RequestCancellationRegistry.cancelableRequestContext_seen s.registry s.limits
    hlimit request.id id' r r s.nextRequestCookie
  have hpending := fun id' => RequestCancellationRegistry.cancelableRequestContext_pending s.registry s.limits
    request.id id' r r s.nextRequestCookie
  refine hinv.ofUpdate hreg ⟨hrequest, not_finished_of_routed hphase, rfl, rfl, rfl, rfl, ?_, ?_, .inl rfl, ?_, ?_, ?_,
    ?_, ?_, ?_, ?_, ?_⟩
  · exact fun h => by cases h
  · exact fun h => by cases h.1
  · exact fun _ => Function.update_self ..
  · exact fun id hid => Function.update_of_ne hid ..
  · simp only [registerRequest, setRequest, hseen, if_true]
    exact fun h => by cases h
  · intro id hid
    simp only [registerRequest, setRequest, hseen, if_neg hid]
  · intro c hc
    simp only [registerRequest, setRequest, hpending, if_true] at hc
    cases hc
  · intro id hid
    simp only [registerRequest, setRequest, hpending, if_neg hid]
  · intro c hc hlt _
    obtain ⟨c', hc', hle⟩ := hinv.waiting r request c hrequest hphase hc hlt
    exact Or.inr (congrArg RequestPhase.registered (hinvoke.mpr ⟨c', hc', Or.inr (by omega)⟩))
  · rintro (hcancelled | hcancelled)
    · exact hinv.caused r request hrequest (Or.inl hcancelled)
    · obtain ⟨c, hc, hwhy⟩ := hinvoke.mp (RequestPhase.registered.inj hcancelled)
      have hmem := hinv.pending _ c hc
      rcases Nat.lt_trichotomy r c with hlt | heq | hgt
      · exact Or.inl ⟨c, hmem, hlt⟩
      · have hnone := hinv.cancelSeq _ c hmem
        rw [← heq, hrequest] at hnone
        cases hnone
      · refine Or.inr ⟨⟨c, hmem, hgt⟩, fun r' q' hq' _ hid hstart => ?_⟩
        rcases hwhy with hnew | hlt
        · exact hinv.seen r' q' hq' hstart (hid ▸ hnew)
        · omega

/-- The steps of a handler: entering the scope, retaining, releasing and leaving. -/
theorem WireOrdered.handler {s s' : CancelState} (hinv : WireOrdered s)
    (hreg : Registered s') {r : Nat} {q q' : RequestRecord} (hq : s.requests r = some q) (hlive : q.Live)
    (hstep : s' = setRequest { s with registry := s'.registry } r q')
    (hpending : s'.registry.pendingCancelRequests = s.registry.pendingCancelRequests)
    (hseen : s'.registry.seenRequestIds = s.registry.seenRequestIds) (hid : q'.id = q.id)
    (hstarted : q'.Started) (hfinished : q'.Finished → q'.endedAt ≠ none)
    (hended : q'.endedAt = q.endedAt ∨ q.endedAt = none ∧ q'.endedAt = some s.nextSequence)
    (hflag : (q'.cancelled = true ∨ q'.phase = .registered true) ↔
      (q.cancelled = true ∨ q.phase = .registered true)) : WireOrdered s' := by
  have hlatest : s'.latest = s.latest := by rw [hstep]; rfl
  refine hinv.ofUpdate hreg ⟨hq, hlive.2, by rw [hstep]; rfl, hid, by rw [hstep]; rfl, by rw [hstep]; rfl, hstarted,
    hfinished, hended, ?_, ?_, ?_, ?_, ?_, ?_, ?_, ?_⟩
  · rw [hlatest]
    exact fun _ => hinv.latest r q hq hlive
  · rw [hlatest]
    exact fun _ _ => rfl
  · rw [hseen]
    exact hinv.seen r q hq hlive.1
  · rw [hseen]
    exact fun _ _ => rfl
  · rw [hpending]
    exact hinv.pending q.id
  · rw [hpending]
    exact fun _ _ => rfl
  · exact fun c hc hlt hend => hflag.mpr (hinv.delivered r q c hq hc hlt hlive.1 hend)
  · exact fun h => hinv.caused r q hq (hflag.mp h)

theorem markEnded_endedAt (q : RequestRecord) (now : Nat) :
    (q.markEnded now).endedAt = q.endedAt ∨ q.endedAt = none ∧ (q.markEnded now).endedAt = some now := by
  cases h : q.endedAt <;> simp [RequestRecord.markEnded, h]

theorem WireOrdered.step {s s' : CancelState} {a : CancelAction} (hinv : WireOrdered s)
    (hpend : s.limits.maxPendingCancelRequests = 0) (hseen : s.limits.maxSeenRequestIds = 0)
    (hok : ReusesEnded a s) (h : step a s = some s') : WireOrdered s' := by
  have hreg := hinv.registered.step (hinv.takesOwn h) h
  cases a with
  | routeRequest id => exact hinv.routeRequest hok h
  | routeCancel id => exact hinv.routeCancel hpend h
  | routeOther => exact hinv.routeOther h
  | register r => exact hinv.register hseen h
  | enter r =>
      obtain ⟨request, invoke, hrequest, hphase, rfl⟩ := step_enter h
      refine hinv.handler hreg hrequest ⟨?_, ?_⟩ rfl rfl rfl rfl ?_ ?_ (Or.inl rfl) ?_
      · exact fun h => by rw [hphase] at h; cases h
      · exact fun h => by rw [h.1] at hphase; cases hphase
      · exact fun h => by cases h
      · exact fun h => by cases h.1
      · simp [hphase]
  | retain r =>
      obtain ⟨request, hrequest, hphase, rfl⟩ := step_retain h
      have hframe := (s.registry.handler_pending_seen request.id 0 (request.id, 0)).2.1
      refine hinv.handler hreg hrequest (live_of_inScope hphase) rfl hframe.1 hframe.2 rfl
        (live_of_inScope hphase).1 ?_ (Or.inl rfl) Iff.rfl
      exact fun hfin => by rw [show _ = RequestPhase.inScope from hphase] at hfin; cases hfin.1
  | release r key =>
      obtain ⟨request, hrequest, hmem, rfl⟩ := step_release h
      have hlive := hinv.registered.live_of_retainer hrequest (List.ne_nil_of_mem hmem)
      have hframe := (s.registry.handler_pending_seen request.id 0 key).2.2
      refine hinv.handler hreg hrequest hlive rfl hframe.1 hframe.2 ?_ ?_ ?_ ?_ ?_
      · split_ifs <;> rfl
      · split_ifs <;> exact hlive.1
      · split_ifs with hlast
        · simp [RequestRecord.markEnded]
        · exact fun hfin => absurd hfin.2 hlast
      · split_ifs
        · exact markEnded_endedAt _ _
        · exact Or.inl rfl
      · split_ifs <;> exact Iff.rfl
  | exit r =>
      obtain ⟨request, hrequest, hphase, rfl⟩ := step_exit h
      have hframe := (s.registry.handler_pending_seen request.id request.cookie (request.id, 0)).1
      refine hinv.handler hreg hrequest (live_of_inScope hphase) rfl hframe.1 hframe.2 ?_ ?_ ?_ ?_ ?_
      · split_ifs <;> rfl
      · split_ifs <;> exact fun h => by cases h
      · split_ifs with hlast
        · simp [RequestRecord.markEnded]
        · exact fun hfin => absurd hfin.2 hlast
      · split_ifs
        · exact markEnded_endedAt _ _
        · exact Or.inl rfl
      · split_ifs <;> simp [RequestRecord.markEnded, hphase]

theorem step_limits {s s' : CancelState} {a : CancelAction} (h : step a s = some s') :
    s'.limits = s.limits := by
  cases a with
  | routeRequest id => obtain rfl := Option.some.inj h; rfl
  | routeCancel id => exact (step_routeCancel h).2.2.2.2.1
  | routeOther => obtain rfl := Option.some.inj h; rfl
  | register r => obtain ⟨_, _, _, rfl⟩ := step_register h; rfl
  | enter r => obtain ⟨_, _, _, _, rfl⟩ := step_enter h; rfl
  | retain r => obtain ⟨_, _, _, rfl⟩ := step_retain h; rfl
  | release r key => obtain ⟨_, _, _, rfl⟩ := step_release h; rfl
  | exit r => obtain ⟨_, _, _, rfl⟩ := step_exit h; rfl

theorem reachable_wireOrdered {s : CancelState} (hs : cancelSystem.ReachableIf ReusesEnded s)
    (hpend : s.limits.maxPendingCancelRequests = 0) (hseen : s.limits.maxSeenRequestIds = 0) :
    WireOrdered s := by
  revert hpend hseen
  refine hs.invariant (fun s => s.limits.maxPendingCancelRequests = 0 →
    s.limits.maxSeenRequestIds = 0 → WireOrdered s) ?_ ?_
  · rintro s ⟨limits, rfl⟩ _ _
    exact wireOrdered_init limits
  · intro a s s' ih hok h hpend hseen
    rw [step_limits h] at hpend hseen
    exact (ih hpend hseen).step hpend hseen hok h

/-- **Cancellation is neither lost nor misdirected**: without limits on its tables, in every run of a
client that reuses an id only after the request that had it has ended. -/
theorem cancels_match (s : CancelState) (hs : cancelSystem.ReachableIf ReusesEnded s)
    (hpend : s.limits.maxPendingCancelRequests = 0) (hseen : s.limits.maxSeenRequestIds = 0) :
    CancelsMatch s := by
  have hinv := reachable_wireOrdered hs hpend hseen
  refine ⟨?_, fun r q hq hcancelled => hinv.caused r q hq (Or.inl hcancelled)⟩
  intro r q c hq hc hlt hend hentered
  have hstart : q.Started := by
    rcases hentered with h | h <;> exact fun hp => by rw [h] at hp; cases hp
  rcases hinv.delivered r q c hq hc hlt hstart hend with h | h
  · exact h
  · rcases hentered with h' | h' <;> rw [h] at h' <;> cases h'

/-- A cancel overtakes its request, a late one follows it, and the id is used again. -/
def reuseRun : List CancelAction :=
  [.routeRequest (.kInt 1), .routeCancel (.kInt 1), .register 0, .enter 0, .retain 0, .exit 0,
    .release 0 (.kInt 1, 0), .routeCancel (.kInt 1), .routeRequest (.kInt 1), .register 3, .enter 3]

theorem cancels_match_reuseRun :
    ∃ s, cancelSystem.runIf ReusesEnded reuseRun {} = some s ∧ CancelsMatch s :=
  ⟨_, rfl, cancels_match _
    (Transition.System.reachableIf_of_runIf reuseRun (.init ⟨{}, rfl⟩) rfl) rfl rfl⟩

end CancelState

end LspCpp

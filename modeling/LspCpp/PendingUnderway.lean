import LspCpp.PendingFresh

/-! The responses that an endpoint reads while it is not stopped. Each one that finds its request goes on until it has
taken the request out of the table, whatever the parser does and whoever else looks the id up. -/

namespace LspCpp

/-- Between the first lookup of `parseAndClassify` and the removal in `mainLoop`, with the request that was found. -/
def IncomingResponse.Underway (r : IncomingResponse) : Prop :=
  r.phase = .parsing ∨ r.phase = .parsed r.id r.heldBy ∨ r.phase = .submitted r.id r.heldBy ∨
    r.phase = .routed r.id r.heldBy

theorem IncomingResponse.Underway.ne_done {r : IncomingResponse} (h : r.Underway) : r.phase ≠ .done := by
  intro hdone
  obtain h | h | h | h := h
  all_goals cases h.symm.trans hdone

theorem IncomingResponse.Underway.owed {r : IncomingResponse} (h : r.Underway) : r.phase.owed = none := by
  obtain h | h | h | h := h
  all_goals rw [h]; rfl

namespace PendingState

def Underway (s : PendingState) (id : LsRequestId) : Prop :=
  ∃ t r, s.responses t = some r ∧ r.id = id ∧ r.Underway

variable {s s' : PendingState} {id : LsRequestId}

/-- No `stop` has been called, and no handler has been invoked by one. -/
structure Running (s : PendingState) : Prop where
  quit : s.quit = false
  stopPhase : s.stopPhase = .notCalled
  responses : ∀ i ∈ s.invocations, i.response ≠ none

theorem Running.congr (h : s.Running) (hquit : s'.quit = s.quit) (hphase : s'.stopPhase = s.stopPhase)
    (hinvocations : s'.invocations = s.invocations) : s'.Running where
  quit := hquit.trans h.quit
  stopPhase := hphase.trans h.stopPhase
  responses := hinvocations ▸ h.responses

theorem Running.complete (h : s.Running) (o t : Nat) : (s.complete o (some t)).Running := by
  obtain ⟨infos, invocations, heq, hnew⟩ := complete_frame s o (some t)
  rw [heq]
  refine ⟨h.quit, h.stopPhase, fun i hi => ?_⟩
  rcases hnew i hi with hold | rfl
  · exact h.responses i hold
  · exact Option.some_ne_none t

theorem Running.step {a : PendingAction} (h : s.Running) (ha : a ≠ .stop) (hstep : PendingState.step a s = some s') :
    s'.Running := by
  cases a with
  | sendBegin =>
      obtain ⟨-, ⟨-, rfl⟩ | ⟨-, rfl⟩⟩ := step_sendBegin hstep
      · exact h.congr rfl rfl rfl
      · exact h
  | sendRegister =>
      obtain ⟨_, _, -, rfl | ⟨_, _, -, rfl⟩⟩ := step_sendRegister hstep
      · exact h.congr rfl rfl rfl
      · exact h.congr rfl rfl rfl
  | sendReturn =>
      obtain ⟨_, _, -, -, rfl⟩ := step_sendReturn hstep
      exact h.congr rfl rfl rfl
  | sendThrow =>
      obtain ⟨_, _, -, -, rfl⟩ := step_sendThrow hstep
      exact h.congr rfl rfl rfl
  | receive =>
      obtain rfl | ⟨_, -, rfl⟩ := step_receive hstep
      · exact h
      · exact h.congr rfl rfl rfl
  | parsed =>
      obtain ⟨_, -, -, rfl⟩ := step_parsed hstep
      exact h.congr rfl rfl rfl
  | parseThrows =>
      obtain ⟨_, -, -, rfl | ⟨_, -, rfl⟩⟩ := step_parseThrows hstep
      · exact h.congr rfl rfl rfl
      · exact h.congr rfl rfl rfl
  | submit =>
      obtain ⟨_, _, _, -, -, -, ⟨-, rfl⟩ | ⟨-, rfl⟩⟩ := step_submit hstep
      · exact h.congr rfl rfl rfl
      · exact h.congr rfl rfl rfl
  | route =>
      obtain ⟨_, _, _, -, -, rfl | rfl⟩ := step_route hstep
      · exact h.congr rfl rfl rfl
      · exact h.congr rfl rfl rfl
  | remove =>
      obtain ⟨_, _, _, -, -, rfl | ⟨-, rfl⟩⟩ := step_remove hstep
      · exact h.congr rfl rfl rfl
      · exact h.congr rfl rfl rfl
  | completeNow t =>
      obtain ⟨_, o, -, -, rfl⟩ := step_completeNow hstep
      exact (h.complete o t).congr rfl rfl rfl
  | handOff =>
      obtain ⟨_, _, -, -, ⟨-, rfl⟩ | ⟨-, rfl⟩⟩ := step_handOff hstep
      · exact h.congr rfl rfl rfl
      · exact h.congr rfl rfl rfl
  | post =>
      obtain ⟨_, _, -, -, rfl⟩ := step_post hstep
      exact h.congr rfl rfl rfl
  | poolBegin =>
      obtain ⟨-, -, rfl⟩ := step_poolBegin hstep
      exact h.congr rfl rfl rfl
  | poolComplete task =>
      obtain ⟨-, rfl⟩ := step_poolComplete hstep
      exact (h.complete task.request task.response).congr rfl rfl rfl
  | timeout =>
      obtain ⟨_, -, ⟨rfl, -⟩ | ⟨_, _, -, -, rfl⟩⟩ := step_timeout hstep
      · exact h.congr rfl rfl rfl
      · exact h.congr rfl rfl rfl
  | stop => exact absurd rfl ha

/-! ### Responses under way -/

theorem Underway.congr (h : s.Underway id) (hresponses : s'.responses = s.responses) : s'.Underway id := by
  obtain ⟨t, r, hr, hid, hunderway⟩ := h
  exact ⟨t, r, by rw [hresponses, hr], hid, hunderway⟩

/-- One response goes on; if it is under way to the request, it has to stay so. -/
theorem Underway.advance (h : s.Underway id) {t : Nat} {r : IncomingResponse} (hr : s.responses t = some r)
    {phase : ResponsePhase} (hresponses : s'.responses = (s.setPhase t r phase).responses)
    (hphase : r.id = id → r.Underway → IncomingResponse.Underway { r with phase := phase }) : s'.Underway id := by
  obtain ⟨t', r', hr', hid, hunderway⟩ := h
  by_cases ht : t' = t
  · obtain rfl := Option.some.inj (hr.symm.trans (ht ▸ hr'))
    refine ⟨t, { r with phase := phase }, ?_, hid, hphase hid hunderway⟩
    rw [hresponses, setPhase_responses, if_pos rfl]
  · refine ⟨t', r', ?_, hid, hunderway⟩
    rw [hresponses, setPhase_responses, if_neg ht, hr']

/-- A response that has taken its request out of the table may become anything. -/
theorem Underway.ofOwed (h : s.Underway id) {t o : Nat} {r : IncomingResponse} (hr : s.responses t = some r)
    (howed : r.phase.owed = some o) {phase : ResponsePhase}
    (hresponses : s'.responses = (s.setPhase t r phase).responses) : s'.Underway id := by
  apply h.advance hr hresponses
  intro _ hunderway
  cases hunderway.owed.symm.trans howed

/-- A response that is read and finds its request is under way to it. -/
theorem underway_receive (hlocked : s.Locked) (frameId : LsRequestId) (o : Nat)
    (hresponses : s'.responses = (s.setPhase s.nextResponse ⟨frameId, o, .parsing⟩ .parsing).responses) :
    s'.Underway frameId ∧ ∀ id, s.Underway id → s'.Underway id := by
  constructor
  · refine ⟨s.nextResponse, ⟨frameId, o, .parsing⟩, ?_, rfl, .inl rfl⟩
    rw [hresponses, setPhase_responses, if_pos rfl]
  · intro id h
    obtain ⟨t, r, hr, hid, hunderway⟩ := h
    refine ⟨t, r, ?_, hid, hunderway⟩
    rw [hresponses, setPhase_responses, if_neg, hr]
    intro ht
    rw [ht, hlocked.unknown] at hr
    cases hr

/-- The second lookup of `parseAndClassify` finds the request again. -/
theorem catchParseError_of_entry {t o : Nat} {r : IncomingResponse} (hentry : s.table.getRequestInfo r.id = some o)
    (hvalue : r.id.hasValue = true) : s.catchParseError t r = s.setPhase t r (.parsed r.id o) := by
  rw [catchParseError, hentry]
  simp [hvalue]

theorem Underway.parseThrows {t : Nat} (h : s.Underway id) (hkeyed : s.Keyed) {o : Nat}
    (hentry : s.table.getRequestInfo id = some o) (hstep : step (.parseThrows t) s = some s') : s'.Underway id := by
  obtain ⟨r, hr, hphase, hcases⟩ := step_parseThrows hstep
  by_cases hid : r.id = id
  · subst hid
    obtain ⟨info, hinfo, hinfoId⟩ := hkeyed.held t r hr
    have hvalue : r.id.hasValue = true := hinfoId ▸ (hkeyed.written _ info hinfo).hasValue
    have heq : s' = s.setPhase t r (.parsed r.id o) := by
      rw [PendingState.step, hr, Option.bind_some, if_pos hphase, catchParseError_of_entry hentry hvalue] at hstep
      exact (Option.some.inj hstep).symm
    rw [hkeyed.holder hr hentry] at heq
    exact h.advance hr (congrArg PendingState.responses heq) fun _ _ => .inr (.inl rfl)
  · rcases hcases with rfl | ⟨o', -, rfl⟩
    · exact h.advance hr rfl fun hsame => absurd hsame hid
    · exact h.advance hr rfl fun hsame => absurd hsame hid

theorem Underway.route {t : Nat} (h : s.Underway id) (hquit : s.quit = false)
    (hstep : step (.route t) s = some s') : s'.Underway id := by
  obtain ⟨r, msgId, o, hr, hphase, -⟩ := step_route hstep
  rw [PendingState.step, hr, Option.bind_some, hphase, hquit] at hstep
  obtain rfl := Option.some.inj hstep
  apply h.advance hr rfl
  intro _ hunderway
  obtain h | h | h | h := hunderway
  all_goals cases hphase.symm.trans h
  exact .inr (.inr (.inr rfl))

/-- The response that finds its request in the table takes it out. -/
theorem Underway.remove {t : Nat} (h : s.Underway id) (hkeyed : s.Keyed) {o : Nat}
    (hentry : s.table.getRequestInfo id = some o) (hentry' : s'.table.getRequestInfo id = some o)
    (hstep : step (.remove t) s = some s') : s'.Underway id := by
  obtain ⟨r, msgId, o', hr, hphase, hcases⟩ := step_remove hstep
  have hother : r.id = id → ¬r.Underway := by
    intro hid hunderway
    subst hid
    obtain h | h | h | h := hunderway
    all_goals cases hphase.symm.trans h
    rw [hkeyed.holder hr hentry] at hentry
    have hremoved : s.table.removeExpected r.id r.heldBy = some (s.table.removeRequestInfo r.id) := if_pos hentry
    rw [PendingState.step, hr, Option.bind_some, hphase] at hstep
    simp only [hremoved] at hstep
    obtain rfl := Option.some.inj hstep
    have hnone : (s.table.removeRequestInfo r.id).getRequestInfo r.id = none := by
      rw [PendingTable.getRequestInfo_removeRequestInfo, if_pos rfl]
    cases hnone.symm.trans hentry'
  rcases hcases with rfl | ⟨-, rfl⟩
  · exact h.advance hr rfl fun hid hunderway => absurd hunderway (hother hid)
  · exact h.advance hr rfl fun hid hunderway => absurd hunderway (hother hid)

/-- While its request is in the table a response stays under way. -/
theorem Underway.step {a : PendingAction} (h : s.Underway id) (hkeyed : s.Keyed) (hlocked : s.Locked)
    (hrunning : s.Running) (ha : a ≠ .stop)
    (hparsed : ∀ t msgId, a = .parsed t msgId → ∀ r, s.responses t = some r → msgId = r.id) {o : Nat}
    (hentry : s.table.getRequestInfo id = some o) (hentry' : s'.table.getRequestInfo id = some o)
    (hstep : PendingState.step a s = some s') : s'.Underway id := by
  cases a with
  | sendBegin =>
      obtain ⟨-, ⟨-, rfl⟩ | ⟨-, rfl⟩⟩ := step_sendBegin hstep
      · exact h.congr rfl
      · exact h
  | sendRegister =>
      obtain ⟨_, _, -, rfl | ⟨_, _, -, rfl⟩⟩ := step_sendRegister hstep
      · exact h.congr rfl
      · exact h.congr rfl
  | sendReturn =>
      obtain ⟨_, _, -, -, rfl⟩ := step_sendReturn hstep
      exact h.congr rfl
  | sendThrow =>
      obtain ⟨_, _, -, -, rfl⟩ := step_sendThrow hstep
      exact h.congr rfl
  | receive frameId =>
      obtain rfl | ⟨holder, -, rfl⟩ := step_receive hstep
      · exact h
      · exact (underway_receive hlocked frameId holder rfl).2 id h
  | parsed t msgId =>
      obtain ⟨r, hr, -, rfl⟩ := step_parsed hstep
      apply h.advance hr rfl
      intro _ _
      rw [hparsed t msgId rfl r hr]
      exact .inr (.inl rfl)
  | parseThrows t => exact h.parseThrows hkeyed hentry hstep
  | submit t =>
      obtain ⟨r, msgId, o, hr, hphase, -, ⟨hquit, -⟩ | ⟨-, rfl⟩⟩ := step_submit hstep
      · cases hquit.symm.trans hrunning.quit
      · apply h.advance hr rfl
        intro _ hunderway
        obtain h | h | h | h := hunderway
        all_goals cases hphase.symm.trans h
        exact .inr (.inr (.inl rfl))
  | route t => exact h.route hrunning.quit hstep
  | remove t => exact h.remove hkeyed hentry hentry' hstep
  | completeNow t =>
      obtain ⟨r, o, hr, hphase, rfl⟩ := step_completeNow hstep
      obtain ⟨_, _, heq, -⟩ := complete_frame s o (some t)
      rw [heq]
      exact h.ofOwed (o := o) hr (by rw [hphase]; rfl) rfl
  | handOff t =>
      obtain ⟨r, o, hr, hphase, ⟨-, rfl⟩ | ⟨-, rfl⟩⟩ := step_handOff hstep
      · exact h.ofOwed (o := o) hr (by rw [hphase]; rfl) rfl
      · exact h.ofOwed (o := o) hr (by rw [hphase]; rfl) rfl
  | post t =>
      obtain ⟨r, o, hr, hphase, rfl⟩ := step_post hstep
      exact h.ofOwed (o := o) hr (by rw [hphase]; rfl) rfl
  | poolBegin =>
      obtain ⟨-, -, rfl⟩ := step_poolBegin hstep
      exact h.congr rfl
  | poolComplete task =>
      obtain ⟨-, rfl⟩ := step_poolComplete hstep
      obtain ⟨_, _, heq, -⟩ := complete_frame s task.request (some task.response)
      rw [heq]
      exact h.congr rfl
  | timeout =>
      obtain ⟨_, -, ⟨rfl, -⟩ | ⟨_, _, -, -, rfl⟩⟩ := step_timeout hstep
      · exact h.congr rfl
      · exact h.congr rfl
  | stop => exact absurd rfl ha

/-- Fresh ids, and no `stop`. -/
def Unstopped (a : PendingAction) (s : PendingState) : Prop := FreshId a s ∧ a ≠ .stop

theorem reachable_running (hs : pendingSystem.ReachableIf Unstopped s) : s.Running := by
  refine hs.invariant Running ?_ fun a s s' h hok hstep => h.step hok.2 hstep
  intro s hinit
  obtain ⟨limits, rfl⟩ := hinit
  exact ⟨rfl, rfl, fun i hi => nomatch hi⟩

/-- An id that is drawn and never was used is not in the table. -/
theorem handsOver_of_freshId {a : PendingAction} (hkeyed : s.Keyed) (hrunning : s.Running) (hfresh : FreshId a s)
    (ha : a ≠ .stop) (haccepted : a = .sendRegister → s'.nextInfo ≠ s.nextInfo)
    (hstep : PendingState.step a s = some s') : HandsOver a s := by
  cases a with
  | sendRegister =>
      intro id deferred hsending hvalue
      obtain ⟨id', deferred', hsending', rfl | ⟨table, accepted, hreg, rfl⟩⟩ := step_sendRegister hstep
      · exact absurd rfl (haccepted rfl)
      · cases hsending.symm.trans hsending'
        obtain ⟨⟨hvalue', -⟩ | ⟨-, rfl⟩, -⟩ := PendingTable.pendingRequest_eq_some hreg
        · cases hvalue.symm.trans hvalue'
        · have hnew := hfresh id (by rw [hsending]; rfl) (table, .kInt s.table.mId) hreg
          apply Option.eq_none_iff_forall_ne_some.mpr
          intro o hentry
          obtain ⟨info, hinfo, hid⟩ := hkeyed.entries _ o hentry
          exact hnew o (hkeyed.bound o info hinfo) info hinfo hid
  | handOff => exact hrunning.quit
  | stop => exact absurd rfl ha
  | _ => trivial

/-- The requests that are not yet completed have their places. -/
theorem reachable_accounted (hs : pendingSystem.ReachableIf Unstopped s) : s.Accounted := by
  induction hs with
  | init hinit =>
      obtain ⟨limits, rfl⟩ := hinit
      exact accounted_init limits
  | @step s s' a hs hok hstep ih =>
      by_cases haccepted : a = .sendRegister → s'.nextInfo ≠ s.nextInfo
      · have hkeyed := reachable_keyed (hs.mono fun _ _ hok => hok.1)
        exact ih.step (reachable_locked hs)
          (handsOver_of_freshId hkeyed (reachable_running hs) hok.1 hok.2 haccepted hstep) hstep
      · push Not at haccepted
        obtain ⟨rfl, hsame⟩ := haccepted
        obtain ⟨_, _, -, rfl | ⟨_, _, -, rfl⟩⟩ := step_sendRegister hstep
        · refine ih.congr rfl (fun _ h => nomatch h) fun _ _ _ hcov => hcov.kept ?_
          apply keepsPlaces_of_same <;> rfl
        · exact absurd hsame (Nat.succ_ne_self _)

end PendingState

end LspCpp

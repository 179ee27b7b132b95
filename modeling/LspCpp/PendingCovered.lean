import LspCpp.PendingStop

/-! What `stop` leaves behind. A request that was sent and not withdrawn is, until its handler has been
invoked, in the table, with the response that took it out, in the handler pool or in the hands of `stop`;
in a run in which no deferred completion is dropped and no request is overwritten none of these places is
left when `stop` has returned. -/

namespace LspCpp

theorem ResponsePhase.inDispatch_of_owed {phase : ResponsePhase} {o : Nat} (h : phase.owed = some o) :
    phase.inDispatch = true := by
  cases phase <;> first | rfl | cases h

namespace PendingState

/-- The places from which a request is still completed, or it has been. -/
inductive Covered (s : PendingState) (o : Nat) (info : PendingRequestInfo) : Prop
  | table (hentry : s.table.getRequestInfo info.id = some o)
  | response (t : Nat) (r : IncomingResponse) (hr : s.responses t = some r) (howed : r.phase.owed = some o)
  | task (c : DeferredCompletion) (hc : c ∈ s.poolQueue ++ s.poolRunning) (hrequest : c.request = o)
  | failing (rest : List Nat) (hphase : s.stopPhase = .failing rest) (hmem : o ∈ rest)
  | completed (hcompleted : info.completed = true)

/-- Its send has returned true or is about to. -/
def Sent (s : PendingState) (o : Nat) (info : PendingRequestInfo) : Prop :=
  info.sent = true ∨ s.sending = some (.registered o)

structure Accounted (s : PendingState) : Prop where
  unsent : ∀ o info, s.sending = some (.registered o) → s.infos o = some info → info.sent = false
  covered : ∀ o info, s.infos o = some info → info.withdrawn = false → s.Sent o info → s.Covered o info

/-- A step that changes no request's record. -/
theorem Accounted.congr {s s' : PendingState} (hinv : Accounted s) (hinfos : s'.infos = s.infos)
    (hsending : ∀ o, s'.sending = some (.registered o) → s.sending = some (.registered o))
    (hcovered : ∀ o info, s.infos o = some info → s.Covered o info → s'.Covered o info) :
    Accounted s' where
  unsent o info ho hinfo := by
    rw [hinfos] at hinfo
    exact hinv.unsent o info (hsending o ho) hinfo
  covered o info hinfo hwithdrawn hsent := by
    rw [hinfos] at hinfo
    exact hcovered o info hinfo (hinv.covered o info hinfo hwithdrawn (hsent.imp_right (hsending o)))

/-- What holds the request under this id in one state holds it in the other. -/
structure KeepsPlaces (s s' : PendingState) (o : Nat) (id : LsRequestId) : Prop where
  table : s.table.getRequestInfo id = some o → s'.table.getRequestInfo id = some o
  response : ∀ t r, s.responses t = some r → r.phase.owed = some o →
    ∃ r', s'.responses t = some r' ∧ r'.phase.owed = some o
  task : ∀ c ∈ s.poolQueue ++ s.poolRunning, c.request = o → c ∈ s'.poolQueue ++ s'.poolRunning
  failing : ∀ rest, s.stopPhase = .failing rest → o ∈ rest → ∃ rest', s'.stopPhase = .failing rest' ∧ o ∈ rest'

/-- A step that touches none of the places. -/
theorem keepsPlaces_of_same {s s' : PendingState} (htable : s'.table = s.table)
    (hresponses : s'.responses = s.responses) (hqueue : s'.poolQueue = s.poolQueue)
    (hrunning : s'.poolRunning = s.poolRunning) (hstop : s'.stopPhase = s.stopPhase) {o : Nat} {id : LsRequestId} :
    s.KeepsPlaces s' o id where
  table hentry := htable ▸ hentry
  response _ r hr howed := ⟨r, hresponses ▸ hr, howed⟩
  task _ hc _ := hqueue ▸ hrunning ▸ hc
  failing rest hphase hmem := ⟨rest, hstop ▸ hphase, hmem⟩

/-- Where the places keep the request it stays covered, also when its record changes. -/
theorem Covered.keep {s s' : PendingState} {o : Nat} {info info' : PendingRequestInfo} (h : s.Covered o info)
    (hid : info'.id = info.id) (hcompleted : info.completed = true → info'.completed = true)
    (hkeeps : s.KeepsPlaces s' o info.id) : s'.Covered o info' := by
  cases h with
  | table hentry => exact .table (hid ▸ hkeeps.table hentry)
  | response t r hr howed =>
      obtain ⟨r', hr', howed'⟩ := hkeeps.response t r hr howed
      exact .response t r' hr' howed'
  | task c hc hrequest => exact .task c (hkeeps.task c hc hrequest) hrequest
  | failing rest hphase hmem =>
      obtain ⟨rest', hphase', hmem'⟩ := hkeeps.failing rest hphase hmem
      exact .failing rest' hphase' hmem'
  | completed hdone => exact .completed (hcompleted hdone)

theorem Covered.kept {s s' : PendingState} {o : Nat} {info : PendingRequestInfo} (h : s.Covered o info)
    (hkeeps : s.KeepsPlaces s' o info.id) : s'.Covered o info :=
  h.keep rfl (fun hdone => hdone) hkeeps

/-- A response that replaces another and owes what that owed. -/
theorem owes_setPhase {s : PendingState} {t : Nat} {r : IncomingResponse} (hr : s.responses t = some r)
    {phase : ResponsePhase} {o : Nat} (howed : r.phase.owed = some o → phase.owed = some o) (t' : Nat)
    (r' : IncomingResponse) (hr' : s.responses t' = some r') (howed' : r'.phase.owed = some o) :
    ∃ r'', (s.setPhase t r phase).responses t' = some r'' ∧ r''.phase.owed = some o := by
  by_cases ht : t' = t
  · obtain rfl := Option.some.inj (hr.symm.trans (ht ▸ hr'))
    exact ⟨_, (setPhase_responses _ _ _ _ _).trans (if_pos ht), howed howed'⟩
  · exact ⟨r', (setPhase_responses _ _ _ _ _).trans (if_neg ht |>.trans hr'), howed'⟩

/-- A response goes on and owes what it owed before. -/
theorem Accounted.proceed {s : PendingState} (hinv : Accounted s) {t : Nat} {r : IncomingResponse}
    (hr : s.responses t = some r) (phase : ResponsePhase) (howed : phase.owed = r.phase.owed)
    (dispatch : Option Nat) : Accounted { s.setPhase t r phase with dispatch := dispatch } := by
  refine hinv.congr rfl (fun _ ho => ho) fun o info _ hcov => hcov.kept
    { table := fun h => h, response := ?_, task := fun _ hc _ => hc,
      failing := fun rest hphase hmem => ⟨rest, hphase, hmem⟩ }
  exact owes_setPhase hr fun howed' => howed.trans howed'

/-- After a completion of a request, it is completed and every other request is as before. -/
theorem complete_infos {s : PendingState} {o o' : Nat} {response : Option Nat} {info' : PendingRequestInfo}
    (h : (s.complete o response).infos o' = some info') :
    ∃ info, s.infos o' = some info ∧ info'.id = info.id ∧ info'.sent = info.sent ∧
      info'.withdrawn = info.withdrawn ∧ (o' = o → info'.completed = true) ∧
      (info.completed = true → info'.completed = true) := by
  rcases complete_cases s o response with ⟨heq, hdone⟩ | ⟨info, hinfo, _, heq⟩
  · rw [heq] at h
    exact ⟨info', h, rfl, rfl, rfl, fun ho => hdone info' (ho ▸ h), fun hc => hc⟩
  · rw [heq] at h
    have h : (if o' = o then _ else s.infos o') = some info' := (setInfo_infos _ _ _ _).symm.trans h
    split_ifs at h with ho
    · obtain rfl := Option.some.inj h
      exact ⟨info, ho ▸ hinfo, rfl, rfl, rfl, fun _ => rfl, fun _ => rfl⟩
    · exact ⟨info', h, rfl, rfl, rfl, fun ho' => absurd ho' ho, fun hc => hc⟩

/-- A completion in a step after which every other request is covered as before. -/
theorem Accounted.complete {s s' : PendingState} (hinv : Accounted s) {o : Nat} {response : Option Nat}
    (hinfos : s'.infos = (s.complete o response).infos) (hsending : s'.sending = s.sending)
    (hcovered : ∀ o' info, o' ≠ o → s.infos o' = some info → s.Covered o' info → s'.Covered o' info) :
    Accounted s' where
  unsent o' info' ho' h := by
    rw [hinfos] at h
    rw [hsending] at ho'
    obtain ⟨info, hinfo, _, hsent, _⟩ := complete_infos h
    exact hsent.trans (hinv.unsent o' info ho' hinfo)
  covered o' info' h hwithdrawn hsent := by
    rw [hinfos] at h
    obtain ⟨info, hinfo, hid, hsent', hwithdrawn', hself, hkeep⟩ := complete_infos h
    by_cases ho : o' = o
    · exact .completed (hself ho)
    · have hcov := hcovered o' info ho hinfo (hinv.covered o' info hinfo (hwithdrawn' ▸ hwithdrawn)
        (hsent.imp (fun h => hsent' ▸ h) fun h => hsending ▸ h))
      refine hcov.keep hid hkeep ?_
      apply keepsPlaces_of_same <;> rfl

theorem Accounted.sendRegister {s : PendingState} (hinv : Accounted s) {id id' : LsRequestId} {deferred : Bool}
    {table : PendingTable} (hreg : s.table.pendingRequest s.limits id s.nextInfo = some (table, id'))
    (hfresh : s.table.getRequestInfo id' = none) :
    Accounted { s.setInfo s.nextInfo { id := id', deferredCallback := deferred } with
      table := table
      nextInfo := s.nextInfo + 1
      sending := some (.registered s.nextInfo) } := by
  obtain ⟨_, htable⟩ := PendingTable.pendingRequest_eq_some hreg
  refine ⟨?_, ?_⟩
  · intro o info ho hinfo
    obtain rfl : s.nextInfo = o := by
      have ho := Option.some.inj ho
      exact SendPhase.registered.inj ho
    have hinfo : (if s.nextInfo = s.nextInfo then _ else s.infos s.nextInfo) = some info :=
      (setInfo_infos _ _ _ _).symm.trans hinfo
    rw [if_pos rfl] at hinfo
    exact (Option.some.inj hinfo) ▸ rfl
  · intro o info hinfo hwithdrawn hsent
    have hinfo : (if o = s.nextInfo then _ else s.infos o) = some info :=
      (setInfo_infos _ _ _ _).symm.trans hinfo
    split_ifs at hinfo with ho
    · obtain rfl := Option.some.inj hinfo
      refine .table ?_
      rw [htable, if_pos rfl, ho]
    · have hsent : info.sent = true := by
        rcases hsent with h | h
        · exact h
        · exact absurd (SendPhase.registered.inj (Option.some.inj h)).symm ho
      refine (hinv.covered o info hinfo hwithdrawn (.inl hsent)).kept
        { table := fun hentry => ?_, response := fun _ r hr howed => ⟨r, hr, howed⟩, task := fun _ hc _ => hc,
          failing := fun rest hphase hmem => ⟨rest, hphase, hmem⟩ }
      rw [htable, if_neg]
      · exact hentry
      · rintro heq
        rw [heq, hfresh] at hentry
        cases hentry

/-- A request is taken out of the table; every other one stays. -/
theorem Covered.ofRemoved {s s' : PendingState} {o o' : Nat} {info : PendingRequestInfo} {id : LsRequestId}
    (h : s.Covered o' info) (hne : o' ≠ o) (hentry : s.table.getRequestInfo id = some o)
    (hkeeps : { s with table := s.table.removeRequestInfo id }.KeepsPlaces s' o' info.id) : s'.Covered o' info := by
  have hkept : { s with table := s.table.removeRequestInfo id }.Covered o' info := by
    refine h.kept
      { table := fun hentry' => ?_, response := fun _ r hr howed => ⟨r, hr, howed⟩, task := fun _ hc _ => hc,
        failing := fun rest hphase hmem => ⟨rest, hphase, hmem⟩ }
    rw [PendingTable.getRequestInfo_removeRequestInfo, if_neg]
    · exact hentry'
    · intro heq
      rw [heq, hentry] at hentry'
      exact hne (Option.some.inj hentry').symm
  exact hkept.kept hkeeps

theorem Accounted.sendReturn {s : PendingState} (hinv : Accounted s) {o : Nat} {info : PendingRequestInfo}
    (hsending : s.sending = some (.registered o)) (hinfo : s.infos o = some info) :
    Accounted { s.setInfo o { info with sent := true } with sending := none } := by
  refine ⟨nofun, fun o' info' h hwithdrawn hsent => ?_⟩
  have h : (if o' = o then _ else s.infos o') = some info' := (setInfo_infos _ _ _ _).symm.trans h
  split_ifs at h with ho
  · obtain rfl := Option.some.inj h
    subst ho
    refine (hinv.covered o' info hinfo hwithdrawn (.inr hsending)).keep rfl (fun hdone => hdone) ?_
    apply keepsPlaces_of_same <;> rfl
  · have hsent : info'.sent = true := hsent.resolve_right nofun
    refine (hinv.covered o' info' h hwithdrawn (.inl hsent)).kept ?_
    apply keepsPlaces_of_same <;> rfl

theorem Accounted.sendThrow {s : PendingState} (hinv : Accounted s) {o : Nat} {info : PendingRequestInfo}
    (hsending : s.sending = some (.registered o)) (hinfo : s.infos o = some info) :
    Accounted { s with table := (s.table.removeExpected info.id o).getD s.table, sending := none } := by
  refine ⟨nofun, fun o' info' h hwithdrawn hsent => ?_⟩
  replace hsent : info'.sent = true := hsent.resolve_right nofun
  have hne : o' ≠ o := by
    rintro rfl
    cases hsent.symm.trans (hinv.unsent o' info' hsending h)
  have hcov := hinv.covered o' info' h hwithdrawn (.inl hsent)
  cases hremoved : s.table.removeExpected info.id o with
  | none =>
      refine hcov.kept ?_
      apply keepsPlaces_of_same <;> rfl
  | some table =>
      obtain ⟨hentry, rfl⟩ := PendingTable.removeExpected_eq_some hremoved
      refine hcov.ofRemoved hne hentry ?_
      apply keepsPlaces_of_same <;> rfl

/-- The request that a timeout finds under the id is withdrawn, every other one stays covered. -/
theorem Accounted.withdraw {s : PendingState} (hinv : Accounted s) {id : LsRequestId} {o : Nat}
    {info : PendingRequestInfo} (hentry : s.table.getRequestInfo id = some o)
    (hinfo : s.infos o = some info) :
    Accounted { s.setInfo o { info with withdrawn := true } with
      table := s.table.removeRequestInfo id } := by
  refine ⟨fun o' info' ho' h => ?_, fun o' info' h hwithdrawn hsent => ?_⟩ <;>
    replace h : (if o' = o then _ else s.infos o') = some info' := (setInfo_infos _ _ _ _).symm.trans h <;>
    split_ifs at h with ho
  · obtain rfl := Option.some.inj h
    exact hinv.unsent o' info ho' (ho ▸ hinfo)
  · exact hinv.unsent o' info' ho' h
  · obtain rfl := Option.some.inj h
    cases hwithdrawn
  · refine (hinv.covered o' info' h hwithdrawn hsent).ofRemoved ho hentry ?_
    apply keepsPlaces_of_same <;> rfl

/-- A response takes its request out of the table and owes it from then on. -/
theorem Covered.remove {s : PendingState} {o o' : Nat} {info : PendingRequestInfo} {t : Nat}
    {r : IncomingResponse} {msgId : LsRequestId} (h : s.Covered o' info) (hr : s.responses t = some r)
    (hphase : r.phase = .routed msgId o) (hentry : s.table.getRequestInfo msgId = some o) :
    { s.setPhase t r (.removed o) with table := s.table.removeRequestInfo msgId }.Covered o' info := by
  by_cases hne : o' = o
  · refine .response t { r with phase := .removed o } ?_ (by rw [hne]; rfl)
    exact (setPhase_responses _ _ _ _ _).trans (if_pos rfl)
  · refine h.ofRemoved hne hentry
      { table := fun h => h, response := owes_setPhase hr fun howed => ?_, task := fun _ hc _ => hc,
        failing := fun rest hphase hmem => ⟨rest, hphase, hmem⟩ }
    rw [hphase] at howed
    cases howed

/-- A response that is done owes nothing any more; what it owed is completed or in the handler pool. -/
theorem Covered.ofDone {s s' : PendingState} {o o' : Nat} {info : PendingRequestInfo} {t : Nat}
    {r : IncomingResponse} (h : s.Covered o' info) (hr : s.responses t = some r)
    (howed : r.phase.owed = some o) (hne : o' ≠ o)
    (hresponses : s'.responses = (s.setPhase t r .done).responses) (htable : s'.table = s.table)
    (hqueue : ∀ c ∈ s.poolQueue, c ∈ s'.poolQueue) (hrunning : s'.poolRunning = s.poolRunning)
    (hstop : s'.stopPhase = s.stopPhase) : s'.Covered o' info := by
  refine h.kept ⟨fun hentry => htable ▸ hentry, fun t' r' hr' howed' => ?_, fun c hc _ => ?_,
    fun rest hphase hmem => ⟨rest, hstop ▸ hphase, hmem⟩⟩
  · rw [hresponses]
    refine owes_setPhase hr (fun howed' => ?_) t' r' hr' howed'
    exact absurd (Option.some.inj (howed'.symm.trans howed)) hne
  · rw [hrunning]
    exact List.mem_append.mpr ((List.mem_append.mp hc).imp_left (hqueue c))

/-- A task that is taken out of the handler pool covers no request but its own. -/
theorem Covered.ofTask {s s' : PendingState} {o' : Nat} {info : PendingRequestInfo} {task : DeferredCompletion}
    (h : s.Covered o' info) (hne : o' ≠ task.request) (hresponses : s'.responses = s.responses)
    (htable : s'.table = s.table) (hqueue : s'.poolQueue = s.poolQueue)
    (hrunning : s'.poolRunning = s.poolRunning.erase task) (hstop : s'.stopPhase = s.stopPhase) :
    s'.Covered o' info := by
  refine h.kept ⟨fun hentry => htable ▸ hentry, fun t r hr howed => ⟨r, hresponses ▸ hr, howed⟩,
    fun c hc hrequest => ?_, fun rest hphase hmem => ⟨rest, hstop ▸ hphase, hmem⟩⟩
  rw [hqueue, hrunning]
  refine List.mem_append.mpr ((List.mem_append.mp hc).imp_right fun hc => ?_)
  refine (List.mem_erase_of_ne ?_).mpr hc
  rintro rfl
  exact hne hrequest.symm

theorem Accounted.stop {s s' : PendingState} (hinv : Accounted s) (h : step .stop s = some s') :
    Accounted s' := by
  have hother : ∀ s'' : PendingState, s''.infos = s.infos → s''.sending = s.sending → s''.table = s.table →
      s''.responses = s.responses → s''.poolQueue = s.poolQueue → s''.poolRunning = s.poolRunning →
      (∀ o rest, s.stopPhase = .failing rest → o ∉ rest) → Accounted s'' := by
    intro s'' hinfos hsending htable hresponses hqueue hrunning hphase
    refine hinv.congr hinfos (fun _ ho => hsending ▸ ho) fun o info _ hcov => ?_
    exact hcov.kept ⟨fun hentry => htable ▸ hentry, fun t r hr howed => ⟨r, hresponses ▸ hr, howed⟩,
      fun c hc _ => hqueue ▸ hrunning ▸ hc, fun rest hrest hmem => absurd hmem (hphase o rest hrest)⟩
  obtain ⟨hphase, rfl⟩ | ⟨hphase, _, rfl⟩ | ⟨hphase, rfl⟩ | ⟨hphase, _, rfl⟩ | ⟨hphase, rfl⟩ |
    ⟨o, rest, hphase, rfl⟩ | ⟨hphase, rfl⟩ | ⟨hphase, rfl⟩ := step_stop h
  case inr.inr.inr.inr.inl =>
    refine hinv.congr rfl (fun _ ho => ho) fun o info _ hcov => ?_
    cases hcov with
    | table hentry => exact .failing _ rfl (PendingTable.mem_takeAll hentry)
    | response t r hr howed => exact .response t r hr howed
    | task c hc hrequest => exact .task c hc hrequest
    | failing rest hrest hmem => cases hphase.symm.trans hrest
    | completed hcompleted => exact .completed hcompleted
  case inr.inr.inr.inr.inr.inl =>
    refine hinv.complete rfl ?_ fun o' info hne _ hcov => ?_
    all_goals obtain ⟨infos, log, heq, _⟩ := complete_frame s o none
    all_goals rw [heq]
    refine hcov.kept ⟨fun h => h, fun _ r hr howed => ⟨r, hr, howed⟩, fun _ hc _ => hc, fun rest' hrest hmem => ?_⟩
    obtain rfl := StopPhase.failing.inj (hphase.symm.trans hrest)
    exact ⟨rest, rfl, (List.mem_cons.mp hmem).resolve_left hne⟩
  all_goals
    refine hother _ rfl rfl rfl rfl rfl rfl fun o rest hrest hmem => ?_
    cases hphase.symm.trans hrest <;> cases hmem

theorem Accounted.step {s s' : PendingState} {a : PendingAction} (hinv : Accounted s) (hlocked : Locked s)
    (hok : HandsOver a s) (h : step a s = some s') : Accounted s' := by
  cases a with
  | sendBegin id deferred =>
      obtain ⟨_, ⟨_, rfl⟩ | ⟨_, rfl⟩⟩ := step_sendBegin h
      · refine hinv.congr rfl nofun fun _ _ _ hcov => hcov.kept ?_
        apply keepsPlaces_of_same <;> rfl
      · exact hinv
  | sendRegister =>
      obtain ⟨id, deferred, hsending, rfl | ⟨table, id', hreg, rfl⟩⟩ := step_sendRegister h
      · refine hinv.congr rfl nofun fun _ _ _ hcov => hcov.kept ?_
        apply keepsPlaces_of_same <;> rfl
      · refine hinv.sendRegister hreg ?_
        obtain ⟨⟨_, hnone, rfl⟩ | ⟨hvalue, rfl⟩, _⟩ := PendingTable.pendingRequest_eq_some hreg
        · exact hnone
        · exact hok id deferred hsending hvalue
  | sendReturn =>
      obtain ⟨o, info, hsending, hinfo, rfl⟩ := step_sendReturn h
      exact hinv.sendReturn hsending hinfo
  | sendThrow =>
      obtain ⟨o, info, hsending, hinfo, rfl⟩ := step_sendThrow h
      exact hinv.sendThrow hsending hinfo
  | receive id =>
      obtain rfl | ⟨o, _, rfl⟩ := step_receive h
      · exact hinv
      · refine hinv.congr rfl (fun _ ho => ho) fun o' info _ hcov => hcov.kept
          { table := fun h => h, response := fun t r hr howed => ?_, task := fun _ hc _ => hc,
            failing := fun rest hphase hmem => ⟨rest, hphase, hmem⟩ }
        refine ⟨r, (setPhase_responses _ _ _ _ _).trans (if_neg ?_ |>.trans hr), howed⟩
        rintro rfl
        cases hlocked.unknown.symm.trans hr
  | parsed t msgId =>
      obtain ⟨r, hr, hphase, rfl⟩ := step_parsed h
      exact hinv.proceed hr (.parsed msgId r.heldBy) (by rw [hphase]; rfl) _
  | parseThrows t =>
      obtain ⟨r, hr, hphase, rfl | ⟨o, _, rfl⟩⟩ := step_parseThrows h
      · exact hinv.proceed hr .done (by rw [hphase]; rfl) _
      · exact hinv.proceed hr (.parsed r.id o) (by rw [hphase]; rfl) _
  | submit t =>
      obtain ⟨r, msgId, o, hr, hphase, _, ⟨_, rfl⟩ | ⟨_, rfl⟩⟩ := step_submit h
      · exact hinv.proceed hr .done (by rw [hphase]; rfl) _
      · exact hinv.proceed hr (.submitted msgId o) (by rw [hphase]; rfl) _
  | route t =>
      obtain ⟨r, msgId, o, hr, hphase, rfl | rfl⟩ := step_route h
      · exact hinv.proceed hr .done (by rw [hphase]; rfl) _
      · exact hinv.proceed hr (.routed msgId o) (by rw [hphase]; rfl) _
  | remove t =>
      obtain ⟨r, msgId, o, hr, hphase, rfl | ⟨hentry, rfl⟩⟩ := step_remove h
      · exact hinv.proceed hr .done (by rw [hphase]; rfl) _
      · exact hinv.congr rfl (fun _ ho => ho) fun _ _ _ hcov => hcov.remove hr hphase hentry
  | completeNow t =>
      obtain ⟨r, o, hr, hphase, rfl⟩ := step_completeNow h
      refine hinv.complete rfl ?_ fun o' info hne _ hcov => ?_
      all_goals obtain ⟨infos, log, heq, _⟩ := complete_frame s o (some t)
      all_goals rw [heq]
      · rfl
      · exact hcov.ofDone hr (by rw [hphase]; rfl) hne rfl rfl (fun _ hc => hc) rfl rfl
  | handOff t =>
      obtain ⟨r, o, hr, hphase, ⟨hquit, rfl⟩ | ⟨_, rfl⟩⟩ := step_handOff h
      · cases hquit.symm.trans hok
      · exact hinv.proceed hr (.posting o) (by rw [hphase]; rfl) _
  | post t =>
      obtain ⟨r, o, hr, hphase, rfl⟩ := step_post h
      refine hinv.congr rfl (fun _ ho => ho) fun o' info _ hcov => ?_
      by_cases hne : o' = o
      · exact .task ⟨o, t⟩ (List.mem_append_left _ (List.mem_append_right _ (List.mem_singleton.mpr rfl))) hne.symm
      · exact hcov.ofDone hr (by rw [hphase]; rfl) hne rfl rfl (fun _ hc => List.mem_append_left _ hc) rfl rfl
  | poolBegin task =>
      obtain ⟨_, _, rfl⟩ := step_poolBegin h
      refine hinv.congr rfl (fun _ ho => ho) fun o' info _ hcov => hcov.kept
        { table := fun h => h, response := fun _ r hr howed => ⟨r, hr, howed⟩, task := fun c hc _ => ?_,
          failing := fun rest hphase hmem => ⟨rest, hphase, hmem⟩ }
      by_cases hc' : c = task
      · exact List.mem_append_right _ (List.mem_cons.mpr (.inl hc'))
      · rcases List.mem_append.mp hc with hc | hc
        · exact List.mem_append_left _ ((List.mem_erase_of_ne hc').mpr hc)
        · exact List.mem_append_right _ (List.mem_cons_of_mem _ hc)
  | poolComplete task =>
      obtain ⟨_, rfl⟩ := step_poolComplete h
      refine hinv.complete rfl ?_ fun o' info hne _ hcov => ?_
      all_goals obtain ⟨infos, log, heq, _⟩ := complete_frame s task.request (some task.response)
      all_goals rw [heq]
      · exact hcov.ofTask hne rfl rfl rfl rfl rfl
  | timeout o =>
      obtain ⟨info, _, ⟨rfl, hnone⟩ | ⟨o', info', hentry, hinfo', rfl⟩⟩ := step_timeout h
      · refine hinv.congr rfl (fun _ ho => ho) fun o' info' hinfo' hcov => ?_
        cases hentry : s.table.getRequestInfo info.id with
        | none =>
            refine hcov.kept
              { table := fun hentry' => ?_, response := fun _ r hr howed => ⟨r, hr, howed⟩, task := fun _ hc _ => hc,
                failing := fun rest hphase hmem => ⟨rest, hphase, hmem⟩ }
            rw [PendingTable.getRequestInfo_removeRequestInfo, if_neg]
            · exact hentry'
            · intro heq
              rw [heq, hentry] at hentry'
              cases hentry'
        | some o'' =>
            refine hcov.ofRemoved ?_ hentry ?_
            · rintro rfl
              cases hinfo'.symm.trans (hnone _ hentry)
            · apply keepsPlaces_of_same <;> rfl
      · exact hinv.withdraw hentry hinfo'
  | stop => exact hinv.stop h

theorem accounted_init (limits : RemoteEndPointLimits) : Accounted { limits := limits } where
  unsent _ _ h := by cases h
  covered _ _ h := by cases h

/-- Once `stop` has returned and no task of the handler pool runs, every request that was sent and that no
timeout has withdrawn has had its handler invoked exactly once. -/
def StopCompletes (s : PendingState) : Prop :=
  s.stopPhase = .returned → s.poolRunning = [] → ∀ o info, s.infos o = some info → info.sent = true →
    info.withdrawn = false → s.timesInvoked o = 1

/-- **`stop` completes every outgoing request** in every run in which no deferred completion reaches its
hand-off after `quit` is set or is still queued when the handler pool is stopped, and no request without
an id draws one that is pending. -/
theorem stopCompletes_of_handsOver (s : PendingState) (hs : pendingSystem.ReachableIf HandsOver s) :
    StopCompletes s := by
  intro hreturned hidle o info hinfo hsent hwithdrawn
  have hlocked := reachable_locked hs
  have hstopping := reachable_stopping hs
  have haccounted : Accounted s := by
    refine hs.invariant_of Locked Accounted (fun _ => reachable_locked) ?_
      fun a s s' hlocked hinv hok h => hinv.step hlocked hok h
    rintro s ⟨limits, rfl⟩
    exact accounted_init limits
  have hrank : s.stopPhase.rank = 7 := by
    rw [hreturned]
    rfl
  have hcompleted : info.completed = true := by
    cases haccounted.covered o info hinfo hwithdrawn (.inl hsent) with
    | table hentry => cases hentry.symm.trans (hstopping.emptied (by omega) info.id)
    | response t r hr howed =>
        have hheld := hlocked.holder t r hr (ResponsePhase.inDispatch_of_owed howed)
        cases hheld.symm.trans (hstopping.cleared (by omega))
    | task c hc hrequest =>
        rw [hidle, hstopping.stopped (by omega)] at hc
        cases hc
    | failing rest hphase hmem => cases hphase.symm.trans hreturned
    | completed hcompleted => exact hcompleted
  rw [(reachable_counted hs).count o info hinfo, if_pos hcompleted]

/-- One request of each policy is answered and a third is pending when `stop` is called. -/
def answeredRun : List PendingAction :=
  [.sendBegin .kNone true, .sendRegister, .sendReturn, .sendBegin (.kInt 5) false, .sendRegister, .sendReturn,
    .sendBegin (.kString "x") true, .sendRegister, .sendReturn, .receive (.kInt 0), .receive (.kInt 5),
    .parsed 0 (.kInt 0), .parsed 1 (.kInt 5), .submit 0, .route 0, .remove 0, .handOff 0, .post 0, .submit 1,
    .route 1, .remove 1, .stop, .completeNow 1, .stop, .poolBegin ⟨0, 0⟩, .stop, .stop, .stop, .stop, .stop,
    .stop, .poolComplete ⟨0, 0⟩]

theorem stopCompletes_of_handsOver_answeredRun :
    ∃ s, pendingSystem.runIf HandsOver answeredRun {} = some s ∧ s.stopPhase = .returned ∧
      s.timesInvoked 0 = 1 ∧ s.timesInvoked 1 = 1 ∧ s.timesInvoked 2 = 1 := by
  refine ⟨_, rfl, rfl, ?_⟩
  have hdone := stopCompletes_of_handsOver _ (Transition.System.reachableIf_of_runIf answeredRun
    (.init ⟨{}, rfl⟩) rfl) rfl rfl
  exact ⟨hdone 0 _ rfl rfl rfl, hdone 1 _ rfl rfl rfl, hdone 2 _ rfl rfl rfl⟩

/-- The response of a deferred request is queued in the handler pool when `stop` stops the pool. -/
def queuedRun : List PendingAction :=
  [.sendBegin .kNone true, .sendRegister, .sendReturn, .receive (.kInt 0), .parsed 0 (.kInt 0), .submit 0, .route 0,
    .remove 0, .handOff 0, .post 0, .stop, .stop, .stop, .stop, .stop, .stop, .stop]

theorem queuedRun_drops_completion :
    ∃ s, pendingSystem.run queuedRun {} = some s ∧ ¬StopCompletes s := by
  refine ⟨_, rfl, fun hdone => ?_⟩
  exact absurd (hdone rfl rfl 0 ⟨.kInt 0, true, false, true, false⟩ rfl rfl rfl) (by decide)

end PendingState

end LspCpp

import LspCpp.PendingTable

/-! What holds of the pending requests in every run: a handler is invoked when the flag of its request is
set and at no other time, and one response at a time is inside the dispatch lock. -/

namespace LspCpp

namespace PendingState

/-- The handlers' invocations against the flags of the requests. -/
structure Counted (s : PendingState) : Prop where
  bound : ∀ o info, s.infos o = some info → o < s.nextInfo
  unknown : ∀ o, s.infos o = none → s.timesInvoked o = 0
  count : ∀ o info, s.infos o = some info → s.timesInvoked o = if info.completed then 1 else 0

/-- A request is marked, and not as completed. -/
theorem Counted.mark {s s' : PendingState} (hinv : Counted s) {o : Nat} {info : PendingRequestInfo}
    (hinfo : s.infos o = some info) (info' : PendingRequestInfo) (hsame : info'.completed = info.completed)
    (hinfos : s'.infos = (s.setInfo o info').infos) (hnext : s'.nextInfo = s.nextInfo)
    (hlog : s'.invocations = s.invocations) : Counted s' where
  bound o' q h := by
    rw [hinfos, setInfo_infos] at h
    rw [hnext]
    split_ifs at h with ho
    · exact ho ▸ hinv.bound o info hinfo
    · exact hinv.bound o' q h
  unknown o' h := by
    rw [hinfos, setInfo_infos] at h
    rw [timesInvoked, hlog]
    split_ifs at h with ho
    exact hinv.unknown o' h
  count o' q h := by
    rw [hinfos, setInfo_infos] at h
    rw [timesInvoked, hlog]
    split_ifs at h with ho
    · rw [← Option.some.inj h, hsame, ho]
      exact hinv.count o info hinfo
    · exact hinv.count o' q h

theorem Counted.complete {s : PendingState} (hinv : Counted s) (o : Nat) (response : Option Nat) :
    Counted (s.complete o response) := by
  rcases complete_cases s o response with ⟨heq, _⟩ | ⟨info, hinfo, hnot, heq⟩
  · rw [heq]
    exact hinv
  · have hzero : s.timesInvoked o = 0 := by
      rw [hinv.count o info hinfo, if_neg (by simp [hnot])]
    have hcons : ∀ o', (s.complete o response).timesInvoked o' =
        s.timesInvoked o' + if o = o' then 1 else 0 := by
      intro o'
      simp [heq, timesInvoked, List.countP_cons]
    refine ⟨?_, ?_, ?_⟩
    · intro o' q h
      rw [heq] at h ⊢
      have h : (if o' = o then _ else s.infos o') = some q := (setInfo_infos _ _ _ _).symm.trans h
      split_ifs at h with ho
      · exact ho ▸ hinv.bound o info hinfo
      · exact hinv.bound o' q h
    · intro o' h
      rw [hcons]
      rw [heq] at h
      have h : (if o' = o then _ else s.infos o') = none := (setInfo_infos _ _ _ _).symm.trans h
      split_ifs at h with ho
      rw [if_neg (Ne.symm ho), hinv.unknown o' h]
    · intro o' q h
      rw [hcons]
      rw [heq] at h
      have h : (if o' = o then _ else s.infos o') = some q := (setInfo_infos _ _ _ _).symm.trans h
      split_ifs at h with ho
      · obtain rfl := Option.some.inj h
        rw [ho, hzero, if_pos rfl, if_pos rfl]
      · rw [if_neg (Ne.symm ho), hinv.count o' q h, Nat.add_zero]

theorem Counted.step {s s' : PendingState} {a : PendingAction} (hinv : Counted s)
    (h : step a s = some s') : Counted s' := by
  cases a with
  | sendBegin id deferred =>
      obtain ⟨_, ⟨_, rfl⟩ | ⟨_, rfl⟩⟩ := step_sendBegin h
      · exact { hinv with }
      · exact hinv
  | sendRegister =>
      obtain ⟨id, deferred, _, rfl | ⟨table, id', _, rfl⟩⟩ := step_sendRegister h
      · exact { hinv with }
      · have hnone : s.infos s.nextInfo = none := by
          by_contra hsome
          obtain ⟨q, hq⟩ := Option.ne_none_iff_exists'.mp hsome
          exact Nat.lt_irrefl _ (hinv.bound _ q hq)
        refine ⟨?_, ?_, ?_⟩
        · intro o q hq
          have hq : (if o = s.nextInfo then _ else s.infos o) = some q :=
            (setInfo_infos _ _ _ _).symm.trans hq
          split_ifs at hq with ho
          · exact ho ▸ Nat.lt_succ_self _
          · exact Nat.lt_succ_of_lt (hinv.bound o q hq)
        · intro o hq
          have hq : (if o = s.nextInfo then _ else s.infos o) = none :=
            (setInfo_infos _ _ _ _).symm.trans hq
          split_ifs at hq with ho
          exact hinv.unknown o hq
        · intro o q hq
          have hq : (if o = s.nextInfo then _ else s.infos o) = some q :=
            (setInfo_infos _ _ _ _).symm.trans hq
          split_ifs at hq with ho
          · rw [← Option.some.inj hq, ho]
            exact hinv.unknown _ hnone
          · exact hinv.count o q hq
  | sendReturn =>
      obtain ⟨o, info, _, hinfo, rfl⟩ := step_sendReturn h
      exact hinv.mark hinfo { info with sent := true } rfl rfl rfl rfl
  | sendThrow =>
      obtain ⟨o, info, _, _, rfl⟩ := step_sendThrow h
      exact { hinv with }
  | receive id =>
      obtain rfl | ⟨o, _, rfl⟩ := step_receive h
      · exact hinv
      · exact { hinv with }
  | parsed t msgId =>
      obtain ⟨r, _, _, rfl⟩ := step_parsed h
      exact { hinv with }
  | parseThrows t =>
      obtain ⟨r, _, _, rfl | ⟨o, _, rfl⟩⟩ := step_parseThrows h <;> exact { hinv with }
  | submit t =>
      obtain ⟨r, msgId, o, _, _, _, ⟨_, rfl⟩ | ⟨_, rfl⟩⟩ := step_submit h <;>
        exact { hinv with }
  | route t =>
      obtain ⟨r, msgId, o, _, _, rfl | rfl⟩ := step_route h <;> exact { hinv with }
  | remove t =>
      obtain ⟨r, msgId, o, _, _, rfl | ⟨_, rfl⟩⟩ := step_remove h <;> exact { hinv with }
  | completeNow t =>
      obtain ⟨r, o, _, _, rfl⟩ := step_completeNow h
      exact { hinv.complete o (some t) with }
  | handOff t =>
      obtain ⟨r, o, _, _, ⟨_, rfl⟩ | ⟨_, rfl⟩⟩ := step_handOff h <;> exact { hinv with }
  | post t =>
      obtain ⟨r, o, _, _, rfl⟩ := step_post h
      exact { hinv with }
  | poolBegin task =>
      obtain ⟨_, _, rfl⟩ := step_poolBegin h
      exact { hinv with }
  | poolComplete task =>
      obtain ⟨_, rfl⟩ := step_poolComplete h
      exact { hinv.complete task.request (some task.response) with }
  | timeout o =>
      obtain ⟨info, _, ⟨rfl, _⟩ | ⟨o', info', _, hinfo', rfl⟩⟩ := step_timeout h
      · exact { hinv with }
      · exact hinv.mark hinfo' { info' with withdrawn := true } rfl rfl rfl rfl
  | stop =>
      obtain ⟨_, rfl⟩ | ⟨_, _, rfl⟩ | ⟨_, rfl⟩ | ⟨_, _, rfl⟩ | ⟨_, rfl⟩ | ⟨o, rest, _, rfl⟩ | ⟨_, rfl⟩ |
        ⟨_, rfl⟩ := step_stop h
      case inr.inr.inr.inr.inr.inl => exact { hinv.complete o none with }
      all_goals exact { hinv with }

theorem counted_init (limits : RemoteEndPointLimits) : Counted { limits := limits } where
  bound _ _ h := by cases h
  unknown _ _ := rfl
  count _ _ h := by cases h

/-- Only the response that holds the dispatch lock is inside `submitParsedMessage`. -/
structure Locked (s : PendingState) : Prop where
  bound : ∀ t r, s.responses t = some r → t < s.nextResponse
  holder : ∀ t r, s.responses t = some r → r.phase.inDispatch = true → s.dispatch = some t

theorem Locked.unknown {s : PendingState} (hinv : Locked s) : s.responses s.nextResponse = none := by
  by_contra hsome
  obtain ⟨r, hr⟩ := Option.ne_none_iff_exists'.mp hsome
  exact Nat.lt_irrefl _ (hinv.bound _ r hr)

/-- A response goes on; the lock is held by a response only if it was or the response takes it. -/
theorem Locked.advance {s : PendingState} (hinv : Locked s) {t : Nat} {r : IncomingResponse}
    (hr : s.responses t = some r) {phase : ResponsePhase} {dispatch : Option Nat}
    (hself : phase.inDispatch = true → dispatch = some t)
    (hothers : ∀ t', t' ≠ t → s.dispatch = some t' → dispatch = some t') :
    Locked { s.setPhase t r phase with dispatch := dispatch } := by
  refine ⟨fun t' r' hr' => ?_, fun t' r' hr' hin => ?_⟩ <;>
    replace hr' := (setPhase_responses s t t' r phase).symm.trans hr' <;> split_ifs at hr' with ht
  · exact ht ▸ hinv.bound t r hr
  · exact hinv.bound t' r' hr'
  · obtain rfl := Option.some.inj hr'
    exact ht ▸ hself hin
  · exact hothers t' ht (hinv.holder t' r' hr' hin)

/-- A response goes on without taking or releasing the lock. -/
theorem Locked.proceed {s : PendingState} (hinv : Locked s) {t : Nat} {r : IncomingResponse}
    (hr : s.responses t = some r) {phase : ResponsePhase}
    (hphase : phase.inDispatch = true → r.phase.inDispatch = true) : Locked (s.setPhase t r phase) :=
  hinv.advance hr (fun hin => hinv.holder t r hr (hphase hin)) fun _ _ h => h

theorem Locked.enter {s : PendingState} (hinv : Locked s) (hfree : s.dispatch = none) {t : Nat}
    {r : IncomingResponse} (hr : s.responses t = some r) {phase : ResponsePhase} :
    Locked { s.setPhase t r phase with dispatch := some t } :=
  hinv.advance hr (fun _ => rfl) fun _ _ h => by cases hfree.symm.trans h

theorem Locked.leave {s : PendingState} (hinv : Locked s) {t : Nat} {r : IncomingResponse}
    (hr : s.responses t = some r) (hin : r.phase.inDispatch = true) {dispatch : Option Nat} :
    Locked { s.setPhase t r .done with dispatch := dispatch } :=
  hinv.advance hr nofun fun _ ht h => absurd (Option.some.inj (h.symm.trans (hinv.holder t r hr hin))) ht

theorem Locked.receive {s : PendingState} (hinv : Locked s) (id : LsRequestId) (o : Nat) :
    Locked { s.setPhase s.nextResponse ⟨id, o, .parsing⟩ .parsing with
      nextResponse := s.nextResponse + 1 } := by
  refine ⟨fun t r hr => ?_, fun t r hr hin => ?_⟩
  all_goals
    have hr : (if t = s.nextResponse then _ else s.responses t) = some r :=
      (setPhase_responses _ _ _ _ _).symm.trans hr
    split_ifs at hr with ht
  · exact ht ▸ Nat.lt_succ_self _
  · exact Nat.lt_succ_of_lt (hinv.bound t r hr)
  · obtain rfl := Option.some.inj hr
    cases hin
  · exact hinv.holder t r hr hin

theorem Locked.step {s s' : PendingState} {a : PendingAction} (hinv : Locked s)
    (h : step a s = some s') : Locked s' := by
  cases a with
  | sendBegin id deferred =>
      obtain ⟨_, ⟨_, rfl⟩ | ⟨_, rfl⟩⟩ := step_sendBegin h <;> exact { hinv with }
  | sendRegister =>
      obtain ⟨id, deferred, _, rfl | ⟨table, id', _, rfl⟩⟩ := step_sendRegister h <;>
        exact { hinv with }
  | sendReturn =>
      obtain ⟨o, info, _, _, rfl⟩ := step_sendReturn h
      exact { hinv with }
  | sendThrow =>
      obtain ⟨o, info, _, _, rfl⟩ := step_sendThrow h
      exact { hinv with }
  | receive id =>
      obtain rfl | ⟨o, _, rfl⟩ := step_receive h
      · exact hinv
      · exact hinv.receive id o
  | parsed t msgId =>
      obtain ⟨r, hr, _, rfl⟩ := step_parsed h
      exact hinv.proceed hr nofun
  | parseThrows t =>
      obtain ⟨r, hr, _, rfl | ⟨o, _, rfl⟩⟩ := step_parseThrows h
      · exact hinv.proceed hr nofun
      · exact hinv.proceed hr nofun
  | submit t =>
      obtain ⟨r, msgId, o, hr, _, hfree, ⟨_, rfl⟩ | ⟨_, rfl⟩⟩ := step_submit h
      · exact hinv.proceed hr nofun
      · exact hinv.enter hfree hr
  | route t =>
      obtain ⟨r, msgId, o, hr, hphase, rfl | rfl⟩ := step_route h
      · exact { hinv.leave hr (by rw [hphase]; rfl) with }
      · exact hinv.proceed hr fun _ => by rw [hphase]; rfl
  | remove t =>
      obtain ⟨r, msgId, o, hr, hphase, rfl | ⟨_, rfl⟩⟩ := step_remove h
      · exact { hinv.leave hr (by rw [hphase]; rfl) with }
      · have hremoved : Locked (s.setPhase t r (.removed o)) := hinv.proceed hr fun _ => by rw [hphase]; rfl
        exact { hremoved with }
  | completeNow t =>
      obtain ⟨r, o, hr, hphase, rfl⟩ := step_completeNow h
      obtain ⟨infos, log, heq, _⟩ := complete_frame s o (some t)
      rw [heq]
      exact { hinv.leave hr (by rw [hphase]; rfl) with }
  | handOff t =>
      obtain ⟨r, o, hr, hphase, ⟨_, rfl⟩ | ⟨_, rfl⟩⟩ := step_handOff h
      · exact { hinv.leave hr (by rw [hphase]; rfl) with }
      · exact hinv.proceed hr fun _ => by rw [hphase]; rfl
  | post t =>
      obtain ⟨r, o, hr, hphase, rfl⟩ := step_post h
      exact { hinv.leave hr (by rw [hphase]; rfl) with }
  | poolBegin task =>
      obtain ⟨_, _, rfl⟩ := step_poolBegin h
      exact { hinv with }
  | poolComplete task =>
      obtain ⟨_, rfl⟩ := step_poolComplete h
      obtain ⟨infos, log, heq, _⟩ := complete_frame s task.request (some task.response)
      rw [heq]
      exact { hinv with }
  | timeout o =>
      obtain ⟨info, _, ⟨rfl, _⟩ | ⟨o', info', _, _, rfl⟩⟩ := step_timeout h <;> exact { hinv with }
  | stop =>
      obtain ⟨_, rfl⟩ | ⟨_, _, rfl⟩ | ⟨_, rfl⟩ | ⟨_, _, rfl⟩ | ⟨_, rfl⟩ | ⟨o, rest, _, rfl⟩ | ⟨_, rfl⟩ |
        ⟨_, rfl⟩ := step_stop h
      case inr.inr.inr.inr.inr.inl =>
        obtain ⟨infos, log, heq, _⟩ := complete_frame s o none
        rw [heq]
        exact { hinv with }
      all_goals exact { hinv with }

theorem locked_init (limits : RemoteEndPointLimits) : Locked { limits := limits } where
  bound _ _ h := by cases h
  holder _ _ h := by cases h

theorem reachable_counted {ok : PendingAction → PendingState → Prop} {s : PendingState}
    (hs : pendingSystem.ReachableIf ok s) : Counted s := by
  refine hs.invariant Counted ?_ fun a s s' hinv _ h => hinv.step h
  rintro s ⟨limits, rfl⟩
  exact counted_init limits

theorem reachable_locked {ok : PendingAction → PendingState → Prop} {s : PendingState}
    (hs : pendingSystem.ReachableIf ok s) : Locked s := by
  refine hs.invariant Locked ?_ fun a s s' hinv _ h => hinv.step h
  rintro s ⟨limits, rfl⟩
  exact locked_init limits

end PendingState

end LspCpp

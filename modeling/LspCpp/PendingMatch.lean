import LspCpp.PendingRuns

/-! A response completes the request it was parsed for. The handler of a request is invoked at most
once in every run; the request that a response completes is the one that held its id when its parsing
began in every run in which the second lookup, after an exception of the parser, does not find another
request under the id. -/

namespace LspCpp

namespace PendingState

/-- What the captured requests rely on: an exception of the parser finds under the id the request that
held it when the parsing began, or none. -/
def FindsSame : PendingAction → PendingState → Prop
  | .parseThrows t, s => ∀ r, s.responses t = some r →
      ∀ o, s.table.getRequestInfo r.id = some o → o = r.heldBy
  | _, _ => True

instance (a : PendingAction) (s : PendingState) : Decidable (FindsSame a s) :=
  match a with
  | .parseThrows t => inferInstanceAs (Decidable (∀ r, s.responses t = some r →
      ∀ o, s.table.getRequestInfo r.id = some o → o = r.heldBy))
  | .sendBegin .. | .sendRegister | .sendReturn | .sendThrow | .receive _ | .parsed .. | .submit _ | .route _
  | .remove _ | .completeNow _ | .handOff _ | .post _ | .poolBegin _ | .poolComplete _ | .timeout _
  | .stop => inferInstanceAs (Decidable True)

/-- Every step of a response, on whatever thread, is about the request that held its id. -/
structure Matched (s : PendingState) : Prop where
  captured : ∀ t r o, s.responses t = some r → r.phase.captured = some o → r.heldBy = o
  tasks : ∀ c ∈ s.poolQueue ++ s.poolRunning, ∃ r, s.responses c.response = some r ∧ r.heldBy = c.request
  log : ∀ i ∈ s.invocations, ∀ t, i.response = some t →
    ∃ r, s.responses t = some r ∧ r.heldBy = i.request

/-- A response goes on to another phase, and what it hands on or completes is its own request. -/
theorem Matched.advance {s s' : PendingState} (hinv : Matched s) {t : Nat} {r : IncomingResponse}
    (hr : s.responses t = some r) (phase : ResponsePhase)
    (hcaptured : phase.captured = none ∨ phase.captured = some r.heldBy)
    (hresponses : s'.responses = (s.setPhase t r phase).responses)
    (htasks : ∀ c ∈ s'.poolQueue ++ s'.poolRunning,
      c ∈ s.poolQueue ++ s.poolRunning ∨ c = ⟨r.heldBy, t⟩)
    (hlog : ∀ i ∈ s'.invocations, i ∈ s.invocations ∨ i = ⟨r.heldBy, some t⟩) : Matched s' := by
  have hself : s'.responses t = some { r with phase := phase } := by
    rw [hresponses, setPhase_responses, if_pos rfl]
  have hkeep : ∀ t' r' o, s.responses t' = some r' → r'.heldBy = o →
      ∃ r'', s'.responses t' = some r'' ∧ r''.heldBy = o := by
    intro t' r' o hr' ho
    by_cases htt : t' = t
    · rw [htt, hr] at hr'
      exact ⟨_, htt ▸ hself, Option.some.inj hr' ▸ ho⟩
    · exact ⟨r', by rw [hresponses, setPhase_responses, if_neg htt, hr'], ho⟩
  refine ⟨?_, ?_, ?_⟩
  · intro t' r' o hr' ho
    rw [hresponses, setPhase_responses] at hr'
    split_ifs at hr' with htt
    · obtain rfl := Option.some.inj hr'
      rcases hcaptured with hcaptured | hcaptured
      · cases hcaptured.symm.trans ho
      · exact Option.some.inj (hcaptured.symm.trans ho)
    · exact hinv.captured t' r' o hr' ho
  · intro c hc
    rcases htasks c hc with hc | rfl
    · obtain ⟨r', hr', ho⟩ := hinv.tasks c hc
      exact hkeep _ r' _ hr' ho
    · exact ⟨_, hself, rfl⟩
  · intro i hi t' ht'
    rcases hlog i hi with hi | rfl
    · obtain ⟨r', hr', ho⟩ := hinv.log i hi t' ht'
      exact hkeep _ r' _ hr' ho
    · obtain rfl := Option.some.inj ht'
      exact ⟨_, hself, rfl⟩

/-- A response goes on and neither hands anything on nor completes a request. -/
theorem Matched.proceed {s : PendingState} (hinv : Matched s) {t : Nat} {r : IncomingResponse}
    (hr : s.responses t = some r) (phase : ResponsePhase)
    (hcaptured : phase.captured = none ∨ phase.captured = r.phase.captured) :
    Matched (s.setPhase t r phase) := by
  refine hinv.advance hr phase ?_ rfl (fun c hc => .inl hc) fun i hi => .inl hi
  cases hphase : phase.captured with
  | none => exact .inl rfl
  | some o =>
      rcases hcaptured with h | h
      · cases hphase.symm.trans h
      · exact .inr (by rw [hinv.captured t r o hr (h.symm.trans hphase)])

theorem Matched.receive {s : PendingState} (hinv : Matched s) (hlocked : Locked s) (id : LsRequestId) (o : Nat) :
    Matched { s.setPhase s.nextResponse ⟨id, o, .parsing⟩ .parsing with
      nextResponse := s.nextResponse + 1 } := by
  have hold : ∀ t r, s.responses t = some r →
      (s.setPhase s.nextResponse ⟨id, o, .parsing⟩ .parsing).responses t = some r := by
    intro t r hr
    rw [setPhase_responses, if_neg, hr]
    rintro rfl
    cases hlocked.unknown.symm.trans hr
  refine ⟨?_, ?_, ?_⟩
  · intro t r o' hr ho'
    have hr : (if t = s.nextResponse then _ else s.responses t) = some r :=
      (setPhase_responses _ _ _ _ _).symm.trans hr
    split_ifs at hr with ht
    · obtain rfl := Option.some.inj hr
      cases ho'
    · exact hinv.captured t r o' hr ho'
  · intro c hc
    obtain ⟨r, hr, ho'⟩ := hinv.tasks c hc
    exact ⟨r, hold _ r hr, ho'⟩
  · intro i hi t ht
    obtain ⟨r, hr, ho'⟩ := hinv.log i hi t ht
    exact ⟨r, hold _ r hr, ho'⟩

theorem Matched.step {s s' : PendingState} {a : PendingAction} (hinv : Matched s) (hlocked : Locked s)
    (hok : FindsSame a s) (h : step a s = some s') : Matched s' := by
  cases a with
  | sendBegin id deferred =>
      obtain ⟨_, ⟨_, rfl⟩ | ⟨_, rfl⟩⟩ := step_sendBegin h
      · exact { hinv with }
      · exact hinv
  | sendRegister =>
      obtain ⟨id, deferred, _, rfl | ⟨table, id', _, rfl⟩⟩ := step_sendRegister h <;>
        exact { hinv with }
  | sendReturn =>
      obtain ⟨o, info, _, hinfo, rfl⟩ := step_sendReturn h
      exact { hinv with }
  | sendThrow =>
      obtain ⟨o, info, _, _, rfl⟩ := step_sendThrow h
      exact { hinv with }
  | receive id =>
      obtain rfl | ⟨o, _, rfl⟩ := step_receive h
      · exact hinv
      · exact hinv.receive hlocked id o
  | parsed t msgId =>
      obtain ⟨r, hr, _, rfl⟩ := step_parsed h
      exact hinv.advance hr (.parsed msgId r.heldBy) (.inr rfl) rfl (fun _ hc => .inl hc)
        (fun _ hi => .inl hi)
  | parseThrows t =>
      obtain ⟨r, hr, _, rfl | ⟨o, ho, rfl⟩⟩ := step_parseThrows h
      · exact { hinv.proceed hr .done (.inl rfl) with }
      · obtain rfl : o = r.heldBy := hok r hr o ho
        exact hinv.advance hr (.parsed r.id r.heldBy) (.inr rfl) rfl (fun _ hc => .inl hc)
          (fun _ hi => .inl hi)
  | submit t =>
      obtain ⟨r, msgId, o, hr, hphase, _, ⟨_, rfl⟩ | ⟨_, rfl⟩⟩ := step_submit h
      · exact { hinv.proceed hr .done (.inl rfl) with }
      · exact { hinv.proceed hr (.submitted msgId o) (.inr (by rw [hphase]; rfl)) with }
  | route t =>
      obtain ⟨r, msgId, o, hr, hphase, rfl | rfl⟩ := step_route h
      · exact { hinv.proceed hr .done (.inl rfl) with }
      · exact { hinv.proceed hr (.routed msgId o) (.inr (by rw [hphase]; rfl)) with }
  | remove t =>
      obtain ⟨r, msgId, o, hr, hphase, rfl | ⟨_, rfl⟩⟩ := step_remove h
      · exact { hinv.proceed hr .done (.inl rfl) with }
      · exact { hinv.proceed hr (.removed o) (.inr (by rw [hphase]; rfl)) with }
  | completeNow t =>
      obtain ⟨r, o, hr, hphase, rfl⟩ := step_completeNow h
      obtain rfl := hinv.captured t r o hr (by rw [hphase]; rfl)
      obtain ⟨infos, log, heq, hlog⟩ := complete_frame s r.heldBy (some t)
      rw [heq]
      exact hinv.advance hr .done (.inl rfl) rfl (fun _ hc => .inl hc) hlog
  | handOff t =>
      obtain ⟨r, o, hr, hphase, ⟨_, rfl⟩ | ⟨_, rfl⟩⟩ := step_handOff h
      · exact { hinv.proceed hr .done (.inl rfl) with }
      · exact { hinv.proceed hr (.posting o) (.inr (by rw [hphase]; rfl)) with }
  | post t =>
      obtain ⟨r, o, hr, hphase, rfl⟩ := step_post h
      obtain rfl := hinv.captured t r o hr (by rw [hphase]; rfl)
      refine hinv.advance hr .done (.inl rfl) rfl (fun c hc => ?_) (fun _ hi => .inl hi)
      simp only [List.mem_append, List.mem_singleton] at hc ⊢
      rcases hc with (hc | hc) | hc
      · exact .inl (.inl hc)
      · exact .inr hc
      · exact .inl (.inr hc)
  | poolBegin task =>
      obtain ⟨hmem, _, rfl⟩ := step_poolBegin h
      refine { hinv with tasks := fun c hc => hinv.tasks c ?_ }
      simp only [List.mem_append, List.mem_cons] at hc ⊢
      rcases hc with hc | rfl | hc
      · exact .inl (List.mem_of_mem_erase hc)
      · exact .inl hmem
      · exact .inr hc
  | poolComplete task =>
      obtain ⟨hmem, rfl⟩ := step_poolComplete h
      obtain ⟨infos, log, heq, hlog⟩ := complete_frame s task.request (some task.response)
      rw [heq]
      refine { hinv with tasks := fun c hc => hinv.tasks c ?_, log := fun i hi t ht => ?_ }
      · rcases List.mem_append.mp hc with hc | hc
        · exact List.mem_append_left _ hc
        · exact List.mem_append_right _ (List.mem_of_mem_erase hc)
      · rcases hlog i hi with hi | rfl
        · exact hinv.log i hi t ht
        · obtain rfl := Option.some.inj ht
          exact hinv.tasks task (List.mem_append_right _ hmem)
  | timeout o =>
      obtain ⟨info, _, ⟨rfl, _⟩ | ⟨o', info', _, hinfo', rfl⟩⟩ := step_timeout h <;>
        exact { hinv with }
  | stop =>
      obtain ⟨_, rfl⟩ | ⟨_, _, rfl⟩ | ⟨_, rfl⟩ | ⟨_, _, rfl⟩ | ⟨_, rfl⟩ | ⟨o, rest, _, rfl⟩ | ⟨_, rfl⟩ |
        ⟨_, rfl⟩ := step_stop h
      case inr.inr.inr.inr.inr.inl =>
        obtain ⟨infos, log, heq, hlog⟩ := complete_frame s o none
        rw [heq]
        refine { hinv with log := fun i hi t ht => ?_ }
        rcases hlog i hi with hi | rfl
        · exact hinv.log i hi t ht
        · cases ht
      all_goals exact { hinv with }

theorem matched_init (limits : RemoteEndPointLimits) : Matched { limits := limits } where
  captured _ _ _ h := by cases h
  tasks _ h := by cases h
  log _ h := by cases h

/-- No handler is invoked twice, and a response completes no other request than the one that held its
id while it was parsed. -/
def ResponseMatching (s : PendingState) : Prop :=
  (∀ o, s.timesInvoked o ≤ 1) ∧
    ∀ i ∈ s.invocations, ∀ t r, i.response = some t → s.responses t = some r → r.heldBy = i.request

/-- In every run, whatever the lookups find, no handler is invoked twice. -/
theorem timesInvoked_le_one {s : PendingState} (hs : pendingSystem.Reachable s) (o : Nat) :
    s.timesInvoked o ≤ 1 := by
  have hcounted := reachable_counted hs
  cases hinfo : s.infos o with
  | none => exact hcounted.unknown o hinfo ▸ Nat.zero_le 1
  | some info =>
      rw [hcounted.count o info hinfo]
      split_ifs <;> omega

/-- **Responses match their requests** in every run in which the lookup after an exception of the parser
finds the request that held the id before, or none. -/
theorem responseMatching_of_findsSame (s : PendingState) (hs : pendingSystem.ReachableIf FindsSame s) :
    ResponseMatching s := by
  refine ⟨timesInvoked_le_one (hs.mono fun _ _ _ => trivial), fun i hi t r ht hr => ?_⟩
  have hmatched : Matched s := by
    refine hs.invariant_of Locked Matched (fun _ => reachable_locked) ?_
      fun a s s' hlocked hinv hok h => hinv.step hlocked hok h
    rintro s ⟨limits, rfl⟩
    exact matched_init limits
  obtain ⟨r', hr', hheld⟩ := hmatched.log i hi t ht
  obtain rfl := Option.some.inj (hr.symm.trans hr')
  exact hheld

/-- Request 0 times out while its response is parsed without an exception, and request 1 takes its id. -/
def lateResponseRun : List PendingAction :=
  [.sendBegin (.kInt 7) false, .sendRegister, .sendReturn, .receive (.kInt 7), .parsed 0 (.kInt 7), .timeout 0,
    .sendBegin (.kInt 7) false, .sendRegister, .sendReturn, .submit 0, .route 0, .remove 0]

theorem responseMatching_of_findsSame_lateResponseRun :
    ∃ s, pendingSystem.runIf FindsSame lateResponseRun {} = some s ∧ ResponseMatching s :=
  ⟨_, rfl, responseMatching_of_findsSame _
    (Transition.System.reachableIf_of_runIf lateResponseRun (.init ⟨{}, rfl⟩) rfl)⟩

/-- The same with an exception of the parser: its handler finds request 1 under the id. -/
def lateFailureRun : List PendingAction :=
  [.sendBegin (.kInt 7) false, .sendRegister, .sendReturn, .receive (.kInt 7), .timeout 0,
    .sendBegin (.kInt 7) false, .sendRegister, .sendReturn, .parseThrows 0, .submit 0, .route 0, .remove 0,
    .completeNow 0]

theorem lateFailureRun_completes_successor :
    ∃ s, pendingSystem.run lateFailureRun {} = some s ∧
      s.responses 0 = some ⟨.kInt 7, 0, .done⟩ ∧
      s.infos 0 = some ⟨.kInt 7, false, false, true, true⟩ ∧
      s.infos 1 = some ⟨.kInt 7, false, true, true, false⟩ ∧
      s.invocations = [⟨1, some 0⟩] ∧ ¬ResponseMatching s := by
  refine ⟨_, rfl, rfl, rfl, rfl, rfl, ?_⟩
  rintro ⟨_, hmatch⟩
  exact absurd (hmatch ⟨1, some 0⟩ (by decide) 0 ⟨.kInt 7, 0, .done⟩ rfl rfl) (by decide)

end PendingState

end LspCpp

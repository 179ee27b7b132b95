import LspCpp.PendingRuns

/-! What each part of `stop` rules out for the steps that come after it: once the routing is cleared no
response is routed, once the output is reset no request is sent, and once the pending requests are failed
the table stays empty. -/

namespace LspCpp

/-- The number of parts of `clear` that are done. -/
def StopPhase.rank : StopPhase → Nat
  | .notCalled => 0
  | .quitSet => 1
  | .routingCleared => 2
  | .outputInactive => 3
  | .outputReset => 4
  | .failing _ => 5
  | .poolsStopped => 6
  | .returned => 7

namespace PendingState

/-- What the completions rely on: no deferred completion is handed off after `quit` is set, none is queued
when the handler pool is stopped, and the id drawn for a request without one is not pending. -/
def HandsOver : PendingAction → PendingState → Prop
  | .handOff _, s => s.quit = false
  | .stop, s => s.stopPhase = .failing [] → s.poolQueue = []
  | .sendRegister, s => ∀ id deferred, s.sending = some (.checked id deferred) → id.hasValue = false →
      s.table.getRequestInfo (.kInt s.table.mId) = none
  | _, _ => True

instance (a : PendingAction) (s : PendingState) : Decidable (HandsOver a s) :=
  match a with
  | .handOff _ => inferInstanceAs (Decidable (s.quit = false))
  | .stop => inferInstanceAs (Decidable (s.stopPhase = .failing [] → s.poolQueue = []))
  | .sendRegister =>
      match hsending : s.sending with
      | some (.checked id deferred) =>
          decidable_of_iff (id.hasValue = false → s.table.getRequestInfo (.kInt s.table.mId) = none)
            ⟨fun h id' _ heq => by cases hsending.symm.trans heq; exact h, fun h => h id deferred hsending⟩
      | some (.registered _) => isTrue fun _ _ heq => by cases hsending.symm.trans heq
      | none => isTrue fun _ _ heq => by cases hsending.symm.trans heq
  | .sendBegin .. | .sendReturn | .sendThrow | .receive _ | .parsed .. | .parseThrows _ | .submit _ | .route _
  | .remove _ | .completeNow _ | .post _ | .poolBegin _ | .poolComplete _ | .timeout _ =>
      inferInstanceAs (Decidable True)

structure Stopping (s : PendingState) : Prop where
  quit : 1 ≤ s.stopPhase.rank → s.quit = true
  cleared : 2 ≤ s.stopPhase.rank → s.dispatch = none
  inactive : 3 ≤ s.stopPhase.rank → s.active = false
  reset : 4 ≤ s.stopPhase.rank → s.sending = none
  emptied : 5 ≤ s.stopPhase.rank → ∀ id, s.table.getRequestInfo id = none
  stopped : 6 ≤ s.stopPhase.rank → s.poolQueue = []

theorem getRequestInfo_removeRequestInfo_none {t : PendingTable} {id id' : LsRequestId}
    (h : t.getRequestInfo id' = none) : (t.removeRequestInfo id).getRequestInfo id' = none := by
  rw [PendingTable.getRequestInfo_removeRequestInfo]
  split_ifs
  · rfl
  · exact h

theorem Stopping.step {s s' : PendingState} {a : PendingAction} (hinv : Stopping s) (hlocked : Locked s)
    (hok : HandsOver a s) (h : step a s = some s') : Stopping s' := by
  cases a with
  | sendBegin id deferred =>
      obtain ⟨_, ⟨hactive, rfl⟩ | ⟨_, rfl⟩⟩ := step_sendBegin h
      · refine { hinv with reset := fun hrank => ?_ }
        cases hactive.symm.trans (hinv.inactive (Nat.le_of_succ_le hrank))
      · exact hinv
  | sendRegister =>
      obtain ⟨id, deferred, hsending, rfl | ⟨table, id', _, rfl⟩⟩ := step_sendRegister h
      · exact { hinv with reset := fun _ => rfl }
      · refine { hinv with reset := fun hrank => ?_, emptied := fun hrank => ?_ }
        · cases hsending.symm.trans (hinv.reset hrank)
        · cases hsending.symm.trans (hinv.reset (Nat.le_of_succ_le hrank))
  | sendReturn =>
      obtain ⟨o, info, _, _, rfl⟩ := step_sendReturn h
      exact { hinv with reset := fun _ => rfl }
  | sendThrow =>
      obtain ⟨o, info, hsending, _, rfl⟩ := step_sendThrow h
      refine { hinv with reset := fun _ => rfl, emptied := fun hrank => ?_ }
      cases hsending.symm.trans (hinv.reset (Nat.le_of_succ_le hrank))
  | receive id =>
      obtain rfl | ⟨o, _, rfl⟩ := step_receive h
      · exact hinv
      · exact { hinv with }
  | parsed t msgId =>
      obtain ⟨r, _, _, rfl⟩ := step_parsed h
      exact { hinv with }
  | parseThrows t => obtain ⟨r, _, _, rfl | ⟨o, _, rfl⟩⟩ := step_parseThrows h <;> exact { hinv with }
  | submit t =>
      obtain ⟨r, msgId, o, _, _, _, ⟨_, rfl⟩ | ⟨hquit, rfl⟩⟩ := step_submit h
      · exact { hinv with }
      · refine { hinv with cleared := fun hrank => ?_ }
        cases hquit.symm.trans (hinv.quit (Nat.le_of_succ_le hrank))
  | route t =>
      obtain ⟨r, msgId, o, _, _, rfl | rfl⟩ := step_route h
      · exact { hinv with cleared := fun _ => rfl }
      · exact { hinv with }
  | remove t =>
      obtain ⟨r, msgId, o, _, _, rfl | ⟨_, rfl⟩⟩ := step_remove h
      · exact { hinv with cleared := fun _ => rfl }
      · exact { hinv with
          emptied := fun hrank id => getRequestInfo_removeRequestInfo_none (hinv.emptied hrank id) }
  | completeNow t =>
      obtain ⟨r, o, _, _, rfl⟩ := step_completeNow h
      obtain ⟨infos, log, heq, _⟩ := complete_frame s o (some t)
      rw [heq]
      exact { hinv with cleared := fun _ => rfl }
  | handOff t =>
      obtain ⟨r, o, _, _, ⟨_, rfl⟩ | ⟨_, rfl⟩⟩ := step_handOff h
      · exact { hinv with cleared := fun _ => rfl }
      · exact { hinv with }
  | post t =>
      obtain ⟨r, o, hr, hphase, rfl⟩ := step_post h
      refine { hinv with cleared := fun _ => rfl, stopped := fun hrank => ?_ }
      have hholder := hlocked.holder t r hr (by rw [hphase]; rfl)
      cases (hinv.cleared (Nat.le_trans (by decide) hrank)).symm.trans hholder
  | poolBegin task =>
      obtain ⟨hmem, _, rfl⟩ := step_poolBegin h
      refine { hinv with stopped := fun hrank => ?_ }
      rw [hinv.stopped hrank] at hmem
      cases hmem
  | poolComplete task =>
      obtain ⟨_, rfl⟩ := step_poolComplete h
      obtain ⟨infos, log, heq, _⟩ := complete_frame s task.request (some task.response)
      rw [heq]
      exact { hinv with }
  | timeout o =>
      obtain ⟨info, _, ⟨rfl, _⟩ | ⟨o', info', _, _, rfl⟩⟩ := step_timeout h <;>
        exact { hinv with
          emptied := fun hrank id => getRequestInfo_removeRequestInfo_none (hinv.emptied hrank id) }
  | stop =>
      obtain ⟨hphase, rfl⟩ | ⟨hphase, hfree, rfl⟩ | ⟨hphase, rfl⟩ | ⟨hphase, hfree, rfl⟩ | ⟨hphase, rfl⟩ |
        ⟨o, rest, hphase, rfl⟩ | ⟨hphase, rfl⟩ | ⟨hphase, rfl⟩ := step_stop h
      case inr.inr.inr.inr.inr.inl =>
        obtain ⟨infos, log, heq, _⟩ := complete_frame s o none
        obtain ⟨h1, h2, h3, h4, h5, h6⟩ := hinv
        rw [hphase] at h1 h2 h3 h4 h5 h6
        rw [heq]
        exact ⟨h1, h2, h3, h4, h5, h6⟩
      all_goals
        obtain ⟨h1, h2, h3, h4, h5, h6⟩ := hinv
        rw [hphase] at h1 h2 h3 h4 h5 h6
        simp only [StopPhase.rank] at h1 h2 h3 h4 h5 h6
        refine ⟨?_, ?_, ?_, ?_, ?_, ?_⟩ <;> simp_all [StopPhase.rank, PendingTable.takeAll,
          PendingTable.getRequestInfo, HandsOver]

theorem stopping_init (limits : RemoteEndPointLimits) : Stopping { limits := limits } where
  quit h := by cases h
  cleared h := by cases h
  inactive h := by cases h
  reset h := by cases h
  emptied h := by cases h
  stopped h := by cases h

theorem reachable_stopping {s : PendingState} (hs : pendingSystem.ReachableIf HandsOver s) : Stopping s := by
  refine hs.invariant_of Locked Stopping (fun _ => reachable_locked) ?_
    fun a s s' hlocked hinv hok h => hinv.step hlocked hok h
  rintro s ⟨limits, rfl⟩
  exact stopping_init limits

end PendingState

end LspCpp

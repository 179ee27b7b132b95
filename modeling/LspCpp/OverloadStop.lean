import LspCpp.OverloadProgram

/-! An overload stops the session. A stop comes to its end or waits for a mutex that its own thread holds: the
dispatch lock, where the thread routes messages, or the lifecycle lock, where a handler of a pending request
asks for it. -/

namespace LspCpp

open Lock Lock.Exec

namespace EndPoint

/-- `stop` has something to stop. -/
def Stoppable (s : EndPoint) : Prop := s.working = true ∨ s.messageProducerThread = true

/-- The handlers of some requests that are not completed spare a mutex. -/
def HandlersSpare (m : EndPointMutex) (pending : List Nat) (s : EndPoint) : Prop :=
  ∀ o ∈ pending, (s.handlers o).completed = false → m ∉ (s.handlers o).locks

theorem complete_of_completed {s : EndPoint} {pending : Nat} (held : List EndPointMutex)
    (h : (s.handlers pending).completed = true) : Ends (complete pending) held s () s := by
  unfold complete Ends
  rw [get_bind, if_pos h]
  rfl

/-- A handler that is called locks its mutexes. -/
theorem complete_eq {s : EndPoint} {pending : Nat} (held : List EndPointMutex)
    (h : (s.handlers pending).completed = false) :
    complete pending held s = lockEach (s.handlers pending).locks held (s.markCompleted pending) := by
  unfold complete
  rw [get_bind, if_neg (by simp [h]), modify_bind]

theorem markCompleted_completed (s : EndPoint) (pending o : Nat) :
    ((s.markCompleted pending).handlers o).completed = ((s.handlers o).completed || decide (o = pending)) := by
  by_cases ho : o = pending <;> simp [markCompleted, ho]

theorem markCompleted_locks (s : EndPoint) (pending o : Nat) :
    ((s.markCompleted pending).handlers o).locks = (s.handlers o).locks := by
  by_cases ho : o = pending <;> simp [markCompleted, ho]

theorem handlersSpare_markCompleted {m : EndPointMutex} {pending : List Nat} {s : EndPoint} {first : Nat}
    (hfirst : (s.handlers first).completed = false → m ∉ (s.handlers first).locks) :
    HandlersSpare m pending (s.markCompleted first) ↔ HandlersSpare m pending s := by
  unfold HandlersSpare
  refine forall₂_congr fun o _ => ?_
  rw [markCompleted_completed, markCompleted_locks]
  by_cases ho : o = first
  · rw [ho]
    simpa using hfirst
  · simp [ho]

theorem completeEach_selfDeadlocks_iff (m : EndPointMutex) (pending : List Nat) (s : EndPoint) :
    ¬SelfDeadlocks (pending.forM complete) [m] s ↔ HandlersSpare m pending s := by
  induction pending generalizing s with
  | nil => exact iff_of_true (ends_pure () [m] s).not_selfDeadlocks fun _ ho => by cases ho
  | cons first rest ih =>
      have hsplit : HandlersSpare m (first :: rest) s ↔
          ((s.handlers first).completed = false → m ∉ (s.handlers first).locks) ∧ HandlersSpare m rest s :=
        List.forall_mem_cons
      rw [hsplit, forM_cons]
      cases hcompleted : (s.handlers first).completed with
      | true =>
          rw [(complete_of_completed [m] hcompleted).selfDeadlocks_bind, ih]
          simp
      | false =>
          by_cases hm : m ∈ (s.handlers first).locks
          · refine iff_of_false (not_not.mpr (SelfDeadlocks.bind ?_ _)) fun h => h.1 rfl hm
            unfold SelfDeadlocks
            rw [complete_eq [m] hcompleted]
            exact lockEach_selfDeadlocks hm List.mem_cons_self _
          · have hends : Ends (complete first) [m] s () (s.markCompleted first) := by
              unfold Ends
              rw [complete_eq [m] hcompleted]
              refine lockEach_ends (fun m' hm' heq => hm ?_) _
              rwa [← List.mem_singleton.mp heq]
            rw [hends.selfDeadlocks_bind, ih, handlersSpare_markCompleted fun _ => hm]
            simp [hm]

/-- A stop from a thread that holds the dispatch lock, of an endpoint that has something to stop, waits for
the dispatch lock. -/
theorem stop_selfDeadlocks {s : EndPoint} {held : List EndPointMutex} (hstop : s.Stoppable)
    (hheld : .routeDispatch ∈ held) : SelfDeadlocks stop held s := by
  unfold stop
  by_cases hlifecycle : EndPointMutex.lifecycle ∈ held
  · exact withLock_held hlifecycle _ s
  · rw [withLock_selfDeadlocks hlifecycle]
    have hbranch : (!s.working && !s.messageProducerThread) = false := by
      rcases hstop with h | h <;> simp [h]
    unfold SelfDeadlocks
    rw [get_bind, hbranch, if_neg Bool.false_ne_true]
    refine SelfDeadlocks.bind ?_ _
    unfold clear SelfDeadlocks
    rw [modify_bind]
    exact SelfDeadlocks.bind (withLock_held (List.mem_cons_of_mem _ hheld) _ _) _

theorem stop_ends_of_not_stoppable {s : EndPoint} {held : List EndPointMutex} (hstop : ¬s.Stoppable)
    (hheld : .lifecycle ∉ held) : Ends stop held s () s := by
  unfold stop
  refine withLock_ends hheld ?_
  have hbranch : (!s.working && !s.messageProducerThread) = true := by
    simpa [Stoppable] using hstop
  unfold Ends
  rw [get_bind, hbranch, if_pos rfl]
  rfl

theorem clearMessageRouting_ends {s : EndPoint} {held : List EndPointMutex} (hdispatch : .routeDispatch ∉ held)
    (hroute : .route ∉ held) :
    Ends clearMessageRouting held s () { s with reorder := s.reorder.clearMessageRouting } := by
  refine withLock_ends hdispatch (critical_ends ?_ _ s)
  simpa using hroute

/-- `clear` under the lifecycle lock comes to its end unless a handler of a pending request locks that mutex. -/
theorem clear_selfDeadlocks_iff (s : EndPoint) :
    ¬SelfDeadlocks clear [.lifecycle] s ↔ HandlersSpare .lifecycle s.pendingRequests.takeAll.2 s := by
  unfold clear
  rw [(ends_modify _ _ s).selfDeadlocks_bind,
    (clearMessageRouting_ends (by decide) (by decide)).selfDeadlocks_bind,
    (ends_modify _ _ _).selfDeadlocks_bind, (critical_ends (by decide) _ _).selfDeadlocks_bind,
    (critical_ends (by decide) _ _).selfDeadlocks_bind, selfDeadlocks_bind_iff]
  · unfold failPendingRequests
    rw [(critical_ends (by decide) _ _).selfDeadlocks_bind]
    exact completeEach_selfDeadlocks_iff .lifecycle _ _
  · intro _ s'
    unfold stopOrderedDispatcher
    rw [(critical_ends (by decide) _ _).selfDeadlocks_bind]
    exact (critical_ends (by decide) _ _).not_selfDeadlocks

/-- A stop from a thread that holds nothing comes to its end unless a handler of a pending request locks the
lifecycle mutex. -/
theorem stop_selfDeadlocks_iff {s : EndPoint} (hstop : s.Stoppable) :
    ¬SelfDeadlocks stop [] s ↔ HandlersSpare .lifecycle s.pendingRequests.takeAll.2 s := by
  have hbranch : (!s.working && !s.messageProducerThread) = false := by
    rcases hstop with h | h <;> simp [h]
  unfold stop
  rw [withLock_selfDeadlocks List.not_mem_nil, (ends_get _ s).selfDeadlocks_bind, hbranch,
    if_neg Bool.false_ne_true, selfDeadlocks_bind_iff fun _ s' => (ends_modify _ _ s').not_selfDeadlocks]
  exact clear_selfDeadlocks_iff s

/-- `stop` does nothing under the policy or in the state of the endpoint. -/
def Harmless (s : EndPoint) : Prop := s.limits.overloadPolicy = .dropNewest ∨ ¬s.Stoppable

theorem handleOverload_ends {s : EndPoint} {held : List EndPointMutex} (message : String) (h : s.Harmless)
    (hheld : .lifecycle ∉ held) : ∃ kept log, Ends (handleOverload message) held s kept { s with log := log } := by
  unfold handleOverload Ends
  rw [modify_bind, get_bind]
  by_cases hpolicy : s.limits.overloadPolicy = .dropNewest
  · rw [if_pos hpolicy]
    exact ⟨_, _, rfl⟩
  · rw [if_neg hpolicy]
    have hstop := stop_ends_of_not_stoppable (s := { s with log := s.log ++ ["RemoteEndPoint overload: " ++ message] })
      (h.resolve_left hpolicy) hheld
    exact ⟨_, _, hstop.bind (ends_pure false held _)⟩

theorem handleOverload_selfDeadlocks {s : EndPoint} {held : List EndPointMutex} (message : String)
    (h : ¬s.Harmless) (hheld : .routeDispatch ∈ held) : SelfDeadlocks (handleOverload message) held s := by
  obtain ⟨hpolicy, hstop⟩ := not_or.mp h
  unfold handleOverload
  rw [(ends_modify _ _ s).selfDeadlocks_bind, (ends_get _ _).selfDeadlocks_bind, if_neg hpolicy]
  refine SelfDeadlocks.bind (stop_selfDeadlocks ?_ hheld) _
  exact not_not.mp hstop

theorem handleOverload_selfDeadlocks_iff {s : EndPoint} (message : String) (h : ¬s.Harmless) :
    ¬SelfDeadlocks (handleOverload message) [] s ↔
      HandlersSpare .lifecycle s.pendingRequests.takeAll.2 s := by
  obtain ⟨hpolicy, hstop⟩ := not_or.mp h
  unfold handleOverload
  rw [(ends_modify _ _ s).selfDeadlocks_bind, (ends_get _ _).selfDeadlocks_bind, if_neg hpolicy,
    selfDeadlocks_bind_iff fun _ s' => (ends_pure false _ s').not_selfDeadlocks]
  exact stop_selfDeadlocks_iff (s := { s with log := s.log ++ ["RemoteEndPoint overload: " ++ message] })
    (not_not.mp hstop)

end EndPoint

end LspCpp

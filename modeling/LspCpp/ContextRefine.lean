import LspCpp.ContextScopes
import Mathlib.Data.List.Induction

/-! Contexts behave as immutable lists of bindings over every run, and the monitor of a request reads what the canceler
of the innermost task with its id has stored. -/

namespace LspCpp

namespace ContextWorld

open Context

variable {V : Type}

/-- What the actions have made of the tasks: a canceler is called only of a task that there is, and stores the reason
that it was made with. -/
structure Told (actions : List (ContextAction V)) (s : ContextWorld (List (Binding V))) : Prop where
  numbered : s.All fun context => ∀ task id, .task task id ∈ context → task < s.tasks.length
  created : ∀ task, .cancel task ∈ actions → task < s.tasks.length
  reason : ∀ task found, s.tasks[task]? = some found → .cancel task ∈ actions → found.cancelled = found.reason
  zero : ∀ task found, s.tasks[task]? = some found → .cancel task ∉ actions → found.cancelled = 0

/-- A step that leaves the tasks. -/
theorem Told.same {actions : List (ContextAction V)} {s s' : ContextWorld (List (Binding V))} (h : s.Told actions)
    {a : ContextAction V} (ha : ∀ task, a ≠ .cancel task) (htasks : s'.tasks = s.tasks)
    (hall : s'.All fun context => ∀ task id, .task task id ∈ context → task < s.tasks.length) :
    s'.Told (actions ++ [a]) := by
  have hmem : ∀ task, ContextAction.cancel task ∈ actions ++ [a] ↔ .cancel task ∈ actions := by
    intro task
    rw [List.mem_append, List.mem_singleton]
    exact or_iff_left (Ne.symm (ha task))
  refine ⟨htasks ▸ hall, ?_, ?_, ?_⟩
  all_goals
    intro task
    rw [htasks, hmem]
  · exact h.created task
  · exact h.reason task
  · exact h.zero task

theorem enter_tasks {s s' : ContextWorld (List (Binding V))} {thread context : Nat}
    (h : s.enter thread context = some s') : s'.tasks = s.tasks := by
  obtain ⟨replacement, _, rfl⟩ := Option.map_eq_some_iff.mp h
  rfl

theorem leave_tasks {s s' : ContextWorld (List (Binding V))} {thread : Nat} (h : s.leave thread = some s') :
    s'.tasks = s.tasks := by
  unfold ContextWorld.leave at h
  split at h
  · simp at h
  · cases h
    rfl

theorem destroy_tasks {s s' : ContextWorld (List (Binding V))} {context : Nat} (h : s.destroy context = some s') :
    s'.tasks = s.tasks := by
  unfold ContextWorld.destroy at h
  split_ifs at h
  cases h
  rfl

/-- The new task has not been cancelled, because there was none to cancel. -/
theorem Told.cancelableTask {actions : List (ContextAction V)} {s : ContextWorld (List (Binding V))}
    (h : s.Told actions) (thread : Nat) (id : LsRequestId) (reason : Int) :
    ((s.addTask reason).own (.task s.tasks.length id :: (s.threads thread).current)).Told
      (actions ++ [.cancelableTask thread id reason]) := by
  have hmem : ∀ task, ContextAction.cancel task ∈ actions ++ [.cancelableTask thread id reason] ↔
      .cancel task ∈ actions := by simp
  have htasks : ∀ context, ((s.addTask reason).own context).tasks = s.tasks ++ [⟨reason, 0⟩] := fun _ => rfl
  have hlength : (s.tasks ++ [(⟨reason, 0⟩ : CancelableTask)]).length = s.tasks.length + 1 := by simp
  have hfound : ∀ task found, (s.tasks ++ [(⟨reason, 0⟩ : CancelableTask)])[task]? = some found →
      s.tasks[task]? = some found ∨ found = ⟨reason, 0⟩ ∧ task = s.tasks.length := by
    intro task found hfound
    rcases Nat.lt_trichotomy task s.tasks.length with hlt | rfl | hgt
    · exact .inl (by rwa [List.getElem?_append_left hlt] at hfound)
    · exact .inr ⟨by simpa using hfound.symm, rfl⟩
    · rw [List.getElem?_eq_none (by simp; omega)] at hfound
      simp at hfound
  have hold : (s.addTask reason).All fun context => ∀ task id, .task task id ∈ context → task < s.tasks.length + 1 :=
    All.imp (s := s.addTask reason) ⟨h.numbered.current, h.numbered.restore, h.numbered.owned⟩
      fun context hcontext task id hmem => Nat.lt_succ_of_lt (hcontext task id hmem)
  refine ⟨?_, fun task => ?_, fun task found => ?_, fun task found => ?_⟩
  · rw [htasks, hlength]
    refine hold.own fun task id' hbinding => ?_
    rcases List.mem_cons.mp hbinding with hnew | hbinding
    · cases hnew
      exact Nat.lt_succ_self _
    · exact Nat.lt_succ_of_lt (h.numbered.current thread task id' hbinding)
  · rw [hmem, htasks, hlength]
    exact fun hcancel => Nat.lt_succ_of_lt (h.created task hcancel)
  · rw [hmem, htasks]
    intro hget hcancel
    rcases hfound task found hget with hget | ⟨rfl, rfl⟩
    · exact h.reason task found hget hcancel
    · exact absurd (h.created _ hcancel) (Nat.lt_irrefl _)
  · rw [hmem, htasks]
    intro hget hnot
    rcases hfound task found hget with hget | ⟨rfl, rfl⟩
    · exact h.zero task found hget hnot
    · rfl

theorem Told.cancel {actions : List (ContextAction V)} {s s' : ContextWorld (List (Binding V))} (h : s.Told actions)
    {task : Nat} (ha : s.cancel task = some s') : s'.Told (actions ++ [.cancel task]) := by
  obtain ⟨found, hfound, rfl⟩ := Option.map_eq_some_iff.mp ha
  obtain ⟨htask, -⟩ := List.getElem?_eq_some_iff.mp hfound
  have hmem : ∀ task', ContextAction.cancel task' ∈ actions ++ [.cancel task] ↔ .cancel task' ∈ actions ∨
      task' = task := by
    simp
  refine ⟨⟨?_, ?_, ?_⟩, fun task' hcancel => ?_, fun task' found' hfound' hcancel => ?_,
    fun task' found' hfound' hnot => ?_⟩
  · simpa using h.numbered.current
  · simpa using h.numbered.restore
  · simpa using h.numbered.owned
  · rw [List.length_set]
    rcases (hmem task').mp hcancel with hcancel | rfl
    · exact h.created task' hcancel
    · exact htask
  · rw [List.getElem?_set] at hfound'
    split_ifs at hfound' with hsame
    · cases hfound'
      rfl
    · rw [hmem] at hcancel
      exact h.reason task' found' hfound' (hcancel.resolve_right (Ne.symm hsame))
  · rw [hmem, not_or] at hnot
    rw [List.getElem?_set_ne (Ne.symm hnot.2)] at hfound'
    exact h.zero task' found' hfound' hnot.1

theorem step_told {actions : List (ContextAction V)} {s s' : ContextWorld (List (Binding V))} (h : s.Told actions)
    {a : ContextAction V} (ha : bindingsStep a s = some s') : s'.Told (actions ++ [a]) := by
  cases a with
  | derive thread key value =>
      cases ha
      refine h.same nofun rfl (h.numbered.own fun task id hmem => ?_)
      exact h.numbered.current thread task id (by simpa using hmem)
  | deriveOwned context key value =>
      obtain ⟨parent, hfound, rfl⟩ := Option.map_eq_some_iff.mp ha
      refine h.same nofun rfl (h.numbered.replace context fun task id hmem => ?_)
      exact h.numbered.owned parent (List.mem_of_getElem? hfound) task id (by simpa using hmem)
  | clone thread =>
      cases ha
      exact h.same nofun rfl (h.numbered.own (h.numbered.current thread))
  | enter thread context => exact h.same nofun (enter_tasks ha) (h.numbered.enter ha)
  | leave thread => exact h.same nofun (leave_tasks ha) (h.numbered.leave ha)
  | destroy context => exact h.same nofun (destroy_tasks ha) (h.numbered.destroy ha)
  | cancelableTask thread id reason =>
      cases ha
      exact h.cancelableTask thread id reason
  | cancel task => exact h.cancel ha

theorem run_told (actions : List (ContextAction V)) {s : ContextWorld (List (Binding V))}
    (hrun : (bindingsSystem V).run actions { threads := fun _ => { current := [] } } = some s) : s.Told actions := by
  induction actions using List.reverseRecOn generalizing s with
  | nil =>
      cases hrun
      exact ⟨⟨nofun, nofun, nofun⟩, nofun, nofun, nofun⟩
  | append_singleton actions a ih =>
      rw [Transition.System.run_concat] at hrun
      obtain ⟨before, hbefore, hstep⟩ := Option.bind_eq_some_iff.mp hrun
      exact step_told (ih hbefore) hstep

end ContextWorld

namespace Contexts

open Chain Context

variable {V : Type}

/-- What the linked nodes are for: the contexts behave as the lists of their bindings, and the monitor of a request
reads what the canceler of the innermost task with its id has stored. -/
structure Refines (actions : List (ContextAction V)) (s : Contexts V) : Prop where
  run : (bindingsSystem V).run actions { threads := fun _ => { current := [] } } = some s.contents
  get : ∀ context key, get s.heap context key = Binding.lookup key (bindings s.heap context)
  monitor : ∀ context id, getCancelledMonitor s.heap context id =
    match Binding.innermost id (bindings s.heap context) with
    | some task => .monitor task
    | none => .empty
  reads : s.world.All fun context => ∀ id task, Binding.innermost id (bindings s.heap context) = some task →
    ∃ found, s.world.tasks[task]? = some found ∧ (.cancel task ∈ actions → found.cancelled = found.reason) ∧
      (.cancel task ∉ actions → found.cancelled = 0)

theorem mem_of_innermost {id : LsRequestId} {task : Nat} {context : List (Binding V)}
    (h : Binding.innermost id context = some task) : .task task id ∈ context := by
  obtain ⟨binding, hmem, hbinding⟩ := List.exists_of_findSome?_eq_some h
  cases binding with
  | other key value => simp [Binding.task?] at hbinding
  | task cancelled id' =>
      simp only [Binding.task?] at hbinding
      split_ifs at hbinding with hid
      cases hbinding
      rw [← hid]
      exact hmem

/-- Over every run, contexts are the immutable lists of bindings they were derived as, and no pointer between the states
of the tasks is dangling. -/
theorem contexts_refine (actions : List (ContextAction V)) {s : Contexts V}
    (hrun : (contextSystem V).run actions {} = some s) : s.Refines actions := by
  have hmap := Transition.System.map_run (S := contextSystem V) (T := bindingsSystem V) contents Sound (fun _ => True)
    (fun a s hs _ => step_contents a hs) (fun a s s' hs _ hstep => step_sound hs hstep) actions (fun _ _ => trivial)
    (init_sound (V := V))
  have hcontents : (bindingsSystem V).run actions { threads := fun _ => { current := [] } } = some s.contents := by
    calc (bindingsSystem V).run actions { threads := fun _ => { current := [] } }
      _ = ((contextSystem V).run actions {}).map contents := hmap.symm
      _ = some s.contents := by rw [hrun, Option.map_some]
  have hsound : s.Sound :=
    (Transition.System.reachable_of_run actions (.init rfl) hrun).invariant Sound
      (fun s hinit => (show s = {} from hinit) ▸ init_sound) fun _ _ _ hs _ hstep => step_sound hs hstep
  have htold := ContextWorld.run_told actions hcontents
  refine ⟨hcontents, get_eq s.heap, getCancelledMonitor_eq hsound.linked, ?_⟩
  refine htold.numbered.of_map.imp fun context hnumbered id task hinnermost => ?_
  have hlt : task < s.world.tasks.length := hnumbered task id (mem_of_innermost hinnermost)
  have hfound := List.getElem?_eq_getElem hlt
  exact ⟨_, hfound, htold.reason task _ hfound, htold.zero task _ hfound⟩

/-- Two tasks with one id, of which the outer one is cancelled inside the inner one. -/
theorem contexts_refine_nested :
    ∃ s, (contextSystem Nat).run [.cancelableTask 0 (.kInt 1) 5, .enter 0 0, .cancelableTask 0 (.kInt 1) 7, .enter 0 0,
      .cancel 0] {} = some s ∧ s.Refines [.cancelableTask 0 (.kInt 1) 5, .enter 0 0, .cancelableTask 0 (.kInt 1) 7,
      .enter 0 0, .cancel 0] :=
  ⟨_, rfl, contexts_refine [.cancelableTask 0 (.kInt 1) 5, .enter 0 0, .cancelableTask 0 (.kInt 1) 7, .enter 0 0,
    .cancel 0] rfl⟩

end Contexts

end LspCpp

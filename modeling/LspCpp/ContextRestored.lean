import LspCpp.ContextScopes

/-! The scopes of a thread, which restore the contexts that they replaced, and the nodes that no context reaches any
more. -/

namespace LspCpp

namespace Contexts

open Chain Context

variable {V : Type}

/-- The step does not leave the scope that the thread was in at the depth. -/
def InScope (thread depth : Nat) : ContextAction V → Contexts V → Prop
  | .leave thread', s => thread' = thread → depth < (s.world.threads thread).restore.length
  | _, _ => True

instance (thread depth : Nat) : ∀ (a : ContextAction V) (s : Contexts V), Decidable (InScope thread depth a s)
  | .leave thread', s =>
      inferInstanceAs (Decidable (thread' = thread → depth < (s.world.threads thread).restore.length))
  | .derive .., _ | .deriveOwned .., _ | .cancelableTask .., _ | .clone .., _ | .enter .., _ | .cancel .., _
  | .destroy .., _ => inferInstanceAs (Decidable True)

/-- The contexts that a thread has installed, the current one first. -/
def frames (s : Contexts V) (thread : Nat) : List (Option Nat) :=
  (s.world.threads thread).current :: (s.world.threads thread).restore

/-- What a step does to a thread: nothing, the scope of a new context, or the end of the innermost scope. -/
theorem step_frames {a : ContextAction V} {s s' : Contexts V} (thread : Nat) (h : step a s = some s') :
    s'.frames thread = s.frames thread ∨ (∃ context, s'.frames thread = context :: s.frames thread) ∨
      a = .leave thread ∧ ∃ context, s.frames thread = context :: s'.frames thread := by
  cases a with
  | derive | cancelableTask | clone =>
      cases h
      exact .inl rfl
  | deriveOwned context key value =>
      obtain ⟨parent, hfound, rfl⟩ := Option.map_eq_some_iff.mp h
      exact .inl rfl
  | cancel task =>
      obtain ⟨world, hworld, rfl⟩ := Option.map_eq_some_iff.mp h
      obtain ⟨found, _, rfl⟩ := Option.map_eq_some_iff.mp hworld
      exact .inl rfl
  | destroy context =>
      obtain ⟨world, hworld, rfl⟩ := Option.map_eq_some_iff.mp h
      unfold ContextWorld.destroy at hworld
      split_ifs at hworld
      cases hworld
      exact .inl rfl
  | enter thread' context =>
      obtain ⟨world, hworld, rfl⟩ := Option.map_eq_some_iff.mp h
      obtain ⟨replacement, _, rfl⟩ := Option.map_eq_some_iff.mp hworld
      by_cases hthread : thread = thread'
      · subst hthread
        refine .inr (.inl ⟨replacement, ?_⟩)
        simp [frames, ContextWorld.setThread]
      · refine .inl ?_
        simp [frames, ContextWorld.setThread, Function.update_of_ne hthread]
  | leave thread' =>
      obtain ⟨world, hworld, rfl⟩ := Option.map_eq_some_iff.mp h
      unfold ContextWorld.leave at hworld
      split at hworld
      · simp at hworld
      · rename_i previous restore hrestore
        cases hworld
        by_cases hthread : thread = thread'
        · subst hthread
          refine .inr (.inr ⟨rfl, (s.world.threads thread).current, ?_⟩)
          simp [frames, ContextWorld.setThread, hrestore]
        · refine .inl ?_
          simp [frames, ContextWorld.setThread, Function.update_of_ne hthread]

/-- Nodes are only added. -/
theorem step_heap {a : ContextAction V} {s s' : Contexts V} (h : step a s = some s') {context : Option Nat}
    (hvalid : Valid s.heap context) :
    Valid s'.heap context ∧ bindings s'.heap context = bindings s.heap context := by
  cases a with
  | derive | cancelableTask =>
      cases h
      exact ⟨hvalid.cons _, bindings_cons hvalid _⟩
  | deriveOwned context' key value =>
      obtain ⟨parent, hfound, rfl⟩ := Option.map_eq_some_iff.mp h
      exact ⟨hvalid.cons _, bindings_cons hvalid _⟩
  | clone =>
      cases h
      exact ⟨hvalid, rfl⟩
  | enter | leave | cancel | destroy =>
      obtain ⟨world, hworld, rfl⟩ := Option.map_eq_some_iff.mp h
      exact ⟨hvalid, rfl⟩

/-- The run stays in the scope it began in, which therefore is still installed under those it has entered. -/
theorem runIf_frames {thread : Nat} {base : List (Option Nat)} (actions : List (ContextAction V)) {s s' : Contexts V}
    {inner : List (Option Nat)} (hframes : s.frames thread = inner ++ base)
    (hrun : (contextSystem V).runIf (InScope thread (base.length - 1)) actions s = some s') :
    ∃ inner', s'.frames thread = inner' ++ base := by
  induction actions generalizing s inner with
  | nil =>
      cases hrun
      exact ⟨inner, hframes⟩
  | cons a rest ih =>
      rw [Transition.System.runIf] at hrun
      split_ifs at hrun with hok
      obtain ⟨next, hnext, hrest⟩ := Option.bind_eq_some_iff.mp hrun
      rcases step_frames thread hnext with hsame | ⟨context, hentered⟩ | ⟨rfl, context, hleft⟩
      · exact ih (hsame.trans hframes) hrest
      · have hnext' : next.frames thread = (context :: inner) ++ base := by
          rw [hentered, hframes, List.cons_append]
        exact ih hnext' hrest
      · cases inner with
        | nil =>
            have hdepth : base.length - 1 < (s.world.threads thread).restore.length := hok rfl
            have hlength := congrArg List.length hframes
            simp only [frames, List.length_cons, List.nil_append] at hlength
            omega
        | cons first inner =>
            rw [hleft, List.cons_append] at hframes
            exact ih (List.tail_eq_of_cons_eq hframes) hrest

theorem runIf_heap {ok : ContextAction V → Contexts V → Prop} [∀ a s, Decidable (ok a s)]
    (actions : List (ContextAction V)) {s s' : Contexts V} (hs : s.Sound)
    (hrun : (contextSystem V).runIf ok actions s = some s') {context : Option Nat} (hvalid : Valid s.heap context) :
    s'.Sound ∧ bindings s'.heap context = bindings s.heap context := by
  induction actions generalizing s with
  | nil =>
      cases hrun
      exact ⟨hs, rfl⟩
  | cons a rest ih =>
      rw [Transition.System.runIf] at hrun
      split_ifs at hrun with hok
      obtain ⟨next, hnext, hrest⟩ := Option.bind_eq_some_iff.mp hrun
      obtain ⟨hvalid', hbindings⟩ := step_heap hnext hvalid
      obtain ⟨hs', hbindings'⟩ := ih (step_sound hs hnext) hrest hvalid'
      exact ⟨hs', hbindings'.trans hbindings⟩

/-- The thread has again the scopes that it had, and reads in its context what it read. -/
structure Restored (thread : Nat) (s s' : Contexts V) : Prop where
  scopes : s'.world.threads thread = s.world.threads thread
  get : ∀ key, get s'.heap (s'.world.threads thread).current key = get s.heap (s.world.threads thread).current key
  monitor : ∀ id, getCancelledMonitor s'.heap (s'.world.threads thread).current id =
    getCancelledMonitor s.heap (s.world.threads thread).current id

/-- Whatever a thread and all the others do in the meantime, when the scopes that it has entered are left, the context
that it had is current again. -/
theorem scopes_restored {s s' : Contexts V} (hs : (contextSystem V).Reachable s) (thread : Nat)
    (actions : List (ContextAction V))
    (hrun : (contextSystem V).runIf (InScope thread (s.world.threads thread).restore.length) actions s = some s')
    (hdepth : (s'.world.threads thread).restore.length = (s.world.threads thread).restore.length) :
    s.Restored thread s' := by
  have hsound := reachable_sound hs
  obtain ⟨hsound', hbindings⟩ := runIf_heap actions hsound hrun (hsound.valid.current thread)
  have hframes : s'.frames thread = s.frames thread := by
    obtain ⟨inner, hinner⟩ := runIf_frames actions (List.nil_append (s.frames thread)).symm hrun
    have hlength := congrArg List.length hinner
    simp only [frames, List.length_cons, List.length_append, hdepth] at hlength
    have hnil : inner = [] := List.eq_nil_of_length_eq_zero (by omega)
    rw [hinner, hnil, List.nil_append]
  obtain ⟨hcurrent, hrestore⟩ := List.cons.inj hframes
  refine ⟨?_, fun key => ?_, fun id => ?_⟩
  · ext1
    · exact hcurrent
    · exact hrestore
  · rw [hcurrent, get_eq, get_eq, hbindings]
  · rw [hcurrent, getCancelledMonitor_eq hsound'.linked, getCancelledMonitor_eq hsound.linked, hbindings]

/-- Thread 0 enters two scopes and leaves them, while thread 1 enters one and stays in it. -/
theorem scopes_restored_interleaved :
    ∃ s, (contextSystem Nat).run [.derive 0 3 8, .enter 0 0, .clone 0, .cancelableTask 0 (.kInt 1) 5] {} = some s ∧
      ∃ s', (contextSystem Nat).runIf (InScope 0 1) [.enter 0 1, .derive 0 3 9, .enter 1 0, .enter 0 0, .leave 0,
        .cancel 0, .leave 0] s = some s' ∧ s.Restored 0 s' :=
  ⟨_, rfl, _, rfl, scopes_restored (Transition.System.reachable_of_run
    [.derive 0 3 8, .enter 0 0, .clone 0, .cancelableTask 0 (.kInt 1) 5] (.init rfl) rfl) 0 [.enter 0 1, .derive 0 3 9,
    .enter 1 0, .enter 0 0, .leave 0, .cancel 0, .leave 0] rfl rfl⟩

/-- No context has the node any more, whose value has been destroyed. -/
def Released (s : Contexts V) (address : Nat) : Prop :=
  s.world.All fun context => ∀ stored, (address, stored) ∉ chain s.heap context

theorem Released.kept {s : Contexts V} {address : Nat} (h : s.Released address) (hs : s.Sound) (parent : Option Nat)
    (stored : Stored V) :
    s.world.All fun context => ∀ stored', (address, stored') ∉ chain (s.new parent stored) context := by
  refine (h.and hs.valid).imp fun context ⟨hnone, hvalid⟩ stored' hmem => hnone stored' ?_
  rwa [new, chain_cons hvalid] at hmem

/-- The new node is another one, and its ancestors are those of a context. -/
theorem released_node {s : Contexts V} {address : Nat} (hlt : address < s.heap.length) {parent : Option Nat}
    (hparent : ∀ stored, (address, stored) ∉ chain s.heap parent) (stored : Stored V) :
    ∀ stored', (address, stored') ∉ chain (s.new parent stored) (some s.heap.length) := by
  intro stored' hmem
  rw [new, chain_new] at hmem
  rcases List.mem_cons.mp hmem with hnew | hancestor
  · exact Nat.ne_of_lt hlt (congrArg Prod.fst hnew)
  · exact hparent stored' hancestor

theorem step_released {a : ContextAction V} {s s' : Contexts V} (hs : s.Sound) (h : step a s = some s') {address : Nat}
    (hlt : address < s.heap.length) (hreleased : s.Released address) :
    address < s'.heap.length ∧ s'.Released address := by
  cases a with
  | derive thread key value =>
      cases h
      exact ⟨Nat.lt_succ_of_lt hlt, (hreleased.kept hs _ _).own (released_node hlt (hreleased.current thread) _)⟩
  | deriveOwned context key value =>
      obtain ⟨parent, hfound, rfl⟩ := Option.map_eq_some_iff.mp h
      have hparent := hreleased.owned parent (List.mem_of_getElem? hfound)
      exact ⟨Nat.lt_succ_of_lt hlt, (hreleased.kept hs _ _).replace context (released_node hlt hparent _)⟩
  | cancelableTask thread id reason =>
      cases h
      have hnew := hreleased.kept hs (s.world.threads thread).current
        (.cancelState ⟨s.world.tasks.length, (getCancelState s.heap (s.world.threads thread).current).map Prod.fst, id⟩)
      have htask : (s.world.addTask reason).All _ := ⟨hnew.current, hnew.restore, hnew.owned⟩
      exact ⟨Nat.lt_succ_of_lt hlt, htask.own (released_node hlt (hreleased.current thread) _)⟩
  | clone thread =>
      cases h
      exact ⟨hlt, hreleased.own (hreleased.current thread)⟩
  | enter thread context =>
      obtain ⟨world, hworld, rfl⟩ := Option.map_eq_some_iff.mp h
      exact ⟨hlt, hreleased.enter hworld⟩
  | leave thread =>
      obtain ⟨world, hworld, rfl⟩ := Option.map_eq_some_iff.mp h
      exact ⟨hlt, hreleased.leave hworld⟩
  | cancel task =>
      obtain ⟨world, hworld, rfl⟩ := Option.map_eq_some_iff.mp h
      exact ⟨hlt, hreleased.cancel hworld⟩
  | destroy context =>
      obtain ⟨world, hworld, rfl⟩ := Option.map_eq_some_iff.mp h
      exact ⟨hlt, hreleased.destroy hworld⟩

/-- A node that no context has is never had by one again: what its value's destructor does, such as the end of a
request, happens once. -/
theorem released_staysReleased {s s' : Contexts V} (hs : (contextSystem V).Reachable s)
    (actions : List (ContextAction V)) (hrun : (contextSystem V).run actions s = some s') {address : Nat}
    (hlt : address < s.heap.length) (hreleased : s.Released address) : s'.Released address := by
  induction actions generalizing s with
  | nil =>
      cases hrun
      exact hreleased
  | cons a rest ih =>
      obtain ⟨next, hnext, hrest⟩ := Option.bind_eq_some_iff.mp hrun
      obtain ⟨hlt', hreleased'⟩ := step_released (reachable_sound hs) hnext hlt hreleased
      exact ih (.step hs trivial hnext) hrest hlt' hreleased'

/-- A value is bound, and its context destroyed before anyone has entered it. -/
theorem released_staysReleased_destroyed :
    ∃ s, (contextSystem Nat).run [.derive 0 3 8, .destroy 0] {} = some s ∧
      ∃ s', (contextSystem Nat).run [.derive 0 3 9, .enter 0 0, .clone 0] s = some s' ∧ s'.Released 0 := by
  have hs := Transition.System.reachable_of_run (S := contextSystem Nat) [.derive 0 3 8, .destroy 0] (.init rfl) rfl
  refine ⟨_, rfl, _, rfl, released_staysReleased hs [.derive 0 3 9, .enter 0 0, .clone 0] rfl Nat.one_pos ?_⟩
  exact ⟨fun _ _ => nofun, nofun, nofun⟩

end Contexts

end LspCpp

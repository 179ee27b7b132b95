import LspCpp.ContextHeap
import LspCpp.LibTransition
import Mathlib.Data.List.InsertIdx
import Mathlib.Logic.Function.Basic

/-! The contexts of the threads, which scopes install and restore, and those that are kept elsewhere. The same
operations run over the linked nodes of the code and over the contexts as lists of bindings; that they agree is the
refinement. -/

namespace LspCpp

/-- A thread: `Context::current()`, and what the `WithContext`s on its stack will restore, the last one first. -/
@[ext]
structure ThreadScopes (γ : Type) where
  current : γ
  restore : List γ := []

/-- The cancelable tasks: what the canceler stores, and the `cancelled` that it shares with the monitors. -/
structure CancelableTask where
  reason : Int
  cancelled : Int := 0
  deriving DecidableEq, Repr

/-- All but the nodes: `owned` are the contexts that no scope holds, such as those that `cancelableTask` returned. -/
structure ContextWorld (γ : Type) where
  threads : Nat → ThreadScopes γ
  owned : List γ := []
  tasks : List CancelableTask := []

inductive ContextAction (V : Type) where
  | derive (thread key : Nat) (value : V)
  | deriveOwned (context key : Nat) (value : V)
  | cancelableTask (thread : Nat) (id : LsRequestId) (reason : Int)
  | clone (thread : Nat)
  | enter (thread context : Nat)
  | leave (thread : Nat)
  | cancel (task : Nat)
  | destroy (context : Nat)
  deriving DecidableEq, Repr

namespace ContextWorld

variable {γ δ : Type}

def own (s : ContextWorld γ) (context : γ) : ContextWorld γ := { s with owned := s.owned ++ [context] }

def addTask (s : ContextWorld γ) (reason : Int) : ContextWorld γ := { s with tasks := s.tasks ++ [{ reason }] }

def setThread (s : ContextWorld γ) (thread : Nat) (scopes : ThreadScopes γ) : ContextWorld γ :=
  { s with threads := Function.update s.threads thread scopes }

/-- `WithContext`, into which a context is moved. -/
def enter (s : ContextWorld γ) (thread context : Nat) : Option (ContextWorld γ) :=
  (s.owned[context]?).map fun replacement =>
    setThread { s with owned := s.owned.eraseIdx context } thread
      { current := replacement, restore := (s.threads thread).current :: (s.threads thread).restore }

/-- `~WithContext` of the innermost scope. -/
def leave (s : ContextWorld γ) (thread : Nat) : Option (ContextWorld γ) :=
  match (s.threads thread).restore with
  | [] => none
  | previous :: restore => some (s.setThread thread { current := previous, restore })

/-- The canceler of a task. -/
def cancel (s : ContextWorld γ) (task : Nat) : Option (ContextWorld γ) :=
  (s.tasks[task]?).map fun found => { s with tasks := s.tasks.set task { found with cancelled := found.reason } }

def destroy (s : ContextWorld γ) (context : Nat) : Option (ContextWorld γ) :=
  if context < s.owned.length then some { s with owned := s.owned.eraseIdx context } else none

/-- Each context there is has the property. -/
structure All (p : γ → Prop) (s : ContextWorld γ) : Prop where
  current : ∀ thread, p (s.threads thread).current
  restore : ∀ thread, ∀ context ∈ (s.threads thread).restore, p context
  owned : ∀ context ∈ s.owned, p context

def map (f : γ → δ) (s : ContextWorld γ) : ContextWorld δ where
  threads thread := { current := f (s.threads thread).current, restore := (s.threads thread).restore.map f }
  owned := s.owned.map f
  tasks := s.tasks

end ContextWorld

/-- The contexts as the code has them, with every node that was ever made. -/
structure Contexts (V : Type) where
  heap : List (Context.Data V) := []
  world : ContextWorld (Option Nat) := { threads := fun _ => { current := none } }

namespace Contexts

variable {V : Type}

def new (s : Contexts V) (parent : Option Nat) (stored : Context.Stored V) : List (Context.Data V) :=
  ⟨parent, stored⟩ :: s.heap

def step : ContextAction V → Contexts V → Option (Contexts V)
  | .derive thread key value, s =>
      some { heap := s.new (s.world.threads thread).current (.other key value),
             world := s.world.own (some s.heap.length) }
  | .deriveOwned context key value, s =>
      (s.world.owned[context]?).map fun parent =>
        { heap := s.new parent (.other key value)
          world := { s.world with owned := s.world.owned.set context (some s.heap.length) } }
  | .cancelableTask thread id reason, s =>
      let current := (s.world.threads thread).current
      let state : Context.CancelState :=
        { cancelled := s.world.tasks.length, parent := (Context.getCancelState s.heap current).map Prod.fst, id }
      some
        { heap := s.new current (.cancelState state)
          world := (s.world.addTask reason).own (some s.heap.length) }
  | .clone thread, s => some { s with world := s.world.own (s.world.threads thread).current }
  | .enter thread context, s => (s.world.enter thread context).map fun world => { s with world }
  | .leave thread, s => (s.world.leave thread).map fun world => { s with world }
  | .cancel task, s => (s.world.cancel task).map fun world => { s with world }
  | .destroy context, s => (s.world.destroy context).map fun world => { s with world }

/-- The contexts without the nodes. -/
def contents (s : Contexts V) : ContextWorld (List (Context.Binding V)) := s.world.map (Context.bindings s.heap)

end Contexts

/-- No thread has a context yet. -/
def contextSystem (V : Type) : Transition.System (Contexts V) (ContextAction V) where
  init s := s = {}
  step := Contexts.step

/-- A context is the list of its bindings, and to derive one puts a binding before them. -/
def bindingsStep {V : Type} :
    ContextAction V → ContextWorld (List (Context.Binding V)) → Option (ContextWorld (List (Context.Binding V)))
  | .derive thread key value, s => some (s.own (.other key value :: (s.threads thread).current))
  | .deriveOwned context key value, s =>
      (s.owned[context]?).map fun parent => { s with owned := s.owned.set context (.other key value :: parent) }
  | .cancelableTask thread id reason, s =>
      some ((s.addTask reason).own (.task s.tasks.length id :: (s.threads thread).current))
  | .clone thread, s => some (s.own (s.threads thread).current)
  | .enter thread context, s => s.enter thread context
  | .leave thread, s => s.leave thread
  | .cancel task, s => s.cancel task
  | .destroy context, s => s.destroy context

def bindingsSystem (V : Type) :
    Transition.System (ContextWorld (List (Context.Binding V))) (ContextAction V) where
  init s := s = { threads := fun _ => { current := [] } }
  step := bindingsStep

/-! ### What the operations do to all contexts -/

namespace ContextWorld

variable {γ δ : Type} {p q : γ → Prop} {s s' : ContextWorld γ}

theorem All.imp (h : s.All p) (himp : ∀ context, p context → q context) : s.All q :=
  ⟨fun thread => himp _ (h.current thread), fun thread context hmem => himp _ (h.restore thread context hmem),
    fun context hmem => himp _ (h.owned context hmem)⟩

theorem All.and (h : s.All p) (hq : s.All q) : s.All fun context => p context ∧ q context :=
  ⟨fun thread => ⟨h.current thread, hq.current thread⟩,
    fun thread context hmem => ⟨h.restore thread context hmem, hq.restore thread context hmem⟩,
    fun context hmem => ⟨h.owned context hmem, hq.owned context hmem⟩⟩

theorem All.own (h : s.All p) {context : γ} (hnew : p context) : (s.own context).All p := by
  refine ⟨h.current, h.restore, fun context' hmem => ?_⟩
  rcases List.mem_append.mp hmem with hold | hadded
  · exact h.owned context' hold
  · rw [List.mem_singleton.mp hadded]
    exact hnew

theorem All.setThread (h : s.All p) (thread : Nat) {scopes : ThreadScopes γ} (hcurrent : p scopes.current)
    (hrestore : ∀ context ∈ scopes.restore, p context) : (s.setThread thread scopes).All p := by
  refine ⟨fun thread' => ?_, fun thread' => ?_, h.owned⟩
  all_goals
    show _
    unfold ContextWorld.setThread
    by_cases hthread : thread' = thread
    · subst hthread
      simpa using by assumption
    · simp only [Function.update_of_ne hthread]
      first
        | exact h.current thread'
        | exact h.restore thread'

theorem All.enter (h : s.All p) {thread context : Nat} (henter : s.enter thread context = some s') : s'.All p := by
  obtain ⟨replacement, hfound, rfl⟩ := Option.map_eq_some_iff.mp henter
  have herased : ({ s with owned := s.owned.eraseIdx context } : ContextWorld γ).All p :=
    ⟨h.current, h.restore, fun context' hmem => h.owned context' (List.mem_of_mem_eraseIdx hmem)⟩
  refine herased.setThread thread (h.owned _ (List.mem_of_getElem? hfound)) ?_
  exact List.forall_mem_cons.mpr ⟨h.current thread, h.restore thread⟩

theorem All.leave (h : s.All p) {thread : Nat} (hleave : s.leave thread = some s') : s'.All p := by
  unfold ContextWorld.leave at hleave
  split at hleave
  · simp at hleave
  · rename_i previous restore hrestore
    cases hleave
    have hall := h.restore thread
    rw [hrestore, List.forall_mem_cons] at hall
    exact h.setThread thread hall.1 hall.2

theorem All.cancel (h : s.All p) {task : Nat} (hcancel : s.cancel task = some s') : s'.All p := by
  obtain ⟨found, _, rfl⟩ := Option.map_eq_some_iff.mp hcancel
  exact ⟨h.current, h.restore, h.owned⟩

theorem All.destroy (h : s.All p) {context : Nat} (hdestroy : s.destroy context = some s') : s'.All p := by
  unfold ContextWorld.destroy at hdestroy
  split_ifs at hdestroy
  cases hdestroy
  exact ⟨h.current, h.restore, fun context' hmem => h.owned context' (List.mem_of_mem_eraseIdx hmem)⟩

theorem All.replace (h : s.All p) (i : Nat) {context : γ} (hnew : p context) :
    ({ s with owned := s.owned.set i context } : ContextWorld γ).All p := by
  refine ⟨h.current, h.restore, fun context' hmem => ?_⟩
  rcases List.mem_or_eq_of_mem_set hmem with hold | rfl
  · exact h.owned context' hold
  · exact hnew

theorem All.of_map {f : γ → δ} {p : δ → Prop} (h : (s.map f).All p) : s.All fun context => p (f context) :=
  ⟨h.current, fun thread _ hmem => h.restore thread _ (List.mem_map_of_mem hmem),
    fun _ hmem => h.owned _ (List.mem_map_of_mem hmem)⟩

theorem map_congr {f g : γ → δ} (h : s.All fun context => f context = g context) : s.map f = s.map g := by
  have hthreads : (fun thread => (⟨f (s.threads thread).current, (s.threads thread).restore.map f⟩ : ThreadScopes δ)) =
      fun thread => ⟨g (s.threads thread).current, (s.threads thread).restore.map g⟩ := by
    funext thread
    rw [h.current thread, List.map_congr_left (h.restore thread)]
  unfold map
  rw [hthreads, List.map_congr_left h.owned]

theorem map_setThread (f : γ → δ) (s : ContextWorld γ) (thread : Nat) (scopes : ThreadScopes γ) :
    (s.setThread thread scopes).map f =
      (s.map f).setThread thread { current := f scopes.current, restore := scopes.restore.map f } := by
  unfold map ContextWorld.setThread
  congr 1
  funext thread'
  by_cases hthread : thread' = thread
  · subst hthread
    simp
  · simp [Function.update_of_ne hthread]

theorem map_erased (f : γ → δ) (s : ContextWorld γ) (context : Nat) :
    ({ s with owned := s.owned.eraseIdx context } : ContextWorld γ).map f =
      { s.map f with owned := (s.map f).owned.eraseIdx context } := by
  unfold map
  rw [← List.eraseIdx_map]

theorem map_own (f : γ → δ) (s : ContextWorld γ) (context : γ) :
    (s.own context).map f = (s.map f).own (f context) := by
  simp [map, ContextWorld.own]

theorem map_replaced (f : γ → δ) (s : ContextWorld γ) (i : Nat) (context : γ) :
    ({ s with owned := s.owned.set i context } : ContextWorld γ).map f =
      { s.map f with owned := (s.map f).owned.set i (f context) } := by
  unfold map
  rw [List.map_set]

theorem map_addTask (f : γ → δ) (s : ContextWorld γ) (reason : Int) :
    (s.addTask reason).map f = (s.map f).addTask reason := rfl

theorem map_enter (f : γ → δ) (s : ContextWorld γ) (thread context : Nat) :
    (s.enter thread context).map (map f) = (s.map f).enter thread context := by
  unfold ContextWorld.enter
  rw [Option.map_map, show (s.map f).owned[context]? = (s.owned[context]?).map f from List.getElem?_map ..,
    Option.map_map]
  congr 1
  funext replacement
  have hset := map_setThread f { s with owned := s.owned.eraseIdx context } thread
    ⟨replacement, (s.threads thread).current :: (s.threads thread).restore⟩
  rw [map_erased] at hset
  exact hset

theorem map_leave (f : γ → δ) (s : ContextWorld γ) (thread : Nat) :
    (s.leave thread).map (map f) = (s.map f).leave thread := by
  unfold ContextWorld.leave
  have hrestore : ((s.map f).threads thread).restore = (s.threads thread).restore.map f := rfl
  rw [hrestore]
  cases (s.threads thread).restore with
  | nil => rfl
  | cons previous restore => exact congrArg some (map_setThread f s thread ⟨previous, restore⟩)

theorem map_cancel (f : γ → δ) (s : ContextWorld γ) (task : Nat) :
    (s.cancel task).map (map f) = (s.map f).cancel task := by
  unfold ContextWorld.cancel
  rw [Option.map_map]
  rfl

theorem map_destroy (f : γ → δ) (s : ContextWorld γ) (context : Nat) :
    (s.destroy context).map (map f) = (s.map f).destroy context := by
  unfold ContextWorld.destroy
  rw [show (s.map f).owned.length = s.owned.length from List.length_map ..]
  split_ifs
  · exact congrArg some (map_erased f s context)
  · rfl

end ContextWorld

namespace Contexts

open Chain Context

variable {V : Type}

/-- The nodes are linked as they were made, and no context points anywhere else. -/
structure Sound (s : Contexts V) : Prop where
  linked : Linked s.heap
  valid : s.world.All (Valid s.heap)

/-- A node is made for a context that there is. -/
theorem Sound.new {s : Contexts V} (hs : s.Sound) {parent : Option Nat} (hparent : Valid s.heap parent)
    (stored : Stored V)
    (hstate : ∀ state, stored = .cancelState state → state.parent = (getCancelState s.heap parent).map Prod.fst) :
    Linked (s.new parent stored) ∧ s.world.All (Valid (s.new parent stored)) :=
  ⟨⟨hparent, hstate, hs.linked⟩, hs.valid.imp fun _ hvalid => hvalid.cons _⟩

theorem step_sound {a : ContextAction V} {s s' : Contexts V} (hs : s.Sound) (h : step a s = some s') : s'.Sound := by
  cases a with
  | derive thread key value =>
      cases h
      obtain ⟨hlinked, hvalid⟩ := hs.new (hs.valid.current thread) (.other key value) nofun
      exact ⟨hlinked, hvalid.own (valid_new _ _)⟩
  | deriveOwned context key value =>
      obtain ⟨parent, hfound, rfl⟩ := Option.map_eq_some_iff.mp h
      obtain ⟨hlinked, hvalid⟩ := hs.new (hs.valid.owned parent (List.mem_of_getElem? hfound)) (.other key value) nofun
      exact ⟨hlinked, hvalid.replace context (valid_new _ _)⟩
  | cancelableTask thread id reason =>
      cases h
      let current := (s.world.threads thread).current
      obtain ⟨hlinked, hvalid⟩ := hs.new (hs.valid.current thread)
        (.cancelState ⟨s.world.tasks.length, (getCancelState s.heap current).map Prod.fst, id⟩) (by
          intro state hstate
          cases hstate
          rfl)
      have htasks : (s.world.addTask reason).All _ := ⟨hvalid.current, hvalid.restore, hvalid.owned⟩
      exact ⟨hlinked, htasks.own (valid_new _ _)⟩
  | clone thread =>
      cases h
      exact ⟨hs.linked, hs.valid.own (hs.valid.current thread)⟩
  | enter thread context =>
      obtain ⟨world, hworld, rfl⟩ := Option.map_eq_some_iff.mp h
      exact ⟨hs.linked, hs.valid.enter hworld⟩
  | leave thread =>
      obtain ⟨world, hworld, rfl⟩ := Option.map_eq_some_iff.mp h
      exact ⟨hs.linked, hs.valid.leave hworld⟩
  | cancel task =>
      obtain ⟨world, hworld, rfl⟩ := Option.map_eq_some_iff.mp h
      exact ⟨hs.linked, hs.valid.cancel hworld⟩
  | destroy context =>
      obtain ⟨world, hworld, rfl⟩ := Option.map_eq_some_iff.mp h
      exact ⟨hs.linked, hs.valid.destroy hworld⟩

theorem contents_new {s : Contexts V} (hs : s.Sound) (parent : Option Nat) (stored : Stored V) :
    s.world.map (bindings (s.new parent stored)) = s.contents :=
  ContextWorld.map_congr (hs.valid.imp fun _ hvalid => bindings_cons hvalid _)

theorem init_sound : ({} : Contexts V).Sound :=
  ⟨trivial, ⟨fun _ => valid_none _, nofun, nofun⟩⟩

theorem reachable_sound {s : Contexts V} (hs : (contextSystem V).Reachable s) : s.Sound :=
  hs.invariant Sound (fun s hinit => (show s = {} from hinit) ▸ init_sound) fun _ _ _ hs _ hstep => step_sound hs hstep

/-- One step of the code is the same step on lists of bindings. -/
theorem step_contents (a : ContextAction V) {s : Contexts V} (hs : s.Sound) :
    (step a s).map contents = bindingsStep a s.contents := by
  cases a with
  | derive thread key value =>
      show some (ContextWorld.map (bindings (s.new _ _)) (s.world.own _)) = some _
      rw [ContextWorld.map_own, contents_new hs, new, bindings_new]
      rfl
  | deriveOwned context key value =>
      show Option.map contents (Option.map _ _) = Option.map _ ((s.world.owned.map (bindings s.heap))[context]?)
      rw [List.getElem?_map, Option.map_map, Option.map_map]
      congr 1
      funext parent
      show ContextWorld.map (bindings (s.new parent (.other key value))) { s.world with owned := _ } = _
      rw [ContextWorld.map_replaced, contents_new hs, new, bindings_new]
      rfl
  | cancelableTask thread id reason =>
      show some (ContextWorld.map (bindings (s.new _ _)) ((s.world.addTask reason).own _)) = some _
      rw [ContextWorld.map_own, ContextWorld.map_addTask, contents_new hs, new, bindings_new]
      rfl
  | clone thread =>
      show some (ContextWorld.map _ (s.world.own _)) = some _
      rw [ContextWorld.map_own]
      rfl
  | enter thread context =>
      show Option.map contents ((s.world.enter thread context).map _) = _
      rw [Option.map_map]
      exact ContextWorld.map_enter (bindings s.heap) s.world thread context
  | leave thread =>
      show Option.map contents ((s.world.leave thread).map _) = _
      rw [Option.map_map]
      exact ContextWorld.map_leave (bindings s.heap) s.world thread
  | cancel task =>
      show Option.map contents ((s.world.cancel task).map _) = _
      rw [Option.map_map]
      exact ContextWorld.map_cancel (bindings s.heap) s.world task
  | destroy context =>
      show Option.map contents ((s.world.destroy context).map _) = _
      rw [Option.map_map]
      exact ContextWorld.map_destroy (bindings s.heap) s.world context

end Contexts

end LspCpp

import Mathlib.Tactic.SplitIfs

/-! Programs of one thread over non-recursive mutexes. Such a program depends on the mutexes that its thread
holds and on the state that they protect; it ends with a result, or at an attempt to lock a mutex that the
thread holds already. -/

namespace Lock

/-- The error is the mutex at which the thread waits for itself. -/
abbrev Exec (M σ α : Type) := ReaderT (List M) (StateT σ (Except M)) α

namespace Exec

variable {M σ α β : Type}

/-- The scope of a `lock_guard`. -/
def withLock [DecidableEq M] (m : M) (body : Exec M σ α) : Exec M σ α :=
  fun held s => if m ∈ held then .error m else body (m :: held) s

/-- A critical section that locks nothing else. -/
def critical [DecidableEq M] (m : M) (f : σ → α × σ) : Exec M σ α := withLock m (modifyGet f)

/-- The thread ends up waiting for a mutex that it holds. -/
def SelfDeadlocks (x : Exec M σ α) (held : List M) (s : σ) : Prop := ∃ m, x held s = .error m

/-- The thread comes to the end of the program. -/
def Ends (x : Exec M σ α) (held : List M) (s : σ) (a : α) (s' : σ) : Prop := x held s = .ok (a, s')

theorem not_selfDeadlocks_iff {x : Exec M σ α} {held : List M} {s : σ} :
    ¬SelfDeadlocks x held s ↔ ∃ a s', Ends x held s a s' := by
  unfold SelfDeadlocks Ends
  cases h : x held s with
  | error m => simp
  | ok r => exact iff_of_true (by simp) ⟨r.1, r.2, rfl⟩

theorem Ends.not_selfDeadlocks {x : Exec M σ α} {held : List M} {s s' : σ} {a : α}
    (h : Ends x held s a s') : ¬SelfDeadlocks x held s :=
  not_selfDeadlocks_iff.mpr ⟨a, s', h⟩

theorem ends_pure (a : α) (held : List M) (s : σ) : Ends (pure a) held s a s := rfl

theorem ends_get (held : List M) (s : σ) : Ends (get : Exec M σ σ) held s s s := rfl

theorem ends_modify (f : σ → σ) (held : List M) (s : σ) :
    Ends (modify f : Exec M σ PUnit) held s PUnit.unit (f s) := rfl

/-- After an ended program the next one takes over. -/
theorem Ends.bind_eq {x : Exec M σ α} {held : List M} {s s' : σ} {a : α} (h : Ends x held s a s')
    (f : α → Exec M σ β) : (x >>= f) held s = f a held s' := by
  change (x held s >>= fun r => f r.1 held r.2) = _
  rw [show x held s = .ok (a, s') from h]
  rfl

theorem Ends.bind {x : Exec M σ α} {f : α → Exec M σ β} {held : List M} {s s' s'' : σ} {a : α} {b : β}
    (h : Ends x held s a s') (h' : Ends (f a) held s' b s'') : Ends (x >>= f) held s b s'' :=
  (h.bind_eq f).trans h'

theorem Ends.selfDeadlocks_bind {x : Exec M σ α} {held : List M} {s s' : σ} {a : α}
    (h : Ends x held s a s') (f : α → Exec M σ β) :
    SelfDeadlocks (x >>= f) held s ↔ SelfDeadlocks (f a) held s' := by
  unfold SelfDeadlocks
  rw [h.bind_eq f]

theorem SelfDeadlocks.bind {x : Exec M σ α} {held : List M} {s : σ} (h : SelfDeadlocks x held s)
    (f : α → Exec M σ β) : SelfDeadlocks (x >>= f) held s := by
  obtain ⟨m, hm⟩ := h
  refine ⟨m, ?_⟩
  change (x held s >>= fun r => f r.1 held r.2) = _
  rw [hm]
  rfl

/-- A program that is followed by one that comes to its end. -/
theorem selfDeadlocks_bind_iff {x : Exec M σ α} {f : α → Exec M σ β} {held : List M} {s : σ}
    (h : ∀ a s', ¬SelfDeadlocks (f a) held s') :
    SelfDeadlocks (x >>= f) held s ↔ SelfDeadlocks x held s := by
  refine ⟨fun hdead => Classical.byContradiction fun hno => ?_, fun hdead => hdead.bind f⟩
  obtain ⟨a, s', hends⟩ := not_selfDeadlocks_iff.mp hno
  exact h a s' ((hends.selfDeadlocks_bind f).mp hdead)

theorem get_bind (f : σ → Exec M σ β) (held : List M) (s : σ) :
    (get >>= f : Exec M σ β) held s = f s held s := rfl

theorem modify_bind (g : σ → σ) (f : PUnit → Exec M σ β) (held : List M) (s : σ) :
    (modify g >>= f : Exec M σ β) held s = f PUnit.unit held (g s) := rfl

theorem forM_cons (f : β → Exec M σ PUnit) (first : β) (rest : List β) :
    (first :: rest).forM f = (f first >>= fun _ => rest.forM f) := rfl

variable [DecidableEq M]

theorem withLock_held {m : M} {held : List M} (h : m ∈ held) (body : Exec M σ α) (s : σ) :
    SelfDeadlocks (withLock m body) held s :=
  ⟨m, if_pos h⟩

theorem withLock_eq {m : M} {held : List M} (h : m ∉ held) (body : Exec M σ α) (s : σ) :
    withLock m body held s = body (m :: held) s := if_neg h

theorem withLock_ends {m : M} {held : List M} (h : m ∉ held) {body : Exec M σ α} {s s' : σ} {a : α}
    (hbody : Ends body (m :: held) s a s') : Ends (withLock m body) held s a s' :=
  (withLock_eq h body s).trans hbody

theorem withLock_selfDeadlocks {m : M} {held : List M} (h : m ∉ held) {body : Exec M σ α} {s : σ} :
    SelfDeadlocks (withLock m body) held s ↔ SelfDeadlocks body (m :: held) s := by
  unfold SelfDeadlocks
  rw [withLock_eq h]

theorem critical_ends {m : M} {held : List M} (h : m ∉ held) (f : σ → α × σ) (s : σ) :
    Ends (critical m f) held s (f s).1 (f s).2 :=
  withLock_ends h rfl

/-- Locks some mutexes, one after the other. -/
def lockEach (ms : List M) : Exec M σ Unit := ms.forM fun m => withLock m (pure ())

theorem lockEach_ends {ms held : List M} (h : ∀ m ∈ ms, m ∉ held) (s : σ) :
    Ends (lockEach ms) held s () s := by
  induction ms with
  | nil => exact ends_pure () held s
  | cons m ms ih =>
      have hfirst : Ends (withLock m (pure ()) : Exec M σ Unit) held s () s :=
        withLock_ends (h m List.mem_cons_self) (ends_pure () _ s)
      exact hfirst.bind (ih fun m' hm' => h m' (List.mem_cons_of_mem _ hm'))

theorem lockEach_selfDeadlocks {ms held : List M} {m : M} (hm : m ∈ ms) (hheld : m ∈ held) (s : σ) :
    SelfDeadlocks (lockEach ms) held s := by
  induction ms with
  | nil => cases hm
  | cons first ms ih =>
      by_cases hfirst : first ∈ held
      · exact SelfDeadlocks.bind (withLock_held hfirst _ s) _
      · have hends : Ends (withLock first (pure ()) : Exec M σ Unit) held s () s :=
          withLock_ends hfirst (ends_pure () _ s)
        have hrest : m ∈ ms := (List.mem_cons.mp hm).resolve_left fun heq => hfirst (heq ▸ hheld)
        exact (hends.selfDeadlocks_bind _).mpr (ih hrest)

end Exec

end Lock

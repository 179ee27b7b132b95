import LspCpp.LibTransition
import Mathlib.Data.List.Basic

/-! Calls that wait at a condition variable. A mutex guards the state of a transition system: an operation is one
critical section. A call of the blocking operation sleeps while that is not enabled, and is woken by those who may have
enabled it, who notify one sleeper or all of them after their own critical sections; a sleeper may also wake for no
reason. -/

namespace Monitor

open Transition

variable {σ α T : Type*}

/-- Whom an operation wakes. -/
inductive Signal where
  | silent
  | one
  | all
  deriving DecidableEq

/-- `sleeping` are the threads at the condition variable and `awake` those that have been woken and have to take the
mutex again; `ones` and `alls` count the calls of `notify_one` and `notify_all` that are still to come. -/
structure State (σ T : Type*) where
  data : σ
  sleeping : List T := []
  awake : List T := []
  ones : Nat := 0
  alls : Nat := 0

inductive Action (α T : Type*) where
  | call (t : T)
  | perform (a : α)
  | notifyOne (woken : Option T)
  | notifyAll
  | spurious (t : T)
  | retry (t : T)

/-- The steps that lead a call on. -/
def Action.IsWakeUp : Action α T → Prop
  | .notifyOne _ | .notifyAll | .retry _ => True
  | .call _ | .perform _ | .spurious _ => False

namespace State

section Parts

variable (S : System σ α) (blocking : α)

/-- A thread with the mutex finds the operation enabled and does it, or goes to sleep. -/
def attempt (s : State σ T) (t : T) : State σ T :=
  match S.step blocking s.data with
  | some data => { s with data := data }
  | none => { s with sleeping := t :: s.sleeping }

/-- What is to be notified after an operation. -/
def announce (s : State σ T) : Signal → State σ T
  | .silent => s
  | .one => { s with ones := s.ones + 1 }
  | .all => { s with alls := s.alls + 1 }

/-- No wake-up is under way. -/
def Idle (s : State σ T) : Prop := s.awake = [] ∧ s.ones = 0 ∧ s.alls = 0

/-- A bound for the wake-ups that are under way. -/
def underway (s : State σ T) : Nat :=
  (s.ones + s.alls) * (s.sleeping.length + s.awake.length + 1) + s.awake.length

variable {S blocking}

theorem attempt_cases (s : State σ T) (t : T) :
    (∃ data, S.step blocking s.data = some data ∧ s.attempt S blocking t = { s with data := data }) ∨
      S.step blocking s.data = none ∧ s.attempt S blocking t = { s with sleeping := t :: s.sleeping } := by
  unfold attempt
  cases h : S.step blocking s.data with
  | some data => exact .inl ⟨data, rfl, rfl⟩
  | none => exact .inr ⟨rfl, rfl⟩

theorem announce_data (s : State σ T) (kind : Signal) :
    (s.announce kind).data = s.data ∧ (s.announce kind).sleeping = s.sleeping ∧ (s.announce kind).awake = s.awake := by
  cases kind <;> exact ⟨rfl, rfl, rfl⟩

end Parts

variable [DecidableEq T] (S : System σ α) (blocking : α) (signal : α → Signal)

def wake (s : State σ T) (t : T) : State σ T := { s with sleeping := s.sleeping.erase t, awake := t :: s.awake }

def step : Action α T → State σ T → Option (State σ T)
  | .call t, s => if t ∉ s.sleeping ∧ t ∉ s.awake then some (s.attempt S blocking t) else none
  | .perform a, s => (S.step a s.data).map fun data => { s with data := data }.announce (signal a)
  | .notifyOne (some t), s => if 0 < s.ones ∧ t ∈ s.sleeping then some ({ s with ones := s.ones - 1 }.wake t) else none
  | .notifyOne none, s => if 0 < s.ones ∧ s.sleeping = [] then some { s with ones := s.ones - 1 } else none
  | .notifyAll, s =>
      if 0 < s.alls then some { s with alls := s.alls - 1, sleeping := [], awake := s.sleeping ++ s.awake } else none
  | .spurious t, s => if t ∈ s.sleeping then some (s.wake t) else none
  | .retry t, s =>
      if t ∈ s.awake then some ({ s with awake := s.awake.erase t }.attempt S blocking t) else none

end State

section Counts

variable {S : System σ α} {blocking : α} {signal : α → Signal} {s : State σ T} {work : σ → Nat}

/-- A count of what the blocking operation takes. An operation that notifies one thread adds one at most. -/
structure Counts (S : System σ α) (blocking : α) (signal : α → Signal) (work : σ → Nat) : Prop where
  blocked : ∀ {data}, S.step blocking data = none ↔ work data = 0
  taken : ∀ {data data'}, S.step blocking data = some data' → work data' < work data
  silent : ∀ {a data data'}, signal a = .silent → S.step a data = some data' → work data' ≤ work data
  one : ∀ {a data data'}, signal a = .one → S.step a data = some data' → work data' ≤ work data + 1

/-- As long as a thread sleeps, there are as many wake-ups under way as there is for the blocking operation to take. -/
def Attended (work : σ → Nat) (s : State σ T) : Prop :=
  s.sleeping ≠ [] → 0 < s.alls ∨ work s.data ≤ s.awake.length + s.ones

theorem Attended.call (hcounts : Counts S blocking signal work) (h : Attended work s) (t : T) :
    Attended work (s.attempt S blocking t) := by
  rcases s.attempt_cases t with ⟨data, hdata, heq⟩ | ⟨hnone, heq⟩ <;> rw [heq] <;> intro hsleeping
  · have hless := hcounts.taken hdata
    refine (h hsleeping).imp_right fun hle => ?_
    dsimp only
    omega
  · have hzero := hcounts.blocked.mp hnone
    right
    dsimp only
    omega

theorem Attended.perform (hcounts : Counts S blocking signal work) (h : Attended work s) {a : α} {data : σ}
    (hdata : S.step a s.data = some data) : Attended work ({ s with data := data }.announce (signal a)) := by
  intro hsleeping
  cases hsignal : signal a <;> rw [hsignal] at hsleeping
  · have hle := hcounts.silent hsignal hdata
    exact (h hsleeping).imp_right fun hold => Nat.le_trans hle hold
  · have hle := hcounts.one hsignal hdata
    refine (h hsleeping).imp_right fun hold => ?_
    show work data ≤ s.awake.length + (s.ones + 1)
    omega
  · exact .inl (Nat.succ_pos _)

/-- When no wake-up is under way, nobody sleeps while the operation is enabled. -/
theorem Attended.of_idle (hcounts : Counts S blocking signal work) (h : Attended work s) (hidle : s.Idle) :
    s.sleeping = [] ∨ S.step blocking s.data = none := by
  obtain ⟨hawake, hones, halls⟩ := hidle
  by_cases hsleeping : s.sleeping = []
  · exact .inl hsleeping
  · right
    rw [hcounts.blocked]
    rcases h hsleeping with hpos | hle
    · omega
    · rw [hawake, hones] at hle
      exact Nat.le_zero.mp hle

theorem underway_attempt (S : System σ α) (blocking : α) (s : State σ T) (t : T) :
    (s.attempt S blocking t).underway ≤ (s.ones + s.alls) * (s.sleeping.length + s.awake.length + 2) +
      s.awake.length := by
  rcases s.attempt_cases t with ⟨data, _, heq⟩ | ⟨_, heq⟩ <;> rw [heq]
  · show (s.ones + s.alls) * (s.sleeping.length + s.awake.length + 1) + s.awake.length ≤ _
    exact Nat.add_le_add_right (Nat.mul_le_mul_left _ (by omega)) _
  · show (s.ones + s.alls) * ((t :: s.sleeping).length + s.awake.length + 1) + s.awake.length ≤ _
    rw [List.length_cons]
    exact Nat.add_le_add_right (Nat.mul_le_mul_left _ (by omega)) _

end Counts

section Rules

variable [DecidableEq T] (S : System σ α) (blocking : α) (signal : α → Signal)

/-- The monitor over a system. -/
def system (T : Type*) [DecidableEq T] : System (State σ T) (Action α T) where
  init s := ∃ data, S.init data ∧ s = { data := data }
  step := State.step S blocking signal

variable {S blocking signal} {s s' : State σ T} {work : σ → Nat}

/-! ### What one step can do -/

namespace State

theorem step_call {t : T} (h : step S blocking signal (.call t) s = some s') : s' = s.attempt S blocking t :=
  (of_guard h).2

theorem step_perform {a : α} (h : step S blocking signal (.perform a) s = some s') :
    ∃ data, S.step a s.data = some data ∧ s' = { s with data := data }.announce (signal a) := by
  obtain ⟨data, hdata, rfl⟩ := Option.map_eq_some_iff.mp h
  exact ⟨data, hdata, rfl⟩

theorem step_notifyOne {woken : Option T} (h : step S blocking signal (.notifyOne woken) s = some s') :
    0 < s.ones ∧ ((∃ t ∈ s.sleeping, s' = { s with ones := s.ones - 1 }.wake t) ∨
      s.sleeping = [] ∧ s' = { s with ones := s.ones - 1 }) := by
  cases woken with
  | none =>
      obtain ⟨⟨hones, hsleeping⟩, rfl⟩ := of_guard h
      exact ⟨hones, .inr ⟨hsleeping, rfl⟩⟩
  | some t =>
      obtain ⟨⟨hones, hsleeping⟩, rfl⟩ := of_guard h
      exact ⟨hones, .inl ⟨t, hsleeping, rfl⟩⟩

theorem step_notifyAll (h : step S blocking signal .notifyAll s = some s') :
    0 < s.alls ∧ s' = { s with alls := s.alls - 1, sleeping := [], awake := s.sleeping ++ s.awake } := of_guard h

theorem step_spurious {t : T} (h : step S blocking signal (.spurious t) s = some s') : t ∈ s.sleeping ∧ s' = s.wake t :=
  of_guard h

theorem step_retry {t : T} (h : step S blocking signal (.retry t) s = some s') :
    t ∈ s.awake ∧ s' = { s with awake := s.awake.erase t }.attempt S blocking t := of_guard h

theorem length_erase_awake {t : T} (h : t ∈ s.awake) : (s.awake.erase t).length + 1 = s.awake.length := by
  rw [List.length_erase_of_mem h]
  have hpos := List.length_pos_of_mem h
  omega

end State

/-- The guarded state is reached by the operations alone. -/
theorem reachable_data (hs : (system S blocking signal T).Reachable s) : S.Reachable s.data := by
  refine hs.project State.data ?_ fun a s s' _ _ h => ?_
  · rintro s ⟨data, hdata, rfl⟩
    exact hdata
  · have hattempt : ∀ (s : State σ T) t, (s.attempt S blocking t).data = s.data ∨
        ∃ b, True ∧ S.step b s.data = some (s.attempt S blocking t).data := by
      intro s t
      rcases s.attempt_cases t with ⟨data, hdata, heq⟩ | ⟨_, heq⟩ <;> rw [heq]
      · exact .inr ⟨blocking, trivial, hdata⟩
      · exact .inl rfl
    have hstep : State.step S blocking signal a s = some s' := h
    cases a with
    | call t =>
        rw [State.step_call hstep]
        exact hattempt s t
    | perform a =>
        obtain ⟨data, hdata, rfl⟩ := State.step_perform hstep
        refine .inr ⟨a, trivial, ?_⟩
        rw [(State.announce_data _ _).1]
        exact hdata
    | notifyOne woken =>
        obtain ⟨_, ⟨_, _, rfl⟩ | ⟨_, rfl⟩⟩ := State.step_notifyOne hstep <;> exact .inl rfl
    | notifyAll =>
        obtain ⟨_, rfl⟩ := State.step_notifyAll hstep
        exact .inl rfl
    | spurious t =>
        obtain ⟨_, rfl⟩ := State.step_spurious hstep
        exact .inl rfl
    | retry t =>
        obtain ⟨_, rfl⟩ := State.step_retry hstep
        exact hattempt _ t

namespace Attended

/-- A woken thread takes something, or there is nothing to take. -/
theorem retry (hcounts : Counts S blocking signal work) (h : Attended work s) {t : T} (ht : t ∈ s.awake) :
    Attended work ({ s with awake := s.awake.erase t }.attempt S blocking t) := by
  have hlength := State.length_erase_awake ht
  rcases State.attempt_cases { s with awake := s.awake.erase t } t with ⟨data, hdata, heq⟩ | ⟨hnone, heq⟩ <;>
    rw [heq] <;>
    intro hsleeping
  · have hless := hcounts.taken hdata
    refine (h hsleeping).imp_right fun hle => ?_
    dsimp only at hless ⊢
    omega
  · have hzero := hcounts.blocked.mp hnone
    right
    dsimp only at hzero ⊢
    omega

theorem wake (h : Attended work s) {t : T} (ht : t ∈ s.sleeping) : Attended work (s.wake t) := by
  intro _
  refine (h (List.ne_nil_of_mem ht)).imp_right fun hle => ?_
  show work s.data ≤ (t :: s.awake).length + s.ones
  rw [List.length_cons]
  omega

theorem notifyOne (h : Attended work s) {t : T} (ht : t ∈ s.sleeping) (hones : 0 < s.ones) :
    Attended work ({ s with ones := s.ones - 1 }.wake t) := by
  intro _
  refine (h (List.ne_nil_of_mem ht)).imp_right fun hle => ?_
  show work s.data ≤ (t :: s.awake).length + (s.ones - 1)
  rw [List.length_cons]
  omega

theorem step (hcounts : Counts S blocking signal work) (h : Attended work s) {a : Action α T}
    (hstep : State.step S blocking signal a s = some s') : Attended work s' := by
  cases a with
  | call t =>
      rw [State.step_call hstep]
      exact h.call hcounts t
  | perform a =>
      obtain ⟨data, hdata, rfl⟩ := State.step_perform hstep
      exact h.perform hcounts hdata
  | notifyOne woken =>
      obtain ⟨hones, ⟨t, ht, rfl⟩ | ⟨hsleeping, rfl⟩⟩ := State.step_notifyOne hstep
      · exact h.notifyOne ht hones
      · exact fun hne => absurd hsleeping hne
  | notifyAll =>
      obtain ⟨_, rfl⟩ := State.step_notifyAll hstep
      exact fun hne => absurd rfl hne
  | spurious t =>
      obtain ⟨ht, rfl⟩ := State.step_spurious hstep
      exact h.wake ht
  | retry t =>
      obtain ⟨ht, rfl⟩ := State.step_retry hstep
      exact h.retry hcounts ht

end Attended

/-- The rule: no wake-up is lost where what notifies one thread adds one thing at most. -/
theorem attended_of_reachable (hcounts : Counts S blocking signal work)
    (hs : (system S blocking signal T).Reachable s) : Attended work s := by
  refine hs.invariant (Attended work) ?_ fun _ _ _ h _ hstep => h.step hcounts hstep
  rintro s ⟨data, _, rfl⟩
  exact fun hne => absurd rfl hne

theorem underway_wake {t : T} (ht : t ∈ s.sleeping) (n : Nat) :
    ({ s with ones := n }.wake t).underway = (n + s.alls) * (s.sleeping.length + s.awake.length + 1) +
      s.awake.length + 1 := by
  have hpos := List.length_pos_of_mem ht
  have hsum : s.sleeping.length - 1 + (s.awake.length + 1) + 1 = s.sleeping.length + s.awake.length + 1 := by omega
  show (n + s.alls) * ((s.sleeping.erase t).length + (t :: s.awake).length + 1) + (t :: s.awake).length = _
  rw [List.length_erase_of_mem ht, List.length_cons, hsum]
  exact (Nat.add_assoc ..).symm

theorem underway_step {a : Action α T} (ha : a.IsWakeUp) (h : State.step S blocking signal a s = some s') :
    s'.underway < s.underway := by
  cases a with
  | call t => cases ha
  | perform a => cases ha
  | spurious t => cases ha
  | notifyOne woken =>
      obtain ⟨hones, ⟨t, ht, rfl⟩ | ⟨hsleeping, rfl⟩⟩ := State.step_notifyOne h
      · have hpos := List.length_pos_of_mem ht
        have hsplit : s.ones + s.alls = s.ones - 1 + s.alls + 1 := by omega
        rw [underway_wake ht, State.underway, hsplit, Nat.add_one_mul]
        omega
      · have hsplit : s.ones + s.alls = s.ones - 1 + s.alls + 1 := by omega
        rw [State.underway, State.underway, hsplit, Nat.add_one_mul]
        dsimp only
        omega
  | notifyAll =>
      obtain ⟨halls, rfl⟩ := State.step_notifyAll h
      have hsplit : s.ones + s.alls = s.ones + (s.alls - 1) + 1 := by omega
      rw [State.underway, State.underway, hsplit, Nat.add_one_mul, List.length_append, List.length_nil]
      dsimp only
      rw [Nat.zero_add]
      omega
  | retry t =>
      obtain ⟨ht, rfl⟩ := State.step_retry h
      have hlength := State.length_erase_awake ht
      have hle := underway_attempt S blocking { s with awake := s.awake.erase t } t
      have hsum : s.sleeping.length + (s.awake.erase t).length + 2 = s.sleeping.length + s.awake.length + 1 := by omega
      dsimp only at hle
      rw [hsum] at hle
      show _ < (s.ones + s.alls) * (s.sleeping.length + s.awake.length + 1) + s.awake.length
      omega

/-- There are no more wake-ups than are under way. -/
theorem wakeUps_length {wakeUps : List (Action α T)} (hwakeUps : ∀ a ∈ wakeUps, a.IsWakeUp)
    (hrun : (system S blocking signal T).run wakeUps s = some s') : wakeUps.length + s'.underway ≤ s.underway := by
  induction wakeUps generalizing s with
  | nil =>
      cases hrun
      exact Nat.le_of_eq (Nat.zero_add _)
  | cons a rest ih =>
      obtain ⟨next, hnext, hrest⟩ := Option.bind_eq_some_iff.mp hrun
      have hless := underway_step (hwakeUps a List.mem_cons_self) hnext
      have hle := ih (fun b hb => hwakeUps b (List.mem_cons_of_mem _ hb)) hrest
      rw [List.length_cons]
      omega

/-- As long as one is under way, a step leads it on. -/
theorem idle_or_wakeUp (S : System σ α) (blocking : α) (signal : α → Signal) (s : State σ T) :
    s.Idle ∨ ∃ a : Action α T, a.IsWakeUp ∧ ∃ s', State.step S blocking signal a s = some s' := by
  by_cases halls : 0 < s.alls
  · exact .inr ⟨.notifyAll, trivial, _, if_pos halls⟩
  · by_cases hones : 0 < s.ones
    · cases hsleeping : s.sleeping with
      | nil => exact .inr ⟨.notifyOne none, trivial, _, if_pos ⟨hones, hsleeping⟩⟩
      | cons t rest =>
          have ht : t ∈ s.sleeping := hsleeping ▸ List.mem_cons_self
          exact .inr ⟨.notifyOne (some t), trivial, _, if_pos ⟨hones, ht⟩⟩
    · cases hawake : s.awake with
      | nil => exact .inl ⟨hawake, by omega, by omega⟩
      | cons t rest =>
          have ht : t ∈ s.awake := hawake ▸ List.mem_cons_self
          exact .inr ⟨.retry t, trivial, _, if_pos ht⟩

end Rules

end Monitor

import LspCpp.LibTransition
import Mathlib.Data.List.Perm.Basic

/-! The loop that completes the requests whose handlers have handed out futures: it polls each of them in turn, and
waits for a while when a whole pass over them has made no progress. -/

namespace LspCpp

/-- Where `asyncCompletionLoop` is: before it takes the lock, in `wait_for` with the size that the queue had, in the
completion that it has taken out, or before it puts that back. -/
inductive LoopPoint where
  | ended
  | locking
  | waiting (sizeBeforeWait : Nat)
  | running (completion : Nat)
  | requeueing (completion : Nat)
  deriving DecidableEq, Repr

/-- The completions are numbered by their posts. `ready` are those whose futures have a value, `polls` is how often one
was called; `discarded` were refused or cleared. `polledInStreak` and `postedInStreak` are those since `pending_streak`
was zero. -/
structure CompletionLoop where
  asyncCompletionStop : Bool := false
  quit : Bool := false
  asyncCompletions : List Nat := []
  pendingStreak : Nat := 0
  point : LoopPoint := .ended
  next : Nat := 0
  ready : List Nat := []
  polls : Nat := 0
  completed : List Nat := []
  discarded : List Nat := []
  polledInStreak : List Nat := []
  postedInStreak : List Nat := []
  deriving DecidableEq, Repr

inductive CompletionAction where
  | start
  | post
  | becomesReady (completion : Nat)
  | setQuit (quit : Bool)
  | lock
  | wake (timedOut : Bool)
  | call (throws : Bool)
  | requeue
  | stop
  deriving DecidableEq, Repr

namespace CompletionLoop

/-- `startAsyncCompletionLoop`, which makes a thread only when there is none. The starts and the stops of an endpoint
exclude one another, and a stop joins the thread. -/
def startAsyncCompletionLoop (s : CompletionLoop) : CompletionLoop :=
  if s.point = .ended then
    { s with
      asyncCompletionStop := false
      point := .locking
      pendingStreak := 0
      polledInStreak := []
      postedInStreak := [] }
  else { s with asyncCompletionStop := false }

def postAsyncCompletion (s : CompletionLoop) : CompletionLoop :=
  if s.asyncCompletionStop || s.quit then { s with next := s.next + 1, discarded := s.next :: s.discarded }
  else
    { s with
      next := s.next + 1
      asyncCompletions := s.asyncCompletions ++ [s.next]
      postedInStreak := s.next :: s.postedInStreak }

/-- The critical section of `stopAsyncCompletionLoop`. -/
def stopAsyncCompletionLoop (s : CompletionLoop) : CompletionLoop :=
  { s with asyncCompletionStop := true, asyncCompletions := [], discarded := s.asyncCompletions ++ s.discarded }

/-- The front of the queue is taken out and called. -/
def takeFront (s : CompletionLoop) : Option CompletionLoop :=
  match s.asyncCompletions with
  | completion :: rest =>
      some { s with asyncCompletions := rest, point := .running completion, polls := s.polls + 1 }
  | [] => none

/-- Behind the first wait. -/
def lock (s : CompletionLoop) : Option CompletionLoop :=
  if s.asyncCompletionStop then some { s with point := .ended }
  else if s.asyncCompletions = [] then none
  else if s.asyncCompletions.length ≤ s.pendingStreak then some { s with point := .waiting s.asyncCompletions.length }
  else s.takeFront

/-- Behind the second one. -/
def wake (s : CompletionLoop) : Option CompletionLoop :=
  if s.asyncCompletionStop then some { s with point := .ended }
  else takeFront { s with pendingStreak := 0, polledInStreak := [], postedInStreak := [] }

/-- The completion is called, and catches what it throws. -/
def call (s : CompletionLoop) (completion : Nat) (throws : Bool) : CompletionLoop :=
  if completion ∈ s.ready ∨ throws then
    { s with
      point := .locking
      completed := completion :: s.completed
      pendingStreak := 0
      polledInStreak := []
      postedInStreak := [] }
  else { s with point := .requeueing completion }

def requeue (s : CompletionLoop) (completion : Nat) : CompletionLoop :=
  if s.asyncCompletionStop then { s with point := .ended, discarded := completion :: s.discarded }
  else
    { s with
      asyncCompletions := s.asyncCompletions ++ [completion]
      pendingStreak := s.pendingStreak + 1
      point := .locking
      polledInStreak := completion :: s.polledInStreak }

def step : CompletionAction → CompletionLoop → Option CompletionLoop
  | .start, s => if s.asyncCompletionStop ∧ s.point ≠ .ended then none else some s.startAsyncCompletionLoop
  | .post, s => some s.postAsyncCompletion
  | .becomesReady completion, s => some { s with ready := completion :: s.ready }
  | .setQuit quit, s => some { s with quit := quit }
  | .lock, s => if s.point = .locking then s.lock else none
  | .wake timedOut, s =>
      match s.point with
      | .waiting sizeBeforeWait =>
          if timedOut ∨ s.asyncCompletionStop ∨ sizeBeforeWait < s.asyncCompletions.length then s.wake else none
      | _ => none
  | .call throws, s =>
      match s.point with
      | .running completion => some (s.call completion throws)
      | _ => none
  | .requeue, s =>
      match s.point with
      | .requeueing completion => some (s.requeue completion)
      | _ => none
  | .stop, s => some s.stopAsyncCompletionLoop

end CompletionLoop

/-- An endpoint whose loop has not been started. -/
def completionSystem : Transition.System CompletionLoop CompletionAction where
  init s := s = {}
  step := CompletionLoop.step

namespace LoopPoint

/-- The completion that the loop has taken out of the queue. -/
def held : LoopPoint → List Nat
  | .running completion => [completion]
  | .requeueing completion => [completion]
  | _ => []

end LoopPoint

namespace CompletionLoop

/-- Every place where a completion may be. -/
def places (s : CompletionLoop) : List Nat :=
  s.asyncCompletions ++ s.point.held ++ s.completed ++ s.discarded

/-- Each completion ever posted is at one place, and there once. -/
def Accounted (s : CompletionLoop) : Prop := s.places.Perm (List.range s.next)

/-- What a step can do, with what it found. -/
inductive Moved (a : CompletionAction) (s : CompletionLoop) : CompletionLoop → Prop
  | same : Moved a s s
  | started (hpoint : s.point = .ended) : Moved a s
      { s with
        asyncCompletionStop := false, point := .locking, pendingStreak := 0, polledInStreak := [],
        postedInStreak := [] }
  | refused : Moved a s { s with next := s.next + 1, discarded := s.next :: s.discarded }
  | posted (hstop : s.asyncCompletionStop = false) : Moved a s
      { s with
        next := s.next + 1
        asyncCompletions := s.asyncCompletions ++ [s.next]
        postedInStreak := s.next :: s.postedInStreak }
  | becameReady (completion : Nat) : Moved a s { s with ready := completion :: s.ready }
  | quitSet (quit : Bool) : Moved a s { s with quit := quit }
  | ended (hheld : s.point.held = []) : Moved a s { s with point := .ended }
  | waiting (hpoint : s.point = .locking) (hqueue : s.asyncCompletions ≠ [])
      (hstreak : s.asyncCompletions.length ≤ s.pendingStreak) : Moved a s
      { s with point := .waiting s.asyncCompletions.length }
  | taken {completion : Nat} {rest : List Nat} (hpoint : s.point = .locking)
      (hstreak : s.pendingStreak < s.asyncCompletions.length) (hqueue : s.asyncCompletions = completion :: rest) :
      Moved a s { s with asyncCompletions := rest, point := .running completion, polls := s.polls + 1 }
  | takenAnew {sizeBeforeWait completion : Nat} {rest : List Nat} (hpoint : s.point = .waiting sizeBeforeWait)
      (hqueue : s.asyncCompletions = completion :: rest) : Moved a s
      { s with
        asyncCompletions := rest
        point := .running completion
        polls := s.polls + 1
        pendingStreak := 0
        polledInStreak := []
        postedInStreak := [] }
  | called {completion : Nat} (hpoint : s.point = .running completion) : Moved a s
      { s with
        point := .locking
        completed := completion :: s.completed
        pendingStreak := 0
        polledInStreak := []
        postedInStreak := [] }
  | unready {completion : Nat} (hpoint : s.point = .running completion) (hready : completion ∉ s.ready) :
      Moved a s { s with point := .requeueing completion }
  | dropped {completion : Nat} (hpoint : s.point = .requeueing completion) (hstop : s.asyncCompletionStop) :
      Moved a s { s with point := .ended, discarded := completion :: s.discarded }
  | requeued {completion : Nat} (hpoint : s.point = .requeueing completion)
      (hstop : s.asyncCompletionStop = false) : Moved a s
      { s with
        asyncCompletions := s.asyncCompletions ++ [completion]
        pendingStreak := s.pendingStreak + 1
        point := .locking
        polledInStreak := completion :: s.polledInStreak }
  | stopped (ha : a = .stop) : Moved a s
      { s with asyncCompletionStop := true, asyncCompletions := [], discarded := s.asyncCompletions ++ s.discarded }

theorem step_moved {a : CompletionAction} {s s' : CompletionLoop} (h : step a s = some s') : Moved a s s' := by
  cases a with
  | start =>
      simp only [step] at h
      split_ifs at h with hjoining
      cases h
      unfold startAsyncCompletionLoop
      split_ifs with hended
      · exact .started hended
      · have hstop : s.asyncCompletionStop = false := by simpa [hended] using hjoining
        rw [show { s with asyncCompletionStop := false } = s by rw [← hstop]]
        exact .same
  | post =>
      cases h
      unfold postAsyncCompletion
      split_ifs with hrefused
      · exact .refused
      · exact .posted (by simp_all)
  | becomesReady completion =>
      cases h
      exact .becameReady completion
  | setQuit quit =>
      cases h
      exact .quitSet quit
  | lock =>
      simp only [step] at h
      split_ifs at h with hpoint
      unfold lock at h
      split_ifs at h with hstop hempty hstreak
      · cases h
        exact .ended (by simp [hpoint, LoopPoint.held])
      · cases h
        exact .waiting hpoint hempty hstreak
      · unfold takeFront at h
        split at h
        · rename_i completion rest hqueue
          cases h
          exact .taken hpoint (Nat.lt_of_not_le hstreak) hqueue
        · simp at h
  | wake timedOut =>
      simp only [step] at h
      split at h
      · rename_i sizeBeforeWait hpoint
        split_ifs at h with hwoken
        unfold wake at h
        split_ifs at h with hstop
        · cases h
          exact .ended (by simp [hpoint, LoopPoint.held])
        · unfold takeFront at h
          split at h
          · rename_i completion rest hqueue
            cases h
            exact .takenAnew hpoint hqueue
          · simp at h
      · simp at h
  | call throws =>
      simp only [step] at h
      split at h
      · rename_i completion hpoint
        cases h
        unfold call
        split_ifs with hdone
        · exact .called hpoint
        · exact .unready hpoint fun hready => hdone (.inl hready)
      · simp at h
  | requeue =>
      simp only [step] at h
      split at h
      · rename_i completion hpoint
        cases h
        unfold requeue
        split_ifs with hstop
        · exact .dropped hpoint hstop
        · exact .requeued hpoint (by simpa using hstop)
      · simp at h
  | stop =>
      cases h
      exact .stopped rfl

/-- A step leaves the completions where they are or moves one of them; only a post brings a new one. -/
theorem Moved.places {a : CompletionAction} {s s' : CompletionLoop} (h : Moved a s s') :
    s'.next = s.next ∧ s'.places.Perm s.places ∨
      s'.next = s.next + 1 ∧ s'.places.Perm (s.next :: s.places) := by
  simp only [CompletionLoop.places, List.perm_iff_count]
  cases h with
  | refused | posted =>
      refine .inr ⟨rfl, fun a => ?_⟩
      simp only [List.count_append, List.count_cons, List.count_nil]
      omega
  | ended hheld =>
      refine .inl ⟨rfl, fun a => ?_⟩
      rw [hheld]
      rfl
  | _ =>
      refine .inl ⟨rfl, fun a => ?_⟩
      simp only [*, LoopPoint.held, List.count_append, List.count_cons, List.count_nil]
      try omega

theorem reachable_accounted {s : CompletionLoop} (hs : completionSystem.Reachable s) : s.Accounted := by
  refine hs.invariant Accounted ?_ ?_
  · intro s hinit
    rw [show s = {} from hinit]
    exact List.Perm.refl _
  · intro a s s' hs _ hstep
    unfold Accounted at hs ⊢
    rcases (step_moved hstep).places with ⟨hnext, hplaces⟩ | ⟨hnext, hplaces⟩
    · rw [hnext]
      exact hplaces.trans hs
    · rw [hnext, List.range_succ]
      calc s'.places
        _ |>.Perm (s.next :: s.places) := hplaces
        _ |>.Perm (s.next :: List.range s.next) := hs.cons s.next
        _ |>.Perm (List.range s.next ++ [s.next]) := (List.perm_append_singleton _ _).symm

/-! ### Fairness -/

/-- The completion is ready, and queued or being called. -/
def Awaited (completion : Nat) (s : CompletionLoop) : Prop :=
  s.asyncCompletionStop = false ∧ completion ∈ s.ready ∧
    (completion ∈ s.asyncCompletions ∨ s.point = .running completion)

/-- How many polls there are up to the one of the completion. -/
def turns (completion : Nat) (s : CompletionLoop) : Nat :=
  if s.point = .running completion then 0 else s.asyncCompletions.idxOf completion + 1

/-- Nothing that moves the completion's turn has happened, but that others were posted or put back. -/
theorem turns_waiting {completion : Nat} {s s' : CompletionLoop} (hmem : completion ∈ s.asyncCompletions)
    (hqueue : s.asyncCompletions <+: s'.asyncCompletions) (hpoint : s.point ≠ .running completion)
    (hpoint' : s'.point ≠ .running completion) (hpolls : s'.polls = s.polls) :
    (completion ∈ s'.asyncCompletions ∨ s'.point = .running completion) ∧
      turns completion s' + s'.polls = turns completion s + s.polls := by
  obtain ⟨added, hadded⟩ := hqueue
  refine ⟨.inl (hadded ▸ List.mem_append_left _ hmem), ?_⟩
  rw [turns, turns, if_neg hpoint, if_neg hpoint', hpolls, ← hadded, List.idxOf_append_of_mem hmem]

/-- The front is polled: it was the completion's turn, or that is one nearer. -/
theorem turns_taken {completion front : Nat} {s s' : CompletionLoop} (hmem : completion ∈ s.asyncCompletions)
    (hqueue : s.asyncCompletions = front :: s'.asyncCompletions) (hpoint : s.point ≠ .running completion)
    (hpoint' : s'.point = .running front) (hpolls : s'.polls = s.polls + 1) :
    (completion ∈ s'.asyncCompletions ∨ s'.point = .running completion) ∧
      turns completion s' + s'.polls = turns completion s + s.polls := by
  rw [turns, turns, if_neg hpoint, hpolls, hqueue]
  by_cases hfront : front = completion
  · refine ⟨.inr (by rw [hpoint', hfront]), ?_⟩
    rw [hfront, if_pos (hfront ▸ hpoint'), List.idxOf_cons_self]
    omega
  · rw [hqueue] at hmem
    refine ⟨.inl ((List.mem_cons.mp hmem).resolve_left (Ne.symm hfront)), ?_⟩
    rw [if_neg (by simp [hpoint', hfront]), List.idxOf_cons_ne _ hfront]
    omega

theorem Moved.queued {completion : Nat} {a : CompletionAction} {s s' : CompletionLoop} (h : Moved a s s')
    (hstop : s'.asyncCompletionStop = false)
    (hmem : completion ∈ s.asyncCompletions) (hpoint : s.point ≠ .running completion) :
    (completion ∈ s'.asyncCompletions ∨ s'.point = .running completion) ∧
      turns completion s' + s'.polls = turns completion s + s.polls := by
  cases h
  case stopped => simp at hstop
  case taken hlocking hstreak hqueue => exact turns_taken hmem hqueue hpoint rfl rfl
  case takenAnew hwaiting hqueue => exact turns_taken hmem hqueue hpoint rfl rfl
  case posted => exact turns_waiting hmem (List.prefix_append _ _) hpoint hpoint rfl
  case requeued => exact turns_waiting hmem (List.prefix_append _ _) hpoint nofun rfl
  case started | ended | waiting | called | unready | dropped =>
    exact turns_waiting hmem (List.prefix_refl _) hpoint nofun rfl
  case same | refused | becameReady | quitSet =>
    exact turns_waiting hmem (List.prefix_refl _) hpoint hpoint rfl

/-- The one that is called completes, since it is ready. -/
theorem Moved.running {completion : Nat} {a : CompletionAction} {s s' : CompletionLoop} (h : Moved a s s')
    (hready : completion ∈ s.ready) (hpoint : s.point = .running completion) :
    completion ∈ s'.completed ∨ s'.point = .running completion ∧ s'.polls = s.polls := by
  cases h
  case called completion' hpoint' =>
    rw [hpoint] at hpoint'
    cases hpoint'
    exact .inl (List.mem_cons_self ..)
  case unready completion' hpoint' hunready =>
    rw [hpoint] at hpoint'
    cases hpoint'
    exact absurd hready hunready
  case same | refused | posted | becameReady | quitSet | stopped => exact .inr ⟨hpoint, rfl⟩
  all_goals simp_all [LoopPoint.held]

theorem Moved.completed {completion : Nat} {a : CompletionAction} {s s' : CompletionLoop} (h : Moved a s s')
    (hdone : completion ∈ s.completed) : completion ∈ s'.completed := by
  cases h
  case called => exact List.mem_cons_of_mem _ hdone
  all_goals exact hdone

theorem Moved.ready {completion : Nat} {a : CompletionAction} {s s' : CompletionLoop} (h : Moved a s s')
    (hready : completion ∈ s.ready) : completion ∈ s'.ready := by
  cases h
  case becameReady => exact List.mem_cons_of_mem _ hready
  all_goals exact hready

/-- Only `stop` stops the loop. -/
theorem Moved.unstopped {a : CompletionAction} {s s' : CompletionLoop} (h : Moved a s s') (ha : a ≠ .stop)
    (hstop : s.asyncCompletionStop = false) : s'.asyncCompletionStop = false := by
  cases h
  case started => rfl
  case stopped hstopped => exact absurd hstopped ha
  all_goals exact hstop

theorem awaited_step {completion : Nat} {a : CompletionAction} {s s' : CompletionLoop} (hs : Awaited completion s)
    (ha : a ≠ .stop) (h : step a s = some s') :
    completion ∈ s'.completed ∨
      Awaited completion s' ∧ turns completion s' + s'.polls ≤ turns completion s + s.polls := by
  obtain ⟨hstop, hready, hplace⟩ := hs
  have hstop' := (step_moved h).unstopped ha hstop
  have hready' := (step_moved h).ready hready
  by_cases hpoint : s.point = .running completion
  · refine ((step_moved h).running hready hpoint).imp_right fun ⟨hpoint', hpolls⟩ => ?_
    refine ⟨⟨hstop', hready', .inr hpoint'⟩, ?_⟩
    apply Nat.le_of_eq
    rw [turns, turns, if_pos hpoint, if_pos hpoint', hpolls]
  · obtain ⟨hplace', hturn⟩ := (step_moved h).queued hstop' (hplace.resolve_right hpoint) hpoint
    exact .inr ⟨⟨hstop', hready', hplace'⟩, Nat.le_of_eq hturn⟩

/-! ### Waiting -/

/-- The completions that the streak has not come to are at the front, and the queue is longer than the streak by at
least as many. -/
def Passed (s : CompletionLoop) : Prop :=
  ∃ ahead behind : List Nat, s.asyncCompletions = ahead ++ behind ∧
    (∀ completion ∈ behind, completion ∈ s.polledInStreak ∨ completion ∈ s.postedInStreak) ∧
    (ahead ≠ [] → ahead.length + s.pendingStreak ≤ s.asyncCompletions.length)

/-- The loop waits only after a whole pass over the queue, and finds a completion in it behind the wait. -/
structure BacksOff (s : CompletionLoop) : Prop where
  counted : s.polledInStreak.length = s.pendingStreak
  bounded : s.asyncCompletionStop = false → s.pendingStreak ≤ s.asyncCompletions.length
  queued : ∀ size, s.point = .waiting size → s.asyncCompletionStop = false → s.asyncCompletions ≠ []
  polled : ∀ size, s.point = .waiting size → s.asyncCompletionStop = false → ∀ completion ∈ s.asyncCompletions,
    completion ∈ s.polledInStreak ∨ completion ∈ s.postedInStreak

theorem Passed.fresh {s : CompletionLoop} (hstreak : s.pendingStreak = 0) : s.Passed :=
  ⟨s.asyncCompletions, [], by simp, nofun, fun _ => by simp [hstreak]⟩

theorem Passed.all {s : CompletionLoop} (h : s.Passed) (hstreak : s.asyncCompletions.length ≤ s.pendingStreak) :
    ∀ completion ∈ s.asyncCompletions, completion ∈ s.polledInStreak ∨ completion ∈ s.postedInStreak := by
  obtain ⟨ahead, behind, hqueue, hbehind, hahead⟩ := h
  have hnone : ahead = [] := by
    by_contra hne
    have hlong := hahead hne
    have hpos := List.length_pos_of_ne_nil hne
    omega
  rw [hqueue, hnone, List.nil_append]
  exact hbehind

/-- One more completion behind, which the streak knows. -/
theorem Passed.concat {s s' : CompletionLoop} {added : Nat} (h : s.Passed)
    (hqueue : s'.asyncCompletions = s.asyncCompletions ++ [added])
    (hadded : added ∈ s'.polledInStreak ∨ added ∈ s'.postedInStreak) (hpolled : s.polledInStreak ⊆ s'.polledInStreak)
    (hposted : s.postedInStreak ⊆ s'.postedInStreak) (hstreak : s'.pendingStreak ≤ s.pendingStreak + 1) :
    s'.Passed := by
  obtain ⟨ahead, behind, hsplit, hbehind, hahead⟩ := h
  refine ⟨ahead, behind ++ [added], by rw [hqueue, hsplit, List.append_assoc], ?_, ?_⟩
  · intro completion hmem
    rcases List.mem_append.mp hmem with hold | hnew
    · exact (hbehind completion hold).imp (@hpolled completion) (@hposted completion)
    · rw [List.mem_singleton.mp hnew]
      exact hadded
  · intro hne
    have hlong := hahead hne
    rw [hqueue, List.length_append, List.length_singleton]
    omega

theorem Passed.taken {s s' : CompletionLoop} {front : Nat} (h : s.Passed)
    (hqueue : s.asyncCompletions = front :: s'.asyncCompletions) (hpolled : s'.polledInStreak = s.polledInStreak)
    (hposted : s'.postedInStreak = s.postedInStreak) (hstreak : s'.pendingStreak = s.pendingStreak) : s'.Passed := by
  obtain ⟨ahead, behind, hsplit, hbehind, hahead⟩ := h
  unfold Passed
  rw [hpolled, hposted, hstreak]
  cases ahead with
  | nil =>
      refine ⟨[], s'.asyncCompletions, rfl, fun completion hmem => hbehind completion ?_, fun hne => absurd rfl hne⟩
      rw [← List.nil_append behind, ← hsplit, hqueue]
      exact List.mem_cons_of_mem _ hmem
  | cons first ahead =>
      rw [hqueue, List.cons_append] at hsplit
      refine ⟨ahead, behind, List.tail_eq_of_cons_eq hsplit, hbehind, fun hne => ?_⟩
      have hlong := hahead (List.cons_ne_nil _ _)
      rw [hqueue, List.length_cons, List.length_cons] at hlong
      omega

theorem Moved.passed {a : CompletionAction} {s s' : CompletionLoop} (h : Moved a s s') (hs : s.Passed) : s'.Passed := by
  cases h
  case started | called => exact .fresh rfl
  case takenAnew hpoint hqueue => exact .fresh rfl
  case stopped => exact ⟨[], [], rfl, nofun, fun hne => absurd rfl hne⟩
  case taken hpoint hstreak hqueue => exact hs.taken hqueue rfl rfl rfl
  case posted =>
    exact hs.concat rfl (.inr (List.mem_cons_self ..)) (List.Subset.refl _) (List.subset_cons_self _ _) (Nat.le_succ _)
  case requeued =>
    exact hs.concat rfl (.inl (List.mem_cons_self ..)) (List.subset_cons_self _ _) (List.Subset.refl _) (Nat.le_refl _)
  all_goals exact hs

theorem Moved.backsOff {a : CompletionAction} {s s' : CompletionLoop} (h : Moved a s s') (hpassed : s.Passed)
    (hs : s.BacksOff) : s'.BacksOff := by
  obtain ⟨hcounted, hbounded, hqueued, hpolled⟩ := hs
  cases h
  case same | refused | becameReady | quitSet => exact ⟨hcounted, hbounded, hqueued, hpolled⟩
  case started | called | takenAnew => exact ⟨rfl, fun _ => Nat.zero_le _, nofun, nofun⟩
  case stopped => exact ⟨hcounted, nofun, nofun, nofun⟩
  case ended | unready => exact ⟨hcounted, hbounded, nofun, nofun⟩
  case dropped hpoint hstop => exact ⟨hcounted, hbounded, nofun, nofun⟩
  case waiting hpoint hqueue hstreak =>
    exact ⟨hcounted, hbounded, fun _ _ _ => hqueue, fun _ _ _ => hpassed.all hstreak⟩
  case posted hstop =>
    refine ⟨hcounted, fun _ => ?_, fun _ _ _ => by simp, fun size hpoint _ completion hmem => ?_⟩
    · exact Nat.le_trans (hbounded hstop) (by simp)
    · rcases List.mem_append.mp hmem with hold | hnew
      · exact (hpolled size hpoint hstop completion hold).imp_right (List.mem_cons_of_mem _)
      · exact .inr (List.mem_cons.mpr (.inl (List.mem_singleton.mp hnew)))
  case taken rest hpoint hstreak hqueue =>
    refine ⟨hcounted, fun _ => ?_, nofun, nofun⟩
    rw [hqueue, List.length_cons] at hstreak
    exact Nat.le_of_lt_succ hstreak
  case requeued hpoint hstop =>
    refine ⟨by simp [hcounted], fun _ => ?_, nofun, nofun⟩
    simpa using hbounded hstop

theorem reachable_paced {s : CompletionLoop} (hs : completionSystem.Reachable s) : s.Passed ∧ s.BacksOff := by
  refine hs.invariant (fun s => s.Passed ∧ s.BacksOff) ?_ ?_
  · intro s hinit
    rw [show s = {} from hinit]
    exact ⟨.fresh rfl, rfl, fun _ => Nat.le_refl _, nofun, nofun⟩
  · intro a s s' hs _ hstep
    have hmoved := step_moved hstep
    exact ⟨hmoved.passed hs.1, hmoved.backsOff hs.1 hs.2⟩

/-- Wherever the loop waits for a while, each completion in the queue was polled since the last one completed or the
last wait ended, or was posted since; it polls in a row no more often than the queue is long. -/
theorem loop_backsOff {s : CompletionLoop} (hs : completionSystem.Reachable s) : s.BacksOff :=
  (reachable_paced hs).2

/-- One completion, polled once, and another that is posted while the loop waits. -/
theorem loop_backsOff_postedWaiting :
    ∃ s, completionSystem.run [.start, .post, .lock, .call false, .requeue, .lock, .post] {} = some s ∧ s.BacksOff :=
  ⟨_, rfl, loop_backsOff (Transition.System.reachable_of_run
    [.start, .post, .lock, .call false, .requeue, .lock, .post] (.init rfl) rfl)⟩

/-- Each completion is at one place; a loop that has one is never stuck, and behind the second wait, where the front is
taken without a look at the queue, there is one; and a ready one completes as soon as those before it in the queue have
each been polled once, whatever is posted meanwhile. -/
structure InTurn (s : CompletionLoop) : Prop where
  accounted : s.Accounted
  front : ∀ size, s.point = .waiting size → s.asyncCompletionStop = false →
    s.asyncCompletions ≠ [] ∧ s.wake.isSome
  unstuck : s.asyncCompletionStop = false → s.point ≠ .ended → s.asyncCompletions ++ s.point.held ≠ [] →
    ∃ a ∈ [CompletionAction.lock, .wake true, .call false, .requeue], (step a s).isSome
  served : ∀ (actions : List CompletionAction) (s' : CompletionLoop) (completion : Nat),
    completionSystem.runIf (fun a _ => a ≠ .stop) actions s = some s' → s.asyncCompletionStop = false →
    completion ∈ s.ready → completion ∈ s.asyncCompletions →
    s.polls + s.asyncCompletions.idxOf completion + 1 < s'.polls → completion ∈ s'.completed

theorem wake_of_queued {s : CompletionLoop} (hqueue : s.asyncCompletions ≠ []) : s.wake.isSome := by
  obtain ⟨front, rest, hfront⟩ := List.exists_cons_of_ne_nil hqueue
  unfold wake
  split_ifs
  · rfl
  · simp [takeFront, hfront]

theorem BacksOff.unstuck {s : CompletionLoop} (hs : s.BacksOff) (hstop : s.asyncCompletionStop = false)
    (hended : s.point ≠ .ended) (hany : s.asyncCompletions ++ s.point.held ≠ []) :
    ∃ a ∈ [CompletionAction.lock, .wake true, .call false, .requeue], (step a s).isSome := by
  cases hpoint : s.point with
  | ended => exact absurd hpoint hended
  | locking =>
      refine ⟨.lock, by simp, ?_⟩
      have hqueue : s.asyncCompletions ≠ [] := by simpa [hpoint, LoopPoint.held] using hany
      obtain ⟨front, rest, hfront⟩ := List.exists_cons_of_ne_nil hqueue
      simp only [step, hpoint, if_true, lock, hstop, Bool.false_eq_true, if_false, hqueue]
      split_ifs
      · rfl
      · simp [takeFront, hfront]
  | waiting size =>
      refine ⟨.wake true, by simp, ?_⟩
      simpa [step, hpoint] using wake_of_queued (hs.queued size hpoint hstop)
  | running completion => exact ⟨.call false, by simp, by simp [step, hpoint]⟩
  | requeueing completion => exact ⟨.requeue, by simp, by simp [step, hpoint]⟩

/-- What is posted is completed in turn, or discarded by a stop. -/
theorem completions_inTurn {s : CompletionLoop} (hs : completionSystem.Reachable s) : s.InTurn := by
  have hpaced := (reachable_paced hs).2
  refine ⟨reachable_accounted hs, fun size hpoint hstop => ?_, hpaced.unstuck, ?_⟩
  · have hqueue := hpaced.queued size hpoint hstop
    exact ⟨hqueue, wake_of_queued hqueue⟩
  · intro actions s' completion hrun hstop hready hmem hpolls
    have hranked := Transition.System.ranked_of_runIf (turns completion) CompletionLoop.polls
      (fun a s s' _ hawaited ha hstep => awaited_step hawaited ha hstep)
      (fun a s s' hdone hstep => (step_moved hstep).completed hdone) actions hs
      (.inr ⟨⟨hstop, hready, .inl hmem⟩, Nat.le_refl _⟩) hrun
    refine hranked.resolve_right fun ⟨hawaited, hbound⟩ => ?_
    have hfirst : turns completion s ≤ s.asyncCompletions.idxOf completion + 1 := by
      unfold turns
      split_ifs
      · exact Nat.zero_le _
      · exact Nat.le_refl _
    omega

/-- Two completions, of which the second is ready and the first is not. -/
theorem completions_inTurn_secondReady :
    ∃ s, completionSystem.run [.start, .post, .post, .becomesReady 1] {} = some s ∧ s.InTurn :=
  ⟨_, rfl, completions_inTurn (Transition.System.reachable_of_run
    [.start, .post, .post, .becomesReady 1] (.init rfl) rfl)⟩

end CompletionLoop

end LspCpp

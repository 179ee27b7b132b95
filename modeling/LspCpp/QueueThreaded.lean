import Mathlib.Data.List.Basic

/-! `ThreadedQueue`: two deques, of the elements with priority and of the others, and a count that is kept beside them.
Every operation is one critical section of the mutex of the queue. -/

namespace LspCpp

/-- The count is a `std::atomic<int>`, whose arithmetic wraps. -/
structure ThreadedQueue (T : Type*) where
  totalCount : Int32 := 0
  priority : List T := []
  queue : List T := []

namespace ThreadedQueue

variable {T U : Type*}

/-- `Size`; a negative count becomes a large `size_t`. -/
def size (q : ThreadedQueue T) : Nat := (q.totalCount.toInt % 18446744073709551616).toNat

def isEmpty (q : ThreadedQueue T) : Bool := q.totalCount == 0

/-- `push_back` to one of the deques. -/
def pushBack (q : ThreadedQueue T) (t : T) (priority : Bool) : ThreadedQueue T :=
  if priority then { q with priority := q.priority ++ [t] } else { q with queue := q.queue ++ [t] }

def enqueue (q : ThreadedQueue T) (t : T) (priority : Bool) : ThreadedQueue T :=
  let q := q.pushBack t priority
  { q with totalCount := q.totalCount + 1 }

def enqueueAll (q : ThreadedQueue T) (elements : List T) (priority : Bool) : ThreadedQueue T :=
  if elements.isEmpty then q
  else
    elements.foldl (fun q element => q.pushBack element priority)
      { q with totalCount := q.totalCount + Int32.ofNat elements.length }

/-- The lambdas `execute` and `pop` on `priority_`, if it has an element. -/
def popPriority (q : ThreadedQueue T) : Option (T × ThreadedQueue T) :=
  match q.priority with
  | [] => none
  | val :: rest => some (val, { q with priority := rest, totalCount := q.totalCount - 1 })

/-- The lambdas `execute` and `pop` on `queue_`, if it has an element. -/
def popQueue (q : ThreadedQueue T) : Option (T × ThreadedQueue T) :=
  match q.queue with
  | [] => none
  | val :: rest => some (val, { q with queue := rest, totalCount := q.totalCount - 1 })

/-- `Dequeue`; nothing stands for the wait until there is an element. -/
def dequeue (q : ThreadedQueue T) : Option (T × ThreadedQueue T) := q.popPriority.or q.popQueue

def tryDequeue (q : ThreadedQueue T) (priority : Bool) : Option T × ThreadedQueue T :=
  match if priority then q.popPriority.or q.popQueue else q.popQueue.or q.popPriority with
  | none => (none, q)
  | some (val, q) => (some val, q)

/-- The loops of `DequeueAll`, each over one deque: what is in the result after it. -/
def moveAll (result : List T) : (deque : List T) → List T
  | [] => result
  | t :: rest => moveAll (result ++ [t]) rest

def dequeueAll (q : ThreadedQueue T) : List T × ThreadedQueue T :=
  (moveAll (moveAll [] q.priority) q.queue, {})

/-- The loops of `TryDequeueSome`, each over one deque: how many elements are still wanted after it, the result and what
is left of the deque. -/
def moveSome : (num : Nat) → (result deque : List T) → Nat × List T × List T
  | 0, result, deque => (0, result, deque)
  | num + 1, result, [] => (num + 1, result, [])
  | num + 1, result, t :: rest => moveSome num (result ++ [t]) rest

def tryDequeueSome (q : ThreadedQueue T) (num : Nat) : List T × ThreadedQueue T :=
  let num := min num (q.priority.length + q.queue.length)
  let (left, result, priority) := moveSome num [] q.priority
  let (_, result, queue) := moveSome left result q.queue
  (result, { totalCount := q.totalCount - Int32.ofNat num, priority := priority, queue := queue })

theorem foldl_pushBack (q : ThreadedQueue T) (elements : List T) (priority : Bool) :
    elements.foldl (fun q element => q.pushBack element priority) q =
      if priority then { q with priority := q.priority ++ elements } else { q with queue := q.queue ++ elements } := by
  induction elements generalizing q with
  | nil => cases priority <;> simp
  | cons element rest ih =>
      rw [List.foldl_cons, ih]
      cases priority <;> simp [pushBack]

/-- With no elements the early return changes nothing. -/
theorem enqueueAll_eq (q : ThreadedQueue T) (elements : List T) (priority : Bool) :
    q.enqueueAll elements priority =
      { totalCount := q.totalCount + Int32.ofNat elements.length,
        priority := if priority then q.priority ++ elements else q.priority,
        queue := if priority then q.queue else q.queue ++ elements } := by
  cases elements with
  | nil => cases priority <;> simp [enqueueAll]
  | cons element rest =>
      rw [enqueueAll, if_neg (by simp), foldl_pushBack]
      cases priority <;> rfl

theorem moveAll_eq (result deque : List T) : moveAll result deque = result ++ deque := by
  induction deque generalizing result with
  | nil => exact (List.append_nil result).symm
  | cons t rest ih => rw [moveAll, ih, List.append_assoc, List.singleton_append]

theorem moveSome_eq (num : Nat) (result deque : List T) :
    moveSome num result deque = (num - deque.length, result ++ deque.take num, deque.drop num) := by
  induction deque generalizing num result with
  | nil => cases num <;> simp [moveSome]
  | cons t rest ih =>
      cases num with
      | zero => simp [moveSome]
      | succ num => simp [moveSome, ih]

theorem dequeueAll_eq (q : ThreadedQueue T) : q.dequeueAll = (q.priority ++ q.queue, {}) := by
  rw [dequeueAll, moveAll_eq, moveAll_eq, List.nil_append]

/-- The elements with priority are taken first, and then as many of the others as are still wanted. -/
theorem tryDequeueSome_eq (q : ThreadedQueue T) (num : Nat) :
    q.tryDequeueSome num = ((q.priority ++ q.queue).take num,
      { totalCount := q.totalCount - Int32.ofNat (min num (q.priority.length + q.queue.length)),
        priority := q.priority.drop num, queue := q.queue.drop (num - q.priority.length) }) := by
  unfold tryDequeueSome
  simp only [moveSome_eq, List.nil_append, ← List.take_append]
  rcases Nat.le_total num (q.priority.length + q.queue.length) with hle | hge
  · rw [Nat.min_eq_left hle]
  · have hlength : (q.priority ++ q.queue).length = q.priority.length + q.queue.length := List.length_append
    rw [Nat.min_eq_right hge, List.take_of_length_le (Nat.le_of_eq hlength),
      List.take_of_length_le (Nat.le_trans (Nat.le_of_eq hlength) hge),
      List.drop_of_length_le (Nat.le_add_right _ _), List.drop_of_length_le (by omega : q.priority.length ≤ num),
      Nat.add_sub_cancel_left, List.drop_of_length_le (Nat.le_refl q.queue.length),
      List.drop_of_length_le (by omega : q.queue.length ≤ num - q.priority.length)]

/-- The count is the number of the queued elements, as far as it has not wrapped. -/
def Counted (q : ThreadedQueue T) : Prop := q.totalCount = Int32.ofNat (q.priority.length + q.queue.length)

namespace Counted

variable {q : ThreadedQueue T}

theorem toInt (h : Counted q) (hlt : q.priority.length + q.queue.length < 2147483648) :
    q.totalCount.toInt = q.priority.length + q.queue.length := by
  rw [h, Int32.toInt_ofNat_of_lt hlt, Int.natCast_add]

theorem size_eq (h : Counted q) (hlt : q.priority.length + q.queue.length < 2147483648) :
    q.size = q.priority.length + q.queue.length := by
  rw [size, h.toInt hlt]
  omega

theorem isEmpty_iff (h : Counted q) (hlt : q.priority.length + q.queue.length < 2147483648) :
    q.isEmpty = true ↔ q.priority = [] ∧ q.queue = [] := by
  rw [isEmpty, beq_iff_eq, ← Int32.toInt_inj, h.toInt hlt, ← List.length_eq_zero_iff, ← List.length_eq_zero_iff]
  have hzero : Int32.toInt 0 = 0 := rfl
  omega

/-- Elements that are appended are counted. -/
theorem add (h : Counted q) {q' : ThreadedQueue T} (n : Nat)
    (hlength : q'.priority.length + q'.queue.length = q.priority.length + q.queue.length + n)
    (hcount : q'.totalCount = q.totalCount + Int32.ofNat n) : Counted q' := by
  rw [Counted, hcount, h, hlength, Int32.ofNat_add (q.priority.length + q.queue.length) n]

/-- Elements that are taken are no longer counted. -/
theorem sub (h : Counted q) {q' : ThreadedQueue T} (n : Nat)
    (hlength : q'.priority.length + q'.queue.length + n = q.priority.length + q.queue.length)
    (hcount : q'.totalCount = q.totalCount - Int32.ofNat n) : Counted q' := by
  have hrest : q'.priority.length + q'.queue.length = q.priority.length + q.queue.length - n := by omega
  rw [Counted, hcount, h, hrest, Int32.ofNat_sub _ _ (by omega)]

end Counted

end ThreadedQueue

/-! ### The operations -/

inductive QueueAction (T : Type*)
  | enqueue (t : T) (priority : Bool)
  | enqueueAll (elements : List T) (priority : Bool)
  | dequeue
  | tryDequeue (priority : Bool)
  | tryDequeueSome (num : Nat)
  | dequeueAll
  deriving DecidableEq, Repr

namespace QueueAction

variable {T U : Type*}

/-- The elements that an operation enqueues, with priority or without. -/
def enqueued : QueueAction T → (priority : Bool) → List T
  | .enqueue t priority, class' => if priority = class' then [t] else []
  | .enqueueAll elements priority, class' => if priority = class' then elements else []
  | _, _ => []

/-- The operations that look at the elements with priority first. -/
def priorityFirst : QueueAction T → Bool
  | .dequeue | .tryDequeueSome _ | .dequeueAll => true
  | _ => false

/-- The elements that an operation returns, and the queue after it; nothing stands for a `Dequeue` that has to wait. -/
def step (a : QueueAction T) (q : ThreadedQueue T) : Option (List T × ThreadedQueue T) :=
  match a with
  | .enqueue t priority => some ([], q.enqueue t priority)
  | .enqueueAll elements priority => some ([], q.enqueueAll elements priority)
  | .dequeue => q.dequeue.map fun (val, q) => ([val], q)
  | .tryDequeue priority => let (val, q) := q.tryDequeue priority; some (val.toList, q)
  | .tryDequeueSome num => some (q.tryDequeueSome num)
  | .dequeueAll => some q.dequeueAll

/-- What an operation does to the deques: it takes elements from their fronts, those with priority before the others,
and appends others at their ends. -/
structure Moves (a : QueueAction T) (q : ThreadedQueue T) (out : List T) (q' : ThreadedQueue T)
    (urgent ordinary : List T) : Prop where
  returned : out = urgent ++ ordinary
  priority : q.priority ++ a.enqueued true = urgent ++ q'.priority
  queue : q.queue ++ a.enqueued false = ordinary ++ q'.queue
  count : q.Counted → q'.Counted
  first : a.priorityFirst = true → ordinary ≠ [] → q'.priority = []

theorem moves_enqueue (t : T) (priority : Bool) (q : ThreadedQueue T) :
    Moves (.enqueue t priority) q [] (q.enqueue t priority) [] [] where
  returned := rfl
  priority := by cases priority <;> simp [enqueued, ThreadedQueue.enqueue, ThreadedQueue.pushBack]
  queue := by cases priority <;> simp [enqueued, ThreadedQueue.enqueue, ThreadedQueue.pushBack]
  count := by
    intro h
    refine h.add 1 ?_ ?_
    · cases priority <;> simp [ThreadedQueue.enqueue, ThreadedQueue.pushBack] <;> omega
    · cases priority <;> rfl
  first := nofun

theorem moves_enqueueAll (elements : List T) (priority : Bool) (q : ThreadedQueue T) :
    Moves (.enqueueAll elements priority) q [] (q.enqueueAll elements priority) [] [] := by
  rw [ThreadedQueue.enqueueAll_eq]
  refine ⟨rfl, ?_, ?_, fun h => h.add elements.length ?_ rfl, nofun⟩
  · cases priority <;> simp [enqueued]
  · cases priority <;> simp [enqueued]
  · cases priority <;> simp <;> omega

/-- What the lambda `pop` does to the deque of the elements with priority. -/
theorem popPriority_cases (q : ThreadedQueue T) :
    q.priority = [] ∧ q.popPriority = none ∨
      ∃ val rest, q.priority = val :: rest ∧
        q.popPriority = some (val, { q with priority := rest, totalCount := q.totalCount - 1 }) := by
  unfold ThreadedQueue.popPriority
  cases q.priority with
  | nil => exact Or.inl ⟨rfl, rfl⟩
  | cons val rest => exact Or.inr ⟨val, rest, rfl, rfl⟩

theorem popQueue_cases (q : ThreadedQueue T) :
    q.queue = [] ∧ q.popQueue = none ∨
      ∃ val rest, q.queue = val :: rest ∧
        q.popQueue = some (val, { q with queue := rest, totalCount := q.totalCount - 1 }) := by
  unfold ThreadedQueue.popQueue
  cases q.queue with
  | nil => exact Or.inl ⟨rfl, rfl⟩
  | cons val rest => exact Or.inr ⟨val, rest, rfl, rfl⟩

section Pop

variable {a : QueueAction T} (ha : ∀ priority, a.enqueued priority = []) {q : ThreadedQueue T}
include ha

theorem moves_popPriority {val : T} {rest : List T} (h : q.priority = val :: rest) :
    Moves a q [val] { q with priority := rest, totalCount := q.totalCount - 1 } [val] [] where
  returned := rfl
  priority := by rw [ha, h, List.append_nil]; rfl
  queue := by rw [ha, List.append_nil]; rfl
  count := by
    intro hcount
    refine hcount.sub 1 ?_ rfl
    rw [h, List.length_cons]
    dsimp only
    omega
  first := fun _ hne => absurd rfl hne

theorem moves_popQueue {val : T} {rest : List T} (h : q.queue = val :: rest)
    (hfirst : a.priorityFirst = true → q.priority = []) :
    Moves a q [val] { q with queue := rest, totalCount := q.totalCount - 1 } [] [val] where
  returned := rfl
  priority := by rw [ha, List.append_nil]; rfl
  queue := by rw [ha, h, List.append_nil]; rfl
  count := by
    intro hcount
    refine hcount.sub 1 ?_ rfl
    rw [h, List.length_cons]
    dsimp only
    omega
  first := fun hpriority _ => hfirst hpriority

theorem moves_none : Moves a q [] q [] [] where
  returned := rfl
  priority := by rw [ha, List.append_nil]; rfl
  queue := by rw [ha, List.append_nil]; rfl
  count := id
  first := fun _ hne => absurd rfl hne

end Pop

theorem moves_dequeue {q q' : ThreadedQueue T} {val : T} (h : q.dequeue = some (val, q')) :
    ∃ urgent ordinary, Moves .dequeue q [val] q' urgent ordinary := by
  rw [ThreadedQueue.dequeue] at h
  rcases popPriority_cases q with ⟨hempty, hnone⟩ | ⟨val', rest, hcons, hsome⟩
  · rcases popQueue_cases q with ⟨_, hnone'⟩ | ⟨val', rest, hcons, hsome⟩
    · rw [hnone, hnone'] at h
      cases h
    · rw [hnone, hsome] at h
      cases h
      exact ⟨_, _, moves_popQueue (fun _ => rfl) hcons fun _ => hempty⟩
  · rw [hsome] at h
    cases h
    exact ⟨_, _, moves_popPriority (fun _ => rfl) hcons⟩

theorem moves_tryDequeue (q : ThreadedQueue T) (priority : Bool) :
    ∃ urgent ordinary, Moves (.tryDequeue priority) q (q.tryDequeue priority).1.toList
      (q.tryDequeue priority).2 urgent ordinary := by
  rw [ThreadedQueue.tryDequeue]
  rcases popPriority_cases q with ⟨_, hpriority⟩ | ⟨val, rest, hcons, hpriority⟩ <;>
    rcases popQueue_cases q with ⟨_, hqueue⟩ | ⟨val', rest', hcons', hqueue⟩ <;>
    rw [hpriority, hqueue]
  · cases priority <;> exact ⟨_, _, moves_none fun _ => rfl⟩
  · cases priority <;> exact ⟨_, _, moves_popQueue (fun _ => rfl) hcons' nofun⟩
  · cases priority <;> exact ⟨_, _, moves_popPriority (fun _ => rfl) hcons⟩
  · cases priority with
    | false => exact ⟨_, _, moves_popQueue (fun _ => rfl) hcons' nofun⟩
    | true => exact ⟨_, _, moves_popPriority (fun _ => rfl) hcons⟩

theorem moves_tryDequeueSome (q : ThreadedQueue T) (num : Nat) :
    Moves (.tryDequeueSome num) q (q.tryDequeueSome num).1 (q.tryDequeueSome num).2 (q.priority.take num)
      (q.queue.take (num - q.priority.length)) := by
  rw [ThreadedQueue.tryDequeueSome_eq]
  refine ⟨List.take_append, ?_, ?_, fun h => h.sub _ ?_ rfl, fun _ hne => ?_⟩
  · exact (List.append_nil _).trans (List.take_append_drop num _).symm
  · exact (List.append_nil _).trans (List.take_append_drop _ _).symm
  · simp only [List.length_drop]
    omega
  · apply List.drop_of_length_le
    by_contra hlt
    rw [Nat.sub_eq_zero_of_le (by omega), List.take_zero] at hne
    exact hne rfl

theorem moves_dequeueAll (q : ThreadedQueue T) :
    Moves .dequeueAll q q.dequeueAll.1 q.dequeueAll.2 q.priority q.queue := by
  rw [ThreadedQueue.dequeueAll_eq]
  exact ⟨rfl, rfl, rfl, fun _ => rfl, fun _ _ => rfl⟩

/-- **Every operation takes elements from the fronts of the deques and appends its own at their ends.** -/
theorem moves_of_step {a : QueueAction T} {q q' : ThreadedQueue T} {out : List T} (h : a.step q = some (out, q')) :
    ∃ urgent ordinary, Moves a q out q' urgent ordinary := by
  cases a with
  | enqueue t priority =>
      cases h
      exact ⟨_, _, moves_enqueue t priority q⟩
  | enqueueAll elements priority =>
      cases h
      exact ⟨_, _, moves_enqueueAll elements priority q⟩
  | dequeue =>
      obtain ⟨⟨val, rest⟩, hdequeue, heq⟩ := Option.map_eq_some_iff.mp h
      cases heq
      exact moves_dequeue hdequeue
  | tryDequeue priority =>
      cases h
      exact moves_tryDequeue q priority
  | tryDequeueSome num =>
      cases h
      exact ⟨_, _, moves_tryDequeueSome q num⟩
  | dequeueAll =>
      cases h
      exact ⟨_, _, moves_dequeueAll q⟩

end QueueAction

namespace ThreadedQueue

variable {T : Type*}

/-- What the removals return of the queued elements and what they leave of them. Only a `TryDequeue` without priority
takes the elements without priority first. -/
structure ServesInOrder (q : ThreadedQueue T) : Prop where
  dequeue : ∀ val rest, q.priority ++ q.queue = val :: rest →
    ∃ q', q.dequeue = some (val, q') ∧ q'.priority ++ q'.queue = rest
  tryDequeue : ∀ priority,
    (q.tryDequeue priority).1 = (if priority then q.priority ++ q.queue else q.queue ++ q.priority).head?
  tryDequeueSome : ∀ num, (q.tryDequeueSome num).1 = (q.priority ++ q.queue).take num ∧
    (q.tryDequeueSome num).2.priority ++ (q.tryDequeueSome num).2.queue = (q.priority ++ q.queue).drop num
  dequeueAll : q.dequeueAll.1 = q.priority ++ q.queue ∧ q.dequeueAll.2.priority ++ q.dequeueAll.2.queue = []

theorem dequeue_of_cons {q : ThreadedQueue T} {val : T} {rest : List T} (h : q.priority ++ q.queue = val :: rest) :
    ∃ q', q.dequeue = some (val, q') ∧ q'.priority ++ q'.queue = rest := by
  rw [dequeue]
  rcases QueueAction.popPriority_cases q with ⟨hempty, hnone⟩ | ⟨val', rest', hcons, hsome⟩
  · rw [hempty, List.nil_append] at h
    rcases QueueAction.popQueue_cases q with ⟨hempty', _⟩ | ⟨val', rest', hcons, hsome⟩
    · rw [hempty'] at h
      cases h
    · rw [hcons] at h
      cases h
      refine ⟨_, by rw [hnone, hsome]; rfl, ?_⟩
      dsimp only
      rw [hempty, List.nil_append]
  · rw [hcons] at h
    cases h
    exact ⟨_, by rw [hsome]; rfl, rfl⟩

theorem tryDequeue_eq (q : ThreadedQueue T) (priority : Bool) :
    (q.tryDequeue priority).1 = (if priority then q.priority ++ q.queue else q.queue ++ q.priority).head? := by
  rw [tryDequeue]
  rcases QueueAction.popPriority_cases q with ⟨hempty, hpriority⟩ | ⟨val, rest, hempty, hpriority⟩ <;>
    rcases QueueAction.popQueue_cases q with ⟨hempty', hqueue⟩ | ⟨val', rest', hempty', hqueue⟩ <;>
    rw [hpriority, hqueue, hempty, hempty'] <;> cases priority <;> rfl

theorem servesInOrder (q : ThreadedQueue T) : q.ServesInOrder where
  dequeue _ _ h := dequeue_of_cons h
  tryDequeue := q.tryDequeue_eq
  tryDequeueSome num := by
    rw [tryDequeueSome_eq]
    exact ⟨rfl, List.drop_append.symm⟩
  dequeueAll := by
    rw [dequeueAll_eq]
    exact ⟨rfl, rfl⟩

end ThreadedQueue

end LspCpp

import LspCpp.LibTransition
import LspCpp.QueueThreaded
import Mathlib.Data.List.Nodup

/-! Runs of a `ThreadedQueue`. The elements are told apart by stamps, which no operation looks at: the run without the
stamps is a run of the queue itself. -/

namespace LspCpp

/-- An element, the number of elements that were enqueued before it, and whether it was enqueued with priority. -/
structure QueueElement (T : Type*) where
  value : T
  stamp : Nat
  priority : Bool
  deriving DecidableEq, Repr

section Map

variable {T U : Type*} (f : T → U)

def ThreadedQueue.map (q : ThreadedQueue T) : ThreadedQueue U := ⟨q.totalCount, q.priority.map f, q.queue.map f⟩

namespace QueueAction

def map : QueueAction T → QueueAction U
  | .enqueue t priority => .enqueue (f t) priority
  | .enqueueAll elements priority => .enqueueAll (elements.map f) priority
  | .dequeue => .dequeue
  | .tryDequeue priority => .tryDequeue priority
  | .tryDequeueSome num => .tryDequeueSome num
  | .dequeueAll => .dequeueAll

theorem popPriority_map (q : ThreadedQueue T) :
    (q.map f).popPriority = q.popPriority.map fun (val, q') => (f val, q'.map f) := by
  rcases popPriority_cases q with ⟨hempty, hnone⟩ | ⟨val, rest, hcons, hsome⟩
  · rw [hnone]
    simp [ThreadedQueue.popPriority, ThreadedQueue.map, hempty]
  · rw [hsome]
    simp [ThreadedQueue.popPriority, ThreadedQueue.map, hcons]

theorem popQueue_map (q : ThreadedQueue T) :
    (q.map f).popQueue = q.popQueue.map fun (val, q') => (f val, q'.map f) := by
  rcases popQueue_cases q with ⟨hempty, hnone⟩ | ⟨val, rest, hcons, hsome⟩
  · rw [hnone]
    simp [ThreadedQueue.popQueue, ThreadedQueue.map, hempty]
  · rw [hsome]
    simp [ThreadedQueue.popQueue, ThreadedQueue.map, hcons]

/-- No operation looks at the elements. -/
theorem step_map (a : QueueAction T) (q : ThreadedQueue T) :
    (a.map f).step (q.map f) = (a.step q).map fun (out, q') => (out.map f, q'.map f) := by
  cases a with
  | enqueue t priority =>
      cases priority <;> simp [map, step, ThreadedQueue.enqueue, ThreadedQueue.pushBack, ThreadedQueue.map]
  | enqueueAll elements priority =>
      cases priority <;> simp [map, step, ThreadedQueue.enqueueAll_eq, ThreadedQueue.map]
  | dequeue =>
      simp only [map, step, ThreadedQueue.dequeue, popPriority_map, popQueue_map]
      rcases popPriority_cases q with ⟨_, hpriority⟩ | ⟨val, rest, _, hpriority⟩ <;>
        rcases popQueue_cases q with ⟨_, hqueue⟩ | ⟨val', rest', _, hqueue⟩ <;>
        rw [hpriority, hqueue] <;> rfl
  | tryDequeue priority =>
      simp only [map, step, ThreadedQueue.tryDequeue, popPriority_map, popQueue_map]
      rcases popPriority_cases q with ⟨_, hpriority⟩ | ⟨val, rest, _, hpriority⟩ <;>
        rcases popQueue_cases q with ⟨_, hqueue⟩ | ⟨val', rest', _, hqueue⟩ <;>
        rw [hpriority, hqueue] <;> cases priority <;> rfl
  | tryDequeueSome num =>
      simp [map, step, ThreadedQueue.tryDequeueSome_eq, ThreadedQueue.map, List.map_take, List.map_drop]
  | dequeueAll => simp [map, step, ThreadedQueue.dequeueAll_eq, ThreadedQueue.map]

end QueueAction

end Map

section Runs

variable {T : Type*}

namespace QueueAction

/-- The operation on elements that get their stamps from `n` on. -/
def stamped (n : Nat) : QueueAction T → QueueAction (QueueElement T)
  | .enqueue t priority => .enqueue ⟨t, n, priority⟩ priority
  | .enqueueAll elements priority =>
      .enqueueAll ((elements.zipIdx n).map fun (t, i) => ⟨t, i, priority⟩) priority
  | .dequeue => .dequeue
  | .tryDequeue priority => .tryDequeue priority
  | .tryDequeueSome num => .tryDequeueSome num
  | .dequeueAll => .dequeueAll

theorem map_stamped (n : Nat) (a : QueueAction T) : (a.stamped n).map QueueElement.value = a := by
  cases a with
  | enqueueAll elements priority =>
      rw [stamped, map, List.map_map]
      congr 1
      exact List.zipIdx_map_fst n elements
  | enqueue t priority => rfl
  | dequeue => rfl
  | tryDequeue priority => rfl
  | tryDequeueSome num => rfl
  | dequeueAll => rfl

theorem priorityFirst_stamped (n : Nat) (a : QueueAction T) : (a.stamped n).priorityFirst = a.priorityFirst := by
  cases a <;> rfl

/-- The elements are stamped with the class that they are enqueued in. -/
theorem priority_of_mem_enqueued {n : Nat} (a : QueueAction T) {priority : Bool} {e : QueueElement T}
    (h : e ∈ (a.stamped n).enqueued priority) : e.priority = priority := by
  cases a with
  | enqueue t priority' =>
      rw [stamped, enqueued] at h
      split_ifs at h with hpriority
      · rw [List.mem_singleton.mp h]
        exact hpriority
      · cases h
  | enqueueAll elements priority' =>
      rw [stamped, enqueued] at h
      split_ifs at h with hpriority
      · obtain ⟨_, _, rfl⟩ := List.mem_map.mp h
        exact hpriority
      · cases h
  | dequeue => cases h
  | tryDequeue priority' => cases h
  | tryDequeueSome num => cases h
  | dequeueAll => cases h

/-- The elements that an operation enqueues, in either class; one of the two is empty. -/
def allEnqueued (a : QueueAction T) : List T := a.enqueued true ++ a.enqueued false

theorem stamps_allEnqueued (n : Nat) (a : QueueAction T) :
    (a.stamped n).allEnqueued.map QueueElement.stamp = List.range' n (a.stamped n).allEnqueued.length := by
  cases a with
  | enqueue t priority => cases priority <;> rfl
  | enqueueAll elements priority =>
      have hstamps : ((elements.zipIdx n).map fun (t, i) => (⟨t, i, priority⟩ : QueueElement T)).map QueueElement.stamp
        =
          List.range' n elements.length := by
        rw [List.map_map]
        exact List.zipIdx_map_snd n elements
      cases priority <;> simpa [stamped, allEnqueued, enqueued] using hstamps
  | dequeue => rfl
  | tryDequeue priority => rfl
  | tryDequeueSome num => rfl
  | dequeueAll => rfl

/-- Without the stamps the elements are those of the operation. -/
theorem values_allEnqueued (n : Nat) (a : QueueAction T) :
    (a.stamped n).allEnqueued.map QueueElement.value = a.allEnqueued := by
  cases a with
  | enqueue t priority => cases priority <;> rfl
  | enqueueAll elements priority =>
      have hvalues : ((elements.zipIdx n).map fun (t, i) => (⟨t, i, priority⟩ : QueueElement T)).map QueueElement.value
        =
          elements := by
        rw [List.map_map]
        exact List.zipIdx_map_fst n elements
      cases priority <;> simpa [stamped, allEnqueued, enqueued] using hvalues
  | dequeue => rfl
  | tryDequeue priority => rfl
  | tryDequeueSome num => rfl
  | dequeueAll => rfl

end QueueAction

/-- A queue of stamped elements with the elements that were enqueued and those that were returned, in their orders. -/
structure QueueLog (T : Type*) where
  queue : ThreadedQueue (QueueElement T) := {}
  enqueued : List (QueueElement T) := []
  returned : List (QueueElement T) := []

/-- The queue with what it has returned. -/
def queueSystem (T : Type*) : Transition.System (ThreadedQueue T × List T) (QueueAction T) where
  init s := s = ({}, [])
  step a s := (a.step s.1).map fun (out, q) => (q, s.2 ++ out)

def queueLogSystem (T : Type*) : Transition.System (QueueLog T) (QueueAction T) where
  init s := s = {}
  step a s :=
    let a := a.stamped s.enqueued.length
    (a.step s.queue).map fun (out, q) => ⟨q, s.enqueued ++ a.allEnqueued, s.returned ++ out⟩

namespace QueueLog

/-- The queue with what it has returned, without the stamps. -/
def values (s : QueueLog T) : ThreadedQueue T × List T :=
  (s.queue.map QueueElement.value, s.returned.map QueueElement.value)

/-- **The stamps change nothing**: what is left of a run without them is the run of the queue. -/
theorem run_values (actions : List (QueueAction T)) :
    ((queueLogSystem T).run actions {}).map values = (queueSystem T).run actions ({}, []) := by
  refine Transition.System.map_run values (fun _ => True) (fun _ => True) (fun a s _ _ => ?_)
    (fun _ _ _ _ _ _ => trivial) actions (fun _ _ => trivial) trivial
  have hstep := QueueAction.step_map QueueElement.value (a.stamped s.enqueued.length) s.queue
  rw [QueueAction.map_stamped] at hstep
  simp only [queueLogSystem, queueSystem, values, hstep, Option.map_map]
  congr 1
  funext result
  simp [values]

/-- Every element that was enqueued is either in the deque of its class or has been returned, in the order in which the
elements of its class were enqueued. -/
structure Accounted (s : QueueLog T) : Prop where
  counted : s.queue.Counted
  stamps : s.enqueued.map QueueElement.stamp = List.range' 0 s.enqueued.length
  priority : s.returned.filter (·.priority) ++ s.queue.priority = s.enqueued.filter (·.priority)
  ordinary : s.returned.filter (!·.priority) ++ s.queue.queue = s.enqueued.filter (!·.priority)

theorem filter_classes {urgent ordinary : List (QueueElement T)} (hurgent : ∀ e ∈ urgent, e.priority = true)
    (hordinary : ∀ e ∈ ordinary, e.priority = false) :
    (urgent ++ ordinary).filter (·.priority) = urgent ∧ (urgent ++ ordinary).filter (!·.priority) = ordinary := by
  constructor
  · rw [List.filter_append, List.filter_eq_self.mpr hurgent, List.filter_eq_nil_iff.mpr, List.append_nil]
    intro e he
    rw [hordinary e he]
    exact Bool.false_ne_true
  · rw [List.filter_append, List.filter_eq_nil_iff.mpr, List.nil_append, List.filter_eq_self.mpr]
    · intro e he
      rw [hordinary e he]
      rfl
    · intro e he
      rw [hurgent e he]
      exact Bool.false_ne_true

namespace Accounted

variable {s : QueueLog T}

theorem priority_of_mem (h : Accounted s) {e : QueueElement T} (he : e ∈ s.queue.priority) : e.priority = true := by
  have hmem : e ∈ s.enqueued.filter (·.priority) := h.priority ▸ List.mem_append_right _ he
  exact (List.mem_filter.mp hmem).2

theorem ordinary_of_mem (h : Accounted s) {e : QueueElement T} (he : e ∈ s.queue.queue) : e.priority = false := by
  have hmem : e ∈ s.enqueued.filter (!·.priority) := h.ordinary ▸ List.mem_append_right _ he
  exact Bool.not_eq_true' .. ▸ (List.mem_filter.mp hmem).2

/-- What an operation returns: the elements with priority first, where there are any. -/
theorem split_returned (h : Accounted s) {a : QueueAction T} {n : Nat} {q' : ThreadedQueue (QueueElement T)}
    {out urgent ordinary : List (QueueElement T)} (hmoves : (a.stamped n).Moves s.queue out q' urgent ordinary) :
    (∀ e ∈ urgent, e.priority = true) ∧ ∀ e ∈ ordinary, e.priority = false := by
  constructor
  · intro e he
    have hmem : e ∈ s.queue.priority ++ (a.stamped n).enqueued true := hmoves.priority ▸ List.mem_append_left _ he
    rcases List.mem_append.mp hmem with hmem | hmem
    · exact h.priority_of_mem hmem
    · exact QueueAction.priority_of_mem_enqueued a hmem
  · intro e he
    have hmem : e ∈ s.queue.queue ++ (a.stamped n).enqueued false := hmoves.queue ▸ List.mem_append_left _ he
    rcases List.mem_append.mp hmem with hmem | hmem
    · exact h.ordinary_of_mem hmem
    · exact QueueAction.priority_of_mem_enqueued a hmem

theorem step (h : Accounted s) {a : QueueAction T} {q' : ThreadedQueue (QueueElement T)}
    {out : List (QueueElement T)} (hstep : (a.stamped s.enqueued.length).step s.queue = some (out, q')) :
    Accounted ⟨q', s.enqueued ++ (a.stamped s.enqueued.length).allEnqueued, s.returned ++ out⟩ := by
  obtain ⟨urgent, ordinary, hmoves⟩ := QueueAction.moves_of_step hstep
  obtain ⟨hurgent, hordinary⟩ := h.split_returned hmoves
  have hout := filter_classes hurgent hordinary
  have hnew : (∀ e ∈ (a.stamped s.enqueued.length).enqueued true, e.priority = true) ∧
      ∀ e ∈ (a.stamped s.enqueued.length).enqueued false, e.priority = false :=
    ⟨fun e => QueueAction.priority_of_mem_enqueued a, fun e => QueueAction.priority_of_mem_enqueued a⟩
  have hadded := filter_classes hnew.1 hnew.2
  refine ⟨hmoves.count h.counted, ?_, ?_, ?_⟩
  · have hrange := @List.range'_append_1 0 s.enqueued.length (a.stamped s.enqueued.length).allEnqueued.length
    rw [Nat.zero_add] at hrange
    rw [List.map_append, h.stamps, QueueAction.stamps_allEnqueued, List.length_append, hrange]
  · rw [hmoves.returned, List.filter_append, hout.1, List.append_assoc, ← hmoves.priority, ← List.append_assoc,
      h.priority, List.filter_append, QueueAction.allEnqueued, hadded.1]
  · rw [hmoves.returned, List.filter_append, hout.2, List.append_assoc, ← hmoves.queue, ← List.append_assoc, h.ordinary,
      List.filter_append, QueueAction.allEnqueued, hadded.2]

theorem mem_enqueued (h : Accounted s) {e : QueueElement T} (he : e ∈ s.returned) : e ∈ s.enqueued := by
  cases hpriority : e.priority with
  | true =>
      have hmem : e ∈ s.enqueued.filter (·.priority) :=
        h.priority ▸ List.mem_append_left _ (List.mem_filter.mpr ⟨he, hpriority⟩)
      exact List.mem_of_mem_filter hmem
  | false =>
      have hmem : e ∈ s.enqueued.filter (!·.priority) :=
        h.ordinary ▸ List.mem_append_left _ (List.mem_filter.mpr ⟨he, by rw [hpriority]; rfl⟩)
      exact List.mem_of_mem_filter hmem

/-- No element is returned twice. -/
theorem returned_nodup (h : Accounted s) : s.returned.Nodup := by
  have henqueued : s.enqueued.Nodup := by
    apply List.Nodup.of_map QueueElement.stamp
    rw [h.stamps]
    exact List.nodup_range'
  have hpriority : (s.returned.filter (·.priority)).Nodup :=
    (henqueued.filter _).sublist (h.priority ▸ List.sublist_append_left _ _)
  have hordinary : (s.returned.filter (!·.priority)).Nodup :=
    (henqueued.filter _).sublist (h.ordinary ▸ List.sublist_append_left _ _)
  rw [← (List.filter_append_perm (·.priority) s.returned).nodup_iff]
  refine List.nodup_append.mpr ⟨hpriority, hordinary, fun e he e' he' heq => ?_⟩
  have htrue := (List.mem_filter.mp he).2
  have hfalse := (List.mem_filter.mp he').2
  rw [← heq, htrue] at hfalse
  cases hfalse

/-- An operation that looks at the elements with priority first returns all that are queued before any other. -/
theorem priority_returned (h : Accounted s) {a : QueueAction T} (ha : a.priorityFirst = true) {s' : QueueLog T}
    (hstep : (queueLogSystem T).step a s = some s') :
    ∃ out, s'.returned = s.returned ++ out ∧ ∀ before e after, out = before ++ e :: after → e.priority = false →
      ∀ e' ∈ s.queue.priority, e' ∈ before := by
  obtain ⟨⟨out, q'⟩, hop, rfl⟩ := Option.map_eq_some_iff.mp hstep
  obtain ⟨urgent, ordinary, hmoves⟩ := QueueAction.moves_of_step hop
  obtain ⟨hurgent, _⟩ := h.split_returned hmoves
  refine ⟨out, rfl, fun before e after hout he e' he' => ?_⟩
  have hnot : e ∉ urgent := fun hmem => by
    rw [hurgent e hmem] at he
    cases he
  have hbehind : ordinary ≠ [] ∧ ∀ e'' ∈ urgent, e'' ∈ before := by
    rw [hmoves.returned, List.append_eq_append_iff] at hout
    rcases hout with ⟨middle, rfl, hordinary⟩ | ⟨middle, rfl, hordinary⟩
    · rw [hordinary]
      exact ⟨by simp, fun e'' hmem => List.mem_append_left _ hmem⟩
    · cases middle with
      | nil =>
          rw [List.nil_append] at hordinary
          rw [← hordinary, List.append_nil]
          exact ⟨List.cons_ne_nil _ _, fun e'' hmem => hmem⟩
      | cons head rest =>
          cases hordinary
          exact absurd (List.mem_append_right _ List.mem_cons_self) hnot
  have hempty := hmoves.first (by rw [QueueAction.priorityFirst_stamped]; exact ha) hbehind.1
  have hurgent := hmoves.priority
  rw [hempty, List.append_nil] at hurgent
  exact hbehind.2 e' (hurgent ▸ List.mem_append_left _ he')

end Accounted

theorem accounted_of_reachable {s : QueueLog T} (hs : (queueLogSystem T).Reachable s) : Accounted s := by
  refine hs.invariant Accounted ?_ ?_
  · rintro s rfl
    exact ⟨rfl, rfl, rfl, rfl⟩
  · intro a s s' h _ hstep
    obtain ⟨⟨out, q'⟩, hop, rfl⟩ := Option.map_eq_some_iff.mp hstep
    exact h.step hop

theorem accounted_of_run (actions : List (QueueAction T)) {s : QueueLog T}
    (hrun : (queueLogSystem T).run actions {} = some s) : Accounted s :=
  accounted_of_reachable (Transition.System.reachable_of_run actions (.init rfl) hrun)

/-- The log holds the elements that the operations enqueued, in their order. -/
theorem enqueued_of_run (actions : List (QueueAction T)) {s s' : QueueLog T}
    (hrun : (queueLogSystem T).run actions s = some s') :
    s'.enqueued.map QueueElement.value = s.enqueued.map QueueElement.value ++
      actions.flatMap QueueAction.allEnqueued := by
  induction actions generalizing s with
  | nil =>
      cases hrun
      exact (List.append_nil _).symm
  | cons a rest ih =>
      obtain ⟨next, hstep, hrest⟩ := Option.bind_eq_some_iff.mp hrun
      obtain ⟨⟨out, q⟩, _, rfl⟩ := Option.map_eq_some_iff.mp hstep
      rw [ih hrest, List.map_append, QueueAction.values_allEnqueued, List.append_assoc, List.flatMap_cons]

/-- **The queue loses nothing.** After every run the count is the number of the queued elements, and with the elements
told apart every one that was enqueued is queued or has been returned, once, those of either class in the order in which
they were enqueued; and `Dequeue`, `TryDequeueSome` and `DequeueAll` return all that are queued with priority before any
other. -/
theorem nothing_lost (actions : List (QueueAction T)) {q : ThreadedQueue T} {returned : List T}
    (hrun : (queueSystem T).run actions ({}, []) = some (q, returned)) :
    (q.priority.length + q.queue.length < 2147483648 → q.totalCount.toInt = q.priority.length + q.queue.length) ∧
      q.ServesInOrder ∧
      ∃ s : QueueLog T, (queueLogSystem T).run actions {} = some s ∧ s.values = (q, returned) ∧
        s.enqueued.map QueueElement.value = actions.flatMap QueueAction.allEnqueued ∧
        s.returned.Nodup ∧ (∀ e ∈ s.returned, e ∈ s.enqueued) ∧
        s.returned.filter (·.priority) ++ s.queue.priority = s.enqueued.filter (·.priority) ∧
        s.returned.filter (!·.priority) ++ s.queue.queue = s.enqueued.filter (!·.priority) ∧
        ∀ a : QueueAction T, a.priorityFirst = true → ∀ s', (queueLogSystem T).step a s = some s' →
          ∃ out, s'.returned = s.returned ++ out ∧ ∀ before e after, out = before ++ e :: after → e.priority = false →
            ∀ e' ∈ s.queue.priority, e' ∈ before := by
  rw [← run_values, Option.map_eq_some_iff] at hrun
  obtain ⟨s, hlog, hvalues⟩ := hrun
  have h := accounted_of_run actions hlog
  refine ⟨fun hlt => ?_, q.servesInOrder, s, hlog, hvalues, enqueued_of_run actions hlog, h.returned_nodup,
    fun e he => h.mem_enqueued he, h.priority, h.ordinary, fun a ha s' hstep => h.priority_returned ha hstep⟩
  have hcount := h.counted
  obtain ⟨rfl, -⟩ := Prod.mk.inj hvalues
  have hlength : (s.queue.map QueueElement.value).Counted := by
    rw [ThreadedQueue.Counted, ThreadedQueue.map, List.length_map, List.length_map]
    exact hcount
  exact hlength.toInt hlt

end QueueLog

end Runs

/-- A `TryDequeue` without priority goes first, and then the elements with priority do. -/
theorem QueueLog.nothing_lost_mixed :
    ∃ s : QueueLog Nat, s.values = (⟨1, [], [13]⟩, [10, 11, 12]) ∧ s.returned.Nodup ∧
      s.enqueued.map QueueElement.value = [10, 11, 12, 13] := by
  obtain ⟨_, _, s, _, hvalues, henqueued, hnodup, _⟩ := @QueueLog.nothing_lost Nat
    [.enqueue 10 false, .enqueueAll [11, 12] true, .enqueue 13 false, .tryDequeue false, .tryDequeueSome 2]
    ⟨1, [], [13]⟩ [10, 11, 12] rfl
  exact ⟨s, hvalues, hnodup, henqueued⟩

end LspCpp

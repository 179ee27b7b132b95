import LspCpp.LibMonitor
import LspCpp.QueueRuns

/-! The threads of a `ThreadedQueue`. `Dequeue` waits at the condition variable of the queue until one of the deques has
an element; `Enqueue` and `EnqueueAll` notify those that wait after they have released the mutex. -/

namespace LspCpp

variable {T : Type*}

/-- The number of the queued elements, by the deques and not by the count beside them. -/
def ThreadedQueue.work (q : ThreadedQueue T) : Nat := q.priority.length + q.queue.length

namespace ThreadedQueue

theorem work_eq_zero_iff (q : ThreadedQueue T) : q.work = 0 ↔ q.priority = [] ∧ q.queue = [] := by
  rw [work, Nat.add_eq_zero_iff, List.length_eq_zero_iff, List.length_eq_zero_iff]

/-- The predicate of the wait in `Dequeue`. -/
theorem dequeue_eq_none_iff (q : ThreadedQueue T) : q.dequeue = none ↔ q.work = 0 := by
  rw [work_eq_zero_iff, dequeue]
  rcases QueueAction.popPriority_cases q with ⟨hpriority, hnone⟩ | ⟨val, rest, hpriority, hsome⟩
  · rcases QueueAction.popQueue_cases q with ⟨hqueue, hnone'⟩ | ⟨val, rest, hqueue, hsome⟩
    · simp [hnone, hnone', hpriority, hqueue]
    · simp [hnone, hsome, hqueue]
  · simp [hsome, hpriority]

end ThreadedQueue

namespace QueueAction

/-- What an operation notifies. `EnqueueAll` returns before it does where there are no elements. -/
def signal : QueueAction T → Monitor.Signal
  | .enqueue _ _ => .one
  | .enqueueAll elements _ => if elements.isEmpty then .silent else .all
  | _ => .silent

/-- What is returned and what is left is what was there and what came. -/
theorem work_of_step {a : QueueAction T} {q q' : ThreadedQueue T} {out : List T} (h : a.step q = some (out, q')) :
    out.length + q'.work = q.work + a.allEnqueued.length := by
  obtain ⟨urgent, ordinary, hmoves⟩ := moves_of_step h
  have hpriority := congrArg List.length hmoves.priority
  have hqueue := congrArg List.length hmoves.queue
  have hreturned := congrArg List.length hmoves.returned
  simp only [List.length_append] at hpriority hqueue hreturned
  rw [ThreadedQueue.work, ThreadedQueue.work, allEnqueued, List.length_append]
  omega

theorem allEnqueued_of_silent {a : QueueAction T} (ha : a.signal = .silent) (n : Nat) :
    (a.stamped n).allEnqueued = [] := by
  cases a with
  | enqueue t priority => cases ha
  | enqueueAll elements priority =>
      cases elements with
      | nil => cases priority <;> rfl
      | cons t rest => cases ha
  | dequeue => rfl
  | tryDequeue priority => rfl
  | tryDequeueSome num => rfl
  | dequeueAll => rfl

theorem allEnqueued_of_one {a : QueueAction T} (ha : a.signal = .one) (n : Nat) :
    (a.stamped n).allEnqueued.length = 1 := by
  cases a with
  | enqueue t priority => cases priority <;> rfl
  | enqueueAll elements priority =>
      cases elements with
      | nil => cases ha
      | cons t rest => cases ha
  | dequeue => cases ha
  | tryDequeue priority => cases ha
  | tryDequeueSome num => cases ha
  | dequeueAll => cases ha

end QueueAction

namespace QueueLog

theorem step_queue {a : QueueAction T} {s s' : QueueLog T} (h : (queueLogSystem T).step a s = some s') :
    ∃ out, (a.stamped s.enqueued.length).step s.queue = some (out, s'.queue) ∧
      s'.enqueued = s.enqueued ++ (a.stamped s.enqueued.length).allEnqueued := by
  obtain ⟨⟨out, q'⟩, hop, rfl⟩ := Option.map_eq_some_iff.mp h
  exact ⟨out, hop, rfl⟩

theorem work_of_step {a : QueueAction T} {s s' : QueueLog T} (h : (queueLogSystem T).step a s = some s') :
    s'.queue.work ≤ s.queue.work + (a.stamped s.enqueued.length).allEnqueued.length := by
  obtain ⟨out, hop, _⟩ := step_queue h
  have hwork := QueueAction.work_of_step hop
  omega

/-- An `Enqueue`, which notifies one thread, adds one element. -/
theorem counts (T : Type*) : Monitor.Counts (queueLogSystem T) .dequeue QueueAction.signal fun s => s.queue.work where
  blocked := by
    intro s
    have hstep : (queueLogSystem T).step .dequeue s = none ↔ s.queue.dequeue = none := by
      simp [queueLogSystem, QueueAction.stamped, QueueAction.step]
    exact hstep.trans s.queue.dequeue_eq_none_iff
  taken := by
    intro s s' h
    obtain ⟨out, hop, _⟩ := step_queue h
    have hwork := QueueAction.work_of_step hop
    have hout : out.length = 1 := by
      obtain ⟨⟨val, q'⟩, _, heq⟩ := Option.map_eq_some_iff.mp hop
      cases heq
      rfl
    rw [QueueAction.allEnqueued_of_silent rfl, List.length_nil] at hwork
    omega
  silent := by
    intro a s s' ha h
    have hwork := work_of_step h
    rwa [QueueAction.allEnqueued_of_silent ha] at hwork
  one := by
    intro a s s' ha h
    have hwork := work_of_step h
    rwa [QueueAction.allEnqueued_of_one ha] at hwork

end QueueLog

/-- The threads `W` that call `Dequeue` on one queue, beside those that call its other operations. -/
def queueMonitor (T W : Type*) [DecidableEq W] :
    Transition.System (Monitor.State (QueueLog T) W) (Monitor.Action (QueueAction T) W) :=
  Monitor.system (queueLogSystem T) .dequeue QueueAction.signal W

namespace QueueLog

variable {W : Type*} [DecidableEq W] {s : Monitor.State (QueueLog T) W}

/-- What holds of the queue and of the threads that wait in its `Dequeue`. -/
structure Served (s : Monitor.State (QueueLog T) W) : Prop where
  accounted : s.data.Accounted
  nodup : s.data.returned.Nodup
  /-- The wake-ups under way suffice for the queued elements. -/
  attended : s.sleeping ≠ [] → 0 < s.alls ∨ s.data.queue.work ≤ s.awake.length + s.ones
  /-- When they are done, nobody waits for an element that is there. -/
  settled : s.Idle → s.sleeping = [] ∨ s.data.queue.priority = [] ∧ s.data.queue.queue = []
  /-- They can always be led on, -/
  enabled : s.Idle ∨ ∃ a : Monitor.Action (QueueAction T) W, a.IsWakeUp ∧ ∃ s', (queueMonitor T W).step a s = some s'
  /-- and come to an end. -/
  bounded : ∀ wakeUps s', (∀ a ∈ wakeUps, a.IsWakeUp) → (queueMonitor T W).run wakeUps s = some s' →
    wakeUps.length ≤ s.underway

/-- **Nobody waits for an element that is there.** In every interleaving of the operations of a queue, of any number of
threads in `Dequeue` and of wake-ups without reason, every element that was enqueued is queued or has been returned
once, in the order of its class, and there are as many wake-ups under way as elements for those who sleep: after
finitely many of them either nobody sleeps or both deques are empty. -/
theorem consumers_served (hs : (queueMonitor T W).Reachable s) : Served s := by
  have haccounted := accounted_of_reachable (Monitor.reachable_data hs)
  have hattended := Monitor.attended_of_reachable (counts T) hs
  refine ⟨haccounted, haccounted.returned_nodup, hattended, fun hidle => ?_, ?_, fun wakeUps s' hwakeUps hrun => ?_⟩
  · refine (hattended.of_idle (counts T) hidle).imp_right fun hblocked => ?_
    rw [← ThreadedQueue.work_eq_zero_iff]
    exact (counts T).blocked.mp hblocked
  · exact Monitor.idle_or_wakeUp (queueLogSystem T) .dequeue QueueAction.signal s
  · have hle := Monitor.wakeUps_length hwakeUps hrun
    omega

/-- Two threads wait; one element comes, then two at once, and a third thread takes the first of them. -/
def consumerRun : List (Monitor.Action (QueueAction Nat) Nat) :=
  [.call 1, .call 2, .perform (.enqueue 10 false), .call 3, .notifyOne (some 1), .perform (.enqueueAll [11, 12] true),
    .retry 1]

/-- The thread that was notified found an element though another had taken the one it was notified of. -/
theorem consumers_served_consumerRun :
    ∃ s : Monitor.State (QueueLog Nat) Nat, (queueMonitor Nat Nat).run consumerRun { data := {} } = some s ∧
      s.data.returned.map QueueElement.value = [10, 11] ∧ s.sleeping = [2] ∧ s.alls = 1 ∧ Served s := by
  have hrun : ∃ s : Monitor.State (QueueLog Nat) Nat, (queueMonitor Nat Nat).run consumerRun { data := {} } = some s ∧
      s.data.returned.map QueueElement.value = [10, 11] ∧ s.sleeping = [2] ∧ s.alls = 1 := ⟨_, rfl, rfl, rfl, rfl⟩
  obtain ⟨s, hrun, hreturned, hsleeping, halls⟩ := hrun
  have hreach : (queueMonitor Nat Nat).Reachable s :=
    Transition.System.reachable_of_run consumerRun (.init ⟨{}, rfl, rfl⟩) hrun
  exact ⟨s, hrun, hreturned, hsleeping, halls, consumers_served hreach⟩

end QueueLog

end LspCpp

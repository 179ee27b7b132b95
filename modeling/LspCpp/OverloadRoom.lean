import LspCpp.OverloadProgram
import Mathlib.Data.List.TakeWhile

/-! Room for the messages that a call of `submitParsedMessage` makes ready, read off the state before the call:
which messages these are, and whether each of them finds room in the queue that it goes to. -/

namespace LspCpp

namespace Reorder

/-- The entries of a table from `next` on up to the first key that is missing. -/
def consecutive (t : Table Nat ParsedMessage) (next : Nat) : List SequencedParsedMessage :=
  ((List.range' next t.size).takeWhile fun k => (t.lookup k).isSome).filterMap fun k =>
    (t.lookup k).map fun parsed => ⟨k, parsed⟩

/-- The submitted message and the buffered ones, from the next one on without a gap. -/
def batch (r : Reorder) (sequence : Nat) (parsed : ParsedMessage) : List SequencedParsedMessage :=
  if sequence = r.nextRouteSequence then
    ⟨sequence, parsed⟩ :: consecutive r.reorderBuffer (r.nextRouteSequence + 1)
  else consecutive (Table.emplace r.reorderBuffer sequence parsed) r.nextRouteSequence

theorem drain_items (t : Table Nat ParsedMessage) (fuel : Nat) (r : Reorder)
    (hsame : ∀ k, r.nextRouteSequence ≤ k → r.reorderBuffer.lookup k = t.lookup k) :
    (drain fuel r).2 = ((List.range' r.nextRouteSequence fuel).takeWhile fun k => (t.lookup k).isSome).filterMap
      fun k => (t.lookup k).map fun parsed => ⟨k, parsed⟩ := by
  induction fuel generalizing r with
  | zero => rfl
  | succ fuel ih =>
      have hfirst := hsame r.nextRouteSequence (Nat.le_refl _)
      rw [List.range'_succ, List.takeWhile_cons, ← hfirst, drain]
      cases hnext : r.reorderBuffer.lookup r.nextRouteSequence with
      | none => rfl
      | some parsed =>
          have hrest := ih ⟨r.reorderBuffer.erase r.nextRouteSequence, r.nextRouteSequence + 1⟩ (by
            intro k hk
            dsimp only at hk ⊢
            rw [Table.lookup_erase_ite, if_neg (by omega), hsame k (by omega)])
          rw [hnext] at hfirst
          simp only [Option.isSome_some, if_true, List.filterMap_cons, ← hfirst, Option.map_some]
          rw [hrest]

theorem drain_eq_consecutive (t : Table Nat ParsedMessage) (next : Nat) :
    (drain t.size ⟨t, next⟩).2 = consecutive t next :=
  drain_items t _ _ fun _ _ => rfl

/-- Unless it is refused, a message makes its batch ready. -/
theorem submitParsedMessage_ready {r : Reorder} {limits : RemoteEndPointLimits} {sequence : Nat}
    (parsed : ParsedMessage) {bypass : Bool}
    (hroom : sequence = r.nextRouteSequence ∨ bypass = true ∨ r.full limits = false) :
    (r.submitParsedMessage limits sequence parsed bypass).2 = .ready (r.batch sequence parsed) := by
  unfold submitParsedMessage batch
  by_cases hseq : sequence = r.nextRouteSequence
  · rw [if_pos hseq, if_pos hseq, ← drain_eq_consecutive]
  · have hfits : (!bypass && r.full limits) = false := by
      rcases hroom with h | h | h
      · exact absurd h hseq
      · simp [h]
      · simp [h]
    rw [if_neg hseq, if_neg hseq, ← drain_eq_consecutive, hfits, Bool.false_and, if_neg Bool.false_ne_true,
      if_neg Bool.false_ne_true]

theorem submitParsedMessage_overloaded {r : Reorder} {limits : RemoteEndPointLimits} {sequence : Nat}
    (parsed : ParsedMessage) {bypass : Bool} (hpolicy : limits.overloadPolicy ≠ .dropNewest)
    (hseq : sequence ≠ r.nextRouteSequence) (hbypass : bypass = false) (hfull : r.full limits = true) :
    ∃ message, r.submitParsedMessage limits sequence parsed bypass = (r, .overloaded message) := by
  unfold submitParsedMessage
  rw [if_neg hseq, hbypass, hfull, if_pos (by simpa using hpolicy)]
  exact ⟨_, rfl⟩

end Reorder

namespace OrderedDispatcher

/-- The dispatcher after an enqueue operation, unless the queue was full. -/
def accepted : OrderedDispatcher × Enqueued → Option OrderedDispatcher
  | (_, .overloaded _) => none
  | (d, _) => some d

theorem accepted_eq_some {r : OrderedDispatcher × Enqueued} {d : OrderedDispatcher} (h : accepted r = some d) :
    r.1 = d ∧ ∀ message, r.2 ≠ .overloaded message := by
  obtain ⟨_, enqueued⟩ := r
  cases enqueued <;> cases h
  all_goals exact ⟨rfl, fun _ heq => by cases heq⟩

theorem accepted_eq_none {r : OrderedDispatcher × Enqueued} (h : accepted r = none) :
    ∃ message, r.2 = .overloaded message := by
  obtain ⟨_, enqueued⟩ := r
  cases enqueued <;> cases h
  exact ⟨_, rfl⟩

/-- An overload leaves the queues as they are. -/
theorem enqueueNotification_overloaded {d : OrderedDispatcher} {limits : RemoteEndPointLimits} {quit : Bool}
    {item : DispatchItem} {message : String}
    (h : (d.enqueueNotification limits quit item).2 = .overloaded message) :
    (d.enqueueNotification limits quit item).1 = d := by
  unfold enqueueNotification at h ⊢
  split_ifs at h ⊢
  rfl

theorem enqueueRequest_overloaded {d : OrderedDispatcher} {limits : RemoteEndPointLimits} {item : DispatchItem}
    {message : String} (h : (d.enqueueRequest limits item).2 = .overloaded message) :
    (d.enqueueRequest limits item).1 = d := by
  unfold enqueueRequest at h ⊢
  split_ifs at h ⊢
  rfl

/-- The dispatcher after a routed message, unless the queue that the message goes to is full. -/
def accept (limits : RemoteEndPointLimits) (concurrentNotifications : List String) (generation : Nat)
    (d : OrderedDispatcher) (item : SequencedParsedMessage) : Option OrderedDispatcher :=
  match routeTarget concurrentNotifications item.parsed with
  | .notification message => accepted (d.enqueueNotification limits false ⟨item.sequence, message, generation⟩)
  | .request message => accepted (d.enqueueRequest limits ⟨item.sequence, message, generation⟩)
  | _ => some d

/-- Every message of a batch finds room in the queue that it goes to. -/
def Fits (limits : RemoteEndPointLimits) (concurrentNotifications : List String) (generation : Nat) :
    OrderedDispatcher → List SequencedParsedMessage → Prop
  | _, [] => True
  | d, item :: rest =>
      ∃ d', d.accept limits concurrentNotifications generation item = some d' ∧
        Fits limits concurrentNotifications generation d' rest

end OrderedDispatcher

namespace EndPoint

/-- The queues have room for the batch of a message. -/
def HasRoom (s : EndPoint) (sequence : Nat) (parsed : ParsedMessage) : Prop :=
  s.dispatcher.Fits s.limits s.concurrentNotifications s.generation (s.reorder.batch sequence parsed)

/-- The reorder buffer has no room for a message. -/
def Refuses (s : EndPoint) (sequence : Nat) (bypassReorderLimit : Bool) : Prop :=
  sequence ≠ s.reorder.nextRouteSequence ∧ bypassReorderLimit = false ∧ s.reorder.full s.limits = true

end EndPoint

end LspCpp

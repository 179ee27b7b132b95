import LspCpp.EndpointMessage
import LspCpp.LibChain
import Mathlib.Tactic.SplitIfs

/-! Contexts: chains of immutable nodes with a key and a value each, and the tasks that are registered in them so that
they can be cancelled. -/

namespace LspCpp

namespace Context

open Chain

/-- The `CancelState` of a task: the task whose `cancelled` it shares, the address of the enclosing task's state, and
the request's id. -/
structure CancelState where
  cancelled : Nat
  parent : Option Nat
  id : LsRequestId
  deriving DecidableEq, Repr

variable {V : Type}

/-- What a `Data` stores, with the key it stores it under. -/
inductive Stored (V : Type) where
  | cancelState (state : CancelState)
  | other (key : Nat) (value : V)
  deriving DecidableEq, Repr

/-- `Data`. -/
abbrev Data (V : Type) := Node (Stored V)

def Stored.cancelState? : Stored V → Option CancelState
  | .cancelState state => some state
  | .other _ _ => none

def Stored.other? (key : Nat) : Stored V → Option V
  | .cancelState _ => none
  | .other key' value => if key' = key then some value else none

/-- `get` with `g_cancelStateKey`, which returns a pointer into the node. -/
def getCancelState (heap : List (Data V)) (context : Option Nat) : Option (Nat × CancelState) :=
  walkUp Stored.cancelState? heap context

/-- `get` with another key. -/
def get (heap : List (Data V)) (context : Option Nat) (key : Nat) : Option V :=
  (walkUp (Stored.other? key) heap context).map Prod.snd

/-- What `getCancelledMonitor` comes to: a pointer to something that is not a `CancelState`, the end of the chain, or
the task whose `cancelled` the monitor reads. -/
inductive MonitorResult where
  | dangling
  | empty
  | monitor (cancelled : Nat)
  deriving DecidableEq, Repr

/-- The loop of `getCancelledMonitor`, which follows the pointers in the states and not those of the nodes. -/
def followStates (id : LsRequestId) : List (Data V) → Option Nat → MonitorResult
  | _, none => .empty
  | [], some _ => .dangling
  | data :: older, some address =>
      if address = older.length then
        match data.value with
        | .cancelState state =>
            if id ≠ state.id then followStates id older state.parent else .monitor state.cancelled
        | .other _ _ => .dangling
      else followStates id older (some address)

def getCancelledMonitor (heap : List (Data V)) (context : Option Nat) (id : LsRequestId) : MonitorResult :=
  followStates id heap ((getCancelState heap context).map Prod.fst)

/-- The states of the tasks that enclose the context, the innermost first. -/
def states (heap : List (Data V)) (context : Option Nat) : List (Nat × CancelState) :=
  (chain heap context).filterMap fun entry => entry.2.cancelState?.map fun state => (entry.1, state)

/-- Every pointer of a node is to an older one, and that of a task's state to the state of the task that encloses it. -/
def Linked : List (Data V) → Prop
  | [] => True
  | data :: older =>
      Valid older data.parent ∧
        (∀ state, data.value = .cancelState state → state.parent = (getCancelState older data.parent).map Prod.fst) ∧
        Linked older

/-- What a context says of itself, without the pointers: the task or the value that each of its nodes stores. -/
inductive Binding (V : Type) where
  | task (cancelled : Nat) (id : LsRequestId)
  | other (key : Nat) (value : V)
  deriving DecidableEq, Repr

def Stored.binding : Stored V → Binding V
  | .cancelState state => .task state.cancelled state.id
  | .other key value => .other key value

/-- The bindings of a context, the innermost first. -/
def bindings (heap : List (Data V)) (context : Option Nat) : List (Binding V) :=
  (chain heap context).map fun entry => entry.2.binding

namespace Binding

def other? (key : Nat) : Binding V → Option V
  | .task _ _ => none
  | .other key' value => if key' = key then some value else none

def task? (id : LsRequestId) : Binding V → Option Nat
  | .task cancelled id' => if id' = id then some cancelled else none
  | .other _ _ => none

/-- The value that was bound last. -/
def lookup (key : Nat) (bindings : List (Binding V)) : Option V := bindings.findSome? (other? key)

/-- The innermost task with the id. -/
def innermost (id : LsRequestId) (bindings : List (Binding V)) : Option Nat := bindings.findSome? (task? id)

end Binding

theorem getCancelState_eq (heap : List (Data V)) (context : Option Nat) :
    getCancelState heap context = (states heap context).head? := by
  rw [getCancelState, walkUp_eq, states, List.head?_filterMap]

theorem states_new (data : Data V) (older : List (Data V)) :
    states (data :: older) (some older.length) =
      (match data.value with
        | .cancelState state => [(older.length, state)]
        | .other _ _ => []) ++ states older data.parent := by
  rw [states, chain_new, List.filterMap_cons]
  cases data.value <;> rfl

theorem states_older {older : List (Data V)} {address : Nat} (h : address ≠ older.length) (data : Data V) :
    states (data :: older) (some address) = states older (some address) := by
  rw [states, chain, if_neg h, states]

theorem valid_states (heap : List (Data V)) (context : Option Nat) :
    Valid heap ((states heap context).head?.map Prod.fst) := by
  intro address h
  obtain ⟨entry, hentry, rfl⟩ := Option.map_eq_some_iff.mp h
  have hmem : entry ∈ states heap context := List.mem_of_head? hentry
  obtain ⟨node, hnode, hstate⟩ := List.mem_filterMap.mp hmem
  obtain ⟨state, _, rfl⟩ := Option.map_eq_some_iff.mp hstate
  exact lt_of_mem_chain hnode

theorem followStates_cons {heap : List (Data V)} {pointer : Option Nat} (h : Valid heap pointer) (id : LsRequestId)
    (data : Data V) : followStates id (data :: heap) pointer = followStates id heap pointer := by
  cases pointer with
  | none => cases heap <;> rfl
  | some address =>
      have hne : address ≠ heap.length := Nat.ne_of_lt (h address rfl)
      rw [followStates, if_neg hne]

/-- The pointers in the states lead from task to task as the contexts do: the loop finds the innermost with the id. -/
theorem followStates_eq {heap : List (Data V)} (hlinked : Linked heap) (id : LsRequestId) (context : Option Nat) :
    followStates id heap ((states heap context).head?.map Prod.fst) =
      match (states heap context).findSome? fun entry => if entry.2.id = id then some entry.2.cancelled else none with
      | some cancelled => .monitor cancelled
      | none => .empty := by
  induction heap generalizing context with
  | nil => rfl
  | cons data older ih =>
      obtain ⟨hvalid, hstate, hlinked⟩ := hlinked
      cases context with
      | none => rfl
      | some address =>
          by_cases hnew : address = older.length
          · rw [hnew, states_new]
            cases hvalue : data.value with
            | cancelState state =>
                have hparent := hstate state hvalue
                rw [getCancelState_eq] at hparent
                show followStates id (data :: older) (some older.length) = _
                rw [followStates, if_pos rfl, hvalue, List.singleton_append, List.findSome?_cons]
                by_cases hid : state.id = id
                · simp [hid]
                · simp only [hid, Ne, Ne.symm hid, not_false_eq_true, if_true, if_false]
                  rw [hparent]
                  exact ih hlinked data.parent
            | other key value =>
                rw [List.nil_append, followStates_cons (valid_states older data.parent)]
                exact ih hlinked data.parent
          · rw [states_older hnew, followStates_cons (valid_states older (some address))]
            exact ih hlinked (some address)

theorem bindings_new (data : Data V) (older : List (Data V)) :
    bindings (data :: older) (some older.length) = data.value.binding :: bindings older data.parent := by
  rw [bindings, chain_new, List.map_cons, bindings]

theorem bindings_cons {heap : List (Data V)} {context : Option Nat} (h : Valid heap context) (data : Data V) :
    bindings (data :: heap) context = bindings heap context := by
  rw [bindings, chain_cons h, bindings]

theorem get_eq (heap : List (Data V)) (context : Option Nat) (key : Nat) :
    get heap context key = Binding.lookup key (bindings heap context) := by
  rw [get, walkUp_eq, Binding.lookup, bindings, List.map_findSome?, List.findSome?_map]
  congr 1
  funext ⟨address, stored⟩
  cases stored with
  | cancelState state => rfl
  | other key' value =>
      by_cases hkey : key' = key <;> simp [Stored.other?, Stored.binding, Binding.other?, hkey]

theorem findSome?_states (heap : List (Data V)) (context : Option Nat) (id : LsRequestId) :
    ((states heap context).findSome? fun entry => if entry.2.id = id then some entry.2.cancelled else none) =
      Binding.innermost id (bindings heap context) := by
  rw [states, Binding.innermost, bindings, List.findSome?_map, ← List.head?_filterMap, List.filterMap_filterMap,
    List.head?_filterMap]
  congr 1
  funext ⟨address, stored⟩
  cases stored with
  | cancelState state => rfl
  | other key value => rfl

/-- `getCancelledMonitor` follows no dangling pointer, and gives the monitor of the innermost task with the id. -/
theorem getCancelledMonitor_eq {heap : List (Data V)} (hlinked : Linked heap) (context : Option Nat)
    (id : LsRequestId) :
    getCancelledMonitor heap context id =
      match Binding.innermost id (bindings heap context) with
      | some cancelled => .monitor cancelled
      | none => .empty := by
  rw [getCancelledMonitor, getCancelState_eq, followStates_eq hlinked, findSome?_states]

end Context

end LspCpp

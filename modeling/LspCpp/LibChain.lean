import Mathlib.Data.List.Basic

/-! Immutable nodes that are linked to a parent, and the chain of the ancestors of a node. The newest node is at the
front of the list and the address of a node is the number of older ones, so that the chain goes down the list. -/

namespace Chain

variable {β γ : Type*}

structure Node (β : Type*) where
  parent : Option Nat
  value : β
  deriving DecidableEq, Repr

/-- The node and its ancestors, each with its address. -/
def chain : List (Node β) → Option Nat → List (Nat × β)
  | [], _ => []
  | _ :: _, none => []
  | node :: older, some address =>
      if address = older.length then (address, node.value) :: chain older node.parent else chain older (some address)

/-- The loop that walks up from a node until one of the ancestors has what is looked for. -/
def walkUp (found : β → Option γ) : List (Node β) → Option Nat → Option (Nat × γ)
  | [], _ => none
  | _ :: _, none => none
  | node :: older, some address =>
      if address = older.length then
        match found node.value with
        | some result => some (address, result)
        | none => walkUp found older node.parent
      else walkUp found older (some address)

/-- The pointer is null or to a node. -/
def Valid (nodes : List (Node β)) (pointer : Option Nat) : Prop :=
  ∀ address, pointer = some address → address < nodes.length

@[simp] theorem chain_none (nodes : List (Node β)) : chain nodes none = [] := by
  cases nodes <;> rfl

@[simp] theorem chain_new (node : Node β) (older : List (Node β)) :
    chain (node :: older) (some older.length) = (older.length, node.value) :: chain older node.parent := by
  simp [chain]

@[simp] theorem valid_none (nodes : List (Node β)) : Valid nodes none := nofun

@[simp] theorem valid_new (node : Node β) (older : List (Node β)) : Valid (node :: older) (some older.length) := by
  intro address h
  cases h
  exact Nat.lt_succ_self _

theorem Valid.cons {nodes : List (Node β)} {pointer : Option Nat} (h : Valid nodes pointer) (node : Node β) :
    Valid (node :: nodes) pointer :=
  fun address hpointer => Nat.lt_succ_of_lt (h address hpointer)

/-- A new node is nobody's ancestor. -/
theorem chain_cons {nodes : List (Node β)} {pointer : Option Nat} (h : Valid nodes pointer) (node : Node β) :
    chain (node :: nodes) pointer = chain nodes pointer := by
  cases pointer with
  | none => simp
  | some address =>
      have hne : address ≠ nodes.length := Nat.ne_of_lt (h address rfl)
      rw [chain, if_neg hne]

theorem lt_of_mem_chain {nodes : List (Node β)} {pointer : Option Nat} {entry : Nat × β}
    (h : entry ∈ chain nodes pointer) : entry.1 < nodes.length := by
  induction nodes generalizing pointer with
  | nil => simp [chain] at h
  | cons node older ih =>
      cases pointer with
      | none => simp at h
      | some address =>
          rw [chain] at h
          split_ifs at h with hnew
          · rcases List.mem_cons.mp h with rfl | hold
            · simp [hnew]
            · exact Nat.lt_succ_of_lt (ih hold)
          · exact Nat.lt_succ_of_lt (ih h)

/-- The loop finds the first one in the chain. -/
theorem walkUp_eq (found : β → Option γ) (nodes : List (Node β)) (pointer : Option Nat) :
    walkUp found nodes pointer =
      (chain nodes pointer).findSome? fun entry => (found entry.2).map fun result => (entry.1, result) := by
  induction nodes generalizing pointer with
  | nil => rfl
  | cons node older ih =>
      cases pointer with
      | none => rfl
      | some address =>
          rw [walkUp, chain]
          split_ifs with hnew
          · rw [List.findSome?_cons]
            cases hfound : found node.value with
            | none => exact ih node.parent
            | some result => rfl
          · exact ih (some address)

end Chain

import LspCpp.LibSort
import LspCpp.LibTransition
import Mathlib.Data.UInt

/-! The cache that evicts what has not been used recently. Every use gives an entry the next score; when the counter
of the scores overflows, the entries are sorted and numbered anew. -/

namespace LspCpp

/-- `LruCache::Entry`. -/
structure LruEntry (κ ν : Type*) where
  score : UInt32
  key : κ
  value : ν
  deriving DecidableEq, Repr

structure LruCache (κ ν : Type*) where
  maxEntries : Nat
  entries : List (LruEntry κ ν) := []
  nextScore : UInt32 := 0
  deriving DecidableEq, Repr

/-- `operator<` of the entries looks at the scores. -/
def LruEntry.rank {κ ν : Type*} (entry : LruEntry κ ν) : Nat := entry.score.toNat

namespace LruCache

variable {κ ν : Type*}

section Code

/-- The loop of `std::min_element`: the position of the first entry with the lowest score, where `smallest` is that of
the entries before `i`. -/
def minElementFrom (position : Nat) (smallest : LruEntry κ ν) : Nat → List (LruEntry κ ν) → Nat
  | _, [] => position
  | i, entry :: entries =>
      if entry.score < smallest.score then minElementFrom i entry (i + 1) entries
      else minElementFrom position smallest (i + 1) entries

def minElement : List (LruEntry κ ν) → Nat
  | [] => 0
  | entry :: entries => minElementFrom 0 entry 1 entries

/-- The loop of `IncrementScore` over the sorted entries. -/
def renumber : UInt32 → List (LruEntry κ ν) → List (LruEntry κ ν) × UInt32
  | nextScore, [] => ([], nextScore)
  | nextScore, entry :: entries =>
      let rest := renumber (nextScore + 1) entries
      ({ entry with score := nextScore } :: rest.1, rest.2)

variable (S : StdSort (LruEntry κ ν) LruEntry.rank)

def incrementScore (cache : LruCache κ ν) : LruCache κ ν :=
  if cache.nextScore + 1 = 0 then
    let numbered := renumber 0 (S.sort cache.entries)
    { cache with entries := numbered.1, nextScore := numbered.2 }
  else { cache with nextScore := cache.nextScore + 1 }

def insert (key : κ) (value : ν) (cache : LruCache κ ν) : LruCache κ ν :=
  let kept := if cache.maxEntries ≤ cache.entries.length then cache.entries.eraseIdx (minElement cache.entries)
    else cache.entries
  let cache' := incrementScore S { cache with entries := kept }
  { cache' with entries := cache'.entries ++ [⟨cache.nextScore, key, value⟩] }

variable [DecidableEq κ]

/-- The slot of the first entry with a key. -/
def slot (key : κ) (cache : LruCache κ ν) : Option Nat := cache.entries.findIdx? (·.key = key)

def has (key : κ) (cache : LruCache κ ν) : Bool := cache.entries.any (·.key = key)

/-- `Get`; the allocator is called where there is no entry. -/
def get (key : κ) (allocator : Unit → ν) (cache : LruCache κ ν) : ν × LruCache κ ν :=
  match cache.entries.find? (·.key = key) with
  | some entry => (entry.value, cache)
  | none =>
      let result := allocator ()
      (result, insert S key result cache)

/-- `TryGet` with a place for the value: what is stored there, where the call returns true. The value is read from the
slot in which the entry was found, after the scores have been updated. -/
def tryGet (key : κ) (cache : LruCache κ ν) : Option ν × LruCache κ ν :=
  match cache.slot key with
  | none => (none, cache)
  | some i =>
      let cache' := incrementScore S
        { cache with entries := cache.entries.modify i fun entry => { entry with score := cache.nextScore } }
      (cache'.entries[i]?.map (·.value), cache')

def tryTake (key : κ) (cache : LruCache κ ν) : Option ν × LruCache κ ν :=
  match cache.slot key with
  | none => (none, cache)
  | some i => (cache.entries[i]?.map (·.value), { cache with entries := cache.entries.eraseIdx i })

def clear (cache : LruCache κ ν) : LruCache κ ν := { cache with entries := [], nextScore := 0 }

end Code

/-- An operation on a cache. -/
inductive Op (κ ν : Type*) where
  | insert (key : κ) (value : ν)
  | get (key : κ) (value : ν)
  | tryGet (key : κ)
  | tryTake (key : κ)
  | has (key : κ)
  | clear
  deriving DecidableEq, Repr

/-- A cache with the keys that have been used by insertions and successful lookups, the newest first. -/
structure Logged (κ ν : Type*) where
  cache : LruCache κ ν
  uses : List κ := []
  deriving DecidableEq, Repr

section Runs

variable [DecidableEq κ] (S : StdSort (LruEntry κ ν) LruEntry.rank)

/-- The cache after an operation; `get` carries what its allocator makes. -/
def apply (cache : LruCache κ ν) : Op κ ν → LruCache κ ν
  | .insert key value => insert S key value cache
  | .get key value => (get S key (fun _ => value) cache).2
  | .tryGet key => (tryGet S key cache).2
  | .tryTake key => (tryTake key cache).2
  | .has _ => cache
  | .clear => clear cache

/-- The log after an operation. -/
def log (s : Logged κ ν) : Op κ ν → List κ
  | .insert key _ => key :: s.uses
  | .get key _ => if s.cache.has key then s.uses else key :: s.uses
  | .tryGet key => if s.cache.has key then key :: s.uses else s.uses
  | .tryTake _ | .has _ | .clear => s.uses

/-- The runs of a cache that begins as `start`. -/
def system (start : LruCache κ ν) : Transition.System (Logged κ ν) (Op κ ν) where
  init s := s = ⟨start, []⟩
  step op s := some ⟨apply S s.cache op, log s op⟩

end Runs

end LruCache

end LspCpp

import Mathlib.Data.List.Pairwise
import Mathlib.Order.Defs.Unbundled
import Mathlib.Tactic.SplitIfs
import Mathlib.Tactic.ByContra

/-! Maps that keep their entries in the order of the keys. Two of them with the same entries are equal, and
assigning ascending keys one by one puts them down in the order in which they come. -/

/-- A finite map with its entries in ascending order of their keys. -/
@[ext]
structure SortedMap (K V : Type*) [LT K] where
  entries : List (K × V)
  sorted : entries.Pairwise fun a b => a.1 < b.1

namespace SortedMap

variable {K V W : Type*} [LT K]

def empty : SortedMap K V := ⟨[], .nil⟩

/-- The same keys with other values. -/
def mapValues (f : V → W) (m : SortedMap K V) : SortedMap K W :=
  ⟨m.entries.map fun e => (e.1, f e.2), List.pairwise_map.mpr m.sorted⟩

theorem mapValues_mapValues {f : V → W} {g : W → V} (h : Function.LeftInverse g f) (m : SortedMap K V) :
    (m.mapValues f).mapValues g = m := by
  refine SortedMap.ext ((List.map_map ..).trans ?_)
  refine (List.map_congr_left fun e _ => ?_).trans (List.map_id _)
  exact Prod.ext rfl (h e.2)

variable [DecidableLT K] [DecidableEq K]

/-- The entries after the value of one key was assigned. -/
def assignEntries (k : K) (v : V) : List (K × V) → List (K × V)
  | [] => [(k, v)]
  | e :: rest =>
      if k < e.1 then (k, v) :: e :: rest
      else if k = e.1 then (k, v) :: rest
      else e :: assignEntries k v rest

theorem mem_assignEntries {k : K} {v : V} {entries : List (K × V)} {e : K × V}
    (h : e ∈ assignEntries k v entries) : e = (k, v) ∨ e ∈ entries := by
  induction entries with
  | nil => exact .inl (List.mem_singleton.mp h)
  | cons e' rest ih =>
      rw [assignEntries] at h
      split_ifs at h
      · exact List.mem_cons.mp h
      · exact (List.mem_cons.mp h).imp_right (List.mem_cons_of_mem _)
      · rcases List.mem_cons.mp h with rfl | h
        · exact .inr (List.mem_cons_self ..)
        · exact (ih h).imp_right (List.mem_cons_of_mem _)

/-- A key above all others goes to the end. -/
theorem assignEntries_of_forall_lt [Std.Asymm (α := K) (· < ·)] {k : K} (v : V) {entries : List (K × V)}
    (h : ∀ e ∈ entries, e.1 < k) : assignEntries k v entries = entries ++ [(k, v)] := by
  induction entries with
  | nil => rfl
  | cons e rest ih =>
      have hlt : e.1 < k := h e (List.mem_cons_self ..)
      have hne : k ≠ e.1 := fun heq => Std.Asymm.asymm _ _ hlt (heq ▸ hlt)
      rw [assignEntries, if_neg (Std.Asymm.asymm _ _ hlt), if_neg hne,
        ih fun e he => h e (List.mem_cons_of_mem _ he), List.cons_append]

theorem map_assignEntries (f : V → W) (k : K) (v : V) (entries : List (K × V)) :
    (assignEntries k v entries).map (fun e => (e.1, f e.2)) =
      assignEntries k (f v) (entries.map fun e => (e.1, f e.2)) := by
  induction entries with
  | nil => rfl
  | cons e rest ih =>
      rw [assignEntries, List.map_cons, assignEntries]
      split_ifs
      · rfl
      · rfl
      · rw [List.map_cons, ih]

variable [IsTrans K (· < ·)] [Std.Trichotomous (α := K) (· < ·)]

theorem pairwise_assignEntries (k : K) (v : V) {entries : List (K × V)}
    (h : entries.Pairwise fun a b => a.1 < b.1) :
    (assignEntries k v entries).Pairwise fun a b => a.1 < b.1 := by
  induction entries with
  | nil => exact List.pairwise_singleton _ _
  | cons e rest ih =>
      obtain ⟨hhead, hrest⟩ := List.pairwise_cons.mp h
      rw [assignEntries]
      split_ifs with hlt heq
      · refine List.pairwise_cons.mpr ⟨fun e' he' => ?_, h⟩
        rcases List.mem_cons.mp he' with rfl | he'
        · exact hlt
        · exact IsTrans.trans _ _ _ hlt (hhead e' he')
      · exact List.pairwise_cons.mpr ⟨fun e' he' => heq ▸ hhead e' he', hrest⟩
      · refine List.pairwise_cons.mpr ⟨fun e' he' => ?_, ih hrest⟩
        rcases mem_assignEntries he' with rfl | he'
        · by_contra hnot
          exact heq (Std.Trichotomous.trichotomous _ _ hlt hnot)
        · exact hhead e' he'

/-- `m[k] = v`. -/
def assign (m : SortedMap K V) (k : K) (v : V) : SortedMap K V :=
  ⟨assignEntries k v m.entries, pairwise_assignEntries k v m.sorted⟩

theorem mapValues_assign (f : V → W) (m : SortedMap K V) (k : K) (v : V) :
    (m.assign k v).mapValues f = (m.mapValues f).assign k (f v) :=
  SortedMap.ext (map_assignEntries f k v m.entries)

/-- Assignments one after the other, the earliest first. -/
def assignAll (m : SortedMap K V) (entries : List (K × V)) : SortedMap K V :=
  entries.foldl (fun m e => m.assign e.1 e.2) m

/-- All keys come from the map or from an assignment. -/
theorem key_of_mem_assignAll {m : SortedMap K V} {entries : List (K × V)} {e : K × V}
    (h : e ∈ (m.assignAll entries).entries) : e ∈ m.entries ∨ e ∈ entries := by
  induction entries generalizing m with
  | nil => exact .inl h
  | cons e' rest ih =>
      rcases ih h with h | h
      · rcases mem_assignEntries h with rfl | h
        · exact .inr (List.mem_cons_self ..)
        · exact .inl h
      · exact .inr (List.mem_cons_of_mem _ h)

/-- Ascending assignments above all keys are put down as they come. -/
theorem entries_assignAll [Std.Asymm (α := K) (· < ·)] {m : SortedMap K V} {entries : List (K × V)}
    (hsorted : (m.entries ++ entries).Pairwise fun a b => a.1 < b.1) :
    (m.assignAll entries).entries = m.entries ++ entries := by
  induction entries generalizing m with
  | nil => exact (List.append_nil _).symm
  | cons e rest ih =>
      have hlt : ∀ e' ∈ m.entries, e'.1 < e.1 := fun e' he' =>
        (List.pairwise_append.mp hsorted).2.2 e' he' e (List.mem_cons_self ..)
      have hassign : (m.assign e.1 e.2).entries = m.entries ++ [e] := assignEntries_of_forall_lt e.2 hlt
      have hsplit : (m.assign e.1 e.2).entries ++ rest = m.entries ++ e :: rest := by
        rw [hassign, List.append_assoc, List.singleton_append]
      rw [← hsplit]
      exact ih (hsplit ▸ hsorted)

theorem assignAll_entries [Std.Asymm (α := K) (· < ·)] (m : SortedMap K V) : empty.assignAll m.entries = m :=
  SortedMap.ext (entries_assignAll (m := empty) m.sorted)

end SortedMap

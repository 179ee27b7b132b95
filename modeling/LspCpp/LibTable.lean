import Mathlib.Data.List.AList
import Mathlib.Logic.Function.Basic

/-! Finite tables with at most one entry for each key: `AList` with a value type that does not
depend on the key, and its lookups after one update as case distinctions on the key. Tables that only
proofs look into are functions. -/

/-- A finite map from `K` to `V`. -/
abbrev Table (K V : Type*) := AList fun _ : K => V

namespace Table

variable {K V : Type*}

/-- The number of entries. -/
def size (t : Table K V) : Nat := t.entries.length

/-- A table with no entry under any key is empty. -/
theorem eq_empty_of_forall_not_mem {t : Table K V} (h : ∀ k, k ∉ t) : t = ∅ := by
  apply AList.ext
  rw [AList.empty_entries, List.eq_nil_iff_forall_not_mem]
  intro entry hentry
  exact h entry.1 (List.mem_map_of_mem (f := Sigma.fst) hentry)

/-- The number of entries whose value meets `p`. -/
def count (p : V → Bool) (t : Table K V) : Nat := t.entries.countP fun entry => p entry.2

theorem count_le_size (p : V → Bool) (t : Table K V) : count p t ≤ size t := List.countP_le_length

theorem size_eq_length_keys (t : Table K V) : size t = t.keys.length := by
  rw [size, AList.keys, List.keys, List.length_map]

variable [DecidableEq K]

/-- `std::map::emplace`: an entry that is already there stays. -/
def emplace (t : Table K V) (k : K) (v : V) : Table K V := if k ∈ t then t else t.insert k v

theorem lookup_insert_ite (t : Table K V) (k k' : K) (v : V) :
    (t.insert k v).lookup k' = if k' = k then some v else t.lookup k' := by
  split_ifs with h
  · rw [h]
    exact AList.lookup_insert t
  · exact AList.lookup_insert_ne h

theorem lookup_erase_ite (t : Table K V) (k k' : K) :
    (t.erase k).lookup k' = if k' = k then none else t.lookup k' := by
  split_ifs with h
  · rw [h]
    exact AList.lookup_erase k t
  · exact AList.lookup_erase_ne h

/-- The entries left after several keys are erased one by one. -/
theorem lookup_foldl_erase (ks : List K) (t : Table K V) (k : K) :
    (ks.foldl (fun t k => t.erase k) t).lookup k = if k ∈ ks then none else t.lookup k := by
  induction ks generalizing t with
  | nil => rw [List.foldl_nil, if_neg List.not_mem_nil]
  | cons k' rest ih =>
      rw [List.foldl_cons, ih, lookup_erase_ite]
      by_cases hk : k = k'
      · simp [hk]
      · simp [hk]

/-- An entry of a table that is a function, after one update. -/
theorem update_eq_some {f : K → Option V} {k k' : K} {value : Option V} {v : V}
    (h : Function.update f k value k' = some v) : k' = k ∧ value = some v ∨ k' ≠ k ∧ f k' = some v := by
  by_cases hk : k' = k
  · rw [hk, Function.update_self] at h
    exact .inl ⟨hk, h⟩
  · rw [Function.update_of_ne hk] at h
    exact .inr ⟨hk, h⟩

theorem mem_of_lookup {t : Table K V} {k : K} {v : V} (h : t.lookup k = some v) : k ∈ t :=
  AList.lookup_isSome.mp (by rw [h]; rfl)

theorem size_erase {t : Table K V} {k : K} (h : k ∈ t) : size (t.erase k) + 1 = size t := by
  obtain ⟨_, before, after, _, hentries, herased⟩ := List.exists_of_kerase h
  have herase : (t.erase k).entries = before ++ after := herased
  rw [size, size, herase, hentries, List.length_append, List.length_append, List.length_cons]
  omega

theorem size_erase_le (t : Table K V) (k : K) : size (t.erase k) ≤ size t := by
  rw [size_eq_length_keys, size_eq_length_keys, AList.keys_erase]
  exact List.length_erase_le

theorem size_insert_of_mem {t : Table K V} {k : K} (h : k ∈ t) (v : V) : size (t.insert k v) = size t := by
  have hpos : 0 < t.keys.length := List.length_pos_of_mem (AList.mem_keys.mp h)
  rw [size_eq_length_keys, size_eq_length_keys, AList.keys_insert, List.length_cons,
    List.length_erase_of_mem (AList.mem_keys.mp h)]
  omega

theorem size_insert_of_not_mem {t : Table K V} {k : K} (h : k ∉ t) (v : V) :
    size (t.insert k v) = size t + 1 := by
  rw [size_eq_length_keys, size_eq_length_keys, AList.keys_insert, List.length_cons,
    List.erase_of_not_mem fun hmem => h (AList.mem_keys.mpr hmem)]

theorem size_insert_le (t : Table K V) (k : K) (v : V) : size (t.insert k v) ≤ size t + 1 := by
  by_cases h : k ∈ t
  · rw [size_insert_of_mem h]
    exact Nat.le_succ _
  · rw [size_insert_of_not_mem h]

/-- A table all of whose entries are in another is not larger. -/
theorem size_le_of_lookup {t t' : Table K V} (h : ∀ k v, t'.lookup k = some v → t.lookup k = some v) :
    size t' ≤ size t := by
  rw [size_eq_length_keys, size_eq_length_keys]
  apply t'.keys_nodup.length_le_of_subset
  intro k hk
  obtain ⟨v, hv⟩ := Option.isSome_iff_exists.mp (AList.lookup_isSome.mpr (AList.mem_keys.mpr hk))
  exact AList.mem_keys.mp (mem_of_lookup (h k v hv))

theorem count_erase_le (p : V → Bool) (t : Table K V) (k : K) : count p (t.erase k) ≤ count p t :=
  (List.kerase_sublist k t.entries).countP_le

/-- An entry that is put in adds at most itself. -/
theorem count_emplace_le (p : V → Bool) (t : Table K V) (k : K) (v : V) :
    count p (emplace t k v) ≤ count p t + if p v then 1 else 0 := by
  by_cases hmem : k ∈ t
  · rw [emplace, if_pos hmem]
    exact Nat.le_add_right _ _
  · have hentries : (t.insert k v).entries = ⟨k, v⟩ :: (t.erase k).entries := rfl
    have herase : (t.erase k).entries.countP (fun entry => p entry.2) ≤ count p t := count_erase_le p t k
    rw [emplace, if_neg hmem, count, hentries, List.countP_cons]
    exact Nat.add_le_add_right herase _

theorem not_mem_of_size_eq_zero {t : Table K V} (h : size t = 0) (k : K) : k ∉ t := by
  intro hk
  have := size_erase hk
  omega

theorem lookup_emplace {t : Table K V} {k : K} (h : k ∉ t) (k' : K) (v : V) :
    (emplace t k v).lookup k' = if k' = k then some v else t.lookup k' := by
  rw [emplace, if_neg h, lookup_insert_ite]

theorem lookup_emplace_eq_some {t : Table K V} {k k' : K} {v v' : V} (h : (emplace t k v).lookup k' = some v') :
    k' = k ∧ v' = v ∨ t.lookup k' = some v' := by
  unfold emplace at h
  split_ifs at h with hmem
  · exact .inr h
  · rw [lookup_insert_ite] at h
    split_ifs at h with hk
    · exact .inl ⟨hk, (Option.some.inj h).symm⟩
    · exact .inr h

theorem mem_emplace {t : Table K V} {k k' : K} {v : V} : k' ∈ emplace t k v ↔ k' = k ∨ k' ∈ t := by
  unfold emplace
  split_ifs with h
  · exact ⟨.inr, fun hk => hk.elim (fun heq => heq ▸ h) id⟩
  · exact AList.mem_insert t

end Table

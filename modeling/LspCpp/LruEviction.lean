import LspCpp.LruScores

/-! Which entry an insertion evicts. In every run in which no entry is inserted with the last score before the counter
overflows it is the one whose last use is the oldest; an entry with that score looks like the newest one for good. -/

namespace LspCpp.LruCache

variable {κ ν : Type*}

/-- An entry among the sorted ones, which are the same entries. -/
theorem exists_split_of_perm {sorted before after : List (LruEntry κ ν)} {e : LruEntry κ ν}
    (h : sorted.Perm (before ++ e :: after)) :
    ∃ left right, sorted = left ++ e :: right ∧ (left ++ right).Perm (before ++ after) := by
  obtain ⟨left, right, hsplit⟩ := List.append_of_mem (h.mem_iff.mpr (by simp : e ∈ before ++ e :: after))
  refine ⟨left, right, hsplit, ?_⟩
  rw [hsplit] at h
  have hperm : (e :: (left ++ right)).Perm (e :: (before ++ after)) :=
    calc (e :: (left ++ right)).Perm (left ++ e :: right) := List.perm_middle.symm
      List.Perm _ (before ++ e :: after) := h
      List.Perm _ (e :: (before ++ after)) := List.perm_middle
  exact hperm.cons_inv

theorem sublist_middle (left right : List (LruEntry κ ν)) (e : LruEntry κ ν) :
    (left ++ right).Sublist (left ++ e :: right) := (List.sublist_cons_self e right).append_left left

theorem modify_middle (f : LruEntry κ ν → LruEntry κ ν) (before after : List (LruEntry κ ν)) (e : LruEntry κ ν) :
    (before ++ e :: after).modify before.length f = before ++ f e :: after := by
  induction before with
  | nil => rfl
  | cons x before ih => exact congrArg (x :: ·) ih

theorem eraseIdx_middle (before after : List (LruEntry κ ν)) (e : LruEntry κ ν) :
    (before ++ e :: after).eraseIdx before.length = before ++ after := by
  rw [List.eraseIdx_append_of_length_le (Nat.le_refl _), Nat.sub_self]
  rfl

section Keys

variable [DecidableEq κ]

/-- Without the entry of a key its key is missing. -/
theorem erase_key {left right : List (LruEntry κ ν)} {e : LruEntry κ ν}
    (hnodup : ((left ++ e :: right).map LruEntry.key).Nodup) :
    ((left ++ e :: right).map LruEntry.key).erase e.key = (left ++ right).map LruEntry.key := by
  rw [List.map_append, List.map_cons] at hnodup ⊢
  have hnot : e.key ∉ left.map LruEntry.key := fun hmem =>
    (List.nodup_append.mp hnodup).2.2 e.key hmem e.key (List.mem_cons_self ..) rfl
  rw [List.erase_append_right _ hnot, List.erase_cons_head, List.map_append]

/-- The slot of a key: no entry before it has the key. -/
theorem slot_eq_some {cache : LruCache κ ν} {key : κ} {i : Nat} (h : cache.slot key = some i) :
    ∃ before e after, cache.entries = before ++ e :: after ∧ i = before.length ∧ e.key = key ∧
      ∀ x ∈ before, x.key ≠ key := by
  obtain ⟨hi, hkey, hbefore⟩ := List.findIdx?_eq_some_iff_getElem.mp h
  refine ⟨cache.entries.take i, cache.entries[i], cache.entries.drop (i + 1), ?_, ?_, by simpa using hkey, ?_⟩
  · rw [← List.drop_eq_getElem_cons hi, List.take_append_drop]
  · rw [List.length_take]
    omega
  · intro x hx
    obtain ⟨j, hj, rfl⟩ := List.mem_iff_getElem.mp hx
    rw [List.length_take] at hj
    rw [List.getElem_take]
    simpa using hbefore j (by omega)

theorem slot_of_split {cache : LruCache κ ν} {before after : List (LruEntry κ ν)} {e : LruEntry κ ν}
    (hsplit : cache.entries = before ++ e :: after) (hbefore : ∀ x ∈ before, x.key ≠ e.key) :
    cache.slot e.key = some before.length := by
  rw [slot, hsplit, List.findIdx?_append, List.findIdx?_eq_none_iff.mpr fun x hx => by simpa using hbefore x hx]
  simp [List.findIdx?_cons]

/-- A lookup that finds its entry. -/
theorem tryGet_of_slot (S : StdSort (LruEntry κ ν) LruEntry.rank) {cache : LruCache κ ν}
    {before after : List (LruEntry κ ν)} {e : LruEntry κ ν} (hsplit : cache.entries = before ++ e :: after)
    (hslot : cache.slot e.key = some before.length) :
    tryGet S e.key cache =
      let cache' := incrementScore S
        { cache with entries := before ++ { e with score := cache.nextScore } :: after }
      (cache'.entries[before.length]?.map (·.value), cache') := by
  rw [tryGet, hslot, hsplit]
  dsimp only
  rw [modify_middle]

theorem tryTake_of_slot {cache : LruCache κ ν} {before after : List (LruEntry κ ν)} {e : LruEntry κ ν}
    (hsplit : cache.entries = before ++ e :: after) (hslot : cache.slot e.key = some before.length) :
    tryTake e.key cache = (some e.value, { cache with entries := before ++ after }) := by
  rw [tryTake, hslot, hsplit]
  dsimp only
  rw [eraseIdx_middle]
  simp

theorem slot_eq_none_iff (cache : LruCache κ ν) (key : κ) : cache.slot key = none ↔ cache.has key = false := by
  rw [slot, List.findIdx?_eq_none_iff, has, List.any_eq_false]
  simp

theorem has_iff (cache : LruCache κ ν) (key : κ) :
    cache.has key = true ↔ key ∈ cache.entries.map LruEntry.key := by
  simp [has]

end Keys

section Steps

variable (S : StdSort (LruEntry κ ν) LruEntry.rank) {cache : LruCache κ ν} {order : List κ}

theorem Ranked.perm (h : Ranked cache order) : order.Perm (cache.entries.map LruEntry.key) := by
  obtain ⟨sorted, hperm, -, -, rfl⟩ := h
  exact hperm.map _

/-- A new entry goes behind those that are kept. -/
theorem ranked_append {maxEntries : Nat} {kept sorted : List (LruEntry κ ν)} {nextScore : UInt32}
    (hperm : sorted.Perm kept) (hsorted : sorted.Pairwise fun a b => a.rank < b.rank)
    (hlt : ∀ e ∈ sorted, e.rank < nextScore.toNat) (hnext : nextScore + 1 ≠ 0) (key : κ) (value : ν) :
    Ranked ⟨maxEntries, kept ++ [⟨nextScore, key, value⟩], nextScore + 1⟩
      (sorted.map LruEntry.key ++ [key]) := by
  have hrank : (LruEntry.mk nextScore key value).rank = nextScore.toNat := rfl
  refine ⟨sorted ++ [⟨nextScore, key, value⟩], hperm.append_right _, ?_, fun e he => ?_, by simp⟩
  · refine List.pairwise_append.mpr ⟨hsorted, List.pairwise_singleton _ _, fun a ha b hb => ?_⟩
    rw [List.mem_singleton.mp hb, hrank]
    exact hlt a ha
  · rw [toNat_add_one hnext]
    rcases List.mem_append.mp he with he | he
    · exact Nat.lt_succ_of_lt (hlt e he)
    · rw [List.mem_singleton.mp he, hrank]
      exact Nat.lt_succ_self _

/-- An insertion where there is room. -/
theorem Ranked.insert_of_lt (h : Ranked cache order) (hnext : cache.nextScore + 1 ≠ 0)
    (hroom : cache.entries.length < cache.maxEntries) (key : κ) (value : ν) :
    Ranked (insert S key value cache) (order ++ [key]) ∧
      (insert S key value cache).entries = cache.entries ++ [⟨cache.nextScore, key, value⟩] := by
  obtain ⟨sorted, hperm, hsorted, hlt, rfl⟩ := h
  have heq : insert S key value cache =
      ⟨cache.maxEntries, cache.entries ++ [⟨cache.nextScore, key, value⟩], cache.nextScore + 1⟩ := by
    rw [insert, if_neg (Nat.not_le_of_lt hroom)]
    rw [incrementScore_of_ne S hnext]
  rw [heq]
  exact ⟨ranked_append hperm hsorted hlt hnext key value, rfl⟩

/-- An insertion into a full cache takes the first one of the order away. -/
theorem Ranked.insert_of_le (h : Ranked cache order) (hnext : cache.nextScore + 1 ≠ 0) (hne : cache.entries ≠ [])
    (hfull : cache.maxEntries ≤ cache.entries.length) (key : κ) (value : ν) :
    ∃ before e after order', cache.entries = before ++ e :: after ∧ order = e.key :: order' ∧
      order'.Perm ((before ++ after).map LruEntry.key) ∧ Ranked (insert S key value cache) (order' ++ [key]) ∧
      (insert S key value cache).entries = before ++ after ++ [⟨cache.nextScore, key, value⟩] := by
  obtain ⟨sorted, hperm, hsorted, hlt, rfl⟩ := h
  obtain ⟨before, e, after, hsplit, hkept, hmin⟩ := minElement_spec hne
  obtain ⟨left, right, rfl, hrest⟩ := exists_split_of_perm (hsplit ▸ hperm)
  have hleft : left = [] := by
    by_contra hleft
    obtain ⟨x, left, rfl⟩ := List.exists_cons_of_ne_nil hleft
    have hle := hmin x (hperm.mem_iff.mp (by simp))
    have hlt' := (List.pairwise_append.mp hsorted).2.2 x (List.mem_cons_self ..) e (List.mem_cons_self ..)
    omega
  subst hleft
  rw [List.nil_append] at hsorted hlt hperm hrest
  have heq : insert S key value cache =
      ⟨cache.maxEntries, before ++ after ++ [⟨cache.nextScore, key, value⟩], cache.nextScore + 1⟩ := by
    rw [insert, if_pos hfull, hkept]
    rw [incrementScore_of_ne S hnext]
  refine ⟨before, e, after, right.map LruEntry.key, hsplit, rfl, hrest.map _, ?_, by rw [heq]⟩
  rw [heq]
  exact ranked_append hrest (List.pairwise_cons.mp hsorted).2
    (fun x hx => hlt x (List.mem_cons_of_mem _ hx)) hnext key value

variable [DecidableEq κ]

/-- A successful lookup makes the key the newest one, also where the counter overflows. -/
theorem Ranked.tryGet (h : Ranked cache order) (hnodup : order.Nodup) (hlength : cache.entries.length < 4294967296)
    {key : κ} {i : Nat} (hslot : cache.slot key = some i) :
    Ranked (tryGet S key cache).2 (Recency.use key order) := by
  obtain ⟨sorted, hperm, hsorted, hlt, rfl⟩ := h
  obtain ⟨before, e, after, hsplit, rfl, rfl, -⟩ := slot_eq_some hslot
  obtain ⟨left, right, rfl, hrest⟩ := exists_split_of_perm (hsplit ▸ hperm)
  rw [tryGet_of_slot S hsplit hslot, Recency.use, erase_key hnodup]
  have hlast : (left ++ right).map LruEntry.key ++ [e.key] =
      (left ++ right ++ [LruEntry.mk cache.nextScore e.key e.value]).map LruEntry.key := by simp
  rw [hlast]
  have hsub := sublist_middle left right e
  refine ranked_incrementScore S ?_ ?_ ?_ ?_
  · exact (hrest.append_right _).trans (List.perm_append_singleton _ _ |>.trans List.perm_middle.symm)
  · refine List.pairwise_append.mpr ⟨hsorted.sublist hsub, List.pairwise_singleton _ _, fun a ha b hb => ?_⟩
    rw [List.mem_singleton.mp hb]
    exact hlt a (hsub.subset ha)
  · intro x hx
    rcases List.mem_append.mp hx with hx | hx
    · exact Nat.le_of_lt (hlt x (hsub.subset hx))
    · rw [List.mem_singleton.mp hx]
      exact Nat.le_refl _
  · rw [hsplit] at hlength
    simpa using hlength

theorem Ranked.tryTake (h : Ranked cache order) (hnodup : order.Nodup) {key : κ} {i : Nat}
    (hslot : cache.slot key = some i) : Ranked (tryTake key cache).2 (order.erase key) := by
  obtain ⟨sorted, hperm, hsorted, hlt, rfl⟩ := h
  obtain ⟨before, e, after, hsplit, rfl, rfl, -⟩ := slot_eq_some hslot
  obtain ⟨left, right, rfl, hrest⟩ := exists_split_of_perm (hsplit ▸ hperm)
  have hsub := sublist_middle left right e
  rw [tryTake_of_slot hsplit hslot, erase_key hnodup]
  exact ⟨left ++ right, hrest, hsorted.sublist hsub, fun x hx => hlt x (hsub.subset hx), rfl⟩

end Steps

section Lookups

variable [DecidableEq κ] (S : StdSort (LruEntry κ ν) LruEntry.rank) (cache : LruCache κ ν) (key : κ)

theorem slot_cases : cache.slot key = none ∧ cache.has key = false ∨
    ∃ before e after, cache.entries = before ++ e :: after ∧ e.key = key ∧ cache.slot key = some before.length ∧
      cache.has key = true ∧ ∀ x ∈ before, x.key ≠ key := by
  cases hslot : cache.slot key with
  | none => exact .inl ⟨rfl, (slot_eq_none_iff _ _).mp hslot⟩
  | some i =>
      obtain ⟨before, e, after, hsplit, rfl, rfl, hbefore⟩ := slot_eq_some hslot
      exact .inr ⟨before, e, after, hsplit, rfl, rfl, by simp [has, hsplit], hbefore⟩

theorem tryGet_maxEntries : (tryGet S key cache).2.maxEntries = cache.maxEntries := by
  rw [tryGet]
  split
  · rfl
  · exact incrementScore_maxEntries S _

/-- A lookup leaves the keys and values together. -/
theorem perm_pair_tryGet :
    ((tryGet S key cache).2.entries.map LruEntry.pair).Perm (cache.entries.map LruEntry.pair) := by
  rcases slot_cases cache key with ⟨hslot, -⟩ | ⟨before, e, after, hsplit, rfl, hslot, -⟩
  · rw [tryGet, hslot]
  · rw [tryGet_of_slot S hsplit hslot, hsplit]
    exact (perm_pair_incrementScore S _).trans (.of_eq (by simp [LruEntry.pair]))

theorem length_tryGet : (tryGet S key cache).2.entries.length = cache.entries.length := by
  have := (perm_pair_tryGet S cache key).length_eq
  rwa [List.length_map, List.length_map] at this

theorem tryTake_sublist : (tryTake key cache).2.entries.Sublist cache.entries := by
  rcases slot_cases cache key with ⟨hslot, -⟩ | ⟨before, e, after, hsplit, rfl, hslot, -⟩
  · rw [tryTake, hslot]
  · rw [tryTake_of_slot hsplit hslot, hsplit]
    exact sublist_middle before after e

end Lookups

/-! ### Runs -/

section Runs

variable [DecidableEq κ] (S : StdSort (LruEntry κ ν) LruEntry.rank)

/-- A key that is inserted is not present. -/
def InsertsFresh (op : Op κ ν) (s : Logged κ ν) : Prop :=
  match op with
  | .insert key _ => s.cache.has key = false
  | _ => True

/-- No entry is inserted with the last score before the counter overflows. -/
def InsertsBelowLast (op : Op κ ν) (s : Logged κ ν) : Prop :=
  match op with
  | .insert _ _ => s.cache.nextScore ≠ 4294967295
  | .get key _ => s.cache.has key = false → s.cache.nextScore ≠ 4294967295
  | _ => True

instance (op : Op κ ν) (s : Logged κ ν) : Decidable (InsertsFresh op s) :=
  match op with
  | .insert _ _ => inferInstanceAs (Decidable (_ = false))
  | .get _ _ | .tryGet _ | .tryTake _ | .has _ | .clear => inferInstanceAs (Decidable True)

instance (op : Op κ ν) (s : Logged κ ν) : Decidable (InsertsBelowLast op s) :=
  match op with
  | .insert _ _ => inferInstanceAs (Decidable (_ ≠ _))
  | .get _ _ => inferInstanceAs (Decidable (_ = false → _ ≠ _))
  | .tryGet _ | .tryTake _ | .has _ | .clear => inferInstanceAs (Decidable True)

/-- What holds along such runs: the entries, in the order of their scores, are in the order of their last uses. -/
structure InOrder (maxEntries : Nat) (s : Logged κ ν) : Prop where
  capacity : s.cache.maxEntries = maxEntries
  bounded : s.cache.entries.length ≤ maxEntries
  ordered : ∃ order, Ranked s.cache order ∧ Recency.Agrees s.uses order

/-- The entry that an insertion into a full cache removes, with those that it keeps. -/
def EvictsOldest (s : Logged κ ν) (key : κ) (value : ν) : Prop :=
  ∃ before e after, s.cache.entries = before ++ e :: after ∧
    (insert S key value s.cache).entries.map LruEntry.pair = (before ++ after).map LruEntry.pair ++ [(key, value)] ∧
    ∀ e' ∈ before ++ after, s.uses.idxOf e'.key < s.uses.idxOf e.key

variable {S} {maxEntries : Nat} {s : Logged κ ν}

/-- An insertion, which `get` makes as well. -/
theorem InOrder.insert (hpos : 0 < maxEntries) (h : InOrder maxEntries s) {key : κ} (hfresh : s.cache.has key = false)
    (hnext : s.cache.nextScore ≠ 4294967295) (value : ν) :
    InOrder maxEntries ⟨insert S key value s.cache, key :: s.uses⟩ ∧
      (maxEntries ≤ s.cache.entries.length → EvictsOldest S s key value) := by
  obtain ⟨order, hranked, hagrees⟩ := h.ordered
  have hnext' : s.cache.nextScore + 1 ≠ 0 := fun heq => hnext ((add_one_eq_zero_iff _).mp heq)
  have hcapacity : (LruCache.insert S key value s.cache).maxEntries = maxEntries := by
    rw [LruCache.insert]
    exact (incrementScore_maxEntries S _).trans h.capacity
  have hkey : key ∉ order := fun hmem => by
    rw [hranked.perm.mem_iff, ← has_iff, hfresh] at hmem
    cases hmem
  have hused : ∀ order', order'.Sublist order → Recency.Agrees (key :: s.uses) (order' ++ [key]) :=
    fun order' hsub => by
    have huse := (hagrees.sublist hsub).use key
    rwa [Recency.use, List.erase_of_not_mem fun hmem => hkey (hsub.subset hmem)] at huse
  by_cases hfull : s.cache.maxEntries ≤ s.cache.entries.length
  · have hne : s.cache.entries ≠ [] := by
      rintro heq
      rw [heq, h.capacity, List.length_nil] at hfull
      omega
    obtain ⟨before, e, after, order', hsplit, rfl, hrest, hranked', hentries⟩ :=
      hranked.insert_of_le S hnext' hne hfull key value
    refine ⟨⟨hcapacity, ?_, order' ++ [key], hranked', hused order' (List.sublist_cons_self ..)⟩, fun _ => ?_⟩
    · have hlength := h.bounded
      rw [hsplit] at hlength
      dsimp only
      rw [hentries]
      simp only [List.length_append, List.length_cons, List.length_nil] at hlength ⊢
      omega
    · refine ⟨before, e, after, hsplit, by rw [hentries, List.map_append]; rfl, fun e' he' => ?_⟩
      exact hagrees.head_oldest (hrest.mem_iff.mpr (List.mem_map_of_mem he'))
  · obtain ⟨hranked', hentries⟩ := hranked.insert_of_lt S hnext' (Nat.lt_of_not_le hfull) key value
    refine ⟨⟨hcapacity, ?_, order ++ [key], hranked', hused order (.refl _)⟩, fun hle => ?_⟩
    · have := h.capacity
      dsimp only
      rw [hentries, List.length_append, List.length_singleton]
      omega
    · exact absurd (h.capacity ▸ hle) hfull

theorem InOrder.tryGet (hint : maxEntries < 2147483648) (h : InOrder maxEntries s) (key : κ) :
    InOrder maxEntries ⟨(tryGet S key s.cache).2, if s.cache.has key then key :: s.uses else s.uses⟩ := by
  obtain ⟨order, hranked, hagrees⟩ := h.ordered
  have hbounded := h.bounded
  refine ⟨(tryGet_maxEntries S _ _).trans h.capacity, (length_tryGet S _ _).trans_le hbounded, ?_⟩
  rcases slot_cases s.cache key with ⟨hslot, hhas⟩ | ⟨before, e, after, -, -, hslot, hhas, -⟩
  · rw [LruCache.tryGet, hslot, hhas]
    exact ⟨order, hranked, hagrees⟩
  · rw [hhas, if_pos rfl]
    exact ⟨_, hranked.tryGet S hagrees.nodup (by omega) hslot, hagrees.use key⟩

theorem InOrder.tryTake (h : InOrder maxEntries s) (key : κ) :
    InOrder maxEntries ⟨(tryTake key s.cache).2, s.uses⟩ := by
  obtain ⟨order, hranked, hagrees⟩ := h.ordered
  have hcapacity : (LruCache.tryTake key s.cache).2.maxEntries = s.cache.maxEntries := by
    rw [LruCache.tryTake]
    split <;> rfl
  refine ⟨hcapacity.trans h.capacity, (tryTake_sublist _ _).length_le.trans h.bounded, ?_⟩
  rcases slot_cases s.cache key with ⟨hslot, -⟩ | ⟨before, e, after, -, -, hslot, -, -⟩
  · rw [LruCache.tryTake, hslot]
    exact ⟨order, hranked, hagrees⟩
  · exact ⟨_, hranked.tryTake hagrees.nodup hslot, hagrees.sublist List.erase_sublist⟩

/-- **One operation keeps the order** where no entry is inserted with the last score. -/
theorem InOrder.step (hpos : 0 < maxEntries) (hint : maxEntries < 2147483648) (op : Op κ ν) (h : InOrder maxEntries s)
    (hfresh : InsertsFresh op s) (hlast : InsertsBelowLast op s) :
    InOrder maxEntries ⟨apply S s.cache op, log s op⟩ := by
  cases op with
  | insert key value => exact (h.insert hpos hfresh hlast value).1
  | get key value =>
      have hfind : s.cache.entries.find? (·.key = key) = none ↔ s.cache.has key = false := by
        rw [List.find?_eq_none, has, List.any_eq_false]
      rw [apply, get, log]
      split <;> rename_i hget
      · have hhas : s.cache.has key = true := by
          cases hhas : s.cache.has key with
          | true => rfl
          | false =>
              rw [hfind.mpr hhas] at hget
              cases hget
        rw [hhas]
        exact h
      · have hhas := hfind.mp hget
        rw [hhas]
        exact (h.insert hpos hhas (hlast hhas) value).1
  | tryGet key => exact h.tryGet hint key
  | tryTake key => exact h.tryTake key
  | has key => exact h
  | clear => exact ⟨h.capacity, Nat.zero_le _, [], Ranked.empty _ _, .nil _⟩

/-- **Eviction is exact** in every run in which no entry is inserted with the last score before the counter overflows:
the cache never holds more than its capacity, and an insertion into a full cache removes exactly the entry whose last
insertion or successful lookup is the oldest. -/
theorem insert_evictsOldest (S : StdSort (LruEntry κ ν) LruEntry.rank) (maxEntries : Nat) (hpos : 0 < maxEntries)
    (hint : maxEntries < 2147483648) (s : Logged κ ν)
    (hs : (system S ⟨maxEntries, [], 0⟩).ReachableIf (fun op s => InsertsFresh op s ∧ InsertsBelowLast op s) s) :
    s.cache.entries.length ≤ maxEntries ∧
      ∀ key value, InsertsFresh (.insert key value) s → InsertsBelowLast (.insert key value) s →
        maxEntries ≤ s.cache.entries.length → EvictsOldest S s key value := by
  have horder : InOrder maxEntries s := by
    refine hs.invariant (InOrder maxEntries) ?_ ?_
    · rintro s rfl
      exact ⟨rfl, Nat.zero_le _, [], Ranked.empty _ _, .nil _⟩
    · intro op s s' h hok hstep
      obtain rfl := Option.some.inj hstep
      exact h.step hpos hint op hok.1 hok.2
  exact ⟨horder.bounded, fun key value hfresh hlast => (horder.insert hpos hfresh hlast value).2⟩

end Runs

/-- In a cache of two entries the older one was used last, and the newer one is evicted. -/
theorem insert_evictsOldest_used :
    EvictsOldest (.insertion LruEntry.rank) ⟨⟨2, [⟨2, 0, 10⟩, ⟨1, 1, 11⟩], 3⟩, [0, 1, 0]⟩ 2 12 :=
  (insert_evictsOldest (.insertion LruEntry.rank) 2 (by decide) (by decide) _
    (Transition.System.reachableIf_of_runIf [.insert 0 10, .insert 1 11, .tryGet 0] (.init rfl) rfl)).2 2 12
    (by decide) (by decide) (by decide)

theorem ofNat_add_one_ne_zero {n : Nat} (h : n + 1 < 4294967296) : UInt32.ofNat n + 1 ≠ 0 := by
  intro heq
  have hnat := congrArg UInt32.toNat heq
  rw [UInt32.toNat_add, UInt32.toNat_ofNat_of_lt' (by omega : n < 2 ^ 32)] at hnat
  change (n + 1) % 4294967296 = 0 at hnat
  omega

section Lookups

variable {κ ν : Type*} [DecidableEq κ] (S : StdSort (LruEntry κ ν) LruEntry.rank)

/-- One entry is looked up again and again, until the counter has come to `n + m`. -/
theorem reachable_lookups {start : LruCache κ ν} {maxEntries n : Nat} {before : List (LruEntry κ ν)}
    {key : κ} (hbefore : ∀ x ∈ before, x.key ≠ key) (value : ν) {score : UInt32} {uses : List κ}
    (hreach : (system S start).ReachableIf InsertsFresh
      ⟨⟨maxEntries, before ++ [⟨score, key, value⟩], UInt32.ofNat n⟩, uses⟩)
    (m : Nat) (hm : n + m + 1 < 4294967296) :
    ∃ uses', (system S start).ReachableIf InsertsFresh
      ⟨⟨maxEntries, before ++ [⟨UInt32.ofNat (n + m), key, value⟩], UInt32.ofNat (n + m + 1)⟩, uses'⟩ := by
  have hstep : ∀ (score : UInt32) (uses : List κ) (k : Nat), k + 1 < 4294967296 →
      (system S start).ReachableIf InsertsFresh
        ⟨⟨maxEntries, before ++ [⟨score, key, value⟩], UInt32.ofNat k⟩, uses⟩ →
      ∃ uses', (system S start).ReachableIf InsertsFresh
        ⟨⟨maxEntries, before ++ [⟨UInt32.ofNat k, key, value⟩], UInt32.ofNat (k + 1)⟩, uses'⟩ := by
    intro score uses k hk hreach
    have hslot : slot key ⟨maxEntries, before ++ [⟨score, key, value⟩], UInt32.ofNat k⟩ = some before.length :=
      slot_of_split (e := ⟨score, key, value⟩) rfl hbefore
    have hget := tryGet_of_slot S (e := ⟨score, key, value⟩) rfl hslot
    refine ⟨_, .step (a := .tryGet key) hreach trivial (congrArg (fun cache => some (Logged.mk cache _)) ?_)⟩
    rw [apply, hget, UInt32.ofNat_add k 1]
    exact incrementScore_of_ne S (ofNat_add_one_ne_zero hk) _ _
  induction m with
  | zero => exact hstep score uses n hm hreach
  | succ m ih =>
      obtain ⟨uses', hprevious⟩ := ih (by omega)
      exact hstep _ uses' (n + m + 1) hm hprevious

end Lookups

/-- An entry that is inserted at the overflow stays, and the one that was used after it is evicted. -/
theorem overflow_evicts_newer :
    ∃ s : Logged Nat Nat, (system (.insertion LruEntry.rank) ⟨2, [], 0⟩).ReachableIf InsertsFresh s ∧
      InsertsFresh (.insert 2 12) s ∧ 2 ≤ s.cache.entries.length ∧
      ¬EvictsOldest (.insertion LruEntry.rank) s 2 12 := by
  have hfirst : (system (.insertion LruEntry.rank) ⟨2, [], 0⟩).ReachableIf InsertsFresh
      ⟨⟨2, [] ++ [⟨0, 0, 10⟩], UInt32.ofNat 1⟩, [0]⟩ := .step (a := .insert 0 10) (.init rfl) rfl rfl
  obtain ⟨uses, hreach⟩ := reachable_lookups _ (by simp) 10 hfirst 4294967293 (by decide)
  refine ⟨⟨⟨2, [⟨1, 0, 10⟩, ⟨4294967295, 1, 11⟩], 2⟩, 0 :: 1 :: uses⟩, ?_, rfl, Nat.le_refl 2, ?_⟩
  · have hinsert : insert (.insertion LruEntry.rank) 1 11 ⟨2, [⟨4294967294, 0, 10⟩], 4294967295⟩ =
        (⟨2, [⟨0, 0, 10⟩, ⟨4294967295, 1, 11⟩], 1⟩ : LruCache Nat Nat) := by decide
    refine .step (a := .tryGet 0) (s := ⟨⟨2, [⟨0, 0, 10⟩, ⟨4294967295, 1, 11⟩], 1⟩, 1 :: uses⟩) ?_ trivial rfl
    exact .step (a := .insert 1 11) hreach rfl (congrArg (fun cache => some (Logged.mk cache (1 :: uses))) hinsert)
  · rintro ⟨before, e, after, hsplit, hpairs, hold⟩
    have hkept : (before ++ after).map LruEntry.pair = [(1, 11)] := List.append_cancel_right hpairs.symm
    rcases before with _ | ⟨first, _ | ⟨second, before⟩⟩
    · obtain ⟨rfl, rfl⟩ := List.cons_eq_cons.mp hsplit
      exact absurd (hold ⟨4294967295, 1, 11⟩ (List.mem_singleton.mpr rfl)) (by simp)
    · obtain ⟨rfl, -⟩ := List.cons_eq_cons.mp hsplit
      exact absurd (List.head_eq_of_cons_eq hkept) (by decide)
    · have hlength := congrArg List.length hkept
      simp at hlength

end LspCpp.LruCache

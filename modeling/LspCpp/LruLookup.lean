import LspCpp.LruEviction

/-! What lookups return. `TryGet` reads the value from the slot in which it has found the entry, after the entries
may have been sorted; and an insertion appends an entry, whether the key is there already or not. -/

namespace LspCpp.LruCache

variable {κ ν : Type*}

/-- Sorting may bring `x` into the slot with `i` slots before it, where the entry of that slot goes to the end: at most
`i` of the others are below it, and more than `i` are not above it, or it has the highest score. -/
structure MayTakeSlot (others : List (LruEntry κ ν)) (i : Nat) (x : LruEntry κ ν) : Prop where
  mem : x ∈ others
  below : (others.countP fun y => y.rank < x.rank) ≤ i
  not_above : (i < others.countP fun y => y.rank ≤ x.rank) ∨ x.score = 4294967295

/-- The counter does not overflow, or the entry that comes into the slot of the key has the same value. -/
def KeepsSlot (cache : LruCache κ ν) (key : κ) : Prop :=
  cache.nextScore ≠ 4294967295 ∨ ∀ before e after x, cache.entries = before ++ e :: after → e.key = key →
    MayTakeSlot (before ++ after) before.length x → x.value = e.value

theorem rank_le (x : LruEntry κ ν) : x.rank ≤ 4294967295 := Nat.le_of_lt_succ x.score.toNat_lt

theorem rank_eq_iff (x : LruEntry κ ν) : x.rank = 4294967295 ↔ x.score = 4294967295 :=
  ⟨fun h => UInt32.toNat_inj.mp h, fun h => congrArg UInt32.toNat h⟩

section Slot

variable {before after : List (LruEntry κ ν)} {e x : LruEntry κ ν}

theorem countP_middle (p : LruEntry κ ν → Bool) : (before ++ e :: after).countP p =
    (before ++ after).countP p + if p e then 1 else 0 := by
  rw [List.countP_append, List.countP_cons, List.countP_append]
  omega

/-- The entry that is looked up has the highest score: it is not below another one. -/
theorem countP_lt_middle (he : e.rank = 4294967295) :
    ((before ++ e :: after).countP fun y => y.rank < x.rank) = (before ++ after).countP fun y => y.rank < x.rank := by
  have hle := rank_le x
  rw [countP_middle, if_neg (by simp; omega), Nat.add_zero]

theorem mayTakeSlot_of_mayStandAt (he : e.rank = 4294967295)
    (h : StdSort.MayStandAt LruEntry.rank (before ++ e :: after) before.length x) :
    x = e ∨ MayTakeSlot (before ++ after) before.length x := by
  have hmem := h.mem
  rw [List.mem_append, List.mem_cons] at hmem
  by_cases heq : x = e
  · exact .inl heq
  · refine .inr ⟨?_, countP_lt_middle he ▸ h.below, ?_⟩
    · rcases hmem with hmem | hmem | hmem
      · exact List.mem_append_left _ hmem
      · exact absurd hmem heq
      · exact List.mem_append_right _ hmem
    · have hnot := h.not_above
      rw [countP_middle] at hnot
      by_cases htop : x.score = 4294967295
      · exact .inr htop
      · have hlt : ¬e.rank ≤ x.rank := fun hle => htop ((rank_eq_iff x).mp (Nat.le_antisymm (rank_le x) (he ▸ hle)))
        rw [if_neg (by simpa using hlt), Nat.add_zero] at hnot
        exact .inl hnot

theorem mayStandAt_of_mayTakeSlot (he : e.rank = 4294967295) (h : MayTakeSlot (before ++ after) before.length x) :
    StdSort.MayStandAt LruEntry.rank (before ++ e :: after) before.length x := by
  refine ⟨(sublist_middle before after e).subset h.mem, (countP_lt_middle he).symm ▸ h.below, ?_⟩
  rw [countP_middle]
  rcases h.not_above with hlt | htop
  · exact Nat.lt_add_right _ hlt
  · have hrank := (rank_eq_iff x).mpr htop
    have hall : ((before ++ after).countP fun y => y.rank ≤ x.rank) = (before ++ after).length :=
      List.countP_eq_length.mpr fun y _ => by simpa [hrank] using rank_le y
    rw [hall, if_pos (by simp [he, hrank]), List.length_append]
    omega

end Slot

theorem getElem?_value_renumber (nextScore : UInt32) (entries : List (LruEntry κ ν)) (i : Nat) :
    (renumber nextScore entries).1[i]?.map LruEntry.value = entries[i]?.map LruEntry.value := by
  have hpairs := congrArg (fun pairs => pairs[i]?.map Prod.snd) (map_pair_renumber nextScore entries)
  simp only [List.getElem?_map, Option.map_map] at hpairs
  exact hpairs

section Lookup

variable [DecidableEq κ] {cache : LruCache κ ν} {before after : List (LruEntry κ ν)} {e : LruEntry κ ν}

/-- Where keys are distinct, every entry is the one that a lookup of its key finds. -/
theorem slot_of_nodup (hkeys : (cache.entries.map LruEntry.key).Nodup)
    (hsplit : cache.entries = before ++ e :: after) : cache.slot e.key = some before.length := by
  rw [hsplit, List.map_append, List.map_cons] at hkeys
  exact slot_of_split hsplit fun x hx =>
    (List.nodup_append.mp hkeys).2.2 x.key (List.mem_map_of_mem hx) e.key (List.mem_cons_self ..)

variable (S : StdSort (LruEntry κ ν) LruEntry.rank)

/-- Without an overflow the value is that of the entry. -/
theorem tryGet_of_ne (hsplit : cache.entries = before ++ e :: after)
    (hslot : cache.slot e.key = some before.length) (hnext : cache.nextScore ≠ 4294967295) :
    (tryGet S e.key cache).1 = some e.value := by
  have hnext' : cache.nextScore + 1 ≠ 0 := fun heq => hnext ((add_one_eq_zero_iff _).mp heq)
  rw [tryGet_of_slot S hsplit hslot]
  dsimp only
  rw [incrementScore_of_ne S hnext']
  simp

/-- With one it is that of the entry which comes into the slot. -/
theorem tryGet_of_eq (hsplit : cache.entries = before ++ e :: after)
    (hslot : cache.slot e.key = some before.length) (hnext : cache.nextScore = 4294967295) :
    (tryGet S e.key cache).1 =
      (S.sort (before ++ ⟨4294967295, e.key, e.value⟩ :: after))[before.length]?.map LruEntry.value := by
  have hzero : cache.nextScore + 1 = 0 := (add_one_eq_zero_iff _).mpr hnext
  rw [tryGet_of_slot S hsplit hslot, incrementScore, if_pos hzero, hnext]
  exact getElem?_value_renumber 0 _ _

/-- A slot that keeps the value has it also behind an overflow. -/
theorem tryGet_of_keepsSlot (hsplit : cache.entries = before ++ e :: after)
    (hslot : cache.slot e.key = some before.length) (hkeeps : KeepsSlot cache e.key) :
    (tryGet S e.key cache).1 = some e.value := by
  rcases hkeeps with hne | hkeeps
  · exact tryGet_of_ne S hsplit hslot hne
  by_cases hnext : cache.nextScore = 4294967295
  swap
  · exact tryGet_of_ne S hsplit hslot hnext
  have hmem : before.length < (S.sort (before ++ ⟨4294967295, e.key, e.value⟩ :: after)).length := by
    simp [S.length_sort]
  have hstands := S.mayStandAt_of_getElem? (List.getElem?_eq_getElem hmem)
  rw [tryGet_of_eq S hsplit hslot hnext, List.getElem?_eq_getElem hmem, Option.map_some]
  have htop : (LruEntry.mk 4294967295 e.key e.value).rank = 4294967295 := rfl
  exact congrArg some ((mayTakeSlot_of_mayStandAt htop hstands).elim (congrArg LruEntry.value)
    (hkeeps before e after _ hsplit rfl))

end Lookup

/-- **When a lookup returns the right value**: whatever sorting does with equal scores, the value of the entry is
stored exactly where the counter does not overflow or the slot keeps the value. -/
theorem tryGet_value_iff [DecidableEq κ] (cache : LruCache κ ν) (hkeys : (cache.entries.map LruEntry.key).Nodup)
    (e : LruEntry κ ν) (he : e ∈ cache.entries) :
    (∀ S : StdSort (LruEntry κ ν) LruEntry.rank, (tryGet S e.key cache).1 = some e.value) ↔
      KeepsSlot cache e.key := by
  obtain ⟨before, after, hsplit⟩ := List.append_of_mem he
  have hslot := slot_of_nodup hkeys hsplit
  by_cases hnext : cache.nextScore = 4294967295
  swap
  · exact iff_of_true (fun S => tryGet_of_ne S hsplit hslot hnext) (.inl hnext)
  have htop : (LruEntry.mk 4294967295 e.key e.value).rank = 4294967295 := rfl
  constructor
  · intro hvalue
    refine .inr fun before' e' after' x hsplit' hkey hx => ?_
    have hslot' := slot_of_nodup hkeys hsplit'
    rw [hkey, hslot] at hslot'
    obtain ⟨rfl, hrest⟩ := List.append_inj (hsplit.symm.trans hsplit') (Option.some.inj hslot')
    obtain ⟨rfl, rfl⟩ := List.cons_eq_cons.mp hrest
    obtain ⟨S, hS⟩ := StdSort.exists_sort_of_mayStandAt (mayStandAt_of_mayTakeSlot htop hx)
    have hstored := hvalue S
    rw [tryGet_of_eq S hsplit hslot hnext, hS] at hstored
    exact Option.some.inj hstored
  · rintro (hne | hkeeps) S
    · exact absurd hnext hne
    rw [tryGet_of_eq S hsplit hslot hnext]
    have hlength : before.length < (S.sort (before ++ ⟨4294967295, e.key, e.value⟩ :: after)).length := by
      rw [S.length_sort, List.length_append, List.length_cons]
      omega
    have hstands := S.mayStandAt_of_getElem? (List.getElem?_eq_getElem hlength)
    rw [List.getElem?_eq_getElem hlength, Option.map_some]
    rcases mayTakeSlot_of_mayStandAt htop hstands with heq | htakes
    · rw [heq]
    · rw [hkeeps before e after _ hsplit rfl htakes]

/-- An entry in the last slot, before the overflow. -/
theorem tryGet_value_iff_last :
    (tryGet (.insertion LruEntry.rank) 1 (⟨2, [⟨0, 0, 10⟩, ⟨7, 1, 11⟩], 8⟩ : LruCache Nat Nat)).1 = some 11 :=
  (tryGet_value_iff ⟨2, [⟨0, 0, 10⟩, ⟨7, 1, 11⟩], 8⟩ (by decide) ⟨7, 1, 11⟩ (by decide)).mpr
    (.inl (by decide)) (.insertion LruEntry.rank)

/-- At the overflow the first of two entries goes to the second slot, and the value of the other one is stored. -/
theorem overflow_stores_other_value :
    ∃ s : Logged Nat Nat, (system (.insertion LruEntry.rank) ⟨2, [], 0⟩).ReachableIf InsertsFresh s ∧
      (s.cache.entries.map LruEntry.key).Nodup ∧ ⟨0, 0, 10⟩ ∈ s.cache.entries ∧
      ∀ S : StdSort (LruEntry Nat Nat) LruEntry.rank, (tryGet S 0 s.cache).1 = some 11 := by
  have hfirst : (system (.insertion LruEntry.rank) ⟨2, [], 0⟩).ReachableIf InsertsFresh
      ⟨⟨2, [⟨0, 0, 10⟩] ++ [⟨1, 1, 11⟩], UInt32.ofNat 2⟩, [1, 0]⟩ :=
    Transition.System.reachableIf_of_runIf [.insert 0 10, .insert 1 11] (.init rfl) rfl
  obtain ⟨uses, hreach⟩ := reachable_lookups _ (by simp) 11 hfirst 4294967292 (by decide)
  refine ⟨_, hreach, by simp, List.mem_cons_self .., fun S => ?_⟩
  have hsorted : S.sort [⟨4294967295, 0, 10⟩, ⟨4294967294, 1, 11⟩] = [⟨4294967294, 1, 11⟩, ⟨4294967295, 0, 10⟩] :=
    S.sort_eq (.swap _ _ _) (by decide)
  refine (tryGet_of_eq S (e := ⟨0, 0, 10⟩) (rfl : _ = [] ++ _ :: _) rfl rfl).trans ?_
  exact congrArg (fun entries => entries[0]?.map LruEntry.value) hsorted

/-! ### Keys and values along runs -/

/-- The keys with their values. -/
def pairs (cache : LruCache κ ν) : List (κ × ν) := cache.entries.map LruEntry.pair

theorem map_key_eq (cache : LruCache κ ν) : cache.entries.map LruEntry.key = cache.pairs.map Prod.fst := by
  rw [pairs, List.map_map]
  rfl

/-- An insertion keeps some of the entries and adds one. -/
theorem perm_pair_insert (S : StdSort (LruEntry κ ν) LruEntry.rank) (cache : LruCache κ ν) (key : κ) (value : ν) :
    ∃ kept : List (LruEntry κ ν), kept.Sublist cache.entries ∧
      ((insert S key value cache).entries.map LruEntry.pair).Perm (kept.map LruEntry.pair ++ [(key, value)]) := by
  refine ⟨if cache.maxEntries ≤ cache.entries.length then cache.entries.eraseIdx (minElement cache.entries)
    else cache.entries, ?_, ?_⟩
  · split_ifs
    · exact List.eraseIdx_sublist ..
    · exact .refl _
  · rw [insert, List.map_append]
    exact (perm_pair_incrementScore S _).append_right _

section Runs

variable [DecidableEq κ] (S : StdSort (LruEntry κ ν) LruEntry.rank)

theorem get_cases (cache : LruCache κ ν) (key : κ) (value : ν) :
    cache.has key = true ∧ (get S key (fun _ => value) cache).2 = cache ∨
      cache.has key = false ∧ (get S key (fun _ => value) cache).2 = insert S key value cache := by
  rw [get]
  split <;> rename_i hfind
  · refine .inl ⟨?_, rfl⟩
    obtain ⟨hkey, -⟩ := List.find?_eq_some_iff_append.mp hfind
    rw [has, List.any_eq_true]
    exact ⟨_, List.mem_of_find?_eq_some hfind, hkey⟩
  · refine .inr ⟨?_, rfl⟩
    rw [has, List.any_eq_false]
    exact List.find?_eq_none.mp hfind

variable {S}

/-- What an operation makes of the keys and values: it keeps some of them, and may add a key that was not there. -/
theorem pairs_apply {s : Logged κ ν} (op : Op κ ν) (hfresh : InsertsFresh op s) :
    ∃ kept : List (κ × ν), kept.Sublist s.cache.pairs ∧ ((apply S s.cache op).pairs.Perm kept ∨
      ∃ key value, s.cache.has key = false ∧ (apply S s.cache op).pairs.Perm (kept ++ [(key, value)])) := by
  have hinsert : ∀ key value, s.cache.has key = false →
      ∃ kept : List (κ × ν), kept.Sublist s.cache.pairs ∧
        ∃ key' value', s.cache.has key' = false ∧ (insert S key value s.cache).pairs.Perm
          (kept ++ [(key', value')]) := by
    intro key value hkey
    obtain ⟨kept, hkept, hperm⟩ := perm_pair_insert S s.cache key value
    exact ⟨kept.map LruEntry.pair, hkept.map _, key, value, hkey, hperm⟩
  cases op with
  | insert key value =>
      obtain ⟨kept, hkept, hadded⟩ := hinsert key value hfresh
      exact ⟨kept, hkept, .inr hadded⟩
  | get key value =>
      rw [apply]
      rcases get_cases S s.cache key value with ⟨-, heq⟩ | ⟨hkey, heq⟩
      · rw [heq]
        exact ⟨_, .refl _, .inl (.refl _)⟩
      · rw [heq]
        obtain ⟨kept, hkept, hadded⟩ := hinsert key value hkey
        exact ⟨kept, hkept, .inr hadded⟩
  | tryGet key => exact ⟨_, .refl _, .inl (perm_pair_tryGet S s.cache key)⟩
  | tryTake key => exact ⟨_, (tryTake_sublist s.cache key).map _, .inl (.refl _)⟩
  | has key => exact ⟨_, .refl _, .inl (.refl _)⟩
  | clear => exact ⟨[], List.nil_sublist _, .inl (.refl _)⟩

/-- Keys stay distinct where no key is inserted that is present. -/
theorem nodup_apply {s : Logged κ ν} (op : Op κ ν) (hfresh : InsertsFresh op s)
    (h : (s.cache.pairs.map Prod.fst).Nodup) : ((apply S s.cache op).pairs.map Prod.fst).Nodup := by
  obtain ⟨kept, hkept, hperm | ⟨key, value, hkey, hperm⟩⟩ := pairs_apply (S := S) op hfresh
  · exact (hperm.map _).nodup_iff.mpr (h.sublist (hkept.map _))
  · refine (hperm.map _).nodup_iff.mpr ?_
    have hnot : key ∉ kept.map Prod.fst := fun hmem => by
      have hhas := (hkept.map Prod.fst).subset hmem
      rw [← map_key_eq, ← has_iff, hkey] at hhas
      cases hhas
    rw [List.map_append]
    exact List.nodup_append.mpr ⟨h.sublist (hkept.map _), List.nodup_singleton _, fun a ha b hb heq =>
      hnot (by rw [heq, List.mem_singleton.mp hb] at ha; exact ha)⟩

/-- A key that stays keeps its value. -/
theorem mem_pairs_apply {s : Logged κ ν} (op : Op κ ν) (hfresh : InsertsFresh op s)
    (h : (s.cache.pairs.map Prod.fst).Nodup) {key : κ} {value : ν} (hmem : (key, value) ∈ s.cache.pairs)
    (hstays : (apply S s.cache op).has key = true) : (key, value) ∈ (apply S s.cache op).pairs := by
  rw [has_iff, map_key_eq] at hstays
  obtain ⟨⟨key', value'⟩, hmem', rfl⟩ := List.mem_map.mp hstays
  have hold : ∀ kept : List (κ × ν), kept.Sublist s.cache.pairs → (key', value') ∈ kept → value' = value :=
    fun kept hkept hin => congrArg Prod.snd (List.inj_on_of_nodup_map h (hkept.subset hin) hmem rfl)
  obtain ⟨kept, hkept, hperm | ⟨key'', value'', hkey, hperm⟩⟩ := pairs_apply (S := S) op hfresh
  · rw [← hold kept hkept (hperm.mem_iff.mp hmem')]
    exact hmem'
  · rcases List.mem_append.mp (hperm.mem_iff.mp hmem') with hin | hin
    · rw [← hold kept hkept hin]
      exact hmem'
    · obtain ⟨rfl, -⟩ := Prod.mk.inj (List.mem_singleton.mp hin)
      have hhas : s.cache.has key' = true := by
        rw [has_iff, map_key_eq]
        exact List.mem_map_of_mem hmem
      rw [hkey] at hhas
      cases hhas

/-- What the lookups of a key return that is present once. -/
theorem lookups_of_mem {cache : LruCache κ ν} (hkeys : (cache.entries.map LruEntry.key).Nodup) {key : κ} {value : ν}
    (hmem : (key, value) ∈ cache.pairs) :
    (∀ allocator, (get S key allocator cache).1 = value) ∧ (tryTake key cache).1 = some value ∧
      (KeepsSlot cache key → (tryGet S key cache).1 = some value) := by
  obtain ⟨e, he, hpair⟩ := List.mem_map.mp hmem
  obtain ⟨rfl, rfl⟩ := Prod.mk.inj hpair
  obtain ⟨before, after, hsplit⟩ := List.append_of_mem he
  have hslot := slot_of_nodup hkeys hsplit
  refine ⟨fun allocator => ?_, ?_, tryGet_of_keepsSlot S hsplit hslot⟩
  · have hfind : cache.entries.find? (·.key = e.key) = some e := by
      refine List.find?_eq_some_iff_append.mpr ⟨by simp, before, after, hsplit, fun x hx => ?_⟩
      rw [hsplit, List.map_append, List.map_cons] at hkeys
      have hne := (List.nodup_append.mp hkeys).2.2 x.key (List.mem_map_of_mem hx) e.key (List.mem_cons_self ..)
      simpa using hne
    rw [get, hfind]
  · rw [tryTake_of_slot hsplit hslot]

/-- **Keys are unique and the last insertion wins** in every run that inserts no key which is present: after the
insertion of a key, while it stays in the cache, each lookup returns its value, one by `TryGet` where the slot of the
key keeps its value. -/
theorem lookup_returns_last_insert (S : StdSort (LruEntry κ ν) LruEntry.rank) (maxEntries : Nat) (s : Logged κ ν)
    (hs : (system S ⟨maxEntries, [], 0⟩).ReachableIf InsertsFresh s) :
    (s.cache.entries.map LruEntry.key).Nodup ∧
      ∀ key value, s.cache.has key = false → ∀ s',
        (system S (insert S key value s.cache)).ReachableIf
          (fun op t => InsertsFresh op t ∧ (apply S t.cache op).has key = true) s' →
        (∀ allocator, (get S key allocator s'.cache).1 = value) ∧ (tryTake key s'.cache).1 = some value ∧
          (KeepsSlot s'.cache key → (tryGet S key s'.cache).1 = some value) := by
  have hnodup : (s.cache.pairs.map Prod.fst).Nodup := by
    refine hs.invariant (fun s => (s.cache.pairs.map Prod.fst).Nodup) ?_ ?_
    · rintro s rfl
      exact .nil
    · intro op s s' h hok hstep
      obtain rfl := Option.some.inj hstep
      exact nodup_apply op hok h
  refine ⟨by rw [map_key_eq]; exact hnodup, fun key value hkey s' hs' => ?_⟩
  obtain ⟨hnodup', hmem⟩ :
      (s'.cache.pairs.map Prod.fst).Nodup ∧ (key, value) ∈ s'.cache.pairs := by
    refine hs'.invariant (fun s => (s.cache.pairs.map Prod.fst).Nodup ∧ (key, value) ∈ s.cache.pairs) ?_ ?_
    · rintro s' rfl
      obtain ⟨kept, -, hperm⟩ := perm_pair_insert S s.cache key value
      refine ⟨nodup_apply (S := S) (.insert key value) hkey hnodup, hperm.mem_iff.mpr (by simp)⟩
    · rintro op s s' ⟨hnodup, hmem⟩ ⟨hfresh, hstays⟩ hstep
      obtain rfl := Option.some.inj hstep
      exact ⟨nodup_apply op hfresh hnodup, mem_pairs_apply op hfresh hnodup hmem hstays⟩
  rw [← map_key_eq] at hnodup'
  exact lookups_of_mem hnodup' hmem

end Runs

/-- An insertion, a lookup of it and an insertion of another key, in a cache of two entries. -/
theorem lookup_returns_last_insert_used :
    (tryGet (.insertion LruEntry.rank) 0 (⟨2, [⟨1, 0, 10⟩, ⟨2, 1, 11⟩], 3⟩ : LruCache Nat Nat)).1 = some 10 :=
  ((lookup_returns_last_insert (.insertion LruEntry.rank) 2 ⟨⟨2, [], 0⟩, []⟩ (.init rfl)).2 0 10 rfl
    ⟨⟨2, [⟨1, 0, 10⟩, ⟨2, 1, 11⟩], 3⟩, [1, 0]⟩
    (.step (s := ⟨⟨2, [⟨1, 0, 10⟩], 2⟩, [0]⟩) (a := .insert 1 11)
      (.step (a := .tryGet 0) (.init rfl) ⟨trivial, rfl⟩ rfl) ⟨by decide, rfl⟩ rfl)).2.2
    (.inl (by decide))

/-- The second insertion of a key adds an entry, and lookups find the first one. -/
theorem second_insert_is_shadowed :
    ∃ s : Logged Nat Nat, (system (.insertion LruEntry.rank) ⟨2, [], 0⟩).Reachable s ∧
      s.cache = insert (.insertion LruEntry.rank) 0 11 ⟨2, [⟨0, 0, 10⟩], 1⟩ ∧
      ¬(s.cache.entries.map LruEntry.key).Nodup ∧
      (get (.insertion LruEntry.rank) 0 (fun _ => 12) s.cache).1 = 10 :=
  ⟨_, .step (a := .insert 0 11) (.step (a := .insert 0 10) (.init rfl) trivial rfl) trivial rfl, rfl, by decide, rfl⟩

end LspCpp.LruCache

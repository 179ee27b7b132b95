import LspCpp.LibRecency
import LspCpp.LruCache

/-! The order of the scores. While every new score is above those that are given, the entries in the order of their
scores are in the order of their last uses; numbering them anew keeps that order. -/

namespace LspCpp

/-- What an entry is about. -/
def LruEntry.pair {κ ν : Type*} (entry : LruEntry κ ν) : κ × ν := (entry.key, entry.value)

namespace LruCache

variable {κ ν : Type*}

theorem score_lt_iff (a b : LruEntry κ ν) : a.score < b.score ↔ a.rank < b.rank := UInt32.lt_iff_toNat_lt

theorem minElementFrom_spec (before after rest : List (LruEntry κ ν)) (smallest : LruEntry κ ν)
    (hmin : ∀ x ∈ before ++ smallest :: after, smallest.rank ≤ x.rank) :
    ∃ before' e after', before ++ smallest :: after ++ rest = before' ++ e :: after' ∧
      minElementFrom before.length smallest (before ++ smallest :: after).length rest = before'.length ∧
      ∀ x ∈ before ++ smallest :: after ++ rest, e.rank ≤ x.rank := by
  induction rest generalizing before after smallest with
  | nil =>
      rw [List.append_nil]
      exact ⟨before, smallest, after, rfl, rfl, hmin⟩
  | cons entry rest ih =>
      rw [minElementFrom]
      split_ifs with hlt
      · rw [score_lt_iff] at hlt
        have hnext := ih (before ++ smallest :: after) [] entry fun x hx => by
          rcases List.mem_append.mp hx with hx | hx
          · exact Nat.le_of_lt (hlt.trans_le (hmin x hx))
          · rw [List.mem_singleton.mp hx]
        have hlength : (before ++ smallest :: after ++ [entry]).length = (before ++ smallest :: after).length + 1 :=
          List.length_append
        rw [hlength] at hnext
        simpa only [List.append_assoc, List.singleton_append] using hnext
      · rw [score_lt_iff, Nat.not_lt] at hlt
        have hnext := ih before (after ++ [entry]) smallest fun x hx => by
          rw [← List.cons_append, ← List.append_assoc] at hx
          rcases List.mem_append.mp hx with hx | hx
          · exact hmin x hx
          · rw [List.mem_singleton.mp hx]
            exact hlt
        have hlength :
            (before ++ smallest :: (after ++ [entry])).length = (before ++ smallest :: after).length + 1 := by
          simp only [List.length_append, List.length_cons, List.length_nil]
          omega
        rw [hlength] at hnext
        simpa only [List.append_assoc, List.cons_append, List.singleton_append, List.nil_append] using hnext

/-- `min_element` finds an entry than which none is lower. -/
theorem minElement_spec {entries : List (LruEntry κ ν)} (hne : entries ≠ []) :
    ∃ before e after, entries = before ++ e :: after ∧ entries.eraseIdx (minElement entries) = before ++ after ∧
      ∀ x ∈ entries, e.rank ≤ x.rank := by
  obtain ⟨first, rest, rfl⟩ := List.exists_cons_of_ne_nil hne
  obtain ⟨before, e, after, hsplit, hposition, hmin⟩ := minElementFrom_spec [] [] rest first fun x hx => by
    rw [List.mem_singleton.mp hx]
  refine ⟨before, e, after, hsplit, ?_, hmin⟩
  have hfirst : minElement (first :: rest) = before.length := hposition
  have hcons : first :: rest = before ++ e :: after := hsplit
  rw [hfirst, hcons, List.eraseIdx_append_of_length_le (Nat.le_refl _), Nat.sub_self]
  rfl

theorem toNat_add_one {score : UInt32} (h : score + 1 ≠ 0) : (score + 1).toNat = score.toNat + 1 := by
  have hlt : score.toNat + 1 < 4294967296 := by
    by_contra hge
    have hsize := score.toNat_lt
    refine h (UInt32.toNat_inj.mp ?_)
    rw [UInt32.toNat_add]
    change (score.toNat + 1) % 4294967296 = 0
    omega
  rw [UInt32.toNat_add]
  exact Nat.mod_eq_of_lt hlt

theorem add_one_eq_zero_iff (score : UInt32) : score + 1 = 0 ↔ score = 4294967295 := by
  constructor
  · intro h
    have hsize := score.toNat_lt
    have hnat := congrArg UInt32.toNat h
    rw [UInt32.toNat_add] at hnat
    change (score.toNat + 1) % 4294967296 = 0 at hnat
    refine UInt32.toNat_inj.mp ?_
    change score.toNat = 4294967295
    omega
  · rintro rfl
    rfl

theorem map_pair_renumber (nextScore : UInt32) (entries : List (LruEntry κ ν)) :
    (renumber nextScore entries).1.map LruEntry.pair = entries.map LruEntry.pair := by
  induction entries generalizing nextScore with
  | nil => rfl
  | cons entry entries ih => exact congrArg (entry.pair :: ·) (ih (nextScore + 1))

theorem map_key_of_map_pair {entries entries' : List (LruEntry κ ν)}
    (h : entries.map LruEntry.pair = entries'.map LruEntry.pair) :
    entries.map LruEntry.key = entries'.map LruEntry.key := by
  have hkeys := congrArg (List.map Prod.fst) h
  rwa [List.map_map, List.map_map] at hkeys

/-- Entries that are numbered from `nextScore` on have ascending scores, and the counter goes on behind them. -/
theorem renumber_spec (nextScore : UInt32) (entries : List (LruEntry κ ν))
    (h : nextScore.toNat + entries.length < 4294967296) :
    (renumber nextScore entries).2.toNat = nextScore.toNat + entries.length ∧
      (∀ e ∈ (renumber nextScore entries).1,
        nextScore.toNat ≤ e.rank ∧ e.rank < nextScore.toNat + entries.length) ∧
      (renumber nextScore entries).1.Pairwise fun a b => a.rank < b.rank := by
  induction entries generalizing nextScore with
  | nil => exact ⟨rfl, by simp [renumber], .nil⟩
  | cons entry entries ih =>
      rw [List.length_cons] at h ⊢
      have hnext : (nextScore + 1).toNat = nextScore.toNat + 1 := by
        have hlt : nextScore.toNat + 1 < 4294967296 := by omega
        rw [UInt32.toNat_add]
        exact Nat.mod_eq_of_lt hlt
      obtain ⟨hcounter, hranks, hordered⟩ := ih (nextScore + 1) (by omega)
      rw [hnext] at hcounter hranks
      refine ⟨?_, fun e he => ?_, List.pairwise_cons.mpr ⟨fun e he => ?_, hordered⟩⟩
      · rw [renumber, hcounter]
        omega
      · rcases List.mem_cons.mp he with rfl | he
        · exact ⟨Nat.le_refl _, by change nextScore.toNat < _; omega⟩
        · have := hranks e he
          omega
      · have := hranks e he
        change nextScore.toNat < e.rank
        omega

variable (S : StdSort (LruEntry κ ν) LruEntry.rank)

theorem incrementScore_maxEntries (cache : LruCache κ ν) :
    (incrementScore S cache).maxEntries = cache.maxEntries := by
  rw [incrementScore]
  split_ifs <;> rfl

/-- New scores leave the keys and values together. -/
theorem perm_pair_incrementScore (cache : LruCache κ ν) :
    ((incrementScore S cache).entries.map LruEntry.pair).Perm (cache.entries.map LruEntry.pair) := by
  rw [incrementScore]
  split_ifs
  · dsimp only
    rw [map_pair_renumber]
    exact (S.perm _).map _
  · exact .refl _

/-- In the order of their scores, which are all below the counter, the entries have the keys `order`. -/
def Ranked (cache : LruCache κ ν) (order : List κ) : Prop :=
  ∃ sorted : List (LruEntry κ ν), sorted.Perm cache.entries ∧ (sorted.Pairwise fun a b => a.rank < b.rank) ∧
    (∀ e ∈ sorted, e.rank < cache.nextScore.toNat) ∧ sorted.map LruEntry.key = order

theorem Ranked.empty (maxEntries : Nat) (nextScore : UInt32) :
    Ranked (κ := κ) (ν := ν) ⟨maxEntries, [], nextScore⟩ [] :=
  ⟨[], .refl _, .nil, by simp, rfl⟩

theorem incrementScore_of_ne {nextScore : UInt32} (h : nextScore + 1 ≠ 0) (maxEntries : Nat)
    (entries : List (LruEntry κ ν)) :
    incrementScore S ⟨maxEntries, entries, nextScore⟩ = ⟨maxEntries, entries, nextScore + 1⟩ := if_neg h

/-- The counter goes on behind an entry that has just been given its value, also where it overflows. -/
theorem ranked_incrementScore {cache : LruCache κ ν} {sorted : List (LruEntry κ ν)} (hperm : sorted.Perm cache.entries)
    (hsorted : sorted.Pairwise fun a b => a.rank < b.rank) (hle : ∀ e ∈ sorted, e.rank ≤ cache.nextScore.toNat)
    (hlength : cache.entries.length < 4294967296) :
    Ranked (incrementScore S cache) (sorted.map LruEntry.key) := by
  by_cases hwrap : cache.nextScore + 1 = 0
  · rw [incrementScore, if_pos hwrap, S.sort_eq hperm.symm hsorted]
    have hzero : (0 : UInt32).toNat = 0 := rfl
    obtain ⟨hcounter, hranks, hordered⟩ := renumber_spec 0 sorted (by rw [hzero, hperm.length_eq]; omega)
    refine ⟨_, .refl _, hordered, fun e he => ?_, map_key_of_map_pair (map_pair_renumber 0 sorted)⟩
    rw [hcounter]
    exact (hranks e he).2
  · have heq : incrementScore S cache = ⟨cache.maxEntries, cache.entries, cache.nextScore + 1⟩ :=
      incrementScore_of_ne S hwrap _ _
    rw [heq]
    refine ⟨sorted, hperm, hsorted, fun e he => ?_, rfl⟩
    rw [toNat_add_one hwrap]
    exact Nat.lt_succ_of_le (hle e he)

end LruCache

end LspCpp

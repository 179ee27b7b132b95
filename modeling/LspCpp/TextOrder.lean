import LspCpp.WorkingLookup

/-! The order of two offsets against the order of their positions. The walk over the characters of a line does not
stop at the end of the line, so that a position can lie behind one of a later line. -/

namespace LspCpp

namespace LsPosition

/-- `lsPosition::operator<`. -/
def less (p q : LsPosition) : Bool := if p.line ≠ q.line then p.line < q.line else p.character < q.character

instance : LE LsPosition := ⟨fun p q => q.less p = false⟩

instance (p q : LsPosition) : Decidable (p ≤ q) := inferInstanceAs (Decidable (q.less p = false))

theorem le_iff (p q : LsPosition) :
    p ≤ q ↔ p.line.toNat < q.line.toNat ∨
      p.line.toNat = q.line.toNat ∧ p.character.toNat ≤ q.character.toNat := by
  change q.less p = false ↔ _
  rw [less, UInt32.toNat_inj]
  split_ifs with hline
  · rw [decide_eq_false_iff_not, UInt32.lt_iff_toNat_lt]
    have hne : q.line.toNat ≠ p.line.toNat := fun heq => hline (UInt32.toNat_inj.mp heq)
    rw [← UInt32.toNat_inj]
    omega
  · have heq : q.line = p.line := not_not.mp hline
    rw [decide_eq_false_iff_not, UInt32.lt_iff_toNat_lt, heq]
    simp

theorem less_iff (p q : LsPosition) :
    p.less q = true ↔ p.line.toNat < q.line.toNat ∨
      p.line.toNat = q.line.toNat ∧ p.character.toNat < q.character.toNat := by
  rw [← Bool.not_eq_false]
  change ¬q ≤ p ↔ _
  rw [le_iff]
  omega

end LsPosition

/-- The UTF-16 code units of a text, as the walk counts them. -/
def unitsOf : Bytes → Bool → Nat
  | [], _ => 0
  | c :: rest, inSequence =>
      if inSequence && isContinuation c then unitsOf rest true else units c + unitsOf rest (128 ≤ c)

/-- The units at which the characters of a text begin. -/
def unitStarts : Bytes → Bool → List Nat
  | [], _ => []
  | c :: rest, inSequence =>
      if inSequence && isContinuation c then unitStarts rest true
      else 0 :: (unitStarts rest (128 ≤ c)).map fun k => units c + k

theorem scanSubtract_eq (character units : Nat) : scanSubtract character units = character - units := by
  rw [scanSubtract]
  split_ifs <;> omega

theorem units_pos (c : UInt8) : 0 < units c := by
  rw [units]
  split_ifs <;> decide

/-- Two walks over one text are in order exactly when no character begins between their counts. -/
theorem walk_le_walk_iff (bytes : Bytes) (inSequence : Bool) (m n : Nat) :
    walk scanSubtract bytes inSequence m ≤ walk scanSubtract bytes inSequence n ↔
      ∀ k ∈ unitStarts bytes inSequence, ¬(n ≤ k ∧ k < m) := by
  induction bytes generalizing inSequence m n with
  | nil => simp [walk, unitStarts]
  | cons c rest ih =>
      simp only [walk, unitStarts]
      split_ifs with hin hm hn hn
      · rw [Nat.add_le_add_iff_right]
        exact ih true m n
      · exact iff_of_true (Nat.le_refl 0) fun k _ => by omega
      · exact iff_of_true (Nat.zero_le _) fun k _ => by omega
      · refine iff_of_false (by omega) fun h => ?_
        exact h 0 (List.mem_cons_self ..) ⟨by omega, by omega⟩
      · rw [Nat.add_le_add_iff_right, scanSubtract_eq, scanSubtract_eq, ih]
        simp only [List.mem_cons, List.mem_map, forall_eq_or_imp, forall_exists_index, and_imp,
          forall_apply_eq_imp_iff₂]
        refine ⟨fun h => ⟨by omega, fun k hk => ?_⟩, fun h k hk => ?_⟩
        · have := h k hk
          omega
        · have := h.2 k hk
          omega

/-- The lines that are skipped together are skipped one part after the other. -/
theorem skipLines_add (content : Bytes) (m n : Nat) :
    skipLines content (m + n) =
      skipLines content m + skipLines (content.drop (skipLines content m)) n := by
  induction content generalizing m with
  | nil => simp [skipLines]
  | cons c rest ih =>
      by_cases hm : m = 0
      · simp [hm, skipLines]
      · have hadd : (if c = 10 then m + n - 1 else m + n) = (if c = 10 then m - 1 else m) + n := by
          split_ifs <;> omega
        rw [skipLines, skipLines, if_neg hm, if_neg (by omega), hadd, ih, List.drop_succ_cons]
        omega

/-- Only an LF lowers the count of lines, and no sequence is open behind it. -/
theorem inSequence_of_lineEnd {c : UInt8} {lines : Nat} {inNext : Bool} (hlines : lines ≠ 0)
    (hlf : c = 10 → inNext = false) (hzero : (if c = 10 then lines - 1 else lines) = 0) : inNext = false := by
  split_ifs at hzero with hc
  · exact hlf hc
  · exact absurd hzero hlines

theorem not_lineEnd_of_continuation {c : UInt8} {inSequence : Bool} {P : Prop}
    (hin : (inSequence && isContinuation c) = true) (hc : c = 10) : P := by
  simp [hc, isContinuation] at hin

/-- A walk that has units left at the beginning of a later line goes on from there. -/
theorem walk_past_lines (bytes : Bytes) (inSequence : Bool) (lines character : Nat)
    (hstart : lines = 0 → inSequence = false)
    (hunits : unitsOf (bytes.take (skipLines bytes lines)) inSequence ≤ character) :
    walk scanSubtract bytes inSequence character =
      skipLines bytes lines + walk scanSubtract (bytes.drop (skipLines bytes lines)) false
        (character - unitsOf (bytes.take (skipLines bytes lines)) inSequence) := by
  induction bytes generalizing inSequence lines character with
  | nil => simp [walk, skipLines]
  | cons c rest ih =>
      by_cases hlines : lines = 0
      · simp [skipLines, hlines, hstart hlines, unitsOf]
      · have hnext : ∀ inNext, (c = 10 → inNext = false) →
            (if c = 10 then lines - 1 else lines) = 0 → inNext = false :=
          fun _ hlf hzero => inSequence_of_lineEnd hlines hlf hzero
        rw [skipLines, if_neg hlines, List.take_succ_cons] at hunits ⊢
        rw [List.drop_succ_cons, walk]
        simp only [unitsOf] at hunits ⊢
        generalize (if c = 10 then lines - 1 else lines) = next at hunits hnext ⊢
        split_ifs at hunits ⊢ with hin hzero
        · rw [ih true next character (hnext true (not_lineEnd_of_continuation hin)) hunits]
          omega
        · have := units_pos c
          omega
        · have hlf : c = 10 → decide (128 ≤ c) = false := by
            rintro rfl
            rfl
          rw [scanSubtract_eq, ih _ next (character - units c) (hnext _ hlf) (by omega), Nat.sub_sub]
          omega

/-- A walk whose units do not reach a later line ends before it. -/
theorem walk_before_lines (bytes : Bytes) (inSequence : Bool) (lines character : Nat)
    (hstart : lines = 0 → inSequence = false)
    (hunits : character ≤ unitsOf (bytes.take (skipLines bytes lines)) inSequence) :
    walk scanSubtract bytes inSequence character ≤ skipLines bytes lines := by
  induction bytes generalizing inSequence lines character with
  | nil => simp [walk]
  | cons c rest ih =>
      by_cases hlines : lines = 0
      · rw [skipLines, if_pos hlines] at hunits
        have hzero : character = 0 := Nat.le_zero.mp hunits
        simp [walk, hstart hlines, hzero]
      · have hnext : ∀ inNext, (c = 10 → inNext = false) →
            (if c = 10 then lines - 1 else lines) = 0 → inNext = false :=
          fun _ hlf hzero => inSequence_of_lineEnd hlines hlf hzero
        rw [skipLines, if_neg hlines, List.take_succ_cons] at hunits
        rw [skipLines, if_neg hlines, walk]
        simp only [unitsOf] at hunits
        generalize (if c = 10 then lines - 1 else lines) = next at hunits hnext ⊢
        split_ifs at hunits ⊢ with hin hzero
        · exact Nat.succ_le_succ (ih true next character (hnext true (not_lineEnd_of_continuation hin)) hunits)
        · exact Nat.zero_le _
        · have hlf : c = 10 → decide (128 ≤ c) = false := by
            rintro rfl
            rfl
          rw [scanSubtract_eq]
          exact Nat.succ_le_succ (ih _ next (character - units c) (hnext _ hlf) (by omega))

/-- The text from the beginning of one line to that of a later one. -/
def linesBetween (content : Bytes) (line line' : Nat) : Bytes :=
  (content.drop (skipLines content line)).take (skipLines content line' - skipLines content line)

/-- Counted from the beginning of the line of `p`, its characters reach past `q`: they count a character that begins
at `q` or behind it. -/
def Overtakes (content : Bytes) (p q : LsPosition) : Prop :=
  ∃ k ∈ unitStarts (content.drop (skipLines content q.line.toNat)) false,
    q.character.toNat ≤ k ∧
      unitsOf (linesBetween content p.line.toNat q.line.toNat) false + k < p.character.toNat

instance (content : Bytes) (p q : LsPosition) : Decidable (Overtakes content p q) :=
  inferInstanceAs (Decidable (∃ k ∈ _, _))

/-- The number of bytes before a position, before it is converted to an `int`. -/
def scanOffset (position : LsPosition) (content : Bytes) : Nat :=
  skipLines content position.line.toNat +
    walk scanSubtract (content.drop (skipLines content position.line.toNat)) false position.character.toNat

theorem scanOffset_le_iff (content : Bytes) {p q : LsPosition} (hpq : p ≤ q) :
    scanOffset p content ≤ scanOffset q content ↔ ¬Overtakes content p q := by
  have hline : p.line.toNat ≤ q.line.toNat := by
    rcases (LsPosition.le_iff p q).mp hpq with h | h <;> omega
  obtain ⟨lines, hlines⟩ := Nat.exists_eq_add_of_le hline
  have hskip := skipLines_add content p.line.toNat lines
  rw [← hlines] at hskip
  have hbetween : linesBetween content p.line.toNat q.line.toNat =
      (content.drop (skipLines content p.line.toNat)).take
        (skipLines (content.drop (skipLines content p.line.toNat)) lines) := by
    rw [linesBetween, hskip, Nat.add_sub_cancel_left]
  have htail : content.drop (skipLines content q.line.toNat) =
      (content.drop (skipLines content p.line.toNat)).drop
        (skipLines (content.drop (skipLines content p.line.toNat)) lines) := by
    rw [hskip, List.drop_drop]
  have hcond : ¬Overtakes content p q ↔
      walk scanSubtract (content.drop (skipLines content q.line.toNat)) false
          (p.character.toNat - unitsOf (linesBetween content p.line.toNat q.line.toNat) false) ≤
        walk scanSubtract (content.drop (skipLines content q.line.toNat)) false q.character.toNat := by
    rw [walk_le_walk_iff, Overtakes]
    push Not
    refine forall₂_congr fun k _ => ?_
    omega
  rw [hcond, scanOffset, scanOffset]
  rcases Nat.le_total (unitsOf (linesBetween content p.line.toNat q.line.toNat) false) p.character.toNat with
    hunits | hunits
  · rw [hbetween] at hunits
    rw [walk_past_lines _ false lines p.character.toNat (fun _ => rfl) hunits, ← htail, ← hbetween, hskip]
    omega
  · have hzero : p.character.toNat - unitsOf (linesBetween content p.line.toNat q.line.toNat) false = 0 := by
      omega
    rw [hbetween] at hunits
    have hwalk := walk_before_lines _ false lines p.character.toNat (fun _ => rfl) hunits
    refine iff_of_true (by omega) ?_
    rw [hzero, walk_le_walk_iff]
    omega

end LspCpp

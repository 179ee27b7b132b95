import LspCpp.StreamHeader
import Mathlib.Data.List.Pairwise

/-! Offsets into a text for positions by line and UTF-16 character. The plain function scans the text from its
beginning; the other one starts at a line offset from an index. Both then walk over the characters of the line
with a loop of their own. -/

namespace LspCpp

/-- `lsPosition`: the line and the UTF-16 code unit on it, counted from zero. -/
structure LsPosition where
  line : UInt32 := 0
  character : UInt32 := 0
  deriving DecidableEq, Repr

/-- The conversion of a `size_t` to a 32-bit `int`. -/
def toInt (n : Nat) : Int := (n : Int).bmod 4294967296

theorem toInt_of_lt {n : Nat} (h : n < 2147483648) : toInt n = n := by
  exact Int.bmod_eq_of_le_mul_two (by omega) (by omega)

/-- The conversion to a 32-bit `int` takes off a multiple of its modulus. -/
theorem toInt_spec (n : Nat) :
    ∃ q, toInt n + 4294967296 * q = n ∧ -2147483648 ≤ toInt n ∧ toInt n < 2147483648 :=
  ⟨(n : Int).bdiv 4294967296, Int.bmod_add_bdiv _ _, Int.le_bmod (by decide), Int.bmod_lt (by decide)⟩

theorem toInt_mem_iff (lo hi n : Nat) :
    (lo : Int) ≤ toInt n ∧ toInt n ≤ hi ↔
      ∃ wraps, lo + 4294967296 * wraps ≤ n ∧ n ≤ min hi 2147483647 + 4294967296 * wraps := by
  obtain ⟨q, hq, hge, hlt⟩ := toInt_spec n
  generalize toInt n = r at hq hge hlt ⊢
  constructor
  · intro h
    refine ⟨n / 4294967296, ?_⟩
    omega
  · rintro ⟨wraps, hlo, hhi⟩
    omega

/-- A byte that goes on a UTF-8 sequence. -/
def isContinuation (c : UInt8) : Bool := 128 ≤ c && c < 192

/-- The UTF-16 code units of the character with a lead byte. -/
def units (lead : UInt8) : Nat := if 240 ≤ lead then 2 else 1

/-- The two nested loops over the characters of a line, on the bytes from the current index on: how many of them
are passed while `character` counts down. `inSequence` tells that the inner loop, which skips the continuation
bytes after a lead byte from 128 on, has not ended. `subtract` is how the counter goes down. -/
def walk (subtract : Nat → Nat → Nat) : Bytes → Bool → Nat → Nat
  | [], _, _ => 0
  | c :: rest, inSequence, character =>
      if inSequence && isContinuation c then walk subtract rest true character + 1
      else if character = 0 then 0
      else walk subtract rest (128 ≤ c) (subtract character (units c)) + 1

theorem walk_le (subtract : Nat → Nat → Nat) (bytes : Bytes) (inSequence : Bool) (character : Nat) :
    walk subtract bytes inSequence character ≤ bytes.length := by
  induction bytes generalizing inSequence character with
  | nil => exact Nat.le_refl _
  | cons c rest ih =>
      rw [walk, List.length_cons]
      split_ifs
      · exact Nat.succ_le_succ (ih _ _)
      · exact Nat.zero_le _
      · exact Nat.succ_le_succ (ih _ _)

/-- The loop of `lsp::GetOffsetForPosition` over the lines: how many bytes it passes. -/
def skipLines : Bytes → Nat → Nat
  | [], _ => 0
  | c :: rest, line => if line = 0 then 0 else skipLines rest (if c = 10 then line - 1 else line) + 1

theorem skipLines_le (content : Bytes) (line : Nat) : skipLines content line ≤ content.length := by
  induction content generalizing line with
  | nil => exact Nat.le_refl _
  | cons c rest ih =>
      rw [skipLines, List.length_cons]
      split_ifs
      · exact Nat.zero_le _
      · exact Nat.succ_le_succ (ih _)
      · exact Nat.succ_le_succ (ih _)

/-- How `lsp::GetOffsetForPosition` counts a character down. -/
def scanSubtract (character units : Nat) : Nat := character - if character < units then character else units

/-- `lsp::GetOffsetForPosition`. -/
def getOffsetForPosition (position : LsPosition) (content : Bytes) : Int :=
  let i := skipLines content position.line.toNat
  toInt (i + walk scanSubtract (content.drop i) false position.character.toNat)

/-- The offsets that the loop of `BuildLineOffsets` adds for a text that begins at `i`. -/
def lineStarts : Nat → Bytes → List Nat
  | _, [] => []
  | i, c :: rest => if c = 10 then (i + 1) :: lineStarts (i + 1) rest else lineStarts (i + 1) rest

/-- `BuildLineOffsets`. -/
def buildLineOffsets (content : Bytes) : List Nat := 0 :: lineStarts 0 content

theorem mem_lineStarts (i : Nat) (content : Bytes) (k : Nat) :
    k ∈ lineStarts i content ↔ ∃ j, content[j]? = some 10 ∧ k = i + j + 1 := by
  induction content generalizing i with
  | nil => simp [lineStarts]
  | cons c rest ih =>
      have hrest : (∃ j, (c :: rest)[j]? = some 10 ∧ k = i + j + 1) ↔
          (c = 10 ∧ k = i + 1) ∨ ∃ j, rest[j]? = some 10 ∧ k = i + 1 + j + 1 := by
        constructor
        · rintro ⟨j, hj, rfl⟩
          cases j with
          | zero => exact .inl ⟨Option.some.inj hj, rfl⟩
          | succ j => exact .inr ⟨j, hj, by omega⟩
        · rintro (⟨rfl, rfl⟩ | ⟨j, hj, rfl⟩)
          · exact ⟨0, rfl, rfl⟩
          · exact ⟨j + 1, hj, by omega⟩
      rw [hrest, lineStarts]
      split_ifs with hc
      · rw [List.mem_cons, ih]
        simp [hc]
      · rw [ih]
        simp [hc]

theorem lineStarts_pairwise (i : Nat) (content : Bytes) : (lineStarts i content).Pairwise (· < ·) := by
  induction content generalizing i with
  | nil => exact List.Pairwise.nil
  | cons c rest ih =>
      rw [lineStarts]
      split_ifs
      · refine List.pairwise_cons.mpr ⟨fun k hk => ?_, ih (i + 1)⟩
        obtain ⟨j, _, rfl⟩ := (mem_lineStarts _ _ _).mp hk
        omega
      · exact ih (i + 1)

/-- A list of the offsets at which the lines of a text begin, in ascending order: 0 and every index after an
LF. -/
def IsLineIndex (offsets : List Nat) (content : Bytes) : Prop :=
  offsets.Pairwise (· < ·) ∧ ∀ k, k ∈ offsets ↔ k = 0 ∨ ∃ j, content[j]? = some 10 ∧ k = j + 1

theorem isLineIndex_buildLineOffsets (content : Bytes) : IsLineIndex (buildLineOffsets content) content := by
  refine ⟨List.pairwise_cons.mpr ⟨fun k hk => ?_, lineStarts_pairwise 0 content⟩, fun k => ?_⟩
  · obtain ⟨j, _, rfl⟩ := (mem_lineStarts _ _ _).mp hk
    omega
  · rw [buildLineOffsets, List.mem_cons, mem_lineStarts]
    simp

/-- The entry of the index for a line is where the scan over the lines ends; a line past the last one is looked
up as the end of the text. -/
theorem getD_lineStarts (content : Bytes) (i line : Nat) :
    ((i :: lineStarts i content)[line]?).getD (i + content.length) = i + skipLines content line := by
  induction content generalizing i line with
  | nil => cases line <;> rfl
  | cons c rest ih =>
      cases line with
      | zero => simp [skipLines]
      | succ line =>
          rw [skipLines, if_neg (Nat.succ_ne_zero line), List.length_cons, List.getElem?_cons_succ, lineStarts]
          have hlen : i + (rest.length + 1) = i + 1 + rest.length := by omega
          rw [hlen]
          split_ifs with hc
          · rw [ih, Nat.add_sub_cancel]
            omega
          · have hline := ih (i + 1) (line + 1)
            rw [List.getElem?_cons_succ] at hline
            rw [hline]
            omega

theorem getD_buildLineOffsets (content : Bytes) (line : Nat) :
    ((buildLineOffsets content)[line]?).getD content.length = skipLines content line := by
  have h := getD_lineStarts content 0 line
  rwa [Nat.zero_add, Nat.zero_add] at h

end LspCpp

import LspCpp.TextPosition

/-! The two encodings of offsets. In a text of ASCII bytes they differ in what they make of a character behind the end
of the text and of an offset there: the one for UTF-8 adds and subtracts without a bound. -/

namespace LspCpp

inductive OffsetEncoding where
  | utf16
  | utf8
  deriving DecidableEq, Repr

def getOffsetForPositionWithEncoding (position : LsPosition) (content : Bytes) : OffsetEncoding → Int
  | .utf16 => getOffsetForPosition position content
  | .utf8 => toInt (skipLines content position.line.toNat + position.character.toNat)

/-- The loop of `GetPositionForOffsetWithEncoding` over the bytes from index `i` on; with the line it keeps the
index at which the line begins. -/
def scanLine : Bytes → (i : Nat) → UInt32 × Nat → UInt32 × Nat
  | [], _, scanned => scanned
  | c :: rest, i, (line, lineStart) => scanLine rest (i + 1) (if c = 10 then (line + 1, i + 1) else (line, lineStart))

def getPositionForOffsetWithEncoding (offset : Nat) (content : Bytes) : OffsetEncoding → LsPosition
  | .utf16 => getPositionForOffset offset content
  | .utf8 =>
      let (line, lineStart) := scanLine (content.take offset) 0 (0, 0)
      ⟨line, UInt32.ofNat (offset - lineStart)⟩

/-- A text of ASCII bytes. -/
def IsAscii (content : Bytes) : Prop := ∀ b ∈ content, b < 128

theorem walk_of_ascii {bytes : Bytes} (h : IsAscii bytes) (character : Nat) :
    walk scanSubtract bytes false character = min character bytes.length := by
  induction bytes generalizing character with
  | nil => simp [walk]
  | cons c rest ih =>
      have hc : c < 128 := h c (List.mem_cons_self ..)
      have hopen : decide (128 ≤ c) = false := decide_eq_false (UInt8.not_le.mpr hc)
      have hunits : units c = 1 := by
        refine if_neg (UInt8.not_le.mpr ?_)
        exact UInt8.lt_trans hc (by decide)
      rw [walk, Bool.false_and, if_neg Bool.false_ne_true, hopen, hunits, scanSubtract_eq, List.length_cons]
      split_ifs with hzero
      · omega
      · rw [ih (fun b hb => h b (List.mem_cons_of_mem _ hb))]
        omega

/-- Two numbers that are less than the modulus apart are converted to different ones. -/
theorem toInt_inj {m n : Nat} (h : m < n + 4294967296) (h' : n < m + 4294967296) : toInt m = toInt n ↔ m = n := by
  constructor
  · intro heq
    obtain ⟨p, hp, -, -⟩ := toInt_spec m
    obtain ⟨q, hq, -, -⟩ := toInt_spec n
    omega
  · rintro rfl
    rfl

/-- On ASCII bytes the offsets agree exactly when the character is not behind the end of the text. -/
theorem offset_agrees_iff {content : Bytes} (hascii : IsAscii content) (position : LsPosition) :
    getOffsetForPositionWithEncoding position content .utf8 =
        getOffsetForPositionWithEncoding position content .utf16 ↔
      min (lineStart content position.line.toNat) content.length + position.character.toNat ≤ content.length := by
  rw [← skipLines_eq_min]
  have hskip := skipLines_le content position.line.toNat
  have hcharacter := position.character.toNat_lt
  have hdrop : IsAscii (content.drop (skipLines content position.line.toNat)) :=
    fun b hb => hascii b (List.mem_of_mem_drop hb)
  simp only [getOffsetForPositionWithEncoding, getOffsetForPosition, walk_of_ascii hdrop, List.length_drop]
  rw [toInt_inj (by omega) (by omega)]
  omega

/-- The offset for UTF-8 lies in the text exactly when the sum of the line and the character does as a 32-bit number. -/
theorem utf8_offset_mem_iff (position : LsPosition) (content : Bytes) :
    (0 ≤ getOffsetForPositionWithEncoding position content .utf8 ∧
        getOffsetForPositionWithEncoding position content .utf8 ≤ content.length) ↔
      (min (lineStart content position.line.toNat) content.length + position.character.toNat) % 4294967296 ≤
        min content.length 2147483647 := by
  rw [← skipLines_eq_min]
  have h := toInt_mem_iff 0 content.length (skipLines content position.line.toNat + position.character.toNat)
  rw [Int.natCast_zero] at h
  refine h.trans ⟨?_, fun hmod => ⟨(skipLines content position.line.toNat + position.character.toNat) / 4294967296, ?_⟩⟩
  · rintro ⟨wraps, hlo, hhi⟩
    omega
  · omega

theorem scanLine_of_not_mem {text : Bytes} (h : 10 ∉ text) (i : Nat) (scanned : UInt32 × Nat) :
    scanLine text i scanned = scanned := by
  induction text generalizing i with
  | nil => rfl
  | cons c text ih =>
      have hc : ¬c = 10 := fun heq => h (heq ▸ List.mem_cons_self ..)
      obtain ⟨line, lineStart⟩ := scanned
      rw [scanLine, if_neg hc]
      exact ih (fun hmem => h (List.mem_cons_of_mem _ hmem)) (i + 1)

example : scanLine [97, 98] 0 (0, 0) = (0, 0) := by
  rw [scanLine]
  rfl

theorem scanLine_append (front rest : Bytes) (i : Nat) (scanned : UInt32 × Nat) :
    scanLine (front ++ rest) i scanned = scanLine rest (i + front.length) (scanLine front i scanned) := by
  induction front generalizing i scanned with
  | nil => rfl
  | cons c front ih =>
      rw [List.cons_append, scanLine, scanLine, ih, List.length_cons, Nat.add_right_comm, Nat.add_assoc]

theorem scanLine_fst (bytes : Bytes) (i : Nat) (scanned : UInt32 × Nat) :
    (scanLine bytes i scanned).1 = scanned.1 + UInt32.ofNat (bytes.count 10) := by
  induction bytes generalizing i scanned with
  | nil => simp [scanLine]
  | cons c rest ih =>
      rw [scanLine, ih, List.count_cons]
      by_cases hc : c = 10
      · simp [hc, UInt32.ofNat_add, UInt32.add_assoc, UInt32.add_comm]
      · simp [hc]

theorem scanLine_head {head text : Bytes} (hhead : IsLineHead head) (htext : 10 ∉ text) :
    scanLine (head ++ text) 0 (0, 0) = (UInt32.ofNat (head.count 10), head.length) := by
  rw [scanLine_append, scanLine_of_not_mem htext]
  rcases hhead with rfl | ⟨front, rfl⟩
  · rfl
  · rw [scanLine_append, scanLine, if_pos rfl, scanLine, scanLine_fst, List.length_append]
    simp [UInt32.ofNat_add]

theorem leadUnits_of_ascii {bytes : Bytes} (h : IsAscii bytes) : leadUnits bytes = bytes.length := by
  induction bytes with
  | nil => rfl
  | cons c rest ih =>
      have hc : c < 128 := h c (List.mem_cons_self ..)
      have hbegins : isContinuation c = false := by
        rw [isContinuation, decide_eq_false (UInt8.not_le.mpr hc), Bool.false_and]
      have hunits : units c = 1 := if_neg (UInt8.not_le.mpr (UInt8.lt_trans hc (by decide)))
      rw [leadUnits_cons, hbegins, if_neg Bool.false_ne_true, hunits, ih fun b hb => h b (List.mem_cons_of_mem _ hb),
        List.length_cons, Nat.add_comm]

/-- On ASCII bytes the positions agree exactly when the offset is not behind the end of the text, or as far behind it
that a 32-bit number has come back. -/
theorem position_agrees_iff {content : Bytes} (hascii : IsAscii content) (offset : Nat) :
    getPositionForOffsetWithEncoding offset content .utf8 = getPositionForOffsetWithEncoding offset content .utf16 ↔
      4294967296 ∣ offset - content.length := by
  obtain ⟨head, text, hsplit, hhead, htext⟩ := exists_isLineHead (content.take offset)
  have hlength := congrArg List.length hsplit
  rw [List.length_take, List.length_append] at hlength
  have htextAscii : IsAscii text := fun b hb =>
    hascii b (List.mem_of_mem_take (by rw [hsplit]; exact List.mem_append_right _ hb))
  simp only [getPositionForOffsetWithEncoding, getPositionForOffset, hsplit, scanLine_head hhead htext,
    foldl_countByte hhead htext, leadUnits_of_ascii htextAscii, LsPosition.mk.injEq, true_and]
  rw [← UInt32.toNat_inj, UInt32.toNat_ofNat', UInt32.toNat_ofNat']
  change (offset - head.length) % 4294967296 = text.length % 4294967296 ↔ _
  rw [Nat.dvd_iff_mod_eq_zero]
  omega

/-- **The two encodings agree on ASCII**, for offsets exactly when the character is not behind the end of the text, and
for positions exactly when the offset is not; the offset for UTF-8 lies in the text exactly when the sum of the
beginning of the line and the character does. -/
theorem encodings_agree_iff (content : Bytes) (position : LsPosition) (offset : Nat) :
    (IsAscii content →
        (getOffsetForPositionWithEncoding position content .utf8 =
            getOffsetForPositionWithEncoding position content .utf16 ↔
          min (lineStart content position.line.toNat) content.length + position.character.toNat ≤ content.length) ∧
        (getPositionForOffsetWithEncoding offset content .utf8 =
            getPositionForOffsetWithEncoding offset content .utf16 ↔
          4294967296 ∣ offset - content.length)) ∧
      (0 ≤ getOffsetForPositionWithEncoding position content .utf8 ∧
          getOffsetForPositionWithEncoding position content .utf8 ≤ content.length ↔
        (min (lineStart content position.line.toNat) content.length + position.character.toNat) % 4294967296 ≤
          min content.length 2147483647) :=
  ⟨fun hascii => ⟨offset_agrees_iff hascii position, position_agrees_iff hascii offset⟩,
    utf8_offset_mem_iff position content⟩

theorem encodings_agree_iff_twoLines :
    IsAscii (bytesOf "a\nbc\n") ∧
      getOffsetForPositionWithEncoding ⟨1, 2⟩ (bytesOf "a\nbc\n") .utf8 =
        getOffsetForPositionWithEncoding ⟨1, 2⟩ (bytesOf "a\nbc\n") .utf16 := by
  have hascii : IsAscii (bytesOf "a\nbc\n") := by simp [IsAscii, bytesOf]
  exact ⟨hascii, (((encodings_agree_iff _ ⟨1, 2⟩ 0).1 hascii).1).mpr (by decide)⟩

/-- Behind the end of the text the offset for UTF-8 goes on, and so does the character of a position. -/
theorem encodings_differ_pastEnd :
    getOffsetForPositionWithEncoding ⟨0, 9⟩ (bytesOf "ab") .utf8 = 9 ∧
      getOffsetForPositionWithEncoding ⟨0, 9⟩ (bytesOf "ab") .utf16 = 2 ∧
      getPositionForOffsetWithEncoding 9 (bytesOf "ab") .utf8 = ⟨0, 9⟩ ∧
      getPositionForOffsetWithEncoding 9 (bytesOf "ab") .utf16 = ⟨0, 2⟩ := by
  exact ⟨by decide, by decide, by decide, by decide⟩

end LspCpp

import LspCpp.TextLines
import Mathlib.Order.Bounds.Defs

/-! From an offset to a position and back. The conversion counts units at the bytes that begin a character and starts
again behind every LF; in a text of characters the walk over a line leads back to the next boundary. -/

namespace LspCpp

/-- One round of the loop of `lsp::GetPositionForOffset`. -/
def countByte (position : LsPosition) (byte : UInt8) : LsPosition :=
  if byte = 10 then ⟨position.line + 1, 0⟩
  else if byte < 128 || 192 ≤ byte then
    { position with character := position.character + if 240 ≤ byte then 2 else 1 }
  else position

/-- `lsp::GetPositionForOffset`. -/
def getPositionForOffset (offset : Nat) (content : Bytes) : LsPosition := (content.take offset).foldl countByte {}

/-- The bytes of characters. -/
def encodeChars (chars : List Char) : Bytes := chars.flatMap String.utf8EncodeChar

def IsValidUtf8 (content : Bytes) : Prop := ∃ chars, content = encodeChars chars

/-- An offset with whole characters before it and behind it. -/
def IsBoundary (content : Bytes) (offset : Nat) : Prop :=
  ∃ before behind, content = encodeChars (before ++ behind) ∧ offset = (encodeChars before).length

/-- The bytes of a character: one that goes on no sequence, and behind it those that do. -/
structure IsSequence (lead : UInt8) (tail : Bytes) : Prop where
  begins : isContinuation lead = false
  goesOn : ∀ b ∈ tail, isContinuation b = true
  opens : tail ≠ [] → decide (128 ≤ lead) = true

theorem isContinuation_ofNat {n : Nat} (h : n < 256) :
    isContinuation (UInt8.ofNat n) = decide (128 ≤ n ∧ n < 192) := by
  have hnat : (UInt8.ofNat n).toNat = n := UInt8.toNat_ofNat_of_lt' h
  rw [isContinuation, Bool.decide_and]
  simp only [UInt8.le_iff_toNat_le, UInt8.lt_iff_toNat_lt, hnat]
  rfl

theorem isSequence_utf8EncodeChar (c : Char) :
    ∃ lead tail, String.utf8EncodeChar c = lead :: tail ∧ IsSequence lead tail := by
  have hnext : ∀ n : Nat, isContinuation (UInt8.ofNat (n % 64 + 128)) = true := fun n => by
    rw [isContinuation_ofNat (by omega), decide_eq_true_eq]
    omega
  have hcons : ∀ n (rest : Bytes), (∀ b ∈ rest, isContinuation b = true) →
      ∀ b ∈ UInt8.ofNat (n % 64 + 128) :: rest, isContinuation b = true :=
    fun n rest h => List.forall_mem_cons.mpr ⟨hnext n, h⟩
  have hnil : ∀ b ∈ ([] : Bytes), isContinuation b = true := List.forall_mem_nil _
  have hlead : ∀ n : Nat, 192 ≤ n → n < 256 →
      isContinuation (UInt8.ofNat n) = false ∧ decide (128 ≤ UInt8.ofNat n) = true := by
    intro n hlo hhi
    have hnat : (UInt8.ofNat n).toNat = n := UInt8.toNat_ofNat_of_lt' hhi
    rw [isContinuation_ofNat hhi, decide_eq_false_iff_not, decide_eq_true_eq, UInt8.le_iff_toNat_le, hnat]
    exact ⟨by omega, by simp; omega⟩
  rw [String.utf8EncodeChar]
  generalize c.val.toNat = v
  split_ifs with h1 h2 h3
  · refine ⟨_, [], rfl, ?_, hnil, fun hne => absurd rfl hne⟩
    rw [isContinuation_ofNat (by omega), decide_eq_false_iff_not]
    omega
  · have h := hlead (v / 64 % 32 + 192) (by omega) (by omega)
    exact ⟨_, _, rfl, h.1, hcons _ _ hnil, fun _ => h.2⟩
  · have h := hlead (v / 4096 % 16 + 224) (by omega) (by omega)
    exact ⟨_, _, rfl, h.1, hcons _ _ (hcons _ _ hnil), fun _ => h.2⟩
  · have h := hlead (v / 262144 % 8 + 240) (by omega) (by omega)
    exact ⟨_, _, rfl, h.1, hcons _ _ (hcons _ _ (hcons _ _ hnil)), fun _ => h.2⟩

/-- Bytes that go on a sequence stand behind bytes of one. -/
def Sequenced : Bytes → Bool → Prop
  | [], _ => True
  | c :: rest, inSequence => (isContinuation c = true → inSequence = true) ∧ Sequenced rest (128 ≤ c)

namespace Sequenced

variable {bytes : Bytes} {inSequence : Bool}

theorem append_tail {tail rest : Bytes} (htail : ∀ b ∈ tail, isContinuation b = true)
    (hrest : ∀ flag, Sequenced rest flag) (hflag : tail ≠ [] → inSequence = true) :
    Sequenced (tail ++ rest) inSequence := by
  induction tail generalizing inSequence with
  | nil => exact hrest inSequence
  | cons b tail ih =>
      have hb := le_of_isContinuation (htail b (List.mem_cons_self ..))
      exact ⟨fun _ => hflag (List.cons_ne_nil _ _), ih (fun b' hb' => htail b' (List.mem_cons_of_mem _ hb'))
        fun _ => hb⟩

theorem of_encodeChars (chars : List Char) (flag : Bool) : Sequenced (encodeChars chars) flag := by
  induction chars generalizing flag with
  | nil => trivial
  | cons c chars ih =>
      obtain ⟨lead, tail, hc, hsequence⟩ := isSequence_utf8EncodeChar c
      have hcons : encodeChars (c :: chars) = lead :: (tail ++ encodeChars chars) := by
        rw [encodeChars, List.flatMap_cons, hc]
        rfl
      rw [hcons]
      refine ⟨fun h => ?_, append_tail hsequence.goesOn ih hsequence.opens⟩
      rw [hsequence.begins] at h
      cases h

theorem behind {c : UInt8} {front rest : Bytes} (h : Sequenced (front ++ c :: rest) inSequence) :
    Sequenced rest (128 ≤ c) := by
  induction front generalizing inSequence with
  | nil => exact h.2
  | cons b front ih => exact ih h.2

theorem take (h : Sequenced bytes inSequence) (i : Nat) : Sequenced (bytes.take i) inSequence := by
  induction bytes generalizing inSequence i with
  | nil => simp [Sequenced]
  | cons c rest ih =>
      cases i with
      | zero => trivial
      | succ i => exact ⟨h.1, ih h.2 i⟩

/-- Of such a text the walk begins a character at every byte that goes on none. -/
theorem startsChar_iff (h : Sequenced bytes inSequence) (i : Nat) :
    startsChar bytes inSequence i = true ↔ ∃ c, bytes[i]? = some c ∧ isContinuation c = false := by
  induction bytes generalizing inSequence i with
  | nil => simp [startsChar]
  | cons c rest ih =>
      cases i with
      | zero =>
          have hin := h.1
          cases hc : isContinuation c
          · simp [startsChar, hc]
          · simp [startsChar, hc, hin hc]
      | succ i => exact ih h.2 i

end Sequenced

/-- The units of the bytes that begin a character. -/
def leadUnits (bytes : Bytes) : Nat := (bytes.map fun c => if isContinuation c then 0 else units c).sum

@[simp] theorem leadUnits_nil : leadUnits [] = 0 := rfl

@[simp] theorem leadUnits_cons (c : UInt8) (rest : Bytes) :
    leadUnits (c :: rest) = (if isContinuation c then 0 else units c) + leadUnits rest := by
  rw [leadUnits, List.map_cons, List.sum_cons, leadUnits]

@[simp] theorem leadUnits_append (front rest : Bytes) :
    leadUnits (front ++ rest) = leadUnits front + leadUnits rest := by
  rw [leadUnits, List.map_append, List.sum_append, leadUnits, leadUnits]

theorem leadUnits_le (bytes : Bytes) : leadUnits bytes ≤ 2 * bytes.length := by
  induction bytes with
  | nil => exact Nat.le_refl _
  | cons c rest ih =>
      have hc : (if isContinuation c then 0 else units c) ≤ 2 := by
        rw [units]
        split_ifs <;> decide
      rw [leadUnits_cons, List.length_cons]
      omega

theorem Sequenced.unitsOf_eq {bytes : Bytes} {inSequence : Bool} (h : Sequenced bytes inSequence) :
    unitsOf bytes inSequence = leadUnits bytes := by
  induction bytes generalizing inSequence with
  | nil => rfl
  | cons c rest ih =>
      rw [unitsOf, leadUnits_cons]
      cases hc : isContinuation c
      · rw [Bool.and_false, if_neg Bool.false_ne_true, if_neg Bool.false_ne_true, ih h.2]
      · have hflag := ih h.2
        rw [le_of_isContinuation hc] at hflag
        rw [h.1 hc, Bool.and_self, if_pos rfl, if_pos rfl, hflag, Nat.zero_add]

theorem encodeChars_append (before behind : List Char) :
    encodeChars (before ++ behind) = encodeChars before ++ encodeChars behind := List.flatMap_append

theorem encodeChars_cons (c : Char) (chars : List Char) :
    encodeChars (c :: chars) = String.utf8EncodeChar c ++ encodeChars chars := List.flatMap_cons

/-- A byte that goes on no sequence has whole characters before it. -/
theorem isBoundary_of_begins {chars : List Char} {b : Nat} {c : UInt8} (hc : (encodeChars chars)[b]? = some c)
    (hbegins : isContinuation c = false) : IsBoundary (encodeChars chars) b := by
  induction chars generalizing b with
  | nil => cases hc
  | cons d chars ih =>
      obtain ⟨lead, tail, hd, hsequence⟩ := isSequence_utf8EncodeChar d
      rcases Nat.lt_or_ge b (String.utf8EncodeChar d).length with hlt | hge
      · cases b with
        | zero => exact ⟨[], d :: chars, rfl, rfl⟩
        | succ b =>
            rw [encodeChars_cons, List.getElem?_append_left hlt, hd, List.getElem?_cons_succ] at hc
            rw [hsequence.goesOn c (List.mem_of_getElem? hc)] at hbegins
            cases hbegins
      · rw [encodeChars_cons, List.getElem?_append_right hge] at hc
        obtain ⟨before, behind, hchars, hb⟩ := ih hc
        refine ⟨d :: before, behind, ?_, ?_⟩
        · rw [List.cons_append, encodeChars_cons, encodeChars_cons, hchars]
        · rw [encodeChars_cons, List.length_append, ← hb]
          omega

/-- The boundaries of a text of characters are its end and the bytes that go on no sequence. -/
theorem isBoundary_iff {content : Bytes} (hvalid : IsValidUtf8 content) (b : Nat) :
    IsBoundary content b ↔ b = content.length ∨ ∃ c, content[b]? = some c ∧ isContinuation c = false := by
  constructor
  · rintro ⟨before, behind, rfl, rfl⟩
    rw [encodeChars_append]
    cases behind with
    | nil => exact .inl (by simp [encodeChars])
    | cons d behind =>
        obtain ⟨lead, tail, hd, hsequence⟩ := isSequence_utf8EncodeChar d
        refine .inr ⟨lead, ?_, hsequence.begins⟩
        rw [List.getElem?_append_right (Nat.le_refl _), Nat.sub_self, encodeChars_cons, hd]
        rfl
  · obtain ⟨chars, rfl⟩ := hvalid
    rintro (rfl | ⟨c, hc, hbegins⟩)
    · exact ⟨chars, [], by rw [List.append_nil], rfl⟩
    · exact isBoundary_of_begins hc hbegins

/-- The text before a line: nothing, or a text that ends in an LF. -/
def IsLineHead (head : Bytes) : Prop := head = [] ∨ ∃ front, head = front ++ [10]

/-- A text is split behind its last LF. -/
theorem exists_isLineHead (bytes : Bytes) : ∃ head text, bytes = head ++ text ∧ IsLineHead head ∧ 10 ∉ text := by
  by_cases hmem : 10 ∈ bytes
  · obtain ⟨text, front, hsplit, htext⟩ := List.eq_append_cons_of_mem (List.mem_reverse.mpr hmem)
    refine ⟨front.reverse ++ [10], text.reverse, ?_, .inr ⟨_, rfl⟩, by simpa using htext⟩
    rw [← List.reverse_reverse bytes, hsplit]
    simp
  · exact ⟨[], bytes, rfl, .inl rfl, hmem⟩

theorem skipLines_head {head : Bytes} (hhead : IsLineHead head) (rest : Bytes) :
    skipLines (head ++ rest) (head.count 10) = head.length := by
  rcases hhead with rfl | ⟨front, rfl⟩
  · cases rest <;> rfl
  · induction front with
    | nil => cases rest <;> simp [skipLines]
    | cons c front ih =>
        have hpos : (front ++ [10]).count 10 ≠ 0 := by simp
        rw [List.cons_append, List.cons_append, skipLines, List.length_cons, ← ih]
        by_cases hc : c = 10
        · simp [hc]
        · rw [List.count_cons_of_ne hc, if_neg hpos, if_neg hc]

theorem Sequenced.of_head {head rest : Bytes} (hhead : IsLineHead head) (h : Sequenced (head ++ rest) false) :
    Sequenced rest false := by
  rcases hhead with rfl | ⟨front, rfl⟩
  · exact h
  · rw [List.append_assoc] at h
    exact h.behind

theorem line_foldl_countByte (bytes : Bytes) (position : LsPosition) :
    (bytes.foldl countByte position).line = position.line + UInt32.ofNat (bytes.count 10) := by
  induction bytes generalizing position with
  | nil => simp
  | cons c rest ih =>
      rw [List.foldl_cons, ih, countByte, List.count_cons]
      split_ifs with hc hlead hlf hlf <;> simp_all [UInt32.add_assoc, UInt32.add_comm]

theorem countByte_of_ne {c : UInt8} (h : c ≠ 10) (position : LsPosition) :
    countByte position c =
      { position with
        character := position.character + UInt32.ofNat (if isContinuation c then 0 else units c) } := by
  have hbegins : (decide (c < 128) || decide (192 ≤ c)) = !isContinuation c := by
    simp only [isContinuation, Bool.not_and, ← decide_not, UInt8.not_le, UInt8.not_lt]
  rw [countByte, if_neg h, hbegins, units]
  cases isContinuation c
  · rw [Bool.not_false, if_pos rfl, if_neg Bool.false_ne_true]
    split_ifs <;> rfl
  · simp

theorem foldl_countByte_of_not_mem {text : Bytes} (h : 10 ∉ text) (position : LsPosition) :
    text.foldl countByte position =
      { position with character := position.character + UInt32.ofNat (leadUnits text) } := by
  induction text generalizing position with
  | nil => simp
  | cons c text ih =>
      have hc : c ≠ 10 := fun heq => h (heq ▸ List.mem_cons_self ..)
      rw [List.foldl_cons, ih (fun hmem => h (List.mem_cons_of_mem _ hmem)), countByte_of_ne hc, leadUnits_cons,
        UInt32.ofNat_add, UInt32.add_assoc]

/-- The position of an offset: the lines before it and the units from its line on. -/
theorem foldl_countByte {head text : Bytes} (hhead : IsLineHead head) (htext : 10 ∉ text) :
    (head ++ text).foldl countByte {} = ⟨UInt32.ofNat (head.count 10), UInt32.ofNat (leadUnits text)⟩ := by
  have hbefore : head.foldl countByte {} = ⟨UInt32.ofNat (head.count 10), 0⟩ := by
    rcases hhead with rfl | ⟨front, rfl⟩
    · rfl
    · rw [List.foldl_append, List.foldl_cons, List.foldl_nil, countByte, if_pos rfl, line_foldl_countByte]
      simp [UInt32.ofNat_add]
  rw [List.foldl_append, hbefore, foldl_countByte_of_not_mem htext, UInt32.zero_add]

/-! ### There and back -/

section RoundTrip

variable {content head text behind : Bytes}

/-- A boundary of a text from a line on has the units of a part of it before it exactly when it is not inside that
part. -/
theorem leadUnits_le_take_iff {i : Nat} {c : UInt8} (hc : (text ++ behind)[i]? = some c)
    (hbegins : isContinuation c = false) :
    leadUnits text ≤ leadUnits ((text ++ behind).take i) ↔ text.length ≤ i := by
  constructor
  · intro hunits
    by_contra hlt
    rw [List.getElem?_append_left (by omega)] at hc
    obtain ⟨hi, rfl⟩ := List.getElem?_eq_some_iff.mp hc
    have hsplit : leadUnits text = leadUnits (text.take i) + (units text[i] + leadUnits (text.drop (i + 1))) := by
      conv_lhs => rw [← List.take_append_drop i text, List.drop_eq_getElem_cons hi]
      rw [leadUnits_append, leadUnits_cons, hbegins, if_neg Bool.false_ne_true]
    have hpos := units_pos text[i]
    rw [List.take_append_of_le_length (by omega)] at hunits
    omega
  · intro hle
    rw [List.take_append, List.take_of_length_le hle, leadUnits_append]
    exact Nat.le_add_right _ _

/-- How far the way back goes. -/
theorem walk_back_le_iff (hvalid : IsValidUtf8 (head ++ (text ++ behind))) (hhead : IsLineHead head) (k : Nat) :
    walk scanSubtract (text ++ behind) false (leadUnits text) ≤ k ↔
      ∃ b, IsBoundary (head ++ (text ++ behind)) b ∧ (head ++ text).length ≤ b ∧ b ≤ head.length + k := by
  have hsequenced : Sequenced (text ++ behind) false := by
    obtain ⟨chars, hchars⟩ := hvalid
    refine Sequenced.of_head hhead ?_
    rw [hchars]
    exact .of_encodeChars chars false
  rw [walk_le_iff]
  simp only [isBoundary_iff hvalid]
  constructor
  · rintro (hlen | ⟨i, hi, hstarts, hunits⟩)
    · exact ⟨_, .inl rfl, by simp only [List.length_append]; omega, by rw [List.length_append]; omega⟩
    · obtain ⟨c, hc, hbegins⟩ := (hsequenced.startsChar_iff i).mp hstarts
      rw [(hsequenced.take i).unitsOf_eq, leadUnits_le_take_iff hc hbegins] at hunits
      refine ⟨head.length + i, .inr ⟨c, ?_, hbegins⟩, by rw [List.length_append]; omega, by omega⟩
      rw [List.getElem?_append_right (by omega), Nat.add_sub_cancel_left, hc]
  · rintro ⟨b, hb, hlo, hhi⟩
    rw [List.length_append] at hlo
    rcases hb with rfl | ⟨c, hc, hbegins⟩
    · rw [List.length_append] at hhi
      exact .inl (by omega)
    · rw [List.getElem?_append_right (by omega)] at hc
      refine .inr ⟨b - head.length, by omega, (hsequenced.startsChar_iff _).mpr ⟨c, hc, hbegins⟩, ?_⟩
      rw [(hsequenced.take _).unitsOf_eq, leadUnits_le_take_iff hc hbegins]
      omega

theorem le_of_isBoundary {b : Nat} (hb : IsBoundary content b) : b ≤ content.length := by
  obtain ⟨before, after, rfl, rfl⟩ := hb
  rw [encodeChars_append, List.length_append]
  exact Nat.le_add_right _ _

theorem position_of_head {o : Nat} (hlen : content.length < 2147483648) (hsplit : content.take o = head ++ text)
    (hhead : IsLineHead head) (htext : 10 ∉ text) :
    (getPositionForOffset o content).line.toNat = head.count 10 ∧
      (getPositionForOffset o content).character.toNat = leadUnits text := by
  have hlength := congrArg List.length hsplit
  rw [List.length_take, List.length_append] at hlength
  have hunits := leadUnits_le text
  have hcount : head.count 10 ≤ head.length := List.count_le_length
  rw [getPositionForOffset, hsplit, foldl_countByte hhead htext]
  exact ⟨UInt32.toNat_ofNat_of_lt' (show head.count 10 < 4294967296 by omega),
    UInt32.toNat_ofNat_of_lt' (show leadUnits text < 4294967296 by omega)⟩

/-- The way back from the position of an offset leads to the next boundary. -/
theorem isLeast_offset (hvalid : IsValidUtf8 content) (hlen : content.length < 2147483648) {o : Nat}
    (ho : o ≤ content.length) :
    ∃ b, IsLeast {b | IsBoundary content b ∧ o ≤ b} b ∧
      getOffsetForPosition (getPositionForOffset o content) content = b := by
  obtain ⟨head, text, hsplit, hhead, htext⟩ := exists_isLineHead (content.take o)
  have hcontent : content = head ++ (text ++ content.drop o) := by
    rw [← List.append_assoc, ← hsplit, List.take_append_drop]
  have hsize : (head ++ text).length = o := by
    rw [← hsplit, List.length_take_of_le ho]
  have hposition := position_of_head hlen hsplit hhead htext
  generalize content.drop o = behind at hcontent
  subst hcontent
  have hwalk := walk_back_le_iff hvalid hhead
  have hoffset : getOffsetForPosition (getPositionForOffset o (head ++ (text ++ behind))) (head ++ (text ++ behind)) =
      toInt (head.length + walk scanSubtract (text ++ behind) false (leadUnits text)) := by
    rw [getOffsetForPosition, hposition.1, hposition.2, skipLines_head hhead, List.drop_left]
  generalize walk scanSubtract (text ++ behind) false (leadUnits text) = w at hwalk hoffset
  obtain ⟨b, hb, hlo, hhi⟩ := (hwalk w).mp (Nat.le_refl w)
  rw [hsize] at hlo hwalk
  have hleast : ∀ b', IsBoundary (head ++ (text ++ behind)) b' → o ≤ b' → head.length + w ≤ b' := by
    intro b' hb' hlo'
    have hle := (hwalk (b' - head.length)).mpr ⟨b', hb', hlo', by omega⟩
    rw [List.length_append] at hsize
    omega
  have heq : b = head.length + w := Nat.le_antisymm hhi (hleast b hb hlo)
  have hbound := le_of_isBoundary hb
  refine ⟨b, ⟨⟨hb, hlo⟩, fun b' hb' => heq ▸ hleast b' hb'.1 hb'.2⟩, ?_⟩
  rw [hoffset, heq, toInt_of_lt (by omega)]

/-- The position of a later boundary is greater. -/
theorem less_of_boundary_lt (hvalid : IsValidUtf8 content) (hlen : content.length < 2147483648) {o o' : Nat}
    (ho : IsBoundary content o) (hlt : o < o') (ho' : o' ≤ content.length) :
    (getPositionForOffset o content).less (getPositionForOffset o' content) = true := by
  have hbegins := ((isBoundary_iff hvalid o).mp ho).resolve_left (by omega)
  obtain ⟨c, hc, hbegins⟩ := hbegins
  obtain ⟨hi, rfl⟩ := List.getElem?_eq_some_iff.mp hc
  obtain ⟨head, text, hsplit, hhead, htext⟩ := exists_isLineHead (content.take o)
  obtain ⟨middle, hmiddle⟩ : ∃ middle, content.take o' = content.take o ++ content[o] :: middle := by
    refine ⟨(content.drop (o + 1)).take (o' - (o + 1)), ?_⟩
    obtain ⟨k, rfl⟩ := Nat.exists_eq_add_of_lt hlt
    rw [Nat.add_assoc, List.take_add, List.drop_eq_getElem_cons hi, List.take_succ_cons]
    congr 3
    omega
  have hbefore := position_of_head hlen hsplit hhead htext
  rw [LsPosition.less_iff, hbefore.1, hbefore.2]
  by_cases hmem : 10 ∈ content[o] :: middle
  · left
    obtain ⟨head', text', hsplit', hhead', htext'⟩ := exists_isLineHead (content.take o')
    have hlines : (content.take o').count 10 = head'.count 10 := by
      rw [hsplit', List.count_append, List.count_eq_zero.mpr htext', Nat.add_zero]
    rw [(position_of_head hlen hsplit' hhead' htext').1, ← hlines, hmiddle, hsplit, List.count_append,
      List.count_append]
    have hpos := List.count_pos_iff.mpr hmem
    omega
  · right
    have hsplit' : content.take o' = head ++ (text ++ content[o] :: middle) := by
      rw [hmiddle, hsplit, List.append_assoc]
    have htext' : 10 ∉ text ++ content[o] :: middle := fun h => (List.mem_append.mp h).elim htext hmem
    have hafter := position_of_head hlen hsplit' hhead htext'
    have hpos := units_pos content[o]
    rw [hafter.1, hafter.2, leadUnits_append, leadUnits_cons, hbegins, if_neg Bool.false_ne_true]
    exact ⟨rfl, by omega⟩

end RoundTrip

/-- **UTF-16 positions and offsets are inverse** in a text of characters of less than 2 GiB: the way from an offset to
its position and back leads to the least boundary from the offset on, which is the offset itself where it is one; and
the positions of the boundaries are different and in their order. -/
theorem position_offset_inverse {content : Bytes} (hvalid : IsValidUtf8 content) (hlen : content.length < 2147483648) :
    (∀ o ≤ content.length, ∃ b, IsLeast {b | IsBoundary content b ∧ o ≤ b} b ∧
        getOffsetForPosition (getPositionForOffset o content) content = b) ∧
      (∀ o, IsBoundary content o → getOffsetForPosition (getPositionForOffset o content) content = o) ∧
      (∀ o o', IsBoundary content o → IsBoundary content o' →
        getPositionForOffset o content = getPositionForOffset o' content → o = o') ∧
      ∀ o o', IsBoundary content o → IsBoundary content o' → o < o' →
        (getPositionForOffset o content).less (getPositionForOffset o' content) = true := by
  have hback : ∀ o, IsBoundary content o → getOffsetForPosition (getPositionForOffset o content) content = o := by
    intro o ho
    obtain ⟨b, hleast, hoffset⟩ := isLeast_offset hvalid hlen (le_of_isBoundary ho)
    rw [hoffset, Nat.le_antisymm (hleast.2 ⟨ho, Nat.le_refl o⟩) hleast.1.2]
  refine ⟨fun o ho => isLeast_offset hvalid hlen ho, hback, fun o o' ho ho' heq => ?_, fun o o' ho ho' hlt => ?_⟩
  · have h := hback o ho
    rw [heq, hback o' ho'] at h
    exact (Int.ofNat_inj.mp h).symm
  · exact less_of_boundary_lt hvalid hlen ho hlt (le_of_isBoundary ho')

/-- A letter of two bytes, a character that counts as two units, and a second line. -/
def mixedText : Bytes := encodeChars ['ö', '𝄞', '\n', 'a']

theorem position_offset_inverse_mixedText :
    mixedText.length < 2147483648 ∧ getPositionForOffset 1 mixedText = ⟨0, 1⟩ ∧
      ∃ b, IsLeast {b | IsBoundary mixedText b ∧ 1 ≤ b} b ∧
        getOffsetForPosition (getPositionForOffset 1 mixedText) mixedText = b := by
  have hlen : mixedText.length < 2147483648 := by decide
  exact ⟨hlen, by decide, (position_offset_inverse ⟨_, rfl⟩ hlen).1 1 (by decide)⟩

end LspCpp

import LspCpp.MarkupText

/-! Which texts open a block of markdown in spite of the escapes. A backslash goes in front of the first byte of most
of what would: the texts that are left begin unescaped, and consist of one construct alone. -/

namespace LspCpp

open StringRef

namespace Markdown

def isAtxHeading (line : Bytes) : Bool :=
  let level := (line.takeWhile (· == 35)).length
  let rest := line.dropWhile (· == 35)
  1 ≤ level && level ≤ 6 && (rest.isEmpty || startWith [32] rest)

def isBulletItem : Bytes → Bool
  | [] => false
  | c :: rest => (c == 45 || c == 43 || c == 42) && (rest.isEmpty || startWith [32] rest)

def isBlockQuote (line : Bytes) : Bool := startWith [62] line

def isCodeFence (line : Bytes) : Bool := startWith [96, 96, 96] line || startWith [126, 126, 126] line

def isOrderedItem (line : Bytes) : Bool :=
  let rest := line.dropWhile isDigit
  !(line.takeWhile isDigit).isEmpty && (startWith [46, 32] rest || startWith [41, 32] rest)

def isThematicBreakOf (c : UInt8) (line : Bytes) : Bool := line.all (fun d => d == c || d == 32) && 3 ≤ line.count c

def isThematicBreak (line : Bytes) : Bool :=
  isThematicBreakOf 45 line || isThematicBreakOf 95 line || isThematicBreakOf 42 line

def isSetextUnderline (line : Bytes) : Bool := !line.isEmpty && (line.all (· == 61) || line.all (· == 45))

/-- The line begins a block other than a paragraph, or makes a heading of the line before it. -/
def opensBlock (line : Bytes) : Bool :=
  isAtxHeading line || isBulletItem line || isBlockQuote line || isCodeFence line || isOrderedItem line ||
    isThematicBreak line || isSetextUnderline line

end Markdown

open Markdown

/-- Words without white space, one space apart. -/
def CanonicalSpaces (text : Bytes) : Prop :=
  ∃ words : List Bytes, (∀ w ∈ words, w ≠ [] ∧ ∀ c ∈ w, isSpace c = false) ∧ text = [32].intercalate words

namespace CanonicalSpaces

variable {text : Bytes}

theorem of_all (words : List Bytes) (h : (words.all fun w => !w.isEmpty && w.all fun c => !isSpace c) = true) :
    CanonicalSpaces ([32].intercalate words) := by
  refine ⟨words, fun w hw => ?_, rfl⟩
  have hword := List.all_eq_true.mp h w hw
  rw [Bool.and_eq_true, List.all_eq_true] at hword
  exact ⟨by simpa using hword.1, fun c hc => by simpa using hword.2 c hc⟩

theorem head_not_space (h : CanonicalSpaces text) {c : UInt8} (hc : text.head? = some c) : isSpace c = false := by
  obtain ⟨words, hwords, rfl⟩ := h
  cases words with
  | nil => simp [List.intercalate_nil] at hc
  | cons w rest =>
      obtain ⟨hne, hw⟩ := hwords w (List.mem_cons_self ..)
      obtain ⟨d, w, rfl⟩ := List.exists_cons_of_ne_nil hne
      have hd : ([32].intercalate ((d :: w) :: rest)).head? = some d := by
        cases rest with
        | nil => rw [List.intercalate_singleton]; rfl
        | cons v rest => rw [List.intercalate_cons_cons]; rfl
      rw [← Option.some.inj (hd.symm.trans hc)]
      exact hw d (List.mem_cons_self ..)

theorem getLast_not_space (h : CanonicalSpaces text) {c : UInt8} (hc : text.getLast? = some c) : isSpace c = false := by
  obtain ⟨words, hwords, rfl⟩ := h
  induction words with
  | nil => simp [List.intercalate_nil] at hc
  | cons w rest ih =>
      obtain ⟨hne, hw⟩ := hwords w (List.mem_cons_self ..)
      by_cases hrest : rest = []
      · rw [hrest, List.intercalate_singleton] at hc
        exact hw c (List.mem_of_getLast? hc)
      · have htail : [32].intercalate rest ≠ [] := by
          obtain ⟨v, rest, rfl⟩ := List.exists_cons_of_ne_nil hrest
          obtain ⟨d, v, rfl⟩ := List.exists_cons_of_ne_nil (hwords v (by simp)).1
          cases rest <;> simp [List.intercalate_cons_cons]
        rw [List.intercalate_cons_of_ne_nil hrest, List.getLast?_append_of_ne_nil _ htail] at hc
        exact ih (fun v hv => hwords v (List.mem_cons_of_mem _ hv)) hc

end CanonicalSpaces

/-- A beginning of what is written that has no backslash is a beginning of the text, none of it escaped. -/
theorem escaped_split {startsLine : Bool} {before text tail : Bytes} (start : Bytes)
    (h : escaped startsLine before text = start ++ tail) (hstart : 92 ∉ start) :
    ∃ rest, text = start ++ rest ∧ tail = escaped startsLine (before ++ start) rest ∧
      ∀ left c right, start = left ++ c :: right →
        ¬needsLeadingEscape c (before ++ left) (right ++ rest) startsLine = true := by
  induction start generalizing before text with
  | nil => exact ⟨text, rfl, by rw [List.append_nil]; exact h.symm, by simp⟩
  | cons c start ih =>
      cases text with
      | nil => simp [escaped] at h
      | cons d text =>
          rw [escaped, List.cons_append] at h
          split at h
          · exact absurd (List.cons.inj h).1 fun heq => hstart (heq ▸ List.mem_cons_self ..)
          · rename_i hplain
            obtain ⟨rfl, hrest⟩ := List.cons.inj h
            obtain ⟨rest, rfl, htail, hnone⟩ := ih hrest fun hmem => hstart (List.mem_cons_of_mem _ hmem)
            refine ⟨rest, rfl, by rw [htail, List.append_assoc]; rfl, fun left e right heq => ?_⟩
            cases left with
            | nil =>
                obtain ⟨rfl, rfl⟩ := List.cons.inj heq
                simpa using hplain
            | cons f left =>
                obtain ⟨rfl, hright⟩ := List.cons.inj heq
                simpa using hnone left e right hright

/-- The same for a beginning of one byte. -/
theorem escaped_eq_cons {text tail : Bytes} {c : UInt8} (h : escaped true [] text = c :: tail) (hc : c ≠ 92) :
    ∃ rest, text = c :: rest ∧ tail = escaped true [c] rest ∧ ¬needsLeadingEscape c [] rest true = true := by
  obtain ⟨rest, htext, htail, hnone⟩ := escaped_split [c] h (by simpa using hc.symm)
  exact ⟨rest, htext, htail, hnone [] c [] rfl⟩

theorem escaped_eq_nil {startsLine : Bool} {before text : Bytes} (h : escaped startsLine before text = []) :
    text = [] := by
  cases text with
  | nil => rfl
  | cons c text =>
      rw [escaped] at h
      split at h <;> cases h

/-- A line without backslashes is the text itself. -/
theorem escaped_eq_self {text : Bytes} (h : 92 ∉ escaped true [] text) : escaped true [] text = text ∧
    ∀ left c right, text = left ++ c :: right → ¬needsLeadingEscape c left right true = true := by
  obtain ⟨rest, htext, htail, hnone⟩ := escaped_split _ (List.append_nil _).symm h
  have hrest : rest = [] := escaped_eq_nil htail.symm
  rw [hrest, List.append_nil] at htext
  refine ⟨htext.symm, fun left c right heq => ?_⟩
  have hplain := hnone left c right (htext.symm.trans heq)
  rwa [hrest, List.append_nil, List.nil_append] at hplain

theorem startWith_singleton {c : UInt8} {text : Bytes} : startWith [c] text = true ↔ ∃ rest, text = c :: rest := by
  rw [startWith, List.isPrefixOf_iff_prefix]
  exact ⟨fun ⟨rest, h⟩ => ⟨rest, h.symm⟩, fun ⟨rest, h⟩ => ⟨rest, h.symm⟩⟩

theorem isBlockQuote_escaped (text : Bytes) : isBlockQuote (escaped true [] text) = false := by
  by_contra hquote
  obtain ⟨tail, hline⟩ := startWith_singleton.mp (Bool.of_not_eq_false hquote)
  obtain ⟨rest, _, _, hplain⟩ := escaped_eq_cons hline (by decide)
  have hescaped : needsLeadingEscape 62 [] rest true = true := rfl
  exact hplain hescaped

theorem isCodeFence_escaped (text : Bytes) : isCodeFence (escaped true [] text) = false := by
  by_contra hfence
  have hfence := Bool.of_not_eq_false hfence
  rw [isCodeFence, Bool.or_eq_true, startWith, startWith, List.isPrefixOf_iff_prefix, List.isPrefixOf_iff_prefix]
    at hfence
  rcases hfence with ⟨tail, hline⟩ | ⟨tail, hline⟩
  · obtain ⟨rest, _, _, hplain⟩ := escaped_eq_cons hline.symm (by decide)
    have hescaped : needsLeadingEscape 96 [] rest true = true := rfl
    exact hplain hescaped
  · obtain ⟨rest, _, _, hplain⟩ := escaped_split _ hline.symm (by decide)
    have hescaped : needsLeadingEscape 126 [] (126 :: 126 :: rest) true = true := rfl
    exact hplain [] 126 [126, 126] rfl hescaped

/-- The text is empty or begins with a space. -/
def AtSpace (text : Bytes) : Prop := text = [] ∨ ∃ rest, text = 32 :: rest

theorem AtSpace.trimRight {text : Bytes} (h : AtSpace text) : AtSpace (trimRight 32 text) := by
  rcases h with rfl | ⟨rest, rfl⟩
  · exact Or.inl rfl
  · have hprefix : StringRef.trimRight 32 (32 :: rest) <+: 32 :: rest := List.rdropWhile_prefix _ _
    rcases List.prefix_cons_iff.mp hprefix with hnil | ⟨r, hr, _⟩
    · exact Or.inl hnil
    · exact Or.inr ⟨r, hr⟩

/-- In front of nothing or of a space stands a ruler of one byte at most. -/
theorem rulerLength_atSpace {c : UInt8} (hc : c ≠ 32) {after : Bytes} (h : AtSpace after) (before : Bytes)
    (startsLine : Bool) : (rulerLength c before after startsLine).1 ≤ 1 ∧
      AtSpace (rulerLength c before after startsLine).2 := by
  rw [rulerLength]
  split
  · exact ⟨Nat.zero_le 1, h⟩
  · refine ⟨?_, h.trimRight⟩
    rcases h.trimRight with hnil | ⟨r, hr⟩
    · simp [hnil]
    · simp [hr, hc]

theorem isBullet_atSpace {after : Bytes} (h : AtSpace after) : isBullet [] after true = true := by
  rcases h with rfl | ⟨rest, rfl⟩ <;> rfl

/-- A bullet in front of nothing or of a space is escaped. -/
theorem needsLeadingEscape_bullet {c : UInt8} (hc : c = 45 ∨ c = 43 ∨ c = 42) {after : Bytes} (h : AtSpace after) :
    needsLeadingEscape c [] after true = true := by
  rcases hc with rfl | rfl | rfl
  · have hbullet := isBullet_atSpace (rulerLength_atSpace (c := 45) (by decide) h [] true).2
    simp only [needsLeadingEscape, hbullet, Bool.or_true]
  · exact isBullet_atSpace h
  · simp only [needsLeadingEscape, isBullet_atSpace h, Bool.true_or]

theorem isBulletItem_escaped (text : Bytes) : isBulletItem (escaped true [] text) = false := by
  by_contra hbullet
  cases hline : escaped true [] text with
  | nil => exact hbullet (by rw [hline]; rfl)
  | cons c tail =>
      rw [hline, Bool.not_eq_false, isBulletItem, Bool.and_eq_true, Bool.or_eq_true, Bool.or_eq_true,
        Bool.or_eq_true, List.isEmpty_iff, startWith_singleton, beq_iff_eq, beq_iff_eq, beq_iff_eq, or_assoc] at hbullet
      obtain ⟨hc, htail⟩ := hbullet
      have hslash : c ≠ 92 := by rcases hc with rfl | rfl | rfl <;> decide
      obtain ⟨rest, _, hrest, hplain⟩ := escaped_eq_cons hline hslash
      have hafter : AtSpace rest := by
        rcases htail with htail | ⟨r, htail⟩
        · exact Or.inl (escaped_eq_nil (hrest.symm.trans htail))
        · obtain ⟨r, hr, _⟩ := escaped_split [32] (hrest.symm.trans htail) (by decide)
          exact Or.inr ⟨r, hr⟩
      exact hplain (needsLeadingEscape_bullet hc hafter)

/-- The byte behind the digits is escaped: digits stand before it and a space after it. -/
theorem escaped_ne_orderedItem {text digits tail : Bytes} (hne : digits ≠ []) (hdigits : digits.all isDigit = true)
    {mark : UInt8} (hmark : mark = 46 ∨ mark = 41) : escaped true [] text ≠ digits ++ [mark, 32] ++ tail := by
  intro hline
  have hslash : 92 ∉ digits := fun hmem => absurd (List.all_eq_true.mp hdigits 92 hmem) (by decide)
  have hnone : 92 ∉ digits ++ [mark, 32] := by
    rcases hmark with rfl | rfl <;> simp [hslash]
  obtain ⟨rest, _, _, hplain⟩ := escaped_split _ hline hnone
  have hescaped : needsLeadingEscape mark digits ([32] ++ rest) true = true := by
    rcases hmark with rfl | rfl <;> simp [needsLeadingEscape, hdigits, hne, startWith]
  exact hplain digits mark [32] rfl hescaped

theorem isOrderedItem_escaped (text : Bytes) : isOrderedItem (escaped true [] text) = false := by
  by_contra hitem
  have hitem := Bool.of_not_eq_false hitem
  rw [isOrderedItem, Bool.and_eq_true, Bool.or_eq_true, startWith, startWith, List.isPrefixOf_iff_prefix,
    List.isPrefixOf_iff_prefix] at hitem
  obtain ⟨hne, hmark⟩ := hitem
  have hdigits : ((escaped true [] text).takeWhile isDigit).all isDigit = true := List.all_takeWhile
  have hnonempty : (escaped true [] text).takeWhile isDigit ≠ [] := by simpa using hne
  have hline : escaped true [] text =
      (escaped true [] text).takeWhile isDigit ++ (escaped true [] text).dropWhile isDigit :=
    List.takeWhile_append_dropWhile.symm
  rcases hmark with ⟨tail, htail⟩ | ⟨tail, htail⟩
  · rw [← htail, ← List.append_assoc] at hline
    exact escaped_ne_orderedItem hnonempty hdigits (Or.inl rfl) hline
  · rw [← htail, ← List.append_assoc] at hline
    exact escaped_ne_orderedItem hnonempty hdigits (Or.inr rfl) hline

/-! ### Constructs that are escaped in part -/

theorem eq_replicate_of_all {c : UInt8} {line : Bytes} (hne : line ≠ []) (hall : (line.all (· == c)) = true) :
    ∃ n, line = List.replicate (n + 1) c := by
  have hline : line = List.replicate line.length c :=
    List.eq_replicate_of_mem fun d hd => beq_iff_eq.mp (List.all_eq_true.mp hall d hd)
  obtain ⟨n, hn⟩ := Nat.exists_eq_succ_of_ne_zero (mt List.length_eq_zero_iff.mp hne)
  rw [hn] at hline
  exact ⟨n, hline⟩

/-- The first of some hashes in front of a space is escaped. -/
theorem needsLeadingEscape_hash (m : Nat) (rest : Bytes) :
    needsLeadingEscape 35 [] (List.replicate m 35 ++ 32 :: rest) true = true := by
  have htrim : trimLeft 35 (List.replicate m 35 ++ 32 :: rest) = 32 :: rest := by
    have hnot : (List.replicate m (35 : UInt8) ++ 32 :: rest).all (· == 35) = false := by simp
    rw [trimLeft, hnot, if_neg (by decide), List.dropWhile_append_of_pos]
    · rfl
    · intro c hc
      exact beq_iff_eq.mpr (List.eq_of_mem_replicate hc)
  simp [needsLeadingEscape, htrim, startWith]

/-- Hashes are escaped in front of a space, and one hash at the end of the line. -/
theorem isAtxHeading_escaped {text : Bytes} (h : isAtxHeading (escaped true [] text) = true) :
    ∃ n, 2 ≤ n ∧ n ≤ 6 ∧ text = List.replicate n 35 := by
  rw [isAtxHeading, Bool.and_eq_true, Bool.and_eq_true, decide_eq_true_iff, decide_eq_true_iff, Bool.or_eq_true,
    List.isEmpty_iff, startWith_singleton] at h
  obtain ⟨⟨hone, hsix⟩, hrest⟩ := h
  have hall : ((escaped true [] text).takeWhile (· == 35)).all (· == 35) = true := List.all_takeWhile
  have hline : (escaped true [] text).takeWhile (· == 35) ++ (escaped true [] text).dropWhile (· == 35) =
    escaped true [] text := List.takeWhile_append_dropWhile
  generalize (escaped true [] text).takeWhile (· == 35) = hashes at hone hsix hall hline
  generalize (escaped true [] text).dropWhile (· == 35) = tail at hrest hline
  obtain ⟨m, rfl⟩ := eq_replicate_of_all (List.length_pos_iff.mp hone) hall
  rw [List.length_replicate] at hsix
  have hslash : 92 ∉ List.replicate (m + 1) (35 : UInt8) :=
    fun hmem => absurd (List.eq_of_mem_replicate hmem) (by decide)
  obtain ⟨rest, rfl, htail, hplain⟩ := escaped_split _ hline.symm hslash
  have hplain := hplain [] 35 (List.replicate m 35) rfl
  rcases hrest with rfl | ⟨r, rfl⟩
  · rw [escaped_eq_nil htail.symm, List.append_nil] at hplain ⊢
    refine ⟨m + 1, ?_, hsix, rfl⟩
    rcases Nat.eq_zero_or_pos m with rfl | hpos
    · exact absurd rfl hplain
    · omega
  · obtain ⟨r', rfl, _⟩ := escaped_split [32] htail.symm (by decide)
    exact absurd (needsLeadingEscape_hash m r') hplain

/-- A line of one byte alone is a ruler as long as it is. -/
theorem rulerLength_replicate {c : UInt8} (hc : c ≠ 32) {n : Nat} (hn : n + 1 < 4294967296) :
    (rulerLength c [] (List.replicate n c) true).1 = n + 1 := by
  have htrim : trimRight 32 (List.replicate n c) = List.replicate n c := by
    apply trimRight_eq_self
    intro hlast
    exact hc (List.eq_of_mem_replicate (List.mem_of_getLast? hlast)).symm
  simp only [rulerLength, htrim]
  simp
  omega

/-- The first byte of an underline is escaped. -/
theorem escaped_ne_underline {text : Bytes} (hlength : text.length < 4294967296) {c : UInt8} (hc : c = 61 ∨ c = 45)
    {n : Nat} : escaped true [] text ≠ List.replicate (n + 1) c := by
  intro hline
  have hslash : 92 ∉ escaped true [] text := by
    rw [hline]
    intro hmem
    rcases hc with rfl | rfl <;> exact absurd (List.eq_of_mem_replicate hmem) (by decide)
  obtain ⟨hself, hplain⟩ := escaped_eq_self hslash
  rw [hself] at hline
  rw [hline, List.length_replicate] at hlength
  have hlong : 0 < (rulerLength c [] (List.replicate n c) true).1 := by
    rw [rulerLength_replicate (by rcases hc with rfl | rfl <;> decide) hlength]
    omega
  have hplain := hplain [] c (List.replicate n c) hline
  rcases hc with rfl | rfl
  · exact hplain (by simp [needsLeadingEscape, hlong])
  · exact hplain (by simp [needsLeadingEscape, hlong])

/-- An underline of a heading is escaped. -/
theorem isSetextUnderline_escaped {text : Bytes} (hlength : text.length < 4294967296) :
    isSetextUnderline (escaped true [] text) = false := by
  by_contra hline
  have hline := Bool.of_not_eq_false hline
  rw [isSetextUnderline, Bool.and_eq_true, Bool.or_eq_true] at hline
  obtain ⟨hempty, hall⟩ := hline
  have hne : escaped true [] text ≠ [] := by simpa using hempty
  rcases hall with hall | hall
  · obtain ⟨n, hn⟩ := eq_replicate_of_all hne hall
    exact escaped_ne_underline hlength (Or.inl rfl) hn
  · obtain ⟨n, hn⟩ := eq_replicate_of_all hne hall
    exact escaped_ne_underline hlength (Or.inr rfl) hn

theorem head?_rulerLength {d : UInt8} (hd : d ≠ 32) (c : UInt8) (before rest : Bytes) (startsLine : Bool) :
    (rulerLength c before (d :: rest) startsLine).2.head? = some d := by
  rw [rulerLength]
  split
  · rfl
  · obtain ⟨rest', hrest⟩ := trimRight_append_cons hd [] rest
    rw [List.nil_append] at hrest
    rw [hrest]
    rfl

/-- A delimiter in front of punctuation is escaped. -/
theorem needsLeadingEscape_delimiter {c : UInt8} (hc : c = 95 ∨ c = 42) {d : UInt8} (hspace : isSpace d = false)
    (halnum : isAlnum d = false) (before rest : Bytes) : needsLeadingEscape c before (d :: rest) true = true := by
  have hd : d ≠ 32 := by
    rintro rfl
    exact absurd hspace (by decide)
  have hhead := head?_rulerLength hd c before rest true
  rcases hc with rfl | rfl
  · simp [needsLeadingEscape, spaceSurrounds, wordSurrounds, hhead, hspace, halnum]
  · simp [needsLeadingEscape, spaceSurrounds, hhead, hspace]

theorem isThematicBreakOf_iff {c : UInt8} {line : Bytes} :
    isThematicBreakOf c line = true ↔ (∀ d ∈ line, d = c ∨ d = 32) ∧ 3 ≤ line.count c := by
  simp only [isThematicBreakOf, Bool.and_eq_true, decide_eq_true_iff, List.all_eq_true, Bool.or_eq_true, beq_iff_eq]

/-- A thematic break that is written is the text itself. -/
theorem isThematicBreakOf_escaped {c : UInt8} (hc : c ≠ 92) {text : Bytes}
    (h : isThematicBreakOf c (escaped true [] text) = true) :
    (∀ d ∈ text, d = c ∨ d = 32) ∧ 3 ≤ text.count c ∧
      ∀ left d right, text = left ++ d :: right → ¬needsLeadingEscape d left right true = true := by
  obtain ⟨hall, hcount⟩ := isThematicBreakOf_iff.mp h
  have hslash : 92 ∉ escaped true [] text := by
    intro hmem
    rcases hall 92 hmem with heq | heq
    · exact hc heq.symm
    · exact absurd heq (by decide)
  obtain ⟨hself, hplain⟩ := escaped_eq_self hslash
  rw [hself] at hall hcount
  exact ⟨hall, hcount, hplain⟩

/-- The first byte of a break in canonical form is not a space. -/
theorem CanonicalSpaces.break_eq_cons {text : Bytes} (hs : CanonicalSpaces text) {c : UInt8}
    (hall : ∀ d ∈ text, d = c ∨ d = 32) (hcount : 3 ≤ text.count c) : ∃ rest, text = c :: rest := by
  cases text with
  | nil => simp at hcount
  | cons d rest =>
      rcases hall d (List.mem_cons_self ..) with rfl | rfl
      · exact ⟨rest, rfl⟩
      · exact absurd (hs.head_not_space rfl) (by decide)

theorem cons_of_not_atSpace {text : Bytes} (h : ¬ AtSpace text) {c : UInt8} (hall : ∀ d ∈ text, d = c ∨ d = 32) :
    ∃ rest, text = c :: rest := by
  cases text with
  | nil => exact absurd (Or.inl rfl) h
  | cons d rest =>
      rcases hall d (List.mem_cons_self ..) with rfl | rfl
      · exact ⟨rest, rfl⟩
      · exact absurd (Or.inr ⟨rest, rfl⟩) h

theorem thematicBreak_dash {text : Bytes} (hs : CanonicalSpaces text) (hlength : text.length < 4294967296)
    (h : isThematicBreakOf 45 (escaped true [] text) = true) :
    ∃ rest, text = 45 :: 45 :: rest ∧ 32 ∈ rest ∧ ∀ c ∈ rest, c = 45 ∨ c = 32 := by
  obtain ⟨hall, hcount, hplain⟩ := isThematicBreakOf_escaped (by decide) h
  obtain ⟨rest, rfl⟩ := hs.break_eq_cons hall hcount
  have hplain := hplain [] 45 rest rfl
  have hrest : ∀ d ∈ rest, d = 45 ∨ d = 32 := fun d hd => hall d (List.mem_cons_of_mem _ hd)
  have hnot : ¬ AtSpace rest := fun hspace =>
    hplain (needsLeadingEscape_bullet (Or.inl rfl) hspace)
  obtain ⟨rest, rfl⟩ := cons_of_not_atSpace hnot hrest
  refine ⟨rest, rfl, ?_, fun c hc => hrest c (List.mem_cons_of_mem _ hc)⟩
  by_contra hmem
  have hdashes : ∀ d ∈ 45 :: rest, d = 45 := by
    intro d hd
    rcases hrest d hd with heq | rfl
    · exact heq
    · rcases List.mem_cons.mp hd with heq | hd
      · exact heq
      · exact absurd hd hmem
  have hreplicate : 45 :: rest = List.replicate (rest.length + 1) 45 := List.eq_replicate_of_mem hdashes
  have hlong : 0 < (rulerLength 45 [] (45 :: rest) true).1 := by
    rw [hreplicate, rulerLength_replicate (by decide) (by simpa using hlength)]
    omega
  exact hplain (by simp [needsLeadingEscape, hlong])

theorem thematicBreak_star {text : Bytes} (hs : CanonicalSpaces text) :
    isThematicBreakOf 42 (escaped true [] text) = false := by
  by_contra h
  obtain ⟨hall, hcount, hplain⟩ := isThematicBreakOf_escaped (by decide) (Bool.of_not_eq_false h)
  obtain ⟨rest, rfl⟩ := hs.break_eq_cons hall hcount
  have hplain := hplain [] 42 rest rfl
  by_cases hspace : AtSpace rest
  · exact hplain (needsLeadingEscape_bullet (Or.inr (Or.inr rfl)) hspace)
  · obtain ⟨rest, rfl⟩ := cons_of_not_atSpace hspace fun d hd => hall d (List.mem_cons_of_mem _ hd)
    have hescaped := needsLeadingEscape_delimiter (c := 42) (d := 42) (Or.inr rfl) (by decide) (by decide) [] rest
    exact hplain hescaped

/-- `n` underscores, one space apart. -/
def underscores (n : Nat) : Bytes := [32].intercalate (List.replicate n [95])

theorem underscores_succ_succ (n : Nat) : underscores (n + 2) = 95 :: 32 :: underscores (n + 1) := by
  rw [underscores, underscores, List.replicate_succ, List.replicate_succ, List.intercalate_cons_cons]
  rfl

theorem count_underscores (n : Nat) : (underscores n).count 95 = n := by
  induction n with
  | zero => rfl
  | succ n ih =>
      cases n with
      | zero => rfl
      | succ n => rw [underscores_succ_succ, List.count_cons_self, List.count_cons_of_ne (by decide), ih]

theorem mem_underscores (n : Nat) : ∀ c ∈ underscores n, c = 95 ∨ c = 32 := by
  induction n with
  | zero => intro c hc; cases hc
  | succ n ih =>
      cases n with
      | zero => intro c hc; exact Or.inl (List.mem_singleton.mp hc)
      | succ n =>
          intro c hc
          rw [underscores_succ_succ, List.mem_cons, List.mem_cons] at hc
          rcases hc with rfl | rfl | hc
          · exact Or.inl rfl
          · exact Or.inr rfl
          · exact ih c hc

theorem infix_intercalate {words : List Bytes} {w : Bytes} (hw : w ∈ words) : w <:+: [32].intercalate words := by
  induction words with
  | nil => cases hw
  | cons v rest ih =>
      by_cases hrest : rest = []
      · subst hrest
        rw [List.mem_singleton.mp hw, List.intercalate_singleton]
      · rw [List.intercalate_cons_of_ne_nil hrest]
        rcases List.mem_cons.mp hw with rfl | hw
        · exact ⟨[], [32] ++ [32].intercalate rest, by simp⟩
        · exact (ih hw).trans ⟨v ++ [32], [], by simp⟩

theorem thematicBreak_underscore {text : Bytes} (hs : CanonicalSpaces text)
    (h : isThematicBreakOf 95 (escaped true [] text) = true) : ∃ n, 3 ≤ n ∧ text = underscores n := by
  obtain ⟨hall, hcount, hplain⟩ := isThematicBreakOf_escaped (by decide) h
  obtain ⟨words, hwords, rfl⟩ := hs
  have hsingle : ∀ w ∈ words, w = [95] := by
    intro w hw
    obtain ⟨hne, hletters⟩ := hwords w hw
    have hin := infix_intercalate hw
    have hbytes : ∀ d ∈ w, d = 95 := by
      intro d hd
      rcases hall d (hin.subset hd) with heq | rfl
      · exact heq
      · exact absurd (hletters 32 hd) (by decide)
    obtain ⟨d, rest, rfl⟩ := List.exists_cons_of_ne_nil hne
    obtain rfl := hbytes d (List.mem_cons_self ..)
    cases rest with
    | nil => rfl
    | cons e rest =>
        obtain rfl := hbytes e (by simp)
        obtain ⟨left, right, heq⟩ := hin
        have hnone := hplain left 95 (95 :: rest ++ right) (by rw [← heq]; simp)
        have hescaped := needsLeadingEscape_delimiter (c := 95) (d := 95) (Or.inl rfl) (by decide) (by decide) left
          (rest ++ right)
        exact absurd hescaped hnone
  have htext : words = List.replicate words.length [95] := List.eq_replicate_of_mem hsingle
  have hunder : [32].intercalate words = underscores words.length := by
    rw [underscores, ← htext]
  rw [hunder, count_underscores] at hcount
  exact ⟨words.length, hcount, hunder⟩

/-! ### The texts that open a block -/

/-- Two to six hashes alone, three or more single underscores, or dashes of which two come first and with a space among
the others. -/
def OpensUnescaped (text : Bytes) : Prop :=
  (∃ n, 2 ≤ n ∧ n ≤ 6 ∧ text = List.replicate n 35) ∨
    (∃ n, 3 ≤ n ∧ text = underscores n) ∨
    ∃ rest, text = 45 :: 45 :: rest ∧ 32 ∈ rest ∧ ∀ c ∈ rest, c = 45 ∨ c = 32

/-- A single underscore is not taken for a delimiter. -/
theorem needsLeadingEscape_underscore {before after : Bytes} (hbefore : before.getLast?.all isSpace = true)
    (hafter : AtSpace after) : needsLeadingEscape 95 before after true = false := by
  obtain ⟨hshort, hspace⟩ := rulerLength_atSpace (c := 95) (by decide) hafter before true
  have hhead : (rulerLength 95 before after true).2.head?.all isSpace = true := by
    rcases hspace with heq | ⟨rest, heq⟩ <;> rw [heq] <;> rfl
  have hlength : ¬ 3 ≤ (rulerLength 95 before after true).1 := by omega
  simp [needsLeadingEscape, hlength, spaceSurrounds, hhead, hbefore]

theorem escaped_underscores (n : Nat) {before : Bytes} (hbefore : before.getLast?.all isSpace = true) :
    escaped true before (underscores n) = underscores n := by
  induction n generalizing before with
  | zero => rfl
  | succ n ih =>
      cases n with
      | zero =>
          have hplain := needsLeadingEscape_underscore hbefore (Or.inl rfl)
          have hone : underscores 1 = [95] := rfl
          rw [hone, escaped, hplain]
          rfl
      | succ n =>
          have hplain := needsLeadingEscape_underscore hbefore (Or.inr ⟨underscores (n + 1), rfl⟩)
          have hspace : needsLeadingEscape 32 (before ++ [95]) (underscores (n + 1)) true = false := rfl
          have hlast : (before ++ [95] ++ [32]).getLast?.all isSpace = true := by simp; decide
          rw [underscores_succ_succ, escaped, hplain, escaped, hspace, if_neg (by decide), if_neg (by decide), ih hlast]

/-- Behind the first byte neither dashes nor spaces are escaped. -/
theorem escaped_dashes {before rest : Bytes} (hbefore : before ≠ []) (hrest : ∀ c ∈ rest, c = 45 ∨ c = 32) :
    escaped true before rest = rest := by
  induction rest generalizing before with
  | nil => rfl
  | cons c rest ih =>
      have hplain : needsLeadingEscape c before rest true = false := by
        have hempty : before.isEmpty = false := by simpa using hbefore
        rcases hrest c (List.mem_cons_self ..) with rfl | rfl
        · simp [needsLeadingEscape, rulerLength, isBullet, hempty]
        · rfl
      rw [escaped, hplain, ih (by simp) fun d hd => hrest d (List.mem_cons_of_mem _ hd)]
      rfl

theorem opensBlock_of_break {c : UInt8} (hc : c = 45 ∨ c = 95) {line : Bytes}
    (h : isThematicBreakOf c line = true) : opensBlock line = true := by
  rcases hc with rfl | rfl <;> simp [opensBlock, isThematicBreak, h]

theorem opensBlock_underscores {n : Nat} (hn : 3 ≤ n) : opensBlock (escaped true [] (underscores n)) = true := by
  rw [escaped_underscores n rfl]
  have hcount : 3 ≤ (underscores n).count 95 := by rwa [count_underscores]
  exact opensBlock_of_break (Or.inr rfl) (isThematicBreakOf_iff.mpr ⟨mem_underscores n, hcount⟩)

/-- A text in canonical form does not end in a space. -/
theorem CanonicalSpaces.ends_in_dash {rest : Bytes} (hs : CanonicalSpaces (45 :: 45 :: rest)) (hspace : 32 ∈ rest)
    (hrest : ∀ c ∈ rest, c = 45 ∨ c = 32) : ∃ start, rest = start ++ [45] := by
  rcases List.eq_nil_or_concat' rest with rfl | ⟨start, d, rfl⟩
  · cases hspace
  · rcases hrest d (by simp) with rfl | rfl
    · exact ⟨start, rfl⟩
    · have hlast : (45 :: 45 :: (start ++ [32])).getLast? = some 32 := by
        rw [← List.cons_append, ← List.cons_append, List.getLast?_concat]
      exact absurd (hs.getLast_not_space hlast) (by decide)

/-- A space among the dashes keeps the first of them from being a ruler, a second dash from being a bullet. -/
theorem needsLeadingEscape_dashes {start : Bytes} (hspace : 32 ∈ start ++ [45]) :
    needsLeadingEscape 45 [] (45 :: (start ++ [45])) true = false := by
  have htrim : trimRight 32 (45 :: (start ++ [45])) = 45 :: (start ++ [45]) := by
    apply trimRight_eq_self
    rw [← List.cons_append, List.getLast?_concat]
    decide
  have hall : ((45 :: (start ++ [45])).all fun d => 45 == d) = false := by
    rw [List.all_eq_false]
    exact ⟨32, List.mem_cons_of_mem _ hspace, by decide⟩
  simp only [needsLeadingEscape, rulerLength, htrim, hall]
  rfl

theorem opensBlock_dashes {rest : Bytes} (hs : CanonicalSpaces (45 :: 45 :: rest)) (hspace : 32 ∈ rest)
    (hrest : ∀ c ∈ rest, c = 45 ∨ c = 32) : opensBlock (escaped true [] (45 :: 45 :: rest)) = true := by
  have hall : ∀ c ∈ 45 :: rest, c = 45 ∨ c = 32 := by
    intro c hc
    rcases List.mem_cons.mp hc with rfl | hc
    · exact Or.inl rfl
    · exact hrest c hc
  have htail : escaped true [45] (45 :: rest) = 45 :: rest := escaped_dashes (List.cons_ne_nil 45 []) hall
  obtain ⟨start, rfl⟩ := hs.ends_in_dash hspace hrest
  have hself : escaped true [] (45 :: 45 :: (start ++ [45])) = 45 :: 45 :: (start ++ [45]) := by
    rw [escaped, needsLeadingEscape_dashes hspace, if_neg (by decide)]
    exact congrArg (List.cons 45) htail
  have hcount : 3 ≤ (45 :: 45 :: (start ++ [45])).count 45 := by
    rw [List.count_cons_self, List.count_cons_self, List.count_append, List.count_singleton_self]
    omega
  rw [hself]
  refine opensBlock_of_break (Or.inl rfl) (isThematicBreakOf_iff.mpr ⟨fun c hc => ?_, hcount⟩)
  rcases List.mem_cons.mp hc with rfl | hc
  · exact Or.inl rfl
  · exact hall c hc

theorem OpensUnescaped.opensBlock {text : Bytes} (hs : CanonicalSpaces text) (h : OpensUnescaped text) :
    opensBlock (escaped true [] text) = true := by
  rcases h with ⟨n, htwo, hsix, rfl⟩ | ⟨n, hthree, rfl⟩ | ⟨rest, rfl, hspace, hrest⟩
  · have hn : n = 2 ∨ n = 3 ∨ n = 4 ∨ n = 5 ∨ n = 6 := by omega
    rcases hn with rfl | rfl | rfl | rfl | rfl <;> decide
  · exact opensBlock_underscores hthree
  · exact opensBlock_dashes hs hspace hrest

theorem opensBlock_escaped_iff {text : Bytes} (hs : CanonicalSpaces text) (hlength : text.length < 4294967296) :
    opensBlock (escaped true [] text) = true ↔ OpensUnescaped text := by
  constructor
  · intro h
    rw [opensBlock, isBulletItem_escaped, isBlockQuote_escaped, isCodeFence_escaped, isOrderedItem_escaped,
      isSetextUnderline_escaped hlength, isThematicBreak, thematicBreak_star hs] at h
    simp only [Bool.or_false, Bool.or_eq_true] at h
    rcases h with h | h | h
    · exact Or.inl (isAtxHeading_escaped h)
    · exact Or.inr (Or.inr (thematicBreak_dash hs hlength h))
    · exact Or.inr (Or.inl (thematicBreak_underscore hs h))
  · exact fun h => h.opensBlock hs

/-- The line of a text in canonical form opens no block exactly when the loop ends and the text is none of these. -/
theorem renderText_opens_nothing_iff {text : Bytes} (hs : CanonicalSpaces text) :
    (∃ line, renderText text true = some line ∧ opensBlock line = false) ↔
      text.length < 4294967296 ∧ ¬ OpensUnescaped text := by
  rcases Nat.lt_or_ge text.length 4294967296 with hlt | hge
  · rw [renderText_eq hlt, ← opensBlock_escaped_iff hs hlt, and_iff_right hlt, Bool.not_eq_true]
    refine ⟨fun ⟨line, hline, hopens⟩ => ?_, fun hopens => ⟨_, rfl, hopens⟩⟩
    rwa [Option.some.inj hline]
  · have hnone : renderText text true = none := renderTextLoop_eq_none hge _ _ _ _
    rw [hnone]
    exact iff_of_false (by simp) (fun h => Nat.not_lt.mpr hge h.1)

theorem renderText_opens_nothing_words : ¬ OpensUnescaped (bytesOf "## 1. -") :=
  ((renderText_opens_nothing_iff (CanonicalSpaces.of_all [bytesOf "##", bytesOf "1.", bytesOf "-"] (by decide))).mp
    ⟨bytesOf "\\## 1. -", by decide, by decide⟩).2

/-- Two hashes make an empty heading, three underscores or three dashes with one space among them a thematic break. -/
theorem blocks_opened_unescaped :
    (CanonicalSpaces (bytesOf "##") ∧ renderText (bytesOf "##") true = some (bytesOf "##") ∧
        isAtxHeading (bytesOf "##") = true) ∧
      (CanonicalSpaces (bytesOf "_ _ _") ∧ renderText (bytesOf "_ _ _") true = some (bytesOf "_ _ _") ∧
        isThematicBreak (bytesOf "_ _ _") = true) ∧
      CanonicalSpaces (bytesOf "-- -") ∧ renderText (bytesOf "-- -") true = some (bytesOf "-- -") ∧
        isThematicBreak (bytesOf "-- -") = true :=
  ⟨⟨CanonicalSpaces.of_all [bytesOf "##"] (by decide), by decide, by decide⟩,
    ⟨CanonicalSpaces.of_all [[95], [95], [95]] (by decide), by decide, by decide⟩,
    CanonicalSpaces.of_all [[45, 45], [45]] (by decide), by decide, by decide⟩

end LspCpp

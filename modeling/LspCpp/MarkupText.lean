import LspCpp.UriPercent

/-! Text of a paragraph in markdown: `needsLeadingEscape` decides for each byte whether a backslash goes in front of it,
from what stands before and after it. -/

namespace LspCpp

namespace StringRef

def startWith (word text : Bytes) : Bool := word.isPrefixOf text

def endWith (word text : Bytes) : Bool := word.isSuffixOf text

/-- `find_first_not_of` finds nothing in a text of `ch` alone, which then stays as it is. -/
def trimLeft (ch : UInt8) (text : Bytes) : Bytes :=
  if text.all (· == ch) then text else text.dropWhile (· == ch)

def trimRight (ch : UInt8) (text : Bytes) : Bytes := text.rdropWhile (· == ch)

def trim (text : Bytes) : Bytes := trimRight 32 (trimLeft 32 text)

end StringRef

open StringRef

def isAlpha (c : UInt8) : Bool := (97 ≤ c && c ≤ 122) || (65 ≤ c && c ≤ 90)

/-- The loop of `looksLikeTag` over what follows the tag name. -/
def attributesOpen : Bytes → Bool
  | [] => true
  | c :: rest =>
      if isAlnum c || isSpace c then attributesOpen rest
      else if c == 62 || startWith (bytesOf "/>") (c :: rest) then true
      else c == 61

def looksLikeTag : Bytes → Bool
  | [] => false
  | c :: rest =>
      if c == 33 || c == 63 || c == 47 then true
      else if !isAlpha c then false
      else attributesOpen <|
        ((c :: rest).dropWhile fun d => isAlnum d || d == 45 || d == 95 || d == 58).dropWhile isSpace

/-- The lambda `RulerLength` with what it leaves of `After`, which it trims in place. The length is an `unsigned`. -/
def rulerLength (c : UInt8) (before after : Bytes) (startsLine : Bool) : Nat × Bytes :=
  if !startsLine || !before.isEmpty then (0, after)
  else
    let a := trimRight 32 after
    (if a.all (c == ·) then (1 + a.length) % 4294967296 else 0, a)

/-- The lambda `IsBullet`. -/
def isBullet (before after : Bytes) (startsLine : Bool) : Bool :=
  startsLine && before.isEmpty && (after.isEmpty || startWith [32] after)

/-- The lambda `SpaceSurrounds`. -/
def spaceSurrounds (before after : Bytes) : Bool := after.head?.all isSpace && before.getLast?.all isSpace

/-- The lambda `WordSurrounds`. -/
def wordSurrounds (before after : Bytes) : Bool := after.head?.any isAlnum && before.getLast?.any isAlnum

/-- The branch of `'&'`: what stands in front of a `;` is the name or the number of an entity. -/
def looksLikeEntity (after : Bytes) : Bool :=
  match Search.find [59] after with
  | none => false
  | some pos =>
      match after.take pos with
      | 35 :: 120 :: digits => digits.all isHex
      | 35 :: 88 :: digits => digits.all isHex
      | 35 :: digits => digits.all isDigit
      | name => name.all isAlpha

def needsLeadingEscape (c : UInt8) (before after : Bytes) (startsLine : Bool) : Bool :=
  match c with
  | 92 => true -- '\\'
  | 96 => true -- '`'
  | 126 => startsLine && before.isEmpty && startWith [126, 126] after -- '~'
  | 35 => -- '#'
      if !startsLine || !before.isEmpty then false
      else
        let rest := trimLeft 35 after
        rest.isEmpty || startWith [32] rest
  | 93 => startWith [58] after || startWith [40] after -- ']'
  | 61 => 0 < (rulerLength c before after startsLine).1 -- '='
  | 95 => -- '_'
      let (length, after) := rulerLength c before after startsLine
      3 ≤ length || !(spaceSurrounds before after || wordSurrounds before after)
  | 45 => -- '-'
      let (length, after) := rulerLength c before after startsLine
      0 < length || isBullet before after startsLine
  | 43 => isBullet before after startsLine -- '+'
  | 42 => -- '*'
      isBullet before after startsLine ||
        let (length, after) := rulerLength c before after startsLine
        3 ≤ length || !spaceSurrounds before after
  | 60 => looksLikeTag after -- '<'
  | 62 => startsLine && before.isEmpty -- '>'
  | 38 => looksLikeEntity after -- '&'
  | 46 => startsLine && !before.isEmpty && before.all isDigit && startWith [32] after -- '.'
  | 41 => startsLine && !before.isEmpty && before.all isDigit && startWith [32] after -- ')'
  | _ => false

/-- The loop of `renderText` for at most `fuel` rounds; its index is an `unsigned`, which does not reach the size of a
text of `2 ^ 32` bytes. -/
def renderTextLoop (input : Bytes) (startsLine : Bool) : (fuel : Nat) → (i : UInt32) → (r : Bytes) → Option Bytes
  | 0, _, _ => none
  | fuel + 1, i, r =>
      match input[i.toNat]? with
      | none => some r
      | some c =>
          let escape := needsLeadingEscape c (input.take i.toNat) (input.drop (i + 1).toNat) startsLine
          renderTextLoop input startsLine fuel (i + 1) (if escape then r ++ [92, c] else r ++ [c])

/-- `renderText`; nothing stands for a loop that does not end. -/
def renderText (input : Bytes) (startsLine : Bool) : Option Bytes :=
  renderTextLoop input startsLine (input.length + 1) 0 []

theorem trimRight_eq_self {text : Bytes} (h : text.getLast? ≠ some 32) : trimRight 32 text = text := by
  refine List.rdropWhile_eq_self_iff.mpr fun hne hlast => h ?_
  rw [List.getLast?_eq_getLast_of_ne_nil hne, beq_iff_eq.mp hlast]

/-- Left of a byte that is not trimmed only what stands in front of it changes. -/
theorem trimLeft_append_cons {ch x : UInt8} (hx : x ≠ ch) (before rest : Bytes) :
    ∃ before', trimLeft ch (before ++ x :: rest) = before' ++ x :: rest := by
  have hnot : (before ++ x :: rest).all (· == ch) = false := by simp [hx]
  rw [trimLeft, hnot, if_neg (by decide), List.dropWhile_append]
  split
  · rw [List.dropWhile_cons_of_neg (by simpa using hx)]
    exact ⟨[], rfl⟩
  · exact ⟨_, rfl⟩

theorem trimRight_append_cons {ch x : UInt8} (hx : x ≠ ch) (before rest : Bytes) :
    ∃ rest', trimRight ch (before ++ x :: rest) = before ++ x :: rest' := by
  induction rest using List.reverseRecOn with
  | nil => exact ⟨[], List.rdropWhile_concat_neg _ _ _ (by simpa using hx)⟩
  | append_singleton rest d ih =>
      have hsplit : before ++ x :: (rest ++ [d]) = before ++ x :: rest ++ [d] := by simp
      rw [hsplit, trimRight, List.rdropWhile_concat]
      split
      · exact ih
      · exact ⟨rest ++ [d], hsplit.symm⟩

/-- A stretch between two bytes other than the space is not touched by the trimming. -/
theorem trim_stretch {x y : UInt8} (hx : x ≠ 32) (hy : y ≠ 32) (before middle rest : Bytes) :
    ∃ before' rest', trim (before ++ x :: (middle ++ y :: rest)) = before' ++ x :: (middle ++ y :: rest') := by
  obtain ⟨before', hleft⟩ := trimLeft_append_cons hx before (middle ++ y :: rest)
  obtain ⟨rest', hright⟩ := trimRight_append_cons hy (before' ++ x :: middle) rest
  refine ⟨before', rest', ?_⟩
  rw [trim, hleft]
  simpa only [List.append_assoc, List.cons_append] using hright

/-- The bytes of `rest` behind `before`, with the backslashes in front of them. -/
def escaped (startsLine : Bool) : (before rest : Bytes) → Bytes
  | _, [] => []
  | before, c :: rest =>
      if needsLeadingEscape c before rest startsLine then 92 :: c :: escaped startsLine (before ++ [c]) rest
      else c :: escaped startsLine (before ++ [c]) rest

theorem renderTextLoop_eq {startsLine : Bool} {before rest : Bytes} (hlength : (before ++ rest).length < 4294967296)
    {i : UInt32} (hi : i.toNat = before.length) (r : Bytes) :
    renderTextLoop (before ++ rest) startsLine (rest.length + 1) i r = some (r ++ escaped startsLine before rest) := by
  induction rest generalizing before i r with
  | nil =>
      have hend : (before ++ [])[i.toNat]? = none := by simp [hi]
      rw [List.length_nil, renderTextLoop, hend, escaped, List.append_nil r]
  | cons c rest ih =>
      have hc : (before ++ c :: rest)[i.toNat]? = some c := by simp [hi]
      have htake : (before ++ c :: rest).take i.toNat = before := by simp [hi]
      have hnext : (i + 1).toNat = before.length + 1 := by
        simp only [List.length_append, List.length_cons] at hlength
        rw [UInt32.toNat_add, hi, UInt32.toNat_one]
        omega
      have hdrop : (before ++ c :: rest).drop (i + 1).toNat = rest := by simp [hnext]
      have hsplit : before ++ c :: rest = before ++ [c] ++ rest := by simp
      have hrest := @ih (before ++ [c]) (by rwa [← hsplit]) (i + 1) (by simpa using hnext)
      rw [List.length_cons, renderTextLoop, hc]
      simp only [htake, hdrop, escaped]
      rw [hsplit, hrest]
      split <;> simp

theorem renderText_eq {input : Bytes} (hlength : input.length < 4294967296) (startsLine : Bool) :
    renderText input startsLine = some (escaped startsLine [] input) :=
  @renderTextLoop_eq startsLine [] input hlength 0 rfl []

/-- With a text of `2 ^ 32` bytes or more the loop goes on however long it runs. -/
theorem renderTextLoop_eq_none {input : Bytes} (hlength : 4294967296 ≤ input.length) (startsLine : Bool) (fuel : Nat)
    (i : UInt32) (r : Bytes) : renderTextLoop input startsLine fuel i r = none := by
  induction fuel generalizing i r with
  | zero => rfl
  | succ fuel ih =>
      have hi : i.toNat < input.length := i.toNat_lt.trans_le hlength
      rw [renderTextLoop, List.getElem?_eq_getElem hi]
      exact ih _ _

theorem renderText_isSome_iff (input : Bytes) (startsLine : Bool) :
    (renderText input startsLine).isSome ↔ input.length < 4294967296 := by
  rcases Nat.lt_or_ge input.length 4294967296 with hlt | hge
  · rw [renderText_eq hlt]
    exact iff_of_true rfl hlt
  · rw [renderText, renderTextLoop_eq_none hge]
    exact iff_of_false (by simp) (Nat.not_lt.mpr hge)

end LspCpp

import LspCpp.StreamRoundTrip

/-! The length that a header block declares: the loop of `parseHeaderBlock` over the lines, and the language of the
values that `parseContentLength` accepts. -/

namespace LspCpp

/-- The loop of `parseHeaderBlock` for at most `fuel` rounds. -/
def parseHeaderBlockLoop (block : Bytes) : (fuel start : Nat) → Headers → Option Headers
  | 0, _, _ => none
  | fuel + 1, start, headers =>
      if start ≤ block.length then
        let lineEnd := (Search.findFrom [10] block start).getD block.length
        let line := dropCarriageReturn ((block.drop start).take (lineEnd - start))
        let headers := if line = [] then headers else parseHeader line headers
        if lineEnd = block.length then some headers else parseHeaderBlockLoop block fuel (lineEnd + 1) headers
      else some headers

/-- The lines of a header block. -/
def headerLines (block : Bytes) : List Bytes := (block.splitOn 10).map dropCarriageReturn

theorem parseHeaderBlock_eq_foldl (block : Bytes) (headers : Headers) :
    parseHeaderBlock block headers =
      (headerLines block).foldl
        (fun headers line => if line = [] then headers else parseHeader line headers) headers := by
  rw [parseHeaderBlock, headerLines, List.foldl_map]

/-- **The loop ends** and goes through the lines of the block one after the other. -/
theorem parseHeaderBlockLoop_eq {fuel : Nat} {before rest : Bytes} (hfuel : rest.length < fuel) (headers : Headers) :
    parseHeaderBlockLoop (before ++ rest) fuel before.length headers = some (parseHeaderBlock rest headers) := by
  induction fuel generalizing before rest headers with
  | zero => exact absurd hfuel (Nat.not_lt_zero _)
  | succ fuel ih =>
      rw [parseHeaderBlockLoop, if_pos (by simp), Search.findFrom_append, List.drop_left, parseHeaderBlock_eq_foldl]
      rcases Search.find_letter_cases 10 rest with ⟨hnot, hfind⟩ | ⟨line, after, rfl, hline, hfind⟩
      · have hlength : (before ++ rest).length - before.length = rest.length := by simp
        rw [hfind, Option.map_none, Option.getD_none, if_pos rfl, hlength, List.take_length, headerLines,
          List.splitOn_eq_singleton hnot]
        rfl
      · have hnext : line.length + before.length + 1 = (before ++ (line ++ [10])).length := by
          simp only [List.length_append, List.length_singleton]
          omega
        have hsplit : before ++ (line ++ 10 :: after) = before ++ (line ++ [10]) ++ after := by simp
        have hafter : after.length < fuel := by
          simp only [List.length_append, List.length_cons] at hfuel
          omega
        have hne : line.length + before.length ≠ (before ++ (line ++ 10 :: after)).length := by
          simp only [List.length_append, List.length_cons]
          omega
        rw [hfind, Option.map_some, Option.getD_some, if_neg hne, Nat.add_sub_cancel, List.take_left, hnext, hsplit,
          ih hafter, parseHeaderBlock_eq_foldl, headerLines, headerLines, List.splitOn_append_cons_self,
          List.splitOn_eq_singleton hline]
        rfl

/-- The number that digits with a sign denote. -/
def signedValue (sign digits : Bytes) : Int := if sign = [45] then -(digitsValue digits) else digitsValue digits

/-- Whitespace, a sign and digits, which denote `n`, in front of `tail`. -/
def NumberText (text : Bytes) (n : Int) (tail : Bytes) : Prop :=
  ∃ space sign digits, text = space ++ (sign ++ (digits ++ tail)) ∧ (∀ c ∈ space, isSpace c = true) ∧
    (sign = [] ∨ sign = [43] ∨ sign = [45]) ∧ digits ≠ [] ∧ (∀ c ∈ digits, isDigit c = true) ∧
    n = signedValue sign digits

/-- The values of a `Content-Length`: behind the number stand only spaces and tabs. -/
def LengthText (value : Bytes) (n : Int) : Prop :=
  ∃ tail, NumberText value n tail ∧ (∀ c ∈ tail, c = 32 ∨ c = 9) ∧ 0 ≤ n ∧ n ≤ 2147483647

/-- What `strtol` makes of the text behind the whitespace and the sign. -/
def convertDigits (sign text : Bytes) : Option (Int × Bool × Bytes) :=
  if text.takeWhile isDigit = [] then none
  else
    let n := signedValue sign (text.takeWhile isDigit)
    some (n, n < -9223372036854775808 ∨ 9223372036854775807 < n, text.dropWhile isDigit)

theorem dropWhile_of_head? {p : UInt8 → Bool} {text : Bytes} (h : ∀ c ∈ text.head?, p c = false) :
    text.dropWhile p = text := by
  cases text with
  | nil => rfl
  | cons c rest => exact List.dropWhile_cons_of_neg (by rw [h c rfl]; decide)

theorem strtol_eq {space sign text : Bytes} (hspace : ∀ c ∈ space, isSpace c = true)
    (hsign : sign = [] ∧ text.head? ≠ some 45 ∧ text.head? ≠ some 43 ∧ (∀ c ∈ text.head?, isSpace c = false) ∨
      sign = [43] ∨ sign = [45]) :
    strtol (space ++ (sign ++ text)) = convertDigits sign text := by
  have hdrop : (space ++ (sign ++ text)).dropWhile isSpace = sign ++ text := by
    rw [List.dropWhile_append_of_pos hspace]
    apply dropWhile_of_head?
    rcases hsign with ⟨rfl, _, _, hhead⟩ | rfl | rfl
    · exact hhead
    · rintro c ⟨⟩
      rfl
    · rintro c ⟨⟩
      rfl
  rw [strtol, convertDigits, hdrop]
  rcases hsign with ⟨rfl, hminus, hplus, _⟩ | rfl | rfl
  · simp [hminus, hplus, signedValue]
  · simp [signedValue]
  · simp [signedValue]

/-- Every text has a part that `strtol` passes over, and a sign or none. -/
theorem strtol_split (text : Bytes) :
    ∃ space sign rest, text = space ++ (sign ++ rest) ∧ (∀ c ∈ space, isSpace c = true) ∧
      (sign = [] ∨ sign = [43] ∨ sign = [45]) ∧ strtol text = convertDigits sign rest := by
  have hspace : ∀ c ∈ text.takeWhile isSpace, isSpace c = true := fun c hc => List.mem_takeWhile_imp hc
  have hsplit : text = text.takeWhile isSpace ++ text.dropWhile isSpace := List.takeWhile_append_dropWhile.symm
  have hhead : ∀ c ∈ (text.dropWhile isSpace).head?, isSpace c = false := by
    intro c hc
    have hnot := List.head?_dropWhile_not isSpace text
    rw [hc] at hnot
    simpa using hnot
  generalize text.takeWhile isSpace = space at hspace hsplit
  generalize text.dropWhile isSpace = unsigned at hhead hsplit
  subst hsplit
  by_cases hminus : unsigned.head? = some 45
  · obtain ⟨rest, rfl⟩ := List.head?_eq_some_iff.mp hminus
    exact ⟨space, [45], rest, rfl, hspace, .inr (.inr rfl), strtol_eq hspace (.inr (.inr rfl))⟩
  · by_cases hplus : unsigned.head? = some 43
    · obtain ⟨rest, rfl⟩ := List.head?_eq_some_iff.mp hplus
      exact ⟨space, [43], rest, rfl, hspace, .inr (.inl rfl), strtol_eq hspace (.inr (.inl rfl))⟩
    · exact ⟨space, [], unsigned, rfl, hspace, .inl rfl, strtol_eq hspace (.inl ⟨rfl, hminus, hplus, hhead⟩)⟩

/-- What `strtol` converts is a number in front of all that is left. -/
theorem numberText_of_strtol {text tail : Bytes} {n : Int} {outOfRange : Bool}
    (h : strtol text = some (n, outOfRange, tail)) : NumberText text n tail := by
  obtain ⟨space, sign, rest, rfl, hspace, hsign, hconvert⟩ := strtol_split text
  rw [hconvert, convertDigits] at h
  split_ifs at h with hdigits
  cases h
  refine ⟨space, sign, rest.takeWhile isDigit, ?_, hspace, hsign, hdigits, fun c hc => List.mem_takeWhile_imp hc, rfl⟩
  rw [List.takeWhile_append_dropWhile]

/-- `strtol` converts as many digits as there are. -/
theorem strtol_of_numberText {text tail : Bytes} {n : Int} (h : NumberText text n tail)
    (htail : ∀ c ∈ tail.head?, isDigit c = false) :
    strtol text = some (n, decide (n < -9223372036854775808 ∨ 9223372036854775807 < n), tail) := by
  obtain ⟨space, sign, digits, rfl, hspace, hsign, hne, hdigits, rfl⟩ := h
  have htake : (digits ++ tail).takeWhile isDigit = digits := by
    have hnone : tail.takeWhile isDigit = [] := by
      cases tail with
      | nil => rfl
      | cons c rest => exact List.takeWhile_cons_of_neg (by rw [htail c rfl]; decide)
    rw [List.takeWhile_append_of_pos hdigits, hnone, List.append_nil]
  have hdrop : (digits ++ tail).dropWhile isDigit = tail := by
    rw [List.dropWhile_append_of_pos hdigits, dropWhile_of_head? htail]
  have hstart : sign = [] ∧ (digits ++ tail).head? ≠ some 45 ∧ (digits ++ tail).head? ≠ some 43 ∧
      (∀ c ∈ (digits ++ tail).head?, isSpace c = false) ∨ sign = [43] ∨ sign = [45] := by
    obtain ⟨c, rest, rfl⟩ := List.exists_cons_of_ne_nil hne
    obtain ⟨hspace, hminus, hplus, _⟩ := isDigit_spec (hdigits c List.mem_cons_self)
    refine hsign.imp_left fun hnil => ⟨hnil, fun h => hminus (Option.some.inj h), fun h => hplus (Option.some.inj h),
      ?_⟩
    rintro c' ⟨⟩
    exact hspace
  rw [strtol_eq hspace hstart, convertDigits, htake, hdrop, if_neg hne]

/-- **`parseContentLength` accepts exactly the length texts**, among the values that have no NUL. -/
theorem parseContentLength_eq_some_iff {value : Bytes} (hnul : (0 : UInt8) ∉ value) {n : Int} :
    parseContentLength value = some n ↔ LengthText value n := by
  have hvalue : cStr value = value := by
    refine List.takeWhile_eq_self_iff.mpr fun c hc => bne_iff_ne.mpr ?_
    rintro rfl
    exact hnul hc
  have hblank : ∀ tail : Bytes, (tail.dropWhile fun c => c == 32 || c == 9).isEmpty = true ↔
      ∀ c ∈ tail, c = 32 ∨ c = 9 := by
    intro tail
    rw [List.isEmpty_iff, List.dropWhile_eq_nil_iff]
    simp only [Bool.or_eq_true, beq_iff_eq]
  rw [parseContentLength, hvalue]
  constructor
  · intro h
    split at h
    · cases h
    · rename_i parsed outOfRange tail hstrtol
      split_ifs at h with hrange htail
      obtain rfl := Option.some.inj h
      rw [not_or, not_or, Int.not_lt, Int.not_lt] at hrange
      exact ⟨tail, numberText_of_strtol hstrtol, (hblank tail).mp htail, hrange.2⟩
  · rintro ⟨tail, hnumber, htail, hrange⟩
    have hhead : ∀ c ∈ tail.head?, isDigit c = false := by
      intro c hc
      rcases htail c (List.mem_of_mem_head? hc) with rfl | rfl <;> rfl
    rw [strtol_of_numberText hnumber hhead]
    dsimp only
    rw [if_neg (by rw [decide_eq_true_eq]; omega), if_pos ((hblank tail).mpr htail)]

/-! ### The lines -/

/-- A line that declares the length `n`. -/
def LengthLine (line : Bytes) (n : Int) : Prop :=
  ∃ value, line = contentLengthHeader ++ 58 :: value ∧ LengthText value n

/-- A line changes the length if it is a `Content-Length` whose value is accepted. -/
theorem parseHeader_contentLength (line : Bytes) (headers : Headers) :
    (∃ value, line = contentLengthHeader ++ 58 :: value ∧
        (parseHeader line headers).contentLength = (parseContentLength value).getD headers.contentLength) ∨
      (∀ value, line ≠ contentLengthHeader ++ 58 :: value) ∧
        (parseHeader line headers).contentLength = headers.contentLength := by
  have hcolon : (58 : UInt8) ∉ contentLengthHeader := by decide
  rw [parseHeader]
  rcases Search.find_letter_cases 58 line with ⟨hnot, hfind⟩ | ⟨key, value, rfl, hkey, hfind⟩
  · rw [hfind]
    refine .inr ⟨?_, rfl⟩
    rintro value rfl
    exact hnot (List.mem_append_right _ List.mem_cons_self)
  · rw [hfind]
    dsimp only
    rw [List.take_left]
    by_cases heq : key = contentLengthHeader
    · refine .inl ⟨value, by rw [heq], ?_⟩
      have hdrop : (key ++ 58 :: value).drop (key.length + 1) = value := by
        rw [← List.drop_drop, List.drop_left]
        rfl
      rw [if_pos heq, hdrop]
      cases parseContentLength value with
      | none => rfl
      | some n => rfl
    · refine .inr ⟨fun value' hline => heq ?_, ?_⟩
      · rw [hline, Search.find_skip hcolon, Search.find_eq_zero (by simp), Option.map_some, Nat.zero_add] at hfind
        exact List.append_inj_left hline (Option.some.inj hfind).symm
      · rw [if_neg heq]
        split_ifs
        · split <;> rfl
        · rfl

/-- The values of the lines that may declare a length have no NUL. -/
def NulFreeValues (lines : List Bytes) : Prop :=
  ∀ line ∈ lines, ∀ value, line = contentLengthHeader ++ 58 :: value → (0 : UInt8) ∉ value

theorem NulFreeValues.of_lines {lines : List Bytes} (h : lines.all (fun line => !line.contains 0) = true) :
    NulFreeValues lines := by
  rintro line hline value rfl hnul
  have hline := List.all_eq_true.mp h _ hline
  rw [Bool.not_eq_true', List.contains_eq_mem, decide_eq_false_iff_not] at hline
  exact hline (List.mem_append_right _ (List.mem_cons_of_mem _ hnul))

section Line

variable {line : Bytes} (hnul : ∀ value, line = contentLengthHeader ++ 58 :: value → (0 : UInt8) ∉ value)
include hnul

theorem parseHeader_of_lengthLine {n : Int} (h : LengthLine line n) (headers : Headers) :
    (parseHeader line headers).contentLength = n := by
  obtain ⟨value, hline, hvalue⟩ := h
  rcases parseHeader_contentLength line headers with ⟨value', hline', hlength⟩ | ⟨hnot, _⟩
  · have hsame : value' = value := by
      rw [hline] at hline'
      simpa using hline'.symm
    rw [hlength, hsame, (parseContentLength_eq_some_iff (hnul value hline)).mpr hvalue, Option.getD_some]
  · exact absurd hline (hnot value)

theorem parseHeader_of_not_lengthLine (h : ∀ n, ¬LengthLine line n) (headers : Headers) :
    (parseHeader line headers).contentLength = headers.contentLength := by
  rcases parseHeader_contentLength line headers with ⟨value, hline, hlength⟩ | ⟨_, hlength⟩
  · have hnone : parseContentLength value = none := by
      rw [Option.eq_none_iff_forall_ne_some]
      intro n hsome
      exact h n ⟨value, hline, (parseContentLength_eq_some_iff (hnul value hline)).mp hsome⟩
    rw [hlength, hnone, Option.getD_none]
  · exact hlength

end Line

/-- The round of `parseHeaderBlock` for one line. -/
def parseLine (headers : Headers) (line : Bytes) : Headers := if line = [] then headers else parseHeader line headers

theorem not_lengthLine_nil (n : Int) : ¬LengthLine [] n := by
  rintro ⟨value, hline, _⟩
  cases hline

theorem foldl_parseLine_of_not {lines : List Bytes} (hnul : NulFreeValues lines)
    (h : ∀ line ∈ lines, ∀ n, ¬LengthLine line n) (headers : Headers) :
    (lines.foldl parseLine headers).contentLength = headers.contentLength := by
  induction lines generalizing headers with
  | nil => rfl
  | cons line rest ih =>
      rw [List.foldl_cons, ih (fun l hl => hnul l (List.mem_cons_of_mem _ hl)) fun l hl =>
        h l (List.mem_cons_of_mem _ hl), parseLine]
      split_ifs
      · rfl
      · exact parseHeader_of_not_lengthLine (hnul line List.mem_cons_self) (h line List.mem_cons_self) headers

theorem foldl_parseLine_of_last {before after : List Bytes} {line : Bytes} {n : Int}
    (hnul : NulFreeValues (before ++ line :: after)) (hline : LengthLine line n)
    (hafter : ∀ line' ∈ after, ∀ n', ¬LengthLine line' n') (headers : Headers) :
    ((before ++ line :: after).foldl parseLine headers).contentLength = n := by
  have hne : line ≠ [] := by
    rintro rfl
    exact not_lengthLine_nil n hline
  rw [List.foldl_append, List.foldl_cons,
    foldl_parseLine_of_not (fun l hl => hnul l (List.mem_append_right _ (List.mem_cons_of_mem _ hl))) hafter, parseLine,
    if_neg hne]
  exact parseHeader_of_lengthLine (hnul line (List.mem_append_right _ List.mem_cons_self)) hline _

/-- **The length of a header block** is that of its last line that declares one, and stays as it was (negative, for the
headers of a new frame) if there is none. -/
theorem parseHeaderBlock_contentLength (block : Bytes) (hnul : NulFreeValues (headerLines block)) (headers : Headers) :
    ∃ headers', (∀ fuel, block.length < fuel → parseHeaderBlockLoop block fuel 0 headers = some headers') ∧
      (∀ before line after n, headerLines block = before ++ line :: after → LengthLine line n →
        (∀ line' ∈ after, ∀ n', ¬LengthLine line' n') → headers'.contentLength = n) ∧
      ((∀ line ∈ headerLines block, ∀ n, ¬LengthLine line n) → headers'.contentLength = headers.contentLength) := by
  refine ⟨parseHeaderBlock block headers, fun fuel hfuel => @parseHeaderBlockLoop_eq fuel [] block hfuel headers,
    ?_, ?_⟩
  · intro before line after n hlines hline hafter
    rw [parseHeaderBlock_eq_foldl, hlines]
    rw [hlines] at hnul
    exact foldl_parseLine_of_last hnul hline hafter headers
  · intro hnone
    rw [parseHeaderBlock_eq_foldl]
    exact foldl_parseLine_of_not hnul hnone headers

/-- A malformed value does not override the length of an earlier line. -/
theorem parseHeaderBlock_contentLength_malformed :
    ∃ headers', (∀ fuel, 36 < fuel →
        parseHeaderBlockLoop (bytesOf "Content-Length: 5\r\nContent-Length: x") fuel 0 {} = some headers') ∧
      headers'.contentLength = 5 := by
  obtain ⟨headers', hloop, hlast, _⟩ := parseHeaderBlock_contentLength
    (bytesOf "Content-Length: 5\r\nContent-Length: x") (.of_lines (by decide)) {}
  refine ⟨headers', hloop, hlast [] (bytesOf "Content-Length: 5") [bytesOf "Content-Length: x"] 5 (by decide) ?_ ?_⟩
  · have hnumber : NumberText [32, 53] 5 [] :=
      ⟨[32], [], [53], rfl, fun c hc => List.mem_singleton.mp hc ▸ rfl, .inl rfl, List.cons_ne_nil _ _,
        fun c hc => List.mem_singleton.mp hc ▸ rfl, rfl⟩
    exact ⟨[32, 53], by decide, [], hnumber, by simp, by decide, by decide⟩
  · rintro line hline n' ⟨value, hsplit, hvalue⟩
    rw [List.mem_singleton.mp hline] at hsplit
    have hword : contentLengthHeader ++ 58 :: [32, 120] = bytesOf "Content-Length: x" := by decide
    have hvalues := List.append_cancel_left (hword.trans hsplit)
    rw [List.cons.injEq] at hvalues
    have hparse := (@parseContentLength_eq_some_iff [32, 120] (by decide) n').mpr (hvalues.2 ▸ hvalue)
    have hnone : parseContentLength [32, 120] = none := by decide
    rw [hnone] at hparse
    cases hparse

end LspCpp

import LspCpp.DelimitedBlocks

/-! The language of the delimited style. A message is written as its lines between lines that say nothing, with LF or
CRLF at their ends, and a delimiter line behind them; the producer hands on the messages that have been written, and
nothing for what follows the last delimiter. CRs do not count, wherever they stand in a line. -/

namespace LspCpp

/-- The characters of the indentation. -/
def isIndent (c : UInt8) : Bool := c == 32 || c == 9

/-- A line without the spaces and tabs at its ends. -/
def trimIndent (line : Bytes) : Bytes := (line.dropWhile isIndent).rdropWhile isIndent

def dropCrs (line : Bytes) : Bytes := line.filter (· != 13)

/-- A line of a message: without CR and LF, and neither blank nor a comment. -/
structure IsContentLine (line : Bytes) : Prop where
  no_cr : 13 ∉ line
  no_lf : 10 ∉ line
  not_blank : trimIndent line ≠ []
  not_comment : isComment (trimIndent line) = false

/-- A line that ends a message. -/
structure IsDelimiterLine (line : Bytes) : Prop where
  no_lf : 10 ∉ line
  delimiter : trimIndent (dropCrs line) = delimiterLine

/-- A line that says nothing: it is blank, or a comment other than the delimiter. -/
structure IsNoiseLine (line : Bytes) : Prop where
  no_lf : 10 ∉ line
  blank_or_comment : trimIndent (dropCrs line) = [] ∨ isComment (trimIndent (dropCrs line)) = true
  not_delimiter : trimIndent (dropCrs line) ≠ delimiterLine

/-- A line with its end, LF or CRLF. -/
def endLine (line : Bytes) (crlf : Bool) : Bytes := line ++ if crlf then [13, 10] else [10]

/-- How a message, given by its lines, may be written. -/
inductive Written : List Bytes → Bytes → Prop
  | delimiter {line : Bytes} (h : IsDelimiterLine line) (crlf : Bool) : Written [] (endLine line crlf)
  | noise {line : Bytes} (h : IsNoiseLine line) (crlf : Bool) {lines : List Bytes} {bytes : Bytes}
      (rest : Written lines bytes) : Written lines (endLine line crlf ++ bytes)
  | line {line : Bytes} (h : IsContentLine line) (crlf : Bool) {lines : List Bytes} {bytes : Bytes}
      (rest : Written lines bytes) : Written (line :: lines) (endLine line crlf ++ bytes)

/-- How some messages may be written, one after the other; no delimiter line is complete in what follows them. -/
inductive WrittenAll : List (List Bytes) → Bytes → Prop
  | trailing {bytes : Bytes} (h : ∀ line ∈ Search.terminated 10 bytes, ¬IsDelimiterLine line) : WrittenAll [] bytes
  | message {lines : List Bytes} {messages : List (List Bytes)} {bytes rest : Bytes} (h : Written lines bytes)
      (hrest : WrittenAll messages rest) : WrittenAll (lines :: messages) (bytes ++ rest)

/-- What is handed on for a message. -/
def messageText (lines : List Bytes) : Bytes := (lines.map trimIndent).flatten

theorem dropCrs_of_not_mem {line : Bytes} (h : 13 ∉ line) : dropCrs line = line := by
  refine List.filter_eq_self.mpr fun c hc => ?_
  rw [bne_iff_ne]
  rintro rfl
  exact h hc

theorem not_mem_dropCrs {line : Bytes} {c : UInt8} (h : c ∉ line) : c ∉ dropCrs line :=
  fun hc => h (List.mem_of_mem_filter hc)

theorem cr_not_mem_dropCrs (line : Bytes) : 13 ∉ dropCrs line := fun hc =>
  absurd (List.of_mem_filter hc) (by decide)

theorem dropWhile_isBlank {line : Bytes} (hcr : 13 ∉ line) (hlf : 10 ∉ line) :
    line.dropWhile isBlank = line.dropWhile isIndent := by
  induction line with
  | nil => rfl
  | cons c line ih =>
      rw [List.mem_cons, not_or] at hcr hlf
      have hc : isBlank c = isIndent c := by
        have hcr' : (c == 13) = false := beq_eq_false_iff_ne.mpr (Ne.symm hcr.1)
        have hlf' : (c == 10) = false := beq_eq_false_iff_ne.mpr (Ne.symm hlf.1)
        rw [isBlank, isIndent, hcr', hlf', Bool.or_false, Bool.or_false]
      rw [List.dropWhile_cons, List.dropWhile_cons, hc, ih hcr.2 hlf.2]

/-- The producer trims CR and LF as well, of which none is left. -/
theorem trimWhitespace_eq {line : Bytes} (hcr : 13 ∉ line) (hlf : 10 ∉ line) :
    trimWhitespace line = trimIndent line := by
  have hmem : ∀ c, c ∈ (line.dropWhile isIndent).reverse → c ∈ line := fun c hc =>
    List.dropWhile_subset _ (List.mem_reverse.mp hc)
  rw [trimWhitespace, trimIndent, dropWhile_isBlank hcr hlf, List.rdropWhile, List.rdropWhile,
    dropWhile_isBlank (fun h => hcr (hmem 13 h)) fun h => hlf (hmem 10 h)]

theorem trimWhitespace_dropCrs {line : Bytes} (hlf : 10 ∉ line) :
    trimWhitespace (dropCrs line) = trimIndent (dropCrs line) :=
  trimWhitespace_eq (cr_not_mem_dropCrs line) (not_mem_dropCrs hlf)

theorem terminated_line {line : Bytes} (hlf : 10 ∉ line) (rest : Bytes) :
    Search.terminated 10 (line ++ 10 :: rest) = line :: Search.terminated 10 rest := by
  rw [Search.terminated, List.splitOn_append_cons_self_of_not_mem hlf,
    List.dropLast_cons_of_ne_nil (List.splitOn_ne_nil _ _), Search.terminated]

/-- The lines of a text whose first line ends in LF or CRLF; where nothing is left without its CRs it is no line. -/
theorem delimitedLines_endLine {line : Bytes} (hlf : 10 ∉ line) (crlf : Bool) (rest : Bytes) :
    delimitedLines (endLine line crlf ++ rest) =
      if dropCrs line = [] then delimitedLines rest
      else trimIndent (dropCrs line) :: delimitedLines rest := by
  obtain ⟨front, hbytes, hfront, hdrop⟩ : ∃ front, endLine line crlf ++ rest = front ++ 10 :: rest ∧ 10 ∉ front ∧
      dropCrs front = dropCrs line := by
    cases crlf with
    | false => exact ⟨line, by simp [endLine], hlf, rfl⟩
    | true => exact ⟨line ++ [13], by simp [endLine], by simp [hlf], by simp [dropCrs]⟩
  rw [hbytes, delimitedLines, rawLines, terminated_line hfront, List.map_cons, List.filter_cons, ← dropCrs, hdrop]
  by_cases hempty : dropCrs line = []
  · simp [hempty, delimitedLines, rawLines]
  · simp [hempty, delimitedLines, rawLines, trimWhitespace_dropCrs hlf]

section Unlimited

variable {settings : ProducerSettings}

/-- A line of text is joined to those before it. -/
theorem joinLines_text (hmax : settings.maxFrameSize = 0) {text : Bytes} (h : isComment text = false) (json : Bytes)
    (lines : List Bytes) :
    joinLines settings json (text :: lines) = joinLines settings (json ++ text) lines := by
  rw [joinLines, h]
  simp [hmax]

theorem joinLines_comment {text : Bytes} (h : isComment text = true) (hne : text ≠ delimiterLine) (json : Bytes)
    (lines : List Bytes) : joinLines settings json (text :: lines) = joinLines settings json lines := by
  rw [joinLines, if_pos h, if_neg hne]

/-- A line that says nothing changes nothing. -/
theorem joinLines_noise (hmax : settings.maxFrameSize = 0) {line : Bytes} (h : IsNoiseLine line) (crlf : Bool)
    (json rest : Bytes) :
    joinLines settings json (delimitedLines (endLine line crlf ++ rest)) =
      joinLines settings json (delimitedLines rest) := by
  rw [delimitedLines_endLine h.no_lf]
  split_ifs with hempty
  · rfl
  · rcases h.blank_or_comment with hblank | hcomment
    · rw [hblank, joinLines_text hmax (by decide), List.append_nil]
    · exact joinLines_comment hcomment h.not_delimiter json _

theorem joinLines_content (hmax : settings.maxFrameSize = 0) {line : Bytes} (h : IsContentLine line) (crlf : Bool)
    (json rest : Bytes) :
    joinLines settings json (delimitedLines (endLine line crlf ++ rest)) =
      joinLines settings (json ++ trimIndent line) (delimitedLines rest) := by
  have hne : line ≠ [] := by
    rintro rfl
    exact h.not_blank rfl
  rw [delimitedLines_endLine h.no_lf, dropCrs_of_not_mem h.no_cr, if_neg hne]
  exact joinLines_text hmax h.not_comment json _

theorem joinLines_delimiter {line : Bytes} (h : IsDelimiterLine line) (crlf : Bool) (json rest : Bytes) :
    joinLines settings json (delimitedLines (endLine line crlf ++ rest)) =
      .message json :: joinLines settings [] (delimitedLines rest) := by
  have hne : dropCrs line ≠ [] := fun hnil => absurd (hnil ▸ h.delimiter : trimIndent [] = delimiterLine) (by decide)
  have hcomment : isComment delimiterLine = true := by decide
  rw [delimitedLines_endLine h.no_lf, if_neg hne, h.delimiter, joinLines, if_pos hcomment, if_pos rfl]

/-- Lines among which no delimiter is cause no call. -/
theorem joinLines_of_no_delimiter (hmax : settings.maxFrameSize = 0) (lines : List Bytes)
    (h : delimiterLine ∉ lines) (json : Bytes) :
    joinLines settings json lines = [] := by
  induction lines generalizing json with
  | nil => rfl
  | cons text lines ih =>
      rw [List.mem_cons, not_or] at h
      cases hcomment : isComment text with
      | true => rw [joinLines_comment hcomment (Ne.symm h.1), ih h.2]
      | false => rw [joinLines_text hmax hcomment, ih h.2]

theorem Written.joinLines (hmax : settings.maxFrameSize = 0) {lines : List Bytes} {bytes : Bytes}
    (h : Written lines bytes) (json rest : Bytes) :
    joinLines settings json (delimitedLines (bytes ++ rest)) =
      .message (json ++ messageText lines) :: joinLines settings [] (delimitedLines rest) := by
  induction h generalizing json with
  | delimiter hline crlf => rw [joinLines_delimiter hline, messageText, List.map_nil, List.flatten_nil, List.append_nil]
  | noise hline crlf _ ih => rw [List.append_assoc, joinLines_noise hmax hline, ih]
  | line hline crlf _ ih =>
      rw [List.append_assoc, joinLines_content hmax hline, ih, messageText, messageText, List.map_cons,
        List.flatten_cons, List.append_assoc]

theorem WrittenAll.joinLines (hmax : settings.maxFrameSize = 0) {messages : List (List Bytes)} {bytes : Bytes}
    (h : WrittenAll messages bytes) :
    joinLines settings [] (delimitedLines bytes) = messages.map fun lines => .message (messageText lines) := by
  induction h with
  | trailing hlines =>
      refine joinLines_of_no_delimiter hmax _ (fun hmem => ?_) []
      obtain ⟨raw, hraw, htrim⟩ := List.mem_map.mp hmem
      obtain ⟨line, hline, rfl⟩ := List.mem_map.mp (List.mem_of_mem_filter hraw)
      have hlf : 10 ∉ line := Search.not_mem_of_mem_splitOn (List.mem_of_mem_dropLast hline)
      exact hlines line hline ⟨hlf, (trimWhitespace_dropCrs hlf).symm.trans htrim⟩
  | message hmessage _ ih =>
      rw [Written.joinLines hmax hmessage, ih, List.nil_append]
      rfl

end Unlimited

/-- **The grammar of the delimited style**: of messages that have been written, without a size limit, exactly these are
handed on, each once and in their order, with their trimmed lines joined; nothing else happens. -/
theorem listenDelimited_written {σ : Type*} (S : CharStream σ) (At : σ → Bytes → Prop) (hS : S.Gets At)
    (settings : ProducerSettings) (hmax : settings.maxFrameSize = 0) (messages : List (List Bytes)) (bytes : Bytes)
    (hwritten : WrittenAll messages bytes) (s : σ) (hs : At s bytes) :
    ∃ rounds, ∀ fuel, rounds ≤ fuel →
      listenDelimited S settings fuel s = some (messages.map fun lines => .message (messageText lines)) := by
  refine ⟨bytes.length + 3, fun fuel hfuel => ?_⟩
  rw [hS.listenDelimited settings fuel hs (by omega), hwritten.joinLines hmax]

/-- A comment with CRLF, an indented line of a message, the delimiter, and an unfinished delimiter. -/
theorem listenDelimited_written_memoryChars :
    ∃ rounds, ∀ fuel, rounds ≤ fuel →
      listenDelimited memoryChars {} fuel
          (endLine (bytesOf "  // c") true ++
            (endLine (bytesOf "\t a b ") false ++ endLine (bytesOf "// -----") true) ++
            bytesOf "x\n// -----") = some [.message (bytesOf "a b")] := by
  refine listenDelimited_written memoryChars _ memoryChars_gets {} rfl [[bytesOf "\t a b "]] _ ?_ _ rfl
  refine .message (.noise ⟨by decide, by decide, by decide⟩ true
    (.line ⟨by decide, by decide, by decide, by decide⟩ false (.delimiter ⟨by decide, by decide⟩ true))) (.trailing ?_)
  intro line hline hdelimiter
  have hterminated : Search.terminated 10 (bytesOf "x\n// -----") = [bytesOf "x"] := by decide
  rw [hterminated, List.mem_singleton] at hline
  rw [hline] at hdelimiter
  exact absurd hdelimiter.delimiter (by decide)

/-- A line that is not the delimiter, with a CR in it. -/
def strayCr : Bytes := bytesOf "// --\r---\n"

/-- Behind a message it is read without the CR, and another message is handed on. -/
theorem strayCr_delivers_message :
    (Search.terminated 10 strayCr).all (fun line => trimWhitespace line != delimiterLine) = true ∧
      listenDelimited memoryChars {} 30 (bytesOf "a\n// -----\n" ++ strayCr) =
        some [.message (bytesOf "a"), .message []] := by
  exact ⟨by decide, by decide⟩

end LspCpp

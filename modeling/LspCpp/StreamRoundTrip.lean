import LspCpp.StreamDecode
import Mathlib.Data.List.TakeWhile

/-! Frames as `WriterMsg` writes them, with line breaks before them, are read back as the bodies they were
written for. -/

namespace LspCpp

/-- What `WriterMsg` writes for a message whose JSON text is `body`. -/
def writerMsg (body : Bytes) : Bytes :=
  bytesOf "Content-Length: " ++ toDecimal body.length ++ crlfcrlf ++ body

theorem isDigit_spec {c : UInt8} (h : isDigit c = true) :
    isSpace c = false ∧ c ≠ 45 ∧ c ≠ 43 ∧ c ≠ 0 ∧ c ≠ 10 ∧ c ≠ 13 := by
  simp only [isDigit, isSpace, Bool.and_eq_true, decide_eq_true_eq, UInt8.le_iff_toNat_le,
    Bool.or_eq_false_iff, beq_eq_false_iff_ne, ne_eq, Bool.and_eq_false_iff, decide_eq_false_iff_not,
    ← UInt8.toNat_inj] at *
  simp only [UInt8.reduceToNat] at *
  omega

theorem ofNat_digitChar {n : Nat} (h : n < 10) :
    UInt8.ofNat n.digitChar.toNat = UInt8.ofNat (48 + n) := by
  have hall : ∀ n < 10, UInt8.ofNat n.digitChar.toNat = UInt8.ofNat (48 + n) := by decide
  exact hall n h

theorem toDecimal_of_lt {n : Nat} (h : n < 10) : toDecimal n = [UInt8.ofNat (48 + n)] := by
  rw [toDecimal, Nat.toDigits_of_lt_base h, List.map_singleton, ofNat_digitChar h]

theorem toDecimal_of_le {n : Nat} (h : 10 ≤ n) :
    toDecimal n = toDecimal (n / 10) ++ [UInt8.ofNat (48 + n % 10)] := by
  rw [toDecimal, Nat.toDigits_of_base_le (by omega) h, List.map_append, List.map_singleton,
    ofNat_digitChar (Nat.mod_lt n (by omega))]
  rfl

theorem toDecimal_ne_nil (n : Nat) : toDecimal n ≠ [] := by
  rw [toDecimal, ne_eq, List.map_eq_nil_iff]
  exact Nat.toDigits_ne_nil

theorem isDigit_ofNat {d : Nat} (h : d < 10) : isDigit (UInt8.ofNat (48 + d)) = true := by
  have hall : ∀ d < 10, isDigit (UInt8.ofNat (48 + d)) = true := by decide
  exact hall d h

theorem toNat_ofNat_digit {d : Nat} (h : d < 10) : (UInt8.ofNat (48 + d)).toNat - 48 = d := by
  have hall : ∀ d < 10, (UInt8.ofNat (48 + d)).toNat - 48 = d := by decide
  exact hall d h

theorem isDigit_of_mem_toDecimal (n : Nat) : ∀ c ∈ toDecimal n, isDigit c = true := by
  induction n using Nat.strongRecOn with
  | ind n ih =>
      intro c hc
      by_cases h : n < 10
      · rw [toDecimal_of_lt h, List.mem_singleton] at hc
        rw [hc]
        exact isDigit_ofNat h
      · rw [toDecimal_of_le (by omega), List.mem_append, List.mem_singleton] at hc
        rcases hc with hc | rfl
        · exact ih (n / 10) (by omega) c hc
        · exact isDigit_ofNat (Nat.mod_lt n (by omega))

theorem digitsValue_toDecimal (n : Nat) : digitsValue (toDecimal n) = n := by
  induction n using Nat.strongRecOn with
  | ind n ih =>
      by_cases h : n < 10
      · rw [toDecimal_of_lt h]
        have := toNat_ofNat_digit h
        simp only [digitsValue, List.foldl_cons, List.foldl_nil]
        omega
      · rw [toDecimal_of_le (by omega), digitsValue, List.foldl_append]
        have hhead : (toDecimal (n / 10)).foldl (fun n c => 10 * n + (c.toNat - 48)) 0 = n / 10 :=
          ih (n / 10) (by omega)
        have := toNat_ofNat_digit (Nat.mod_lt n (show 10 > 0 by omega))
        rw [hhead, List.foldl_cons, List.foldl_nil]
        omega

theorem strtol_toDecimal (n : Nat) :
    strtol (32 :: toDecimal n) = some ((n : Int), decide (9223372036854775807 < (n : Int)), []) := by
  have hdigit := isDigit_of_mem_toDecimal n
  obtain ⟨c, digits, hcons⟩ := List.exists_cons_of_ne_nil (toDecimal_ne_nil n)
  obtain ⟨hspace, hminus, hplus, _⟩ := isDigit_spec (hdigit c (hcons ▸ List.mem_cons_self))
  have hdrop : (32 :: toDecimal n).dropWhile isSpace = toDecimal n := by
    rw [List.dropWhile_cons_of_pos (by decide), hcons, List.dropWhile_cons_of_neg (by simp [hspace])]
  have hhead : (toDecimal n).head? = some c := by rw [hcons]; rfl
  have htake : (toDecimal n).takeWhile isDigit = toDecimal n := List.takeWhile_eq_self_iff.mpr hdigit
  have hrest : (toDecimal n).dropWhile isDigit = [] := List.dropWhile_eq_nil_iff.mpr hdigit
  rw [strtol]
  simp only [hdrop, hhead, Option.some.injEq, hminus, hplus, or_self, if_false, htake, hrest,
    digitsValue_toDecimal, List.isEmpty_iff, toDecimal_ne_nil, Prod.mk.injEq, true_and, and_true,
    decide_eq_decide]
  omega

theorem parseContentLength_toDecimal {n : Nat} (h : n < 2147483648) :
    parseContentLength (32 :: toDecimal n) = some (n : Int) := by
  have hnul : cStr (32 :: toDecimal n) = 32 :: toDecimal n := by
    refine List.takeWhile_eq_self_iff.mpr fun c hc => ?_
    rcases List.mem_cons.mp hc with rfl | hc
    · decide
    · simpa using (isDigit_spec (isDigit_of_mem_toDecimal n c hc)).2.2.2.1
  rw [parseContentLength, hnul, strtol_toDecimal]
  dsimp only
  rw [if_neg (by simp; omega)]
  rfl

/-- The header line that `WriterMsg` writes. -/
def headerLine (n : Nat) : Bytes := bytesOf "Content-Length: " ++ toDecimal n

theorem headerLine_eq (n : Nat) : headerLine n = contentLengthHeader ++ 58 :: 32 :: toDecimal n := by
  have hname : bytesOf "Content-Length: " = contentLengthHeader ++ [58, 32] := by decide
  rw [headerLine, hname, List.append_assoc]
  rfl

theorem not_mem_headerLine (n : Nat) : (10 : UInt8) ∉ headerLine n ∧ (13 : UInt8) ∉ headerLine n := by
  have hdigits : (10 : UInt8) ∉ toDecimal n ∧ (13 : UInt8) ∉ toDecimal n := by
    refine ⟨fun h => ?_, fun h => ?_⟩
    · exact (isDigit_spec (isDigit_of_mem_toDecimal n _ h)).2.2.2.2.1 rfl
    · exact (isDigit_spec (isDigit_of_mem_toDecimal n _ h)).2.2.2.2.2 rfl
  have hname : (10 : UInt8) ∉ bytesOf "Content-Length: " ∧ (13 : UInt8) ∉ bytesOf "Content-Length: " := by
    decide
  rw [headerLine, List.mem_append, List.mem_append]
  exact ⟨not_or.mpr ⟨hname.1, hdigits.1⟩, not_or.mpr ⟨hname.2, hdigits.2⟩⟩

theorem parseHeader_headerLine {n : Nat} (h : n < 2147483648) (headers : Headers) :
    parseHeader (headerLine n) headers = { headers with contentLength := n } := by
  have hsep : Search.find [58] (headerLine n) = some 14 := by
    rw [headerLine_eq, Search.find_skip (by decide), Search.find_eq_zero (by simp)]
    rfl
  have hkey : (headerLine n).take 14 = contentLengthHeader := by
    rw [headerLine_eq]
    exact List.take_left' rfl
  have hvalue : (headerLine n).drop (14 + 1) = 32 :: toDecimal n := by
    have hafter : (contentLengthHeader ++ 58 :: 32 :: toDecimal n).drop 14 = 58 :: 32 :: toDecimal n :=
      List.drop_left' rfl
    rw [headerLine_eq, ← List.drop_drop, hafter]
    rfl
  rw [parseHeader, hsep]
  dsimp only
  rw [if_pos hkey, hvalue, parseContentLength_toDecimal h]

theorem parseHeaderBlock_headerLine {n : Nat} (h : n < 2147483648) :
    parseHeaderBlock (headerLine n) {} = { contentLength := n } := by
  have hlast : dropCarriageReturn (headerLine n) = headerLine n := by
    rw [dropCarriageReturn, if_neg]
    exact fun hcr => (not_mem_headerLine n).2 (List.mem_of_getLast? hcr)
  have hne : headerLine n ≠ [] := by
    rw [headerLine_eq]
    exact List.append_ne_nil_of_left_ne_nil (by decide) _
  rw [parseHeaderBlock, List.splitOn_eq_singleton (not_mem_headerLine n).1, List.foldl_cons,
    List.foldl_nil, hlast, if_neg hne, parseHeader_headerLine h]

/-- An empty line before the header line is passed over. -/
theorem parseHeaderBlock_lf (block : Bytes) : parseHeaderBlock (10 :: block) {} = parseHeaderBlock block {} := by
  rw [parseHeaderBlock, List.splitOn_cons_eq_if_modifyHead, if_pos (by decide)]
  rfl

theorem parseHeaderBlock_crlf (block : Bytes) :
    parseHeaderBlock (13 :: 10 :: block) {} = parseHeaderBlock block {} := by
  rw [parseHeaderBlock, List.splitOn_cons_eq_if_modifyHead, if_neg (by decide),
    List.splitOn_cons_eq_if_modifyHead, if_pos (by decide)]
  rfl

theorem findHeaderEnd_crlfcrlf (text : Bytes) : findHeaderEnd (crlfcrlf ++ text) = some (0, 4) := by
  refine findHeaderEnd_crlf (Search.find_eq_zero (List.prefix_append _ _)) fun lf hlf => ?_
  rw [Nat.pos_iff_ne_zero]
  rintro rfl
  have := Search.prefix_drop_of_find hlf
  simp [lflf, crlfcrlf] at this

theorem findHeaderEnd_lflf (text : Bytes) : findHeaderEnd (lflf ++ text) = some (0, 2) :=
  findHeaderEnd_lf (Search.find_eq_zero (List.prefix_append _ _)) fun _ _ => Nat.zero_le _

theorem findHeaderEnd_cons {x : UInt8} {text : Bytes} (hcrlf : ¬crlfcrlf <+: x :: text)
    (hlf : ¬lflf <+: x :: text) :
    findHeaderEnd (x :: text) = (findHeaderEnd text).map fun found => (found.1 + 1, found.2) := by
  rw [findHeaderEnd, findHeaderEnd, Search.find_cons hcrlf, Search.find_cons hlf]
  cases Search.find crlfcrlf text <;> cases Search.find lflf text <;> simp
  split_ifs <;> rfl

/-- The delimiter of a header line stands after it. -/
theorem findHeaderEnd_skip {line : Bytes} (h : (10 : UInt8) ∉ line ∧ (13 : UInt8) ∉ line) (text : Bytes) :
    findHeaderEnd (line ++ text) = (findHeaderEnd text).map fun found => (found.1 + line.length, found.2) := by
  induction line with
  | nil => simp
  | cons x line ih =>
      simp only [List.mem_cons, not_or] at h
      have hcrlf : ¬crlfcrlf <+: x :: (line ++ text) := by
        rw [crlfcrlf, List.cons_prefix_cons]
        exact fun heq => h.2.1 heq.1
      have hlf : ¬lflf <+: x :: (line ++ text) := by
        rw [lflf, List.cons_prefix_cons]
        exact fun heq => h.1.1 heq.1
      rw [List.cons_append, findHeaderEnd_cons hcrlf hlf, ih ⟨h.1.2, h.2.2⟩, Option.map_map]
      congr 1

theorem findHeaderEnd_headerLine (n : Nat) (text : Bytes) :
    findHeaderEnd (headerLine n ++ crlfcrlf ++ text) = some ((headerLine n).length, 4) := by
  rw [List.append_assoc, findHeaderEnd_skip (not_mem_headerLine n),
    findHeaderEnd_crlfcrlf]
  simp

/-! ### Frames and the line breaks before them -/

inductive LineBreak where
  | crlf
  | lf
  deriving DecidableEq, Repr

def LineBreak.bytes : LineBreak → Bytes
  | .crlf => [13, 10]
  | .lf => [10]

/-- A frame and the line breaks that stand before it. -/
structure NoisyFrame where
  noise : List LineBreak
  body : Bytes
  deriving DecidableEq, Repr

def noiseBytes (noise : List LineBreak) : Bytes := noise.flatMap LineBreak.bytes

def encode (frames : List NoisyFrame) : Bytes :=
  frames.flatMap fun frame => noiseBytes frame.noise ++ writerMsg frame.body

/-- The contents that the message consumer is called with. -/
def messages (events : List ListenEvent) : List Bytes :=
  events.filterMap fun
    | .message content => some content
    | .issue .. => none

/-- The calls of the issue handler. -/
def issues (events : List ListenEvent) : List (Bytes × LogLevel) :=
  events.filterMap fun
    | .message _ => none
    | .issue text level => some (text, level)

/-- A header block of empty lines is reported and skipped. -/
theorem decode_empty_header (settings : ProducerSettings) {bytes : Bytes} {headerEnd delimiterSize : Nat}
    (hend : findHeaderEnd bytes = some (headerEnd, delimiterSize))
    (hblock : parseHeaderBlock (bytes.take headerEnd) {} = {}) :
    ∃ text, decode settings bytes =
      .issue text .warning :: decode settings (bytes.drop (headerEnd + delimiterSize)) := by
  refine ⟨bytesOf "Unexpected token:" ++ bytes.take headerEnd ++
    bytesOf "  (expected Content-Length: sequence);", ?_⟩
  rw [decode_of_some hend, decodeFrame, hblock]
  rfl

/-- A frame of an accepted size, after line breaks that belong to its header block. -/
theorem decode_frame {settings : ProducerSettings} {lead body rest : Bytes}
    (hend : findHeaderEnd (lead ++ writerMsg body ++ rest) =
      some (lead.length + (headerLine body.length).length, 4))
    (hblock : parseHeaderBlock (lead ++ headerLine body.length) {} = { contentLength := body.length })
    (hsize : settings.maxFrameSize = 0 ∨ body.length ≤ settings.maxFrameSize) :
    decode settings (lead ++ writerMsg body ++ rest) = .message body :: decode settings rest := by
  have hbytes : lead ++ writerMsg body ++ rest =
      (lead ++ headerLine body.length) ++ (crlfcrlf ++ (body ++ rest)) := by
    simp [writerMsg, headerLine]
  have hlen : (lead ++ headerLine body.length).length = lead.length + (headerLine body.length).length :=
    List.length_append
  have hafter : (crlfcrlf ++ (body ++ rest)).drop 4 = body ++ rest := List.drop_left' rfl
  rw [decode_of_some hend, hbytes, ← hlen, List.take_left' rfl, ← List.drop_drop, List.drop_left' rfl, hafter,
    decodeFrame, hblock]
  dsimp only
  rw [if_neg (by omega), if_neg (by rw [Int.toNat_natCast]; omega), if_pos (by simp), Int.toNat_natCast,
    List.take_left' rfl, List.drop_left' rfl]
  rfl

/-- A line break directly before a text that begins with another letter belongs to the block. -/
theorem findHeaderEnd_lf_line {tail : Bytes} {headerEnd : Nat}
    (h : findHeaderEnd (67 :: tail) = some (headerEnd, 4)) :
    findHeaderEnd (10 :: 67 :: tail) = some (headerEnd + 1, 4) := by
  rw [findHeaderEnd_cons (by simp [crlfcrlf]) (by simp [lflf]), h]
  rfl

theorem findHeaderEnd_crlf_line {tail : Bytes} {headerEnd : Nat}
    (h : findHeaderEnd (67 :: tail) = some (headerEnd, 4)) :
    findHeaderEnd (13 :: 10 :: 67 :: tail) = some (headerEnd + 2, 4) := by
  rw [findHeaderEnd_cons (by simp [crlfcrlf]) (by simp [lflf]), findHeaderEnd_lf_line h]
  rfl

theorem findHeaderEnd_lf_crlf_line {tail : Bytes} {headerEnd : Nat}
    (h : findHeaderEnd (67 :: tail) = some (headerEnd, 4)) :
    findHeaderEnd (10 :: 13 :: 10 :: 67 :: tail) = some (headerEnd + 3, 4) := by
  rw [findHeaderEnd_cons (by simp [crlfcrlf]) (by simp [lflf]), findHeaderEnd_crlf_line h]
  rfl

/-- The bytes mean some reports, then a message, then what the rest means. -/
def Delivers (settings : ProducerSettings) (bytes body rest : Bytes) (reported : List (Bytes × LogLevel)) :
    Prop :=
  decode settings bytes =
    reported.map (fun issue => .issue issue.1 issue.2) ++ .message body :: decode settings rest

/-- Line breaks that make a delimiter are cut off with it and reported. -/
theorem Delivers.cut {settings : ProducerSettings} {bytes body rest bytes' : Bytes}
    {reported : List (Bytes × LogLevel)} {headerEnd delimiterSize : Nat}
    (h : Delivers settings bytes' body rest reported)
    (hend : findHeaderEnd bytes = some (headerEnd, delimiterSize))
    (hblock : parseHeaderBlock (bytes.take headerEnd) {} = {})
    (hrest : bytes.drop (headerEnd + delimiterSize) = bytes') :
    ∃ text, Delivers settings bytes body rest ((text, .warning) :: reported) := by
  obtain ⟨text, htext⟩ := decode_empty_header settings hend hblock
  refine ⟨text, ?_⟩
  rw [Delivers, htext, hrest, h]
  rfl

/-- The line breaks before a frame cause reports at most, and none where there is at most one of them. -/
theorem decode_noise (settings : ProducerSettings) {body : Bytes} (hbody : body.length < 2147483648)
    (hsize : settings.maxFrameSize = 0 ∨ body.length ≤ settings.maxFrameSize) (rest : Bytes)
    (noise : List LineBreak) : ∃ reported, (noise.length ≤ 1 → reported = []) ∧
      Delivers settings (noiseBytes noise ++ writerMsg body ++ rest) body rest reported := by
  have hblock := parseHeaderBlock_headerLine hbody
  have hend : ∃ tail, writerMsg body ++ rest = 67 :: tail ∧
      findHeaderEnd (67 :: tail) = some ((headerLine body.length).length, 4) := by
    refine ⟨_, rfl, ?_⟩
    have := findHeaderEnd_headerLine body.length (body ++ rest)
    rwa [← List.append_assoc] at this
  obtain ⟨tail, htail, hend⟩ := hend
  match noise with
  | [] =>
      refine ⟨[], fun _ => rfl, decode_frame ?_ hblock hsize⟩
      exact (congrArg findHeaderEnd htail).trans (hend.trans (by rw [Nat.add_comm]; rfl))
  | [.lf] =>
      refine ⟨[], fun _ => rfl, decode_frame ?_ ((parseHeaderBlock_lf _).trans hblock) hsize⟩
      rw [List.append_assoc, htail]
      exact (findHeaderEnd_lf_line hend).trans (by rw [Nat.add_comm]; rfl)
  | [.crlf] =>
      refine ⟨[], fun _ => rfl, decode_frame ?_ ((parseHeaderBlock_crlf _).trans hblock) hsize⟩
      rw [List.append_assoc, htail]
      exact (findHeaderEnd_crlf_line hend).trans (by rw [Nat.add_comm]; rfl)
  | [.lf, .crlf] =>
      refine ⟨[], fun _ => rfl, decode_frame ?_ ?_ hsize⟩
      · rw [List.append_assoc, htail]
        exact (findHeaderEnd_lf_crlf_line hend).trans (by rw [Nat.add_comm]; rfl)
      · calc parseHeaderBlock (10 :: 13 :: 10 :: headerLine body.length) {}
            = parseHeaderBlock (13 :: 10 :: headerLine body.length) {} := parseHeaderBlock_lf _
          _ = parseHeaderBlock (headerLine body.length) {} := parseHeaderBlock_crlf _
          _ = { contentLength := body.length } := hblock
  | .lf :: .lf :: noise =>
      obtain ⟨reported, _, h⟩ := decode_noise settings hbody hsize rest noise
      obtain ⟨text, h⟩ := h.cut (findHeaderEnd_lflf _) rfl rfl
      exact ⟨_, by simp, h⟩
  | .crlf :: .crlf :: noise =>
      obtain ⟨reported, _, h⟩ := decode_noise settings hbody hsize rest noise
      obtain ⟨text, h⟩ := h.cut (findHeaderEnd_crlfcrlf _) rfl rfl
      exact ⟨_, by simp, h⟩
  | .crlf :: .lf :: noise =>
      obtain ⟨reported, _, h⟩ := decode_noise settings hbody hsize rest noise
      have hfound : findHeaderEnd (13 :: (lflf ++ (noiseBytes noise ++ writerMsg body ++ rest))) =
          some (1, 2) := by
        rw [findHeaderEnd_cons (by simp [crlfcrlf, lflf]) (by simp [lflf]), findHeaderEnd_lflf]
        rfl
      obtain ⟨text, h⟩ := h.cut hfound rfl rfl
      exact ⟨_, by simp, h⟩
  | .lf :: .crlf :: .lf :: noise =>
      obtain ⟨reported, _, h⟩ := decode_noise settings hbody hsize rest noise
      have hfound : findHeaderEnd (10 :: 13 :: (lflf ++ (noiseBytes noise ++ writerMsg body ++ rest))) =
          some (2, 2) := by
        rw [findHeaderEnd_cons (by simp [crlfcrlf]) (by simp [lflf]),
          findHeaderEnd_cons (by simp [crlfcrlf, lflf]) (by simp [lflf]), findHeaderEnd_lflf]
        rfl
      obtain ⟨text, h⟩ := h.cut hfound rfl rfl
      exact ⟨_, by simp, h⟩
  | .lf :: .crlf :: .crlf :: noise =>
      obtain ⟨reported, _, h⟩ := decode_noise settings hbody hsize rest noise
      have hfound : findHeaderEnd (10 :: (crlfcrlf ++ (noiseBytes noise ++ writerMsg body ++ rest))) =
          some (1, 4) := by
        rw [findHeaderEnd_cons (by simp [crlfcrlf]) (by simp [crlfcrlf, lflf]), findHeaderEnd_crlfcrlf]
        rfl
      obtain ⟨text, h⟩ := h.cut hfound rfl rfl
      exact ⟨_, by simp, h⟩

theorem messages_append (events events' : List ListenEvent) :
    messages (events ++ events') = messages events ++ messages events' := List.filterMap_append

theorem messages_reported (reported : List (Bytes × LogLevel)) :
    messages (reported.map fun issue => .issue issue.1 issue.2) = [] := by
  rw [messages, List.filterMap_map]
  exact List.filterMap_eq_nil_iff.mpr fun _ _ => rfl

/-- The meaning of encoded frames is their bodies. -/
theorem decode_encode {settings : ProducerSettings} (hmax : settings.maxFrameSize = 0)
    (frames : List NoisyFrame) (hlen : ∀ frame ∈ frames, frame.body.length < 2147483648) :
    messages (decode settings (encode frames)) = frames.map NoisyFrame.body ∧
      ((∀ frame ∈ frames, frame.noise.length ≤ 1) → issues (decode settings (encode frames)) = []) := by
  induction frames with
  | nil => simp [encode, decode_of_none (show findHeaderEnd [] = none from rfl), messages, issues]
  | cons frame frames ih =>
      rw [List.forall_mem_cons] at hlen
      obtain ⟨hmessages, hissues⟩ := ih hlen.2
      obtain ⟨reported, hquiet, hdelivers⟩ :=
        decode_noise settings hlen.1 (.inl hmax) (encode frames) frame.noise
      have hdecode : decode settings (encode (frame :: frames)) =
          reported.map (fun issue => .issue issue.1 issue.2) ++
            .message frame.body :: decode settings (encode frames) := hdelivers
      rw [hdecode]
      refine ⟨?_, fun hnoise => ?_⟩
      · rw [messages_append, messages_reported, List.nil_append, List.map_cons, ← hmessages]
        rfl
      · rw [List.forall_mem_cons] at hnoise
        rw [hquiet hnoise.1]
        exact hissues hnoise.2

/-- **Frames survive the wire under any chunking**: on a stream that yields encoded frames, in pieces of any
size, `listen` hands on exactly their bodies, in their order, and returns. It reports nothing where at most
one line break stands before each frame. -/
theorem listen_encode {σ : Type*} (S : IStream σ) (At : σ → Bytes → Prop) (hS : S.Yields At)
    (settings : ProducerSettings) (hmax : settings.maxFrameSize = 0) (frames : List NoisyFrame)
    (hlen : ∀ frame ∈ frames, frame.body.length < 2147483648) (s : σ) (hs : At s (encode frames)) :
    ∃ rounds, ∀ fuel, rounds ≤ fuel → ∃ events, listen S settings fuel s [] = some events ∧
      messages events = frames.map NoisyFrame.body ∧
      ((∀ frame ∈ frames, frame.noise.length ≤ 1) → issues events = []) := by
  refine ⟨(encode frames).length + 2, fun fuel hfuel => ⟨decode settings (encode frames), ?_, ?_⟩⟩
  · exact hS.listen_eq_decode settings fuel hs [] (by rw [List.nil_append]; omega)
  · exact decode_encode hmax frames hlen

/-- A stream over bytes in memory that hands out at most `size` of them at a time; its state is what is left
and whether a read has come short. -/
def piecesOf (size : Nat) : IStream (Bytes × Bool) where
  readSome n s := (s.1.take (min n size), s.1.drop (min n size), s.2)
  read n s := (s.1.take n, s.1.drop n, s.2 || decide (s.1.length < n))
  eof s := s.2
  fail s := s.2
  bad _ := false
  what _ := []
  needToClearTheState _ := false
  clear s := (s.1, false)

theorem piecesOf_yields {size : Nat} (hsize : 0 < size) :
    (piecesOf size).Yields fun s rest => s = (rest, false) where
  readSome := by
    rintro _ rest n rfl hrest hn
    have := List.length_pos_iff.mpr hrest
    refine ⟨min (min n size) rest.length, by omega, by omega, by omega, ?_, ?_⟩
    · exact List.take_eq_take_min
    · exact congrArg (·, false) List.drop_eq_drop_min
  readSome_end := by
    rintro _ n rfl _
    exact List.take_nil
  read := by
    rintro _ rest n rfl _ hn
    have hlong : ¬rest.length < n := by omega
    refine ⟨rfl, ?_, ?_⟩ <;> simp [piecesOf, hlong]
  read_short := by
    rintro _ rest n rfl hn
    simp [piecesOf, hn]
  good := by
    rintro _ rest rfl
    exact ⟨rfl, rfl⟩
  eof := by
    rintro _ rest rfl h
    cases h

/-- A stream over bytes in memory that hands out at most three of them at a time; its state is what is left
and whether a read has come short. -/
def memoryStream : IStream (Bytes × Bool) where
  readSome n s := (s.1.take (min n 3), s.1.drop (min n 3), s.2)
  read n s := (s.1.take n, s.1.drop n, s.2 || decide (s.1.length < n))
  eof s := s.2
  fail s := s.2
  bad _ := false
  what _ := []
  needToClearTheState _ := false
  clear s := (s.1, false)

theorem memoryStream_yields : memoryStream.Yields fun s rest => s = (rest, false) :=
  piecesOf_yields (by decide)

theorem listen_encode_memoryStream :
    ∃ rounds, ∀ fuel, rounds ≤ fuel → ∃ events,
      listen memoryStream {} fuel (encode [⟨[.crlf], bytesOf "[1]"⟩, ⟨[.lf], []⟩, ⟨[], bytesOf "\n\n2"⟩], false) [] =
        some events ∧ messages events = [bytesOf "[1]", [], bytesOf "\n\n2"] ∧ issues events = [] := by
  obtain ⟨rounds, hrounds⟩ := listen_encode memoryStream _ memoryStream_yields {} rfl
    [⟨[.crlf], bytesOf "[1]"⟩, ⟨[.lf], []⟩, ⟨[], bytesOf "\n\n2"⟩] (by decide) _ rfl
  refine ⟨rounds, fun fuel hfuel => ?_⟩
  obtain ⟨events, hlisten, hmessages, hissues⟩ := hrounds fuel hfuel
  exact ⟨events, hlisten, hmessages, hissues (by decide)⟩

end LspCpp

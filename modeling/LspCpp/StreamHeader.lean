import LspCpp.LibSearch

/-! The header of a frame: where it ends in the bytes read so far, and the length it declares. Texts are
lists of bytes. -/

namespace LspCpp

abbrev Bytes := List UInt8

/-- The bytes of a text of ASCII characters. -/
def bytesOf (text : String) : Bytes := text.toList.map fun c => UInt8.ofNat c.toNat

/-- `std::to_string` of a number that is not negative. -/
def toDecimal (n : Nat) : Bytes := (Nat.toDigits 10 n).map fun c => UInt8.ofNat c.toNat

/-- `std::string::c_str`: the text ends at its first NUL. -/
def cStr (text : Bytes) : Bytes := text.takeWhile (· != 0)

/-- `isspace` of the "C" locale. -/
def isSpace (c : UInt8) : Bool := c == 32 || (9 ≤ c && c ≤ 13)

def isDigit (c : UInt8) : Bool := 48 ≤ c && c ≤ 57

/-- The number that a sequence of decimal digits denotes. -/
def digitsValue (digits : Bytes) : Nat := digits.foldl (fun n c => 10 * n + (c.toNat - 48)) 0

/-- `strtol(text, &end, 10)` with a 64-bit `long`: the number and the text from `end` on, or nothing where
there is no number to convert; the flag tells that the number is out of range (`ERANGE`). -/
def strtol (text : Bytes) : Option (Int × Bool × Bytes) :=
  let unsigned := text.dropWhile isSpace
  let negative := unsigned.head? = some 45
  let digits := if negative ∨ unsigned.head? = some 43 then unsigned.tail else unsigned
  if (digits.takeWhile isDigit).isEmpty then none
  else
    let magnitude : Int := digitsValue (digits.takeWhile isDigit)
    let value := if negative then -magnitude else magnitude
    some (value, value < -9223372036854775808 ∨ 9223372036854775807 < value, digits.dropWhile isDigit)

/-- `parseContentLength`: the length, where the value is accepted. -/
def parseContentLength (value : Bytes) : Option Int :=
  match strtol (cStr value) with
  | none => none
  | some (parsed, outOfRange, tail) =>
      if outOfRange ∨ parsed < 0 ∨ 2147483647 < parsed then none
      else if (tail.dropWhile fun c => c == 32 || c == 9).isEmpty then some parsed
      else none

/-- `LSPStreamMessageProducer::Headers`. -/
structure Headers where
  contentLength : Int := -1
  charset : Bytes := []
  deriving DecidableEq, Repr

def contentLengthHeader : Bytes := bytesOf "Content-Length"

def contentTypeHeader : Bytes := bytesOf "Content-Type"

/-- `LSPStreamMessageProducer::parseHeader`. -/
def parseHeader (line : Bytes) (headers : Headers) : Headers :=
  match Search.find [58] line with
  | none => headers
  | some sepIndex =>
      if line.take sepIndex = contentLengthHeader then
        match parseContentLength (line.drop (sepIndex + 1)) with
        | none => headers
        | some contentLength => { headers with contentLength := contentLength }
      else if line.take sepIndex = contentTypeHeader then
        match Search.find (bytesOf "charset=") line with
        | none => headers
        | some charsetIndex => { headers with charset := line.drop (charsetIndex + 8) }
      else headers

/-- A line without the CR that ends it. -/
def dropCarriageReturn (line : Bytes) : Bytes := if line.getLast? = some 13 then line.dropLast else line

/-- `parseHeaderBlock`: the lines of the block, which are separated by LF, one after the other. -/
def parseHeaderBlock (block : Bytes) (headers : Headers) : Headers :=
  (block.splitOn 10).foldl (fun headers line =>
    if dropCarriageReturn line = [] then headers else parseHeader (dropCarriageReturn line) headers) headers

def crlfcrlf : Bytes := [13, 10, 13, 10]

def lflf : Bytes := [10, 10]

/-- `findHeaderEnd`: the position of the earliest delimiter, and its size. -/
def findHeaderEnd (buffer : Bytes) : Option (Nat × Nat) :=
  match Search.find crlfcrlf buffer, Search.find lflf buffer with
  | none, none => none
  | none, some lf => some (lf, 2)
  | some crlf, none => some (crlf, 4)
  | some crlf, some lf => if crlf < lf then some (crlf, 4) else some (lf, 2)

/-- What `findHeaderEnd` finds is the delimiter that begins first. -/
theorem findHeaderEnd_cases {buffer : Bytes} {headerEnd delimiterSize : Nat}
    (h : findHeaderEnd buffer = some (headerEnd, delimiterSize)) :
    delimiterSize = 4 ∧ Search.find crlfcrlf buffer = some headerEnd ∧
        (∀ lf, Search.find lflf buffer = some lf → headerEnd < lf) ∨
      delimiterSize = 2 ∧ Search.find lflf buffer = some headerEnd ∧
        (∀ crlf, Search.find crlfcrlf buffer = some crlf → headerEnd ≤ crlf) := by
  unfold findHeaderEnd at h
  split at h
  · cases h
  · rename_i lf hcrlf hlf
    cases h
    exact .inr ⟨rfl, hlf, fun crlf h => by cases hcrlf.symm.trans h⟩
  · rename_i crlf hcrlf hlf
    cases h
    exact .inl ⟨rfl, hcrlf, fun lf h => by cases hlf.symm.trans h⟩
  · rename_i crlf lf hcrlf hlf
    split_ifs at h with hlt
    · cases h
      exact .inl ⟨rfl, hcrlf, fun lf' h => Option.some.inj (hlf.symm.trans h) ▸ hlt⟩
    · cases h
      exact .inr ⟨rfl, hlf, fun crlf' h => Option.some.inj (hcrlf.symm.trans h) ▸ Nat.le_of_not_lt hlt⟩

theorem findHeaderEnd_crlf {buffer : Bytes} {crlf : Nat} (hcrlf : Search.find crlfcrlf buffer = some crlf)
    (hlf : ∀ lf, Search.find lflf buffer = some lf → crlf < lf) : findHeaderEnd buffer = some (crlf, 4) := by
  unfold findHeaderEnd
  rw [hcrlf]
  cases h : Search.find lflf buffer with
  | none => rfl
  | some lf => exact if_pos (hlf lf h)

theorem findHeaderEnd_lf {buffer : Bytes} {lf : Nat} (hlf : Search.find lflf buffer = some lf)
    (hcrlf : ∀ crlf, Search.find crlfcrlf buffer = some crlf → lf ≤ crlf) :
    findHeaderEnd buffer = some (lf, 2) := by
  unfold findHeaderEnd
  rw [hlf]
  cases h : Search.find crlfcrlf buffer with
  | none => rfl
  | some crlf => exact if_neg (Nat.not_lt.mpr (hcrlf crlf h))

/-- The delimiter lies in the buffer and is not empty. -/
theorem findHeaderEnd_bound {buffer : Bytes} {headerEnd delimiterSize : Nat}
    (h : findHeaderEnd buffer = some (headerEnd, delimiterSize)) :
    0 < delimiterSize ∧ headerEnd + delimiterSize ≤ buffer.length := by
  rcases findHeaderEnd_cases h with ⟨rfl, hfind, _⟩ | ⟨rfl, hfind, _⟩
  · exact ⟨by omega, Search.add_length_le_of_find hfind⟩
  · exact ⟨by omega, Search.add_length_le_of_find hfind⟩

/-- An LFLF does not begin one byte after a CRLFCRLF. -/
theorem not_lflf_of_crlfcrlf {text : Bytes} {i : Nat} (hcrlf : crlfcrlf <+: text.drop i) :
    ¬lflf <+: text.drop (i + 1) := by
  obtain ⟨tail, htail⟩ := hcrlf
  intro hlf
  rw [← List.drop_drop, ← htail] at hlf
  simp [crlfcrlf, lflf] at hlf

/-- **Where a header ends does not depend on what follows it**: bytes that arrive after the delimiter do not
move it. -/
theorem findHeaderEnd_append {buffer : Bytes} {headerEnd delimiterSize : Nat}
    (h : findHeaderEnd buffer = some (headerEnd, delimiterSize)) (more : Bytes) :
    findHeaderEnd (buffer ++ more) = some (headerEnd, delimiterSize) := by
  rcases findHeaderEnd_cases h with ⟨rfl, hcrlf, hlf⟩ | ⟨rfl, hlf, hcrlf⟩
  · refine findHeaderEnd_crlf (Search.find_append hcrlf more) fun lf hfound => ?_
    cases hold : Search.find lflf buffer with
    | some lf' =>
        obtain rfl := Option.some.inj ((Search.find_append hold more).symm.trans hfound)
        exact hlf _ hold
    | none =>
        have hnew : buffer.length < lf + 2 := Search.length_lt_of_find_append hold hfound
        have hlen : headerEnd + 4 ≤ buffer.length := Search.add_length_le_of_find hcrlf
        omega
  · refine findHeaderEnd_lf (Search.find_append hlf more) fun crlf hfound => ?_
    cases hold : Search.find crlfcrlf buffer with
    | some crlf' =>
        obtain rfl := Option.some.inj ((Search.find_append hold more).symm.trans hfound)
        exact hcrlf _ hold
    | none =>
        have hnew : buffer.length < crlf + 4 := Search.length_lt_of_find_append hold hfound
        have hlen : headerEnd + 2 ≤ buffer.length := Search.add_length_le_of_find hlf
        by_contra hlt
        obtain rfl : headerEnd = crlf + 1 := by omega
        exact not_lflf_of_crlfcrlf (Search.prefix_drop_of_find hfound)
          (Search.prefix_drop_of_find (Search.find_append hlf more))

end LspCpp

import LspCpp.StreamListen
import Mathlib.Data.List.DropRight

/-! The producer of the delimited style: messages stand between lines that hold the delimiter, the lines of a
message are trimmed and joined, and comment lines are passed over. -/

namespace LspCpp

/-- An `lsp::istream` with its `get`, which returns nothing at the end of the input. -/
structure CharStream (σ : Type*) extends IStream σ where
  get : σ → Option UInt8 × σ

section Listen

variable {σ : Type*} (S : CharStream σ)

/-- The lambda `readLine`: the characters up to the next LF without the CRs, where a line without any is passed
over; nothing where the producer stops. -/
def readLine : Nat → σ → Bytes → Option (List ListenEvent × Option (Bytes × σ))
  | 0, _, _ => none
  | fuel + 1, s, lineBuilder =>
      match reportInputState S.toIStream s with
      | (false, _, events) => some (events, none)
      | (true, s, events) =>
          match S.get s with
          | (none, _) => some (events, none)
          | (some c, s) =>
              if c = 10 ∧ lineBuilder ≠ [] then some (events, some (lineBuilder ++ [c], s))
              else
                (readLine fuel s (if c = 10 ∨ c = 13 then lineBuilder else lineBuilder ++ [c])).map fun rest =>
                  (events ++ rest.1, rest.2)

/-- The characters that the lambda `trimWhitespace` takes off both ends of a line. -/
def isBlank (c : UInt8) : Bool := c == 32 || c == 9 || c == 13 || c == 10

def trimWhitespace (line : Bytes) : Bytes := (line.dropWhile isBlank).rdropWhile isBlank

def isComment (line : Bytes) : Bool := (bytesOf "//").isPrefixOf line

/-- The line that ends a message. -/
def delimiterLine : Bytes := bytesOf "// -----"

def delimitedOverloadMessage (maxFrameSize : Nat) : Bytes :=
  bytesOf "Delimited frame size exceeds configured maximum " ++ toDecimal maxFrameSize ++ bytesOf "."

/-- The lambda `getMessage`: the lines up to the next delimiter, joined; nothing where the producer stops. What
was joined so far is dropped where it has become too large. -/
def getMessage (settings : ProducerSettings) : Nat → σ → Bytes → Option (List ListenEvent × Option (Bytes × σ))
  | 0, _, _ => none
  | fuel + 1, s, json =>
      match readLine S fuel s [] with
      | none => none
      | some (events, none) => some (events, none)
      | some (events, some (lineBuilder, s)) =>
          let line := trimWhitespace lineBuilder
          if isComment line then
            if line = delimiterLine then some (events, some (json, s))
            else (getMessage settings fuel s json).map fun rest => (events ++ rest.1, rest.2)
          else if settings.maxFrameSize ≠ 0 ∧ settings.maxFrameSize < (json ++ line).length then
            match reportOverload settings (delimitedOverloadMessage settings.maxFrameSize) with
            | (false, report) => some (events ++ report, none)
            | (true, report) =>
                (getMessage settings fuel s []).map fun rest => (events ++ report ++ rest.1, rest.2)
          else (getMessage settings fuel s (json ++ line)).map fun rest => (events ++ rest.1, rest.2)

/-- `DelimitedStreamMessageProducer::listen` on a stream that no other thread interrupts: the events in their
order, where it returns within the given number of rounds. -/
def listenDelimited (settings : ProducerSettings) : Nat → σ → Option (List ListenEvent)
  | 0, _ => none
  | fuel + 1, s =>
      match getMessage S settings fuel s [] with
      | none => none
      | some (events, none) => some events
      | some (events, some (json, s)) =>
          (listenDelimited settings fuel s).map fun rest => events ++ .message json :: rest

end Listen

/-- The lines of a text, each ended by LF, without their CRs; lines without any character are left out and what
follows the last LF is no line. -/
def rawLines (bytes : Bytes) : List Bytes :=
  ((Search.terminated 10 bytes).map fun line => line.filter (· != 13)).filter (· != [])

/-- The lines as `getMessage` looks at them. -/
def delimitedLines (bytes : Bytes) : List Bytes := (rawLines bytes).map trimWhitespace

/-- The lines of a text after the characters of a line that has been begun. -/
def linesAfter (lineBuilder bytes : Bytes) : List Bytes :=
  (((Search.terminated 10 bytes).map fun line => line.filter (· != 13)).modifyHead (lineBuilder ++ ·)).filter
    (· != [])

theorem linesAfter_empty (bytes : Bytes) : linesAfter [] bytes = rawLines bytes := by
  rw [linesAfter, rawLines]
  cases Search.terminated 10 bytes <;> simp

theorem linesAfter_lf (lineBuilder rest : Bytes) : linesAfter lineBuilder (10 :: rest) =
    if lineBuilder = [] then rawLines rest else lineBuilder :: rawLines rest := by
  rw [linesAfter, Search.terminated_separator, rawLines]
  by_cases hempty : lineBuilder = [] <;> simp [hempty]

/-- A character that does not end a line: an LF with no line begun, a CR, or a character of the line. -/
theorem linesAfter_cons {c : UInt8} {lineBuilder : Bytes} (h : ¬(c = 10 ∧ lineBuilder ≠ [])) (rest : Bytes) :
    linesAfter lineBuilder (c :: rest) =
      linesAfter (if c = 10 ∨ c = 13 then lineBuilder else lineBuilder ++ [c]) rest := by
  by_cases hlf : c = 10
  · have hempty : lineBuilder = [] := by simpa [hlf] using h
    rw [hlf, linesAfter_lf, if_pos hempty, if_pos (.inl rfl), hempty, linesAfter_empty]
  · rw [linesAfter, Search.terminated_cons hlf, linesAfter]
    by_cases hcr : c = 13 <;> cases Search.terminated 10 rest <;> simp [hlf, hcr]

/-- The LF that ends a line is trimmed away. -/
theorem trimWhitespace_lf (line : Bytes) : trimWhitespace (line ++ [10]) = trimWhitespace line := by
  rw [trimWhitespace, trimWhitespace, List.dropWhile_append]
  split_ifs with hblank
  · rw [List.isEmpty_iff] at hblank
    rw [hblank]
    rfl
  · exact List.rdropWhile_concat_pos _ _ _ rfl

/-- A stream whose `get` yields bytes, one after the other: `At s rest` tells that `rest` is what a stream in the
state `s` has still to yield. -/
structure CharStream.Gets {σ : Type*} (S : CharStream σ) (At : σ → Bytes → Prop) : Prop where
  get : ∀ {s c rest}, At s (c :: rest) → (S.get s).1 = some c ∧ At (S.get s).2 rest
  get_end : ∀ {s}, At s [] → (S.get s).1 = none
  good : ∀ {s rest}, At s rest → S.bad s = false ∧ S.fail s = false

/-- What the lines mean after those that have been joined to `json`. -/
def joinLines (settings : ProducerSettings) : Bytes → List Bytes → List ListenEvent
  | _, [] => []
  | json, line :: lines =>
      if isComment line then
        if line = delimiterLine then .message json :: joinLines settings [] lines
        else joinLines settings json lines
      else if settings.maxFrameSize ≠ 0 ∧ settings.maxFrameSize < (json ++ line).length then
        let report := reportOverload settings (delimitedOverloadMessage settings.maxFrameSize)
        if report.1 then report.2 ++ joinLines settings [] lines else report.2
      else joinLines settings (json ++ line) lines

section Refinement

variable {σ : Type*} {S : CharStream σ} {At : σ → Bytes → Prop}

/-- `readLine` finds the next line, or there is none. -/
theorem CharStream.Gets.readLine (hS : S.Gets At) (fuel : Nat) {s : σ} {rest : Bytes} (hs : At s rest)
    (lineBuilder : Bytes) (hfuel : rest.length < fuel) :
    (linesAfter lineBuilder rest = [] ∧ readLine S fuel s lineBuilder = some ([], none)) ∨
      ∃ line s' rest', linesAfter lineBuilder rest = line :: rawLines rest' ∧ At s' rest' ∧
        rest'.length < rest.length ∧ readLine S fuel s lineBuilder = some ([], some (line ++ [10], s')) := by
  induction fuel generalizing s rest lineBuilder with
  | zero => omega
  | succ fuel ih =>
      obtain ⟨hbad, hfail⟩ := hS.good hs
      have hstate : reportInputState S.toIStream s = (true, s, []) := by simp [reportInputState, hbad, hfail]
      rw [LspCpp.readLine, hstate]
      dsimp only
      cases rest with
      | nil =>
          have hend := hS.get_end hs
          split
          · exact .inl ⟨rfl, rfl⟩
          · rename_i c s' hget
            rw [hget] at hend
            cases hend
      | cons c rest =>
          obtain ⟨hget, hnext⟩ := hS.get hs
          rw [List.length_cons] at hfuel
          split
          · rename_i s' hget'
            rw [hget'] at hget
            cases hget
          · rename_i c' s' hget'
            rw [hget'] at hget hnext
            obtain rfl : c' = c := Option.some.inj hget
            by_cases hline : c' = 10 ∧ lineBuilder ≠ []
            · rw [if_pos hline]
              obtain ⟨rfl, hne⟩ := hline
              refine .inr ⟨lineBuilder, s', rest, ?_, hnext, by simp, rfl⟩
              rw [linesAfter_lf, if_neg hne]
            · rw [if_neg hline, linesAfter_cons hline]
              rcases ih hnext (if c' = 10 ∨ c' = 13 then lineBuilder else lineBuilder ++ [c']) (by omega) with
                ⟨hnone, heq⟩ | ⟨line, s'', rest', hlines, hs'', hlen, heq⟩
              · exact .inl ⟨hnone, by rw [heq]; rfl⟩
              · refine .inr ⟨line, s'', rest', hlines, hs'', ?_, by rw [heq]; rfl⟩
                rw [List.length_cons]
                omega

/-- What `getMessage` returns against the events that are due: it stops with all of them, or it has the next
message and those after it are due from a shorter rest on. -/
def Joins (At : σ → Bytes → Prop) (settings : ProducerSettings) (bound : Nat) (due : List ListenEvent) :
    Option (List ListenEvent × Option (Bytes × σ)) → Prop
  | none => False
  | some (events, none) => due = events
  | some (events, some (json, s)) => ∃ rest, At s rest ∧ rest.length < bound ∧
      due = events ++ .message json :: joinLines settings [] (delimitedLines rest)

theorem Joins.after {settings : ProducerSettings} {bound bound' : Nat} {due : List ListenEvent}
    {result : Option (List ListenEvent × Option (Bytes × σ))} (h : Joins At settings bound due result)
    (hbound : bound ≤ bound') (events : List ListenEvent) :
    Joins At settings bound' (events ++ due) (result.map fun rest => (events ++ rest.1, rest.2)) := by
  match result, h with
  | some (events', none), h => exact congrArg (events ++ ·) h
  | some (events', some (json, s)), ⟨rest, hs, hlen, hdue⟩ =>
      exact ⟨rest, hs, Nat.lt_of_lt_of_le hlen hbound, by rw [hdue, List.append_assoc]⟩

/-- `getMessage` joins the lines up to the next delimiter, or stops. -/
theorem CharStream.Gets.getMessage (hS : S.Gets At) (settings : ProducerSettings) (fuel : Nat) {s : σ} {rest : Bytes}
    (hs : At s rest) (json : Bytes) (hfuel : rest.length + 1 < fuel) :
    Joins At settings rest.length (joinLines settings json (delimitedLines rest))
      (getMessage S settings fuel s json) := by
  induction fuel generalizing s rest json with
  | zero => omega
  | succ fuel ih =>
      rcases hS.readLine fuel hs [] (by omega) with
        ⟨hnone, heq⟩ | ⟨line, s', rest', hlines, hs', hlen, heq⟩
      · rw [LspCpp.getMessage, heq, delimitedLines, ← linesAfter_empty, hnone]
        rfl
      · have hrest : delimitedLines rest = trimWhitespace line :: delimitedLines rest' := by
          rw [delimitedLines, ← linesAfter_empty, hlines]
          rfl
        rw [LspCpp.getMessage, heq, hrest, joinLines]
        dsimp only
        rw [trimWhitespace_lf]
        generalize reportOverload settings (delimitedOverloadMessage settings.maxFrameSize) = overload
        obtain ⟨goesOn, report⟩ := overload
        split_ifs with hcomment hdelimiter hlarge haccepted
        · exact ⟨rest', hs', hlen, rfl⟩
        · exact (ih hs' json (by omega)).after (Nat.le_of_lt hlen) []
        · cases goesOn with
          | false => cases haccepted
          | true => exact (ih hs' [] (by omega)).after (Nat.le_of_lt hlen) report
        · cases goesOn with
          | false => rfl
          | true => exact absurd rfl haccepted
        · exact (ih hs' (json ++ trimWhitespace line) (by omega)).after (Nat.le_of_lt hlen) []

/-- **`listenDelimited` computes the meaning of the lines** of the bytes that its stream yields. -/
theorem CharStream.Gets.listenDelimited (hS : S.Gets At) (settings : ProducerSettings) (fuel : Nat) {s : σ}
    {rest : Bytes} (hs : At s rest) (hfuel : rest.length + 2 < fuel) :
    listenDelimited S settings fuel s = some (joinLines settings [] (delimitedLines rest)) := by
  induction fuel generalizing s rest with
  | zero => omega
  | succ fuel ih =>
      have hjoins := hS.getMessage settings fuel hs [] (by omega)
      rw [LspCpp.listenDelimited]
      split <;> rename_i hmessage <;> rw [hmessage] at hjoins
      · exact hjoins.elim
      · exact congrArg some hjoins.symm
      · obtain ⟨rest', hs', hlen, hdue⟩ := hjoins
        rw [ih hs' (by omega), hdue]
        rfl

end Refinement

end LspCpp

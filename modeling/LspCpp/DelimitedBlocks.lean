import LspCpp.DelimitedListen
import LspCpp.StreamRoundTrip
import Mathlib.Data.List.Forall2

/-! What the delimited producer hands on for each block. A block within the size limit is handed on whole; of
one above it, what was joined up to the excess is dropped and the lines after it are handed on as if they were
the block. -/

namespace LspCpp

/-- The blocks of some lines: those between the delimiters, without the comments. What follows the last
delimiter is no block. -/
def blocksOf (lines : List Bytes) : List (List Bytes) :=
  (Search.terminated delimiterLine lines).map fun block => block.filter (!isComment ·)

/-- The blocks of a text. -/
def blocks (bytes : Bytes) : List (List Bytes) := blocksOf (delimitedLines bytes)

theorem blocksOf_delimiter (lines : List Bytes) : blocksOf (delimiterLine :: lines) = [] :: blocksOf lines := by
  rw [blocksOf, Search.terminated_separator]
  rfl

theorem blocksOf_comment {line : Bytes} (hne : line ≠ delimiterLine) (hcomment : isComment line = true)
    (lines : List Bytes) : blocksOf (line :: lines) = blocksOf lines := by
  rw [blocksOf, Search.terminated_cons hne, blocksOf]
  cases Search.terminated delimiterLine lines <;> simp [hcomment]

theorem blocksOf_line {line : Bytes} (hcomment : isComment line = false) (lines : List Bytes) :
    blocksOf (line :: lines) = (blocksOf lines).modifyHead (line :: ·) := by
  have hne : line ≠ delimiterLine := by
    rintro rfl
    cases hcomment
  rw [blocksOf, Search.terminated_cons hne, blocksOf]
  cases Search.terminated delimiterLine lines <;> simp [hcomment]

/-- The lines of a block joined to `json`, which is dropped whenever it exceeds the limit. -/
def accumulate (maxFrameSize : Nat) (json : Bytes) (block : List Bytes) : Bytes :=
  block.foldl (fun json line => if maxFrameSize < (json ++ line).length then [] else json ++ line) json

/-- What is handed on for some blocks, the first of which has been begun. -/
def contents (maxFrameSize : Nat) (json : Bytes) : List (List Bytes) → List Bytes
  | [] => []
  | block :: rest => accumulate maxFrameSize json block :: rest.map (accumulate maxFrameSize [])

theorem contents_empty (maxFrameSize : Nat) (blocks : List (List Bytes)) :
    contents maxFrameSize [] blocks = blocks.map (accumulate maxFrameSize []) := by
  cases blocks <;> rfl

theorem contents_cons (maxFrameSize : Nat) (json line : Bytes) (blocks : List (List Bytes)) :
    contents maxFrameSize json (blocks.modifyHead (line :: ·)) =
      contents maxFrameSize (if maxFrameSize < (json ++ line).length then [] else json ++ line) blocks := by
  cases blocks <;> rfl

theorem messages_joinLines {maxFrameSize : Nat} (hmax : 0 < maxFrameSize) (json : Bytes) (lines : List Bytes) :
    messages (joinLines ⟨maxFrameSize, some fun _ => true⟩ json lines) =
      contents maxFrameSize json (blocksOf lines) := by
  induction lines generalizing json with
  | nil => rfl
  | cons line lines ih =>
      rw [joinLines]
      cases hcomment : isComment line with
      | true =>
          by_cases hdelimiter : line = delimiterLine
          · rw [if_pos rfl, if_pos hdelimiter, hdelimiter, blocksOf_delimiter, contents, ← contents_empty, ← ih]
            rfl
          · rw [if_pos rfl, if_neg hdelimiter, blocksOf_comment hdelimiter hcomment, ih]
      | false =>
          rw [if_neg Bool.false_ne_true, blocksOf_line hcomment, contents_cons]
          by_cases hlarge : maxFrameSize < (json ++ line).length
          · rw [if_pos ⟨Nat.ne_of_gt hmax, hlarge⟩, if_pos hlarge, ← ih]
            rfl
          · rw [if_neg fun h => hlarge h.2, if_neg hlarge, ih]

theorem accumulate_of_le {maxFrameSize : Nat} (block : List Bytes) (json : Bytes)
    (h : json.length + block.flatten.length ≤ maxFrameSize) :
    accumulate maxFrameSize json block = json ++ block.flatten := by
  induction block generalizing json with
  | nil => exact (List.append_nil json).symm
  | cons line block ih =>
      rw [List.flatten_cons, List.length_append] at h
      have hsize : (json ++ line).length = json.length + line.length := List.length_append
      rw [accumulate, List.foldl_cons, if_neg (by omega), ← accumulate, ih _ (by omega), List.flatten_cons,
        List.append_assoc]

/-- What is handed on is an end of the block, and within the limit. -/
theorem accumulate_suffix {maxFrameSize : Nat} (block : List Bytes) (json : Bytes) (h : json.length ≤ maxFrameSize) :
    accumulate maxFrameSize json block <:+ json ++ block.flatten ∧
      (accumulate maxFrameSize json block).length ≤ maxFrameSize := by
  induction block generalizing json with
  | nil =>
      rw [List.flatten_nil, List.append_nil]
      exact ⟨List.suffix_rfl, h⟩
  | cons line block ih =>
      rw [accumulate, List.foldl_cons, List.flatten_cons, ← List.append_assoc]
      split_ifs with hlarge
      · obtain ⟨hsuffix, hlen⟩ := ih [] (Nat.zero_le _)
        exact ⟨hsuffix.trans (List.suffix_append _ _), hlen⟩
      · exact ih (json ++ line) (Nat.le_of_not_lt hlarge)

/-- Lines that exceed the limit with the last of them, and not before. -/
def Exceeds (maxFrameSize : Nat) (run : List Bytes) : Prop :=
  maxFrameSize < run.flatten.length ∧ run.dropLast.flatten.length ≤ maxFrameSize

/-- A block that divides into runs of lines each of which exceeds the limit with its last line, but for empty
lines at its end. -/
inductive EndsInExcess (maxFrameSize : Nat) : List Bytes → Prop
  | empty {block : List Bytes} (h : ∀ line ∈ block, line = []) : EndsInExcess maxFrameSize block
  | run {run rest : List Bytes} (hrun : Exceeds maxFrameSize run) (hrest : EndsInExcess maxFrameSize rest) :
      EndsInExcess maxFrameSize (run ++ rest)

/-- After lines that exceed the limit with their last one, the joining starts over. -/
theorem accumulate_of_exceeds {maxFrameSize : Nat} {run : List Bytes} (h : Exceeds maxFrameSize run)
    (rest : List Bytes) : accumulate maxFrameSize [] (run ++ rest) = accumulate maxFrameSize [] rest := by
  obtain ⟨hlarge, hsmall⟩ := h
  rcases List.eq_nil_or_concat run with rfl | ⟨front, line, rfl⟩
  · cases hlarge
  · rw [List.concat_eq_append, List.dropLast_concat] at hsmall
    rw [List.concat_eq_append, List.flatten_concat] at hlarge
    have hfront : accumulate maxFrameSize [] front = front.flatten :=
      accumulate_of_le front [] (by rwa [List.length_nil, Nat.zero_add])
    rw [accumulate] at hfront
    rw [List.concat_eq_append, accumulate, List.foldl_append, List.foldl_append, hfront, List.foldl_cons,
      List.foldl_nil, if_pos hlarge]
    rfl

/-- Nothing is left over of a block exactly where it ends in an excess. -/
theorem accumulate_eq_nil_iff (maxFrameSize : Nat) (block : List Bytes) :
    accumulate maxFrameSize [] block = [] ↔ EndsInExcess maxFrameSize block := by
  constructor
  · suffices h : ∀ (block front : List Bytes), front.flatten.length ≤ maxFrameSize →
        accumulate maxFrameSize front.flatten block = [] → EndsInExcess maxFrameSize (front ++ block) from
      h block [] (Nat.zero_le _)
    intro block
    induction block with
    | nil =>
        intro front _ hnil
        rw [List.append_nil]
        exact .empty (List.flatten_eq_nil_iff.mp hnil)
    | cons line block ih =>
        intro front hfront hnil
        have happend : front ++ line :: block = (front ++ [line]) ++ block := by simp
        have hflatten : (front ++ [line]).flatten = front.flatten ++ line := List.flatten_concat
        rw [accumulate, List.foldl_cons] at hnil
        rw [happend]
        split_ifs at hnil with hlarge
        · refine .run ⟨hflatten ▸ hlarge, ?_⟩ (ih [] (Nat.zero_le _) hnil)
          rwa [List.dropLast_concat]
        · exact ih (front ++ [line]) (hflatten ▸ Nat.le_of_not_lt hlarge) (hflatten ▸ hnil)
  · intro h
    induction h with
    | empty h =>
        rename_i block
        have hflatten : block.flatten = [] := List.flatten_eq_nil_iff.mpr h
        rw [accumulate_of_le block [] (by rw [hflatten]; exact Nat.zero_le _), hflatten]
        rfl
    | run hrun _ ih => rw [accumulate_of_exceeds hrun, ih]

/-- What may be handed on for a block: all of it where it is within the limit, and no proper part of it where it
is not, unless an empty one. -/
def Whole (maxFrameSize : Nat) (block : List Bytes) (content : Bytes) : Prop :=
  (block.flatten.length ≤ maxFrameSize → content = block.flatten) ∧
    (maxFrameSize < block.flatten.length →
      ¬(content ≠ [] ∧ content <:+: block.flatten ∧ content ≠ block.flatten))

theorem whole_accumulate_iff (maxFrameSize : Nat) (block : List Bytes) :
    Whole maxFrameSize block (accumulate maxFrameSize [] block) ↔
      (maxFrameSize < block.flatten.length → EndsInExcess maxFrameSize block) := by
  obtain ⟨hsuffix, hlen⟩ := accumulate_suffix block [] (Nat.zero_le maxFrameSize)
  rw [List.nil_append] at hsuffix
  rw [← accumulate_eq_nil_iff]
  constructor
  · intro hwhole hlarge
    by_contra hne
    refine hwhole.2 hlarge ⟨hne, hsuffix.isInfix, fun heq => ?_⟩
    rw [heq] at hlen
    omega
  · intro hexcess
    refine ⟨fun hsmall => ?_, fun hlarge hpart => hpart.1 (hexcess hlarge)⟩
    exact accumulate_of_le block [] (by rwa [List.length_nil, Nat.zero_add])

/-- **When no fragment of a block is handed on**: where the overload handler lets the reading go on, each block
is handed on whole, or nothing of it where it is too large, exactly if the oversized blocks all divide into runs
of lines that each exceed the limit with their last line. -/
theorem listenDelimited_whole_iff {σ : Type*} (S : CharStream σ) (At : σ → Bytes → Prop) (hS : S.Gets At)
    (maxFrameSize : Nat) (hmax : 0 < maxFrameSize) (bytes : Bytes) (s : σ) (hs : At s bytes) :
    ∃ rounds events,
      (∀ fuel, rounds ≤ fuel → listenDelimited S ⟨maxFrameSize, some fun _ => true⟩ fuel s = some events) ∧
      (List.Forall₂ (Whole maxFrameSize) (blocks bytes) (messages events) ↔
        ∀ block ∈ blocks bytes, maxFrameSize < block.flatten.length → EndsInExcess maxFrameSize block) := by
  refine ⟨bytes.length + 3, joinLines ⟨maxFrameSize, some fun _ => true⟩ [] (delimitedLines bytes),
    fun fuel hfuel => hS.listenDelimited _ fuel hs (by omega), ?_⟩
  rw [messages_joinLines hmax, contents_empty, ← blocks, List.forall₂_map_right_iff, List.forall₂_same]
  exact forall₂_congr fun block _ => whole_accumulate_iff maxFrameSize block

/-- A stream over characters in memory; its state is what is left of them. -/
def memoryChars : CharStream Bytes where
  readSome n s := (s.take (min n 1), s.drop (min n 1))
  read n s := (s.take n, s.drop n)
  eof s := s.isEmpty
  fail _ := false
  bad _ := false
  what _ := []
  needToClearTheState _ := false
  clear s := s
  get s := (s.head?, s.tail)

theorem memoryChars_gets : memoryChars.Gets fun s rest => s = rest where
  get := by
    rintro _ c rest rfl
    exact ⟨rfl, rfl⟩
  get_end := by
    rintro _ rfl
    rfl
  good _ := ⟨rfl, rfl⟩

/-- One block of two lines, the first of which exceeds the limit alone. -/
def longLineFirst : Bytes := bytesOf "aaaaaa\nbbb\n// -----\n"

/-- The block's second line is handed on alone. -/
theorem longLineFirst_delivers_fragment :
    ∃ events, listenDelimited memoryChars ⟨5, some fun _ => true⟩ 24 longLineFirst = some events ∧
      blocks longLineFirst = [[bytesOf "aaaaaa", bytesOf "bbb"]] ∧ messages events = [bytesOf "bbb"] ∧
      ¬List.Forall₂ (Whole 5) (blocks longLineFirst) (messages events) := by
  have hblocks : blocks longLineFirst = [[bytesOf "aaaaaa", bytesOf "bbb"]] := by decide
  have hmessages : messages [.issue (delimitedOverloadMessage 5) .warning, .message (bytesOf "bbb")] =
      [bytesOf "bbb"] := rfl
  refine ⟨[.issue (delimitedOverloadMessage 5) .warning, .message (bytesOf "bbb")], by decide, hblocks,
    hmessages, ?_⟩
  rw [hblocks, hmessages]
  intro hwhole
  cases hwhole with
  | cons hfirst _ =>
      refine hfirst.2 (by decide) ⟨by decide, ⟨bytesOf "aaaaaa", [], rfl⟩, by decide⟩

/-- A block whose last line brings it above the limit, and one within it. -/
theorem listenDelimited_whole_iff_longLineLast :
    ∃ rounds events,
      (∀ fuel, rounds ≤ fuel → listenDelimited memoryChars ⟨5, some fun _ => true⟩ fuel
        (bytesOf "aaa\nbbb\n// -----\n c\r\n // -----\n") = some events) ∧
      List.Forall₂ (Whole 5) (blocks (bytesOf "aaa\nbbb\n// -----\n c\r\n // -----\n")) (messages events) := by
  obtain ⟨rounds, events, hlisten, hiff⟩ := listenDelimited_whole_iff memoryChars _ memoryChars_gets 5 (by decide)
    (bytesOf "aaa\nbbb\n// -----\n c\r\n // -----\n") _ rfl
  have hblocks : blocks (bytesOf "aaa\nbbb\n// -----\n c\r\n // -----\n") =
      [[bytesOf "aaa", bytesOf "bbb"], [bytesOf "c"]] := by decide
  have hlast : EndsInExcess 5 ([bytesOf "aaa", bytesOf "bbb"] ++ []) :=
    .run ⟨by decide, by decide⟩ (.empty nofun)
  refine ⟨rounds, events, hlisten, hiff.mpr fun block hblock hlarge => ?_⟩
  rw [hblocks, List.mem_cons, List.mem_singleton] at hblock
  rcases hblock with rfl | rfl
  · exact hlast
  · exact absurd hlarge (by decide)

end LspCpp

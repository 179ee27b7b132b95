import LspCpp.StreamPieces

/-! What a stream of frames that is cut off at an arbitrary byte still means: the bodies of the frames that are whole,
and a report where the cut is inside a frame. -/

namespace LspCpp

/-- A body that the reader accepts: its length is a number that `parseContentLength` takes, and within the limit. -/
def Fits (settings : ProducerSettings) (body : Bytes) : Prop :=
  body.length < 2147483648 ∧ (settings.maxFrameSize = 0 ∨ body.length ≤ settings.maxFrameSize)

instance (settings : ProducerSettings) (body : Bytes) : Decidable (Fits settings body) :=
  inferInstanceAs (Decidable (_ ∧ _))

/-- How many of the frames are whole in the first `count` bytes. -/
def wholeFrames : List Bytes → Nat → Nat
  | [], _ => 0
  | body :: bodies, count =>
      if (writerMsg body).length ≤ count then wholeFrames bodies (count - (writerMsg body).length) + 1 else 0

section

variable {settings : ProducerSettings} {body : Bytes}

theorem decode_writerMsg_of_fits (h : Fits settings body) (rest : Bytes) :
    decode settings (writerMsg body ++ rest) = .message body :: decode settings rest := by
  rw [decode_writerMsg settings h.1, if_neg]
  intro hlarge
  have := h.2
  omega

theorem writerMsg_eq (body : Bytes) : writerMsg body = headerLine body.length ++ (crlfcrlf ++ body) := by
  simp [writerMsg, headerLine]

/-- In a piece of a frame the end of the header is where it is in the frame. -/
theorem findHeaderEnd_piece {piece more : Bytes} {found : Nat × Nat} (hframe : piece ++ more = writerMsg body)
    (hfound : findHeaderEnd piece = some found) : found = ((headerLine body.length).length, 4) := by
  have hwhole : findHeaderEnd (writerMsg body) = some ((headerLine body.length).length, 4) := by
    rw [writerMsg_eq, ← List.append_assoc]
    exact findHeaderEnd_headerLine body.length body
  have hsame := findHeaderEnd_append hfound more
  rw [hframe, hwhole] at hsame
  exact (Option.some.inj hsame).symm

/-- A piece that holds the header of its frame holds a part of the body behind it. -/
theorem piece_with_header {piece more : Bytes} {found : Nat × Nat} (hframe : piece ++ more = writerMsg body)
    (hfound : findHeaderEnd piece = some found) :
    ∃ part, piece = headerLine body.length ++ (crlfcrlf ++ part) ∧ part ++ more = body := by
  have hend := findHeaderEnd_piece hframe hfound
  have hbound := (findHeaderEnd_bound hfound).2
  rw [hend] at hbound
  have hlength : (headerLine body.length ++ crlfcrlf).length ≤ piece.length := by
    rw [List.length_append]
    exact hbound
  rw [writerMsg_eq, ← List.append_assoc] at hframe
  obtain ⟨part, hpiece⟩ := List.prefix_of_prefix_length_le (List.prefix_append _ body)
    (hframe ▸ List.prefix_append piece more) hlength
  refine ⟨part, ?_, ?_⟩
  · rw [← hpiece, List.append_assoc]
  · rw [← hpiece, List.append_assoc] at hframe
    exact List.append_cancel_left hframe

/-- A frame that is cut off means no message, and a report unless nothing of it is there. -/
theorem decode_piece (h : Fits settings body) {piece : Bytes} (hpiece : piece <+: writerMsg body)
    (hcut : piece ≠ writerMsg body) :
    messages (decode settings piece) = [] ∧ (issues (decode settings piece) = [] ↔ piece = []) := by
  obtain ⟨more, hframe⟩ := hpiece
  cases hfound : findHeaderEnd piece with
  | none =>
      rw [decode_of_none hfound]
      split_ifs with hnil
      · exact ⟨rfl, iff_of_true rfl hnil⟩
      · exact ⟨rfl, iff_of_false (by simp [issues]) hnil⟩
  | some found =>
      obtain ⟨part, hpart, hbody⟩ := piece_with_header hframe hfound
      have hend := findHeaderEnd_piece hframe hfound
      have hshort : ¬body.length ≤ part.length := by
        intro hle
        have hlength := congrArg List.length hbody
        rw [List.length_append] at hlength
        have hmore : more = [] := List.length_eq_zero_iff.mp (by omega)
        rw [hmore, List.append_nil] at hframe
        exact hcut hframe
      have hne : piece ≠ [] := by
        rw [hpart, headerLine_eq]
        simp [contentLengthHeader]
      have hdrop : (headerLine body.length ++ (crlfcrlf ++ part)).drop ((headerLine body.length).length + 4) =
          part := by
        rw [← List.drop_drop, List.drop_left' rfl]
        exact List.drop_left' rfl
      have hlarge : ¬(settings.maxFrameSize ≠ 0 ∧ settings.maxFrameSize < body.length) := by
        have := h.2
        omega
      rw [decode_of_some (hend ▸ hfound), hpart, List.take_left' rfl, hdrop, decodeFrame,
        parseHeaderBlock_headerLine h.1]
      dsimp only
      rw [if_neg (by omega : ¬(body.length : Int) < 0), Int.toNat_natCast, if_neg hlarge, if_neg hshort]
      rw [hpart] at hne
      exact ⟨rfl, iff_of_false (by simp [issues]) hne⟩

/-- **What has been read stays read**: bytes that follow add messages behind those that were there. -/
theorem messages_decode_append (settings : ProducerSettings) (bytes more : Bytes) :
    messages (decode settings bytes) <+: messages (decode settings (bytes ++ more)) := by
  induction hn : bytes.length using Nat.strongRecOn generalizing bytes with
  | ind n ih =>
      cases hfound : findHeaderEnd bytes with
      | none =>
          rw [decode_of_none hfound]
          split_ifs
          · exact List.nil_prefix
          · exact List.nil_prefix
      | some found =>
          obtain ⟨headerEnd, delimiterSize⟩ := found
          have hbound := findHeaderEnd_bound hfound
          rw [decode_of_some hfound, decode_of_some (findHeaderEnd_append hfound more),
            List.take_append_of_le_length (by omega), List.drop_append_of_le_length hbound.2]
          generalize bytes.take headerEnd = headerBlock
          have hrest : (bytes.drop (headerEnd + delimiterSize)).length < n := by
            rw [List.length_drop]
            omega
          generalize bytes.drop (headerEnd + delimiterSize) = rest at hrest
          have hlater : ∀ rest' : Bytes, rest'.length ≤ rest.length →
              messages (decode settings rest') <+: messages (decode settings (rest' ++ more)) :=
            fun rest' hle => ih rest'.length (by omega) rest' rfl
          rw [decodeFrame, decodeFrame]
          dsimp only
          generalize (parseHeaderBlock headerBlock {}).contentLength = contentLength
          by_cases hwhole : contentLength.toNat ≤ rest.length
          · have hwhole' : contentLength.toNat ≤ (rest ++ more).length := by
              rw [List.length_append]
              omega
            have hskipped := hlater (rest.drop contentLength.toNat) (by rw [List.length_drop]; omega)
            rw [← List.drop_append_of_le_length hwhole] at hskipped
            rw [if_pos hwhole, if_pos hwhole', if_pos hwhole, if_pos hwhole',
              List.take_append_of_le_length hwhole]
            split_ifs
            · exact hlater rest (Nat.le_refl _)
            · exact List.prefix_refl _
            · rw [messages_append, messages_append]
              exact (List.prefix_append_right_inj _).mpr hskipped
            · exact (List.prefix_append_right_inj [_]).mpr hskipped
          · rw [if_neg hwhole, if_neg hwhole]
            split_ifs
            · exact hlater rest (Nat.le_refl _)
            · exact List.nil_prefix
            · exact List.nil_prefix
            · exact List.nil_prefix
            · exact List.nil_prefix
            · exact List.nil_prefix

theorem issues_message_cons (content : Bytes) (events : List ListenEvent) :
    issues (.message content :: events) = issues events := rfl

/-- The first bytes of a stream of frames. -/
theorem decode_take_flatMap (bodies : List Bytes) (hfits : ∀ body ∈ bodies, Fits settings body) (count : Nat) :
    messages (decode settings ((bodies.flatMap writerMsg).take count)) = bodies.take (wholeFrames bodies count) ∧
      (issues (decode settings ((bodies.flatMap writerMsg).take count)) = [] ↔
        (bodies.flatMap writerMsg).take count = (bodies.take (wholeFrames bodies count)).flatMap writerMsg) := by
  induction bodies generalizing count with
  | nil =>
      have hnil : decode settings [] = [] := by
        rw [decode_of_none (by rfl)]
        rfl
      simp [hnil, messages, issues]
  | cons body bodies ih =>
      rw [List.forall_mem_cons] at hfits
      rw [List.flatMap_cons, wholeFrames]
      split_ifs with hwhole
      · obtain ⟨hmessages, hissues⟩ := ih hfits.2 (count - (writerMsg body).length)
        rw [List.take_append, List.take_of_length_le hwhole, decode_writerMsg_of_fits hfits.1, List.take_succ_cons,
          List.flatMap_cons, List.append_cancel_left_eq, issues_message_cons]
        refine ⟨?_, hissues⟩
        rw [← hmessages]
        rfl
      · have hpiece : (writerMsg body).take count ≠ writerMsg body := by
          intro heq
          have hlength := congrArg List.length heq
          rw [List.length_take] at hlength
          omega
        rw [List.take_append_of_le_length (by omega)]
        exact decode_piece hfits.1 (List.take_prefix _ _) hpiece

end

section

variable {settings : ProducerSettings} {bodies : List Bytes}

/-- All the bytes hold all the frames. -/
theorem wholeFrames_length (bodies : List Bytes) :
    wholeFrames bodies (bodies.flatMap writerMsg).length = bodies.length := by
  induction bodies with
  | nil => rfl
  | cons body bodies ih =>
      rw [List.flatMap_cons, List.length_append, wholeFrames, if_pos (Nat.le_add_right _ _), Nat.add_sub_cancel_left,
        ih, List.length_cons]

theorem messages_decode_flatMap (hfits : ∀ body ∈ bodies, Fits settings body) :
    messages (decode settings (bodies.flatMap writerMsg)) = bodies := by
  have htake := (decode_take_flatMap bodies hfits (bodies.flatMap writerMsg).length).1
  rwa [List.take_length, wholeFrames_length, List.take_length] at htake

/-- Whole frames with a piece of one more frame behind them mean the bodies of the whole frames. -/
theorem messages_decode_piece {body piece : Bytes} (hfits : ∀ body ∈ bodies, Fits settings body)
    (hbody : Fits settings body) (hpiece : piece <+: writerMsg body) (hcut : piece ≠ writerMsg body) :
    messages (decode settings (bodies.flatMap writerMsg ++ piece)) = bodies := by
  induction bodies with
  | nil => exact (decode_piece hbody hpiece hcut).1
  | cons first bodies ih =>
      rw [List.forall_mem_cons] at hfits
      rw [List.flatMap_cons, List.append_assoc, decode_writerMsg_of_fits hfits.1]
      exact congrArg (first :: ·) (ih hfits.2)

/-- **A stream that is cut off delivers its whole frames**: wherever the bytes of a stream of frames end, and in
whatever pieces they come, `listen` hands on the bodies of exactly the frames that are whole, in their order, and
returns. It reports something if and only if the cut is inside a frame. -/
theorem listen_cutOff {σ : Type*} (S : IStream σ) (At : σ → Bytes → Prop) (hS : S.Yields At)
    (settings : ProducerSettings) (bodies : List Bytes) (hfits : ∀ body ∈ bodies, Fits settings body) (count : Nat)
    (s : σ) (hs : At s ((bodies.flatMap writerMsg).take count)) :
    ∃ rounds, ∀ fuel, rounds ≤ fuel → ∃ events, listen S settings fuel s [] = some events ∧
      messages events = bodies.take (wholeFrames bodies count) ∧
      (issues events = [] ↔
        (bodies.flatMap writerMsg).take count = (bodies.take (wholeFrames bodies count)).flatMap writerMsg) := by
  refine ⟨((bodies.flatMap writerMsg).take count).length + 2, fun fuel hfuel =>
    ⟨decode settings ((bodies.flatMap writerMsg).take count), ?_, ?_⟩⟩
  · exact hS.listen_eq_decode settings fuel hs [] (by rw [List.nil_append]; omega)
  · exact decode_take_flatMap bodies hfits count

end

/-- Two frames of which the second lacks its last byte, read in pieces of five. -/
theorem listen_cutOff_piecesOf :
    ∃ rounds, ∀ fuel, rounds ≤ fuel → ∃ events,
      listen (piecesOf 5) {} fuel (([bytesOf "[1]", bytesOf "[2]"].flatMap writerMsg).take 47, false) [] = some events ∧
        messages events = [bytesOf "[1]"] ∧
        (issues events = [] ↔ ([bytesOf "[1]", bytesOf "[2]"].flatMap writerMsg).take 47 =
          writerMsg (bytesOf "[1]")) := by
  have hcut := listen_cutOff (piecesOf 5) _ (piecesOf_yields (by decide)) {}
    [bytesOf "[1]", bytesOf "[2]"] (by decide) 47 _ rfl
  have hwhole : wholeFrames [bytesOf "[1]", bytesOf "[2]"] 47 = 1 := by decide
  rw [hwhole] at hcut
  simpa using hcut

end LspCpp

import LspCpp.StreamRoundTrip

/-! What `listen` does not depend on, and what it leaves out. Two streams that yield the same bytes cause the
same calls, whatever their pieces and whatever the bytes; and a frame above the configured size is skipped to
its last byte, or ends the reading. -/

namespace LspCpp

variable {σ τ : Type*}

/-- **The pieces do not matter**: on two streams that yield the same bytes, well-formed or not, `listen` makes
the same calls of the message consumer and of the issue handler, in the same order, and returns. -/
theorem listen_same_events (S : IStream σ) (T : IStream τ) (AtS : σ → Bytes → Prop) (AtT : τ → Bytes → Prop)
    (hS : S.Yields AtS) (hT : T.Yields AtT) (settings : ProducerSettings) (bytes : Bytes) (s : σ) (t : τ)
    (hs : AtS s bytes) (ht : AtT t bytes) :
    ∃ rounds events, ∀ fuel, rounds ≤ fuel →
      listen S settings fuel s [] = some events ∧ listen T settings fuel t [] = some events := by
  refine ⟨bytes.length + 2, decode settings bytes, fun fuel hfuel => ⟨?_, ?_⟩⟩
  · exact hS.listen_eq_decode settings fuel hs [] (by rw [List.nil_append]; omega)
  · exact hT.listen_eq_decode settings fuel ht [] (by rw [List.nil_append]; omega)

/-- A header without a length, a frame that is too large and a body that is cut short, read in single bytes
and in pieces of five. -/
theorem listen_same_events_piecesOf :
    ∃ rounds events, ∀ fuel, rounds ≤ fuel →
      listen (piecesOf 1) { maxFrameSize := 2, overloadHandler := some fun _ => true } fuel
          (bytesOf "x\n\nContent-Length: 3\n\nabcContent-Length: 2\r\n\r\nd", false) [] = some events ∧
        listen (piecesOf 5) { maxFrameSize := 2, overloadHandler := some fun _ => true } fuel
          (bytesOf "x\n\nContent-Length: 3\n\nabcContent-Length: 2\r\n\r\nd", false) [] = some events :=
  listen_same_events (piecesOf 1) (piecesOf 5) _ _ (piecesOf_yields (by decide)) (piecesOf_yields (by decide))
    _ _ _ _ rfl rfl

/-- The meaning of a frame at the head of the bytes. -/
theorem decode_writerMsg (settings : ProducerSettings) {body : Bytes} (hbody : body.length < 2147483648)
    (rest : Bytes) : decode settings (writerMsg body ++ rest) =
      if settings.maxFrameSize ≠ 0 ∧ settings.maxFrameSize < body.length then
        let report := reportOverload settings (overloadMessage body.length settings.maxFrameSize)
        if report.1 = false then report.2 else report.2 ++ decode settings rest
      else .message body :: decode settings rest := by
  have hbytes : writerMsg body ++ rest = headerLine body.length ++ (crlfcrlf ++ (body ++ rest)) := by
    simp [writerMsg, headerLine]
  have hend : findHeaderEnd (writerMsg body ++ rest) = some ((headerLine body.length).length, 4) := by
    rw [hbytes, ← List.append_assoc]
    exact findHeaderEnd_headerLine body.length (body ++ rest)
  have hafter : (crlfcrlf ++ (body ++ rest)).drop 4 = body ++ rest := List.drop_left' rfl
  rw [decode_of_some hend, hbytes, List.take_left' rfl, ← List.drop_drop, List.drop_left' rfl, hafter, decodeFrame,
    parseHeaderBlock_headerLine hbody]
  dsimp only
  rw [if_neg (by omega : ¬(body.length : Int) < 0), Int.toNat_natCast]
  split_ifs with hlarge hrefused hshort hshort
  · exact List.append_nil _
  · rw [Option.map_some, Option.getD_some, List.drop_left' rfl]
  · exact absurd (by simp) hshort
  · rw [Option.map_some, Option.getD_some, List.take_left' rfl, List.drop_left' rfl]
    rfl
  · exact absurd (by simp) hshort

/-- The bodies that are handed on where every oversized frame is skipped, and where the first one ends the
reading. -/
theorem messages_decode_writerMsg {maxFrameSize : Nat} (hmax : 0 < maxFrameSize) (bodies : List Bytes)
    (hlen : ∀ body ∈ bodies, body.length < 2147483648) :
    messages (decode ⟨maxFrameSize, some fun _ => true⟩ (bodies.flatMap writerMsg)) =
        bodies.filter (·.length ≤ maxFrameSize) ∧
      messages (decode ⟨maxFrameSize, some fun _ => false⟩ (bodies.flatMap writerMsg)) =
        bodies.takeWhile (·.length ≤ maxFrameSize) := by
  induction bodies with
  | nil => simp [decode_of_none (show findHeaderEnd [] = none from rfl), messages]
  | cons body bodies ih =>
      rw [List.forall_mem_cons] at hlen
      obtain ⟨hskipped, hstopped⟩ := ih hlen.2
      rw [List.flatMap_cons, decode_writerMsg _ hlen.1, decode_writerMsg _ hlen.1]
      dsimp only
      by_cases hlarge : maxFrameSize ≠ 0 ∧ maxFrameSize < body.length
      · have hrefused : ¬body.length ≤ maxFrameSize := by omega
        rw [if_pos hlarge, if_pos hlarge, List.filter_cons, List.takeWhile_cons, ← hskipped]
        simp only [hrefused, decide_false, Bool.false_eq_true, if_false]
        exact ⟨rfl, rfl⟩
      · have haccepted : body.length ≤ maxFrameSize := by omega
        rw [if_neg hlarge, if_neg hlarge, List.filter_cons, List.takeWhile_cons, ← hskipped, ← hstopped]
        simp only [haccepted, decide_true, if_true]
        exact ⟨rfl, rfl⟩

/-- **Oversized frames are skipped exactly**: where the overload handler lets the reading go on, `listen` hands
on the bodies of an accepted size, in their order; where it does not, those before the first that is too
large. -/
theorem listen_oversized (S : IStream σ) (At : σ → Bytes → Prop) (hS : S.Yields At) (maxFrameSize : Nat)
    (hmax : 0 < maxFrameSize) (bodies : List Bytes) (hlen : ∀ body ∈ bodies, body.length < 2147483648) (s : σ)
    (hs : At s (bodies.flatMap writerMsg)) :
    ∃ rounds skipping stopping, ∀ fuel, rounds ≤ fuel →
      (listen S ⟨maxFrameSize, some fun _ => true⟩ fuel s [] = some skipping ∧
        messages skipping = bodies.filter (·.length ≤ maxFrameSize)) ∧
      listen S ⟨maxFrameSize, some fun _ => false⟩ fuel s [] = some stopping ∧
        messages stopping = bodies.takeWhile (·.length ≤ maxFrameSize) := by
  obtain ⟨hskipping, hstopping⟩ := messages_decode_writerMsg hmax bodies hlen
  refine ⟨(bodies.flatMap writerMsg).length + 2, _, _, fun fuel hfuel => ⟨⟨?_, hskipping⟩, ?_, hstopping⟩⟩
  · exact hS.listen_eq_decode _ fuel hs [] (by rw [List.nil_append]; omega)
  · exact hS.listen_eq_decode _ fuel hs [] (by rw [List.nil_append]; omega)

/-- Three frames of sizes 2, 4 and 1 against a limit of 3, read in pieces of five. -/
theorem listen_oversized_piecesOf :
    ∃ rounds skipping stopping, ∀ fuel, rounds ≤ fuel →
      (listen (piecesOf 5) ⟨3, some fun _ => true⟩ fuel
          ([bytesOf "[]", bytesOf "true", bytesOf "0"].flatMap writerMsg, false) [] = some skipping ∧
        messages skipping = [bytesOf "[]", bytesOf "0"]) ∧
      listen (piecesOf 5) ⟨3, some fun _ => false⟩ fuel
          ([bytesOf "[]", bytesOf "true", bytesOf "0"].flatMap writerMsg, false) [] = some stopping ∧
        messages stopping = [bytesOf "[]"] :=
  listen_oversized (piecesOf 5) _ (piecesOf_yields (by decide)) 3 (by decide) _ (by decide) _ rfl

end LspCpp

import LspCpp.StreamListen

/-! What a sequence of bytes means as a stream of frames, and that `listen` computes it on every stream that
yields these bytes, in whatever pieces. -/

namespace LspCpp

variable {σ : Type*}

/-- A stream yields bytes: `At s rest` tells that `rest` is what a stream in the state `s` has still to
yield. Its pieces are of any positive size, a piece is empty only at the end, and a bulk read is short and
sets the end-of-file flag only there. -/
structure IStream.Yields (S : IStream σ) (At : σ → Bytes → Prop) : Prop where
  readSome : ∀ {s rest n}, At s rest → rest ≠ [] → 0 < n → ∃ k, 0 < k ∧ k ≤ n ∧ k ≤ rest.length ∧
    (S.readSome n s).1 = rest.take k ∧ At (S.readSome n s).2 (rest.drop k)
  readSome_end : ∀ {s n}, At s [] → 0 < n → (S.readSome n s).1 = []
  read : ∀ {s rest n}, At s rest → 0 < n → n ≤ rest.length →
    (S.read n s).1 = rest.take n ∧ At (S.read n s).2 (rest.drop n) ∧ S.eof (S.read n s).2 = false
  read_short : ∀ {s rest n}, At s rest → rest.length < n →
    S.bad (S.read n s).2 = false ∧ S.eof (S.read n s).2 = true
  good : ∀ {s rest}, At s rest → S.bad s = false ∧ S.fail s = false
  eof : ∀ {s rest}, At s rest → S.eof s = true → rest = []

/-- The meaning of a frame whose header block is given and whose body is at the head of `rest`: its events,
and the bytes after it unless the reading ends. -/
def decodeFrame (settings : ProducerSettings) (headerBlock rest : Bytes) :
    List ListenEvent × Option Bytes :=
  let contentLength := (parseHeaderBlock headerBlock {}).contentLength
  if contentLength < 0 then
    ([.issue (bytesOf "Unexpected token:" ++ headerBlock ++
      bytesOf "  (expected Content-Length: sequence);") .warning], some rest)
  else if settings.maxFrameSize ≠ 0 ∧ settings.maxFrameSize < contentLength.toNat then
    let report := reportOverload settings (overloadMessage contentLength.toNat settings.maxFrameSize)
    if report.1 = false then (report.2, none)
    else if contentLength.toNat ≤ rest.length then (report.2, some (rest.drop contentLength.toNat))
    else (report.2 ++ [.issue (bytesOf "Input ended while discarding oversized frame.") .warning], none)
  else if contentLength.toNat ≤ rest.length then
    ([.message (rest.take contentLength.toNat)], some (rest.drop contentLength.toNat))
  else ([.issue (bytesOf "No more input when reading content body") .info], none)

theorem decodeFrame_length {settings : ProducerSettings} {headerBlock rest rest' : Bytes}
    (h : (decodeFrame settings headerBlock rest).2 = some rest') : rest'.length ≤ rest.length := by
  unfold decodeFrame at h
  dsimp only at h
  split_ifs at h <;> cases h
  · exact Nat.le_refl _
  · rw [List.length_drop]
    omega
  · rw [List.length_drop]
    omega

/-- The meaning of a sequence of bytes. -/
def decode (settings : ProducerSettings) (bytes : Bytes) : List ListenEvent :=
  match _hend : findHeaderEnd bytes with
  | none => if bytes = [] then [] else [.issue (bytesOf "No more input when reading message headers") .info]
  | some (headerEnd, delimiterSize) =>
      match _hframe : decodeFrame settings (bytes.take headerEnd) (bytes.drop (headerEnd + delimiterSize)) with
      | (events, none) => events
      | (events, some rest) => events ++ decode settings rest
termination_by bytes.length
decreasing_by
  have hbound := findHeaderEnd_bound _hend
  have hlen := decodeFrame_length (congrArg Prod.snd _hframe)
  rw [List.length_drop] at hlen
  omega

theorem decode_of_none {settings : ProducerSettings} {bytes : Bytes} (h : findHeaderEnd bytes = none) :
    decode settings bytes =
      if bytes = [] then [] else [.issue (bytesOf "No more input when reading message headers") .info] := by
  rw [decode]
  split
  · rfl
  · rename_i h'
    cases h.symm.trans h'

theorem decode_of_some {settings : ProducerSettings} {bytes : Bytes} {headerEnd delimiterSize : Nat}
    (h : findHeaderEnd bytes = some (headerEnd, delimiterSize)) :
    decode settings bytes =
      let frame := decodeFrame settings (bytes.take headerEnd) (bytes.drop (headerEnd + delimiterSize))
      frame.1 ++ (frame.2.map (decode settings)).getD [] := by
  rw [decode]
  split
  · rename_i h'
    cases h'.symm.trans h
  · rename_i headerEnd' delimiterSize' h'
    obtain ⟨rfl, rfl⟩ := Prod.mk.inj (Option.some.inj (h'.symm.trans h))
    split <;> rename_i hframe <;> simp [hframe]

section Refinement

variable {S : IStream σ} {At : σ → Bytes → Prop}

theorem IStream.Yields.reportInputState (hS : S.Yields At) {s : σ} {rest : Bytes} (hs : At s rest) :
    reportInputState S s = (true, s, []) := by
  obtain ⟨hbad, hfail⟩ := hS.good hs
  simp [LspCpp.reportInputState, hbad, hfail]

/-- The inner loop ends with the end of the first header of all the bytes, or there is none. -/
theorem IStream.Yields.fillBuffer (hS : S.Yields At) (fuel : Nat) {s : σ} {rest : Bytes} (hs : At s rest)
    (buffer : Bytes) (hfuel : rest.length < fuel) :
    (findHeaderEnd (buffer ++ rest) = none ∧
        fillBuffer S fuel s buffer = some (.returned (if buffer ++ rest = [] then []
          else [.issue (bytesOf "No more input when reading message headers") .info]))) ∨
      ∃ headerEnd s' rest' buffer', findHeaderEnd buffer' = some headerEnd ∧ At s' rest' ∧
        buffer' ++ rest' = buffer ++ rest ∧
        fillBuffer S fuel s buffer = some (.goesOn [] headerEnd s' buffer') := by
  induction fuel generalizing s rest buffer with
  | zero => omega
  | succ fuel ih =>
      cases hend : findHeaderEnd buffer with
      | some headerEnd =>
          refine .inr ⟨headerEnd, s, rest, buffer, hend, hs, rfl, ?_⟩
          rw [LspCpp.fillBuffer, hend]
      | none =>
          by_cases hrest : rest = []
          · subst hrest
            have hpiece := hS.readSome_end hs (n := 4096) (by omega)
            refine .inl ⟨by rwa [List.append_nil], ?_⟩
            rw [LspCpp.fillBuffer, hend]
            dsimp only
            split
            · rw [List.append_nil]
            · rename_i chunk s' hnot hread
              rw [hread] at hpiece
              obtain rfl : chunk = [] := hpiece
              exact (hnot rfl).elim
          · obtain ⟨k, hk, _, hkl, hpiece, hnext⟩ := hS.readSome hs hrest (n := 4096) (by omega)
            have hmore : rest.take k ≠ [] := by
              intro h
              have := congrArg List.length h
              rw [List.length_take, List.length_nil] at this
              omega
            have hstep : LspCpp.fillBuffer S (fuel + 1) s buffer =
                (LspCpp.fillBuffer S fuel (S.readSome 4096 s).2 (buffer ++ rest.take k)).map (.after []) := by
              rw [LspCpp.fillBuffer, hend]
              dsimp only
              split
              · rename_i s' hread
                rw [hread] at hpiece
                exact absurd hpiece.symm hmore
              · rename_i chunk s' _ hread
                rw [hread] at hpiece hnext
                rw [hS.reportInputState hnext, ← hpiece, hread]
            have hsame : buffer ++ rest.take k ++ rest.drop k = buffer ++ rest := by
              rw [List.append_assoc, List.take_append_drop]
            rw [hstep, ← hsame]
            rcases ih hnext (buffer ++ rest.take k) (by rw [List.length_drop]; omega) with
              ⟨hnone, heq⟩ | ⟨headerEnd, s', rest', buffer', hfound, hs', happ, heq⟩
            · exact .inl ⟨hnone, by rw [heq]; rfl⟩
            · exact .inr ⟨headerEnd, s', rest', buffer', hfound, hs', happ, by rw [heq]; rfl⟩

/-- The bytes of an oversized frame are skipped exactly, or the input ends. -/
theorem IStream.Yields.discardBytes (hS : S.Yields At) (rounds count : Nat) {s : σ} {rest : Bytes}
    (hs : At s rest) (hrounds : count ≤ rounds) :
    (count ≤ rest.length ∧ ∃ s', discardBytes S rounds count s = (some s', []) ∧ At s' (rest.drop count)) ∨
      rest.length < count ∧ discardBytes S rounds count s =
        (none, [.issue (bytesOf "Input ended while discarding oversized frame.") .warning]) := by
  induction rounds generalizing count s rest with
  | zero =>
      obtain rfl : count = 0 := by omega
      exact .inl ⟨Nat.zero_le _, s, rfl, hs⟩
  | succ rounds ih =>
      cases count with
      | zero => exact .inl ⟨Nat.zero_le _, s, rfl, hs⟩
      | succ count =>
          rw [LspCpp.discardBytes]
          swap
          · exact Nat.succ_ne_zero count
          by_cases hlen : min (count + 1) 4096 ≤ rest.length
          · obtain ⟨_, hnext, heof⟩ := hS.read hs (n := min (count + 1) 4096) (by omega) hlen
            obtain ⟨hbad, hfail⟩ := hS.good hnext
            simp only [hbad, heof, hfail, Bool.or_self, Bool.false_eq_true, if_false]
            rcases ih (count + 1 - min (count + 1) 4096) hnext (by omega) with
              ⟨hle, s', heq, hs'⟩ | ⟨hlt, heq⟩
            · rw [List.length_drop] at hle
              refine .inl ⟨by omega, s', heq, ?_⟩
              rw [List.drop_drop, Nat.add_sub_cancel' (Nat.min_le_left _ _)] at hs'
              exact hs'
            · rw [List.length_drop] at hlt
              exact .inr ⟨by omega, heq⟩
          · obtain ⟨hbad, heof⟩ := hS.read_short hs (n := min (count + 1) 4096) (by omega)
            refine .inr ⟨by omega, ?_⟩
            simp only [hbad, heof, Bool.true_or, Bool.false_eq_true, if_false, if_true]

/-- How a round of `listen` ends, against the meaning of the frame. -/
def Listening.Means (At : σ → Bytes → Prop) (frame : List ListenEvent × Option Bytes) :
    Listening σ Unit → Prop
  | .returned events => events = frame.1 ∧ (frame.2 = none ∨ frame.2 = some [])
  | .goesOn events _ s buffer => events = frame.1 ∧ ∃ rest, At s rest ∧ frame.2 = some (buffer ++ rest)

theorem IStream.Yields.deliver (hS : S.Yields At) {s : σ} {rest : Bytes} (hs : At s rest) (buffer : Bytes)
    {contentLength : Nat} (hlen : contentLength ≤ buffer.length) :
    (deliver S contentLength s buffer).Means At ([.message ((buffer ++ rest).take contentLength)],
      some ((buffer ++ rest).drop contentLength)) := by
  have htake : (buffer ++ rest).take contentLength = buffer.take contentLength :=
    List.take_append_of_le_length hlen
  have hdrop : (buffer ++ rest).drop contentLength = buffer.drop contentLength ++ rest :=
    List.drop_append_of_le_length hlen
  rw [htake, hdrop, LspCpp.deliver]
  split_ifs with hstop
  · rw [Bool.and_eq_true, List.isEmpty_iff] at hstop
    exact ⟨rfl, .inr (by rw [hstop.2, hS.eof hs hstop.1]; rfl)⟩
  · exact ⟨rfl, rest, hs, rfl⟩

/-- The body of a frame of an accepted size. -/
theorem IStream.Yields.body (hS : S.Yields At) {s : σ} {rest : Bytes} (hs : At s rest) (buffer : Bytes)
    (contentLength : Nat) :
    (if buffer.length < contentLength then readBody S contentLength s buffer
      else LspCpp.deliver S contentLength s buffer).Means At
      (if contentLength ≤ (buffer ++ rest).length then
        ([.message ((buffer ++ rest).take contentLength)], some ((buffer ++ rest).drop contentLength))
      else ([.issue (bytesOf "No more input when reading content body") .info], none)) := by
  rw [List.length_append]
  by_cases hbuffer : buffer.length < contentLength
  · rw [if_pos hbuffer, readBody]
    dsimp only
    by_cases hlen : contentLength - buffer.length ≤ rest.length
    · obtain ⟨hbytes, hnext, heof⟩ := hS.read hs (n := contentLength - buffer.length) (by omega) hlen
      obtain ⟨hbad, hfail⟩ := hS.good hnext
      have hpad : contentLength - buffer.length - (rest.take (contentLength - buffer.length)).length = 0 := by
        rw [List.length_take]
        omega
      have hsame : buffer ++ rest = buffer ++ rest.take (contentLength - buffer.length) ++
          rest.drop (contentLength - buffer.length) := by
        rw [List.append_assoc, List.take_append_drop]
      rw [if_pos (by omega : contentLength ≤ buffer.length + rest.length), hsame]
      simp only [hbad, heof, hfail, Bool.false_eq_true, if_false]
      rw [hbytes, hpad, List.replicate_zero, List.append_nil]
      refine hS.deliver hnext _ ?_
      rw [List.length_append, List.length_take]
      omega
    · obtain ⟨hbad, heof⟩ := hS.read_short hs (n := contentLength - buffer.length) (by omega)
      rw [if_neg (by omega : ¬contentLength ≤ buffer.length + rest.length)]
      simp only [hbad, heof, Bool.false_eq_true, if_false, if_true]
      exact ⟨rfl, .inl rfl⟩
  · rw [if_neg hbuffer, if_pos (by omega : contentLength ≤ buffer.length + rest.length)]
    exact hS.deliver hs buffer (by omega)

/-- A frame that is too large. -/
theorem IStream.Yields.skipBody (hS : S.Yields At) (settings : ProducerSettings) {s : σ} {rest : Bytes}
    (hs : At s rest) (buffer : Bytes) (contentLength : Nat) :
    (skipBody S settings contentLength s buffer).Means At
      (let report := reportOverload settings (overloadMessage contentLength settings.maxFrameSize)
      if report.1 = false then (report.2, none)
      else if contentLength ≤ (buffer ++ rest).length then
        (report.2, some ((buffer ++ rest).drop contentLength))
      else (report.2 ++ [.issue (bytesOf "Input ended while discarding oversized frame.") .warning],
        none)) := by
  rw [LspCpp.skipBody, List.length_append]
  rcases reportOverload settings (overloadMessage contentLength settings.maxFrameSize) with ⟨goesOn, events⟩
  dsimp only
  cases goesOn with
  | false => exact ⟨rfl, .inl rfl⟩
  | true =>
      simp only [Bool.true_eq_false, if_false]
      rcases hS.discardBytes (contentLength - min buffer.length contentLength)
        (contentLength - min buffer.length contentLength) hs (Nat.le_refl _) with
        ⟨hle, s', heq, hs'⟩ | ⟨hlt, heq⟩
      · rw [heq, if_pos (by omega : contentLength ≤ buffer.length + rest.length)]
        refine ⟨List.append_nil _, _, hs', ?_⟩
        rw [List.drop_append, show contentLength - min buffer.length contentLength =
          contentLength - buffer.length by omega]
      · rw [heq, if_neg (by omega : ¬contentLength ≤ buffer.length + rest.length)]
        exact ⟨rfl, .inl rfl⟩

theorem IStream.Yields.handleFrame (hS : S.Yields At) (settings : ProducerSettings) (headerBlock : Bytes)
    {s : σ} {rest : Bytes} (hs : At s rest) (buffer : Bytes) :
    (handleFrame S settings headerBlock s buffer).Means At
      (decodeFrame settings headerBlock (buffer ++ rest)) := by
  rw [LspCpp.handleFrame, decodeFrame]
  dsimp only
  by_cases hneg : (parseHeaderBlock headerBlock {}).contentLength < 0
  · rw [if_pos hneg, if_pos hneg]
    exact ⟨rfl, rest, hs, rfl⟩
  · rw [if_neg hneg, if_neg hneg]
    by_cases hlarge : settings.maxFrameSize ≠ 0 ∧
        settings.maxFrameSize < (parseHeaderBlock headerBlock {}).contentLength.toNat
    · rw [if_pos hlarge, if_pos hlarge]
      exact hS.skipBody settings hs buffer _
    · rw [if_neg hlarge, if_neg hlarge]
      exact hS.body hs buffer _

/-- **`listen` computes the meaning of the bytes that its stream yields**, whatever the pieces are. -/
theorem IStream.Yields.listen_eq_decode (hS : S.Yields At) (settings : ProducerSettings) (fuel : Nat)
    {s : σ} {rest : Bytes} (hs : At s rest) (buffer : Bytes) (hfuel : (buffer ++ rest).length + 1 < fuel) :
    listen S settings fuel s buffer = some (decode settings (buffer ++ rest)) := by
  induction fuel generalizing s rest buffer with
  | zero => omega
  | succ fuel ih =>
      rw [listen, hS.reportInputState hs]
      dsimp only
      rw [List.length_append] at hfuel
      rcases hS.fillBuffer fuel hs buffer (by omega) with
        ⟨hnone, heq⟩ | ⟨⟨headerEnd, delimiterSize⟩, s', rest', buffer', hfound, hs', hsame, heq⟩
      · rw [heq, decode_of_none hnone]
        rfl
      · rw [heq, ← hsame, decode_of_some (findHeaderEnd_append hfound rest')]
        dsimp only
        have hbound := findHeaderEnd_bound hfound
        rw [List.take_append_of_le_length (by omega : headerEnd ≤ buffer'.length),
          List.drop_append_of_le_length hbound.2]
        have hmeans := hS.handleFrame settings (buffer'.take headerEnd) hs'
          (buffer'.drop (headerEnd + delimiterSize))
        split <;> rename_i hframe <;> rw [hframe] at hmeans
        · obtain ⟨rfl, hend | hend⟩ := hmeans
          · rw [hend]
            simp
          · rw [hend]
            simp [decode_of_none (show findHeaderEnd [] = none from rfl)]
        · rename_i events _ s'' buffer''
          obtain ⟨rfl, rest'', hs'', hrest⟩ := hmeans
          have hlen := decodeFrame_length hrest
          have htotal := congrArg List.length hsame
          simp only [List.length_append, List.length_drop] at hlen htotal
          rw [ih hs'' buffer'' (by rw [List.length_append]; omega), hrest]
          rfl

end Refinement

end LspCpp

import LspCpp.StreamPieces
import LspCpp.WrapperListen

/-! What becomes of the bytes that arrive before the connection ends. Until then the reader hands on exactly the
frames of these bytes; from then on it hands on one more frame at most, the one that it has looked at the stream for
already, whatever the queue and the buffer hold. -/

namespace LspCpp

/-- The bodies that `listen` hands on from a point on where the connection does not end: `buffer` is what has been
read and `rest` what there is to read. -/
def ReaderPc.bodies (settings : ProducerSettings) (buffer rest : Bytes) : ReaderPc → List Bytes
  | .looking _ next => next.bodies settings buffer rest
  | .findHeader | .tryDequeue | .get | .afterCallBack => messages (decode settings (buffer ++ rest))
  | .dequeueRest c => messages (decode settings (buffer ++ c :: rest))
  | .readBody n | .getBody n | .callBack n =>
      if n ≤ (buffer ++ rest).length then
        (buffer ++ rest).take n :: messages (decode settings ((buffer ++ rest).drop n))
      else []
  | .discard count =>
      if count ≤ rest.length then messages (decode settings (buffer ++ rest.drop count)) else []
  | .getDiscarded left count =>
      if left + count ≤ rest.length then messages (decode settings (buffer ++ rest.drop (left + count))) else []
  | .returned => []

/-- The bodies that `listen` still hands on after the connection has ended: that of a frame which is whole in the
buffer, where no test of the flag is left before the call of the consumer. -/
def ReaderPc.committed (settings : ProducerSettings) (buffer : Bytes) : ReaderPc → List Bytes
  | .looking [] next => next.committed settings buffer
  | .findHeader =>
      match findHeaderEnd buffer with
      | none => []
      | some (headerEnd, delimiterSize) =>
          messages (decodeFrame settings (buffer.take headerEnd) (buffer.drop (headerEnd + delimiterSize))).1
  | .callBack n => [buffer.take n]
  | _ => []

/-- The buffer holds no more than the body that is read, and all of the body that is handed on. -/
def ReaderPc.Placed (buffer : Bytes) : ReaderPc → Prop
  | .looking _ next => next.Placed buffer
  | .readBody n | .getBody n => buffer.length ≤ n
  | .callBack n => n ≤ buffer.length
  | _ => True

namespace WrapperState

/-- The bodies that the reader hands on where `more` arrives and the connection does not end. -/
def pending (settings : ProducerSettings) (s : WrapperState) (more : Bytes) : List Bytes :=
  s.pc.bodies settings s.buffer (s.onRequest ++ more)

def committed (settings : ProducerSettings) (s : WrapperState) : List Bytes := s.pc.committed settings s.buffer

/-- Among the bytes that are buffered and queued, no frame is complete but one that the reader is committed to. -/
def CaughtUp (settings : ProducerSettings) (s : WrapperState) : Prop := s.pending settings [] = s.committed settings

@[simp] theorem messages_nil : messages [] = [] := rfl

@[simp] theorem messages_issue_cons (text : Bytes) (level : LogLevel) (events : List ListenEvent) :
    messages (.issue text level :: events) = messages events := rfl

@[simp] theorem messages_message_cons (content : Bytes) (events : List ListenEvent) :
    messages (.message content :: events) = content :: messages events := rfl

@[simp] theorem messages_reportOverload (settings : ProducerSettings) (message : Bytes) :
    messages (reportOverload settings message).2 = [] := rfl

@[simp] theorem bodies_loopHead (settings : ProducerSettings) (buffer rest : Bytes) :
    loopHead.bodies settings buffer rest = messages (decode settings (buffer ++ rest)) := rfl

/-- Of `count` bytes, those that the queue holds are dropped first and the rest later. -/
theorem drop_taken (queue more : Bytes) {toRead count : Nat} (h : toRead ≤ count) :
    (queue.drop toRead ++ more).drop (toRead - (queue.take toRead).length + (count - toRead)) =
      (queue ++ more).drop count := by
  rw [List.length_take]
  by_cases hle : toRead ≤ queue.length
  · rw [Nat.min_eq_left hle, Nat.sub_self, Nat.zero_add, ← List.drop_append_of_le_length hle, List.drop_drop,
      Nat.add_sub_cancel' h]
  · rw [Nat.min_eq_right (by omega), List.drop_eq_nil_of_le (by omega : queue.length ≤ toRead), List.nil_append,
      List.drop_append, List.drop_eq_nil_of_le (by omega : queue.length ≤ count), List.nil_append]
    congr 1
    omega

/-- The body of an oversized frame, of which the buffer holds a part. -/
theorem bodies_discard (settings : ProducerSettings) (buffer rest : Bytes) (contentLength : Nat) :
    (ReaderPc.discard (contentLength - min buffer.length contentLength)).bodies settings (buffer.drop contentLength)
        rest =
      if contentLength ≤ (buffer ++ rest).length then
        messages (decode settings ((buffer ++ rest).drop contentLength))
      else [] := by
  have hleft : contentLength - min buffer.length contentLength = contentLength - buffer.length := by omega
  rw [ReaderPc.bodies, List.length_append, List.drop_append, hleft]
  by_cases hlen : contentLength ≤ buffer.length + rest.length
  · rw [if_pos hlen, if_pos (by omega)]
  · rw [if_neg hlen, if_neg (by omega)]

/-- A header block, against the meaning of the frame. -/
theorem pending_handleHeader (settings : ProducerSettings) (s : WrapperState) (headerBlock rest more : Bytes) :
    messages (s.handleHeader settings headerBlock rest).events ++
        (s.handleHeader settings headerBlock rest).pending settings more =
      messages s.events ++
        messages ((decodeFrame settings headerBlock (rest ++ (s.onRequest ++ more))).1 ++
          ((decodeFrame settings headerBlock (rest ++ (s.onRequest ++ more))).2.map (decode settings)).getD []) := by
  rw [handleHeader, decodeFrame]
  dsimp only
  split_ifs with hneg hlarge hrefused hdropped hshort hbody hbody
  · simp [pending, messages_append]
  · simp [pending, messages_append, stop, ReaderPc.bodies]
  · rw [pending, bodies_discard, if_pos hdropped]
    simp [messages_append]
  · rw [pending, bodies_discard, if_neg hdropped]
    simp [messages_append]
  · rw [pending, ReaderPc.bodies, if_pos hbody]
    simp
  · rw [pending, ReaderPc.bodies, if_neg hbody]
    simp
  · rw [pending, ReaderPc.bodies, if_pos hbody]
    simp
  · rw [pending, ReaderPc.bodies, if_neg hbody]
    simp

theorem take_append_drop_append (queue more : Bytes) (count : Nat) :
    queue.take count ++ (queue.drop count ++ more) = queue ++ more := by
  rw [← List.append_assoc, List.take_append_drop]

/-- What a step of the reader can be. Where it reads the flag, the case tells how the flag stands. -/
inductive ReaderStep (wrapper : StreamWrapper) (settings : ProducerSettings) (s : WrapperState) : WrapperState → Prop
  | looked {next : ReaderPc} (hpc : s.pc = .looking [] next) : ReaderStep wrapper settings s { s with pc := next }
  | passed {l : Look} {looks : List Look} {next : ReaderPc} (hpc : s.pc = .looking (l :: looks) next)
      (hquit : s.quit = false) : ReaderStep wrapper settings s { s with pc := .looking looks next }
  | refused {l : Look} {looks : List Look} {next : ReaderPc} (hpc : s.pc = .looking (l :: looks) next)
      (hquit : s.quit = true) (text : Bytes) : ReaderStep wrapper settings s (s.stop [.issue text l.level])
  | noHeader (hpc : s.pc = .findHeader) (hend : findHeaderEnd s.buffer = none) :
      ReaderStep wrapper settings s { s with pc := wrapper.readMore }
  | header {headerEnd delimiterSize : Nat} (hpc : s.pc = .findHeader)
      (hend : findHeaderEnd s.buffer = some (headerEnd, delimiterSize)) :
      ReaderStep wrapper settings s
        (s.handleHeader settings (s.buffer.take headerEnd) (s.buffer.drop (headerEnd + delimiterSize)))
  | queueEmpty (hpc : s.pc = .tryDequeue) : ReaderStep wrapper settings s { s with pc := .get }
  | chunk (hpc : s.pc = .tryDequeue) :
      ReaderStep wrapper settings s ({ s with onRequest := s.onRequest.drop 4096 }.append (s.onRequest.take 4096))
  | inputEnded {events : List ListenEvent} (hpc : s.pc = .get) (hquit : s.quit = true)
      (hevents : messages events = []) : ReaderStep wrapper settings s (s.stop events)
  | firstByte {c : UInt8} {rest : Bytes} (hpc : s.pc = .get) (hquit : s.quit = false)
      (hqueue : s.onRequest = c :: rest) :
      ReaderStep wrapper settings s { s with onRequest := rest, pc := .dequeueRest c }
  | singleByte {c : UInt8} {rest : Bytes} (hpc : s.pc = .get) (hquit : s.quit = false)
      (hqueue : s.onRequest = c :: rest) : ReaderStep wrapper settings s ({ s with onRequest := rest }.append [c])
  | chunkRest {c : UInt8} (hpc : s.pc = .dequeueRest c) :
      ReaderStep wrapper settings s
        ({ s with onRequest := s.onRequest.drop 4095 }.append (c :: s.onRequest.take 4095))
  | bodyChunk {n : Nat} (hpc : s.pc = .readBody n) :
      ReaderStep wrapper settings s { s with
        onRequest := s.onRequest.drop (n - s.buffer.length)
        buffer := s.buffer ++ s.onRequest.take (n - s.buffer.length)
        pc := .getBody n }
  | bodyWhole {n : Nat} (hpc : s.pc = .getBody n) (hlen : n ≤ s.buffer.length) :
      ReaderStep wrapper settings s { s with pc := .looking bodyState (.callBack n) }
  | bodyEnded {n : Nat} (hpc : s.pc = .getBody n) (hquit : s.quit = true) :
      ReaderStep wrapper settings s { s with
        buffer := s.buffer ++ List.replicate (n - s.buffer.length) 0
        pc := .looking bodyState (.callBack n) }
  | bodyByte {n : Nat} {c : UInt8} {rest : Bytes} (hpc : s.pc = .getBody n) (hlen : s.buffer.length < n)
      (hquit : s.quit = false) (hqueue : s.onRequest = c :: rest) :
      ReaderStep wrapper settings s { s with onRequest := rest, buffer := s.buffer ++ [c] }
  | discarded (hpc : s.pc = .discard 0) : ReaderStep wrapper settings s { s with pc := loopHead }
  | discardChunk {count : Nat} (hpc : s.pc = .discard count) :
      ReaderStep wrapper settings s { s with
        onRequest := s.onRequest.drop (min count 4096)
        pc := .getDiscarded (min count 4096 - (s.onRequest.take (min count 4096)).length) (count - min count 4096) }
  | chunkDiscarded {count : Nat} (hpc : s.pc = .getDiscarded 0 count) :
      ReaderStep wrapper settings s { s with pc := .looking discardState (.discard count) }
  | discardEnded {left count : Nat} (hpc : s.pc = .getDiscarded (left + 1) count) (hquit : s.quit = true) :
      ReaderStep wrapper settings s { s with pc := .looking discardState (.discard count) }
  | byteDiscarded {left count : Nat} {c : UInt8} {rest : Bytes} (hpc : s.pc = .getDiscarded (left + 1) count)
      (hquit : s.quit = false) (hqueue : s.onRequest = c :: rest) :
      ReaderStep wrapper settings s { s with onRequest := rest, pc := .getDiscarded left count }
  | delivered {n : Nat} (hpc : s.pc = .callBack n) :
      ReaderStep wrapper settings s { s with
        buffer := s.buffer.drop n
        pc := .afterCallBack
        events := s.events ++ [.message (s.buffer.take n)] }
  | finished (hpc : s.pc = .afterCallBack) (hquit : s.quit = true) :
      ReaderStep wrapper settings s { s with pc := .returned }
  | goesOn (hpc : s.pc = .afterCallBack) : ReaderStep wrapper settings s { s with pc := loopHead }

/-- `get` gives a byte of the queue unless the flag is set. -/
theorem get_cases {s s' eof : WrapperState} {item : UInt8 → WrapperState → WrapperState}
    (h : s.get eof item = some s') :
    (s.quit = true ∧ s' = eof) ∨
      ∃ c rest, s.quit = false ∧ s.onRequest = c :: rest ∧ s' = item c { s with onRequest := rest } := by
  rw [get] at h
  split_ifs at h with hquit
  · exact .inl ⟨hquit, (Option.some.inj h).symm⟩
  · split at h
    · cases h
    · rename_i c rest hqueue
      exact .inr ⟨c, rest, Bool.eq_false_iff.mpr hquit, hqueue, (Option.some.inj h).symm⟩

theorem readerStep_of_read {wrapper : StreamWrapper} {settings : ProducerSettings} {s s' : WrapperState}
    (h : s.read wrapper settings = some s') : ReaderStep wrapper settings s s' := by
  unfold read at h
  split at h
  case h_1 next hpc =>
    cases h
    exact .looked hpc
  case h_2 l looks next hpc =>
    cases h
    rw [look]
    split_ifs with hbad
    · exact .refused hpc hbad _
    · exact .refused hpc hbad _
    · exact .passed hpc (Bool.eq_false_iff.mpr hbad)
  case h_3 hpc =>
    split at h <;> rename_i hend <;> cases h
    · exact .noHeader hpc hend
    · exact .header hpc hend
  case h_4 hpc =>
    split at h <;> cases h
    · exact .queueEmpty hpc
    · exact .chunk hpc
  case h_5 hpc =>
    obtain ⟨hquit, rfl⟩ | ⟨c, rest, hquit, hqueue, rfl⟩ := get_cases h
    · refine .inputEnded hpc hquit ?_
      split_ifs <;> rfl
    · cases wrapper with
      | tcp => exact .firstByte hpc hquit hqueue
      | websocket => exact .singleByte hpc hquit hqueue
  case h_6 c hpc =>
    cases h
    exact .chunkRest hpc
  case h_7 n hpc =>
    cases h
    exact .bodyChunk hpc
  case h_8 n hpc =>
    dsimp only at h
    split_ifs at h with hleft
    · cases h
      exact .bodyWhole hpc (Nat.sub_eq_zero_iff_le.mp hleft)
    · obtain ⟨hquit, rfl⟩ | ⟨c, rest, hquit, hqueue, rfl⟩ := get_cases h
      · exact .bodyEnded hpc hquit
      · exact .bodyByte hpc (by omega) hquit hqueue
  case h_9 hpc =>
    cases h
    exact .discarded hpc
  case h_10 count _ hpc =>
    cases h
    exact .discardChunk hpc
  case h_11 count hpc =>
    cases h
    exact .chunkDiscarded hpc
  case h_12 left count hpc =>
    obtain ⟨hquit, rfl⟩ | ⟨c, rest, hquit, hqueue, rfl⟩ := get_cases h
    · exact .discardEnded hpc hquit
    · exact .byteDiscarded hpc hquit hqueue
  case h_13 n hpc =>
    cases h
    exact .delivered hpc
  case h_14 hpc =>
    cases h
    split_ifs with hstop
    · exact .finished hpc (Bool.and_eq_true_iff.mp hstop).1
    · exact .goesOn hpc
  case h_15 => cases h

theorem placed_handleHeader (settings : ProducerSettings) (s : WrapperState) (headerBlock rest : Bytes) :
    (s.handleHeader settings headerBlock rest).pc.Placed (s.handleHeader settings headerBlock rest).buffer := by
  rw [handleHeader]
  dsimp only
  split_ifs with hneg hlarge hrefused hshort
  · trivial
  · trivial
  · trivial
  · exact Nat.le_of_lt hshort
  · exact Nat.not_lt.mp hshort

theorem handleHeader_frame (settings : ProducerSettings) (s : WrapperState) (headerBlock rest : Bytes) :
    (s.handleHeader settings headerBlock rest).quit = s.quit ∧
      (s.handleHeader settings headerBlock rest).arrived = s.arrived := by
  rw [handleHeader]
  dsimp only
  split_ifs <;> exact ⟨rfl, rfl⟩

/-- The reader does not touch the flag. -/
theorem ReaderStep.frame {wrapper : StreamWrapper} {settings : ProducerSettings} {s s' : WrapperState}
    (h : ReaderStep wrapper settings s s') : s'.quit = s.quit ∧ s'.arrived = s.arrived := by
  cases h with
  | header => exact handleHeader_frame ..
  | _ => exact ⟨rfl, rfl⟩

theorem ReaderStep.placed {wrapper : StreamWrapper} {settings : ProducerSettings} {s s' : WrapperState}
    (h : ReaderStep wrapper settings s s') (hplaced : s.pc.Placed s.buffer) : s'.pc.Placed s'.buffer := by
  cases h with
  | looked hpc => rwa [hpc] at hplaced
  | passed hpc _ => rwa [hpc] at hplaced
  | noHeader => cases wrapper <;> trivial
  | header => exact placed_handleHeader ..
  | bodyChunk hpc =>
      rw [hpc] at hplaced
      simp only [ReaderPc.Placed, List.length_append, List.length_take] at hplaced ⊢
      omega
  | bodyWhole _ hlen => exact hlen
  | bodyEnded =>
      simp only [ReaderPc.Placed, List.length_append, List.length_replicate]
      omega
  | bodyByte hpc hlen =>
      simp only [hpc, ReaderPc.Placed, List.length_append, List.length_singleton]
      omega
  | _ => trivial

/-- **What the reader hands on while the connection stands**: the frames of the bytes that it has taken and of those
that it has still to take, whatever arrives. -/
theorem ReaderStep.pending {wrapper : StreamWrapper} {settings : ProducerSettings} {s s' : WrapperState}
    (h : ReaderStep wrapper settings s s') (hquit : s.quit = false) (hplaced : s.pc.Placed s.buffer) (more : Bytes) :
    messages s'.events ++ s'.pending settings more = messages s.events ++ s.pending settings more := by
  cases h with
  | looked hpc =>
      rw [WrapperState.pending, WrapperState.pending, hpc, ReaderPc.bodies]
  | passed hpc =>
      rw [WrapperState.pending, WrapperState.pending, hpc, ReaderPc.bodies, ReaderPc.bodies]
  | noHeader hpc =>
      cases wrapper <;> simp [WrapperState.pending, hpc, StreamWrapper.readMore, ReaderPc.bodies]
  | header hpc hend =>
      have hbound := findHeaderEnd_bound hend
      rw [pending_handleHeader, WrapperState.pending, hpc, ReaderPc.bodies,
        decode_of_some (findHeaderEnd_append hend _), List.take_append_of_le_length (by omega),
        List.drop_append_of_le_length hbound.2]
  | queueEmpty hpc => simp [WrapperState.pending, hpc, ReaderPc.bodies]
  | chunk hpc =>
      rw [WrapperState.pending, WrapperState.pending, hpc, append, bodies_loopHead, ReaderPc.bodies,
        List.append_assoc, take_append_drop_append]
  | firstByte hpc _ hqueue => simp [WrapperState.pending, hpc, hqueue, ReaderPc.bodies]
  | singleByte hpc _ hqueue => simp [WrapperState.pending, hpc, hqueue, append, ReaderPc.bodies]
  | chunkRest hpc =>
      rw [WrapperState.pending, WrapperState.pending, hpc, append, bodies_loopHead, ReaderPc.bodies,
        List.append_assoc, List.cons_append, take_append_drop_append]
  | bodyChunk hpc =>
      rw [WrapperState.pending, WrapperState.pending, hpc, ReaderPc.bodies, ReaderPc.bodies, List.append_assoc,
        take_append_drop_append]
  | bodyWhole hpc =>
      rw [WrapperState.pending, WrapperState.pending, hpc, ReaderPc.bodies, ReaderPc.bodies, ReaderPc.bodies]
  | bodyByte hpc _ _ hqueue => simp [WrapperState.pending, hpc, hqueue, ReaderPc.bodies]
  | discarded hpc => simp [WrapperState.pending, hpc, ReaderPc.bodies]
  | @discardChunk count hpc =>
      have hle : min count 4096 ≤ count := Nat.min_le_left _ _
      have hlen : min count 4096 - (s.onRequest.take (min count 4096)).length + (count - min count 4096) ≤
          (s.onRequest.drop (min count 4096) ++ more).length ↔ count ≤ (s.onRequest ++ more).length := by
        rw [List.length_append, List.length_append, List.length_drop, List.length_take]
        omega
      rw [WrapperState.pending, WrapperState.pending, hpc, ReaderPc.bodies, ReaderPc.bodies, drop_taken _ _ hle]
      exact congrArg (messages s.events ++ ·) (if_congr hlen rfl rfl)
  | chunkDiscarded hpc => simp [WrapperState.pending, hpc, ReaderPc.bodies]
  | byteDiscarded hpc _ hqueue => simp [WrapperState.pending, hpc, hqueue, ReaderPc.bodies, Nat.add_right_comm]
  | @delivered n hpc =>
      rw [hpc] at hplaced
      have hle : n ≤ s.buffer.length := hplaced
      have hwhole : n ≤ (s.buffer ++ (s.onRequest ++ more)).length := by
        rw [List.length_append]
        omega
      rw [WrapperState.pending, WrapperState.pending, hpc, ReaderPc.bodies, ReaderPc.bodies, if_pos hwhole,
        List.take_append_of_le_length hle, List.drop_append_of_le_length hle, messages_append, List.append_assoc]
      rfl
  | goesOn hpc => simp [WrapperState.pending, hpc, ReaderPc.bodies]
  | refused _ hset | inputEnded _ hset | bodyEnded _ hset | discardEnded _ hset | finished _ hset =>
      cases hquit.symm.trans hset

theorem committed_handleHeader (settings : ProducerSettings) (s : WrapperState) (headerBlock rest : Bytes) :
    messages (s.handleHeader settings headerBlock rest).events ++
        (s.handleHeader settings headerBlock rest).committed settings =
      messages s.events ++ messages (decodeFrame settings headerBlock rest).1 := by
  rw [handleHeader, decodeFrame]
  dsimp only
  split_ifs with hneg hlarge hrefused hdropped hshort hbody hbody
  · simp [committed, messages_append, loopHead, inputState, ReaderPc.committed]
  · simp [committed, messages_append, stop, ReaderPc.committed]
  · simp [committed, messages_append, ReaderPc.committed]
  · simp [committed, messages_append, ReaderPc.committed]
  · omega
  · simp [committed, ReaderPc.committed]
  · simp [committed, ReaderPc.committed]
  · omega

@[simp] theorem committed_loopHead (settings : ProducerSettings) (buffer : Bytes) :
    loopHead.committed settings buffer = [] := rfl

/-- **What the reader hands on after the end of the connection**: what it was committed to when the flag was set,
and nothing else, whatever the queue holds. -/
theorem ReaderStep.committed {wrapper : StreamWrapper} {settings : ProducerSettings} {s s' : WrapperState}
    (h : ReaderStep wrapper settings s s') (hquit : s.quit = true) :
    messages s'.events ++ s'.committed settings = messages s.events ++ s.committed settings := by
  cases h with
  | looked hpc => rw [WrapperState.committed, WrapperState.committed, hpc, ReaderPc.committed]
  | refused hpc => simp [WrapperState.committed, hpc, stop, messages_append, ReaderPc.committed]
  | noHeader hpc hend =>
      cases wrapper <;> simp [WrapperState.committed, hpc, hend, StreamWrapper.readMore, ReaderPc.committed]
  | header hpc hend =>
      rw [committed_handleHeader, WrapperState.committed, hpc, ReaderPc.committed, hend]
  | inputEnded hpc _ hevents =>
      simp [WrapperState.committed, hpc, stop, messages_append, hevents, ReaderPc.committed]
  | delivered hpc => simp [WrapperState.committed, hpc, messages_append, ReaderPc.committed]
  | queueEmpty hpc | chunk hpc | chunkRest hpc | bodyChunk hpc | bodyWhole hpc | bodyEnded hpc | discarded hpc
  | discardChunk hpc | chunkDiscarded hpc | discardEnded hpc | finished hpc | goesOn hpc =>
      simp [WrapperState.committed, hpc, append, bodyState, discardState, ReaderPc.committed]
  | passed _ hclear | firstByte _ hclear | singleByte _ hclear | bodyByte _ _ hclear | byteDiscarded _ hclear =>
      cases hquit.symm.trans hclear

/-- What is known of a connection whose end has not been noticed yet. -/
structure Delivering (settings : ProducerSettings) (s : WrapperState) : Prop where
  placed : s.pc.Placed s.buffer
  delivers : s.quit = false → ∀ more,
    messages s.events ++ s.pending settings more = messages (decode settings (s.arrived ++ more))

theorem Delivering.step {wrapper : StreamWrapper} {settings : ProducerSettings} {a : WrapperAction}
    {s s' : WrapperState} (hs : s.Delivering settings) (h : step wrapper settings a s = some s') :
    s'.Delivering settings := by
  cases a with
  | enqueueAll elements =>
      cases h
      refine ⟨hs.placed, fun hquit more => ?_⟩
      have hmore := hs.delivers hquit (elements ++ more)
      rw [pending, ← List.append_assoc, ← List.append_assoc] at hmore
      exact hmore
  | interrupt error =>
      cases h
      exact ⟨hs.placed, fun hquit => by cases hquit⟩
  | readyState notOpen =>
      cases wrapper with
      | tcp => cases h
      | websocket =>
          cases h
          exact ⟨hs.placed, hs.delivers⟩
  | reader =>
      have hread := readerStep_of_read h
      obtain ⟨hquit', harrived⟩ := hread.frame
      refine ⟨hread.placed hs.placed, fun hquit more => ?_⟩
      rw [hquit'] at hquit
      rw [hread.pending hquit hs.placed, hs.delivers hquit, harrived]

/-- In every state of every connection. -/
theorem delivering_of_reachable {wrapper : StreamWrapper} {settings : ProducerSettings} {s : WrapperState}
    (hs : (wrapperSystem wrapper settings).Reachable s) : s.Delivering settings := by
  refine hs.invariant (Delivering settings) (fun s hinit => ?_) fun a s s' hs _ h => hs.step h
  obtain rfl : s = {} := hinit
  exact ⟨trivial, fun _ more => rfl⟩

theorem committed_step {wrapper : StreamWrapper} {settings : ProducerSettings} {a : WrapperAction}
    {s s' : WrapperState} (hquit : s.quit = true) (h : step wrapper settings a s = some s') :
    s'.quit = true ∧
      messages s'.events ++ s'.committed settings = messages s.events ++ s.committed settings := by
  cases a with
  | enqueueAll elements =>
      cases h
      exact ⟨hquit, rfl⟩
  | interrupt error =>
      cases h
      exact ⟨rfl, rfl⟩
  | readyState notOpen =>
      cases wrapper with
      | tcp => cases h
      | websocket =>
          cases h
          exact ⟨hquit, rfl⟩
  | reader =>
      have hread := readerStep_of_read h
      exact ⟨hread.frame.1.trans hquit, hread.committed hquit⟩

theorem committed_run {wrapper : StreamWrapper} {settings : ProducerSettings} {actions : List WrapperAction}
    {s s' : WrapperState} (hquit : s.quit = true) (h : (wrapperSystem wrapper settings).run actions s = some s') :
    messages s'.events ++ s'.committed settings = messages s.events ++ s.committed settings := by
  induction actions generalizing s with
  | nil =>
      cases h
      rfl
  | cons a rest ih =>
      obtain ⟨next, hnext, hrest⟩ := Option.bind_eq_some_iff.mp h
      obtain ⟨hquit', heq⟩ := committed_step hquit hnext
      rw [ih hquit' hrest, heq]

/-- **When the bytes that arrive before the end of a connection are delivered**: whatever the order of the arrivals,
of the end and of the accesses of the reader, `listen` has handed on the frames of these bytes when it returns if and
only if, when the end is noticed, no frame is complete that the reader is not committed to. -/
theorem arrived_delivered_iff {wrapper : StreamWrapper} {settings : ProducerSettings}
    {before closed s : WrapperState} {error : Option Bytes} {actions : List WrapperAction}
    (hbefore : (wrapperSystem wrapper settings).Reachable before) (hopen : before.quit = false)
    (hclose : step wrapper settings (.interrupt error) before = some closed)
    (hrun : (wrapperSystem wrapper settings).run actions closed = some s) (hreturned : s.pc = .returned) :
    messages s.events = messages (decode settings before.arrived) ↔ before.CaughtUp settings := by
  have hdelivers := (delivering_of_reachable hbefore).delivers hopen []
  rw [List.append_nil] at hdelivers
  cases hclose
  have hcommitted := committed_run rfl hrun
  have hlast : s.committed settings = [] := by simp [committed, hreturned, ReaderPc.committed]
  rw [hlast, List.append_nil] at hcommitted
  rw [hcommitted, ← hdelivers, CaughtUp]
  exact (List.append_right_inj _).trans eq_comm

/-- A frame that is handed on before its connection ends, while the reader waits for the next one. -/
theorem arrived_delivered_iff_waiting :
    messages [.message (bytesOf "{}")] = messages (decode {} (writerMsg (bytesOf "{}"))) ↔
      CaughtUp {} { pc := .get, events := [.message (bytesOf "{}")], arrived := writerMsg (bytesOf "{}") } := by
  have hwaiting : (wrapperSystem .tcp {}).run
      (.enqueueAll (writerMsg (bytesOf "{}")) :: List.replicate 16 .reader) {} =
        some { pc := .get, events := [.message (bytesOf "{}")], arrived := writerMsg (bytesOf "{}") } := by
    decide +kernel
  have hclosed := Transition.System.reachable_of_run _ (.init rfl) hwaiting
  exact arrived_delivered_iff hclosed rfl (show step .tcp {} (.interrupt none) _ = some _ from rfl)
    (show (wrapperSystem .tcp {}).run [.reader] _ = some _ from rfl) rfl

/-- **A whole frame that arrives before the end is lost** where the end is noticed before the reader's next look:
`listen` reports that its input is bad and returns. -/
theorem arrived_frame_dropped :
    ∃ before closed s, (wrapperSystem .tcp {}).Reachable before ∧ before.quit = false ∧
      step .tcp {} (.interrupt (some (bytesOf "End of file"))) before = some closed ∧
      (wrapperSystem .tcp {}).run [.reader] closed = some s ∧ s.pc = .returned ∧
      messages (decode {} before.arrived) = [bytesOf "{}"] ∧ messages s.events = [] := by
  refine ⟨{ onRequest := writerMsg (bytesOf "{}"), arrived := writerMsg (bytesOf "{}") }, _, _,
    .step (a := .enqueueAll (writerMsg (bytesOf "{}"))) (.init rfl) trivial rfl, rfl, rfl, rfl, rfl, ?_, rfl⟩
  have hdecode := decode_writerMsg {} (show (bytesOf "{}").length < 2147483648 by decide) []
  rw [List.append_nil] at hdecode
  rw [hdecode, decode_of_none rfl]
  rfl

end WrapperState

end LspCpp

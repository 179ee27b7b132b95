import LspCpp.LibTransition
import LspCpp.StreamCutOff
import LspCpp.StreamDescriptor

/-! Messages that several senders write into the standard input of a process, and what the process reads there. The
operating system takes the bytes in pieces, may interrupt a call or fail it, and the pipe may be closed from this side
at any time. -/

namespace LspCpp

/-- What one call of `::write` returns: a size, `EINTR`, or another error. -/
inductive OsWrite where
  | size (n : Nat)
  | interrupted
  | failed (error : Bytes)
  deriving DecidableEq, Repr

/-- Where the holder of the send mutex is: before `bad` and `write`, at the head of `write`, in its loop with the bytes
that remain, or behind it. -/
inductive PipePhase where
  | checking (body : Bytes)
  | entering (body : Bytes)
  | writing (remaining : Bytes)
  | returning
  deriving DecidableEq, Repr

/-- `pipe_ostream` and its senders. `bodies` are the bodies of the frames whose loop has begun, in that order; `taken`
is what the operating system has taken of them and `lost` what remained where a loop broke off. -/
structure PipeState where
  fd : Int
  isBad : Bool := false
  what : Bytes := []
  sendMutex : Option (Nat × PipePhase) := none
  bodies : List Bytes := []
  taken : Bytes := []
  lost : Bytes := []
  deriving DecidableEq, Repr

inductive PipeAction where
  | lock (sender : Nat) (body : Bytes)
  | check (allowed : Bool)
  | enter
  | write (result : OsWrite)
  | unlock
  | close
  deriving DecidableEq, Repr

namespace PipeState

/-- `pipe_ostream::bad`, which is `fail` as well. -/
def bad (s : PipeState) : Bool := s.isBad

/-- The loop of `write` breaks off. -/
def breakOff (s : PipeState) (sender : Nat) (remaining error : Bytes) : PipeState :=
  { s with isBad := true, what := error, sendMutex := some (sender, .returning), lost := remaining }

/-- One round of the loop of `write`. A descriptor that has been closed lets the call fail. -/
def writeRound (s : PipeState) (sender : Nat) (remaining : Bytes) : OsWrite → Option PipeState
  | .interrupted => some s
  | .failed error => some (s.breakOff sender remaining error)
  | .size n =>
      if s.fd < 0 ∨ remaining.length < n then none
      else if n = 0 then some (s.breakOff sender remaining (bytesOf "Failed to write to process stdin pipe."))
      else
        some { s with
          sendMutex := some (sender, .writing (remaining.drop n))
          taken := s.taken ++ remaining.take n }

/-- `allowed` stands for what a sender checks besides `bad`. -/
def step : PipeAction → PipeState → Option PipeState
  | .lock sender body, s =>
      if s.sendMutex = none then some { s with sendMutex := some (sender, .checking body) } else none
  | .check allowed, s =>
      match s.sendMutex with
      | some (sender, .checking body) =>
          if allowed && !s.bad then some { s with sendMutex := some (sender, .entering body) }
          else some { s with sendMutex := some (sender, .returning) }
      | _ => none
  | .enter, s =>
      match s.sendMutex with
      | some (sender, .entering body) =>
          if s.fd < 0 ∨ s.isBad = true then some { s with isBad := true, sendMutex := some (sender, .returning) }
          else some { s with sendMutex := some (sender, .writing (writerMsg body)), bodies := s.bodies ++ [body] }
      | _ => none
  | .write result, s =>
      match s.sendMutex with
      | some (sender, .writing (c :: rest)) => s.writeRound sender (c :: rest) result
      | _ => none
  | .unlock, s =>
      match s.sendMutex with
      | some (_, .returning) => some { s with sendMutex := none }
      | some (_, .writing []) => some { s with sendMutex := none }
      | _ => none
  | .close, s => some { s with fd := -1 }

end PipeState

/-- A pipe from its start on, at any descriptor. -/
def pipeSystem : Transition.System PipeState PipeAction where
  init s := ∃ fd : Nat, s = { fd := fd }
  step := PipeState.step

/-- The bodies that are sent are ones that the reader accepts. -/
def PipeAction.Sends (settings : ProducerSettings) : PipeAction → PipeState → Prop
  | .lock _ body, _ => Fits settings body
  | _, _ => True

instance (settings : ProducerSettings) : ∀ a s, Decidable (PipeAction.Sends settings a s)
  | .lock _ body, _ => inferInstanceAs (Decidable (Fits settings body))
  | .check _, _ | .enter, _ | .write _, _ | .unlock, _ | .close, _ => inferInstanceAs (Decidable True)

namespace PipeState

/-- What has not been taken of the frame that was begun last. -/
def missing (s : PipeState) : Bytes :=
  match s.sendMutex with
  | some (_, .writing remaining) => remaining
  | _ => s.lost

section Steps

variable {s s' : PipeState}

theorem step_lock {sender : Nat} {body : Bytes} (h : step (.lock sender body) s = some s') :
    s.sendMutex = none ∧ s' = { s with sendMutex := some (sender, .checking body) } :=
  Transition.of_guard h

theorem step_check {allowed : Bool} (h : step (.check allowed) s = some s') :
    ∃ sender body, s.sendMutex = some (sender, .checking body) ∧
      (s' = { s with sendMutex := some (sender, .entering body) } ∨
        s' = { s with sendMutex := some (sender, .returning) }) := by
  rw [step] at h
  split at h
  · rename_i sender body hmutex
    split_ifs at h <;> cases h
    · exact ⟨sender, body, hmutex, .inl rfl⟩
    · exact ⟨sender, body, hmutex, .inr rfl⟩
  · cases h

theorem step_enter (h : step .enter s = some s') :
    ∃ sender body, s.sendMutex = some (sender, .entering body) ∧
      (s' = { s with isBad := true, sendMutex := some (sender, .returning) } ∨
        s.isBad = false ∧
          s' = { s with sendMutex := some (sender, .writing (writerMsg body)), bodies := s.bodies ++ [body] }) := by
  rw [step] at h
  split at h
  · rename_i sender body hmutex
    split_ifs at h with hbad <;> cases h
    · exact ⟨sender, body, hmutex, .inl rfl⟩
    · simp only [not_or, Bool.not_eq_true] at hbad
      exact ⟨sender, body, hmutex, .inr ⟨hbad.2, rfl⟩⟩
  · cases h

/-- A round of the loop: nothing happens, it breaks off, or a piece is taken. -/
theorem step_write {result : OsWrite} (h : step (.write result) s = some s') :
    ∃ sender remaining, s.sendMutex = some (sender, .writing remaining) ∧ remaining ≠ [] ∧
      (s' = s ∨ (∃ error, s' = s.breakOff sender remaining error) ∨
        ∃ n, s' = { s with
          sendMutex := some (sender, .writing (remaining.drop n)), taken := s.taken ++ remaining.take n }) := by
  rw [step] at h
  split at h
  · rename_i sender c rest hmutex
    refine ⟨sender, c :: rest, hmutex, List.cons_ne_nil _ _, ?_⟩
    cases result with
    | interrupted => exact .inl (Option.some.inj h).symm
    | failed error => exact .inr (.inl ⟨error, (Option.some.inj h).symm⟩)
    | size n =>
        rw [writeRound] at h
        split_ifs at h
        · exact .inr (.inl ⟨_, (Option.some.inj h).symm⟩)
        · exact .inr (.inr ⟨n, (Option.some.inj h).symm⟩)
  · cases h

theorem step_unlock (h : step .unlock s = some s') :
    ∃ sender phase, s.sendMutex = some (sender, phase) ∧ (phase = .returning ∨ phase = .writing []) ∧
      s' = { s with sendMutex := none } := by
  rw [step] at h
  split at h
  · rename_i sender hmutex
    exact ⟨sender, _, hmutex, .inl rfl, (Option.some.inj h).symm⟩
  · rename_i sender hmutex
    exact ⟨sender, _, hmutex, .inr rfl, (Option.some.inj h).symm⟩
  · cases h

end Steps

/-! ### The accounts of the pipe -/

/-- The bodies that a sender carries before its loop. -/
def waitingBody (s : PipeState) : Option Bytes :=
  match s.sendMutex with
  | some (_, .checking body) => some body
  | some (_, .entering body) => some body
  | _ => none

/-- What has been taken and what is missing make up the frames that were begun, of which the last one only can lack
bytes; and nothing is begun behind bytes that were lost. -/
structure Accounted (settings : ProducerSettings) (s : PipeState) : Prop where
  fits : ∀ body ∈ s.bodies, Fits settings body
  waiting : ∀ body ∈ s.waitingBody, Fits settings body
  bytes : s.taken ++ s.missing = s.bodies.flatMap writerMsg
  last : s.missing ≠ [] → ∃ before body, s.bodies = before ++ [body] ∧ s.missing <:+ writerMsg body
  lost : s.lost ≠ [] → s.isBad = true
  writing : ∀ sender remaining, s.sendMutex = some (sender, .writing remaining) → s.lost = []

section Accounts

variable {settings : ProducerSettings} {s s' : PipeState}

/-- A step that changes neither the frames nor the bytes, and leaves the holder of the mutex outside of the loop. -/
theorem Accounted.frame (h : s.Accounted settings) (hbodies : s'.bodies = s.bodies) (htaken : s'.taken = s.taken)
    (hlost : s'.lost = s.lost) (hmissing : s'.missing = s.missing)
    (hwaiting : ∀ body ∈ s'.waitingBody, Fits settings body) (hbad : s.isBad = true → s'.isBad = true)
    (hwriting : ∀ sender remaining, s'.sendMutex = some (sender, .writing remaining) →
      s.sendMutex = some (sender, .writing remaining)) : s'.Accounted settings where
  fits := hbodies ▸ h.fits
  waiting := hwaiting
  bytes := by rw [htaken, hmissing, hbodies, h.bytes]
  last := by
    rw [hmissing, hbodies]
    exact h.last
  lost hne := hbad (h.lost (hlost ▸ hne))
  writing sender remaining hmutex := hlost ▸ h.writing sender remaining (hwriting sender remaining hmutex)

/-- The loop is entered where nothing was lost before. -/
theorem Accounted.enter (h : s.Accounted settings) {sender : Nat} {body : Bytes}
    (hmutex : s.sendMutex = some (sender, .entering body)) (hgood : s.isBad = false) :
    Accounted settings
      { s with sendMutex := some (sender, .writing (writerMsg body)), bodies := s.bodies ++ [body] } := by
  have hbody : Fits settings body := h.waiting body (by simp [waitingBody, hmutex])
  have hlost : s.lost = [] := by
    by_contra hne
    exact absurd (h.lost hne) (by simp [hgood])
  have hmissing : s.missing = [] := by simp [missing, hmutex, hlost]
  have hbytes := h.bytes
  rw [hmissing, List.append_nil] at hbytes
  constructor
  · intro body' hmem
    rcases List.mem_append.mp hmem with hold | hnew
    · exact h.fits body' hold
    · rw [List.mem_singleton.mp hnew]
      exact hbody
  · simp [waitingBody]
  · show s.taken ++ writerMsg body = _
    rw [List.flatMap_append, ← hbytes]
    simp
  · intro _
    exact ⟨s.bodies, body, rfl, List.suffix_refl _⟩
  · exact h.lost
  · intro _ _ _
    exact hlost

theorem Accounted.breakOff (h : s.Accounted settings) {sender : Nat} {remaining : Bytes}
    (hmutex : s.sendMutex = some (sender, .writing remaining)) (error : Bytes) :
    (s.breakOff sender remaining error).Accounted settings := by
  have hmissing : s.missing = remaining := by simp [missing, hmutex]
  have hsame : (s.breakOff sender remaining error).missing = s.missing := by simp [missing, PipeState.breakOff, hmutex]
  constructor
  · exact h.fits
  · simp [waitingBody, PipeState.breakOff]
  · rw [hsame]
    exact h.bytes
  · rw [hsame]
    exact h.last
  · intro _
    rfl
  · intro sender' remaining' hwriting
    simp [PipeState.breakOff] at hwriting

/-- A piece that is taken is no longer missing. -/
theorem Accounted.take (h : s.Accounted settings) {sender : Nat} {remaining : Bytes}
    (hmutex : s.sendMutex = some (sender, .writing remaining)) (n : Nat) :
    Accounted settings
      { s with sendMutex := some (sender, .writing (remaining.drop n)), taken := s.taken ++ remaining.take n } := by
  have hmissing : s.missing = remaining := by simp [missing, hmutex]
  constructor
  · exact h.fits
  · simp [waitingBody]
  · show s.taken ++ remaining.take n ++ remaining.drop n = _
    rw [List.append_assoc, List.take_append_drop, ← hmissing]
    exact h.bytes
  · intro hne
    have hremaining : s.missing ≠ [] := by
      rw [hmissing]
      intro hnil
      exact hne (by simp [missing, hnil])
    obtain ⟨before, body, hbodies, hsuffix⟩ := h.last hremaining
    refine ⟨before, body, hbodies, List.IsSuffix.trans ?_ hsuffix⟩
    rw [hmissing]
    exact List.drop_suffix n remaining
  · exact h.lost
  · intro _ _ _
    exact h.writing sender remaining hmutex

theorem Accounted.step {a : PipeAction} (h : s.Accounted settings) (hsends : a.Sends settings s)
    (hstep : step a s = some s') : s'.Accounted settings := by
  cases a with
  | lock sender body =>
      obtain ⟨hmutex, rfl⟩ := step_lock hstep
      refine h.frame rfl rfl rfl (by simp [missing, hmutex]) ?_ id (by simp)
      have hbody : Fits settings body := hsends
      simpa [waitingBody] using hbody
  | check allowed =>
      obtain ⟨sender, body, hmutex, rfl | rfl⟩ := step_check hstep
      · refine h.frame rfl rfl rfl (by simp [missing, hmutex]) ?_ id (by simp)
        exact fun body' hbody => h.waiting body' (by simpa [waitingBody, hmutex] using hbody)
      · exact h.frame rfl rfl rfl (by simp [missing, hmutex]) (by simp [waitingBody]) id (by simp)
  | enter =>
      obtain ⟨sender, body, hmutex, rfl | ⟨hgood, rfl⟩⟩ := step_enter hstep
      · exact h.frame rfl rfl rfl (by simp [missing, hmutex]) (by simp [waitingBody]) (fun _ => rfl) (by simp)
      · exact h.enter hmutex hgood
  | write result =>
      obtain ⟨sender, remaining, hmutex, -, rfl | ⟨error, rfl⟩ | ⟨n, rfl⟩⟩ := step_write hstep
      · exact h
      · exact h.breakOff hmutex error
      · exact h.take hmutex n
  | unlock =>
      obtain ⟨sender, phase, hmutex, hphase, rfl⟩ := step_unlock hstep
      refine h.frame rfl rfl rfl ?_ (by simp [waitingBody]) id (by simp)
      rcases hphase with rfl | rfl
      · simp [missing, hmutex]
      · simp [missing, hmutex, h.writing sender [] hmutex]
  | close =>
      obtain rfl := Option.some.inj hstep
      exact h.frame rfl rfl rfl rfl h.waiting id fun _ _ => id

theorem accounted (hs : pipeSystem.ReachableIf (PipeAction.Sends settings) s) : s.Accounted settings := by
  apply hs.invariant (Accounted settings)
  · intro s hinit
    obtain ⟨fd, rfl⟩ := hinit
    constructor <;> simp [waitingBody, missing]
  · intro a s s' h hsends hstep
    exact h.step hsends hstep

end Accounts

/-- The bytes that were taken mean the bodies of the frames, without the last one where it is cut off. -/
theorem Accounted.messages_taken {settings : ProducerSettings} {s : PipeState} (h : s.Accounted settings) :
    messages (decode settings s.taken) = if s.missing = [] then s.bodies else s.bodies.dropLast := by
  have hbytes := h.bytes
  split_ifs with hmissing
  · rw [hmissing, List.append_nil] at hbytes
    rw [hbytes]
    exact messages_decode_flatMap h.fits
  · obtain ⟨before, body, hbodies, piece, hpiece⟩ := h.last hmissing
    have hfits := h.fits
    rw [hbodies] at hfits
    have htaken : s.taken = before.flatMap writerMsg ++ piece := by
      rw [hbodies, List.flatMap_append, List.flatMap_singleton, ← hpiece, ← List.append_assoc] at hbytes
      exact List.append_cancel_right hbytes
    have hcut : piece ≠ writerMsg body := by
      intro hwhole
      rw [hwhole] at hpiece
      exact hmissing (List.append_right_eq_self.mp hpiece)
    rw [htaken, hbodies, List.dropLast_concat]
    exact messages_decode_piece (fun b hb => hfits b (List.mem_append_left _ hb))
      (hfits body (List.mem_append_right _ (List.mem_singleton_self _))) ⟨_, hpiece⟩ hcut

/-- **What is sent to a process arrives**: in every state of every interleaving of senders, with whatever sizes,
interruptions and failures of the writes and of a close, a process that reads its standard input in whatever pieces up
to its end is handed the bodies of the frames in the order in which they were begun, each once, without the last one
where it is cut off; a frame is cut off while it is written, or by a failure that the stream reports, and while no
frame is written and the stream is good it has all of them. -/
theorem pipeWrites_delivered {settings : ProducerSettings} {s : PipeState}
    (hs : pipeSystem.ReachableIf (PipeAction.Sends settings) s) (cls : DescriptorIstream) (os : Nat → OsRead)
    (hos : DescriptorIstream.Reads os) (fd : Nat) :
    (∃ rounds, ∀ fuel, rounds ≤ fuel → ∃ events,
      listen (DescriptorIstream.toCharStream cls os).toIStream settings fuel { fd := fd, unread := s.taken } [] =
          some events ∧
        messages events = if s.missing = [] then s.bodies else s.bodies.dropLast) ∧
      (s.sendMutex = none → s.isBad = false → s.missing = []) := by
  have h := accounted hs
  constructor
  · have hyields := DescriptorIstream.toCharStream_yields cls hos
    refine ⟨s.taken.length + 2, fun fuel hfuel => ⟨decode settings s.taken, ?_, h.messages_taken⟩⟩
    exact hyields.listen_eq_decode settings fuel (DescriptorIstream.Pending.init fd s.taken) []
      (by rw [List.nil_append]; omega)
  · intro hmutex hgood
    have hlost : s.lost = [] := by
      by_contra hne
      exact absurd (h.lost hne) (by simp [hgood])
    simp [missing, hmutex, hlost]

/-- The first of two frames is written in two pieces with a signal between them; of the second the pipe takes five
bytes before it breaks. -/
theorem pipeWrites_delivered_broken :
    ∃ s : PipeState, s.bodies = [bytesOf "[1]", bytesOf "[2]"] ∧ s.missing = (writerMsg (bytesOf "[2]")).drop 5 ∧
      ∃ rounds, ∀ fuel, rounds ≤ fuel → ∃ events,
        listen (DescriptorIstream.toCharStream .stdinIstream fun _ => ⟨[.read], .size 3⟩).toIStream {} fuel
            { fd := (0 : Nat), unread := s.taken } [] = some events ∧
          messages events = if s.missing = [] then s.bodies else s.bodies.dropLast := by
  have hrun : pipeSystem.runIf (PipeAction.Sends {}) [.lock 1 (bytesOf "[1]"), .check true, .enter,
      .write (.size 7), .write .interrupted, .write (.size 17), .unlock, .lock 2 (bytesOf "[2]"), .check true, .enter,
      .write (.size 5), .close, .write (.failed (bytesOf "Broken pipe")), .unlock] { fd := (4 : Nat) } = some
        { fd := -1, isBad := true, what := bytesOf "Broken pipe", bodies := [bytesOf "[1]", bytesOf "[2]"],
          taken := writerMsg (bytesOf "[1]") ++ (writerMsg (bytesOf "[2]")).take 5,
          lost := (writerMsg (bytesOf "[2]")).drop 5 } := by
    decide +kernel
  have hinit : pipeSystem.ReachableIf (PipeAction.Sends {}) { fd := (4 : Nat) } := .init ⟨4, rfl⟩
  have hs := Transition.System.reachableIf_of_runIf _ hinit hrun
  exact ⟨_, rfl, rfl, (pipeWrites_delivered hs .stdinIstream _ (fun _ => ⟨3, rfl⟩) 0).1⟩

end PipeState

end LspCpp

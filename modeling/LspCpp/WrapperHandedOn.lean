import LspCpp.StreamCutOff
import LspCpp.WrapperClosed

/-! What the reader of a connection has handed on at any time: messages of the bytes that have arrived, in their order
and from the first one on, also when the connection has ended; and all that are whole when it waits for more. -/

namespace LspCpp

/-- Where the reader asks for more bytes, it has searched those that it has for the end of a header. -/
def ReaderPc.Searched (buffer : Bytes) : ReaderPc → Prop
  | .looking _ next => next.Searched buffer
  | .tryDequeue | .get | .dequeueRest _ => findHeaderEnd buffer = none
  | _ => True

section

variable {settings : ProducerSettings}

/-- What is handed on after the end is what would have been handed on first without it. -/
theorem ReaderPc.committed_prefix {pc : ReaderPc} {buffer : Bytes} (hplaced : pc.Placed buffer) (rest : Bytes) :
    pc.committed settings buffer <+: pc.bodies settings buffer rest := by
  induction pc with
  | looking looks next ih =>
      cases looks with
      | nil => exact ih hplaced
      | cons l looks => exact List.nil_prefix
  | findHeader =>
      rw [ReaderPc.committed, ReaderPc.bodies]
      split
      · exact List.nil_prefix
      · rename_i headerEnd delimiterSize hend
        have hframe : messages (decodeFrame settings (buffer.take headerEnd)
            (buffer.drop (headerEnd + delimiterSize))).1 <+: messages (decode settings buffer) := by
          rw [decode_of_some hend, messages_append]
          exact List.prefix_append _ _
        exact hframe.trans (messages_decode_append settings buffer rest)
  | callBack n =>
      have hlen : n ≤ buffer.length := hplaced
      rw [ReaderPc.committed, ReaderPc.bodies, if_pos (by rw [List.length_append]; omega),
        List.take_append_of_le_length hlen]
      exact List.prefix_append [_] _
  | tryDequeue | get | dequeueRest | readBody | getBody | discard | getDiscarded | afterCallBack | returned =>
      exact List.nil_prefix

end

namespace WrapperState

variable {wrapper : StreamWrapper} {settings : ProducerSettings} {s s' : WrapperState}

/-- The messages that were handed on, and the one that the reader is committed to. -/
def HandedOn (settings : ProducerSettings) (s : WrapperState) : Prop :=
  messages s.events ++ s.committed settings <+: messages (decode settings s.arrived)

/-- As long as the end has not been noticed. -/
theorem Delivering.handedOn (h : s.Delivering settings) (hopen : s.quit = false) : s.HandedOn settings := by
  have hdelivers := h.delivers hopen []
  rw [List.append_nil] at hdelivers
  rw [HandedOn, ← hdelivers]
  exact (List.prefix_append_right_inj _).mpr (ReaderPc.committed_prefix h.placed _)

theorem arrived_prefix {a : WrapperAction} (h : step wrapper settings a s = some s') : s.arrived <+: s'.arrived := by
  cases a with
  | enqueueAll elements =>
      cases h
      exact List.prefix_append _ _
  | interrupt error =>
      cases h
      exact List.prefix_refl _
  | readyState notOpen =>
      cases wrapper with
      | tcp => cases h
      | websocket =>
          cases h
          exact List.prefix_refl _
  | reader =>
      rw [(readerStep_of_read h).frame.2]

theorem HandedOn.step {a : WrapperAction} (h : s.HandedOn settings) (hs : s.Delivering settings)
    (hstep : step wrapper settings a s = some s') : s'.HandedOn settings := by
  cases hquit : s.quit with
  | true =>
      obtain ⟨bytes, hbytes⟩ := arrived_prefix hstep
      rw [HandedOn, (committed_step hquit hstep).2, ← hbytes]
      exact List.IsPrefix.trans h (messages_decode_append settings s.arrived bytes)
  | false =>
      cases hquit' : s'.quit with
      | false => exact (hs.step hstep).handedOn hquit'
      | true =>
          cases a with
          | interrupt error =>
              cases hstep
              exact h
          | enqueueAll elements =>
              cases hstep
              exact absurd (hquit.symm.trans hquit') Bool.false_ne_true
          | readyState notOpen =>
              cases wrapper with
              | tcp => cases hstep
              | websocket =>
                  cases hstep
                  exact absurd (hquit.symm.trans hquit') Bool.false_ne_true
          | reader =>
              have hsame := (readerStep_of_read hstep).frame.1
              rw [hquit, hquit'] at hsame
              exact absurd hsame Bool.true_eq_false.mp

theorem handedOn (hs : (wrapperSystem wrapper settings).Reachable s) : s.HandedOn settings := by
  refine hs.invariant_of (Delivering settings) (HandedOn settings) (fun s => delivering_of_reachable) ?_ ?_
  · intro s hinit
    obtain rfl : s = {} := hinit
    rw [HandedOn]
    exact List.nil_prefix
  · intro a s s' hdelivering h _ hstep
    exact h.step hdelivering hstep

theorem searched_handleHeader (headerBlock rest : Bytes) :
    (s.handleHeader settings headerBlock rest).pc.Searched (s.handleHeader settings headerBlock rest).buffer := by
  rw [handleHeader]
  dsimp only
  split_ifs <;> trivial

theorem Searched.step {a : WrapperAction} (h : s.pc.Searched s.buffer) (hstep : step wrapper settings a s = some s') :
    s'.pc.Searched s'.buffer := by
  cases a with
  | enqueueAll elements =>
      cases hstep
      exact h
  | interrupt error =>
      cases hstep
      exact h
  | readyState notOpen =>
      cases wrapper with
      | tcp => cases hstep
      | websocket =>
          cases hstep
          exact h
  | reader =>
      have hread := readerStep_of_read hstep
      cases hread with
      | looked hpc | passed hpc | queueEmpty hpc | firstByte hpc =>
          rw [hpc] at h
          exact h
      | noHeader hpc hend =>
          cases wrapper with
          | tcp => exact hend
          | websocket => exact hend
      | header hpc hend => exact searched_handleHeader _ _
      | bodyByte hpc =>
          show s.pc.Searched _
          rw [hpc]
          trivial
      | _ => trivial

theorem searched (hs : (wrapperSystem wrapper settings).Reachable s) : s.pc.Searched s.buffer := by
  refine hs.invariant (fun s => s.pc.Searched s.buffer) ?_ fun a s s' h _ hstep => Searched.step h hstep
  intro s hinit
  obtain rfl : s = {} := hinit
  trivial

/-- The reader waits for a byte: it has no step and has not returned. -/
def Waits (wrapper : StreamWrapper) (settings : ProducerSettings) (s : WrapperState) : Prop :=
  s.read wrapper settings = none ∧ s.pc ≠ .returned

theorem get_eq_none {eof : WrapperState} {item : UInt8 → WrapperState → WrapperState} (h : s.get eof item = none) :
    s.quit = false ∧ s.onRequest = [] := by
  rw [get] at h
  split_ifs at h with hquit
  split at h
  · rename_i hqueue
    exact ⟨Bool.eq_false_iff.mpr hquit, hqueue⟩
  · cases h

/-- A reader that waits has nothing left to hand on. -/
theorem Waits.pending_eq_nil (h : s.Waits wrapper settings) (hsearched : s.pc.Searched s.buffer) :
    s.quit = false ∧ s.pending settings [] = [] := by
  obtain ⟨hread, hreturned⟩ := h
  unfold read at hread
  split at hread
  case h_5 hpc =>
    obtain ⟨hquit, hqueue⟩ := get_eq_none hread
    rw [hpc] at hsearched
    have hnone : findHeaderEnd s.buffer = none := hsearched
    refine ⟨hquit, ?_⟩
    rw [pending, hpc, hqueue, ReaderPc.bodies, List.append_nil, List.append_nil, decode_of_none hnone]
    split_ifs <;> rfl
  case h_8 n hpc =>
    dsimp only at hread
    split_ifs at hread with hleft
    obtain ⟨hquit, hqueue⟩ := get_eq_none hread
    refine ⟨hquit, ?_⟩
    rw [pending, hpc, hqueue, ReaderPc.bodies, List.append_nil, List.append_nil, if_neg (by omega)]
  case h_12 left count hpc =>
    obtain ⟨hquit, hqueue⟩ := get_eq_none hread
    refine ⟨hquit, ?_⟩
    rw [pending, hpc, hqueue, ReaderPc.bodies]
    exact if_neg (by simp)
  case h_15 hpc => exact absurd hpc hreturned
  all_goals (try split at hread) <;> cases hread

end WrapperState

end LspCpp

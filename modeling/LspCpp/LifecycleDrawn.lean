import LspCpp.LifecycleFrames

/-! The sequence numbers that are about in an endpoint. All of them were drawn from `next_message_sequence`, also
those that an earlier session has left behind. -/

namespace LspCpp

/-- The message of a reader that has not been handed over. -/
def ReaderPhase.sequence : ReaderPhase → Option Nat
  | .posting sequence | .dropping sequence => some sequence
  | _ => none

namespace LifecycleState

/-- Every sequence number that is about was drawn from `next_message_sequence`. -/
structure Drawn (s : LifecycleState) : Prop where
  routed : s.reorder.nextRouteSequence ≤ s.nextMessageSequence
  buffered : ∀ k ∈ s.reorder.reorderBuffer, k < s.nextMessageSequence
  queued : ∀ task ∈ s.parseQueue, task.sequence < s.nextMessageSequence
  parsing : ∀ task ∈ s.parsing, task.sequence < s.nextMessageSequence
  reading : ∀ session reader k, s.readers session = some reader → reader.phase.sequence = some k →
    k < s.nextMessageSequence

variable {s s' : LifecycleState}

/-- Most steps draw no number and hand over what is about, or drop it. -/
theorem Drawn.mono (h : Drawn s) (hrouted : s'.reorder.nextRouteSequence = s.reorder.nextRouteSequence)
    (hbuffered : s'.reorder.reorderBuffer = s.reorder.reorderBuffer)
    (hqueued : s'.parseQueue ⊆ s.parseQueue) (hparsing : s'.parsing ⊆ s.parsing)
    (hreaders : s'.readers = s.readers) (hnext : s'.nextMessageSequence = s.nextMessageSequence) : Drawn s' := by
  refine ⟨?_, ?_, fun task htask => ?_, fun task htask => ?_, ?_⟩ <;> rw [hnext]
  · rw [hrouted]
    exact h.routed
  · rw [hbuffered]
    exact h.buffered
  · exact h.queued task (hqueued htask)
  · exact h.parsing task (hparsing htask)
  · rw [hreaders]
    exact h.reading

theorem Drawn.setReader (h : Drawn s) {session : Nat} {reader : Reader}
    (hreader : ∀ k, reader.phase.sequence = some k → k < s.nextMessageSequence) :
    Drawn (s.setReader session reader) := by
  refine ⟨h.routed, h.buffered, h.queued, h.parsing, fun session' reader' k hreader' hk => ?_⟩
  rcases Table.update_eq_some hreader' with ⟨_, heq⟩ | ⟨_, hold⟩
  · cases heq
    exact hreader k hk
  · exact h.reading session' reader' k hold hk

/-- A reader that holds no sequence. -/
theorem Drawn.idleReader (h : Drawn s) {session : Nat} {reader : Reader} (hidle : reader.phase.sequence = none) :
    Drawn (s.setReader session reader) := by
  refine h.setReader fun k hk => ?_
  cases hidle.symm.trans hk

theorem Drawn.removeReader (h : Drawn s) (session : Nat) : Drawn (s.removeReader session) := by
  refine ⟨h.routed, h.buffered, h.queued, h.parsing, fun session' reader' k hreader' hk => ?_⟩
  rcases Table.update_eq_some hreader' with ⟨_, heq⟩ | ⟨_, hold⟩
  · cases heq
  · exact h.reading session' reader' k hold hk

theorem Drawn.endParse (h : Drawn s) (task : ParseTask) : Drawn (s.endParse task) :=
  h.mono rfl rfl (fun _ => id) (fun _ => List.mem_of_mem_erase) rfl rfl

theorem Drawn.resume (h : Drawn s) (caller : Caller) : Drawn (s.resume caller) := by
  rcases s.resume_cases caller with heq | ⟨session, buffer, leaves, _, _, heq⟩ | ⟨task, _, heq⟩ <;> rw [heq]
  · exact h
  · exact h.idleReader rfl
  · exact (h.endParse task).mono rfl rfl (fun _ => id) (fun _ => id) rfl rfl

/-- A message that is submitted is routed, or waits in the buffer. -/
theorem Drawn.submit (h : Drawn s) {sequence : Nat} {reorder : Reorder} {items : List SequencedParsedMessage}
    (hsequence : sequence < s.nextMessageSequence) (hadvances : Reorder.Advances s.reorder reorder sequence items)
    (dispatch : Option Dispatch) : Drawn { s with reorder := reorder, dispatch := dispatch } := by
  have hmem : ∀ k, k = sequence ∨ k ∈ s.reorder.reorderBuffer → k < s.nextMessageSequence := by
    rintro k (rfl | hk)
    · exact hsequence
    · exact h.buffered k hk
  refine ⟨?_, fun k hk => hmem k (hadvances.kept k hk), h.queued, h.parsing, h.reading⟩
  have hnext := hadvances.next
  have hrouted := h.routed
  dsimp only
  by_cases hempty : items.length = 0
  · omega
  · have := hmem _ (hadvances.taken (reorder.nextRouteSequence - 1) (by omega) (by omega))
    omega

theorem Drawn.routeParsedIncoming (h : Drawn s) (item : SequencedParsedMessage) (state : Nat) :
    Drawn (s.routeParsedIncoming item state) := by
  obtain ⟨_, _, _, _, heq⟩ := s.routeParsedIncoming_frame item state
  rw [heq]
  exact { h with }

theorem Drawn.endDispatch (h : Drawn s) (holder : DispatchHolder) : Drawn (s.endDispatch holder) := by
  rcases s.endDispatch_cases holder with ⟨task, heq⟩ | ⟨session, reader, _, heq⟩ | heq <;> rw [heq]
  · exact { h.endParse task with }
  · have hreader : Drawn (s.setReader session { reader with phase := .looping }) :=
      h.idleReader rfl
    exact { hreader with }
  · exact { h with }

theorem Drawn.startStep (h : Drawn s) {caller : Caller} {phase : StartPhase}
    (hstep : s.startStep caller phase = some s') : Drawn s' := by
  cases phase with
  | output | async | bind | parsePool | handlerPool => cases hstep; exact { h with }
  | joinParsers =>
      obtain ⟨_, rfl⟩ := Transition.of_guard hstep
      exact h.mono rfl rfl (fun _ hk => (List.mem_filter.mp hk).1) (fun _ => id) rfl rfl
  | joinWorkers =>
      obtain ⟨_, rfl⟩ := Transition.of_guard hstep
      exact { h with }
  | dispatcher =>
      obtain rfl | ⟨_, _, _, rfl⟩ := startStep_dispatcher hstep
      · exact { h with }
      · exact { h with }
  | routing =>
      obtain ⟨_, rfl⟩ := Transition.of_guard hstep
      exact ⟨Nat.le_refl _, fun k hk => absurd hk (AList.notMem_empty k), h.queued, h.parsing, h.reading⟩
  | reader =>
      cases hstep
      have hreader : Drawn (s.setReader s.generation {}) := h.idleReader rfl
      exact { hreader with }

theorem Drawn.stopStep (h : Drawn s) {caller : Caller} {phase : ClearPhase}
    (hstep : s.stopStep caller phase = some s') : Drawn s' := by
  cases phase with
  | quit | producer | output | dispatcher | async | pools => cases hstep; exact { h with }
  | routing =>
      obtain ⟨_, rfl⟩ := Transition.of_guard hstep
      exact ⟨h.routed, fun k hk => absurd hk (AList.notMem_empty k), h.queued, h.parsing, h.reading⟩
  | joinLoop => rw [stopStep_joinLoop hstep]; exact { h with }
  | joinAsync =>
      obtain ⟨_, rfl⟩ := Transition.of_guard hstep
      exact { h with }
  | joinReader => rw [(stopStep_joinReader hstep).2]; exact { h with }
  | finish =>
      cases hstep
      have hdone : Drawn { s with lifecycle := .free, messageProducerThread := none, working := false } := { h with }
      exact hdone.resume caller

theorem Drawn.step (h : Drawn s) {a : LifecycleAction} (hstep : LifecycleState.step a s = some s') : Drawn s' := by
  cases a with
  | start caller => obtain ⟨_, _, rfl⟩ := step_start hstep; exact { h with }
  | stop caller =>
      obtain ⟨_, _, rfl | ⟨_, _, rfl⟩⟩ := step_stop hstep
      · exact { h with }
      · exact h.resume caller
  | advance =>
      obtain ⟨_, _, _, hstart⟩ | ⟨_, _, _, hstop⟩ := step_advance hstep
      · exact h.startStep hstart
      · exact h.stopStep hstop
  | enterListen session =>
      obtain ⟨buffer, _, rfl⟩ := step_enterListen hstep
      have hreader : Drawn (s.setReader session ⟨buffer, .looping⟩) := h.idleReader rfl
      exact { hreader with }
  | checkRunning session =>
      obtain ⟨buffer, _, ⟨_, rfl⟩ | rfl⟩ := step_checkRunning hstep
      · exact h.idleReader rfl
      · exact h.removeReader session
  | receive session => obtain ⟨buffer, _, rfl⟩ := step_receive hstep; exact h.idleReader rfl
  | deliver session =>
      obtain ⟨stream, buffer, _, rfl⟩ := step_deliver hstep
      refine ⟨Nat.le_succ_of_le h.routed, fun k hk => Nat.lt_succ_of_lt (h.buffered k hk),
        fun task htask => Nat.lt_succ_of_lt (h.queued task htask),
        fun task htask => Nat.lt_succ_of_lt (h.parsing task htask), fun session' reader' k hreader' hk => ?_⟩
      rcases Table.update_eq_some hreader' with ⟨_, heq⟩ | ⟨_, hold⟩
      · cases heq
        cases hk
        exact Nat.lt_succ_self _
      · exact Nat.lt_succ_of_lt (h.reading session' reader' k hold hk)
  | frameTooLarge session =>
      obtain ⟨buffer, phase, _, rfl | rfl, rfl⟩ := step_frameTooLarge hstep
      · exact h.idleReader rfl
      · exact h.idleReader rfl
  | leaveListen session stops =>
      obtain ⟨buffer, _, rfl⟩ := step_leaveListen hstep
      exact { h.removeReader session with }
  | postParseTask session =>
      obtain ⟨buffer, sequence, hreader, ⟨phase, hphase, rfl⟩ | ⟨_, rfl⟩⟩ := step_postParseTask hstep
      · refine h.setReader fun k hk => h.reading session _ k hreader ?_
        rcases hphase with rfl | rfl | rfl
        · cases hk
        · exact hk
        · cases hk
      · have hsequence := h.reading session _ sequence hreader rfl
        have hposted : Drawn { s with
            parseQueueSize := s.parseQueueSize + 1
            parseQueue := s.parseQueue ++ [⟨sequence, s.parsePool⟩] } := by
          refine ⟨h.routed, h.buffered, fun task htask => ?_, h.parsing, h.reading⟩
          rcases List.mem_append.mp htask with hold | hnew
          · exact h.queued task hold
          · rw [List.mem_singleton.mp hnew]
            exact hsequence
        exact hposted.idleReader rfl
  | dropNewest session =>
      obtain ⟨buffer, sequence, hreader, _, rfl | ⟨_, reorder, items, hsubmitted, rfl⟩⟩ := step_dropNewest hstep
      · exact h.idleReader rfl
      · have hrouting : Drawn (s.setReader session ⟨buffer, .routing⟩) := h.idleReader rfl
        exact hrouting.submit (h.reading session _ sequence hreader rfl)
          (Reorder.submitParsedMessage_advances hsubmitted) _
  | afterOverload session =>
      obtain ⟨buffer, leaves, _, rfl | rfl⟩ := step_afterOverload hstep
      · exact { h.removeReader session with }
      · exact h.idleReader rfl
  | parseBegins task =>
      obtain ⟨htask, _, _, rfl⟩ := step_parseBegins hstep
      refine ⟨h.routed, h.buffered, fun task' htask' => h.queued task' (List.mem_of_mem_erase htask'),
        fun task' htask' => ?_, h.reading⟩
      rcases List.mem_append.mp htask' with hold | hnew
      · exact h.parsing task' hold
      · rw [List.mem_singleton.mp hnew]
        exact h.queued task htask
  | submit task parsed =>
      obtain ⟨htask, _, _, rfl | rfl | ⟨reorder, items, hsubmitted, rfl⟩⟩ := step_submit hstep
      · exact h.endParse task
      · exact { h with }
      · exact h.submit (h.parsing task htask) (Reorder.submitParsedMessage_advances hsubmitted) _
  | takeState => obtain ⟨_, _, _, _, _, _, rfl⟩ := step_takeState hstep; exact { h with }
  | route =>
      obtain ⟨holder, item, state, rest, _, rfl⟩ := step_route hstep
      have hroute : Drawn { s with dispatch := some ⟨holder, none, rest⟩ } := { h with }
      exact hroute.routeParsedIncoming item state
  | release =>
      obtain ⟨holder, _, rfl⟩ := step_release hstep
      exact h.endDispatch holder
  | take _ | exit _ | runHandler _ | handlerSends _ | handlerReturns _ | complete _ | postParked _ | wait _ =>
      rw [LifecycleState.step] at hstep
      obtain ⟨_, _, _, _, _, rfl⟩ := loopStep_frame hstep
      exact { h with }
  | workBegins _ | workSends _ | workLater _ | workEnds _ | asyncTake | asyncRun _ =>
      rw [LifecycleState.step] at hstep
      obtain ⟨_, _, _, _, _, rfl⟩ := workerStep_frame hstep
      exact { h with }

theorem reachable_drawn {ok : LifecycleAction → LifecycleState → Prop} (hs : lifecycleSystem.ReachableIf ok s) :
    Drawn s := by
  refine hs.invariant Drawn ?_ fun a s s' h _ hstep => h.step hstep
  rintro s ⟨limits, concurrentNotifications, rfl⟩
  refine ⟨Nat.le_refl _, fun k hk => absurd hk (AList.notMem_empty k), ?_, ?_, ?_⟩
  · exact fun _ htask => by cases htask
  · exact fun _ htask => by cases htask
  · exact fun _ _ _ hreader => by cases hreader

end LifecycleState

end LspCpp

import LspCpp.WrapperWait

/-! Whether a reader that sleeps in `get` is woken. No byte is missed. The end of the connection is missed exactly where
`interrupt` has set the flag and notified the reader between its last look at the flag and its sleep. -/

namespace LspCpp

variable {wrapper : StreamWrapper} {settings : ProducerSettings}

namespace WaitState

variable {s s' : WaitState}

/-- What has been told to the reader, and what it is still to be told. -/
structure Notified (s : WaitState) : Prop where
  ended : 0 < s.interrupts ∨ s.missed = true → s.data.quit = true
  told : s.phase.looked = true ∨ s.phase = .asleep → s.data.quit = true → 0 < s.interrupts ∨ s.missed = true
  empty : s.phase = .waiting → s.data.hasState = false
  arrived : s.phase = .asleep → s.data.hasState = true → 0 < s.arrivals

namespace Notified

/-- A reader that neither sleeps nor is about to is told everything by its next look. -/
theorem of_unlooked (hended : 0 < s.interrupts ∨ s.missed = true → s.data.quit = true)
    (hlooked : s.phase.looked = false) (hawake : s.phase ≠ .asleep) : Notified s := by
  refine ⟨hended, fun hphase => ?_, fun hwaiting => ?_, fun hasleep => absurd hasleep hawake⟩
  · rcases hphase with hphase | hasleep
    · exact absurd (hlooked.symm.trans hphase) Bool.false_ne_true
    · exact absurd hasleep hawake
  · rw [hwaiting] at hlooked
    cases hlooked

theorem enqueueAll (h : Notified s) {elements : Bytes}
    (hstep : step wrapper settings (.enqueueAll elements) s = some s') : Notified s' := by
  obtain ⟨hmutex, rfl⟩ := step_enqueueAll hstep
  refine ⟨h.ended, h.told, fun hwaiting => ?_, fun hasleep hstate => ?_⟩
  · have hphase : s.phase = .waiting := hwaiting
    rw [hphase] at hmutex
    cases hmutex
  · cases elements with
    | nil =>
        have hold : s.data.hasState = true := by
          rw [← hstate, WrapperState.hasState, WrapperState.hasState, WrapperState.queue, WrapperState.queue,
            List.append_nil]
        exact h.arrived hasleep hold
    | cons c rest => exact Nat.succ_pos _

theorem notifyArrival (h : Notified s) (hstep : step wrapper settings .notifyArrival s = some s') : Notified s' := by
  obtain ⟨_, rfl⟩ := Transition.of_guard hstep
  rcases s.notifyAll_cases with ⟨hawake, heq⟩ | ⟨_, heq⟩ <;> rw [heq]
  · exact ⟨h.ended, h.told, h.empty, fun hasleep => absurd hasleep hawake⟩
  · exact of_unlooked h.ended rfl WaitPhase.noConfusion

theorem interrupt (h : Notified s) {error : Option Bytes}
    (hstep : step wrapper settings (.interrupt error) s = some s') : Notified s' := by
  rw [step_interrupt hstep]
  exact ⟨fun _ => rfl, fun _ _ => .inl (Nat.succ_pos _), h.empty, h.arrived⟩

/-- Here the end is missed. -/
theorem notifyInterrupt (h : Notified s) (hstep : step wrapper settings .notifyInterrupt s = some s') :
    Notified s' := by
  obtain ⟨hdue, rfl⟩ := Transition.of_guard hstep
  have hquit := h.ended (.inl hdue)
  rcases s.notifyAll_cases with ⟨hawake, heq⟩ | ⟨_, heq⟩ <;> rw [heq]
  · refine ⟨fun _ => hquit, fun hphase _ => .inr ?_, h.empty, fun hasleep => absurd hasleep hawake⟩
    rcases hphase with hlooked | hasleep
    · exact (congrArg (s.missed || ·) hlooked).trans (Bool.or_true _)
    · exact absurd hasleep hawake
  · exact of_unlooked (fun _ => hquit) rfl WaitPhase.noConfusion

theorem readyState (h : Notified s) {notOpen : Bool} (hstep : step wrapper settings (.readyState notOpen) s = some s') :
    Notified s' := by
  obtain ⟨_, rfl⟩ := step_readyState hstep
  exact ⟨h.ended, h.told, h.empty, h.arrived⟩

theorem spurious (h : Notified s) (hstep : step wrapper settings .spurious s = some s') : Notified s' := by
  obtain ⟨_, rfl⟩ := Transition.of_guard hstep
  exact of_unlooked h.ended rfl WaitPhase.noConfusion

/-- The reader does not change the flag. -/
theorem data_quit {data : WrapperState} (h : s.data.read wrapper settings = some data) : data.quit = s.data.quit :=
  (WrapperState.readerStep_of_read h).frame.1

theorem read (h : Notified s) (hread : ReadStep wrapper settings s s') : Notified s' := by
  cases hread with
  | enters | wakes => exact of_unlooked h.ended rfl WaitPhase.noConfusion
  | accesses hphase hdata =>
      refine of_unlooked (fun hdue => ?_) (hphase ▸ rfl) (hphase ▸ WaitPhase.noConfusion)
      exact (data_quit hdata).trans (h.ended hdue)
  | ends hphase hquit hdata => exact of_unlooked (fun _ => (data_quit hdata).trans hquit) rfl WaitPhase.noConfusion
  | looks hphase hopen =>
      refine ⟨fun hdue => h.ended (hdue.imp_right fun hmissed => ?_), fun _ hquit => ?_, nofun, nofun⟩
      · cases hmissed
      · exact absurd (hopen.symm.trans hquit) Bool.false_ne_true
  | finds => exact of_unlooked h.ended rfl WaitPhase.noConfusion
  | waits hphase hstate => exact ⟨h.ended, fun _ => h.told (.inl (hphase ▸ rfl)), fun _ => hstate, nofun⟩
  | sleeps hphase =>
      refine ⟨h.ended, fun _ => h.told (.inl (hphase ▸ rfl)), nofun, fun _ hstate => ?_⟩
      exact absurd ((h.empty hphase).symm.trans hstate) Bool.false_ne_true
  | takes hphase htake =>
      obtain ⟨_, _, rfl⟩ := Option.map_eq_some_iff.mp htake
      exact of_unlooked h.ended rfl WaitPhase.noConfusion

theorem step {a : WaitAction} (h : Notified s) (hstep : WaitState.step wrapper settings a s = some s') :
    Notified s' := by
  cases a with
  | enqueueAll elements => exact h.enqueueAll hstep
  | notifyArrival => exact h.notifyArrival hstep
  | interrupt error => exact h.interrupt hstep
  | notifyInterrupt => exact h.notifyInterrupt hstep
  | readyState notOpen => exact h.readyState hstep
  | spurious => exact h.spurious hstep
  | reader => exact h.read (readStep_of_read hstep)

end Notified

theorem notified_of_reachable (hs : (waitSystem wrapper settings).Reachable s) : Notified s := by
  refine hs.invariant Notified ?_ fun _ _ _ h _ hstep => h.step hstep
  rintro s rfl
  exact Notified.of_unlooked (by decide) rfl WaitPhase.noConfusion

/-- Outside of its sleep a `get` can always go on, and it has not many steps left. -/
theorem read_left (h : InGet s) (houtside : s.phase ≠ .outside) (hawake : s.phase ≠ .asleep) :
    ∃ s', s.read wrapper settings = some s' ∧ s'.phase.left < s.phase.left := by
  have hget := h.get houtside
  unfold WaitState.read
  split
  case h_1 hphase => exact absurd hphase houtside
  case h_2 hphase =>
    rw [hphase]
    by_cases hquit : s.data.quit = true
    · obtain ⟨data, hdata⟩ : ∃ data, s.data.read wrapper settings = some data := WrapperState.read_of_quit hget hquit
      rw [if_pos hquit, hdata]
      exact ⟨_, rfl, Nat.zero_lt_succ 2⟩
    · rw [if_neg hquit]
      exact ⟨_, rfl, Nat.lt_succ_self 2⟩
  case h_3 hphase =>
    rw [hphase]
    refine ⟨_, rfl, ?_⟩
    dsimp only
    split_ifs <;> decide
  case h_4 hphase =>
    rw [hphase]
    exact ⟨_, rfl, Nat.one_pos⟩
  case h_5 hphase => exact absurd hphase hawake
  case h_6 hphase =>
    rw [hphase]
    exact ⟨_, rfl, Nat.lt_succ_self 3⟩
  case h_7 hphase =>
    rw [hphase]
    obtain ⟨c, rest, hqueue⟩ := h.item hphase
    rw [WrapperState.takeByte_eq hget hqueue]
    exact ⟨_, rfl, Nat.one_pos⟩

theorem onRequest_of_not_hasState {data : WrapperState} (h : data.hasState = false)
    (hlength : data.onRequest.length < 2147483648) : data.onRequest = [] := by
  have hcounted : data.queue.Counted := by
    rw [ThreadedQueue.Counted, WrapperState.queue, List.length_nil, Nat.zero_add]
  have hempty : data.queue.isEmpty = true := Bool.not_eq_false' .. ▸ h
  have hlt : data.queue.priority.length + data.queue.queue.length < 2147483648 := by
    rw [WrapperState.queue, List.length_nil, Nat.zero_add]
    exact hlength
  exact ((hcounted.isEmpty_iff hlt).mp hempty).2

/-- What holds of a reader that waits with a mutex and a condition variable. -/
structure Woken (wrapper : StreamWrapper) (settings : ProducerSettings) (s : WaitState) : Prop where
  /-- It is seen as one whose `get` is a single step, -/
  refines : (wrapperSystem wrapper settings).Reachable (s.seen wrapper settings)
  /-- and hands on the messages of what has arrived. -/
  handedOn : messages s.data.events <+: messages (decode settings s.data.arrived)
  goesOn : s.phase ≠ .outside → s.phase ≠ .asleep →
    ∃ s', s.read wrapper settings = some s' ∧ s'.phase.left < s.phase.left
  /-- A byte that is there while it sleeps is notified. -/
  arrival : s.phase = .asleep → s.data.hasState = true → 0 < s.arrivals
  /-- So is the end, unless that was done before the sleep. -/
  ending : s.phase = .asleep → (s.data.quit = true ↔ 0 < s.interrupts ∨ s.missed = true)
  /-- Where nothing is to be notified and the end was not missed, everything that is whole has been handed on. -/
  complete : s.phase = .asleep → s.arrivals = 0 → s.interrupts = 0 → s.missed = false →
    s.data.onRequest.length < 2147483648 →
      s.data.Waits wrapper settings ∧ messages s.data.events = messages (decode settings s.data.arrived)

/-- **A reader that sleeps is woken** in every interleaving of the arrivals, the end, the notifications and the wake-ups
without reason: by every byte, and by the end unless it is notified between the look at the flag and the sleep. -/
theorem reader_woken (wrapper : StreamWrapper) (settings : ProducerSettings) (s : WaitState)
    (hs : (waitSystem wrapper settings).Reachable s) : Woken wrapper settings s := by
  have hget := inGet_of_reachable hs
  have hnotified := notified_of_reachable hs
  have hseen := reachable_seen hs
  refine ⟨hseen, ?_, read_left hget, hnotified.arrived, fun hasleep => ?_,
    fun hasleep harrivals hinterrupts hmissed hlength => ?_⟩
  · have hhanded : messages (s.seen wrapper settings).events <+:
        messages (decode settings (s.seen wrapper settings).arrived) :=
      (List.prefix_append _ _).trans (WrapperState.handedOn hseen)
    rw [seen] at hhanded
    split_ifs at hhanded with hcommitted
    · obtain ⟨hcalls, c, rest, hqueue⟩ := hcommitted.item hget
      rwa [WrapperState.take_eq hcalls hqueue] at hhanded
    · exact hhanded
  · exact ⟨hnotified.told (.inr hasleep), hnotified.ended⟩
  · have hnot : ¬ s.Committed := by simp [Committed, hasleep]
    rw [seen_of_not_committed hnot] at hseen
    have hopen : s.data.quit = false := by
      by_contra hquit
      rcases hnotified.told (.inr hasleep) (Bool.not_eq_false _ ▸ hquit) with hdue | hdue
      · omega
      · exact absurd (hmissed.symm.trans hdue) Bool.false_ne_true
    have hstate : s.data.hasState = false := by
      by_contra hstate
      have hpos := hnotified.arrived hasleep (Bool.not_eq_false _ ▸ hstate)
      omega
    have hcalls := hget.get (hasleep ▸ WaitPhase.noConfusion)
    have hwaits : s.data.Waits wrapper settings :=
      WrapperState.waits_of_callsGet hcalls hopen (onRequest_of_not_hasState hstate hlength)
    obtain ⟨_, hnothing⟩ := hwaits.pending_eq_nil (WrapperState.searched hseen)
    have hdelivers := (WrapperState.delivering_of_reachable hseen).delivers hopen []
    rw [hnothing, List.append_nil, List.append_nil] at hdelivers
    exact ⟨hwaits, hdelivers⟩

/-- The connection ends while the reader looks at the queue. -/
def missedRun : List WaitAction :=
  List.replicate 7 .reader ++ [.interrupt none, .notifyInterrupt, .reader, .reader]

/-- Nothing that is under way will wake the reader. -/
theorem reader_woken_missedRun :
    ∃ s, (waitSystem .tcp {}).run missedRun {} = some s ∧ s.phase = .asleep ∧ s.data.quit = true ∧ s.missed = true ∧
      s.arrivals = 0 ∧ s.interrupts = 0 ∧ Woken .tcp {} s := by
  obtain ⟨s, hrun, hstate⟩ : ∃ s, (waitSystem .tcp {}).run missedRun {} = some s ∧
      (s.phase = .asleep ∧ s.data.quit = true ∧ s.missed = true ∧ s.arrivals = 0 ∧ s.interrupts = 0) :=
    ⟨_, rfl, by decide⟩
  have hwoken := reader_woken .tcp {} s (Transition.System.reachable_of_run missedRun (.init rfl) hrun)
  exact ⟨s, hrun, hstate.1, hstate.2.1, hstate.2.2.1, hstate.2.2.2.1, hstate.2.2.2.2, hwoken⟩

end WaitState

end LspCpp

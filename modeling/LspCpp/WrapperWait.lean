import LspCpp.QueueThreaded
import LspCpp.WrapperHandedOn

/-! `get` of the streams over a connection, in its parts. In `MultiQueueWaiter::Wait` the reader looks at the flag and
at the queue with the mutex of the queue held, and sleeps at the condition variable where neither tells it to go on.
`EnqueueAll` notifies it after its critical section; `interrupt` sets the flag and notifies it without the mutex. -/

namespace LspCpp

/-- Where the reader is in `get`. -/
inductive WaitPhase where
  | outside
  | testQuit
  | testState
  | waiting
  | asleep
  | awake
  | found
  deriving DecidableEq

namespace WaitPhase

def holdsMutex : WaitPhase → Bool
  | .testQuit | .testState | .waiting => true
  | .outside | .asleep | .awake | .found => false

/-- The flag was not set when the reader looked at it last, and it is not asleep yet. -/
def looked : WaitPhase → Bool
  | .testState | .waiting => true
  | _ => false

/-- How many steps `get` has left until it returns or sleeps. -/
def left : WaitPhase → Nat
  | .awake => 4
  | .testQuit => 3
  | .testState => 2
  | .waiting | .found => 1
  | .outside | .asleep => 0

end WaitPhase

namespace WrapperState

/-- The next access of the reader to the stream is a `get`. -/
def callsGet (s : WrapperState) : Bool :=
  match s.pc with
  | .get | .getDiscarded (_ + 1) _ => true
  | .getBody contentLength => contentLength - s.buffer.length != 0
  | _ => false

/-- `on_request` with its count. -/
def queue (s : WrapperState) : ThreadedQueue UInt8 :=
  { totalCount := Int32.ofNat s.onRequest.length, queue := s.onRequest }

/-- `HasState` of the one queue. -/
def hasState (s : WrapperState) : Bool := !s.queue.isEmpty

/-- The `TryDequeue` of `get` after the wait, and what the reader does with the byte: it does not look at the flag
again. -/
def takeByte (wrapper : StreamWrapper) (settings : ProducerSettings) (s : WrapperState) : Option WrapperState :=
  (read wrapper settings { s with quit := false }).map fun s' => { s' with quit := s.quit }

end WrapperState

/-- `arrivals` and `interrupts` count the calls of `EnqueueAll` and of `interrupt` that have yet to notify the reader.
`missed` tells that an `interrupt` has notified it between its last look at the flag and its sleep. -/
structure WaitState where
  data : WrapperState := {}
  phase : WaitPhase := .outside
  arrivals : Nat := 0
  interrupts : Nat := 0
  missed : Bool := false
  deriving DecidableEq

inductive WaitAction where
  | enqueueAll (elements : Bytes)
  | notifyArrival
  | interrupt (error : Option Bytes)
  | notifyInterrupt
  | readyState (notOpen : Bool)
  | spurious
  | reader
  deriving DecidableEq

namespace WaitState

/-- `notify_all`. -/
def notifyAll (s : WaitState) : WaitState := if s.phase = .asleep then { s with phase := .awake } else s

/-- One step of the reader. Outside of `get` the queue is accessed in critical sections of their own. -/
def read (wrapper : StreamWrapper) (settings : ProducerSettings) (s : WaitState) : Option WaitState :=
  match s.phase with
  | .outside =>
      if s.data.callsGet then some { s with phase := .testQuit }
      else (s.data.read wrapper settings).map fun data => { s with data := data }
  | .testQuit =>
      if s.data.quit then (s.data.read wrapper settings).map fun data => { s with data := data, phase := .outside }
      else some { s with phase := .testState, missed := false }
  | .testState => some { s with phase := if s.data.hasState then .found else .waiting }
  | .waiting => some { s with phase := .asleep }
  | .asleep => none
  | .awake => some { s with phase := .testQuit }
  | .found => (s.data.takeByte wrapper settings).map fun data => { s with data := data, phase := .outside }

def step (wrapper : StreamWrapper) (settings : ProducerSettings) : WaitAction → WaitState → Option WaitState
  | .enqueueAll elements, s =>
      if s.phase.holdsMutex then none
      else (WrapperState.step wrapper settings (.enqueueAll elements) s.data).map fun data =>
        { s with data := data, arrivals := if elements.isEmpty then s.arrivals else s.arrivals + 1 }
  | .notifyArrival, s => if 0 < s.arrivals then some { s.notifyAll with arrivals := s.arrivals - 1 } else none
  | .interrupt error, s =>
      (WrapperState.step wrapper settings (.interrupt error) s.data).map fun data =>
        { s with data := data, interrupts := s.interrupts + 1 }
  | .notifyInterrupt, s =>
      if 0 < s.interrupts then
        some { s.notifyAll with interrupts := s.interrupts - 1, missed := s.missed || s.phase.looked }
      else none
  | .readyState notOpen, s =>
      (WrapperState.step wrapper settings (.readyState notOpen) s.data).map fun data => { s with data := data }
  | .spurious, s => if s.phase = .asleep then some { s with phase := .awake } else none
  | .reader, s => s.read wrapper settings

end WaitState

def waitSystem (wrapper : StreamWrapper) (settings : ProducerSettings) : Transition.System WaitState WaitAction where
  init s := s = {}
  step := WaitState.step wrapper settings

variable {wrapper : StreamWrapper} {settings : ProducerSettings}

/-- Where the reader is after a byte, and its buffer. -/
def ReaderPc.afterByte (wrapper : StreamWrapper) (pc : ReaderPc) (buffer : Bytes) (c : UInt8) : ReaderPc × Bytes :=
  match pc with
  | .get =>
      match wrapper with
      | .tcp => (.dequeueRest c, buffer)
      | .websocket => (loopHead, buffer ++ [c])
  | .getBody contentLength => (.getBody contentLength, buffer ++ [c])
  | .getDiscarded left count => (.getDiscarded (left - 1) count, buffer)
  | pc => (pc, buffer)

namespace WrapperState

variable {s : WrapperState}

theorem onRequest_of_hasState (h : s.hasState = true) : ∃ c rest, s.onRequest = c :: rest := by
  cases hqueue : s.onRequest with
  | nil =>
      rw [hasState, queue, hqueue] at h
      cases h
  | cons c rest => exact ⟨c, rest, rfl⟩

theorem takeByte_of_open (hopen : s.quit = false) : s.takeByte wrapper settings = s.read wrapper settings := by
  have hsame : { s with quit := false } = s := by rw [← hopen]
  rw [takeByte, hsame]
  cases hread : s.read wrapper settings with
  | none => rfl
  | some s' =>
      have hquit : s'.quit = s.quit := (readerStep_of_read hread).frame.1
      rw [Option.map_some, ← hquit]

/-- The byte is the first of the queue, and neither the flag nor what is queued behind it makes a difference. -/
theorem takeByte_eq (hget : s.callsGet = true) {c : UInt8} {rest : Bytes} (hqueue : s.onRequest = c :: rest) :
    s.takeByte wrapper settings = some { s with
      onRequest := rest
      pc := (s.pc.afterByte wrapper s.buffer c).1
      buffer := (s.pc.afterByte wrapper s.buffer c).2 } := by
  obtain ⟨onRequest, quit, errorMessage, notOpen, pc, buffer, events, arrived⟩ := s
  dsimp only at hqueue
  subst hqueue
  unfold callsGet at hget
  dsimp only at hget
  split at hget
  · cases wrapper <;> rfl
  · rfl
  · rename_i contentLength
    have hleft : contentLength - buffer.length ≠ 0 := bne_iff_ne.mp hget
    simp [takeByte, read, get, hleft, ReaderPc.afterByte]
  · cases hget

/-- A `get` that finds the flag set. -/
theorem read_of_quit (hget : s.callsGet = true) (hquit : s.quit = true) :
    ∃ s', s.read wrapper settings = some s' := by
  unfold callsGet at hget
  split at hget
  · rename_i hpc
    simp [read, get, hpc, hquit]
  · rename_i hpc
    simp [read, get, hpc, hquit]
  · rename_i contentLength hpc
    have hleft : contentLength - s.buffer.length ≠ 0 := bne_iff_ne.mp hget
    simp [read, get, hpc, hquit, hleft]
  · cases hget

/-- A reader that calls `get` waits where there is neither a byte nor the end. -/
theorem waits_of_callsGet (hget : s.callsGet = true) (hopen : s.quit = false) (hqueue : s.onRequest = []) :
    s.Waits wrapper settings := by
  unfold callsGet at hget
  split at hget
  · rename_i hpc
    simp [Waits, read, get, hpc, hopen, hqueue]
  · rename_i hpc
    simp [Waits, read, get, hpc, hopen, hqueue]
  · rename_i contentLength hpc
    have hleft : contentLength - s.buffer.length ≠ 0 := bne_iff_ne.mp hget
    simp [Waits, read, get, hpc, hopen, hqueue, hleft]
  · cases hget

/-- What becomes of a `get` that will find a byte. -/
def take (wrapper : StreamWrapper) (settings : ProducerSettings) (s : WrapperState) : WrapperState :=
  (s.takeByte wrapper settings).getD s

theorem take_eq (hget : s.callsGet = true) {c : UInt8} {rest : Bytes} (hqueue : s.onRequest = c :: rest) :
    s.take wrapper settings = { s with
      onRequest := rest
      pc := (s.pc.afterByte wrapper s.buffer c).1
      buffer := (s.pc.afterByte wrapper s.buffer c).2 } := by
  rw [take, takeByte_eq hget hqueue]
  rfl

/-- Whatever is done to the queue and to the flag before the byte is taken could have been done after it. -/
theorem take_comm {b : WrapperAction} (hb : b ≠ .reader) (hget : s.callsGet = true) {c : UInt8} {rest : Bytes}
    (hqueue : s.onRequest = c :: rest) {s₁ : WrapperState} (h : step wrapper settings b s = some s₁) :
    step wrapper settings b (s.take wrapper settings) = some (s₁.take wrapper settings) := by
  rw [take_eq hget hqueue]
  cases b with
  | reader => exact absurd rfl hb
  | enqueueAll elements =>
      cases h
      have hqueue' : s.onRequest ++ elements = c :: (rest ++ elements) := by rw [hqueue, List.cons_append]
      rw [take_eq (s := { s with onRequest := s.onRequest ++ elements, arrived := s.arrived ++ elements }) hget hqueue']
      rfl
  | interrupt error =>
      cases h
      rw [take_eq (s := { s with errorMessage := error.getD s.errorMessage, quit := true }) hget hqueue]
      rfl
  | readyState notOpen =>
      cases wrapper with
      | tcp => cases h
      | websocket =>
          cases h
          rw [take_eq (s := { s with notOpen := notOpen }) hget hqueue]
          rfl

/-- Nobody but the reader moves it, or takes from the queue. -/
theorem frame_of_step {b : WrapperAction} (hb : b ≠ .reader) {s₁ : WrapperState}
    (h : step wrapper settings b s = some s₁) :
    s₁.callsGet = s.callsGet ∧ s.onRequest <+: s₁.onRequest := by
  cases b with
  | reader => exact absurd rfl hb
  | enqueueAll elements =>
      cases h
      exact ⟨rfl, List.prefix_append _ _⟩
  | interrupt error =>
      cases h
      exact ⟨rfl, List.prefix_refl _⟩
  | readyState notOpen =>
      cases wrapper with
      | tcp => cases h
      | websocket =>
          cases h
          exact ⟨rfl, List.prefix_refl _⟩

end WrapperState

/-! ### The steps -/

namespace WaitState

variable {s s' : WaitState} {a : WaitAction}

theorem notifyAll_cases (s : WaitState) :
    s.phase ≠ .asleep ∧ s.notifyAll = s ∨ s.phase = .asleep ∧ s.notifyAll = { s with phase := .awake } := by
  rw [notifyAll]
  split_ifs with hasleep
  · exact .inr ⟨hasleep, rfl⟩
  · exact .inl ⟨hasleep, rfl⟩

theorem notifyAll_frame (s : WaitState) :
    s.notifyAll.data = s.data ∧ (s.notifyAll.phase = s.phase ∨ s.phase = .asleep ∧ s.notifyAll.phase = .awake) := by
  rcases s.notifyAll_cases with ⟨_, heq⟩ | ⟨hasleep, heq⟩ <;> rw [heq]
  · exact ⟨rfl, .inl rfl⟩
  · exact ⟨rfl, .inr ⟨hasleep, rfl⟩⟩

theorem step_enqueueAll {elements : Bytes} (h : step wrapper settings (.enqueueAll elements) s = some s') :
    s.phase.holdsMutex = false ∧ s' = { s with
      data := { s.data with onRequest := s.data.onRequest ++ elements, arrived := s.data.arrived ++ elements }
      arrivals := if elements.isEmpty then s.arrivals else s.arrivals + 1 } := by
  rw [step] at h
  by_cases hmutex : s.phase.holdsMutex = true
  · rw [if_pos hmutex] at h
    cases h
  · rw [if_neg hmutex] at h
    exact ⟨Bool.eq_false_iff.mpr hmutex, (Option.some.inj h).symm⟩

theorem step_interrupt {error : Option Bytes} (h : step wrapper settings (.interrupt error) s = some s') :
    s' = { s with
      data := { s.data with errorMessage := error.getD s.data.errorMessage, quit := true }
      interrupts := s.interrupts + 1 } := (Option.some.inj h).symm

theorem step_readyState {notOpen : Bool} (h : step wrapper settings (.readyState notOpen) s = some s') :
    WrapperState.step wrapper settings (.readyState notOpen) s.data = some { s.data with notOpen := notOpen } ∧
      s' = { s with data := { s.data with notOpen := notOpen } } := by
  cases wrapper with
  | tcp => cases h
  | websocket => exact ⟨rfl, (Option.some.inj h).symm⟩

/-- What a step of the reader can be. -/
inductive ReadStep (wrapper : StreamWrapper) (settings : ProducerSettings) (s : WaitState) : WaitState → Prop
  | enters (hphase : s.phase = .outside) (hget : s.data.callsGet = true) :
      ReadStep wrapper settings s { s with phase := .testQuit }
  | accesses {data : WrapperState} (hphase : s.phase = .outside) (hdata : s.data.read wrapper settings = some data) :
      ReadStep wrapper settings s { s with data := data }
  | ends {data : WrapperState} (hphase : s.phase = .testQuit) (hquit : s.data.quit = true)
      (hdata : s.data.read wrapper settings = some data) :
      ReadStep wrapper settings s { s with data := data, phase := .outside }
  | looks (hphase : s.phase = .testQuit) (hopen : s.data.quit = false) :
      ReadStep wrapper settings s { s with phase := .testState, missed := false }
  | finds (hphase : s.phase = .testState) (hstate : s.data.hasState = true) :
      ReadStep wrapper settings s { s with phase := .found }
  | waits (hphase : s.phase = .testState) (hstate : s.data.hasState = false) :
      ReadStep wrapper settings s { s with phase := .waiting }
  | sleeps (hphase : s.phase = .waiting) : ReadStep wrapper settings s { s with phase := .asleep }
  | wakes (hphase : s.phase = .awake) : ReadStep wrapper settings s { s with phase := .testQuit }
  | takes {data : WrapperState} (hphase : s.phase = .found) (htake : s.data.takeByte wrapper settings = some data) :
      ReadStep wrapper settings s { s with data := data, phase := .outside }

theorem readStep_of_read (h : s.read wrapper settings = some s') : ReadStep wrapper settings s s' := by
  unfold read at h
  split at h
  case h_1 hphase =>
    split_ifs at h with hget
    · cases h
      exact .enters hphase hget
    · obtain ⟨data, hdata, rfl⟩ := Option.map_eq_some_iff.mp h
      exact .accesses hphase hdata
  case h_2 hphase =>
    split_ifs at h with hquit
    · obtain ⟨data, hdata, rfl⟩ := Option.map_eq_some_iff.mp h
      exact .ends hphase hquit hdata
    · cases h
      exact .looks hphase (Bool.eq_false_iff.mpr hquit)
  case h_3 hphase =>
    split_ifs at h with hstate
    · cases h
      exact .finds hphase hstate
    · cases h
      exact .waits hphase (Bool.eq_false_iff.mpr hstate)
  case h_4 hphase =>
    cases h
    exact .sleeps hphase
  case h_5 => cases h
  case h_6 hphase =>
    cases h
    exact .wakes hphase
  case h_7 hphase =>
    obtain ⟨data, htake, rfl⟩ := Option.map_eq_some_iff.mp h
    exact .takes hphase htake

/-- What the others do: to the queue and to the flag, or to a reader that sleeps. -/
theorem step_cases (h : step wrapper settings a s = some s') :
    (∃ b, b ≠ .reader ∧ WrapperState.step wrapper settings b s.data = some s'.data ∧ s'.phase = s.phase ∧
        (s.phase.holdsMutex = true → s'.data.onRequest = s.data.onRequest)) ∨
      s'.data = s.data ∧ (s'.phase = s.phase ∨ s.phase = .asleep ∧ s'.phase = .awake) ∨
      a = .reader ∧ ReadStep wrapper settings s s' := by
  cases a with
  | enqueueAll elements =>
      obtain ⟨hmutex, rfl⟩ := step_enqueueAll h
      exact .inl ⟨.enqueueAll elements, WrapperAction.noConfusion, rfl, rfl, fun hholds =>
        absurd (hmutex.symm.trans hholds) Bool.false_ne_true⟩
  | notifyArrival =>
      obtain ⟨_, rfl⟩ := Transition.of_guard h
      exact .inr (.inl s.notifyAll_frame)
  | interrupt error =>
      rw [step_interrupt h]
      exact .inl ⟨.interrupt error, WrapperAction.noConfusion, rfl, rfl, fun _ => rfl⟩
  | notifyInterrupt =>
      obtain ⟨_, rfl⟩ := Transition.of_guard h
      exact .inr (.inl s.notifyAll_frame)
  | readyState notOpen =>
      obtain ⟨hdata, rfl⟩ := step_readyState h
      exact .inl ⟨.readyState notOpen, WrapperAction.noConfusion, hdata, rfl, fun _ => rfl⟩
  | spurious =>
      obtain ⟨hasleep, rfl⟩ := Transition.of_guard h
      exact .inr (.inl ⟨rfl, .inr ⟨hasleep, rfl⟩⟩)
  | reader => exact .inr (.inr ⟨rfl, readStep_of_read h⟩)

/-- A reader in `get` is where `listen` calls it; after the wait there is a byte. -/
structure InGet (s : WaitState) : Prop where
  get : s.phase ≠ .outside → s.data.callsGet = true
  item : s.phase = .found → ∃ c rest, s.data.onRequest = c :: rest

theorem InGet.read (h : InGet s) (hread : ReadStep wrapper settings s s') : InGet s' := by
  cases hread with
  | enters hphase hget => exact ⟨fun _ => hget, nofun⟩
  | accesses hphase =>
      refine ⟨fun hne => absurd hphase hne, fun hfound => ?_⟩
      exact absurd (hphase.symm.trans hfound) WaitPhase.noConfusion
  | looks hphase | waits hphase | sleeps hphase | wakes hphase =>
      exact ⟨fun _ => h.get (hphase ▸ WaitPhase.noConfusion), nofun⟩
  | finds hphase hstate =>
      exact ⟨fun _ => h.get (hphase ▸ WaitPhase.noConfusion), fun _ => WrapperState.onRequest_of_hasState hstate⟩
  | ends | takes => exact ⟨fun hne => absurd rfl hne, nofun⟩

theorem inGet_of_reachable (hs : (waitSystem wrapper settings).Reachable s) : InGet s := by
  refine hs.invariant InGet ?_ fun a s s' h _ hstep => ?_
  · rintro s rfl
    exact ⟨fun hne => absurd rfl hne, nofun⟩
  · rcases step_cases hstep with ⟨b, hb, hdata, hphase, _⟩ | ⟨hdata, hphase⟩ | ⟨_, hread⟩
    · obtain ⟨hget, hqueue⟩ := WrapperState.frame_of_step hb hdata
      refine ⟨fun hne => hget ▸ h.get (hphase ▸ hne), fun hfound => ?_⟩
      obtain ⟨c, rest, hcons⟩ := h.item (hphase ▸ hfound)
      obtain ⟨more, hmore⟩ := hqueue
      exact ⟨c, rest ++ more, by rw [← hmore, hcons, List.cons_append]⟩
    · rcases hphase with hsame | ⟨hasleep, hawake⟩
      · exact ⟨fun hne => hdata ▸ h.get (hsame ▸ hne), fun hfound => hdata ▸ h.item (hsame ▸ hfound)⟩
      · exact ⟨fun _ => hdata ▸ h.get (hasleep ▸ WaitPhase.noConfusion), fun hfound => by
          rw [hawake] at hfound
          cases hfound⟩
    · exact h.read hread

/-- The reader is going to take a byte. -/
def Committed (s : WaitState) : Prop := s.phase = .found ∨ s.phase = .testState ∧ s.data.hasState = true

instance (s : WaitState) : Decidable s.Committed := inferInstanceAs (Decidable (_ ∨ _ ∧ _))

/-- The wrapper as if every `get` were one step: a byte to be taken was taken when the reader looked at the flag. -/
def seen (wrapper : StreamWrapper) (settings : ProducerSettings) (s : WaitState) : WrapperState :=
  if s.Committed then s.data.take wrapper settings else s.data

theorem Committed.item (hcommitted : s.Committed) (h : InGet s) :
    s.data.callsGet = true ∧ ∃ c rest, s.data.onRequest = c :: rest := by
  rcases hcommitted with hfound | ⟨htest, hstate⟩
  · exact ⟨h.get (hfound ▸ WaitPhase.noConfusion), h.item hfound⟩
  · exact ⟨h.get (htest ▸ WaitPhase.noConfusion), WrapperState.onRequest_of_hasState hstate⟩

/-- What the others do to the queue and to the flag they do to the wrapper that is seen. -/
theorem seen_data (h : InGet s) {b : WrapperAction} (hb : b ≠ .reader)
    (hdata : WrapperState.step wrapper settings b s.data = some s'.data) (hphase : s'.phase = s.phase)
    (hmutex : s.phase.holdsMutex = true → s'.data.onRequest = s.data.onRequest) :
    WrapperState.step wrapper settings b (s.seen wrapper settings) = some (s'.seen wrapper settings) := by
  have hsame : s'.Committed ↔ s.Committed := by
    rw [Committed, Committed, hphase]
    refine or_congr_right (and_congr_right fun htest => ?_)
    rw [WrapperState.hasState, WrapperState.hasState, WrapperState.queue, WrapperState.queue, hmutex (htest ▸ rfl)]
  rw [seen, seen]
  by_cases hcommitted : s.Committed
  · obtain ⟨hget, c, rest, hqueue⟩ := hcommitted.item h
    rw [if_pos hcommitted, if_pos (hsame.mpr hcommitted)]
    exact WrapperState.take_comm hb hget hqueue hdata
  · rw [if_neg hcommitted, if_neg (mt hsame.mp hcommitted)]
    exact hdata

theorem seen_congr (hdata : s'.data = s.data) (hphase : s'.phase = s.phase) :
    s'.seen wrapper settings = s.seen wrapper settings := by
  obtain ⟨data, phase, _, _, _⟩ := s
  obtain ⟨data', phase', _, _, _⟩ := s'
  dsimp only at hdata hphase
  rw [hdata, hphase]
  rfl

theorem seen_of_not_committed (h : ¬ s.Committed) : s.seen wrapper settings = s.data := if_neg h

/-- A `get` is seen as one step where the reader looks at the flag and it is set, or there is a byte. -/
theorem seen_read (h : InGet s) (hread : ReadStep wrapper settings s s') :
    s'.seen wrapper settings = s.seen wrapper settings ∨
      WrapperState.step wrapper settings .reader (s.seen wrapper settings) = some (s'.seen wrapper settings) := by
  cases hread with
  | enters hphase hget =>
      left
      rw [seen_of_not_committed (by simp [Committed]), seen_of_not_committed (by simp [Committed, hphase])]
  | accesses hphase hdata =>
      right
      rw [seen_of_not_committed (by simp [Committed, hphase]), seen_of_not_committed (by simp [Committed, hphase])]
      exact hdata
  | ends hphase hquit hdata =>
      right
      rw [seen_of_not_committed (by simp [Committed, hphase]), seen_of_not_committed (by simp [Committed])]
      exact hdata
  | looks hphase hopen =>
      have hnot : ¬ s.Committed := by simp [Committed, hphase]
      rw [seen_of_not_committed hnot]
      by_cases hstate : s.data.hasState = true
      · right
        obtain ⟨c, rest, hqueue⟩ := WrapperState.onRequest_of_hasState hstate
        have hget := h.get (hphase ▸ WaitPhase.noConfusion)
        have htake : s.data.takeByte wrapper settings = some _ := WrapperState.takeByte_eq hget hqueue
        rw [seen, if_pos (.inr ⟨rfl, hstate⟩), WrapperState.take, htake]
        rw [WrapperState.takeByte_of_open hopen] at htake
        exact htake
      · exact .inl (seen_of_not_committed (by simp [Committed, hstate]))
  | finds hphase hstate =>
      left
      have hcommitted : s.Committed := .inr ⟨hphase, hstate⟩
      rw [seen, seen, if_pos hcommitted, if_pos (.inl rfl)]
  | waits hphase hstate =>
      left
      rw [seen_of_not_committed (by simp [Committed]), seen_of_not_committed (by simp [Committed, hphase, hstate])]
  | sleeps hphase | wakes hphase =>
      left
      rw [seen_of_not_committed (by simp [Committed]), seen_of_not_committed (by simp [Committed, hphase])]
  | takes hphase htake =>
      left
      rw [seen_of_not_committed (by simp [Committed]), seen, if_pos (.inl hphase), WrapperState.take, htake]
      rfl

/-- The waiting reader refines the one whose `get` is one step. -/
theorem reachable_seen (hs : (waitSystem wrapper settings).Reachable s) :
    (wrapperSystem wrapper settings).Reachable (s.seen wrapper settings) := by
  refine hs.project (seen wrapper settings) ?_ fun a s s' hreach _ hstep => ?_
  · rintro s rfl
    rfl
  · have h := inGet_of_reachable hreach
    rcases step_cases hstep with ⟨b, hb, hdata, hphase, hmutex⟩ | ⟨hdata, hphase⟩ | ⟨_, hread⟩
    · exact .inr ⟨b, trivial, seen_data h hb hdata hphase hmutex⟩
    · left
      rcases hphase with hsame | ⟨hasleep, hawake⟩
      · exact seen_congr hdata hsame
      · rw [seen_of_not_committed (by simp [Committed, hawake]), seen_of_not_committed (by simp [Committed, hasleep]),
          hdata]
    · exact (seen_read h hread).imp_right fun hreader => ⟨.reader, trivial, hreader⟩

end WaitState

end LspCpp

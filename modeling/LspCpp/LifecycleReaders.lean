import LspCpp.LifecycleRenewed

/-! The readers of an endpoint over any number of sessions. A reader that is detached, because `stop` was called
on its own thread, leaves `listen` at the head of its loop, unless the reader of the next session has set
`keepRunning` by then. Where no reader enters `listen` while an earlier one is alive, only the reader of the
current session ever reads. -/

namespace LspCpp

/-- The thread of the last reader is still to be joined or detached. -/
def LifecyclePhase.readerMayRun : LifecyclePhase → Bool
  | .starting .. | .stopping _ .finish => false
  | _ => true

/-- `keepRunning` has been cleared. -/
def ClearPhase.silenced : ClearPhase → Bool
  | .quit | .routing | .producer => false
  | _ => true

/-- A reader that reads nothing unless `keepRunning` is set. -/
def ReaderPhase.dormant : ReaderPhase → Bool
  | .looping | .overloaded _ | .handled _ => true
  | _ => false

/-- The reader that enters `listen`. -/
def LifecycleAction.listens : LifecycleAction → Option Nat
  | .enterListen session => some session
  | _ => none

namespace LifecycleState

/-- No reader of an earlier session is alive when a reader enters `listen`. -/
def ReadersEnded (a : LifecycleAction) (s : LifecycleState) : Prop :=
  ∀ session ∈ a.listens, ∀ earlier < session, s.readers earlier = none

variable {s s' : LifecycleState}

/-- The reader of the current session, whose thread `stop` has still to join or detach. -/
structure CurrentReader (s : LifecycleState) (session : Nat) : Prop where
  generation : session = s.generation
  thread : s.messageProducerThread = some session
  input : s.input = session
  parsePool : s.parsePool = session
  mayRun : s.lifecycle.readerMayRun = true

/-- A reader is that of the current session, or it is about to leave `listen`. -/
structure OwnReaders (s : LifecycleState) : Prop where
  sessions : ∀ session reader, s.readers session = some reader → session ≤ s.generation
  running : ∀ session reader, s.readers session = some reader →
    CurrentReader s session ∨ s.keepRunning = false ∧ reader.phase.dormant = true
  streams : ∀ session reader, s.readers session = some reader → ∀ stream ∈ reader.buffer, stream = session
  routing : ∀ d session, s.dispatch = some d → d.holder = .reader session →
    ∃ buffer, s.readers session = some ⟨buffer, .routing⟩
  thread : s.working = false ∨ s.lifecycle.isStarting = true → s.messageProducerThread = none
  caller : ∀ session phase, s.lifecycle = .stopping (.reader session) phase →
    ∃ buffer leaves, s.readers session = some ⟨buffer, .overloaded leaves⟩
  silenced : ∀ session phase, s.lifecycle = .stopping (.reader session) phase → phase.silenced = true →
    s.messageProducerThread = some session → s.keepRunning = false

theorem CurrentReader.frame {session : Nat} (h : CurrentReader s session) (hsame : SameLifecycle s s') :
    CurrentReader s' session := by
  refine ⟨?_, ?_, ?_, ?_, ?_⟩
  · rw [hsame.generation, h.generation]
  · rw [hsame.messageProducerThread, h.thread]
  · rw [hsame.input, h.input]
  · rw [hsame.parsePool, h.parsePool]
  · rw [hsame.lifecycle, h.mayRun]

theorem OwnReaders.stream_eq (h : OwnReaders s) {session : Nat} {buffer : List Nat} {phase : ReaderPhase}
    (hreader : s.readers session = some ⟨buffer, phase⟩) : ∀ stream ∈ buffer, stream = session :=
  h.streams session ⟨buffer, phase⟩ hreader

/-- A reader in the middle of its work is that of the current session. -/
theorem OwnReaders.current (h : OwnReaders s) {session : Nat} {reader : Reader}
    (hreader : s.readers session = some reader) (hphase : reader.phase.dormant = false) :
    CurrentReader s session := by
  refine (h.running session reader hreader).resolve_right fun hdormant => ?_
  cases hphase.symm.trans hdormant.2

theorem OwnReaders.current_of_keepRunning (h : OwnReaders s) {session : Nat} {reader : Reader}
    (hreader : s.readers session = some reader) (hkeep : s.keepRunning = true) : CurrentReader s session := by
  refine (h.running session reader hreader).resolve_right fun hdormant => ?_
  cases hkeep.symm.trans hdormant.1

theorem OwnReaders.dormant (h : OwnReaders s) (hthread : s.messageProducerThread = none ∨
    s.lifecycle.readerMayRun = false) {session : Nat} {reader : Reader} (hreader : s.readers session = some reader) :
    s.keepRunning = false ∧ reader.phase.dormant = true := by
  refine (h.running session reader hreader).resolve_left fun hcurrent => ?_
  rcases hthread with hnone | hfalse
  · cases hnone.symm.trans hcurrent.thread
  · cases hfalse.symm.trans hcurrent.mayRun

/-- A reader that is not in `handleOverload` is not in a call of `stop`. -/
theorem OwnReaders.not_caller (h : OwnReaders s) {session : Nat} {reader : Reader}
    (hreader : s.readers session = some reader) (hphase : ∀ leaves, reader.phase ≠ .overloaded leaves)
    (phase : ClearPhase) : s.lifecycle ≠ .stopping (.reader session) phase := by
  intro hlifecycle
  obtain ⟨buffer, leaves, hcaller⟩ := h.caller session phase hlifecycle
  cases hreader.symm.trans hcaller
  exact hphase leaves rfl

theorem OwnReaders.not_holder (h : OwnReaders s) {session : Nat} {reader : Reader}
    (hreader : s.readers session = some reader) (hphase : reader.phase ≠ .routing) (d : Dispatch)
    (hd : s.dispatch = some d) : d.holder ≠ .reader session := by
  intro hholder
  obtain ⟨buffer, hrouting⟩ := h.routing d session hd hholder
  cases hreader.symm.trans hrouting
  exact hphase rfl

/-- A step that leaves the readers alone, and the holder of the dispatch lock. -/
theorem OwnReaders.frame (h : OwnReaders s) (hsame : SameLifecycle s s') (hreaders : s'.readers = s.readers)
    (hkeep : s'.keepRunning = s.keepRunning)
    (hdispatch : ∀ d', s'.dispatch = some d' → (∃ d, s.dispatch = some d ∧ d.holder = d'.holder) ∨
      ∃ task, d'.holder = .parser task) : OwnReaders s' := by
  refine ⟨?_, fun session reader hreader => ?_, ?_, fun d' session hd' hholder => ?_, ?_, ?_, ?_⟩
  · rw [hreaders, hsame.generation]
    exact h.sessions
  · rw [hreaders] at hreader
    rw [hkeep]
    exact (h.running session reader hreader).imp_left fun hcurrent => hcurrent.frame hsame
  · rw [hreaders]
    exact h.streams
  · rw [hreaders]
    obtain ⟨d, hd, heq⟩ | ⟨task, heq⟩ := hdispatch d' hd'
    · exact h.routing d session hd (heq.trans hholder)
    · cases heq.symm.trans hholder
  · rw [hsame.working, hsame.lifecycle, hsame.messageProducerThread]
    exact h.thread
  · rw [hsame.lifecycle, hreaders]
    exact h.caller
  · rw [hsame.lifecycle, hsame.messageProducerThread, hkeep]
    exact h.silenced

/-- A reader that is neither routing nor in a call of `stop` goes on. -/
theorem OwnReaders.setReader (h : OwnReaders s) {session : Nat} {reader reader' : Reader}
    (hreader : s.readers session = some reader)
    (hrouting : ∀ d, s.dispatch = some d → d.holder ≠ .reader session)
    (hcaller : ∀ phase, s.lifecycle ≠ .stopping (.reader session) phase)
    (hrunning : CurrentReader s session ∨ s.keepRunning = false ∧ reader'.phase.dormant = true)
    (hstreams : ∀ stream ∈ reader'.buffer, stream = session) : OwnReaders (s.setReader session reader') := by
  have hkept : ∀ other, other ≠ session → (s.setReader session reader').readers other = s.readers other :=
    fun other hne => Function.update_of_ne hne _ _
  refine ⟨fun other r hr => ?_, fun other r hr => ?_, fun other r hr => ?_, fun d other hd hholder => ?_, h.thread,
    fun other phase hlifecycle => ?_, h.silenced⟩
  · rcases Table.update_eq_some hr with ⟨rfl, _⟩ | ⟨_, hold⟩
    · exact h.sessions _ reader hreader
    · exact h.sessions other r hold
  · rcases Table.update_eq_some hr with ⟨rfl, heq⟩ | ⟨_, hold⟩
    · cases heq
      exact hrunning.imp_left fun hcurrent => { hcurrent with }
    · exact (h.running other r hold).imp_left fun hcurrent => { hcurrent with }
  · rcases Table.update_eq_some hr with ⟨rfl, heq⟩ | ⟨_, hold⟩
    · cases heq
      exact hstreams
    · exact h.streams other r hold
  · obtain ⟨buffer, hold⟩ := h.routing d other hd hholder
    have hne : other ≠ session := by
      rintro rfl
      exact hrouting d hd hholder
    exact ⟨buffer, (hkept other hne).trans hold⟩
  · obtain ⟨buffer, leaves, hold⟩ := h.caller other phase hlifecycle
    have hne : other ≠ session := by
      rintro rfl
      exact hcaller phase hlifecycle
    exact ⟨buffer, leaves, (hkept other hne).trans hold⟩

/-- A reader that is neither routing nor in a call of `stop` ends. -/
theorem OwnReaders.removeReader (h : OwnReaders s) {session : Nat}
    (hrouting : ∀ d, s.dispatch = some d → d.holder ≠ .reader session)
    (hcaller : ∀ phase, s.lifecycle ≠ .stopping (.reader session) phase) : OwnReaders (s.removeReader session) := by
  have hkept : ∀ other, other ≠ session → (s.removeReader session).readers other = s.readers other :=
    fun other hne => Function.update_of_ne hne _ _
  have hold : ∀ other r, (s.removeReader session).readers other = some r → s.readers other = some r := by
    intro other r hr
    rcases Table.update_eq_some hr with ⟨_, heq⟩ | ⟨_, hold⟩
    · cases heq
    · exact hold
  refine ⟨fun other r hr => h.sessions other r (hold other r hr), fun other r hr => ?_,
    fun other r hr => h.streams other r (hold other r hr), fun d other hd hholder => ?_, h.thread,
    fun other phase hlifecycle => ?_, h.silenced⟩
  · exact (h.running other r (hold other r hr)).imp_left
      fun hcurrent => { hcurrent with }
  · obtain ⟨buffer, hrouter⟩ := h.routing d other hd hholder
    have hne : other ≠ session := by
      rintro rfl
      exact hrouting d hd hholder
    exact ⟨buffer, (hkept other hne).trans hrouter⟩
  · obtain ⟨buffer, leaves, hreader'⟩ := h.caller other phase hlifecycle
    have hne : other ≠ session := by
      rintro rfl
      exact hcaller phase hlifecycle
    exact ⟨buffer, leaves, (hkept other hne).trans hreader'⟩

/-- `keepRunning` is cleared, or stays. -/
theorem OwnReaders.quieten (h : OwnReaders s) {keepRunning : Bool}
    (hkeep : s.keepRunning = false → keepRunning = false) :
    OwnReaders { s with keepRunning := keepRunning } := by
  refine ⟨h.sessions, fun session reader hreader => ?_, h.streams, h.routing, h.thread, h.caller,
    fun session phase hlifecycle hphase hthread => hkeep (h.silenced session phase hlifecycle hphase hthread)⟩
  exact (h.running session reader hreader).imp (fun hcurrent => { hcurrent with })
    fun hdormant => ⟨hkeep hdormant.1, hdormant.2⟩

/-- A reader enters `listen` where no earlier one is left. -/
theorem OwnReaders.enterListen (h : OwnReaders s) {session : Nat} {buffer : List Nat}
    (hreader : s.readers session = some ⟨buffer, .entering⟩)
    (hended : ∀ earlier < session, s.readers earlier = none) :
    OwnReaders { s.setReader session ⟨buffer, .looping⟩ with keepRunning := true } := by
  have hcurrent := h.current hreader rfl
  have hcaller := h.not_caller hreader fun _ heq => by cases heq
  have hset : OwnReaders (s.setReader session ⟨buffer, .looping⟩) :=
    h.setReader hreader (h.not_holder hreader fun heq => by cases heq) hcaller (.inl hcurrent)
      (h.stream_eq hreader)
  have honly : ∀ other r, (s.setReader session ⟨buffer, .looping⟩).readers other = some r → other = session := by
    intro other r hr
    rcases Table.update_eq_some hr with ⟨heq, _⟩ | ⟨hne, hold⟩
    · exact heq
    · have hle := h.sessions other r hold
      rw [← hcurrent.generation] at hle
      cases (hended other (Nat.lt_of_le_of_ne hle hne)).symm.trans hold
  refine ⟨hset.sessions, fun other r hr => .inl ?_, hset.streams, hset.routing, hset.thread, hset.caller,
    fun other phase hlifecycle _ hthread => ?_⟩
  · rw [honly other r hr]
    exact { hcurrent with }
  · have hsame : other = session := Option.some.inj (hthread.symm.trans hcurrent.thread)
    exact absurd (hsame ▸ hlifecycle) (hcaller phase)

/-- A reader in the middle of its work goes on. -/
theorem OwnReaders.goOn (h : OwnReaders s) {session : Nat} {reader reader' : Reader}
    (hreader : s.readers session = some reader) (hphase : reader.phase.dormant = false)
    (hrouting : reader.phase ≠ .routing) (hstreams : ∀ stream ∈ reader'.buffer, stream = session) :
    OwnReaders (s.setReader session reader') := by
  refine h.setReader hreader (h.not_holder hreader hrouting) (h.not_caller hreader fun leaves heq => ?_)
    (.inl (h.current hreader hphase)) hstreams
  rw [heq] at hphase
  cases hphase

theorem OwnReaders.readerStep (h : OwnReaders s) {a : LifecycleAction} (hok : ReadersEnded a s)
    (hstep : LifecycleState.readerStep a s = some s') : OwnReaders s' := by
  cases a with
  | enterListen session =>
      obtain ⟨buffer, hreader, rfl⟩ := step_enterListen hstep
      exact h.enterListen hreader (hok session rfl)
  | checkRunning session =>
      obtain ⟨buffer, hreader, ⟨hkeep, rfl⟩ | rfl⟩ := step_checkRunning hstep
      · exact h.setReader hreader (h.not_holder hreader fun heq => by cases heq)
          (h.not_caller hreader fun _ heq => by cases heq) (.inl (h.current_of_keepRunning hreader hkeep))
          (h.stream_eq hreader)
      · exact h.removeReader (h.not_holder hreader fun heq => by cases heq)
          (h.not_caller hreader fun _ heq => by cases heq)
  | receive session =>
      obtain ⟨buffer, hreader, rfl⟩ := step_receive hstep
      refine h.goOn hreader rfl (fun heq => by cases heq) fun stream hstream => ?_
      rcases List.mem_append.mp hstream with hold | hnew
      · exact h.stream_eq hreader stream hold
      · rw [List.mem_singleton.mp hnew]
        exact (h.current hreader rfl).input
  | deliver session =>
      obtain ⟨stream, buffer, hreader, rfl⟩ := step_deliver hstep
      have hset : OwnReaders (s.setReader session ⟨buffer, .posting s.nextMessageSequence⟩) :=
        h.goOn hreader rfl (fun heq => by cases heq) fun stream' hstream' =>
          h.stream_eq hreader stream' (List.mem_cons_of_mem _ hstream')
      exact hset.frame (by constructor <;> rfl) rfl rfl fun d hd => .inl ⟨d, hd, rfl⟩
  | frameTooLarge session =>
      obtain ⟨buffer, phase, hreader, _, rfl⟩ := step_frameTooLarge hstep
      exact h.goOn hreader rfl (fun heq => by cases heq) (h.stream_eq hreader)
  | leaveListen session stops =>
      obtain ⟨buffer, hreader, rfl⟩ := step_leaveListen hstep
      have hremoved : OwnReaders (s.removeReader session) :=
        h.removeReader (h.not_holder hreader fun heq => by cases heq)
          (h.not_caller hreader fun _ heq => by cases heq)
      exact hremoved.quieten fun hkeep => by
        have hfalse : s.keepRunning = false := hkeep
        rw [hfalse, Bool.false_and]
  | postParseTask session =>
      obtain ⟨buffer, sequence, hreader, ⟨phase, _, rfl⟩ | ⟨_, rfl⟩⟩ := step_postParseTask hstep
      · exact h.goOn hreader rfl (fun heq => by cases heq) (h.stream_eq hreader)
      · have hposted : OwnReaders { s with
            parseQueueSize := s.parseQueueSize + 1
            parseQueue := s.parseQueue ++ [⟨sequence, s.parsePool⟩] } :=
          h.frame (by constructor <;> rfl) rfl rfl fun d hd => .inl ⟨d, hd, rfl⟩
        exact hposted.goOn hreader rfl (fun heq => by cases heq) (h.stream_eq hreader)
  | dropNewest session =>
      obtain ⟨buffer, sequence, hreader, hdispatch, rfl | ⟨_, reorder, items, _, rfl⟩⟩ := step_dropNewest hstep
      · exact h.goOn hreader rfl (fun heq => by cases heq) (h.stream_eq hreader)
      · have hset : OwnReaders (s.setReader session ⟨buffer, .routing⟩) :=
          h.goOn hreader rfl (fun heq => by cases heq) (h.stream_eq hreader)
        refine ⟨hset.sessions, fun other r hr => ?_, hset.streams, fun d other hd hholder => ?_, hset.thread,
          hset.caller, hset.silenced⟩
        · exact (hset.running other r hr).imp_left
            fun hcurrent => { hcurrent with }
        · cases hd
          cases hholder
          exact ⟨buffer, Function.update_self _ _ _⟩
  | afterOverload session =>
      obtain ⟨buffer, leaves, hreader, rfl | rfl⟩ := step_afterOverload hstep
      · have hremoved : OwnReaders (s.removeReader session) :=
          h.removeReader (h.not_holder hreader fun heq => by cases heq)
            (h.not_caller hreader fun _ heq => by cases heq)
        exact hremoved.quieten fun _ => rfl
      · exact h.setReader hreader (h.not_holder hreader fun heq => by cases heq)
          (h.not_caller hreader fun _ heq => by cases heq)
          ((h.running session _ hreader).imp_right fun hdormant => ⟨hdormant.1, rfl⟩)
          (h.stream_eq hreader)
  | _ => cases hstep

/-- A step of `startProcessingMessages` before the new reader is there. -/
theorem OwnReaders.starting (h : OwnReaders s)
    (hthread : s.messageProducerThread = none) (hreaders : s'.readers = s.readers)
    (hkeep : s'.keepRunning = s.keepRunning) (hdispatch : s'.dispatch = s.dispatch)
    (hgeneration : s.generation ≤ s'.generation) (hthread' : s'.messageProducerThread = s.messageProducerThread)
    (hlifecycle : s'.lifecycle.isStarting = true) : OwnReaders s' := by
  have hnot : ∀ caller phase, s'.lifecycle ≠ .stopping caller phase := by
    intro caller phase heq
    rw [heq] at hlifecycle
    cases hlifecycle
  refine ⟨fun session reader hreader => ?_, fun session reader hreader => .inr ?_, ?_, ?_, fun _ => ?_,
    fun session phase heq => absurd heq (hnot _ _), fun session phase heq => absurd heq (hnot _ _)⟩
  · exact Nat.le_trans (h.sessions session reader (hreaders ▸ hreader)) hgeneration
  · rw [hkeep]
    exact h.dormant (.inl hthread) (hreaders ▸ hreader)
  · rw [hreaders]
    exact h.streams
  · rw [hdispatch, hreaders]
    exact h.routing
  · rw [hthread', hthread]

theorem OwnReaders.startStep (h : OwnReaders s) (hrenewed : Renewed s) {caller : Caller} {phase : StartPhase}
    (hlifecycle : s.lifecycle = .starting caller phase) (hstep : s.startStep caller phase = some s') :
    OwnReaders s' := by
  have hthread : s.messageProducerThread = none := h.thread (.inr (by rw [hlifecycle]; rfl))
  cases phase with
  | output => cases hstep; exact h.starting hthread rfl rfl rfl (Nat.le_succ _) rfl rfl
  | async | bind | parsePool | handlerPool =>
      cases hstep
      exact h.starting hthread rfl rfl rfl (Nat.le_refl _) rfl rfl
  | joinParsers | joinWorkers | routing =>
      obtain ⟨_, rfl⟩ := Transition.of_guard hstep
      exact h.starting hthread rfl rfl rfl (Nat.le_refl _) rfl rfl
  | dispatcher =>
      obtain rfl | ⟨_, _, _, rfl⟩ := startStep_dispatcher hstep
      all_goals exact h.starting hthread rfl rfl rfl (Nat.le_refl _) rfl rfl
  | reader =>
      cases hstep
      have hworking := hrenewed.begun (by rw [hlifecycle]; rfl)
      refine ⟨fun session reader hreader => ?_, fun session reader hreader => ?_, fun session reader hreader => ?_,
        fun d session hd hholder => ?_, ?_, ?_, ?_⟩
      · rcases Table.update_eq_some hreader with ⟨heq, _⟩ | ⟨_, hold⟩
        · exact Nat.le_of_eq heq
        · exact h.sessions session reader hold
      · rcases Table.update_eq_some hreader with ⟨rfl, _⟩ | ⟨_, hold⟩
        · refine .inl ⟨rfl, rfl, ?_, ?_, rfl⟩
          · exact hrenewed.bound (by rw [hlifecycle]; rfl)
          · exact hrenewed.pooled (by rw [hlifecycle]; rfl)
        · exact .inr (h.dormant (.inl hthread) hold)
      · rcases Table.update_eq_some hreader with ⟨_, heq⟩ | ⟨_, hold⟩
        · cases heq
          exact fun _ hstream => by cases hstream
        · exact h.streams session reader hold
      · obtain ⟨buffer, hrouting⟩ := h.routing d session hd hholder
        cases (h.dormant (.inl hthread) hrouting).2
      · rintro (hidle | hfalse)
        · cases hworking.symm.trans hidle
        · cases hfalse
      · exact fun _ _ heq => by cases heq
      · exact fun _ _ heq => by cases heq

/-- A step of `stop` before the thread of the reader is joined. -/
theorem OwnReaders.stopping (h : OwnReaders s) {caller : Caller} {phase phase' : ClearPhase}
    (hlifecycle : s.lifecycle = .stopping caller phase) (hlifecycle' : s'.lifecycle = .stopping caller phase')
    (hphase : phase' ≠ .finish) (hreaders : s'.readers = s.readers)
    (hkeep : s.keepRunning = false → s'.keepRunning = false)
    (hsilenced : phase'.silenced = true → phase.silenced = true ∨ s'.keepRunning = false)
    (hsame : s'.generation = s.generation ∧ s'.messageProducerThread = s.messageProducerThread ∧
      s'.input = s.input ∧ s'.parsePool = s.parsePool ∧ s'.working = s.working)
    (hdispatch : s'.dispatch = s.dispatch) : OwnReaders s' := by
  obtain ⟨hgeneration, hthread, hinput, hpool, hworking⟩ := hsame
  refine ⟨?_, fun session reader hreader => ?_, ?_, ?_, fun hidle => ?_, fun session clearing heq => ?_,
    fun session clearing heq hsilent hown => ?_⟩
  · rw [hreaders, hgeneration]
    exact h.sessions
  · rw [hreaders] at hreader
    refine (h.running session reader hreader).imp (fun hcurrent => ?_) fun hdormant => ⟨hkeep hdormant.1, hdormant.2⟩
    refine ⟨by rw [hgeneration, hcurrent.generation], by rw [hthread, hcurrent.thread],
      by rw [hinput, hcurrent.input], by rw [hpool, hcurrent.parsePool], ?_⟩
    rw [hlifecycle']
    cases phase' <;> first | rfl | exact absurd rfl hphase
  · rw [hreaders]
    exact h.streams
  · rw [hdispatch, hreaders]
    exact h.routing
  · rw [hthread]
    rw [hlifecycle'] at hidle
    refine h.thread (hidle.imp (fun hfalse => hworking ▸ hfalse) fun hfalse => ?_)
    cases hfalse
  · rw [hreaders]
    rw [hlifecycle'] at heq
    cases heq
    exact h.caller session phase hlifecycle
  · rw [hlifecycle'] at heq
    cases heq
    rcases hsilenced hsilent with hbefore | hnow
    · exact hkeep (h.silenced session phase hlifecycle hbefore (hthread ▸ hown))
    · exact hnow

/-- The caller of `stop` goes on. -/
theorem OwnReaders.resume (h : OwnReaders s) (hfree : s.lifecycle = .free) (caller : Caller) :
    OwnReaders (s.resume caller) := by
  rcases s.resume_cases caller with heq | ⟨session, buffer, leaves, _, hreader, heq⟩ | ⟨_, _, heq⟩ <;> rw [heq]
  · exact h
  · refine h.setReader hreader (h.not_holder hreader fun hfalse => by cases hfalse) (fun phase hstopping => ?_)
      ((h.running session _ hreader).imp_right fun hdormant => ⟨hdormant.1, rfl⟩) (h.stream_eq hreader)
    cases hfree.symm.trans hstopping
  · exact h.frame (by constructor <;> rfl) rfl rfl fun d hd => .inl ⟨d, hd, rfl⟩

/-- Once the thread of the reader is joined or detached, no reader is left that reads. -/
theorem OwnReaders.dormant_of_joinReader (h : OwnReaders s) {caller : Caller}
    (hlifecycle : s.lifecycle = .stopping caller .joinReader)
    (hjoined : ∀ session, s.messageProducerThread = some session →
      caller = .reader session ∨ s.readers session = none)
    {session : Nat} {reader : Reader} (hreader : s.readers session = some reader) :
    s.keepRunning = false ∧ reader.phase.dormant = true := by
  rcases h.running session reader hreader with hcurrent | hdormant
  · rcases hjoined session hcurrent.thread with rfl | hnone
    · obtain ⟨buffer, leaves, hcaller⟩ := h.caller session .joinReader hlifecycle
      cases hreader.symm.trans hcaller
      exact ⟨h.silenced session .joinReader hlifecycle rfl hcurrent.thread, rfl⟩
    · cases hnone.symm.trans hreader
  · exact hdormant

theorem OwnReaders.stopStep (h : OwnReaders s) {caller : Caller} {phase : ClearPhase}
    (hlifecycle : s.lifecycle = .stopping caller phase) (hstep : s.stopStep caller phase = some s') :
    OwnReaders s' := by
  cases phase with
  | quit | output | dispatcher | async | pools =>
      cases hstep
      exact h.stopping hlifecycle rfl (fun heq => by cases heq) rfl id (fun hsilent => .inl hsilent)
        ⟨rfl, rfl, rfl, rfl, rfl⟩ rfl
  | routing | joinAsync =>
      obtain ⟨_, rfl⟩ := Transition.of_guard hstep
      exact h.stopping hlifecycle rfl (fun heq => by cases heq) rfl id (fun hsilent => .inl hsilent)
        ⟨rfl, rfl, rfl, rfl, rfl⟩ rfl
  | producer =>
      cases hstep
      exact h.stopping hlifecycle rfl (fun heq => by cases heq) rfl (fun _ => rfl) (fun _ => .inr rfl)
        ⟨rfl, rfl, rfl, rfl, rfl⟩ rfl
  | joinLoop =>
      rw [stopStep_joinLoop hstep]
      exact h.stopping hlifecycle rfl (fun heq => by cases heq) rfl id (fun hsilent => .inl hsilent)
        ⟨rfl, rfl, rfl, rfl, rfl⟩ rfl
  | joinReader =>
      obtain ⟨hjoined, rfl⟩ := stopStep_joinReader hstep
      refine ⟨h.sessions, fun session reader hreader => .inr (h.dormant_of_joinReader hlifecycle hjoined hreader),
        h.streams, h.routing, fun hidle => h.thread (hidle.imp_right fun hfalse => by cases hfalse),
        fun session clearing heq => ?_, fun session clearing heq _ hown => ?_⟩
      · cases heq
        exact h.caller session .joinReader hlifecycle
      · cases heq
        exact h.silenced session .joinReader hlifecycle rfl hown
  | finish =>
      cases hstep
      have hfree : OwnReaders { s with lifecycle := .free, messageProducerThread := none, working := false } := by
        refine ⟨h.sessions, fun session reader hreader => .inr (h.dormant (.inr ?_) hreader), h.streams, h.routing,
          fun _ => rfl, ?_, ?_⟩
        · rw [hlifecycle]
          rfl
        · exact fun _ _ heq => by cases heq
        · exact fun _ _ heq => by cases heq
      exact hfree.resume rfl caller

theorem OwnReaders.lifecycleStep (h : OwnReaders s) (hrenewed : Renewed s) {a : LifecycleAction}
    (hstep : LifecycleState.lifecycleStep a s = some s') : OwnReaders s' := by
  rcases lifecycleStep_cases hstep with ⟨caller, hfree, hworking, rfl⟩ | ⟨caller, hfree, hmay, rfl | rfl⟩ |
    ⟨caller, phase, _, hlifecycle, hstart⟩ | ⟨caller, phase, hlifecycle, hstop⟩
  · exact h.starting (h.thread (.inl hworking)) rfl rfl rfl (Nat.le_refl _) rfl rfl
  · refine ⟨h.sessions, fun session reader hreader => ?_, h.streams, h.routing,
      fun hidle => h.thread (hidle.imp_right fun hfalse => by cases hfalse), fun session phase heq => ?_,
      fun session phase heq hsilent => ?_⟩
    · exact (h.running session reader hreader).imp_left fun hcurrent =>
        ⟨hcurrent.generation, hcurrent.thread, hcurrent.input, hcurrent.parsePool, rfl⟩
    · cases heq
      rw [mayStop] at hmay
      split at hmay
      · rename_i buffer leaves hreader
        exact ⟨buffer, leaves, hreader⟩
      · cases hmay
    · cases heq
      cases hsilent
  · exact h.resume hfree caller
  · exact h.startStep hrenewed hlifecycle hstart
  · exact h.stopStep hlifecycle hstop

theorem OwnReaders.routeParsedIncoming (h : OwnReaders s) (item : SequencedParsedMessage) (state : Nat) :
    OwnReaders (s.routeParsedIncoming item state) := by
  have hsame := s.routeParsedIncoming_sameLifecycle item state
  obtain ⟨_, _, _, _, heq⟩ := s.routeParsedIncoming_frame item state
  rw [heq] at hsame ⊢
  exact h.frame hsame rfl rfl fun d hd => .inl ⟨d, hd, rfl⟩

theorem OwnReaders.routeStep (h : OwnReaders s) {a : LifecycleAction}
    (hstep : LifecycleState.routeStep a s = some s') : OwnReaders s' := by
  have hsame := routeStep_sameLifecycle hstep
  cases a with
  | parseBegins task =>
      obtain ⟨_, _, _, rfl⟩ := step_parseBegins hstep
      exact h.frame hsame rfl rfl fun d hd => .inl ⟨d, hd, rfl⟩
  | submit task parsed =>
      obtain ⟨_, _, _, rfl | rfl | ⟨_, _, _, rfl⟩⟩ := step_submit hstep
      · exact h.frame hsame rfl rfl fun d hd => .inl ⟨d, hd, rfl⟩
      · exact h.frame hsame rfl rfl fun d hd => .inl ⟨d, hd, rfl⟩
      · refine h.frame hsame rfl rfl fun d hd => .inr ⟨task, ?_⟩
        cases hd
        rfl
  | takeState =>
      obtain ⟨holder, item, rest, current, hdispatch, _, rfl⟩ := step_takeState hstep
      refine h.frame hsame rfl rfl fun d hd => .inl ⟨_, hdispatch, ?_⟩
      cases hd
      rfl
  | route =>
      obtain ⟨holder, item, state, rest, hdispatch, rfl⟩ := step_route hstep
      have hleft : OwnReaders { s with dispatch := some ⟨holder, none, rest⟩ } := by
        refine h.frame (by constructor <;> rfl) rfl rfl fun d hd => .inl ⟨_, hdispatch, ?_⟩
        cases hd
        rfl
      exact hleft.routeParsedIncoming item state
  | release =>
      obtain ⟨holder, hdispatch, rfl⟩ := step_release hstep
      have hfree : OwnReaders { s with dispatch := none } :=
        h.frame (by constructor <;> rfl) rfl rfl fun d hd => by cases hd
      cases holder with
      | parser task => exact h.frame hsame rfl rfl fun d hd => by cases hd
      | reader session =>
          obtain ⟨buffer, hreader⟩ := h.routing _ session hdispatch rfl
          rw [endDispatch, hreader]
          exact hfree.setReader hreader (fun d hd => by cases hd)
            (hfree.not_caller hreader fun _ heq => by cases heq) (.inl (hfree.current hreader rfl))
            (h.stream_eq hreader)
  | _ => cases hstep

theorem OwnReaders.step (h : OwnReaders s) (hrenewed : Renewed s) {a : LifecycleAction} (hok : ReadersEnded a s)
    (hstep : LifecycleState.step a s = some s') : OwnReaders s' := by
  rcases step_kinds hstep with hlife | hread | hroute | hloop | hwork
  · exact h.lifecycleStep hrenewed hlife
  · exact h.readerStep hok hread
  · exact h.routeStep hroute
  · have hsame := loopStep_sameLifecycle hloop
    obtain ⟨_, _, _, _, _, rfl⟩ := loopStep_frame hloop
    exact h.frame hsame rfl rfl fun d hd => .inl ⟨d, hd, rfl⟩
  · have hsame := workerStep_sameLifecycle hwork
    obtain ⟨_, _, _, _, _, rfl⟩ := workerStep_frame hwork
    exact h.frame hsame rfl rfl fun d hd => .inl ⟨d, hd, rfl⟩

theorem reachable_ownReaders {ok : LifecycleAction → LifecycleState → Prop}
    (hok : ∀ a s, ok a s → ReadersEnded a s) (hs : lifecycleSystem.ReachableIf ok s) : OwnReaders s := by
  refine hs.invariant_of Renewed OwnReaders (fun _ => reachable_renewed) ?_
    fun a s s' hrenewed h ha hstep => h.step hrenewed (hok a s ha) hstep
  rintro s ⟨limits, concurrentNotifications, rfl⟩
  refine ⟨?_, ?_, ?_, ?_, fun _ => rfl, ?_, ?_⟩
  · exact fun _ _ hreader => by cases hreader
  · exact fun _ _ hreader => by cases hreader
  · exact fun _ _ hreader => by cases hreader
  · exact fun _ _ hd => by cases hd
  · exact fun _ _ heq => by cases heq
  · exact fun _ _ heq => by cases heq

end LifecycleState

end LspCpp

import LspCpp.LifecycleSteps

/-! The steps of an endpoint by the kind of thread that takes them, and what each kind leaves alone. -/

namespace LspCpp

namespace LifecycleState

variable {s s' : LifecycleState}

/-- A reader that neither posts nor submits a message works on its buffer alone. -/
theorem readerStep_buffer {a : LifecycleAction} (h : readerStep a s = some s')
    (hpost : ∀ session, a ≠ .postParseTask session) (hdrop : ∀ session, a ≠ .dropNewest session) :
    ∃ readers keepRunning nextMessageSequence origin, s' = { s with
      readers := readers
      keepRunning := keepRunning
      nextMessageSequence := nextMessageSequence
      origin := origin } := by
  cases a with
  | enterListen session => obtain ⟨_, _, rfl⟩ := step_enterListen h; exact ⟨_, _, _, _, rfl⟩
  | checkRunning session =>
      obtain ⟨_, _, ⟨_, rfl⟩ | rfl⟩ := step_checkRunning h
      · exact ⟨_, _, _, _, rfl⟩
      · exact ⟨_, _, _, _, rfl⟩
  | receive session => obtain ⟨_, _, rfl⟩ := step_receive h; exact ⟨_, _, _, _, rfl⟩
  | deliver session => obtain ⟨_, _, _, rfl⟩ := step_deliver h; exact ⟨_, _, _, _, rfl⟩
  | frameTooLarge session => obtain ⟨_, _, _, _, rfl⟩ := step_frameTooLarge h; exact ⟨_, _, _, _, rfl⟩
  | leaveListen session stops => obtain ⟨_, _, rfl⟩ := step_leaveListen h; exact ⟨_, _, _, _, rfl⟩
  | postParseTask session => exact absurd rfl (hpost session)
  | dropNewest session => exact absurd rfl (hdrop session)
  | afterOverload session =>
      obtain ⟨_, _, _, rfl | rfl⟩ := step_afterOverload h
      · exact ⟨_, _, _, _, rfl⟩
      · exact ⟨_, _, _, _, rfl⟩
  | _ => cases h

/-- A reader that does not submit a message itself leaves the routing alone. -/
theorem readerStep_frame {a : LifecycleAction} (h : readerStep a s = some s')
    (ha : ∀ session, a ≠ .dropNewest session) :
    ∃ readers keepRunning nextMessageSequence origin parseQueueSize parseQueue, s' = { s with
      readers := readers
      keepRunning := keepRunning
      nextMessageSequence := nextMessageSequence
      origin := origin
      parseQueueSize := parseQueueSize
      parseQueue := parseQueue } := by
  by_cases hposts : ∃ session, a = .postParseTask session
  · obtain ⟨session, rfl⟩ := hposts
    obtain ⟨_, _, _, ⟨_, _, rfl⟩ | ⟨_, rfl⟩⟩ := step_postParseTask h
    · exact ⟨_, _, _, _, _, _, rfl⟩
    · exact ⟨_, _, _, _, _, _, rfl⟩
  · obtain ⟨_, _, _, _, rfl⟩ := readerStep_buffer h (fun session heq => hposts ⟨session, heq⟩) ha
    exact ⟨_, _, _, _, _, _, rfl⟩

/-- A notification loop works on the dispatcher, and posts and sends what its handlers and requests cause. -/
theorem loopStep_frame {a : LifecycleAction} (h : loopStep a s = some s') :
    ∃ loops dispatcher started handlerQueue written, s' = { s with
      loops := loops
      dispatcher := dispatcher
      started := started
      handlerQueue := handlerQueue
      written := written } := by
  cases a with
  | take session => obtain ⟨_, _, _, _, rfl⟩ := step_take h; exact ⟨_, _, _, _, _, rfl⟩
  | exit session => obtain ⟨_, rfl⟩ := step_exit h; exact ⟨_, _, _, _, _, rfl⟩
  | runHandler session =>
      obtain ⟨_, _, rfl | rfl⟩ := step_runHandler h
      · exact ⟨_, _, _, _, _, rfl⟩
      · exact ⟨_, _, _, _, _, rfl⟩
  | handlerSends session =>
      obtain ⟨item, _, rfl⟩ := step_handlerSends h
      rcases s.sendSessionMessage_cases item.sequence item.responseState with heq | heq <;> rw [heq]
      · exact ⟨_, _, _, _, _, rfl⟩
      · exact ⟨_, _, _, _, _, rfl⟩
  | handlerReturns session => obtain ⟨_, _, rfl⟩ := step_handlerReturns h; exact ⟨_, _, _, _, _, rfl⟩
  | complete session => obtain ⟨_, _, rfl⟩ := step_complete h; exact ⟨_, _, _, _, _, rfl⟩
  | postParked session =>
      obtain ⟨parked, rest, _, rfl⟩ := step_postParked h
      rcases (s.setLoop session (.posting rest)).postToWorker_cases parked.request with heq | heq <;> rw [heq]
      · exact ⟨_, _, _, _, _, rfl⟩
      · exact ⟨_, _, _, _, _, rfl⟩
  | wait session => obtain ⟨_, rfl⟩ := step_wait h; exact ⟨_, _, _, _, _, rfl⟩
  | _ => cases h

/-- A worker and the loop of the asynchronous completions work on the tasks of the handler pools. -/
theorem workerStep_frame {a : LifecycleAction} (h : workerStep a s = some s') :
    ∃ handlerQueue handling asyncCompletions asyncRunning written, s' = { s with
      handlerQueue := handlerQueue
      handling := handling
      asyncCompletions := asyncCompletions
      asyncRunning := asyncRunning
      written := written } := by
  cases a with
  | workBegins task => obtain ⟨_, _, _, rfl⟩ := step_workBegins h; exact ⟨_, _, _, _, _, rfl⟩
  | workSends task =>
      obtain ⟨_, rfl⟩ := step_workSends h
      rcases s.sendSessionMessage_cases task.item.sequence task.item.responseState with heq | heq <;> rw [heq]
      · exact ⟨_, _, _, _, _, rfl⟩
      · exact ⟨_, _, _, _, _, rfl⟩
  | workLater task =>
      obtain ⟨_, rfl⟩ := step_workLater h
      rcases s.postAsyncCompletion_cases task.item.sequence task.item.responseState with heq | heq <;> rw [heq]
      · exact ⟨_, _, _, _, _, rfl⟩
      · exact ⟨_, _, _, _, _, rfl⟩
  | workEnds task => rw [step_workEnds h]; exact ⟨_, _, _, _, _, rfl⟩
  | asyncTake => obtain ⟨_, _, _, rfl⟩ := step_asyncTake h; exact ⟨_, _, _, _, _, rfl⟩
  | asyncRun ready =>
      obtain ⟨completion, _, rfl | rfl | rfl⟩ := step_asyncRun h
      · rcases { s with asyncRunning := none }.sendSessionMessage_cases completion.1 completion.2 with
          heq | heq <;> rw [heq]
        · exact ⟨_, _, _, _, _, rfl⟩
        · exact ⟨_, _, _, _, _, rfl⟩
      · exact ⟨_, _, _, _, _, rfl⟩
      · exact ⟨_, _, _, _, _, rfl⟩
  | _ => cases h

/-- What only `startProcessingMessages` and `stop` change. -/
structure SameLifecycle (s s' : LifecycleState) : Prop where
  lifecycle : s'.lifecycle = s.lifecycle
  working : s'.working = s.working
  generation : s'.generation = s.generation
  input : s'.input = s.input
  messageProducerThread : s'.messageProducerThread = s.messageProducerThread
  parsePool : s'.parsePool = s.parsePool
  parsePoolStopped : s'.parsePoolStopped = s.parsePoolStopped

/-- What routing a message can change. -/
theorem routeParsedIncoming_frame (s : LifecycleState) (item : SequencedParsedMessage) (state : Nat) :
    ∃ stuck dispatcher handlerQueue written, s.routeParsedIncoming item state = { s with
      stuck := stuck
      dispatcher := dispatcher
      handlerQueue := handlerQueue
      written := written } := by
  rcases s.routeParsedIncoming_cases item state with
    heq | heq | heq | ⟨message, heq⟩ | ⟨_, heq⟩ | ⟨_, heq⟩ <;> rw [heq]
  case inr.inr.inl =>
    rcases s.sendSessionMessage_cases item.sequence state with hsend | hsend <;> rw [hsend]
    all_goals exact ⟨_, _, _, _, rfl⟩
  case inr.inr.inr.inl =>
    rcases s.postToWorker_cases ⟨item.sequence, message, state⟩ with hpost | hpost <;> rw [hpost]
    all_goals exact ⟨_, _, _, _, rfl⟩
  all_goals exact ⟨_, _, _, _, rfl⟩

theorem routeParsedIncoming_sameLifecycle (s : LifecycleState) (item : SequencedParsedMessage) (state : Nat) :
    SameLifecycle s (s.routeParsedIncoming item state) := by
  obtain ⟨_, _, _, _, heq⟩ := s.routeParsedIncoming_frame item state
  rw [heq]
  constructor <;> rfl

theorem routeStep_sameLifecycle {a : LifecycleAction} (h : routeStep a s = some s') : SameLifecycle s s' := by
  cases a with
  | parseBegins task =>
      obtain ⟨_, _, _, rfl⟩ := step_parseBegins h
      constructor <;> rfl
  | submit task parsed =>
      obtain ⟨_, _, _, rfl | rfl | ⟨_, _, _, rfl⟩⟩ := step_submit h
      all_goals constructor <;> rfl
  | takeState =>
      obtain ⟨_, _, _, _, _, _, rfl⟩ := step_takeState h
      constructor <;> rfl
  | route =>
      obtain ⟨holder, item, state, rest, _, rfl⟩ := step_route h
      have hsame := routeParsedIncoming_sameLifecycle { s with dispatch := some ⟨holder, none, rest⟩ } item state
      exact ⟨hsame.1, hsame.2, hsame.3, hsame.4, hsame.5, hsame.6, hsame.7⟩
  | release =>
      obtain ⟨holder, _, rfl⟩ := step_release h
      rcases s.endDispatch_cases holder with ⟨_, heq⟩ | ⟨_, _, _, heq⟩ | heq <;> rw [heq]
      all_goals constructor <;> rfl
  | _ => cases h

theorem readerStep_sameLifecycle {a : LifecycleAction} (h : readerStep a s = some s') : SameLifecycle s s' := by
  cases a with
  | dropNewest session =>
      obtain ⟨_, _, _, _, rfl | ⟨_, _, _, _, rfl⟩⟩ := step_dropNewest h
      all_goals constructor <;> rfl
  | _ =>
      obtain ⟨_, _, _, _, _, _, rfl⟩ := readerStep_frame h fun _ heq => by cases heq
      constructor <;> rfl

theorem loopStep_sameLifecycle {a : LifecycleAction} (h : loopStep a s = some s') : SameLifecycle s s' := by
  obtain ⟨_, _, _, _, _, rfl⟩ := loopStep_frame h
  constructor <;> rfl

theorem workerStep_sameLifecycle {a : LifecycleAction} (h : workerStep a s = some s') : SameLifecycle s s' := by
  obtain ⟨_, _, _, _, _, rfl⟩ := workerStep_frame h
  constructor <;> rfl

/-- The kinds of steps. -/
theorem step_kinds {a : LifecycleAction} (h : step a s = some s') :
    lifecycleStep a s = some s' ∨ readerStep a s = some s' ∨ routeStep a s = some s' ∨ loopStep a s = some s' ∨
      workerStep a s = some s' := by
  cases a with
  | start _ | stop _ | advance => exact .inl h
  | enterListen _ | checkRunning _ | receive _ | deliver _ | frameTooLarge _ | leaveListen _ _ | postParseTask _
  | dropNewest _ | afterOverload _ => exact .inr (.inl h)
  | parseBegins _ | submit _ _ | takeState | route | release => exact .inr (.inr (.inl h))
  | take _ | exit _ | runHandler _ | handlerSends _ | handlerReturns _ | complete _ | postParked _ | wait _ =>
      exact .inr (.inr (.inr (.inl h)))
  | workBegins _ | workSends _ | workLater _ | workEnds _ | asyncTake | asyncRun _ =>
      exact .inr (.inr (.inr (.inr h)))

/-- The steps of `startProcessingMessages` and `stop`. -/
theorem lifecycleStep_cases {a : LifecycleAction} (h : lifecycleStep a s = some s') :
    (∃ caller, s.lifecycle = .free ∧ s.working = false ∧
        s' = { s with lifecycle := .starting caller .output, working := true, quit := false }) ∨
      (∃ caller, s.lifecycle = .free ∧ s.mayStop caller = true ∧
        (s' = { s with lifecycle := .stopping caller .quit } ∨ s' = s.resume caller)) ∨
      (∃ caller phase, a = .advance ∧ s.lifecycle = .starting caller phase ∧
        s.startStep caller phase = some s') ∨
      ∃ caller phase, s.lifecycle = .stopping caller phase ∧ s.stopStep caller phase = some s' := by
  cases a with
  | start caller =>
      obtain ⟨hfree, hworking, rfl⟩ := step_start h
      exact .inl ⟨caller, hfree, hworking, rfl⟩
  | stop caller =>
      obtain ⟨hfree, hmay, rfl | ⟨_, _, rfl⟩⟩ := step_stop h
      · exact .inr (.inl ⟨caller, hfree, hmay, .inl rfl⟩)
      · exact .inr (.inl ⟨caller, hfree, hmay, .inr rfl⟩)
  | advance =>
      obtain ⟨caller, phase, hlifecycle, hstart⟩ | ⟨caller, phase, hlifecycle, hstop⟩ := step_advance h
      · exact .inr (.inr (.inl ⟨caller, phase, rfl, hlifecycle, hstart⟩))
      · exact .inr (.inr (.inr ⟨caller, phase, hlifecycle, hstop⟩))
  | _ => cases h

end LifecycleState

end LspCpp

import LspCpp.LifecycleSystem

/-! What one step of an endpoint can do. -/

namespace LspCpp

namespace LifecycleState

variable {s s' : LifecycleState}

theorem step_start {caller : Caller} (h : step (.start caller) s = some s') :
    s.lifecycle = .free ∧ s.working = false ∧
      s' = { s with lifecycle := .starting caller .output, working := true, quit := false } := by
  rw [step, lifecycleStep] at h
  split_ifs at h with hfree
  exact ⟨hfree.1, hfree.2.2.1, (Option.some.inj h).symm⟩

example : step .advance {} = none ∧ step (.checkRunning 0) {} = none ∧ step .takeState {} = none ∧
    step (.take 0) {} = none ∧ step .asyncTake {} = none := by
  refine ⟨?_, ?_, ?_, ?_, ?_⟩
  · rw [step, lifecycleStep]
  · rw [step, readerStep]
  · rw [step, routeStep]
  · rw [step, loopStep]
  · rw [step, workerStep]

theorem step_stop {caller : Caller} (h : step (.stop caller) s = some s') :
    s.lifecycle = .free ∧ s.mayStop caller = true ∧
      (s' = { s with lifecycle := .stopping caller .quit } ∨
        s.working = false ∧ s.messageProducerThread = none ∧ s' = s.resume caller) := by
  rw [step, lifecycleStep] at h
  split_ifs at h with hfree hworking
  · exact ⟨hfree.1, hfree.2.2, .inl (Option.some.inj h).symm⟩
  · simp only [not_or, Bool.not_eq_true, ne_eq, not_not] at hworking
    exact ⟨hfree.1, hfree.2.2, .inr ⟨hworking.1, hworking.2, (Option.some.inj h).symm⟩⟩

theorem step_advance (h : step .advance s = some s') :
    (∃ caller phase, s.lifecycle = .starting caller phase ∧ s.startStep caller phase = some s') ∨
      ∃ caller phase, s.lifecycle = .stopping caller phase ∧ s.stopStep caller phase = some s' := by
  rw [step, lifecycleStep] at h
  split at h
  · cases h
  · rename_i caller phase hlifecycle
    exact .inl ⟨caller, phase, hlifecycle, h⟩
  · rename_i caller phase hlifecycle
    exact .inr ⟨caller, phase, hlifecycle, h⟩

theorem startStep_dispatcher {caller : Caller} (h : s.startStep caller .dispatcher = some s') :
    s' = s.spawnLoop caller ∨
      ∃ session, s.notificationThread = some session ∧ caller = .loop session ∧ s' = { s with
        lifecycle := .starting caller .routing, dispatcher := s.dispatcher.startOrderedDispatcher } := by
  rw [startStep] at h
  split at h
  · exact .inl (Option.some.inj h).symm
  · rename_i session hthread
    split_ifs at h with hcaller
    · exact .inr ⟨session, hthread, hcaller, (Option.some.inj h).symm⟩
    · exact .inl (Option.some.inj h).symm

theorem stopStep_joinLoop {caller : Caller} (h : s.stopStep caller .joinLoop = some s') :
    s' = { s with lifecycle := .stopping caller .async, notificationThread := none } := by
  rw [stopStep] at h
  split at h
  · rename_i hthread
    rw [← hthread]
    exact (Option.some.inj h).symm
  · split_ifs at h
    exact (Option.some.inj h).symm

theorem stopStep_joinReader {caller : Caller} (h : s.stopStep caller .joinReader = some s') :
    (∀ session, s.messageProducerThread = some session →
        caller = .reader session ∨ s.readers session = none) ∧
      s' = { s with lifecycle := .stopping caller .finish } := by
  rw [stopStep] at h
  split at h
  · rename_i hthread
    refine ⟨fun session hsession => ?_, (Option.some.inj h).symm⟩
    cases hthread.symm.trans hsession
  · rename_i session hthread
    split_ifs at h with hjoined
    refine ⟨fun session' hsession => ?_, (Option.some.inj h).symm⟩
    rw [Option.some.inj (hsession.symm.trans hthread)]
    exact hjoined

variable {session : Nat}

theorem step_enterListen (h : step (.enterListen session) s = some s') :
    ∃ buffer, s.readers session = some ⟨buffer, .entering⟩ ∧
      s' = { s.setReader session ⟨buffer, .looping⟩ with keepRunning := true } := by
  rw [step, readerStep] at h
  split at h
  · rename_i buffer hreader
    exact ⟨buffer, hreader, (Option.some.inj h).symm⟩
  · cases h

theorem step_checkRunning (h : step (.checkRunning session) s = some s') :
    ∃ buffer, s.readers session = some ⟨buffer, .looping⟩ ∧
      (s.keepRunning = true ∧ s' = s.setReader session ⟨buffer, .reading⟩ ∨ s' = s.removeReader session) := by
  rw [step, readerStep] at h
  split at h
  · rename_i buffer hreader
    refine ⟨buffer, hreader, ?_⟩
    split_ifs at h with hkeep
    · exact .inl ⟨hkeep, (Option.some.inj h).symm⟩
    · exact .inr (Option.some.inj h).symm
  · cases h

theorem step_receive (h : step (.receive session) s = some s') :
    ∃ buffer, s.readers session = some ⟨buffer, .reading⟩ ∧
      s' = s.setReader session ⟨buffer ++ [s.input], .reading⟩ := by
  rw [step, readerStep] at h
  split at h
  · rename_i buffer hreader
    exact ⟨buffer, hreader, (Option.some.inj h).symm⟩
  · cases h

theorem step_deliver (h : step (.deliver session) s = some s') :
    ∃ stream buffer, s.readers session = some ⟨stream :: buffer, .reading⟩ ∧
      s' = { s.setReader session ⟨buffer, .posting s.nextMessageSequence⟩ with
        nextMessageSequence := s.nextMessageSequence + 1
        origin := Function.update s.origin s.nextMessageSequence (some stream) } := by
  rw [step, readerStep] at h
  split at h
  · rename_i stream buffer hreader
    exact ⟨stream, buffer, hreader, (Option.some.inj h).symm⟩
  · cases h

theorem step_frameTooLarge (h : step (.frameTooLarge session) s = some s') :
    ∃ buffer phase, s.readers session = some ⟨buffer, .reading⟩ ∧ (phase = .looping ∨ phase = .overloaded true) ∧
      s' = s.setReader session ⟨buffer, phase⟩ := by
  rw [step, readerStep] at h
  split at h
  · rename_i buffer hreader
    split_ifs at h
    · exact ⟨buffer, .looping, hreader, .inl rfl, (Option.some.inj h).symm⟩
    · exact ⟨buffer, .overloaded true, hreader, .inr rfl, (Option.some.inj h).symm⟩
  · cases h

theorem step_leaveListen {stops : Bool} (h : step (.leaveListen session stops) s = some s') :
    ∃ buffer, s.readers session = some ⟨buffer, .reading⟩ ∧
      s' = { s.removeReader session with keepRunning := s.keepRunning && !stops } := by
  rw [step, readerStep] at h
  split at h
  · rename_i buffer hreader
    exact ⟨buffer, hreader, (Option.some.inj h).symm⟩
  · cases h

/-- A reader that posts a message goes on without it, hands it over, or has an overload to handle. -/
theorem step_postParseTask (h : step (.postParseTask session) s = some s') :
    ∃ buffer sequence, s.readers session = some ⟨buffer, .posting sequence⟩ ∧
      ((∃ phase, (phase = .looping ∨ phase = .dropping sequence ∨ phase = .overloaded false) ∧
          s' = s.setReader session ⟨buffer, phase⟩) ∨
        s.quit = false ∧ s' = LifecycleState.setReader
          { s with
            parseQueueSize := s.parseQueueSize + 1
            parseQueue := s.parseQueue ++ [⟨sequence, s.parsePool⟩] } session ⟨buffer, .looping⟩) := by
  rw [step, readerStep] at h
  split at h
  · rename_i buffer sequence hreader
    refine ⟨buffer, sequence, hreader, ?_⟩
    unfold postParseTask at h
    split_ifs at h with hquit
    · exact .inl ⟨.looping, .inl rfl, (Option.some.inj h).symm⟩
    · exact .inl ⟨.dropping sequence, .inr (.inl rfl), (Option.some.inj h).symm⟩
    · exact .inl ⟨.overloaded false, .inr (.inr rfl), (Option.some.inj h).symm⟩
    · simp only [Bool.or_eq_true, not_or, Bool.not_eq_true] at hquit
      exact .inr ⟨hquit.1, (Option.some.inj h).symm⟩
  · cases h

theorem submitParsedMessage_eq_some {holder : DispatchHolder} {sequence : Nat} {parsed : ParsedMessage}
    {bypass : Bool} (h : s.submitParsedMessage holder sequence parsed bypass = some s') :
    ∃ reorder items, s.reorder.submitParsedMessage s.limits sequence parsed bypass = (reorder, .ready items) ∧
      s' = { s with reorder := reorder, dispatch := some ⟨holder, none, items⟩ } := by
  rw [submitParsedMessage] at h
  split at h
  · cases h
  · rename_i reorder items hsubmitted
    exact ⟨reorder, items, hsubmitted, (Option.some.inj h).symm⟩

theorem step_dropNewest (h : step (.dropNewest session) s = some s') :
    ∃ buffer sequence, s.readers session = some ⟨buffer, .dropping sequence⟩ ∧ s.dispatch = none ∧
      (s' = s.setReader session ⟨buffer, .looping⟩ ∨
        s.quit = false ∧ ∃ reorder items,
          s.reorder.submitParsedMessage s.limits sequence {} true = (reorder, .ready items) ∧
          s' = { s.setReader session ⟨buffer, .routing⟩ with
            reorder := reorder, dispatch := some ⟨.reader session, none, items⟩ }) := by
  rw [step, readerStep] at h
  split at h
  · rename_i buffer sequence hreader
    split_ifs at h with hdispatch hquit
    · exact ⟨buffer, sequence, hreader, hdispatch, .inl (Option.some.inj h).symm⟩
    · obtain ⟨reorder, items, hsubmitted, rfl⟩ := submitParsedMessage_eq_some h
      exact ⟨buffer, sequence, hreader, hdispatch,
        .inr ⟨by simpa using hquit, reorder, items, hsubmitted, rfl⟩⟩
  · cases h

theorem step_afterOverload (h : step (.afterOverload session) s = some s') :
    ∃ buffer leaves, s.readers session = some ⟨buffer, .handled leaves⟩ ∧
      (s' = { s.removeReader session with keepRunning := false } ∨
        s' = s.setReader session ⟨buffer, .looping⟩) := by
  rw [step, readerStep] at h
  split at h
  · rename_i buffer leaves hreader
    refine ⟨buffer, leaves, hreader, ?_⟩
    split_ifs at h
    · exact .inl (Option.some.inj h).symm
    · exact .inr (Option.some.inj h).symm
  · cases h

/-! ### Parse tasks and routing -/

theorem step_parseBegins {task : ParseTask} (h : step (.parseBegins task) s = some s') :
    task ∈ s.parseQueue ∧ task.pool = s.parsePool ∧ s.parsePoolStopped = false ∧
      s' = { s with parseQueue := s.parseQueue.erase task, parsing := s.parsing ++ [task] } := by
  rw [step, routeStep] at h
  split_ifs at h with hbegins
  exact ⟨hbegins.1, hbegins.2.1, hbegins.2.2, (Option.some.inj h).symm⟩

/-- A parse task ends without a word, goes on with an overload, or routes. -/
theorem step_submit {task : ParseTask} {parsed : ParsedMessage} (h : step (.submit task parsed) s = some s') :
    task ∈ s.parsing ∧ task ∉ s.overloaded ∧ s.dispatch = none ∧
      (s' = s.endParse task ∨ s' = { s with overloaded := s.overloaded ++ [task] } ∨
        ∃ reorder items,
          s.reorder.submitParsedMessage s.limits task.sequence parsed false = (reorder, .ready items) ∧
          s' = { s with reorder := reorder, dispatch := some ⟨.parser task, none, items⟩ }) := by
  rw [step, routeStep] at h
  split_ifs at h with hsubmits hquit
  · exact ⟨hsubmits.1, hsubmits.2.1, hsubmits.2.2, .inl (Option.some.inj h).symm⟩
  · refine ⟨hsubmits.1, hsubmits.2.1, hsubmits.2.2, ?_⟩
    cases hsubmitted : s.submitParsedMessage (.parser task) task.sequence parsed false with
    | none =>
        rw [hsubmitted, Option.getD_none] at h
        exact .inr (.inl (Option.some.inj h).symm)
    | some next =>
        rw [hsubmitted, Option.getD_some] at h
        obtain ⟨reorder, items, hready, hnext⟩ := submitParsedMessage_eq_some hsubmitted
        exact .inr (.inr ⟨reorder, items, hready, (Option.some.inj h).symm.trans hnext⟩)

theorem step_takeState (h : step .takeState s = some s') :
    ∃ holder item rest current, s.dispatch = some ⟨holder, none, item :: rest⟩ ∧
      (current = none ∨ current = some (item, s.generation)) ∧
      s' = { s with dispatch := some ⟨holder, current, rest⟩ } := by
  rw [step, routeStep] at h
  split at h
  · rename_i holder item rest hdispatch
    split_ifs at h
    · exact ⟨holder, item, rest, none, hdispatch, .inl rfl, (Option.some.inj h).symm⟩
    · exact ⟨holder, item, rest, some (item, s.generation), hdispatch, .inr rfl, (Option.some.inj h).symm⟩
  · cases h

theorem step_route (h : step .route s = some s') :
    ∃ holder item state rest, s.dispatch = some ⟨holder, some (item, state), rest⟩ ∧
      s' = routeParsedIncoming { s with dispatch := some ⟨holder, none, rest⟩ } item state := by
  rw [step, routeStep] at h
  split at h
  · rename_i holder item state rest hdispatch
    split_ifs at h
    exact ⟨holder, item, state, rest, hdispatch, (Option.some.inj h).symm⟩
  · cases h

theorem step_release (h : step .release s = some s') :
    ∃ holder, s.dispatch = some ⟨holder, none, []⟩ ∧ s' = s.endDispatch holder := by
  rw [step, routeStep] at h
  split at h
  · rename_i holder hdispatch
    split_ifs at h
    exact ⟨holder, hdispatch, (Option.some.inj h).symm⟩
  · cases h

/-- The thread that has routed gives back the dispatch lock and goes on. -/
theorem endDispatch_cases (s : LifecycleState) (holder : DispatchHolder) :
    (∃ task, s.endDispatch holder = { s.endParse task with dispatch := none }) ∨
      (∃ session reader, s.readers session = some reader ∧ s.endDispatch holder =
        { s.setReader session { reader with phase := .looping } with dispatch := none }) ∨
      s.endDispatch holder = { s with dispatch := none } := by
  cases holder with
  | parser task => exact .inl ⟨task, rfl⟩
  | reader session =>
      rw [endDispatch]
      split
      · rename_i reader hreader
        exact .inr (.inl ⟨session, reader, hreader, rfl⟩)
      · exact .inr (.inr rfl)

theorem routeParsedIncoming_cases (s : LifecycleState) (item : SequencedParsedMessage) (state : Nat) :
    s.routeParsedIncoming item state = s ∨ s.routeParsedIncoming item state = { s with stuck := true } ∨
      s.routeParsedIncoming item state = s.sendSessionMessage item.sequence state ∨
      (∃ message, s.routeParsedIncoming item state = s.postToWorker ⟨item.sequence, message, state⟩) ∨
      (∃ message, s.routeParsedIncoming item state = { s with
        dispatcher := { s.dispatcher with
          hasLastOrderedNotification := true
          lastOrderedNotificationSeq := item.sequence
          notificationQueue := s.dispatcher.notificationQueue ++ [⟨item.sequence, message, state⟩] } }) ∨
      ∃ message, s.routeParsedIncoming item state = { s with
        dispatcher := { s.dispatcher with
          parkedRequests := s.dispatcher.parkedRequests ++
            [⟨s.dispatcher.lastOrderedNotificationSeq, ⟨item.sequence, message, state⟩⟩] } } := by
  have hoverload : s.overload = s ∨ s.overload = { s with stuck := true } := by
    unfold overload
    split_ifs
    · exact .inl rfl
    · exact .inr rfl
  unfold routeParsedIncoming
  split
  case h_4 message _ => exact .inr (.inr (.inl rfl))
  case h_5 message _ => exact .inr (.inr (.inr (.inl ⟨message, rfl⟩)))
  case h_6 message _ =>
    unfold OrderedDispatcher.enqueueNotification
    by_cases hstop : (s.dispatcher.notificationStop || s.quit) = true
    · rw [if_pos hstop]
      exact .inl rfl
    · rw [if_neg hstop]
      by_cases hfull : s.limits.maxNotificationQueueSize ≠ 0 ∧
          s.limits.maxNotificationQueueSize ≤ s.dispatcher.notificationQueue.length
      · simp only [if_pos hfull]
        exact hoverload.imp_right .inl
      · simp only [if_neg hfull]
        exact .inr (.inr (.inr (.inr (.inl ⟨message, rfl⟩))))
  case h_7 message _ =>
    split_ifs
    · exact .inl rfl
    · unfold OrderedDispatcher.enqueueRequest
      by_cases hgate : (!s.dispatcher.notificationStop && s.dispatcher.hasLastOrderedNotification &&
          !s.dispatcher.notificationGateSatisfied s.dispatcher.lastOrderedNotificationSeq) = true
      · rw [if_pos hgate]
        by_cases hfull : s.limits.maxParkedRequestQueueSize ≠ 0 ∧
            s.limits.maxParkedRequestQueueSize ≤ s.dispatcher.parkedRequests.length
        · simp only [if_pos hfull]
          exact hoverload.imp_right .inl
        · simp only [if_neg hfull]
          exact .inr (.inr (.inr (.inr (.inr ⟨message, rfl⟩))))
      · rw [if_neg hgate]
        exact .inr (.inr (.inr (.inl ⟨message, rfl⟩)))
  all_goals exact .inl rfl

theorem step_take (h : step (.take session) s = some s') :
    ∃ item rest, s.loops session = some .waiting ∧ s.dispatcher.notificationQueue = item :: rest ∧
      s' = { s.setLoop session (.taken item) with
        dispatcher := { s.dispatcher with notificationQueue := rest } } := by
  rw [step, loopStep] at h
  split at h
  · rename_i item rest hloop hqueue
    exact ⟨item, rest, hloop, hqueue, (Option.some.inj h).symm⟩
  · cases h

theorem step_exit (h : step (.exit session) s = some s') :
    s.loops session = some .waiting ∧ s' = { s with loops := Function.update s.loops session none } := by
  rw [step, loopStep] at h
  split_ifs at h with hexits
  exact ⟨hexits.1, (Option.some.inj h).symm⟩

theorem step_runHandler (h : step (.runHandler session) s = some s') :
    ∃ item, s.loops session = some (.taken item) ∧
      (s' = s.setLoop session (.returned item) ∨
        s' = { s.setLoop session (.handling item) with started := s.started ++ [item.sequence] }) := by
  rw [step, loopStep] at h
  split at h
  · rename_i item hloop
    refine ⟨item, hloop, ?_⟩
    split_ifs at h
    · exact .inl (Option.some.inj h).symm
    · exact .inr (Option.some.inj h).symm
  · cases h

theorem step_handlerSends (h : step (.handlerSends session) s = some s') :
    ∃ item, s.loops session = some (.handling item) ∧
      s' = s.sendSessionMessage item.sequence item.responseState := by
  rw [step, loopStep] at h
  split at h
  · rename_i item hloop
    exact ⟨item, hloop, (Option.some.inj h).symm⟩
  · cases h

theorem step_handlerReturns (h : step (.handlerReturns session) s = some s') :
    ∃ item, s.loops session = some (.handling item) ∧ s' = s.setLoop session (.returned item) := by
  rw [step, loopStep] at h
  split at h
  · rename_i item hloop
    split_ifs at h
    exact ⟨item, hloop, (Option.some.inj h).symm⟩
  · cases h

theorem step_complete (h : step (.complete session) s = some s') :
    ∃ item, s.loops session = some (.returned item) ∧
      s' = { s.setLoop session (.posting (s.dispatcher.completeNotification item.sequence).2) with
        dispatcher := (s.dispatcher.completeNotification item.sequence).1 } := by
  rw [step, loopStep] at h
  split at h
  · rename_i item hloop
    exact ⟨item, hloop, (Option.some.inj h).symm⟩
  · cases h

theorem step_postParked (h : step (.postParked session) s = some s') :
    ∃ parked rest, s.loops session = some (.posting (parked :: rest)) ∧
      s' = postToWorker (s.setLoop session (.posting rest)) parked.request := by
  rw [step, loopStep] at h
  split at h
  · rename_i parked rest hloop
    exact ⟨parked, rest, hloop, (Option.some.inj h).symm⟩
  · cases h

theorem step_wait (h : step (.wait session) s = some s') :
    s.loops session = some (.posting []) ∧ s' = s.setLoop session .waiting := by
  rw [step, loopStep] at h
  split_ifs at h with hloop
  exact ⟨hloop, (Option.some.inj h).symm⟩

variable {task : WorkerTask}

theorem step_workBegins (h : step (.workBegins task) s = some s') :
    task ∈ s.handlerQueue ∧ ∃ handling, (handling = s.handling ∨ handling = s.handling ++ [task]) ∧
      s' = { s with handlerQueue := s.handlerQueue.erase task, handling := handling } := by
  rw [step, workerStep] at h
  split_ifs at h with hbegins
  · exact ⟨hbegins.1, s.handling, .inl rfl, (Option.some.inj h).symm⟩
  · exact ⟨hbegins.1, s.handling ++ [task], .inr rfl, (Option.some.inj h).symm⟩

theorem step_workSends (h : step (.workSends task) s = some s') :
    task ∈ s.handling ∧ s' = s.sendSessionMessage task.item.sequence task.item.responseState := by
  rw [step, workerStep] at h
  split_ifs at h with htask
  exact ⟨htask, (Option.some.inj h).symm⟩

theorem step_workLater (h : step (.workLater task) s = some s') :
    task ∈ s.handling ∧ s' = s.postAsyncCompletion task.item.sequence task.item.responseState := by
  rw [step, workerStep] at h
  split_ifs at h with htask
  exact ⟨htask, (Option.some.inj h).symm⟩

theorem step_workEnds (h : step (.workEnds task) s = some s') :
    s' = { s with handling := s.handling.erase task } := by
  rw [step, workerStep] at h
  split_ifs at h
  exact (Option.some.inj h).symm

theorem step_asyncTake (h : step .asyncTake s = some s') :
    ∃ completion rest, s.asyncCompletions = completion :: rest ∧
      s' = { s with asyncRunning := some completion, asyncCompletions := rest } := by
  rw [step, workerStep] at h
  split at h
  · rename_i completion rest _ hcompletions
    split_ifs at h
    exact ⟨completion, rest, hcompletions, (Option.some.inj h).symm⟩
  · cases h

theorem step_asyncRun {ready : Bool} (h : step (.asyncRun ready) s = some s') :
    ∃ completion, s.asyncRunning = some completion ∧
      (s' = sendSessionMessage { s with asyncRunning := none } completion.1 completion.2 ∨
        s' = { s with asyncRunning := none } ∨
        s' = { s with asyncRunning := none, asyncCompletions := s.asyncCompletions ++ [completion] }) := by
  rw [step, workerStep] at h
  split at h
  · rename_i completion hrunning
    refine ⟨completion, hrunning, ?_⟩
    split_ifs at h
    · exact .inl (Option.some.inj h).symm
    · exact .inr (.inl (Option.some.inj h).symm)
    · exact .inr (.inr (Option.some.inj h).symm)
  · cases h

end LifecycleState

end LspCpp

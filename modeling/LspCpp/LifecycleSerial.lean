import LspCpp.LifecycleDrawn
import Mathlib.Data.List.Range

/-! One notification at a time, over any number of sessions. A loop that `stop` detaches, because `stop` was
called from one of its handlers, lives until it sees `notification_stop`; the next session resets that flag, and
the loop then goes on beside the new one. Where no loop is left when a session starts its own, at most one loop
is alive and the handlers are started in the order of the sequence numbers. -/

namespace LspCpp

/-- The messages that the thread which routes has still to route. -/
def Dispatch.sequences (d : Dispatch) : List Nat :=
  d.current.toList.map (fun routed => routed.1.sequence) ++ d.items.map SequencedParsedMessage.sequence

namespace LifecycleState

/-- The messages that are being routed. -/
def routing (s : LifecycleState) : List Nat := (s.dispatch.map Dispatch.sequences).getD []

/-- The notifications that wait for a loop and the messages that are being routed. -/
def line (s : LifecycleState) : List Nat :=
  s.dispatcher.notificationQueue.map DispatchItem.sequence ++ s.routing

/-- At most one loop is alive to take notifications, at most one handler runs, and the handlers were started in
increasing order of the sequence numbers. -/
structure SerialNotifications (s : LifecycleState) : Prop where
  oneLoop : ∀ session session', s.loops session ≠ none → s.loops session' ≠ none → session = session'
  oneHandler : ∀ session session' item item', s.loops session = some (.handling item) →
    s.loops session' = some (.handling item') → session = session'
  inOrder : s.started.Pairwise (· < ·)

/-- No loop of an earlier session is alive when a session starts its own. -/
def LoopsEnded (a : LifecycleAction) (s : LifecycleState) : Prop :=
  a = .advance → s.lifecycle.starts .dispatcher = true → ∀ session < s.generation, s.loops session = none

instance (a : LifecycleAction) (s : LifecycleState) : Decidable (LoopsEnded a s) :=
  inferInstanceAs (Decidable (_ → _ → ∀ session < _, _ = _))

variable {s s' : LifecycleState}

/-- What carries the serial execution: the notifications started, taken, queued and being routed are in order. -/
structure Serial (s : LifecycleState) : Prop where
  sessions : ∀ session, s.loops session ≠ none → session ≤ s.generation
  oneLoop : ∀ session session', s.loops session ≠ none → s.loops session' ≠ none → session = session'
  ordered : (s.started ++ s.line).Pairwise (· < ·)
  bounded : ∀ k ∈ s.started ++ s.line, k < s.reorder.nextRouteSequence
  taken : ∀ session item, s.loops session = some (.taken item) →
    (s.started ++ item.sequence :: s.line).Pairwise (· < ·) ∧ item.sequence < s.reorder.nextRouteSequence

/-- Most steps only let messages leave the line. -/
theorem Serial.mono (h : Serial s) (hloops : s'.loops = s.loops) (hgeneration : s.generation ≤ s'.generation)
    (hstarted : s'.started = s.started) (hline : s'.line.Sublist s.line)
    (hnext : s.reorder.nextRouteSequence ≤ s'.reorder.nextRouteSequence) : Serial s' := by
  have hall : (s'.started ++ s'.line).Sublist (s.started ++ s.line) := by
    rw [hstarted]
    exact (List.Sublist.refl _).append hline
  refine ⟨fun session hlive => ?_, ?_, h.ordered.sublist hall, fun k hk => ?_, fun session item hloop => ?_⟩
  · rw [hloops] at hlive
    exact (h.sessions session hlive).trans hgeneration
  · rw [hloops]
    exact h.oneLoop
  · exact (h.bounded k (hall.subset hk)).trans_le hnext
  · rw [hloops] at hloop
    obtain ⟨hordered, hbound⟩ := h.taken session item hloop
    refine ⟨hordered.sublist ?_, hbound.trans_le hnext⟩
    rw [hstarted]
    exact (List.Sublist.refl _).append (hline.cons_cons _)

theorem loops_of_setLoop {session session' : Nat} {phase : NotificationLoopPhase} (hlive : s.loops session ≠ none)
    (h : (s.setLoop session phase).loops session' ≠ none) : s.loops session' ≠ none := by
  obtain ⟨phase', hphase⟩ := Option.ne_none_iff_exists'.mp h
  rcases Table.update_eq_some hphase with ⟨rfl, _⟩ | ⟨_, hold⟩
  · exact hlive
  · rw [hold]
    exact Option.some_ne_none _

/-- A loop goes on. -/
theorem Serial.setLoop (h : Serial s) {session : Nat} {phase : NotificationLoopPhase}
    (hlive : s.loops session ≠ none)
    (htaken : ∀ item, phase = .taken item → (s.started ++ item.sequence :: s.line).Pairwise (· < ·) ∧
      item.sequence < s.reorder.nextRouteSequence) : Serial (s.setLoop session phase) := by
  refine { h with
    sessions := fun session' hlive' => h.sessions session' (loops_of_setLoop hlive hlive')
    oneLoop := fun session' session'' h' h'' =>
      h.oneLoop session' session'' (loops_of_setLoop hlive h') (loops_of_setLoop hlive h'')
    taken := fun session' item hloop => ?_ }
  rcases Table.update_eq_some hloop with ⟨_, heq⟩ | ⟨_, hold⟩
  · exact htaken item (Option.some.inj heq)
  · exact h.taken session' item hold

/-- The first notification of the queue goes from the line into the hand of the only loop. -/
theorem Serial.take (h : Serial s) {session : Nat} {item : DispatchItem} {rest : List DispatchItem}
    (hloop : s.loops session = some .waiting) (hqueue : s.dispatcher.notificationQueue = item :: rest) :
    Serial { s.setLoop session (.taken item) with
      dispatcher := { s.dispatcher with notificationQueue := rest } } := by
  have hline : s.line = item.sequence :: (rest.map DispatchItem.sequence ++ s.routing) := by
    rw [line, hqueue]
    rfl
  have hleft : Serial { s with dispatcher := { s.dispatcher with notificationQueue := rest } } := by
    refine h.mono rfl (Nat.le_refl _) rfl ?_ (Nat.le_refl _)
    rw [hline]
    exact List.sublist_cons_self _ _
  have hordered := h.ordered
  have hbounded := h.bounded
  rw [hline] at hordered hbounded
  have htaken : Serial (LifecycleState.setLoop
      { s with dispatcher := { s.dispatcher with notificationQueue := rest } } session (.taken item)) := by
    refine hleft.setLoop (by rw [hloop]; exact Option.some_ne_none _) fun _ heq => ?_
    cases heq
    exact ⟨hordered, hbounded _ (List.mem_append_right _ List.mem_cons_self)⟩
  exact { htaken with }

/-- The handler of the notification in hand is started. -/
theorem Serial.runHandler (h : Serial s) {session : Nat} {item : DispatchItem}
    (hloop : s.loops session = some (.taken item)) :
    Serial { s.setLoop session (.handling item) with started := s.started ++ [item.sequence] } := by
  have hlive : s.loops session ≠ none := by rw [hloop]; exact Option.some_ne_none _
  have hset : Serial (s.setLoop session (.handling item)) := h.setLoop hlive fun _ heq => by cases heq
  obtain ⟨hordered, hbound⟩ := h.taken session item hloop
  have hsame : (s.started ++ [item.sequence]) ++ s.line = s.started ++ item.sequence :: s.line := by simp
  refine { hset with ordered := hsame ▸ hordered, bounded := fun k hk => ?_, taken := fun session' item' hloop' => ?_ }
  · have hk' : k ∈ s.started ++ item.sequence :: s.line := hsame ▸ hk
    rcases List.mem_append.mp hk' with hstarted | hrest
    · exact h.bounded k (List.mem_append_left _ hstarted)
    · rcases List.mem_cons.mp hrest with rfl | hline
      · exact hbound
      · exact h.bounded k (List.mem_append_right _ hline)
  · rcases Table.update_eq_some hloop' with ⟨_, heq⟩ | ⟨hne, hold⟩
    · cases heq
    · refine absurd (h.oneLoop session' session ?_ hlive) hne
      rw [hold]
      exact Option.some_ne_none _

/-- A loop ends. -/
theorem Serial.exit (h : Serial s) (session : Nat) :
    Serial { s with loops := Function.update s.loops session none } := by
  have hold : ∀ session' phase, Function.update s.loops session none session' = some phase →
      s.loops session' = some phase := by
    intro session' phase hphase
    rcases Table.update_eq_some hphase with ⟨_, heq⟩ | ⟨_, hold⟩
    · cases heq
    · exact hold
  have hlive : ∀ session', Function.update s.loops session none session' ≠ none → s.loops session' ≠ none := by
    intro session' hne
    obtain ⟨phase, hphase⟩ := Option.ne_none_iff_exists'.mp hne
    rw [hold session' phase hphase]
    exact Option.some_ne_none _
  exact ⟨fun session' h' => h.sessions session' (hlive session' h'), fun session' session'' h' h'' =>
    h.oneLoop session' session'' (hlive session' h') (hlive session'' h''), h.ordered, h.bounded,
    fun session' item hloop => h.taken session' item (hold session' _ hloop)⟩

/-- A session starts its loop where no earlier one is left. -/
theorem Serial.spawnLoop (h : Serial s) (hended : ∀ session < s.generation, s.loops session = none)
    (caller : Caller) : Serial (s.spawnLoop caller) := by
  have hlive : ∀ session phase, (s.spawnLoop caller).loops session = some phase →
      session = s.generation ∧ phase = .waiting := by
    intro session phase hphase
    rcases Table.update_eq_some hphase with ⟨hsession, heq⟩ | ⟨hne, hold⟩
    · exact ⟨hsession, (Option.some.inj heq).symm⟩
    · have hlive : s.loops session ≠ none := by rw [hold]; exact Option.some_ne_none _
      have hle := h.sessions session hlive
      exact absurd (hended session (Nat.lt_of_le_of_ne hle hne)) hlive
  have hsub : (s.spawnLoop caller).line.Sublist s.line := List.sublist_append_right _ _
  refine ⟨fun session hne => ?_, fun session session' hne hne' => ?_,
    h.ordered.sublist ((List.Sublist.refl _).append hsub),
    fun k hk => h.bounded k (((List.Sublist.refl _).append hsub).subset hk), fun session item hloop => ?_⟩
  · obtain ⟨phase, hphase⟩ := Option.ne_none_iff_exists'.mp hne
    exact Nat.le_of_eq (hlive session phase hphase).1
  · obtain ⟨phase, hphase⟩ := Option.ne_none_iff_exists'.mp hne
    obtain ⟨phase', hphase'⟩ := Option.ne_none_iff_exists'.mp hne'
    rw [(hlive session phase hphase).1, (hlive session' phase' hphase').1]
  · cases (hlive session _ hloop).2

theorem pairwise_append_range {l : List Nat} {n : Nat} (hl : l.Pairwise (· < ·)) (hn : ∀ k ∈ l, k < n)
    (count : Nat) : (l ++ List.range' n count).Pairwise (· < ·) := by
  refine List.pairwise_append.mpr ⟨hl, List.pairwise_lt_range', fun a ha b hb => ?_⟩
  exact (hn a ha).trans_le (List.mem_range'_1.mp hb).1

/-- A message that is submitted brings the ready ones to the end of the line. -/
theorem Serial.submit (h : Serial s) (hdispatch : s.dispatch = none) {sequence : Nat} {reorder : Reorder}
    {items : List SequencedParsedMessage} (hadvances : Reorder.Advances s.reorder reorder sequence items)
    (holder : DispatchHolder) : Serial { s with reorder := reorder, dispatch := some ⟨holder, none, items⟩ } := by
  have hnext := hadvances.next
  have hline : line { s with reorder := reorder, dispatch := some ⟨holder, none, items⟩ } =
      s.line ++ List.range' s.reorder.nextRouteSequence items.length := by
    rw [← hadvances.sequences, line, line, routing, routing, hdispatch]
    simp [Dispatch.sequences]
  refine ⟨h.sessions, h.oneLoop, ?_, fun k hk => ?_, fun session item hloop => ?_⟩
  · rw [hline, ← List.append_assoc]
    exact pairwise_append_range h.ordered h.bounded _
  · rw [hline, ← List.append_assoc] at hk
    dsimp only
    rcases List.mem_append.mp hk with hold | hnew
    · have := h.bounded k hold
      omega
    · have := (List.mem_range'_1.mp hnew).2
      omega
  · obtain ⟨hordered, hbound⟩ := h.taken session item hloop
    refine ⟨?_, by dsimp only; omega⟩
    rw [hline, ← List.cons_append, ← List.append_assoc]
    refine pairwise_append_range hordered (fun k hk => ?_) _
    rcases List.mem_append.mp hk with hstarted | hrest
    · exact h.bounded k (List.mem_append_left _ hstarted)
    · rcases List.mem_cons.mp hrest with rfl | hmem
      · exact hbound
      · exact h.bounded k (List.mem_append_right _ hmem)

/-- The message that is routed leaves the line, or goes to the end of the queue. -/
theorem Serial.route (h : Serial s) {holder : DispatchHolder} {item : SequencedParsedMessage} {state : Nat}
    {rest : List SequencedParsedMessage} (hdispatch : s.dispatch = some ⟨holder, some (item, state), rest⟩) :
    Serial (routeParsedIncoming { s with dispatch := some ⟨holder, none, rest⟩ } item state) := by
  have hline : s.line = s.dispatcher.notificationQueue.map DispatchItem.sequence ++
      item.sequence :: rest.map SequencedParsedMessage.sequence := by
    rw [line, routing, hdispatch]
    rfl
  have hleft : Serial { s with dispatch := some ⟨holder, none, rest⟩ } := by
    refine h.mono rfl (Nat.le_refl _) rfl ?_ (Nat.le_refl _)
    rw [hline]
    exact (List.Sublist.refl _).append (List.sublist_cons_self _ _)
  rcases routeParsedIncoming_cases { s with dispatch := some ⟨holder, none, rest⟩ } item state with
    heq | heq | heq | ⟨_, heq⟩ | ⟨message, heq⟩ | ⟨_, heq⟩ <;> rw [heq]
  · exact hleft
  · exact { hleft with }
  · rcases sendSessionMessage_cases { s with dispatch := some ⟨holder, none, rest⟩ } item.sequence state with
      hsend | hsend <;> rw [hsend]
    · exact hleft
    · exact { hleft with }
  · rcases postToWorker_cases { s with dispatch := some ⟨holder, none, rest⟩ } _ with hpost | hpost <;> rw [hpost]
    · exact hleft
    · exact { hleft with }
  · refine h.mono rfl (Nat.le_refl _) rfl ?_ (Nat.le_refl _)
    rw [hline, line, routing]
    simp [Dispatch.sequences]
  · exact hleft.mono rfl (Nat.le_refl _) rfl (List.Sublist.refl _) (Nat.le_refl _)

theorem Serial.resume (h : Serial s) (caller : Caller) : Serial (s.resume caller) := by
  rcases s.resume_cases caller with heq | ⟨_, _, _, _, _, heq⟩ | ⟨_, _, heq⟩ <;> rw [heq]
  · exact h
  · exact { h with }
  · exact { h with }

theorem Serial.startStep (h : Serial s) (hdrawn : Drawn s) {caller : Caller} {phase : StartPhase}
    (hok : phase = .dispatcher → ∀ session < s.generation, s.loops session = none)
    (hstep : s.startStep caller phase = some s') : Serial s' := by
  cases phase with
  | output =>
      cases hstep
      exact { h with sessions := fun session hlive => Nat.le_succ_of_le (h.sessions session hlive) }
  | joinParsers | joinWorkers =>
      obtain ⟨_, rfl⟩ := Transition.of_guard hstep
      exact { h with }
  | dispatcher =>
      obtain rfl | ⟨_, _, _, rfl⟩ := startStep_dispatcher hstep
      · exact h.spawnLoop (hok rfl) caller
      · exact h.mono rfl (Nat.le_refl _) rfl (List.sublist_append_right _ _) (Nat.le_refl _)
  | routing =>
      obtain ⟨_, rfl⟩ := Transition.of_guard hstep
      exact h.mono rfl (Nat.le_refl _) rfl (List.Sublist.refl _) hdrawn.routed
  | async | bind | parsePool | handlerPool | reader =>
      cases hstep
      exact { h with }

theorem Serial.stopStep (h : Serial s) {caller : Caller} {phase : ClearPhase}
    (hstep : s.stopStep caller phase = some s') : Serial s' := by
  cases phase with
  | routing =>
      obtain ⟨_, rfl⟩ := Transition.of_guard hstep
      exact h.mono rfl (Nat.le_refl _) rfl (List.Sublist.refl _) (Nat.le_refl _)
  | dispatcher =>
      cases hstep
      exact h.mono rfl (Nat.le_refl _) rfl (List.sublist_append_right _ _) (Nat.le_refl _)
  | joinLoop => rw [stopStep_joinLoop hstep]; exact { h with }
  | joinAsync =>
      obtain ⟨_, rfl⟩ := Transition.of_guard hstep
      exact { h with }
  | joinReader => rw [(stopStep_joinReader hstep).2]; exact { h with }
  | finish =>
      cases hstep
      have hfree : Serial { s with lifecycle := .free, messageProducerThread := none, working := false } :=
        { h with }
      exact hfree.resume caller
  | quit | producer | output | async | pools =>
      cases hstep
      exact { h with }

theorem Serial.routeStep (h : Serial s) {a : LifecycleAction} (hstep : LifecycleState.routeStep a s = some s') :
    Serial s' := by
  cases a with
  | parseBegins task =>
      obtain ⟨_, _, _, rfl⟩ := step_parseBegins hstep
      exact { h with }
  | submit task parsed =>
      obtain ⟨_, _, hdispatch, rfl | rfl | ⟨reorder, items, hsubmitted, rfl⟩⟩ := step_submit hstep
      · exact { h with }
      · exact { h with }
      · exact h.submit hdispatch (Reorder.submitParsedMessage_advances hsubmitted) _
  | takeState =>
      obtain ⟨holder, item, rest, current, hdispatch, hcurrent, rfl⟩ := step_takeState hstep
      refine h.mono rfl (Nat.le_refl _) rfl ?_ (Nat.le_refl _)
      unfold line routing
      rw [hdispatch]
      refine (List.Sublist.refl _).append ?_
      rcases hcurrent with rfl | rfl
      · exact List.sublist_cons_self _ _
      · exact List.Sublist.refl _
  | route =>
      obtain ⟨holder, item, state, rest, hdispatch, rfl⟩ := step_route hstep
      exact h.route hdispatch
  | release =>
      obtain ⟨holder, hdispatch, rfl⟩ := step_release hstep
      have hline : line { s with dispatch := none } = s.line := by
        unfold line routing
        rw [hdispatch]
        rfl
      rcases s.endDispatch_cases holder with ⟨_, heq⟩ | ⟨_, _, _, heq⟩ | heq <;> rw [heq]
      all_goals exact h.mono rfl (Nat.le_refl _) rfl (hline ▸ List.Sublist.refl _) (Nat.le_refl _)
  | _ => cases hstep

theorem Serial.loopStep (h : Serial s) {a : LifecycleAction} (hstep : LifecycleState.loopStep a s = some s') :
    Serial s' := by
  cases a with
  | take session =>
      obtain ⟨item, rest, hloop, hqueue, rfl⟩ := step_take hstep
      exact h.take hloop hqueue
  | exit session => obtain ⟨_, rfl⟩ := step_exit hstep; exact h.exit session
  | runHandler session =>
      obtain ⟨item, hloop, rfl | rfl⟩ := step_runHandler hstep
      · exact h.setLoop (by rw [hloop]; exact Option.some_ne_none _) fun _ heq => by cases heq
      · exact h.runHandler hloop
  | handlerSends session =>
      obtain ⟨item, _, rfl⟩ := step_handlerSends hstep
      rcases s.sendSessionMessage_cases item.sequence item.responseState with heq | heq <;> rw [heq]
      · exact h
      · exact { h with }
  | handlerReturns session =>
      obtain ⟨item, hloop, rfl⟩ := step_handlerReturns hstep
      exact h.setLoop (by rw [hloop]; exact Option.some_ne_none _) fun _ heq => by cases heq
  | complete session =>
      obtain ⟨item, hloop, rfl⟩ := step_complete hstep
      have hposting : Serial (s.setLoop session
          (.posting (s.dispatcher.completeNotification item.sequence).2)) :=
        h.setLoop (by rw [hloop]; exact Option.some_ne_none _) fun _ heq => by cases heq
      exact hposting.mono rfl (Nat.le_refl _) rfl (List.Sublist.refl _) (Nat.le_refl _)
  | postParked session =>
      obtain ⟨parked, rest, hloop, rfl⟩ := step_postParked hstep
      have hposting : Serial (s.setLoop session (.posting rest)) :=
        h.setLoop (by rw [hloop]; exact Option.some_ne_none _) fun _ heq => by cases heq
      rcases (s.setLoop session (.posting rest)).postToWorker_cases parked.request with heq | heq <;> rw [heq]
      · exact hposting
      · exact { hposting with }
  | wait session =>
      obtain ⟨hloop, rfl⟩ := step_wait hstep
      exact h.setLoop (by rw [hloop]; exact Option.some_ne_none _) fun _ heq => by cases heq
  | _ => cases hstep

theorem Serial.step (h : Serial s) (hdrawn : Drawn s) {a : LifecycleAction} (hok : LoopsEnded a s)
    (hstep : LifecycleState.step a s = some s') : Serial s' := by
  cases a with
  | start caller => obtain ⟨_, _, rfl⟩ := step_start hstep; exact { h with }
  | stop caller =>
      obtain ⟨_, _, rfl | ⟨_, _, rfl⟩⟩ := step_stop hstep
      · exact { h with }
      · exact h.resume caller
  | advance =>
      obtain ⟨caller, phase, hlifecycle, hstart⟩ | ⟨_, _, _, hstop⟩ := step_advance hstep
      · refine h.startStep hdrawn (fun hphase => hok rfl ?_) hstart
        rw [hlifecycle, hphase]
        rfl
      · exact h.stopStep hstop
  | dropNewest session =>
      obtain ⟨buffer, sequence, _, hdispatch, rfl | ⟨_, reorder, items, hsubmitted, rfl⟩⟩ := step_dropNewest hstep
      · exact { h with }
      · have hrouting : Serial (s.setReader session ⟨buffer, .routing⟩) :=
          { h with }
        exact hrouting.submit hdispatch (Reorder.submitParsedMessage_advances hsubmitted) _
  | enterListen _ | checkRunning _ | receive _ | deliver _ | frameTooLarge _ | leaveListen _ _ | postParseTask _
  | afterOverload _ =>
      rw [LifecycleState.step] at hstep
      obtain ⟨_, _, _, _, _, _, rfl⟩ := readerStep_frame hstep fun _ heq => by cases heq
      exact { h with }
  | parseBegins _ | submit _ _ | takeState | route | release =>
      rw [LifecycleState.step] at hstep
      exact h.routeStep hstep
  | take _ | exit _ | runHandler _ | handlerSends _ | handlerReturns _ | complete _ | postParked _ | wait _ =>
      rw [LifecycleState.step] at hstep
      exact h.loopStep hstep
  | workBegins _ | workSends _ | workLater _ | workEnds _ | asyncTake | asyncRun _ =>
      rw [LifecycleState.step] at hstep
      obtain ⟨_, _, _, _, _, rfl⟩ := workerStep_frame hstep
      exact { h with }

/-- **Notifications are executed one at a time and in order, over any number of sessions**, in every run in which
no session starts its notification loop while the loop of an earlier one is alive. -/
theorem serialNotifications_of_loopsEnded (s : LifecycleState) (hs : lifecycleSystem.ReachableIf LoopsEnded s) :
    SerialNotifications s := by
  have hserial : Serial s := by
    refine hs.invariant_of Drawn Serial (fun _ => reachable_drawn) ?_
      fun a s s' hdrawn h hok hstep => h.step hdrawn hok hstep
    rintro s ⟨limits, concurrentNotifications, rfl⟩
    refine ⟨fun _ hlive => absurd rfl hlive, fun _ _ hlive => absurd rfl hlive, List.Pairwise.nil, ?_, ?_⟩
    · exact fun _ hk => by cases hk
    · exact fun _ _ hloop => by cases hloop
  have hlive : ∀ session item, s.loops session = some (.handling item) → s.loops session ≠ none := by
    intro session item hloop
    rw [hloop]
    exact Option.some_ne_none _
  exact ⟨hserial.oneLoop, fun session session' item item' hloop hloop' =>
    hserial.oneLoop session session' (hlive session item hloop) (hlive session' item' hloop'),
    hserial.ordered.sublist (List.sublist_append_left _ _)⟩

/-- A call of `startProcessingMessages` with nothing in its way. -/
def startCall (caller : Caller) : List LifecycleAction := .start caller :: List.replicate 10 .advance

/-- A message that is read, parsed and routed with nothing in its way. -/
def messageCall (session sequence : Nat) (parsed : ParsedMessage) : List LifecycleAction :=
  [.checkRunning session, .receive session, .deliver session, .postParseTask session,
    .parseBegins ⟨sequence, session⟩, .submit ⟨sequence, session⟩ parsed, .takeState, .route, .release]

/-- A notification that is executed in order. -/
def orderedNotification : ParsedMessage :=
  { ok := true, message := some ⟨.notification, "textDocument/didChange", .kNone⟩ }

/-- A session whose handler calls `stop`: the loop of that handler is detached. -/
def stopFromHandlerRun : List LifecycleAction :=
  startCall .application ++ .enterListen 1 :: messageCall 1 0 orderedNotification ++
    [.take 1, .runHandler 1, .stop (.loop 1)] ++ List.replicate 9 .advance ++ .checkRunning 1 ::
      List.replicate 2 .advance

/-- The detached loop ends before the next session starts its own. -/
def restartAfterLoopRun : List LifecycleAction :=
  stopFromHandlerRun ++ [.handlerReturns 1, .complete 1, .wait 1, .exit 1] ++ startCall .application ++
    .enterListen 2 :: messageCall 2 1 orderedNotification ++ [.take 2, .runHandler 2]

theorem serialNotifications_of_loopsEnded_restart :
    ∃ s, lifecycleSystem.runIf LoopsEnded restartAfterLoopRun {} = some s ∧ s.generation = 2 ∧
      s.started = [0, 1] ∧ SerialNotifications s := by
  refine ⟨_, rfl, rfl, rfl, ?_⟩
  exact serialNotifications_of_loopsEnded _
    (Transition.System.reachableIf_of_runIf restartAfterLoopRun (.init ⟨{}, [], rfl⟩) rfl)

/-- The handler calls `startProcessingMessages` as well: the detached loop goes on beside the new one. -/
def restartFromHandlerRun : List LifecycleAction :=
  stopFromHandlerRun ++ startCall (.loop 1) ++ .enterListen 2 :: messageCall 2 1 orderedNotification ++
    messageCall 2 2 orderedNotification ++
      [.handlerReturns 1, .complete 1, .wait 1, .take 1, .take 2, .runHandler 2, .runHandler 1]

/-- Two loops execute notifications of the second session at once, and the later one was started first. -/
theorem restartFromHandlerRun_not_serial :
    ∃ s, lifecycleSystem.run restartFromHandlerRun {} = some s ∧ s.generation = 2 ∧ s.started = [0, 2, 1] ∧
      ¬SerialNotifications s := by
  refine ⟨_, rfl, rfl, rfl, fun hserial => ?_⟩
  have hsame : (1 : Nat) = 2 := hserial.oneLoop 1 2 (by decide) (by decide)
  omega

end LifecycleState

end LspCpp

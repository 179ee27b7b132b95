import LspCpp.LifecycleDrawn
import LspCpp.LifecycleReaders

/-! The messages that are on their way to be routed, and the sessions from whose streams they came. Where no parse
task of an earlier session is executing when a session installs its output state, everything that is parsed,
buffered or about to be routed came from the stream of the current session. -/

namespace LspCpp

namespace LifecyclePhase

/-- The new output state is in place and no reader of the new session. -/
def quiet : LifecyclePhase → Bool
  | .starting _ .output => false
  | phase => phase.isStarting

/-- The new output state is in place and the reorder buffer has not been reset. -/
def renewing : LifecyclePhase → Bool
  | .starting _ .reader => false
  | phase => phase.quiet

theorem renewing_of_quiet {phase : LifecyclePhase} (h : phase.quiet = false) : phase.renewing = false := by
  cases phase with
  | free => rfl
  | stopping _ _ => rfl
  | starting _ current => cases current <;> first | rfl | cases h

end LifecyclePhase

namespace LifecycleState

/-- No parse task is executing when a session installs its output state, and no reader of an earlier session is
alive when a reader enters `listen`. -/
def EarlierEnded (a : LifecycleAction) (s : LifecycleState) : Prop :=
  (a = .advance → s.lifecycle.starts .output = true → s.parsing = []) ∧ ReadersEnded a s

variable {s s' : LifecycleState}

/-- The parse task that routes is executing and not in `handleOverload`; one that calls `stop` is. -/
structure ParserHolds (s : LifecycleState) : Prop where
  holder : ∀ d task, s.dispatch = some d → d.holder = .parser task → task ∈ s.parsing ∧ task ∉ s.overloaded
  caller : ∀ task phase, s.lifecycle = .stopping (.parser task) phase → task ∈ s.overloaded

/-- The caller of `stop` goes on; a parse task ends. -/
theorem ParserHolds.resume (h : ParserHolds s) {caller : Caller} (hfree : s.lifecycle = .free)
    (hcaller : ∀ task, caller = .parser task → task ∈ s.overloaded) : ParserHolds (s.resume caller) := by
  rcases s.resume_cases caller with heq | ⟨_, _, _, _, _, heq⟩ | ⟨task, hparser, heq⟩ <;> rw [heq]
  · exact h
  · exact { h with }
  · refine ⟨fun d other hd hholder => ?_, fun _ _ hstopping => ?_⟩
    · obtain ⟨hmem, hnot⟩ := h.holder d other hd hholder
      have hne : other ≠ task := by
        rintro rfl
        exact hnot (hcaller other hparser)
      exact ⟨(List.mem_erase_of_ne hne).mpr hmem, fun hover => hnot (List.mem_of_mem_erase hover)⟩
    · cases hfree.symm.trans hstopping

theorem ParserHolds.lifecycleStep (h : ParserHolds s) {a : LifecycleAction}
    (hstep : LifecycleState.lifecycleStep a s = some s') : ParserHolds s' := by
  rcases lifecycleStep_cases hstep with ⟨caller, _, _, rfl⟩ | ⟨caller, hfree, hmay, rfl | rfl⟩ |
    ⟨caller, phase, _, hlifecycle, hstart⟩ | ⟨caller, phase, hlifecycle, hstop⟩
  · exact { h with caller := fun _ _ heq => by cases heq }
  · refine ⟨h.holder, fun task phase heq => ?_⟩
    cases heq
    exact of_decide_eq_true hmay
  · refine h.resume hfree fun task heq => ?_
    rw [heq] at hmay
    exact of_decide_eq_true hmay
  · cases phase with
    | output | async | bind | parsePool | handlerPool | reader =>
        cases hstart
        exact { h with caller := fun _ _ heq => by cases heq }
    | joinParsers | joinWorkers | routing =>
        obtain ⟨_, rfl⟩ := Transition.of_guard hstart
        exact { h with caller := fun _ _ heq => by cases heq }
    | dispatcher =>
        obtain rfl | ⟨_, _, _, rfl⟩ := startStep_dispatcher hstart
        all_goals exact { h with caller := fun _ _ heq => by cases heq }
  · have hstopping : ∀ task phase' phase'',
        LifecyclePhase.stopping caller phase' = .stopping (.parser task) phase'' → task ∈ s.overloaded := by
      intro task phase' phase'' heq
      cases heq
      exact h.caller task phase hlifecycle
    cases phase with
    | quit | producer | output | dispatcher | async | pools =>
        cases hstop
        exact { h with caller := fun task phase' => hstopping task _ phase' }
    | routing | joinAsync =>
        obtain ⟨_, rfl⟩ := Transition.of_guard hstop
        exact { h with caller := fun task phase' => hstopping task _ phase' }
    | joinLoop =>
        rw [stopStep_joinLoop hstop]
        exact { h with caller := fun task phase' => hstopping task _ phase' }
    | joinReader =>
        rw [(stopStep_joinReader hstop).2]
        exact { h with caller := fun task phase' => hstopping task _ phase' }
    | finish =>
        cases hstop
        have hdone : ParserHolds { s with lifecycle := .free, messageProducerThread := none, working := false } :=
          { h with caller := fun _ _ heq => by cases heq }
        refine hdone.resume rfl fun task heq => h.caller task .finish ?_
        rw [hlifecycle, heq]

theorem ParserHolds.routeStep (h : ParserHolds s) {a : LifecycleAction}
    (hstep : LifecycleState.routeStep a s = some s') : ParserHolds s' := by
  cases a with
  | parseBegins task =>
      obtain ⟨_, _, _, rfl⟩ := step_parseBegins hstep
      refine { h with holder := fun d task' hd hholder => ?_ }
      obtain ⟨hmem, hfree⟩ := h.holder d task' hd hholder
      exact ⟨List.mem_append_left _ hmem, hfree⟩
  | submit task parsed =>
      obtain ⟨htask, hfree, hdispatch, rfl | rfl | ⟨reorder, items, _, rfl⟩⟩ := step_submit hstep
      · refine ⟨fun d _ hd => ?_, h.caller⟩
        cases hdispatch.symm.trans hd
      · refine ⟨fun d _ hd => ?_, fun other phase heq => List.mem_append_left _ (h.caller other phase heq)⟩
        cases hdispatch.symm.trans hd
      · refine ⟨fun d other hd hholder => ?_, h.caller⟩
        cases hd
        cases hholder
        exact ⟨htask, hfree⟩
  | takeState =>
      obtain ⟨holder, item, rest, current, hdispatch, _, rfl⟩ := step_takeState hstep
      refine ⟨fun d task hd hholder => ?_, h.caller⟩
      cases hd
      exact h.holder _ task hdispatch hholder
  | route =>
      obtain ⟨holder, item, state, rest, hdispatch, rfl⟩ := step_route hstep
      have hleft : ParserHolds { s with dispatch := some ⟨holder, none, rest⟩ } := by
        refine ⟨fun d task hd hholder => ?_, h.caller⟩
        cases hd
        exact h.holder _ task hdispatch hholder
      obtain ⟨_, _, _, _, heq⟩ :=
        routeParsedIncoming_frame { s with dispatch := some ⟨holder, none, rest⟩ } item state
      rw [heq]
      exact { hleft with }
  | release =>
      obtain ⟨holder, _, rfl⟩ := step_release hstep
      rcases s.endDispatch_cases holder with ⟨_, heq⟩ | ⟨_, _, _, heq⟩ | heq <;> rw [heq]
      all_goals
        refine ⟨?_, h.caller⟩
        exact fun _ _ hd => by cases hd
  | _ => cases hstep

theorem ParserHolds.step (h : ParserHolds s) {a : LifecycleAction} (hstep : LifecycleState.step a s = some s') :
    ParserHolds s' := by
  rcases step_kinds hstep with hlife | hread | hroute | hloop | hwork
  · exact h.lifecycleStep hlife
  · by_cases hdrops : ∃ session, a = .dropNewest session
    · obtain ⟨session, rfl⟩ := hdrops
      obtain ⟨_, _, _, _, rfl | ⟨_, _, _, _, rfl⟩⟩ := step_dropNewest hread
      · exact { h with }
      · refine ⟨fun d task hd hholder => ?_, h.caller⟩
        cases hd
        cases hholder
    · obtain ⟨_, _, _, _, _, _, rfl⟩ := readerStep_frame hread fun session heq => hdrops ⟨session, heq⟩
      exact { h with }
  · exact h.routeStep hroute
  · obtain ⟨_, _, _, _, _, rfl⟩ := loopStep_frame hloop
    exact { h with }
  · obtain ⟨_, _, _, _, _, rfl⟩ := workerStep_frame hwork
    exact { h with }

theorem reachable_parserHolds {ok : LifecycleAction → LifecycleState → Prop}
    (hs : lifecycleSystem.ReachableIf ok s) : ParserHolds s := by
  refine hs.invariant ParserHolds ?_ fun a s s' h _ hstep => h.step hstep
  rintro s ⟨limits, concurrentNotifications, rfl⟩
  refine ⟨?_, ?_⟩
  · exact fun _ _ hd => by cases hd
  · exact fun _ _ heq => by cases heq

/-! ### Where the messages came from -/

/-- Every message that is about before routing came from the session that is to answer it. -/
structure Sources (s : LifecycleState) : Prop where
  fresh : ∀ k, s.nextMessageSequence ≤ k → s.origin k = none
  reading : ∀ session reader k, s.readers session = some reader → reader.phase.sequence = some k →
    s.origin k = some session
  queued : ∀ task ∈ s.parseQueue, s.origin task.sequence = some task.pool ∧ task.pool ≤ s.generation
  parsing : ∀ task ∈ s.parsing, s.origin task.sequence = some s.generation
  buffered : s.lifecycle.renewing = false → ∀ k ∈ s.reorder.reorderBuffer, s.origin k = some s.generation
  items : ∀ d, s.dispatch = some d → ∀ item ∈ d.items, s.origin item.sequence = some s.generation
  quiet : s.lifecycle.quiet = true →
    s.parsing = [] ∧ s.dispatch = none ∧ ∀ task ∈ s.parseQueue, task.pool < s.generation

/-- A call of `startProcessingMessages` or `stop` comes to its next statement, and nothing else changes for the
messages. -/
theorem Sources.moved {phase phase' : LifecyclePhase} (hphase : s.lifecycle = phase) (hphase' : s'.lifecycle = phase')
    (hrenewing : phase'.renewing = phase.renewing) (hquiet : phase'.quiet = phase.quiet)
    (h : Sources { s' with lifecycle := s.lifecycle }) : Sources s' := by
  refine { h with buffered := fun hfalse => h.buffered ?_, quiet := fun htrue => h.quiet ?_ }
  · rw [hphase', hrenewing, ← hphase] at hfalse
    exact hfalse
  · rw [hphase', hquiet, ← hphase] at htrue
    exact htrue

/-- The thread that routes comes to a next message, or ends. -/
theorem Sources.setDispatch (h : Sources s) {d : Dispatch} (hd : s.dispatch = some d) {dispatch : Option Dispatch}
    (hitems : ∀ d', dispatch = some d' → d'.items ⊆ d.items) : Sources { s with dispatch := dispatch } := by
  refine { h with items := fun d' hd' item hitem => h.items d hd item (hitems d' hd' hitem), quiet := fun hquiet => ?_ }
  cases (h.quiet hquiet).2.1.symm.trans hd

theorem Sources.setReader (h : Sources s) {session : Nat} {reader : Reader}
    (hreader : ∀ k, reader.phase.sequence = some k → s.origin k = some session) :
    Sources (s.setReader session reader) := by
  refine ⟨h.fresh, fun session' reader' k hreader' hk => ?_, h.queued, h.parsing, h.buffered, h.items, h.quiet⟩
  rcases Table.update_eq_some hreader' with ⟨rfl, heq⟩ | ⟨_, hold⟩
  · cases heq
    exact hreader k hk
  · exact h.reading session' reader' k hold hk

/-- A reader that holds no sequence. -/
theorem Sources.idleReader (h : Sources s) {session : Nat} {reader : Reader} (hidle : reader.phase.sequence = none) :
    Sources (s.setReader session reader) := by
  refine h.setReader fun k hk => ?_
  cases hidle.symm.trans hk

theorem Sources.removeReader (h : Sources s) (session : Nat) : Sources (s.removeReader session) := by
  refine ⟨h.fresh, fun session' reader' k hreader' hk => ?_, h.queued, h.parsing, h.buffered, h.items, h.quiet⟩
  rcases Table.update_eq_some hreader' with ⟨_, heq⟩ | ⟨_, hold⟩
  · cases heq
  · exact h.reading session' reader' k hold hk

theorem Sources.endParse (h : Sources s) (task : ParseTask) : Sources (s.endParse task) := by
  refine { h with
    parsing := fun other hother => h.parsing other (List.mem_of_mem_erase hother), quiet := fun hquiet => ?_ }
  obtain ⟨hparsing, hrest⟩ := h.quiet hquiet
  refine ⟨?_, hrest⟩
  rw [LifecycleState.endParse, hparsing]
  rfl

theorem Sources.resume (h : Sources s) (caller : Caller) : Sources (s.resume caller) := by
  rcases s.resume_cases caller with heq | ⟨session, buffer, leaves, _, _, heq⟩ | ⟨task, _, heq⟩ <;> rw [heq]
  · exact h
  · exact h.idleReader rfl
  · exact { h.endParse task with }

/-- A message of the current session is submitted: it and what was buffered came from that session. -/
theorem Sources.submit (h : Sources s) (hquiet : s.lifecycle.quiet = false) {sequence : Nat} {reorder : Reorder}
    {items : List SequencedParsedMessage} (hsequence : s.origin sequence = some s.generation)
    (hadvances : Reorder.Advances s.reorder reorder sequence items) (holder : DispatchHolder) :
    Sources { s with reorder := reorder, dispatch := some ⟨holder, none, items⟩ } := by
  have hmem : ∀ k, k = sequence ∨ k ∈ s.reorder.reorderBuffer → s.origin k = some s.generation := by
    rintro k (rfl | hk)
    · exact hsequence
    · exact h.buffered (LifecyclePhase.renewing_of_quiet hquiet) k hk
  refine ⟨h.fresh, h.reading, h.queued, h.parsing, fun _ k hk => hmem k (hadvances.kept k hk),
    fun d hd item hitem => ?_, fun hfalse => ?_⟩
  · cases hd
    have hrange : item.sequence ∈ List.range' s.reorder.nextRouteSequence items.length := by
      rw [← hadvances.sequences]
      exact List.mem_map_of_mem hitem
    obtain ⟨hle, hlt⟩ := List.mem_range'_1.mp hrange
    refine hmem _ (hadvances.taken item.sequence hle ?_)
    rw [hadvances.next]
    exact hlt
  · cases hquiet.symm.trans hfalse

/-- A message of the session is drawn from its stream. -/
theorem Sources.deliver (h : Sources s) {session : Nat} (buffer : List Nat) :
    Sources { s.setReader session ⟨buffer, .posting s.nextMessageSequence⟩ with
      nextMessageSequence := s.nextMessageSequence + 1
      origin := Function.update s.origin s.nextMessageSequence (some session) } := by
  have hkept : ∀ k state, s.origin k = some state →
      Function.update s.origin s.nextMessageSequence (some session) k = some state := by
    intro k state hk
    rw [Function.update_of_ne]
    · exact hk
    · rintro rfl
      cases (h.fresh _ (Nat.le_refl _)).symm.trans hk
  refine ⟨fun k hk => ?_, fun session' reader' k hreader' hk => ?_, fun task htask => ?_,
    fun task htask => hkept _ _ (h.parsing task htask), fun hrenewing k hk => hkept _ _ (h.buffered hrenewing k hk),
    fun d hd item hitem => hkept _ _ (h.items d hd item hitem), h.quiet⟩
  · dsimp only at hk ⊢
    rw [Function.update_of_ne (by omega)]
    exact h.fresh k (by omega)
  · rcases Table.update_eq_some hreader' with ⟨rfl, heq⟩ | ⟨_, hold⟩
    · cases heq
      cases hk
      exact Function.update_self _ _ _
    · exact hkept _ _ (h.reading session' reader' k hold hk)
  · obtain ⟨horigin, hle⟩ := h.queued task htask
    exact ⟨hkept _ _ horigin, hle⟩

/-- The new output state is installed where nothing of the earlier sessions is parsed or routed. -/
theorem Sources.output (h : Sources s) (hreaders : OwnReaders s) (hholds : ParserHolds s) {caller : Caller}
    (hlifecycle : s.lifecycle = .starting caller .output) (hparsing : s.parsing = []) (active : Nat → Bool) :
    Sources { s with
      lifecycle := .starting caller .async
      generation := s.generation + 1
      active := active } := by
  have hdispatch : s.dispatch = none := by
    refine Option.eq_none_iff_forall_ne_some.mpr fun d hd => ?_
    cases hholder : d.holder with
    | parser task =>
        have htask := (hholds.holder d task hd hholder).1
        rw [hparsing] at htask
        cases htask
    | reader session =>
        obtain ⟨buffer, hrouting⟩ := hreaders.routing d session hd hholder
        have hcurrent := hreaders.current hrouting rfl
        have hmayRun := hcurrent.mayRun
        rw [hlifecycle] at hmayRun
        cases hmayRun
  refine ⟨h.fresh, h.reading, fun task htask => ?_, fun task htask => ?_, (fun hfalse => by cases hfalse),
    fun d hd => ?_, fun _ => ⟨hparsing, hdispatch, fun task htask => ?_⟩⟩
  · obtain ⟨horigin, hle⟩ := h.queued task htask
    exact ⟨horigin, Nat.le_succ_of_le hle⟩
  · rw [hparsing] at htask
    cases htask
  · cases hdispatch.symm.trans hd
  · exact Nat.lt_succ_of_le (h.queued task htask).2

theorem Sources.startStep (h : Sources s) (hreaders : OwnReaders s) (hholds : ParserHolds s) {caller : Caller}
    {phase : StartPhase} (hlifecycle : s.lifecycle = .starting caller phase)
    (hok : phase = .output → s.parsing = []) (hstep : s.startStep caller phase = some s') : Sources s' := by
  cases phase with
  | output =>
      cases hstep
      exact h.output hreaders hholds hlifecycle (hok rfl) _
  | async | bind | parsePool | handlerPool =>
      cases hstep
      exact .moved hlifecycle rfl rfl rfl { h with }
  | joinParsers =>
      obtain ⟨_, rfl⟩ := Transition.of_guard hstep
      have hfiltered : Sources { s with parseQueue := s.parseQueue.filter fun task => task.pool = s.generation } := by
        refine { h with
          queued := fun task htask => h.queued task (List.mem_filter.mp htask).1, quiet := fun hquiet => ?_ }
        obtain ⟨hparsing, hdispatch, hqueue⟩ := h.quiet hquiet
        exact ⟨hparsing, hdispatch, fun task htask => hqueue task (List.mem_filter.mp htask).1⟩
      exact .moved hlifecycle rfl rfl rfl { hfiltered with }
  | joinWorkers =>
      obtain ⟨_, rfl⟩ := Transition.of_guard hstep
      exact .moved hlifecycle rfl rfl rfl { h with }
  | dispatcher =>
      obtain rfl | ⟨_, _, _, rfl⟩ := startStep_dispatcher hstep
      all_goals
        exact .moved hlifecycle rfl rfl rfl { h with }
  | routing =>
      obtain ⟨_, rfl⟩ := Transition.of_guard hstep
      refine { h with buffered := fun _ k hk => absurd hk (AList.notMem_empty k), quiet := fun _ => h.quiet ?_ }
      rw [hlifecycle]
      rfl
  | reader =>
      cases hstep
      have hreader : Sources (s.setReader s.generation {}) := h.idleReader rfl
      refine { hreader with buffered := fun _ => h.buffered ?_, quiet := fun hfalse => by cases hfalse }
      rw [hlifecycle]
      rfl

theorem Sources.stopStep (h : Sources s) {caller : Caller} {phase : ClearPhase}
    (hlifecycle : s.lifecycle = .stopping caller phase) (hstep : s.stopStep caller phase = some s') : Sources s' := by
  cases phase with
  | quit | producer | output | dispatcher | async | pools =>
      cases hstep
      exact .moved hlifecycle rfl rfl rfl { h with }
  | routing =>
      obtain ⟨_, rfl⟩ := Transition.of_guard hstep
      exact { h with
        buffered := fun _ k hk => absurd hk (AList.notMem_empty k), quiet := fun hfalse => by cases hfalse }
  | joinLoop =>
      rw [stopStep_joinLoop hstep]
      exact .moved hlifecycle rfl rfl rfl { h with }
  | joinAsync =>
      obtain ⟨_, rfl⟩ := Transition.of_guard hstep
      exact .moved hlifecycle rfl rfl rfl { h with }
  | joinReader =>
      rw [(stopStep_joinReader hstep).2]
      exact .moved hlifecycle rfl rfl rfl { h with }
  | finish =>
      cases hstep
      have hdone : Sources { s with lifecycle := .free, messageProducerThread := none, working := false } :=
        .moved hlifecycle rfl rfl rfl { h with }
      exact hdone.resume caller

theorem Sources.lifecycleStep (h : Sources s) (hreaders : OwnReaders s) (hholds : ParserHolds s)
    {a : LifecycleAction} (hok : a = .advance → s.lifecycle.starts .output = true → s.parsing = [])
    (hstep : LifecycleState.lifecycleStep a s = some s') : Sources s' := by
  rcases lifecycleStep_cases hstep with ⟨caller, hfree, _, rfl⟩ | ⟨caller, hfree, _, rfl | rfl⟩ |
    ⟨caller, phase, hadvance, hlifecycle, hstart⟩ | ⟨caller, phase, hlifecycle, hstop⟩
  · exact .moved hfree rfl rfl rfl { h with }
  · exact .moved hfree rfl rfl rfl { h with }
  · exact h.resume caller
  · refine h.startStep hreaders hholds hlifecycle (fun hphase => hok hadvance ?_) hstart
    rw [hlifecycle, hphase]
    rfl
  · exact h.stopStep hlifecycle hstop

/-- A reader at work means that no session is being started. -/
theorem CurrentReader.quiet {session : Nat} (h : CurrentReader s session) : s.lifecycle.quiet = false := by
  have hmayRun := h.mayRun
  cases hlifecycle : s.lifecycle with
  | free => rfl
  | stopping _ _ => rfl
  | starting _ _ =>
      rw [hlifecycle] at hmayRun
      cases hmayRun

theorem Sources.readerStep (h : Sources s) (hreaders : OwnReaders s) {a : LifecycleAction}
    (hstep : LifecycleState.readerStep a s = some s') : Sources s' := by
  cases a with
  | enterListen session =>
      obtain ⟨buffer, _, rfl⟩ := step_enterListen hstep
      have hreader : Sources (s.setReader session ⟨buffer, .looping⟩) := h.idleReader rfl
      exact { hreader with }
  | checkRunning session =>
      obtain ⟨buffer, _, ⟨_, rfl⟩ | rfl⟩ := step_checkRunning hstep
      · exact h.idleReader rfl
      · exact h.removeReader session
  | receive session => obtain ⟨buffer, _, rfl⟩ := step_receive hstep; exact h.idleReader rfl
  | deliver session =>
      obtain ⟨stream, buffer, hreader, rfl⟩ := step_deliver hstep
      rw [hreaders.stream_eq hreader stream List.mem_cons_self]
      exact h.deliver buffer
  | frameTooLarge session =>
      obtain ⟨buffer, phase, _, rfl | rfl, rfl⟩ := step_frameTooLarge hstep
      · exact h.idleReader rfl
      · exact h.idleReader rfl
  | leaveListen session stops =>
      obtain ⟨buffer, _, rfl⟩ := step_leaveListen hstep
      exact { h.removeReader session with }
  | postParseTask session =>
      obtain ⟨buffer, sequence, hreader, ⟨phase, hphase, rfl⟩ | ⟨_, rfl⟩⟩ := step_postParseTask hstep
      · refine h.setReader fun k hk => h.reading session _ k hreader ?_
        rcases hphase with rfl | rfl | rfl
        · cases hk
        · exact hk
        · cases hk
      · have hcurrent := hreaders.current hreader rfl
        have hposted : Sources { s with
            parseQueueSize := s.parseQueueSize + 1
            parseQueue := s.parseQueue ++ [⟨sequence, s.parsePool⟩] } := by
          refine ⟨h.fresh, h.reading, fun task htask => ?_, h.parsing, h.buffered, h.items, fun hquiet => ?_⟩
          · rcases List.mem_append.mp htask with hold | hnew
            · exact h.queued task hold
            · rw [List.mem_singleton.mp hnew, hcurrent.parsePool]
              exact ⟨h.reading session _ sequence hreader rfl, Nat.le_of_eq hcurrent.generation⟩
          · cases hcurrent.quiet.symm.trans hquiet
        exact hposted.idleReader rfl
  | dropNewest session =>
      obtain ⟨buffer, sequence, hreader, _, rfl | ⟨_, reorder, items, hsubmitted, rfl⟩⟩ := step_dropNewest hstep
      · exact h.idleReader rfl
      · have hcurrent := hreaders.current hreader rfl
        have hrouting : Sources (s.setReader session ⟨buffer, .routing⟩) := h.idleReader rfl
        have hsequence : s.origin sequence = some s.generation := by
          rw [← hcurrent.generation]
          exact h.reading session _ sequence hreader rfl
        exact hrouting.submit hcurrent.quiet hsequence (Reorder.submitParsedMessage_advances hsubmitted) _
  | afterOverload session =>
      obtain ⟨buffer, leaves, _, rfl | rfl⟩ := step_afterOverload hstep
      · exact { h.removeReader session with }
      · exact h.idleReader rfl
  | _ => cases hstep

theorem Sources.routeStep (h : Sources s) (hrenewed : Renewed s) {a : LifecycleAction}
    (hstep : LifecycleState.routeStep a s = some s') : Sources s' := by
  cases a with
  | parseBegins task =>
      obtain ⟨htask, hpool, hrunning, rfl⟩ := step_parseBegins hstep
      have hcurrent : task.pool = s.generation := hpool.trans (hrenewed.current hrunning)
      refine ⟨h.fresh, h.reading, fun task' htask' => h.queued task' (List.mem_of_mem_erase htask'),
        fun task' htask' => ?_, h.buffered, h.items, fun hquiet => ?_⟩
      · rcases List.mem_append.mp htask' with hold | hnew
        · exact h.parsing task' hold
        · rw [List.mem_singleton.mp hnew, ← hcurrent]
          exact (h.queued task htask).1
      · exact absurd hcurrent (Nat.ne_of_lt ((h.quiet hquiet).2.2 task htask))
  | submit task parsed =>
      obtain ⟨htask, _, _, rfl | rfl | ⟨reorder, items, hsubmitted, rfl⟩⟩ := step_submit hstep
      · exact h.endParse task
      · exact { h with }
      · refine h.submit ?_ (h.parsing task htask) (Reorder.submitParsedMessage_advances hsubmitted) _
        refine Bool.eq_false_iff.mpr fun hquiet => ?_
        rw [(h.quiet hquiet).1] at htask
        cases htask
  | takeState =>
      obtain ⟨holder, item, rest, current, hdispatch, _, rfl⟩ := step_takeState hstep
      refine h.setDispatch hdispatch fun d hd => ?_
      cases hd
      exact List.subset_cons_self _ _
  | route =>
      obtain ⟨holder, item, state, rest, hdispatch, rfl⟩ := step_route hstep
      have hleft : Sources { s with dispatch := some ⟨holder, none, rest⟩ } := by
        refine h.setDispatch hdispatch fun d hd => ?_
        cases hd
        exact fun _ => id
      obtain ⟨_, _, _, _, heq⟩ :=
        routeParsedIncoming_frame { s with dispatch := some ⟨holder, none, rest⟩ } item state
      rw [heq]
      exact { hleft with }
  | release =>
      obtain ⟨holder, hdispatch, rfl⟩ := step_release hstep
      have hfree : Sources { s with dispatch := none } := h.setDispatch hdispatch fun _ hd => by cases hd
      rcases s.endDispatch_cases holder with ⟨task, heq⟩ | ⟨session, reader, _, heq⟩ | heq <;> rw [heq]
      · exact hfree.endParse task
      · exact hfree.idleReader rfl
      · exact hfree
  | _ => cases hstep

theorem Sources.step (h : Sources s) (hrenewed : Renewed s) (hreaders : OwnReaders s) (hholds : ParserHolds s)
    {a : LifecycleAction} (hok : EarlierEnded a s) (hstep : LifecycleState.step a s = some s') : Sources s' := by
  rcases step_kinds hstep with hlife | hread | hroute | hloop | hwork
  · exact h.lifecycleStep hreaders hholds hok.1 hlife
  · exact h.readerStep hreaders hread
  · exact h.routeStep hrenewed hroute
  · obtain ⟨_, _, _, _, _, rfl⟩ := loopStep_frame hloop
    exact { h with }
  · obtain ⟨_, _, _, _, _, rfl⟩ := workerStep_frame hwork
    exact { h with }

theorem reachable_sources (hs : lifecycleSystem.ReachableIf EarlierEnded s) : Sources s := by
  refine hs.invariant_of (fun s => Renewed s ∧ OwnReaders s ∧ ParserHolds s) Sources (fun s hs => ?_) ?_
    fun a s s' hknown h hok hstep => h.step hknown.1 hknown.2.1 hknown.2.2 hok hstep
  · exact ⟨reachable_renewed hs, reachable_ownReaders (fun _ _ hok => hok.2) hs, reachable_parserHolds hs⟩
  · rintro s ⟨limits, concurrentNotifications, rfl⟩
    refine ⟨fun _ _ => rfl, ?_, ?_, ?_, fun _ k hk => absurd hk (AList.notMem_empty k), ?_, ?_⟩
    · exact fun _ _ _ hreader => by cases hreader
    · exact fun _ htask => by cases htask
    · exact fun _ htask => by cases htask
    · exact fun _ hd => by cases hd
    · exact fun hfalse => by cases hfalse

end LifecycleState

end LspCpp

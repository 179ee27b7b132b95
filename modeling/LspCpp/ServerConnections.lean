import LspCpp.LibTransition

/-! The connections of a server with one endpoint: a new one takes the place of the one before, in the handler of the
acceptor of a TCP server, and in the callbacks of a WebSocket server, which have threads of their own. -/

namespace LspCpp

/-- The connections are numbered as they come. `active` is `_connect_session` or `active_stream`, `processing` the
stream that the endpoint works on, `starting` the callbacks that have not called `startProcessingMessages` yet. -/
structure Connections where
  next : Nat := 0
  accepting : Bool := true
  stopped : Bool := false
  active : Option Nat := none
  interrupted : List Nat := []
  processing : Option Nat := none
  starting : List Nat := []
  deriving DecidableEq, Repr

inductive ConnectionAction where
  | accept (failed : Bool)
  | exchange
  | start (connection : Nat)
  | fail (connection : Nat)
  | doStop
  | stop
  deriving DecidableEq, Repr

namespace Connections

/-- `startProcessingMessages`, which does nothing while the endpoint is working. -/
def startProcessingMessages (s : Connections) (connection : Nat) : Connections :=
  if s.processing.isSome then s else { s with processing := some connection }

/-- The one before is interrupted, and the endpoint stopped, where there is one. -/
def replace (s : Connections) : Connections :=
  match s.active with
  | some previous => { s with interrupted := previous :: s.interrupted, processing := none }
  | none => s

/-- The handler of `do_accept`, which accepts again only where the accept has not failed. -/
def accept (s : Connections) (failed : Bool) : Connections :=
  if failed then { s with accepting := false }
  else startProcessingMessages { s.replace with next := s.next + 1, active := some s.next } s.next

/-- The critical section of the WebSocket's connection callback. -/
def exchange (s : Connections) : Connections :=
  { s.replace with next := s.next + 1, active := some s.next, starting := s.next :: s.starting }

/-- `TcpServer::do_stop`. -/
def doStop (s : Connections) : Connections := { s.replace with stopped := true, processing := none }

/-- `WebSocketServer::stop`. -/
def stop (s : Connections) : Connections := { s.replace with stopped := true, active := none, processing := none }

def step : ConnectionAction → Connections → Option Connections
  | .accept failed, s => if s.accepting && !s.stopped then some (s.accept failed) else none
  | .exchange, s => if s.stopped then none else some s.exchange
  | .start connection, s =>
      if connection ∈ s.starting then
        some (startProcessingMessages { s with starting := s.starting.erase connection } connection)
      else none
  | .fail connection, s => some { s with interrupted := connection :: s.interrupted }
  | .doStop, s => some s.doStop
  | .stop, s => some s.stop

/-- No connection comes while the callback of another one has not come to its end. The handlers of the acceptor never do
that to one another. -/
def OneAtATime : ConnectionAction → Connections → Prop
  | .accept _, s | .exchange, s => s.starting = []
  | _, _ => True

instance : ∀ (a : ConnectionAction) (s : Connections), Decidable (OneAtATime a s)
  | .accept _, s | .exchange, s => inferInstanceAs (Decidable (s.starting = []))
  | .start _, _ | .fail _, _ | .doStop, _ | .stop, _ => inferInstanceAs (Decidable True)

/-- Each connection but the newest has been interrupted. -/
structure Replaced (s : Connections) : Prop where
  active : ∀ connection, s.active = some connection → connection < s.next
  older : ∀ connection < s.next, s.active ≠ some connection → connection ∈ s.interrupted

theorem replace_interrupted {s : Connections} (hs : s.Replaced) :
    ∀ connection < s.next, connection ∈ s.replace.interrupted := by
  intro connection hlt
  unfold replace
  by_cases hactive : s.active = some connection
  · rw [hactive]
    exact List.mem_cons_self ..
  · have hold := hs.older connection hlt hactive
    split
    · exact List.mem_cons_of_mem _ hold
    · exact hold

end Connections

/-- A server without connections. -/
def connectionSystem : Transition.System Connections ConnectionAction where
  init s := s = {}
  step := Connections.step

namespace Connections

@[simp] theorem replace_next (s : Connections) : s.replace.next = s.next := by
  unfold replace
  split <;> rfl

@[simp] theorem replace_active (s : Connections) : s.replace.active = s.active := by
  unfold replace
  split <;> rfl

@[simp] theorem replace_starting (s : Connections) : s.replace.starting = s.starting := by
  unfold replace
  split <;> rfl

@[simp] theorem startProcessingMessages_next (s : Connections) (connection : Nat) :
    (s.startProcessingMessages connection).next = s.next := by
  unfold startProcessingMessages
  split <;> rfl

@[simp] theorem startProcessingMessages_stopped (s : Connections) (connection : Nat) :
    (s.startProcessingMessages connection).stopped = s.stopped := by
  unfold startProcessingMessages
  split <;> rfl

@[simp] theorem startProcessingMessages_active (s : Connections) (connection : Nat) :
    (s.startProcessingMessages connection).active = s.active := by
  unfold startProcessingMessages
  split <;> rfl

@[simp] theorem startProcessingMessages_interrupted (s : Connections) (connection : Nat) :
    (s.startProcessingMessages connection).interrupted = s.interrupted := by
  unfold startProcessingMessages
  split <;> rfl

/-- A new connection is the newest. -/
theorem Replaced.new {s s' : Connections} (hs : s.Replaced) (hnext : s'.next = s.next + 1)
    (hactive : s'.active = some s.next) (hinterrupted : s'.interrupted = s.replace.interrupted) : s'.Replaced := by
  refine ⟨fun connection h => ?_, fun connection hlt hne => ?_⟩
  · rw [hactive] at h
    cases h
    rw [hnext]
    exact Nat.lt_succ_self _
  · rw [hinterrupted]
    apply replace_interrupted hs
    rw [hactive] at hne
    have hdiff : connection ≠ s.next := fun heq => hne (congrArg some heq.symm)
    omega

/-- A stop leaves at most the newest one. -/
theorem Replaced.stopped {s s' : Connections} (hs : s.Replaced) (hnext : s'.next = s.next)
    (hactive : s'.active = s.active ∨ s'.active = none) (hinterrupted : s'.interrupted = s.replace.interrupted) :
    s'.Replaced := by
  refine ⟨fun connection h => ?_, fun connection hlt _ => ?_⟩
  · rw [hnext]
    rcases hactive with hsame | hnone
    · exact hs.active connection (hsame ▸ h)
    · rw [hnone] at h
      cases h
  · rw [hinterrupted]
    exact replace_interrupted hs connection (hnext ▸ hlt)

theorem step_replaced {a : ConnectionAction} {s s' : Connections} (hs : s.Replaced) (h : step a s = some s') :
    s'.Replaced := by
  cases a with
  | accept failed =>
      simp only [step] at h
      split_ifs at h with haccepting
      cases h
      unfold accept
      split_ifs
      · exact ⟨hs.active, hs.older⟩
      · exact hs.new (by simp) (by simp) (by simp)
  | exchange =>
      simp only [step] at h
      split_ifs at h with hstopped
      cases h
      exact hs.new (by simp [exchange]) rfl rfl
  | start connection =>
      simp only [step] at h
      split_ifs at h with hstarting
      cases h
      refine ⟨?_, ?_⟩
      · simpa using hs.active
      · simpa using hs.older
  | fail connection =>
      cases h
      exact ⟨hs.active, fun connection' hlt hne => List.mem_cons_of_mem _ (hs.older connection' hlt hne)⟩
  | doStop =>
      cases h
      exact hs.stopped (by simp [doStop]) (.inl (by simp [doStop])) rfl
  | stop =>
      cases h
      exact hs.stopped (by simp [stop]) (.inr rfl) rfl

/-- The endpoint has the newest connection, or waits for the one that has taken its place. -/
def Bound (s : Connections) : Prop :=
  s.starting = [] ∧ s.processing = s.active ∨
    ∃ connection, s.starting = [connection] ∧ s.active = some connection ∧ s.processing = none

/-- Behind a replacement the endpoint does not work. -/
theorem Bound.replace {s : Connections} (hs : s.Bound) (hstarting : s.starting = []) : s.replace.processing = none := by
  have hprocessing : s.processing = s.active := by
    rcases hs with ⟨-, hprocessing⟩ | ⟨connection, hone, -⟩
    · exact hprocessing
    · rw [hstarting] at hone
      cases hone
  unfold Connections.replace
  split
  · rfl
  · rename_i hnone
    rw [hprocessing, hnone]

/-- An endpoint that is not working takes the newest connection. -/
theorem Bound.start {s : Connections} {connection : Nat} (hstarting : s.starting = [])
    (hactive : s.active = some connection)
    (hprocessing : s.processing = none) : (s.startProcessingMessages connection).Bound := by
  refine .inl ?_
  rw [startProcessingMessages, hprocessing]
  exact ⟨hstarting, hactive.symm⟩

theorem step_bound {a : ConnectionAction} {s s' : Connections} (hs : s.stopped = false → s.Bound) (ha : OneAtATime a s)
    (h : step a s = some s') (hstopped : s'.stopped = false) : s'.Bound := by
  cases a with
  | accept failed =>
      simp only [step] at h
      split_ifs at h with haccepting
      cases h
      rw [Bool.and_eq_true, Bool.not_eq_true'] at haccepting
      have hbound := hs haccepting.2
      unfold accept
      split_ifs
      · exact hbound
      · have hstarting : s.starting = [] := ha
        exact .start (by simpa using hstarting) rfl (hbound.replace hstarting)
  | exchange =>
      simp only [step] at h
      split_ifs at h with hstop
      cases h
      have hbound := hs (by simpa using hstop)
      exact .inr ⟨s.next, by rw [exchange, show s.starting = [] from ha], rfl, hbound.replace ha⟩
  | start connection =>
      simp only [step] at h
      split_ifs at h with hstarting
      cases h
      have hstop : s.stopped = false := by simpa using hstopped
      rcases hs hstop with ⟨hnone, -⟩ | ⟨newest, hone, hactive, hprocessing⟩
      · rw [hnone] at hstarting
        cases hstarting
      · rw [hone, List.mem_singleton] at hstarting
        subst hstarting
        exact .start (by rw [hone, List.erase_cons_head]) hactive hprocessing
  | fail connection =>
      cases h
      exact hs hstopped
  | doStop | stop =>
      cases h
      cases hstopped

/-- What a server does to its connections: each but the newest has been interrupted, and unless that one is about to be
started the endpoint works on it. -/
structure Served (s : Connections) : Prop where
  replaced : s.Replaced
  newest : s.stopped = false → s.starting = [] → s.processing = s.active

/-- The newest connection takes the place of all the others, where they come one at a time. -/
theorem connections_served {s : Connections} (hs : connectionSystem.ReachableIf OneAtATime s) : s.Served := by
  have hboth : s.Replaced ∧ (s.stopped = false → s.Bound) := by
    refine hs.invariant (fun s => s.Replaced ∧ (s.stopped = false → s.Bound)) ?_ ?_
    · intro s hinit
      rw [show s = {} from hinit]
      exact ⟨⟨nofun, nofun⟩, fun _ => .inl ⟨rfl, rfl⟩⟩
    · intro a s s' hs ha hstep
      exact ⟨step_replaced hs.1 hstep, step_bound hs.2 ha hstep⟩
  refine ⟨hboth.1, fun hstopped hstarting => ?_⟩
  rcases hboth.2 hstopped with ⟨-, hprocessing⟩ | ⟨connection, hone, -⟩
  · exact hprocessing
  · rw [hstarting] at hone
    cases hone

/-- Two connections of a TCP server, of which the second comes after the first has failed. -/
theorem connections_served_failedFirst :
    ∃ s, connectionSystem.runIf OneAtATime [.accept false, .fail 0, .accept false] {} = some s ∧ s.Served :=
  ⟨_, rfl, connections_served (Transition.System.reachableIf_of_runIf [.accept false, .fail 0, .accept false]
    (.init rfl) rfl)⟩

/-- Two callbacks of a WebSocket server at once: the endpoint works on the connection that has been interrupted, and
nobody reads from the one that is there. -/
theorem overlapping_not_served :
    ∃ s, connectionSystem.run [.exchange, .exchange, .start 0, .start 1] {} = some s ∧ s.starting = [] ∧
      s.active = some 1 ∧ 1 ∉ s.interrupted ∧ s.processing = some 0 :=
  ⟨_, rfl, rfl, rfl, by decide, rfl⟩

end Connections

end LspCpp

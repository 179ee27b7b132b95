import LspCpp.PendingFresh
import LspCpp.ReplyOnce

/-! Two endpoints and the streams between them. The requests of the one are read by the other, whose replies the first
one reads; the streams lose nothing and keep the order, but the tasks that parse the replies run in any order, and each
side takes its steps whenever it likes. -/

namespace LspCpp

/-- What `WriterMsg` writes of a request, as far as its receiver looks at it. -/
def requestContent (id : LsRequestId) (method : String) : Content :=
  .object [("jsonrpc", .string "2.0"), ("id", id.reflectWriter), ("method", .string method), ("params", .structured)]

/-- `written` is all that the client has written, each request with its registration; the server has read as many of
these as it has messages. `received` are the places of the frames of the server whose ids the client has looked up,
`origins` are the frames of the responses that the client has taken up. -/
structure RpcState where
  client : PendingState := {}
  server : ReplyState := {}
  written : List (Option Nat × Content) := []
  received : List Nat := []
  origins : List ResponseFrame := []

inductive RpcAction where
  | client (a : PendingAction)
  | write (method : String)
  | writeOther (content : Content)
  | read
  | server (a : ReplyAction)
  | receive (place : Nat)
  | parsed (t : Nat)
  deriving DecidableEq, Repr

/-- The steps of a client that do not read anything. -/
def PendingAction.isOwn : PendingAction → Bool
  | .receive _ | .parsed .. => false
  | _ => true

/-- The steps of a server that do not read anything. -/
def ReplyAction.isOwn : ReplyAction → Bool
  | .read _ => false
  | _ => true

namespace RpcState

/-- `write` is the call of `WriterMsg` in `internalSendRequestWithPolicy`; `receive` is where the task that parses a
frame looks up its id, and the parser of a response reads the id that was looked up. -/
def step : RpcAction → RpcState → Option RpcState
  | .client a, s =>
      if a.isOwn then (PendingState.step a s.client).map fun client => { s with client := client } else none
  | .write method, s =>
      match s.client.sending with
      | some (.registered o) =>
          if some o ∈ s.written.map Prod.fst then none
          else
            (s.client.infos o).map fun info =>
              { s with written := s.written ++ [(some o, requestContent info.id method)] }
      | _ => none
  | .writeOther content, s =>
      if content.requestId = none ∧ s.client.sending = none then
        some { s with written := s.written ++ [(none, content)] }
      else none
  | .read, s =>
      (s.written[s.server.incoming.length]?).bind fun entry =>
        (ReplyState.step (.read entry.2) s.server).map fun server => { s with server := server }
  | .server a, s =>
      if a.isOwn then (ReplyState.step a s.server).map fun server => { s with server := server } else none
  | .receive place, s =>
      if place ∈ s.received then none
      else
        (s.server.frames[place]?).bind fun frame =>
          (PendingState.step (.receive (.reflectReader frame.id)) s.client).map fun client =>
            { s with
              client := client
              received := s.received ++ [place]
              origins := s.origins ++
                if (s.client.table.getRequestInfo (.reflectReader frame.id)).isSome then [frame] else [] }
  | .parsed t, s =>
      (s.client.responses t).bind fun r =>
        (PendingState.step (.parsed t r.id) s.client).map fun client => { s with client := client }

end RpcState

/-- Two endpoints that have just been connected. -/
def rpcSystem : Transition.System RpcState RpcAction where
  init s := ∃ client server, pendingSystem.init client ∧ replySystem.init server ∧
    s = { client := client, server := server }
  step := RpcState.step

/-- What the callers of the client promise. -/
def FreshIds : RpcAction → RpcState → Prop
  | .client a, s => PendingState.FreshId a s.client
  | _, _ => True

instance (a : RpcAction) (s : RpcState) : Decidable (FreshIds a s) :=
  match a with
  | .client a => inferInstanceAs (Decidable (PendingState.FreshId a s.client))
  | .write _ | .writeOther _ | .read | .server _ | .receive _ | .parsed _ => inferInstanceAs (Decidable True)

namespace RpcState

variable {s s' : RpcState}

theorem step_client {a : PendingAction} (h : step (.client a) s = some s') :
    a.isOwn = true ∧ ∃ client, PendingState.step a s.client = some client ∧ s' = { s with client := client } := by
  rw [step] at h
  split_ifs at h with hown
  obtain ⟨client, hclient, rfl⟩ := Option.map_eq_some_iff.mp h
  exact ⟨hown, client, hclient, rfl⟩

theorem step_write {method : String} (h : step (.write method) s = some s') :
    ∃ o info, s.client.sending = some (.registered o) ∧ some o ∉ s.written.map Prod.fst ∧
      s.client.infos o = some info ∧
      s' = { s with written := s.written ++ [(some o, requestContent info.id method)] } := by
  rw [step] at h
  split at h
  · rename_i o hsending
    split_ifs at h with hwritten
    obtain ⟨info, hinfo, rfl⟩ := Option.map_eq_some_iff.mp h
    exact ⟨o, info, hsending, hwritten, hinfo, rfl⟩
  · cases h

theorem step_writeOther {content : Content} (h : step (.writeOther content) s = some s') :
    content.requestId = none ∧ s' = { s with written := s.written ++ [(none, content)] } := by
  obtain ⟨hguard, rfl⟩ := Transition.of_guard h
  exact ⟨hguard.1, rfl⟩

theorem step_read (h : step .read s = some s') :
    ∃ entry server, s.written[s.server.incoming.length]? = some entry ∧
      ReplyState.step (.read entry.2) s.server = some server ∧ s' = { s with server := server } := by
  obtain ⟨entry, hentry, h⟩ := Option.bind_eq_some_iff.mp h
  obtain ⟨server, hserver, rfl⟩ := Option.map_eq_some_iff.mp h
  exact ⟨entry, server, hentry, hserver, rfl⟩

theorem step_server {a : ReplyAction} (h : step (.server a) s = some s') :
    a.isOwn = true ∧ ∃ server, ReplyState.step a s.server = some server ∧ s' = { s with server := server } := by
  rw [step] at h
  split_ifs at h with hown
  obtain ⟨server, hserver, rfl⟩ := Option.map_eq_some_iff.mp h
  exact ⟨hown, server, hserver, rfl⟩

/-- A frame whose id is looked up is dropped, or begins a response of the request that holds its id. -/
theorem step_receive {place : Nat} (h : step (.receive place) s = some s') :
    ∃ frame, place ∉ s.received ∧ s.server.frames[place]? = some frame ∧
      (s.client.table.getRequestInfo (.reflectReader frame.id) = none ∧
          s' = { s with received := s.received ++ [place] } ∨
        ∃ o, s.client.table.getRequestInfo (.reflectReader frame.id) = some o ∧
          s' = { s with
            client := { s.client.setPhase s.client.nextResponse ⟨.reflectReader frame.id, o, .parsing⟩ .parsing with
              nextResponse := s.client.nextResponse + 1 }
            received := s.received ++ [place]
            origins := s.origins ++ [frame] }) := by
  rw [step] at h
  split_ifs at h with hnew
  obtain ⟨frame, hframe, h⟩ := Option.bind_eq_some_iff.mp h
  obtain ⟨client, hclient, rfl⟩ := Option.map_eq_some_iff.mp h
  obtain rfl := Option.some.inj hclient
  refine ⟨frame, hnew, hframe, ?_⟩
  rw [PendingState.receiveResponse]
  split
  · rename_i hnone
    refine .inl ⟨hnone, ?_⟩
    simp [hnone]
  · rename_i o ho
    refine .inr ⟨o, ho, ?_⟩
    simp [ho]

/-- To the client a frame is a response with the id of the frame. -/
theorem client_of_receive {place : Nat} (h : step (.receive place) s = some s') :
    s'.server = s.server ∧ ∃ id, PendingState.step (.receive id) s.client = some s'.client := by
  rw [step] at h
  split_ifs at h with hnew
  obtain ⟨frame, -, h⟩ := Option.bind_eq_some_iff.mp h
  obtain ⟨client, hclient, rfl⟩ := Option.map_eq_some_iff.mp h
  exact ⟨rfl, .reflectReader frame.id, hclient⟩

theorem step_parsed {t : Nat} (h : step (.parsed t) s = some s') :
    ∃ r client, s.client.responses t = some r ∧ PendingState.step (.parsed t r.id) s.client = some client ∧
      s' = { s with client := client } := by
  obtain ⟨r, hr, h⟩ := Option.bind_eq_some_iff.mp h
  obtain ⟨client, hclient, rfl⟩ := Option.map_eq_some_iff.mp h
  exact ⟨r, client, hr, hclient, rfl⟩

/-- Every step leaves the client alone or is one of its steps. -/
theorem step_ofClient {a : RpcAction} (hfresh : FreshIds a s) (h : step a s = some s') :
    s'.client = s.client ∨
      ∃ b, PendingState.FreshId b s.client ∧ PendingState.step b s.client = some s'.client := by
  cases a with
  | client a =>
      obtain ⟨-, client, hclient, rfl⟩ := step_client h
      exact .inr ⟨a, hfresh, hclient⟩
  | write method =>
      obtain ⟨o, info, -, -, -, rfl⟩ := step_write h
      exact .inl rfl
  | writeOther content =>
      obtain ⟨-, rfl⟩ := step_writeOther h
      exact .inl rfl
  | read =>
      obtain ⟨entry, server, -, -, rfl⟩ := step_read h
      exact .inl rfl
  | server a =>
      obtain ⟨-, server, -, rfl⟩ := step_server h
      exact .inl rfl
  | receive place =>
      obtain ⟨-, id, hclient⟩ := client_of_receive h
      exact .inr ⟨.receive id, trivial, hclient⟩
  | parsed t =>
      obtain ⟨r, client, -, hclient, rfl⟩ := step_parsed h
      exact .inr ⟨.parsed t r.id, trivial, hclient⟩

/-- And the same of the server, whose messages are those that were written. -/
theorem step_ofServer {a : RpcAction} (h : step a s = some s') :
    s'.server = s.server ∨
      (∃ b, b.isOwn = true ∧ ReplyState.step b s.server = some s'.server) ∨
      ∃ entry, s.written[s.server.incoming.length]? = some entry ∧
        ReplyState.step (.read entry.2) s.server = some s'.server := by
  cases a with
  | client a =>
      obtain ⟨-, client, -, rfl⟩ := step_client h
      exact .inl rfl
  | write method =>
      obtain ⟨o, info, -, -, -, rfl⟩ := step_write h
      exact .inl rfl
  | writeOther content =>
      obtain ⟨-, rfl⟩ := step_writeOther h
      exact .inl rfl
  | read =>
      obtain ⟨entry, server, hentry, hserver, rfl⟩ := step_read h
      exact .inr (.inr ⟨entry, hentry, hserver⟩)
  | server a =>
      obtain ⟨hown, server, hserver, rfl⟩ := step_server h
      exact .inr (.inl ⟨a, hown, hserver⟩)
  | receive place => exact .inl (client_of_receive h).1
  | parsed t =>
      obtain ⟨r, client, -, -, rfl⟩ := step_parsed h
      exact .inl rfl

theorem reachable_client (hs : rpcSystem.ReachableIf FreshIds s) :
    pendingSystem.ReachableIf PendingState.FreshId s.client := by
  apply hs.project RpcState.client
  · intro s hinit
    obtain ⟨client, server, hclient, -, rfl⟩ := hinit
    exact hclient
  · intro a s s' _ hfresh hstep
    exact step_ofClient hfresh hstep

end RpcState

end LspCpp

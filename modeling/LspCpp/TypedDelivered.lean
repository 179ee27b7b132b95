import LspCpp.ReflectRoundTrip
import LspCpp.TcpDelivered

/-! Messages with types, from the values that are sent on a TCP connection to the values that the peer reads. -/

namespace LspCpp

/-- A value of a type whose texts are read back. -/
structure TypedMessage where
  type : ReflectType
  value : type.Value
  wellFormed : type.WellFormed
  anyFree : type.AnyFree
  nulFree : type.NulFree value

namespace TypedMessage

variable {R : Type} (real : RealFormat R)

/-- `ToJson`. -/
def toJson (message : TypedMessage) : Bytes := message.type.reflectWriter message.value

/-- The content is a text from which the value is read. -/
def ReadFrom (content : Bytes) (message : TypedMessage) : Prop :=
  ∃ m, Json.parse real.numbers content = some m ∧
    ∀ path, message.type.reflectReader real message.type.initial ⟨m, path⟩ = .ok (message.value, ⟨m, path⟩)

theorem readFrom_toJson (message : TypedMessage) : ReadFrom real message.toJson message := by
  obtain ⟨m, hm⟩ := ReflectType.exists_jsonOf_of_anyFree real message.anyFree message.value
  refine ⟨m, (reads_of_anyFree real message.anyFree message.value).parse_eq.trans hm, ?_⟩
  exact reflectReader_of_jsonOf real message.type message.wellFormed message.anyFree message.nulFree hm

theorem readFrom_take (messages : List TypedMessage) (count : Nat) :
    List.Forall₂ (ReadFrom real) ((messages.map toJson).take count) (messages.take count) := by
  rw [← List.map_take, List.forall₂_map_left_iff]
  exact List.forall₂_same.mpr fun message _ => readFrom_toJson real message

/-- **Values arrive as they were sent**: in every state of every interleaving of the senders and of the socket, a peer
that reads in whatever pieces what has left the session, and parses it, has the values of the first messages that were
sent, in the order of the send mutex; where no write has failed and nothing is on its way, it has all of them. -/
theorem typedMessages_arrive (settings : ProducerSettings) (sent : List TypedMessage)
    (hfits : ∀ message ∈ sent, Fits settings message.toJson) {s : WireState} (hs : wireSystem.Reachable s)
    (hframes : s.session.frames = sent.map fun message => writerMsg message.toJson) :
    ∃ count ≤ sent.length, (s.session.failed = false → WireState.Idle s.session → count = sent.length) ∧
      ∀ (σ : Type) (S : IStream σ) (At : σ → Bytes → Prop), S.Yields At → ∀ peer, At peer s.wire →
        ∃ rounds, ∀ fuel, rounds ≤ fuel → ∃ events, listen S settings fuel peer [] = some events ∧
          List.Forall₂ (ReadFrom real) (messages events) (sent.take count) := by
  let bodies := sent.map toJson
  have hbodies : s.session.frames = bodies.map writerMsg := by
    rw [hframes, List.map_map]
    rfl
  have hfits' : ∀ body ∈ bodies, Fits settings body := List.forall_mem_map.mpr hfits
  have htake := List.prefix_iff_eq_take.mp (WireState.wire_front hs hbodies)
  have hmessages : messages (decode settings s.wire) = bodies.take (wholeFrames bodies s.wire.length) := by
    have hcut := (decode_take_flatMap bodies hfits' s.wire.length).1
    rwa [← htake] at hcut
  refine ⟨min (wholeFrames bodies s.wire.length) sent.length, Nat.min_le_right _ _, ?_, ?_⟩
  · intro hgood hidle
    rw [WireState.wire_complete hs hbodies hgood hidle, wholeFrames_length, List.length_map, Nat.min_self]
  · intro σ S At hS peer hpeer
    refine ⟨s.wire.length + 2, fun fuel hfuel => ⟨decode settings s.wire, ?_, ?_⟩⟩
    · exact hS.listen_eq_decode settings fuel hpeer [] (by rw [List.nil_append]; omega)
    · rw [hmessages, ← List.take_eq_take_min]
      exact readFrom_take real sent _

/-- A flag that is set. -/
def flagMessage : TypedMessage := ⟨.bool false, true, trivial, trivial, trivial⟩

/-- A list of two strings, of which the second is empty. -/
def stringsMessage : TypedMessage :=
  ⟨.vector (.string []), ([[104, 105], []] : List Bytes), trivial, trivial,
    ⟨show (0 : UInt8) ∉ [104, 105] by decide, show (0 : UInt8) ∉ [] by decide⟩⟩

/-- The strings and the flag, of which the flag has not left yet. -/
theorem typedMessages_arrive_twoTypes :
    ∃ s : WireState, wireSystem.run [.lock 1 (writerMsg stringsMessage.toJson), .check true, .post, .unlock, .runTask,
      .transfer 0 100, .lock 2 (writerMsg flagMessage.toJson), .check true, .post, .unlock] {} = some s ∧
      ∃ count ≤ 2, (s.session.failed = false → WireState.Idle s.session → count = 2) ∧
        ∀ (σ : Type) (S : IStream σ) (At : σ → Bytes → Prop), S.Yields At → ∀ peer, At peer s.wire →
          ∃ rounds, ∀ fuel, rounds ≤ fuel → ∃ events, listen S {} fuel peer [] = some events ∧
            List.Forall₂ (ReadFrom noReals) (messages events) ([stringsMessage, flagMessage].take count) := by
  have hfits : ∀ message ∈ [stringsMessage, flagMessage], Fits {} message.toJson := by decide
  have hs := Transition.System.reachable_of_run (S := wireSystem) [.lock 1 (writerMsg stringsMessage.toJson),
    .check true,
    .post, .unlock, .runTask, .transfer 0 100, .lock 2 (writerMsg flagMessage.toJson), .check true, .post, .unlock]
    (.init rfl) rfl
  exact ⟨_, rfl, typedMessages_arrive noReals {} [stringsMessage, flagMessage] hfits hs rfl⟩

end TypedMessage

end LspCpp

import LspCpp.ReflectVisitor

/-! Reads that keep, with an exception, where they have left the reader. The traversals put the cursor and the path back
only behind a callback that returns; forgetting the place of an exception gives the traversals of `JsonReader`. -/

namespace LspCpp

variable {R : Type}

/-- A read that keeps, with an exception, where the reader is. -/
abbrev CursorM (R : Type) := EStateM ReflectError (JsonReader R)

namespace CursorM

variable {σ α : Type}

/-- The loop of `IterArray`. -/
def iterEntries (fn : σ → CursorM R σ) : List (JsonDocument R) → σ → CursorM R σ
  | [], state => pure state
  | entry :: rest, state => do
      let saved := (← get).m
      modify fun reader => { reader with m := entry }
      let state ← fn state
      modify fun reader => { reader with m := saved }
      iterEntries fn rest state

/-- `JsonReader::IterArray`. -/
def iterArray (fn : σ → CursorM R σ) (state : σ) : CursorM R σ := do
  match (← get).m with
  | .array entries =>
      modify fun reader => reader.pushPath (bytesOf "0")
      let state ← iterEntries fn entries state
      modify JsonReader.popPath
      return state
  | _ => throw (.invalidArgument "array")

/-- The loop of `IterMap`. -/
def iterMembers (fn : Bytes → σ → CursorM R σ) : List (Bytes × JsonDocument R) → σ → CursorM R σ
  | [], state => pure state
  | entry :: rest, state => do
      let saved := (← get).m
      modify fun reader => { reader with m := entry.2 }
      let state ← fn (cStr entry.1) state
      modify fun reader => { reader with m := saved }
      iterMembers fn rest state

/-- `JsonReader::IterMap`. -/
def iterMap (fn : Bytes → σ → CursorM R σ) (state : σ) : CursorM R σ := do
  modify fun reader => reader.pushPath (bytesOf "0")
  match (← get).m with
  | .object members =>
      let state ← iterMembers fn members state
      modify JsonReader.popPath
      return state
  | _ => throw .assertion

/-- `JsonReader::DoMember`. -/
def doMember (name : Bytes) (fn : σ → CursorM R σ) (state : σ) : CursorM R σ := do
  match (← get).m with
  | .object members =>
      modify fun reader => reader.pushPath name
      match JsonReader.findMember name members with
      | some value =>
          let saved := (← get).m
          modify fun reader => { reader with m := value }
          let state ← fn state
          modify fun reader => { reader with m := saved }
          modify JsonReader.popPath
          return state
      | none =>
          modify JsonReader.popPath
          return state
  | _ => return state

/-- `Reflect(Reader&, optional<T>&)`. -/
def readOptional (read : CursorM R α) (value : Option α) : CursorM R (Option α) := do
  match (← get).m with
  | .null => return value
  | _ => return some (← read)

/-- A `try` block with `catch (...)`. An assertion of rapidjson is no exception. -/
def tryCatchAll (attempt handler : CursorM R α) : CursorM R α := fun reader =>
  match attempt reader with
  | .error (.invalidArgument _) reader => handler reader
  | result => result

end CursorM

def isBoolNode : JsonDocument R → Bool
  | .bool _ => true
  | _ => false

def isStringNode : JsonDocument R → Bool
  | .string _ => true
  | _ => false

/-- `Reflect(Reader&, std::pair<optional<T1>, optional<T2>>&)` with its overloads for `bool` and `std::string`. -/
def readPair {α β : Type} (isBool isString : Bool) (readFirst : CursorM R α) (readSecond : CursorM R β)
    (value : Option α × Option β) : CursorM R (Option α × Option β) :=
  let first : CursorM R (Option α × Option β) := do return (← CursorM.readOptional readFirst value.1, value.2)
  let second : CursorM R (Option α × Option β) := do return (value.1, ← CursorM.readOptional readSecond value.2)
  if isBool then do if isBoolNode (← get).m then first else second
  else if isString then do if isStringNode (← get).m then first else second
  else CursorM.tryCatchAll second first

namespace CursorM

variable {σ α β : Type}

theorem bind_apply (f : CursorM R α) (g : α → CursorM R β) (reader : JsonReader R) :
    (f >>= g) reader = match f reader with
      | .ok a reader => g a reader
      | .error e reader => .error e reader := by
  change EStateM.bind f g reader = _
  rw [EStateM.bind]
  cases f reader <;> rfl

theorem get_apply (reader : JsonReader R) : (get : CursorM R (JsonReader R)) reader = .ok reader reader := rfl

theorem get_bind (g : JsonReader R → CursorM R β) (reader : JsonReader R) : (get >>= g) reader = g reader reader := rfl

theorem modify_apply (f : JsonReader R → JsonReader R) (reader : JsonReader R) :
    (modify f : CursorM R PUnit) reader = .ok ⟨⟩ (f reader) := rfl

theorem pure_apply (a : α) (reader : JsonReader R) : (pure a : CursorM R α) reader = .ok a reader := rfl

/-- From a path with `k + pre` names the read returns with at least `k + post` and throws with at least `k + thrown`. -/
def Leaves (pre post thrown : Nat) (f : CursorM R α) : Prop :=
  ∀ k reader, k + pre ≤ reader.path.length → match f reader with
    | .ok _ reader => k + post ≤ reader.path.length
    | .error _ reader => k + thrown ≤ reader.path.length

section Leaves

variable {pre post thrown : Nat}

theorem leaves_pure (a : α) : Leaves pre pre thrown (pure a : CursorM R α) := fun _ _ h => h

theorem leaves_get : Leaves pre pre thrown (get : CursorM R (JsonReader R)) := fun _ _ h => h

theorem leaves_throw (e : ReflectError) : Leaves pre post pre (throw e : CursorM R α) := fun _ _ h => h

theorem leaves_move (m : JsonDocument R) :
    Leaves pre pre thrown (modify fun reader => { reader with m := m } : CursorM R PUnit) := fun _ _ h => h

theorem leaves_push (name : Bytes) :
    Leaves pre (pre + 1) thrown (modify fun reader => reader.pushPath name : CursorM R PUnit) := by
  intro k reader h
  change k + (pre + 1) ≤ (reader.path ++ [name]).length
  rw [List.length_append, List.length_singleton]
  omega

theorem leaves_pop : Leaves (pre + 1) pre thrown (modify JsonReader.popPath : CursorM R PUnit) := by
  intro k reader h
  change k + pre ≤ reader.path.dropLast.length
  rw [List.length_dropLast]
  omega

theorem Leaves.bind {mid : Nat} {f : CursorM R α} {g : α → CursorM R β} (hf : Leaves pre mid thrown f)
    (hg : ∀ a, Leaves mid post thrown (g a)) : Leaves pre post thrown (f >>= g) := by
  intro k reader h
  rw [bind_apply]
  have hafter := hf k reader h
  cases hresult : f reader with
  | error e reader' =>
      rw [hresult] at hafter
      exact hafter
  | ok a reader' =>
      rw [hresult] at hafter
      exact hg a k reader' hafter

theorem Leaves.mono {thrown' : Nat} {f : CursorM R α} (hf : Leaves pre post thrown f) (h : thrown' ≤ thrown) :
    Leaves pre post thrown' f := by
  intro k reader hk
  have hafter := hf k reader hk
  cases hresult : f reader with
  | error e reader' =>
      rw [hresult] at hafter
      exact Nat.le_trans (Nat.add_le_add_left h k) hafter
  | ok a reader' =>
      rw [hresult] at hafter
      exact hafter

/-- A read that never shortens the path may stand below any number of names. -/
theorem Leaves.below {f : CursorM R α} (hf : Leaves 0 0 0 f) (hthrown : thrown ≤ pre) : Leaves pre pre thrown f := by
  intro k reader h
  have hafter := hf (k + pre) reader h
  cases hresult : f reader with
  | error e reader' =>
      rw [hresult] at hafter
      exact Nat.le_trans (Nat.add_le_add_left hthrown k) hafter
  | ok a reader' =>
      rw [hresult] at hafter
      exact hafter

/-- A read that returns does not shorten the path. -/
theorem Leaves.path_le {f : CursorM R α} (hf : Leaves 0 0 0 f) {a : α} {reader reader' : JsonReader R}
    (h : f reader = .ok a reader') : reader.path.length ≤ reader'.path.length := by
  have hafter := hf reader.path.length reader (Nat.le_refl _)
  rwa [h] at hafter

theorem leaves_iterEntries {fn : σ → CursorM R σ} (hfn : ∀ state, Leaves 0 0 0 (fn state))
    (entries : List (JsonDocument R)) (state : σ) : Leaves 0 0 0 (iterEntries fn entries state) := by
  induction entries generalizing state with
  | nil => exact leaves_pure state
  | cons entry rest ih =>
      exact leaves_get.bind fun _ => (leaves_move entry).bind fun _ => (hfn state).bind fun _ =>
        (leaves_move _).bind fun _ => ih _

theorem leaves_iterMembers {fn : Bytes → σ → CursorM R σ} (hfn : ∀ name state, Leaves 0 0 0 (fn name state))
    (members : List (Bytes × JsonDocument R)) (state : σ) : Leaves 0 0 0 (iterMembers fn members state) := by
  induction members generalizing state with
  | nil => exact leaves_pure state
  | cons entry rest ih =>
      exact leaves_get.bind fun _ => (leaves_move entry.2).bind fun _ => (hfn _ state).bind fun _ =>
        (leaves_move _).bind fun _ => ih _

/-- An element that throws leaves a name of its own on the path. -/
theorem leaves_elements {fn : σ → CursorM R σ} (hfn : ∀ state, Leaves 0 0 0 (fn state)) (state : σ)
    (entries : List (JsonDocument R)) :
    Leaves 0 0 1 (do
      modify fun reader => reader.pushPath (bytesOf "0")
      let state ← iterEntries fn entries state
      modify JsonReader.popPath
      return state : CursorM R σ) :=
  (leaves_push _).bind fun _ => ((leaves_iterEntries hfn entries state).below (Nat.le_refl 1)).bind fun state =>
    leaves_pop.bind fun _ => leaves_pure state

theorem leaves_iterArray {fn : σ → CursorM R σ} (hfn : ∀ state, Leaves 0 0 0 (fn state)) (state : σ) :
    Leaves 0 0 0 (iterArray fn state) := by
  refine leaves_get.bind fun reader => ?_
  split
  · exact (leaves_elements hfn state _).mono (Nat.zero_le 1)
  · exact leaves_throw _

theorem leaves_iterMap {fn : Bytes → σ → CursorM R σ} (hfn : ∀ name state, Leaves 0 0 0 (fn name state)) (state : σ) :
    Leaves 0 0 1 (iterMap fn state) := by
  refine (leaves_push _).bind fun _ => leaves_get.bind fun reader => ?_
  split
  · exact ((leaves_iterMembers hfn _ state).below (Nat.le_refl 1)).bind fun state =>
      leaves_pop.bind fun _ => leaves_pure state
  · exact leaves_throw _

theorem leaves_doMember (name : Bytes) {fn : σ → CursorM R σ} (hfn : ∀ state, Leaves 0 0 0 (fn state)) (state : σ) :
    Leaves 0 0 1 (doMember name fn state) := by
  refine leaves_get.bind fun reader => ?_
  split
  · refine (leaves_push name).bind fun _ => ?_
    split
    · exact leaves_get.bind fun _ => (leaves_move _).bind fun _ => ((hfn state).below (Nat.le_refl 1)).bind fun state =>
        (leaves_move _).bind fun _ => leaves_pop.bind fun _ => leaves_pure state
    · exact leaves_pop.bind fun _ => leaves_pure state
  · exact leaves_pure state

theorem leaves_readOptional {read : CursorM R α} (hread : Leaves 0 0 0 read) (value : Option α) :
    Leaves 0 0 0 (readOptional read value) := by
  refine leaves_get.bind fun reader => ?_
  split
  · exact leaves_pure value
  · exact hread.bind fun a => leaves_pure _

theorem leaves_tryCatchAll {attempt handler : CursorM R α} (hattempt : Leaves 0 0 0 attempt)
    (hhandler : Leaves 0 0 0 handler) : Leaves 0 0 0 (tryCatchAll attempt handler) := by
  intro k reader h
  have hafter := hattempt k reader h
  rw [tryCatchAll]
  cases hresult : attempt reader with
  | ok a reader' =>
      rw [hresult] at hafter
      exact hafter
  | error e reader' =>
      rw [hresult] at hafter
      cases e with
      | assertion => exact hafter
      | invalidArgument what => exact hhandler k reader' hafter

theorem leaves_readPair {isBool isString : Bool} {readFirst : CursorM R α} {readSecond : CursorM R β}
    (hfirst : Leaves 0 0 0 readFirst) (hsecond : Leaves 0 0 0 readSecond) (value : Option α × Option β) :
    Leaves 0 0 0 (readPair isBool isString readFirst readSecond value) := by
  have hfirst' : Leaves 0 0 0
      (do return (← readOptional readFirst value.1, value.2) : CursorM R (Option α × Option β)) :=
    (leaves_readOptional hfirst value.1).bind fun _ => leaves_pure _
  have hsecond' : Leaves 0 0 0
      (do return (value.1, ← readOptional readSecond value.2) : CursorM R (Option α × Option β)) :=
    (leaves_readOptional hsecond value.2).bind fun _ => leaves_pure _
  rw [readPair]
  split_ifs
  · refine leaves_get.bind fun reader => ?_
    split_ifs
    · exact hfirst'
    · exact hsecond'
  · refine leaves_get.bind fun reader => ?_
    split_ifs
    · exact hfirst'
    · exact hsecond'
  · exact leaves_tryCatchAll hsecond' hfirst'

end Leaves

/-! ### What an exception comes from -/

section Exceptions

variable {m : JsonDocument R} {path : List Bytes} {what : String} {reader : JsonReader R}

theorem bind_pure_error {f : CursorM R α} {g : α → β} {e : ReflectError} {reader' : JsonReader R} :
    (f >>= fun a => pure (g a)) reader = .error e reader' ↔ f reader = .error e reader' := by
  rw [bind_apply]
  cases f reader with
  | ok a r => exact iff_of_false (fun h => by cases h) fun h => by cases h
  | error e' r => simp

theorem bind_pure_ok {f : CursorM R α} {a : α} {reader' : JsonReader R} (h : f reader = .ok a reader') (g : α → β) :
    (f >>= fun a => pure (g a)) reader = .ok (g a) reader' := by
  rw [bind_apply, h]
  rfl

theorem bind_pure_eq_ok {f : CursorM R α} {g : α → β} {b : β} {reader' : JsonReader R} :
    (f >>= fun a => pure (g a)) reader = .ok b reader' ↔ ∃ a, f reader = .ok a reader' ∧ g a = b := by
  rw [bind_apply]
  cases f reader with
  | ok a r =>
      constructor
      · intro h
        cases h
        exact ⟨a, rfl, rfl⟩
      · rintro ⟨a', h, rfl⟩
        cases h
        rfl
  | error e r => exact iff_of_false (fun h => by cases h) fun ⟨_, h, _⟩ => by cases h

theorem tryCatchAll_of_error {attempt handler : CursorM R α} {mid : JsonReader R}
    (h : attempt reader = .error (.invalidArgument what) mid) : tryCatchAll attempt handler reader = handler mid := by
  rw [tryCatchAll, h]

theorem tryCatchAll_of_ok {attempt handler : CursorM R α} {a : α} {reader' : JsonReader R}
    (h : attempt reader = .ok a reader') : tryCatchAll attempt handler reader = .ok a reader' := by
  rw [tryCatchAll, h]

/-- A `try` block returns what its body returns, or what the handler returns from where that has thrown. -/
theorem tryCatchAll_ok {attempt handler : CursorM R α} {a : α} {reader' : JsonReader R}
    (h : tryCatchAll attempt handler reader = .ok a reader') :
    attempt reader = .ok a reader' ∨
      ∃ what mid, attempt reader = .error (.invalidArgument what) mid ∧ handler mid = .ok a reader' := by
  rw [tryCatchAll] at h
  split at h
  · rename_i what mid hattempt
    exact .inr ⟨what, mid, hattempt, h⟩
  · exact .inl h

/-- An optional value throws where its node is not `null` and its read throws. -/
theorem readOptional_error {read : CursorM R α} {value : Option α} {e : ReflectError}
    (h : readOptional read value ⟨m, path⟩ = .error e reader) : m ≠ .null ∧ read ⟨m, path⟩ = .error e reader := by
  cases m with
  | null => cases h
  | _ => exact ⟨by simp, bind_pure_error.mp h⟩

/-- A pair of alternatives reads the first one, or the second one, or the first one where the second one has thrown. -/
theorem readPair_error {isBool isString : Bool} {readFirst : CursorM R α} {readSecond : CursorM R β}
    {value : Option α × Option β} (h : readPair isBool isString readFirst readSecond value ⟨m, path⟩ =
      .error (.invalidArgument what) reader) :
    (isBool = true ∧ isBoolNode m = true ∨ isString = true ∧ isStringNode m = true) ∧
        readOptional readFirst value.1 ⟨m, path⟩ = .error (.invalidArgument what) reader ∨
      (isBool = true ∧ isBoolNode m = false ∨ isString = true ∧ isStringNode m = false) ∧
        readOptional readSecond value.2 ⟨m, path⟩ = .error (.invalidArgument what) reader ∨
      ∃ what' mid, readOptional readSecond value.2 ⟨m, path⟩ = .error (.invalidArgument what') mid ∧
        readOptional readFirst value.1 mid = .error (.invalidArgument what) reader := by
  rw [readPair] at h
  split_ifs at h with hbool hstring
  · rw [get_bind] at h
    split_ifs at h with hnode
    · exact .inl ⟨.inl ⟨hbool, hnode⟩, bind_pure_error.mp h⟩
    · exact .inr (.inl ⟨.inl ⟨hbool, Bool.eq_false_iff.mpr hnode⟩, bind_pure_error.mp h⟩)
  · rw [get_bind] at h
    split_ifs at h with hnode
    · exact .inl ⟨.inr ⟨hstring, hnode⟩, bind_pure_error.mp h⟩
    · exact .inr (.inl ⟨.inr ⟨hstring, Bool.eq_false_iff.mpr hnode⟩, bind_pure_error.mp h⟩)
  · rw [tryCatchAll] at h
    split at h
    · rename_i what' mid hsecond
      exact .inr (.inr ⟨what', mid, bind_pure_error.mp hsecond, bind_pure_error.mp h⟩)
    · rename_i hcaught
      exact absurd h (hcaught what reader)

end Exceptions

/-- The read without the place where an exception leaves the reader. -/
def returned (f : CursorM R α) (reader : JsonReader R) : Except ReflectError (α × JsonReader R) :=
  match f reader with
  | .ok a reader => .ok (a, reader)
  | .error e _ => .error e

theorem returned_bind (f : CursorM R α) (g : α → CursorM R β) (reader : JsonReader R) :
    returned (f >>= g) reader = returned f reader >>= fun (a, reader) => returned (g a) reader := by
  rw [returned, bind_apply, returned]
  cases f reader <;> rfl

theorem returned_iterEntries (fn : σ → CursorM R σ) (entries : List (JsonDocument R)) (state : σ)
    (reader : JsonReader R) :
    returned (iterEntries fn entries state) reader =
      JsonReader.iterEntries (fun state => returned (fn state)) entries state reader := by
  induction entries generalizing state reader with
  | nil => rfl
  | cons entry rest ih =>
      rw [JsonReader.iterEntries]
      change returned (fn state >>= _) { reader with m := entry } = _
      rw [returned_bind]
      congr 1
      funext result
      exact ih result.1 { result.2 with m := reader.m }

theorem returned_iterMembers (fn : Bytes → σ → CursorM R σ) (members : List (Bytes × JsonDocument R)) (state : σ)
    (reader : JsonReader R) :
    returned (iterMembers fn members state) reader =
      JsonReader.iterMembers (fun name state => returned (fn name state)) members state reader := by
  induction members generalizing state reader with
  | nil => rfl
  | cons entry rest ih =>
      rw [JsonReader.iterMembers]
      change returned (fn (cStr entry.1) state >>= _) { reader with m := entry.2 } = _
      rw [returned_bind]
      congr 1
      funext result
      exact ih result.1 { result.2 with m := reader.m }

theorem returned_iterArray (fn : σ → CursorM R σ) (state : σ) (reader : JsonReader R) :
    returned (iterArray fn state) reader = JsonReader.iterArray (fun state => returned (fn state)) state reader := by
  obtain ⟨m, path⟩ := reader
  cases m with
  | array entries =>
      change returned (iterEntries fn entries state >>= _) _ = _
      rw [returned_bind, returned_iterEntries]
      rfl
  | _ => rfl

theorem returned_iterMap (fn : Bytes → σ → CursorM R σ) (state : σ) (reader : JsonReader R) :
    returned (iterMap fn state) reader =
      JsonReader.iterMap (fun name state => returned (fn name state)) state reader := by
  obtain ⟨m, path⟩ := reader
  cases m with
  | object members =>
      change returned (iterMembers fn members state >>= _) _ = _
      rw [returned_bind, returned_iterMembers]
      rfl
  | _ => rfl

theorem returned_doMember (name : Bytes) (fn : σ → CursorM R σ) (state : σ) (reader : JsonReader R) :
    returned (doMember name fn state) reader =
      JsonReader.doMember name (fun state => returned (fn state)) state reader := by
  obtain ⟨m, path⟩ := reader
  cases m with
  | object members =>
      cases hfind : JsonReader.findMember name members with
      | none =>
          simp only [returned, doMember, JsonReader.doMember, bind_apply, get_apply, modify_apply, hfind, pure_apply]
      | some value =>
          simp only [returned, doMember, JsonReader.doMember, JsonReader.pushPath, bind_apply, get_apply, modify_apply,
            hfind]
          cases fn state ⟨value, path ++ [name]⟩ <;> rfl
  | _ => rfl

theorem returned_readOptional (read : CursorM R α) (value : Option α) (reader : JsonReader R) :
    returned (readOptional read value) reader =
      match reader.m with
      | .null => .ok (value, reader)
      | _ => (do
          let (realValue, reader) ← returned read reader
          .ok (some realValue, reader)) := by
  obtain ⟨m, path⟩ := reader
  cases m with
  | null => rfl
  | _ =>
      change returned (read >>= fun realValue => pure (some realValue)) _ = _
      rw [returned_bind]
      rfl

end CursorM

end LspCpp

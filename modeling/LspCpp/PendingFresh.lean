import LspCpp.PendingCovered
import LspCpp.PendingMatch
import LspCpp.PendingTimeout
import LspCpp.ReplyClassify

/-! Outgoing requests whose ids are never used twice. Then an id stands for one request in the whole run: in the table,
in the responses that are taken up under it, and in what the responses complete. -/

namespace LspCpp

/-- An id that reaches the other side as it is: a 64-bit integer or a string without a NUL. -/
def LsRequestId.IsWritten (id : LsRequestId) : Prop := id.reflectWriter.IsRequestId

instance (id : LsRequestId) : Decidable id.IsWritten := inferInstanceAs (Decidable id.reflectWriter.IsRequestId)

theorem LsRequestId.IsWritten.hasValue {id : LsRequestId} (h : id.IsWritten) : id.hasValue = true := by
  cases id with
  | kNone => exact h.elim
  | kInt value => rfl
  | kString text => rfl

/-- An id is read as it was written. -/
theorem LsRequestId.IsWritten.reflectReader {id : LsRequestId} (h : id.IsWritten) :
    LsRequestId.reflectReader id.reflectWriter = id := by
  cases id with
  | kNone => exact h.elim
  | kInt value =>
      have hrange : -2 ^ 63 ≤ value ∧ value < 2 ^ 63 := h
      rw [LsRequestId.reflectWriter, LsRequestId.reflectReader, if_pos hrange]
  | kString text =>
      have hnul : '\x00' ∉ text.toList := h
      rw [LsRequestId.reflectWriter, LsRequestId.reflectReader, getString_eq_self hnul]

/-- The values of an `int`. -/
def IsInt (n : Int) : Prop := -2147483648 ≤ n ∧ n ≤ 2147483647

instance (n : Int) : Decidable (IsInt n) := inferInstanceAs (Decidable (_ ∧ _))

theorem isInt_incrementInt {n : Int} (h : IsInt n) : IsInt (incrementInt n) := by
  rw [IsInt] at h
  rw [incrementInt]
  split_ifs with hlast
  · decide
  · rw [IsInt]
    omega

theorem IsInt.isWritten {n : Int} (h : IsInt n) : (LsRequestId.kInt n).IsWritten := by
  rw [IsInt] at h
  show -2 ^ 63 ≤ n ∧ n < 2 ^ 63
  omega

namespace PendingState

/-- What the callers promise: an id that they choose reaches the other side as it is, and no id is used twice, also not
one that is drawn. -/
def FreshId : PendingAction → PendingState → Prop
  | .sendBegin id _, _ => id.hasValue = true → id.IsWritten
  | .sendRegister, s =>
      ∀ id ∈ s.sending.bind SendPhase.chosen,
        ∀ accepted ∈ s.table.pendingRequest s.limits id s.nextInfo,
          ∀ o < s.nextInfo, ∀ info ∈ s.infos o, info.id ≠ accepted.2
  | _, _ => True

instance (a : PendingAction) (s : PendingState) : Decidable (FreshId a s) :=
  match a with
  | .sendBegin id _ => inferInstanceAs (Decidable (id.hasValue = true → id.IsWritten))
  | .sendRegister => inferInstanceAs (Decidable (∀ id ∈ s.sending.bind SendPhase.chosen,
      ∀ accepted ∈ s.table.pendingRequest s.limits id s.nextInfo,
        ∀ o < s.nextInfo, ∀ info ∈ s.infos o, info.id ≠ accepted.2))
  | .sendReturn | .sendThrow | .receive _ | .parsed .. | .parseThrows _ | .submit _ | .route _ | .remove _
  | .completeNow _ | .handOff _ | .post _ | .poolBegin _ | .poolComplete _ | .timeout _ | .stop =>
      inferInstanceAs (Decidable True)

/-- Requests keep their ids, and responses their ids and the requests that held these; what a sender brings to the
registration it has brought before. A response that is new has been looked up in the table. -/
structure Keeps (a : PendingAction) (s s' : PendingState) : Prop where
  counter : s'.table.mId = s.table.mId
  next : s'.nextResponse = s.nextResponse ∨ ∃ id, a = .receive id
  chosen : ∀ id deferred, s'.sending = some (.checked id deferred) → s.sending = some (.checked id deferred)
  infos : ∀ o info, s.infos o = some info → ∃ info', s'.infos o = some info' ∧ info'.id = info.id
  responses : ∀ t r', s'.responses t = some r' →
    (∃ r, s.responses t = some r ∧ r'.id = r.id ∧ r'.heldBy = r.heldBy) ∨
      (∃ id, a = .receive id) ∧ s.table.getRequestInfo r'.id = some r'.heldBy

section Keeps

variable {a : PendingAction} {s s' : PendingState}

theorem keeps_of_same (hcounter : s'.table.mId = s.table.mId) (hnext : s'.nextResponse = s.nextResponse)
    (hchosen : ∀ id deferred, s'.sending = some (.checked id deferred) → s.sending = some (.checked id deferred))
    (hinfos : s'.infos = s.infos) (hresponses : s'.responses = s.responses) : Keeps a s s' where
  counter := hcounter
  next := .inl hnext
  chosen := hchosen
  infos _ info h := ⟨info, hinfos ▸ h, rfl⟩
  responses _ r' h := .inl ⟨r', hresponses ▸ h, rfl, rfl⟩

theorem keeps_of_setPhase {t : Nat} {r : IncomingResponse} (hr : s.responses t = some r) {phase : ResponsePhase}
    (hcounter : s'.table.mId = s.table.mId) (hnext : s'.nextResponse = s.nextResponse)
    (hsending : s'.sending = s.sending)
    (hinfos : s'.infos = s.infos) (hresponses : s'.responses = (s.setPhase t r phase).responses) : Keeps a s s' where
  counter := hcounter
  next := .inl hnext
  chosen _ _ h := hsending ▸ h
  infos _ info h := ⟨info, hinfos ▸ h, rfl⟩
  responses t' r' h := by
    rw [hresponses, setPhase_responses] at h
    split_ifs at h with ht
    · cases h
      exact .inl ⟨r, ht ▸ hr, rfl, rfl⟩
    · exact .inl ⟨r', h, rfl, rfl⟩

theorem infos_of_setInfo {o : Nat} {info : PendingRequestInfo} (hinfo : s.infos o = some info)
    (info' : PendingRequestInfo) (hid : info'.id = info.id) (hinfos : s'.infos = (s.setInfo o info').infos) (o' : Nat)
    (q : PendingRequestInfo) (hq : s.infos o' = some q) : ∃ q', s'.infos o' = some q' ∧ q'.id = q.id := by
  by_cases ho : o' = o
  · obtain rfl := Option.some.inj (hinfo.symm.trans (ho ▸ hq))
    exact ⟨info', by rw [hinfos, setInfo_infos, if_pos ho], hid⟩
  · exact ⟨q, by rw [hinfos, setInfo_infos, if_neg ho, hq], rfl⟩

theorem keeps_of_setInfo {o : Nat} {info : PendingRequestInfo} (hinfo : s.infos o = some info)
    (info' : PendingRequestInfo) (hid : info'.id = info.id) (hcounter : s'.table.mId = s.table.mId)
    (hnext : s'.nextResponse = s.nextResponse)
    (hchosen : ∀ id deferred, s'.sending = some (.checked id deferred) → s.sending = some (.checked id deferred))
    (hinfos : s'.infos = (s.setInfo o info').infos) (hresponses : s'.responses = s.responses) : Keeps a s s' where
  counter := hcounter
  next := .inl hnext
  chosen := hchosen
  infos := infos_of_setInfo hinfo info' hid hinfos
  responses _ r' h := .inl ⟨r', hresponses ▸ h, rfl, rfl⟩

theorem infos_of_complete (o : Nat) (response : Option Nat) (hinfos : s'.infos = (s.complete o response).infos)
    (o' : Nat) (q : PendingRequestInfo) (hq : s.infos o' = some q) : ∃ q', s'.infos o' = some q' ∧ q'.id = q.id := by
  rcases complete_cases s o response with ⟨heq, _⟩ | ⟨info, hinfo, _, heq⟩
  · exact ⟨q, by rw [hinfos, heq, hq], rfl⟩
  · rw [heq] at hinfos
    exact infos_of_setInfo hinfo { info with completed := true } rfl hinfos o' q hq

theorem keeps_of_complete (o : Nat) (response : Option Nat) (hcounter : s'.table.mId = s.table.mId)
    (hnext : s'.nextResponse = s.nextResponse) (hsending : s'.sending = s.sending)
    (hinfos : s'.infos = (s.complete o response).infos) (hresponses : s'.responses = s.responses) : Keeps a s s' where
  counter := hcounter
  next := .inl hnext
  chosen _ _ h := hsending ▸ h
  infos := infos_of_complete o response hinfos
  responses _ r' h := .inl ⟨r', hresponses ▸ h, rfl, rfl⟩

theorem keeps_stop (h : step .stop s = some s') : Keeps .stop s s' := by
  obtain ⟨_, rfl⟩ | ⟨_, _, rfl⟩ | ⟨_, rfl⟩ | ⟨_, _, rfl⟩ | ⟨_, rfl⟩ | ⟨o, rest, _, rfl⟩ | ⟨_, rfl⟩ |
    ⟨_, rfl⟩ := step_stop h
  case inr.inr.inr.inr.inr.inl =>
    obtain ⟨_, _, heq, _⟩ := complete_frame s o none
    exact keeps_of_complete o none (by rw [heq]) (by rw [heq]) (by rw [heq]) rfl (by rw [heq])
  all_goals exact keeps_of_same rfl rfl (fun _ _ h => h) rfl rfl

/-- The steps that bring no id to the registration and register nothing. -/
theorem keeps_of_step {a : PendingAction} (ha : a ≠ .sendRegister) (hbegin : ∀ id deferred, a ≠ .sendBegin id deferred)
    (h : step a s = some s') : Keeps a s s' := by
  cases a with
  | sendBegin id deferred => exact absurd rfl (hbegin id deferred)
  | sendRegister => exact absurd rfl ha
  | sendReturn =>
      obtain ⟨o, info, _, hinfo, rfl⟩ := step_sendReturn h
      exact keeps_of_setInfo hinfo { info with sent := true } rfl rfl rfl (fun _ _ h => nomatch h) rfl rfl
  | sendThrow =>
      obtain ⟨o, info, _, _, rfl⟩ := step_sendThrow h
      refine keeps_of_same ?_ rfl (fun _ _ h => nomatch h) rfl rfl
      cases hremoved : s.table.removeExpected info.id o with
      | none => rfl
      | some table =>
          obtain ⟨_, rfl⟩ := PendingTable.removeExpected_eq_some hremoved
          rfl
  | receive id =>
      obtain rfl | ⟨o, hentry, rfl⟩ := step_receive h
      · exact keeps_of_same rfl rfl (fun _ _ h => h) rfl rfl
      · refine ⟨rfl, .inr ⟨id, rfl⟩, fun _ _ h => h, fun o info hinfo => ⟨info, hinfo, rfl⟩, fun t r' hr' => ?_⟩
        replace hr' : (if t = s.nextResponse then _ else s.responses t) = some r' :=
          (setPhase_responses _ _ _ _ _).symm.trans hr'
        split_ifs at hr' with ht
        · cases hr'
          exact .inr ⟨⟨_, rfl⟩, hentry⟩
        · exact .inl ⟨r', hr', rfl, rfl⟩
  | parsed t msgId =>
      obtain ⟨r, hr, _, rfl⟩ := step_parsed h
      exact keeps_of_setPhase hr rfl rfl rfl rfl rfl
  | parseThrows t =>
      obtain ⟨r, hr, _, rfl | ⟨o, _, rfl⟩⟩ := step_parseThrows h
      · exact keeps_of_setPhase hr rfl rfl rfl rfl rfl
      · exact keeps_of_setPhase hr rfl rfl rfl rfl rfl
  | submit t =>
      obtain ⟨r, msgId, o, hr, _, _, ⟨_, rfl⟩ | ⟨_, rfl⟩⟩ := step_submit h
      · exact keeps_of_setPhase hr rfl rfl rfl rfl rfl
      · exact keeps_of_setPhase hr rfl rfl rfl rfl rfl
  | route t =>
      obtain ⟨r, msgId, o, hr, _, rfl | rfl⟩ := step_route h
      · exact keeps_of_setPhase hr rfl rfl rfl rfl rfl
      · exact keeps_of_setPhase hr rfl rfl rfl rfl rfl
  | remove t =>
      obtain ⟨r, msgId, o, hr, _, rfl | ⟨_, rfl⟩⟩ := step_remove h
      · exact keeps_of_setPhase hr rfl rfl rfl rfl rfl
      · exact keeps_of_setPhase hr rfl rfl rfl rfl rfl
  | completeNow t =>
      obtain ⟨r, o, hr, _, rfl⟩ := step_completeNow h
      obtain ⟨_, _, heq, _⟩ := complete_frame s o (some t)
      have hkept : Keeps (.completeNow t) s { s.setPhase t r .done with dispatch := none } :=
        keeps_of_setPhase hr rfl rfl rfl rfl rfl
      have hinfos : ∀ o' q, s.infos o' = some q →
          ∃ q', (s.complete o (some t)).infos o' = some q' ∧ q'.id = q.id := infos_of_complete o (some t) rfl
      rw [heq] at hinfos ⊢
      exact ⟨rfl, .inl rfl, fun _ _ h => h, hinfos, hkept.responses⟩
  | handOff t =>
      obtain ⟨r, o, hr, _, ⟨_, rfl⟩ | ⟨_, rfl⟩⟩ := step_handOff h
      · exact keeps_of_setPhase hr rfl rfl rfl rfl rfl
      · exact keeps_of_setPhase hr rfl rfl rfl rfl rfl
  | post t =>
      obtain ⟨r, o, hr, _, rfl⟩ := step_post h
      exact keeps_of_setPhase hr rfl rfl rfl rfl rfl
  | poolBegin task =>
      obtain ⟨_, _, rfl⟩ := step_poolBegin h
      exact keeps_of_same rfl rfl (fun _ _ h => h) rfl rfl
  | poolComplete task =>
      obtain ⟨_, rfl⟩ := step_poolComplete h
      obtain ⟨_, _, heq, _⟩ := complete_frame s task.request (some task.response)
      exact keeps_of_complete task.request (some task.response) (by rw [heq]) (by rw [heq]) (by rw [heq]) rfl
        (by rw [heq])
  | timeout o =>
      obtain ⟨info, _, ⟨rfl, _⟩ | ⟨o', info', _, hinfo', rfl⟩⟩ := step_timeout h
      · exact keeps_of_same rfl rfl (fun _ _ h => h) rfl rfl
      · exact keeps_of_setInfo hinfo' { info' with withdrawn := true } rfl rfl rfl (fun _ _ h => h) rfl rfl
  | stop => exact keeps_stop h

/-- Only a response that is read is new. -/
theorem responses_of_step (ha : ∀ id, a ≠ .receive id) (h : step a s = some s') :
    s'.nextResponse = s.nextResponse ∧ ∀ t r', s'.responses t = some r' →
      ∃ r, s.responses t = some r ∧ r'.id = r.id ∧ r'.heldBy = r.heldBy := by
  have hold : ∀ t r', s.responses t = some r' → ∃ r, s.responses t = some r ∧ r'.id = r.id ∧ r'.heldBy = r.heldBy :=
    fun t r' hr' => ⟨r', hr', rfl, rfl⟩
  by_cases hregister : a = .sendRegister
  · subst hregister
    obtain ⟨id, deferred, -, rfl | ⟨table, id', -, rfl⟩⟩ := step_sendRegister h
    · exact ⟨rfl, hold⟩
    · exact ⟨rfl, hold⟩
  by_cases hbegin : ∃ id deferred, a = .sendBegin id deferred
  · obtain ⟨id, deferred, rfl⟩ := hbegin
    obtain ⟨-, ⟨-, rfl⟩ | ⟨-, rfl⟩⟩ := step_sendBegin h
    · exact ⟨rfl, hold⟩
    · exact ⟨rfl, hold⟩
  have hkeeps := keeps_of_step hregister (fun id deferred heq => hbegin ⟨id, deferred, heq⟩) h
  refine ⟨hkeeps.next.resolve_right fun ⟨id, hid⟩ => ha id hid, fun t r' hr' => ?_⟩
  exact (hkeeps.responses t r' hr').resolve_right fun ⟨⟨id, hid⟩, _⟩ => ha id hid

end Keeps

/-! ### Ids stand for requests -/

/-- Every id that is in use belongs to one request, and no other request ever has it. -/
structure Keyed (s : PendingState) : Prop where
  counter : IsInt s.table.mId
  chosen : ∀ id deferred, s.sending = some (.checked id deferred) → id.hasValue = true → id.IsWritten
  bound : ∀ o info, s.infos o = some info → o < s.nextInfo
  written : ∀ o info, s.infos o = some info → info.id.IsWritten
  distinct : ∀ o o' info info', s.infos o = some info → s.infos o' = some info' → info.id = info'.id → o = o'
  entries : ∀ id o, s.table.getRequestInfo id = some o → ∃ info, s.infos o = some info ∧ info.id = id
  held : ∀ t r, s.responses t = some r → ∃ info, s.infos r.heldBy = some info ∧ info.id = r.id

section Keyed

variable {s s' : PendingState}

theorem Keyed.other (h : s.Keyed) {a : PendingAction} (hkeeps : Keeps a s s') (hshrinks : Shrinks s s') : s'.Keyed := by
  constructor
  · rw [hkeeps.counter]
    exact h.counter
  · intro id deferred hsending hvalue
    exact h.chosen id deferred (hkeeps.chosen id deferred hsending) hvalue
  · intro o info' hinfo'
    obtain ⟨info, hinfo, -⟩ := hshrinks.infos o info' hinfo'
    rw [hshrinks.nextInfo]
    exact h.bound o info hinfo
  · intro o info' hinfo'
    obtain ⟨info, hinfo, hid, -⟩ := hshrinks.infos o info' hinfo'
    rw [hid]
    exact h.written o info hinfo
  · intro o o' info₁ info₂ h₁ h₂ heq
    obtain ⟨info, hinfo, hid, -⟩ := hshrinks.infos o info₁ h₁
    obtain ⟨info', hinfo', hid', -⟩ := hshrinks.infos o' info₂ h₂
    apply h.distinct o o' info info' hinfo hinfo'
    rw [← hid, ← hid', heq]
  · intro id o hentry
    obtain ⟨info, hinfo, hid⟩ := h.entries id o (hshrinks.table id o hentry)
    obtain ⟨info', hinfo', hid'⟩ := hkeeps.infos o info hinfo
    exact ⟨info', hinfo', by rw [hid', hid]⟩
  · intro t r' hr'
    rcases hkeeps.responses t r' hr' with ⟨r, hr, hid, hheld⟩ | ⟨-, hentry⟩
    · obtain ⟨info, hinfo, hid'⟩ := h.held t r hr
      obtain ⟨info', hinfo', hid''⟩ := hkeeps.infos r.heldBy info hinfo
      exact ⟨info', hheld ▸ hinfo', by rw [hid'', hid', hid]⟩
    · obtain ⟨info, hinfo, hid⟩ := h.entries r'.id r'.heldBy hentry
      obtain ⟨info', hinfo', hid'⟩ := hkeeps.infos r'.heldBy info hinfo
      exact ⟨info', hinfo', by rw [hid', hid]⟩

/-- A request that is registered has an id of its own. -/
theorem Keyed.register (h : s.Keyed) {id id' : LsRequestId} {deferred : Bool} {table : PendingTable}
    (hsending : s.sending = some (.checked id deferred))
    (hreg : s.table.pendingRequest s.limits id s.nextInfo = some (table, id'))
    (hfresh : ∀ o < s.nextInfo, ∀ info ∈ s.infos o, info.id ≠ id') :
    Keyed { s.setInfo s.nextInfo { id := id', deferredCallback := deferred } with
      table := table
      nextInfo := s.nextInfo + 1
      sending := some (.registered s.nextInfo) } := by
  obtain ⟨hid, htable⟩ := PendingTable.pendingRequest_eq_some hreg
  have hcounter : IsInt table.mId := by
    rw [PendingTable.pendingRequest] at hreg
    split_ifs at hreg
    · cases hreg
      exact h.counter
    · cases hreg
      exact isInt_incrementInt h.counter
  have hwritten : id'.IsWritten := by
    rcases hid with ⟨hvalue, -, rfl⟩ | ⟨-, rfl⟩
    · exact h.chosen id' deferred hsending hvalue
    · exact h.counter.isWritten
  have hinfos : ∀ {o info}, (if o = s.nextInfo then some { id := id', deferredCallback := deferred } else s.infos o) =
      some info → (o = s.nextInfo ∧ info.id = id') ∨ (o < s.nextInfo ∧ s.infos o = some info ∧ info.id ≠ id') := by
    intro o info hinfo
    split_ifs at hinfo with ho
    · cases hinfo
      exact .inl ⟨ho, rfl⟩
    · have hlt := h.bound o info hinfo
      exact .inr ⟨hlt, hinfo, hfresh o hlt info hinfo⟩
  have hold : ∀ o info, s.infos o = some info →
      (if o = s.nextInfo then some { id := id', deferredCallback := deferred } else s.infos o) = some info := by
    intro o info hinfo
    rw [if_neg (Nat.ne_of_lt (h.bound o info hinfo)), hinfo]
  simp only [← setInfo_infos] at hinfos hold
  constructor
  · exact hcounter
  · intro id deferred hsending'
    cases hsending'
  · intro o info hinfo
    rcases hinfos hinfo with ⟨rfl, -⟩ | ⟨hlt, -⟩
    · exact Nat.lt_succ_self _
    · exact Nat.lt_succ_of_lt hlt
  · intro o info hinfo
    rcases hinfos hinfo with ⟨-, hnew⟩ | ⟨-, hinfo', -⟩
    · rw [hnew]
      exact hwritten
    · exact h.written o info hinfo'
  · intro o o' info info' hinfo hinfo' heq
    rcases hinfos hinfo with ⟨ho, hnew⟩ | ⟨-, hinfo₁, hne⟩
    · rcases hinfos hinfo' with ⟨ho', -⟩ | ⟨-, -, hne'⟩
      · rw [ho, ho']
      · exact absurd (heq.symm.trans hnew) hne'
    · rcases hinfos hinfo' with ⟨-, hnew'⟩ | ⟨-, hinfo₂, -⟩
      · exact absurd (heq.trans hnew') hne
      · exact h.distinct o o' info info' hinfo₁ hinfo₂ heq
  · intro k o hentry
    rw [htable] at hentry
    split_ifs at hentry with hk
    · cases hentry
      exact ⟨_, by rw [setInfo_infos, if_pos rfl], hk.symm⟩
    · obtain ⟨info, hinfo, hid'⟩ := h.entries k o hentry
      exact ⟨info, hold o info hinfo, hid'⟩
  · intro t r hr
    obtain ⟨info, hinfo, hid'⟩ := h.held t r hr
    exact ⟨info, hold _ info hinfo, hid'⟩

theorem Keyed.step (h : s.Keyed) {a : PendingAction} (hfresh : FreshId a s) (hstep : step a s = some s') :
    s'.Keyed := by
  by_cases ha : a = .sendRegister
  · subst ha
    obtain ⟨id, deferred, hsending, rfl | ⟨table, id', hreg, rfl⟩⟩ := step_sendRegister hstep
    · exact { h with chosen := fun _ _ h => nomatch h }
    · refine h.register hsending hreg ?_
      exact hfresh id (by rw [hsending]; rfl) (table, id') hreg
  · have hshrinks := shrinks_of_step ha hstep
    by_cases hbegin : ∃ id deferred, a = .sendBegin id deferred
    · obtain ⟨id, deferred, rfl⟩ := hbegin
      obtain ⟨_, ⟨_, rfl⟩ | ⟨_, rfl⟩⟩ := step_sendBegin hstep
      · refine { h with chosen := fun id' deferred' hchosen hvalue => ?_ }
        cases hchosen
        exact hfresh hvalue
      · exact h
    · exact h.other (keeps_of_step ha (fun id deferred heq => hbegin ⟨id, deferred, heq⟩) hstep) hshrinks

theorem keyed_init (limits : RemoteEndPointLimits) : Keyed { limits := limits } where
  counter := by
    show IsInt 0
    decide
  chosen _ _ h := by cases h
  bound _ _ h := by cases h
  written _ _ h := by cases h
  distinct _ _ _ _ h := by cases h
  entries _ _ h := by cases h
  held _ _ h := by cases h

theorem reachable_keyed (hs : pendingSystem.ReachableIf FreshId s) : s.Keyed := by
  refine hs.invariant Keyed ?_ fun a s s' h hfresh hstep => h.step hfresh hstep
  rintro s ⟨limits, rfl⟩
  exact keyed_init limits

/-- A lookup under the id of a response finds the request that held it, or none. -/
theorem Keyed.holder (h : s.Keyed) {t : Nat} {r : IncomingResponse} (hr : s.responses t = some r) {o : Nat}
    (hentry : s.table.getRequestInfo r.id = some o) : o = r.heldBy := by
  obtain ⟨info, hinfo, hid⟩ := h.entries r.id o hentry
  obtain ⟨info', hinfo', hid'⟩ := h.held t r hr
  exact h.distinct o r.heldBy info info' hinfo hinfo' (hid.trans hid'.symm)

end Keyed

end PendingState

end LspCpp

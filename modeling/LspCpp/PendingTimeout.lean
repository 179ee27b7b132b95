import LspCpp.PendingCovered

/-! Calls that wait for a response with a time limit. A wait that expires and the removal of the id that
follows it are two steps, between which responses are processed and requests are sent; the removal is by the
id alone. -/

namespace LspCpp

/-- A call of `removeRequestInfo(id)` for the timed out request `request`, and the request that it found under
the id. -/
structure Removal where
  request : Nat
  removed : Option Nat
  deriving DecidableEq, Repr

/-- `timed` tells which requests are sent by a call with a time limit; `expired` are the requests whose wait has
ended without a response. -/
structure TimeoutState where
  pending : PendingState := {}
  timed : Nat → Bool := fun _ => true
  expired : List Nat := []
  removals : List Removal := []

inductive TimeoutAction where
  | pending (a : PendingAction)
  | expire (o : Nat)
  | withdraw (o : Nat)
  deriving DecidableEq, Repr

/-- The id with which a sender comes to the registration; it has no value where one is to be drawn. -/
def SendPhase.chosen : SendPhase → Option LsRequestId
  | .checked id _ => some id
  | .registered _ => none

namespace TimeoutState

/-- The requests whose removal after the timeout has been done. -/
def withdrawn (s : TimeoutState) : List Nat := s.removals.map Removal.request

/-- The wait of a call with a time limit can still expire. -/
def CanExpire (s : TimeoutState) (o : Nat) (info : PendingRequestInfo) : Prop :=
  s.timed o = true ∧ info.deferredCallback = false ∧ info.sent = true ∧ info.completed = false ∧ o ∉ s.expired

instance (s : TimeoutState) (o : Nat) (info : PendingRequestInfo) : Decidable (s.CanExpire o info) :=
  inferInstanceAs (Decidable (_ ∧ _))

/-- Steps of the endpoint other than timeouts, and the two steps of a timeout: `internalWaitResponse` or
`waitResponse` finds no response, and then removes the id of its request. -/
def step : TimeoutAction → TimeoutState → Option TimeoutState
  | .pending (.timeout _), _ => none
  | .pending a, s => (PendingState.step a s.pending).map fun pending => { s with pending := pending }
  | .expire o, s =>
      (s.pending.infos o).bind fun info =>
        if s.CanExpire o info then some { s with expired := o :: s.expired } else none
  | .withdraw o, s =>
      (s.pending.infos o).bind fun info =>
        if o ∈ s.expired ∧ o ∉ s.withdrawn then
          some { s with
            pending := s.pending.withdraw info.id
            removals := ⟨o, s.pending.table.getRequestInfo info.id⟩ :: s.removals }
        else none

/-- A call with a time limit has not returned: its wait goes on, or its removal has still to be done. -/
def Awaited (s : TimeoutState) (o : Nat) (info : PendingRequestInfo) : Prop :=
  s.CanExpire o info ∨ o ∈ s.expired ∧ o ∉ s.withdrawn

instance (s : TimeoutState) (o : Nat) (info : PendingRequestInfo) : Decidable (s.Awaited o info) :=
  inferInstanceAs (Decidable (_ ∨ _))

/-- The removals take no request but their own out of the table. -/
def WithdrawsOwn (s : TimeoutState) : Prop := ∀ r ∈ s.removals, ∀ o, r.removed = some o → o = r.request

/-- No request is accepted under the id of an earlier request that was sent by a call which has not returned. -/
def ReusesReturned : TimeoutAction → TimeoutState → Prop
  | .pending .sendRegister, s =>
      ∀ id ∈ s.pending.sending.bind SendPhase.chosen,
        ∀ accepted ∈ s.pending.table.pendingRequest s.pending.limits id s.pending.nextInfo,
          ∀ o < s.pending.nextInfo, ∀ info ∈ s.pending.infos o, info.id = accepted.2 → ¬s.Awaited o info
  | _, _ => True

instance (a : TimeoutAction) (s : TimeoutState) : Decidable (ReusesReturned a s) :=
  match a with
  | .pending .sendRegister => inferInstanceAs (Decidable (∀ id ∈ s.pending.sending.bind SendPhase.chosen,
      ∀ accepted ∈ s.pending.table.pendingRequest s.pending.limits id s.pending.nextInfo,
        ∀ o < s.pending.nextInfo, ∀ info ∈ s.pending.infos o, info.id = accepted.2 → ¬s.Awaited o info))
  | .expire _ | .withdraw _ | .pending (.sendBegin ..) | .pending .sendReturn | .pending .sendThrow
  | .pending (.receive _) | .pending (.parsed ..) | .pending (.parseThrows _) | .pending (.submit _)
  | .pending (.route _) | .pending (.remove _) | .pending (.completeNow _) | .pending (.handOff _)
  | .pending (.post _) | .pending (.poolBegin _) | .pending (.poolComplete _) | .pending (.timeout _)
  | .pending .stop => inferInstanceAs (Decidable True)

end TimeoutState

/-- A started endpoint that has sent and received nothing. -/
def timeoutSystem : Transition.System TimeoutState TimeoutAction where
  init s := ∃ limits timed, s = { pending := { limits := limits }, timed := timed }
  step := TimeoutState.step

namespace PendingState

/-- A step that registers nothing: the table has no new entries, and a request is sent, not completed or on its
way only if it was. -/
structure Shrinks (s s' : PendingState) : Prop where
  limits : s'.limits = s.limits
  nextInfo : s'.nextInfo = s.nextInfo
  table : ∀ id o, s'.table.getRequestInfo id = some o → s.table.getRequestInfo id = some o
  sending : ∀ o, s'.sending = some (.registered o) → s.sending = some (.registered o)
  infos : ∀ o info', s'.infos o = some info' → ∃ info, s.infos o = some info ∧ info'.id = info.id ∧
    info'.deferredCallback = info.deferredCallback ∧ (info'.completed = false → info.completed = false) ∧
    (s'.Sent o info' → s.Sent o info)

theorem shrinks_of_infos_eq {s s' : PendingState} (hlimits : s'.limits = s.limits) (hnext : s'.nextInfo = s.nextInfo)
    (htable : ∀ id o, s'.table.getRequestInfo id = some o → s.table.getRequestInfo id = some o)
    (hinfos : s'.infos = s.infos)
    (hsending : ∀ o, s'.sending = some (.registered o) → s.sending = some (.registered o)) : Shrinks s s' where
  limits := hlimits
  nextInfo := hnext
  table := htable
  sending := hsending
  infos o info' h := ⟨info', hinfos ▸ h, rfl, rfl, id, fun hsent => hsent.imp_right (hsending o)⟩

/-- A step that concerns neither the table nor the requests. -/
theorem shrinks_of_same {s s' : PendingState} (hlimits : s'.limits = s.limits) (hnext : s'.nextInfo = s.nextInfo)
    (htable : s'.table = s.table) (hinfos : s'.infos = s.infos) (hsending : s'.sending = s.sending) :
    Shrinks s s' := by
  apply shrinks_of_infos_eq hlimits hnext
  · rw [htable]
    exact fun _ _ h => h
  · exact hinfos
  · rw [hsending]
    exact fun _ h => h

/-- The record of one request is replaced. -/
theorem shrinks_of_setInfo {s s' : PendingState} {o : Nat} {info : PendingRequestInfo}
    (hinfo : s.infos o = some info) (info' : PendingRequestInfo) (hid : info'.id = info.id)
    (hdeferred : info'.deferredCallback = info.deferredCallback)
    (hcompleted : info'.completed = false → info.completed = false) (hsent : s'.Sent o info' → s.Sent o info)
    (hlimits : s'.limits = s.limits) (hnext : s'.nextInfo = s.nextInfo)
    (htable : ∀ id o, s'.table.getRequestInfo id = some o → s.table.getRequestInfo id = some o)
    (hinfos : s'.infos = (s.setInfo o info').infos)
    (hsending : ∀ o, s'.sending = some (.registered o) → s.sending = some (.registered o)) : Shrinks s s' where
  limits := hlimits
  nextInfo := hnext
  table := htable
  sending := hsending
  infos o' q h := by
    rw [hinfos, setInfo_infos] at h
    split_ifs at h with ho
    · cases h
      subst ho
      exact ⟨info, hinfo, hid, hdeferred, hcompleted, hsent⟩
    · exact ⟨q, h, rfl, rfl, id, fun hsent => hsent.imp_right (hsending o')⟩

/-- A completion in a step that does nothing else to the requests. -/
theorem shrinks_of_complete {s s' : PendingState} {o : Nat} {response : Option Nat}
    (hinfos : s'.infos = (s.complete o response).infos) (hlimits : s'.limits = s.limits)
    (hnext : s'.nextInfo = s.nextInfo) (htable : s'.table = s.table) (hsending : s'.sending = s.sending) :
    Shrinks s s' := by
  have hsame : ∀ id o', s'.table.getRequestInfo id = some o' → s.table.getRequestInfo id = some o' := by
    rw [htable]
    exact fun _ _ h => h
  have hregistered : ∀ o', s'.sending = some (.registered o') → s.sending = some (.registered o') := by
    rw [hsending]
    exact fun _ h => h
  rcases complete_cases s o response with ⟨heq, _⟩ | ⟨info, hinfo, hnot, heq⟩
  · rw [heq] at hinfos
    exact shrinks_of_infos_eq hlimits hnext hsame hinfos hregistered
  · rw [heq] at hinfos
    exact shrinks_of_setInfo hinfo { info with completed := true } rfl rfl (fun _ => hnot)
      (fun h => h.imp_right (hregistered o)) hlimits hnext hsame hinfos hregistered

theorem getRequestInfo_of_removeRequestInfo {t : PendingTable} {id id' : LsRequestId} {o : Nat}
    (h : (t.removeRequestInfo id).getRequestInfo id' = some o) : t.getRequestInfo id' = some o := by
  rw [PendingTable.getRequestInfo_removeRequestInfo] at h
  split_ifs at h
  exact h

theorem shrinks_withdraw (s : PendingState) (id : LsRequestId) : Shrinks s (s.withdraw id) := by
  have htable : ∀ id' o, (s.table.removeRequestInfo id).getRequestInfo id' = some o →
      s.table.getRequestInfo id' = some o := fun _ _ => getRequestInfo_of_removeRequestInfo
  unfold withdraw
  dsimp only
  split
  · exact shrinks_of_infos_eq rfl rfl htable rfl fun _ h => h
  · split
    · exact shrinks_of_infos_eq rfl rfl htable rfl fun _ h => h
    · rename_i info hinfo
      exact shrinks_of_setInfo hinfo { info with withdrawn := true } rfl rfl (fun h => h) (fun h => h) rfl rfl
        htable rfl fun _ h => h

theorem shrinks_stop {s s' : PendingState} (h : step .stop s = some s') : Shrinks s s' := by
  obtain ⟨_, rfl⟩ | ⟨_, _, rfl⟩ | ⟨_, rfl⟩ | ⟨_, _, rfl⟩ | ⟨_, rfl⟩ | ⟨o, rest, _, rfl⟩ | ⟨_, rfl⟩ |
    ⟨_, rfl⟩ := step_stop h
  case inr.inr.inr.inr.inl =>
    refine shrinks_of_infos_eq rfl rfl (fun id o h => ?_) rfl fun _ h => h
    cases h
  case inr.inr.inr.inr.inr.inl =>
    obtain ⟨_, _, heq, _⟩ := complete_frame s o none
    exact shrinks_of_complete rfl (by rw [heq]) (by rw [heq]) (by rw [heq]) (by rw [heq])
  all_goals exact shrinks_of_same rfl rfl rfl rfl rfl

theorem shrinks_of_step {s s' : PendingState} {a : PendingAction} (ha : a ≠ .sendRegister)
    (h : step a s = some s') : Shrinks s s' := by
  cases a with
  | sendBegin id deferred =>
      obtain ⟨_, ⟨_, rfl⟩ | ⟨_, rfl⟩⟩ := step_sendBegin h
      · exact shrinks_of_infos_eq rfl rfl (fun _ _ h => h) rfl nofun
      · exact shrinks_of_same rfl rfl rfl rfl rfl
  | sendRegister => exact absurd rfl ha
  | sendReturn =>
      obtain ⟨o, info, hsending, hinfo, rfl⟩ := step_sendReturn h
      exact shrinks_of_setInfo hinfo { info with sent := true } rfl rfl (fun h => h) (fun _ => .inr hsending) rfl
        rfl (fun _ _ h => h) rfl nofun
  | sendThrow =>
      obtain ⟨o, info, _, _, rfl⟩ := step_sendThrow h
      refine shrinks_of_infos_eq rfl rfl (fun id o' hentry => ?_) rfl nofun
      cases hremoved : s.table.removeExpected info.id o with
      | none =>
          rw [hremoved] at hentry
          exact hentry
      | some table =>
          obtain ⟨_, rfl⟩ := PendingTable.removeExpected_eq_some hremoved
          rw [hremoved] at hentry
          exact getRequestInfo_of_removeRequestInfo hentry
  | receive id =>
      obtain rfl | ⟨o, _, rfl⟩ := step_receive h <;>
        exact shrinks_of_same rfl rfl rfl rfl rfl
  | parsed t msgId =>
      obtain ⟨r, _, _, rfl⟩ := step_parsed h
      exact shrinks_of_same rfl rfl rfl rfl rfl
  | parseThrows t =>
      obtain ⟨r, _, _, rfl | ⟨o, _, rfl⟩⟩ := step_parseThrows h <;>
        exact shrinks_of_same rfl rfl rfl rfl rfl
  | submit t =>
      obtain ⟨r, msgId, o, _, _, _, ⟨_, rfl⟩ | ⟨_, rfl⟩⟩ := step_submit h <;>
        exact shrinks_of_same rfl rfl rfl rfl rfl
  | route t =>
      obtain ⟨r, msgId, o, _, _, rfl | rfl⟩ := step_route h <;>
        exact shrinks_of_same rfl rfl rfl rfl rfl
  | remove t =>
      obtain ⟨r, msgId, o, _, _, rfl | ⟨_, rfl⟩⟩ := step_remove h
      · exact shrinks_of_same rfl rfl rfl rfl rfl
      · exact shrinks_of_infos_eq rfl rfl (fun _ _ => getRequestInfo_of_removeRequestInfo) rfl fun _ h => h
  | completeNow t =>
      obtain ⟨r, o, _, _, rfl⟩ := step_completeNow h
      obtain ⟨_, _, heq, _⟩ := complete_frame s o (some t)
      exact shrinks_of_complete rfl (by rw [heq]; rfl) (by rw [heq]; rfl) (by rw [heq]; rfl) (by rw [heq]; rfl)
  | handOff t =>
      obtain ⟨r, o, _, _, ⟨_, rfl⟩ | ⟨_, rfl⟩⟩ := step_handOff h <;>
        exact shrinks_of_same rfl rfl rfl rfl rfl
  | post t =>
      obtain ⟨r, o, _, _, rfl⟩ := step_post h
      exact shrinks_of_same rfl rfl rfl rfl rfl
  | poolBegin task =>
      obtain ⟨_, _, rfl⟩ := step_poolBegin h
      exact shrinks_of_same rfl rfl rfl rfl rfl
  | poolComplete task =>
      obtain ⟨_, rfl⟩ := step_poolComplete h
      obtain ⟨_, _, heq, _⟩ := complete_frame s task.request (some task.response)
      exact shrinks_of_complete rfl (by rw [heq]) (by rw [heq]) (by rw [heq]) (by rw [heq])
  | timeout o =>
      obtain ⟨info, _, h⟩ := Option.bind_eq_some_iff.mp h
      split_ifs at h
      cases h
      exact shrinks_withdraw s info.id
  | stop => exact shrinks_stop h

end PendingState

/-! ### The removals of the timeouts -/

namespace TimeoutState

theorem step_pending {s s' : TimeoutState} {a : PendingAction} (h : step (.pending a) s = some s') :
    ∃ pending, PendingState.step a s.pending = some pending ∧ s' = { s with pending := pending } := by
  have hmap : (PendingState.step a s.pending).map (fun pending => { s with pending := pending }) = some s' := by
    cases a <;> first | exact h | cases h
  obtain ⟨pending, hpending, rfl⟩ := Option.map_eq_some_iff.mp hmap
  exact ⟨pending, hpending, rfl⟩

theorem step_expire {s s' : TimeoutState} {o : Nat} (h : step (.expire o) s = some s') :
    ∃ info, s.pending.infos o = some info ∧ s.CanExpire o info ∧ s' = { s with expired := o :: s.expired } := by
  obtain ⟨info, hinfo, h⟩ := Option.bind_eq_some_iff.mp h
  split_ifs at h with hok
  exact ⟨info, hinfo, hok, (Option.some.inj h).symm⟩

theorem step_withdraw {s s' : TimeoutState} {o : Nat} (h : step (.withdraw o) s = some s') :
    ∃ info, s.pending.infos o = some info ∧ o ∈ s.expired ∧ o ∉ s.withdrawn ∧
      s' = { s with
        pending := s.pending.withdraw info.id
        removals := ⟨o, s.pending.table.getRequestInfo info.id⟩ :: s.removals } := by
  obtain ⟨info, hinfo, h⟩ := Option.bind_eq_some_iff.mp h
  split_ifs at h with hok
  exact ⟨info, hinfo, hok.1, hok.2, (Option.some.inj h).symm⟩

/-- The id of a request that is being sent, or whose call has not returned, is held by the request or by none. -/
structure Holds (s : TimeoutState) : Prop where
  bound : ∀ o info, s.pending.infos o = some info → o < s.pending.nextInfo
  awaited : ∀ o info, s.pending.infos o = some info →
    s.pending.sending = some (.registered o) ∨ s.Awaited o info →
      ∀ o', s.pending.table.getRequestInfo info.id = some o' → o' = o
  withdrawn : ∀ o ∈ s.withdrawn, o ∈ s.expired
  own : s.WithdrawsOwn

/-- A step that registers no request. -/
theorem Holds.shrink {s s' : TimeoutState} (hinv : Holds s) (hshrinks : s.pending.Shrinks s'.pending)
    (htimed : s'.timed = s.timed) (hexpired : s'.expired = s.expired)
    (hwithdrawn : ∀ o, o ∉ s'.withdrawn → o ∉ s.withdrawn) (hremoved : ∀ o ∈ s'.withdrawn, o ∈ s'.expired)
    (hown : s'.WithdrawsOwn) : Holds s' := by
  refine ⟨fun o info' hinfo' => ?_, fun o info' hinfo' hopen o' hentry => ?_, hremoved, hown⟩
  · obtain ⟨info, hinfo, _⟩ := hshrinks.infos o info' hinfo'
    rw [hshrinks.nextInfo]
    exact hinv.bound o info hinfo
  · obtain ⟨info, hinfo, hid, hdeferred, hcompleted, hsent⟩ := hshrinks.infos o info' hinfo'
    refine hinv.awaited o info hinfo ?_ o' (hid ▸ hshrinks.table _ o' hentry)
    rcases hopen with hsending | hcan | hexp
    · exact .inl (hshrinks.sending o hsending)
    · obtain ⟨ht, hd, hs, hc, he⟩ := hcan
      rw [htimed] at ht
      rw [hexpired] at he
      rcases hsent (.inl hs) with hsent | hsending
      · exact .inr (.inl ⟨ht, hdeferred ▸ hd, hsent, hcompleted hc, he⟩)
      · exact .inl hsending
    · rw [hexpired] at hexp
      exact .inr (.inr ⟨hexp.1, hwithdrawn o hexp.2⟩)

/-- A request is accepted under an id for which no call waits. -/
theorem Holds.sendRegister {s s' : TimeoutState} (hinv : Holds s)
    (hok : ReusesReturned (.pending .sendRegister) s) (h : step (.pending .sendRegister) s = some s') :
    Holds s' := by
  obtain ⟨pending, hpending, rfl⟩ := step_pending h
  obtain ⟨id, deferred, hsending, rfl | ⟨table, id', hreg, rfl⟩⟩ := PendingState.step_sendRegister hpending
  · refine hinv.shrink (PendingState.shrinks_of_infos_eq rfl rfl (fun _ _ h => h) rfl ?_) rfl rfl (fun _ h => h)
      hinv.withdrawn hinv.own
    exact nofun
  have hfree := hok id (by rw [hsending]; rfl) (table, id') hreg
  obtain ⟨_, htable⟩ := PendingTable.pendingRequest_eq_some hreg
  refine ⟨fun o info hinfo => ?_, fun o info hinfo hopen o' hentry => ?_, hinv.withdrawn, hinv.own⟩
  · rcases Table.update_eq_some hinfo with ⟨rfl, _⟩ | ⟨_, hold⟩
    · exact Nat.lt_succ_self _
    · exact Nat.lt_succ_of_lt (hinv.bound o info hold)
  · replace hentry := (htable info.id).symm.trans hentry
    rcases Table.update_eq_some hinfo with ⟨rfl, heq⟩ | ⟨hne, hold⟩
    · cases heq
      rw [if_pos rfl] at hentry
      exact (Option.some.inj hentry).symm
    · have hawaited : s.Awaited o info := by
        rcases hopen with hnew | hawaited
        · cases hnew
          exact absurd rfl hne
        · exact hawaited
      rw [if_neg fun hid => hfree o (hinv.bound o info hold) info hold hid hawaited] at hentry
      exact hinv.awaited o info hold (.inr hawaited) o' hentry

theorem Holds.step {s s' : TimeoutState} {a : TimeoutAction} (hinv : Holds s) (hok : ReusesReturned a s)
    (h : step a s = some s') : Holds s' := by
  cases a with
  | pending a =>
      by_cases ha : a = .sendRegister
      · subst ha
        exact hinv.sendRegister hok h
      · obtain ⟨pending, hpending, rfl⟩ := step_pending h
        exact hinv.shrink (PendingState.shrinks_of_step ha hpending) rfl rfl (fun _ h => h) hinv.withdrawn hinv.own
  | expire o =>
      obtain ⟨info, hinfo, hcan, rfl⟩ := step_expire h
      refine ⟨hinv.bound, fun o' info' hinfo' hopen => hinv.awaited o' info' hinfo' ?_,
        fun o' ho' => List.mem_cons_of_mem _ (hinv.withdrawn o' ho'), hinv.own⟩
      rcases hopen with hsending | ⟨ht, hd, hs, hc, he⟩ | ⟨hexpired, hnot⟩
      · exact .inl hsending
      · exact .inr (.inl ⟨ht, hd, hs, hc, fun hmem => he (List.mem_cons_of_mem _ hmem)⟩)
      · rcases List.mem_cons.mp hexpired with rfl | hexpired
        · obtain rfl := Option.some.inj (hinfo.symm.trans hinfo')
          exact .inr (.inl hcan)
        · exact .inr (.inr ⟨hexpired, hnot⟩)
  | withdraw o =>
      obtain ⟨info, hinfo, hexpired, hnot, rfl⟩ := step_withdraw h
      refine hinv.shrink (PendingState.shrinks_withdraw _ _) rfl rfl
        (fun o' h hmem => h (List.mem_cons_of_mem _ hmem)) (fun o' ho' => ?_) fun r hr o' hremoved => ?_
      · rcases List.mem_cons.mp ho' with rfl | ho'
        · exact hexpired
        · exact hinv.withdrawn o' ho'
      rcases List.mem_cons.mp hr with rfl | hr
      · exact hinv.awaited o info hinfo (.inr (.inr ⟨hexpired, hnot⟩)) o' hremoved
      · exact hinv.own r hr o' hremoved

theorem holds_of_reachable {s : TimeoutState} (hs : timeoutSystem.ReachableIf ReusesReturned s) : Holds s := by
  refine hs.invariant Holds ?_ fun _ _ _ hinv hok h => hinv.step hok h
  rintro s ⟨limits, timed, rfl⟩
  exact ⟨nofun, nofun, nofun, nofun⟩

/-- A call that has not returned while another request holds the id of its request can go on to remove it. -/
theorem exists_not_withdrawsOwn {s : TimeoutState} (hwithdrawn : ∀ o ∈ s.withdrawn, o ∈ s.expired) {o o' : Nat}
    {info : PendingRequestInfo} (hinfo : s.pending.infos o = some info) (hawaited : s.Awaited o info)
    (hentry : s.pending.table.getRequestInfo info.id = some o') (hne : o' ≠ o) :
    ∃ actions s', timeoutSystem.run actions s = some s' ∧ ¬s'.WithdrawsOwn := by
  rcases hawaited with hcan | ⟨hexpired, hnot⟩
  · have hnot : o ∉ s.withdrawn := fun hmem => hcan.2.2.2.2 (hwithdrawn o hmem)
    refine ⟨[.expire o, .withdraw o], { s with
      pending := s.pending.withdraw info.id
      expired := o :: s.expired
      removals := ⟨o, s.pending.table.getRequestInfo info.id⟩ :: s.removals }, ?_, fun hown => ?_⟩
    · have hexpire : step (.expire o) s = some { s with expired := o :: s.expired } := by
        simp [step, hinfo, hcan]
      have hwithdraw : step (.withdraw o) { s with expired := o :: s.expired } = some { s with
          pending := s.pending.withdraw info.id
          expired := o :: s.expired
          removals := ⟨o, s.pending.table.getRequestInfo info.id⟩ :: s.removals } := by
        have hnot' : o ∉ ({ s with expired := o :: s.expired } : TimeoutState).withdrawn := hnot
        simp [step, hinfo, hnot']
      simp [Transition.System.run, timeoutSystem, hexpire, hwithdraw]
    · exact hne (hown _ List.mem_cons_self o' hentry)
  · refine ⟨[.withdraw o], { s with
      pending := s.pending.withdraw info.id
      removals := ⟨o, s.pending.table.getRequestInfo info.id⟩ :: s.removals }, ?_, fun hown => ?_⟩
    · simp [Transition.System.run, timeoutSystem, step, hinfo, hexpired, hnot]
    · exact hne (hown _ List.mem_cons_self o' hentry)

/-- The state after a request was accepted under the id of one whose call has not returned. -/
theorem awaited_of_reuse {s s' : TimeoutState} (hreuse : ¬ReusesReturned (.pending .sendRegister) s)
    (h : step (.pending .sendRegister) s = some s') :
    ∃ o info, s'.pending.infos o = some info ∧ s'.Awaited o info ∧ s.pending.nextInfo ≠ o ∧
      s'.pending.table.getRequestInfo info.id = some s.pending.nextInfo ∧ s'.removals = s.removals ∧
      s'.expired = s.expired := by
  obtain ⟨pending, hpending, rfl⟩ := step_pending h
  obtain ⟨id, deferred, hsending, _⟩ := PendingState.step_sendRegister hpending
  rw [ReusesReturned, hsending] at hreuse
  push Not at hreuse
  obtain ⟨_, hchosen, ⟨table, id'⟩, hreg, o, hlt, info, hinfo, hid, hawaited⟩ := hreuse
  cases hchosen
  replace hreg : s.pending.table.pendingRequest s.pending.limits id s.pending.nextInfo = some (table, id') := hreg
  rw [PendingState.step, hsending] at hpending
  replace hpending := Option.some.inj hpending
  rw [PendingState.registerRequest, hreg] at hpending
  subst hpending
  have hne : o ≠ s.pending.nextInfo := Nat.ne_of_lt hlt
  refine ⟨o, info, ?_, hawaited, hne.symm, ?_, rfl, rfl⟩
  · exact (Function.update_of_ne hne _ _).trans hinfo
  · exact ((PendingTable.pendingRequest_eq_some hreg).2 info.id).trans (if_pos hid)

/-- **A timeout withdraws only its own request** in every run in which no id is taken for a new request while the
call that sent an earlier request under it, with a time limit, has not returned; and wherever an id is taken
before, the run can go on to a removal of the new request. -/
theorem withdrawsOwn_of_reusesReturned (s : TimeoutState) (hs : timeoutSystem.ReachableIf ReusesReturned s) :
    s.WithdrawsOwn ∧ ∀ s', step (.pending .sendRegister) s = some s' →
      ¬ReusesReturned (.pending .sendRegister) s →
        ∃ actions s'', timeoutSystem.run actions s' = some s'' ∧ ¬s''.WithdrawsOwn := by
  have hinv := holds_of_reachable hs
  refine ⟨hinv.own, fun s' hstep hreuse => ?_⟩
  obtain ⟨o, info, hinfo, hawaited, hne, hentry, hremovals, hexpired⟩ := awaited_of_reuse hreuse hstep
  refine exists_not_withdrawsOwn ?_ hinfo hawaited hentry hne
  rw [withdrawn, hremovals, hexpired]
  exact hinv.withdrawn

/-- Request 0 times out and is withdrawn, and request 1 takes its id. -/
def returnedRun : List TimeoutAction :=
  [.pending (.sendBegin (.kInt 7) false), .pending .sendRegister, .pending .sendReturn, .expire 0, .withdraw 0,
    .pending (.sendBegin (.kInt 7) false), .pending .sendRegister, .pending .sendReturn]

theorem withdrawsOwn_of_reusesReturned_returnedRun :
    ∃ s, timeoutSystem.runIf ReusesReturned returnedRun {} = some s ∧
      s.pending.table.getRequestInfo (.kInt 7) = some 1 ∧ s.removals = [⟨0, some 0⟩] ∧ s.WithdrawsOwn := by
  obtain ⟨s, hrun, hentry, hremovals⟩ :
      ∃ s, timeoutSystem.runIf ReusesReturned returnedRun {} = some s ∧
        s.pending.table.getRequestInfo (.kInt 7) = some 1 ∧ s.removals = [⟨0, some 0⟩] := ⟨_, rfl, rfl, rfl⟩
  have hown := withdrawsOwn_of_reusesReturned s
    (Transition.System.reachableIf_of_runIf returnedRun (.init ⟨{}, fun _ => true, rfl⟩) hrun)
  exact ⟨s, hrun, hentry, hremovals, hown.1⟩

/-- The wait of request 0 expires, its response is processed and request 1 takes its id before the removal. -/
def lateRemovalRun : List TimeoutAction :=
  [.pending (.sendBegin (.kInt 7) false), .pending .sendRegister, .pending .sendReturn, .expire 0,
    .pending (.receive (.kInt 7)), .pending (.parsed 0 (.kInt 7)), .pending (.submit 0), .pending (.route 0),
    .pending (.remove 0), .pending (.completeNow 0), .pending (.sendBegin (.kInt 7) false),
    .pending .sendRegister, .pending .sendReturn, .withdraw 0]

theorem lateRemovalRun_removes_successor :
    ∃ s, timeoutSystem.Reachable s ∧ s.removals = [⟨0, some 1⟩] ∧
      s.pending.table.getRequestInfo (.kInt 7) = none ∧ ¬s.WithdrawsOwn := by
  obtain ⟨s, hrun, hremovals, hentry⟩ : ∃ s, timeoutSystem.run lateRemovalRun {} = some s ∧
      s.removals = [⟨0, some 1⟩] ∧ s.pending.table.getRequestInfo (.kInt 7) = none := ⟨_, rfl, rfl, rfl⟩
  have hreachable : timeoutSystem.Reachable s :=
    Transition.System.reachable_of_run lateRemovalRun (.init ⟨{}, fun _ => true, rfl⟩) hrun
  refine ⟨s, hreachable, hremovals, hentry, fun hown => ?_⟩
  have hsame : 1 = 0 := hown ⟨0, some 1⟩ (hremovals ▸ List.mem_cons_self) 1 rfl
  cases hsame

end TimeoutState

end LspCpp

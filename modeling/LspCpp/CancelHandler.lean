import LspCpp.CancelHolder

/-! The steps of the handlers of requests, which take and release retainers and leave their scopes, and that the
registrations belong to their owners after every step. -/

namespace LspCpp

namespace CancelState

/-- A step of the handler of a live request: it may change the retainers the request holds, with the count
under its key, and it may give up the registration of the request (`dropped`). -/
structure HandlerStep (s s' : CancelState) (r : Nat) (q q' : RequestRecord) (dropped : Prop) : Prop where
  request : s.requests r = some q
  live : q.Live
  requests : s'.requests = Function.update s.requests r (some q')
  latest : s'.latest = s.latest
  nextSequence : s'.nextSequence = s.nextSequence
  id : q'.id = q.id
  cookie : q'.cookie = q.cookie
  entered : q'.Entered
  keys : ∀ key ∈ q'.retainers, key = (q.id, q.cookie)
  ended : q'.endedAt ≠ none → q'.phase = .exited ∨ q'.released = true
  finished : q'.Finished → dropped
  gone : dropped → q'.endedAt ≠ none
  kept : ¬dropped → q'.endedAt = q.endedAt
  cancelers : ∀ id entry, s'.registry.requestCancelers.lookup id = some entry ↔
    s.registry.requestCancelers.lookup id = some entry ∧ ¬(dropped ∧ id = q.id ∧ entry.2 = q.cookie)
  retained : ∀ key, s'.registry.retainedRequestCancelers.lookup key =
    if key = (q.id, q.cookie) then (if q'.retainers = [] then none else some q'.retainers.length)
    else s.registry.retainedRequestCancelers.lookup key

section Handler

variable {s s' : CancelState} {r : Nat} {q q' : RequestRecord} {dropped : Prop}

theorem HandlerStep.self (h : HandlerStep s s' r q q' dropped) : s'.requests r = some q' := by
  rw [h.requests, Function.update_self]

theorem HandlerStep.other (h : HandlerStep s s' r q q' dropped) {r' : Nat} (hr : r' ≠ r) :
    s'.requests r' = s.requests r' := by
  rw [h.requests, Function.update_of_ne hr]

theorem HandlerStep.back (h : HandlerStep s s' r q q' dropped) {r' : Nat} {p : RequestRecord}
    (hp : s'.requests r' = some p) : r' = r ∧ p = q' ∨ r' ≠ r ∧ s.requests r' = some p := by
  rw [h.requests] at hp
  exact (Table.update_eq_some hp).imp_left fun hself => ⟨hself.1, (Option.some.inj hself.2).symm⟩

/-- A live request had the same id and cookie and was live before. -/
theorem HandlerStep.live_before (h : HandlerStep s s' r q q' dropped) {r' : Nat} {p : RequestRecord}
    (hp : s'.requests r' = some p) (hlive : p.Live) :
    ∃ p₀, s.requests r' = some p₀ ∧ p₀.Live ∧ p₀.id = p.id ∧ p₀.cookie = p.cookie := by
  rcases h.back hp with ⟨rfl, rfl⟩ | ⟨_, hp⟩
  · exact ⟨q, h.request, h.live, h.id.symm, h.cookie.symm⟩
  · exact ⟨p, hp, hlive, rfl, rfl⟩

/-- Another live request has another key. -/
theorem HandlerStep.key_ne (h : HandlerStep s s' r q q' dropped) (hinv : Registered s) {r' : Nat}
    {p : RequestRecord} (hr : r' ≠ r) (hp : s.requests r' = some p) (hlive : p.Live) :
    (p.id, p.cookie) ≠ (q.id, q.cookie) := by
  intro hkey
  have hkey := Prod.mk.inj hkey
  exact hr (hinv.distinct r' r p q hp h.request hlive h.live hkey.1 hkey.2)

/-- A registration that stays belongs to a live request. -/
theorem HandlerStep.owner (h : HandlerStep s s' r q q' dropped) (hinv : Registered s) {id : LsRequestId}
    {entry : Canceler × Nat} (hentry : s'.registry.requestCancelers.lookup id = some entry) :
    ∃ p, s'.requests entry.1 = some p ∧ p.id = id ∧ p.cookie = entry.2 ∧ p.Live ∧
      s'.latest id = some entry.1 := by
  obtain ⟨hentry, hstay⟩ := (h.cancelers id entry).mp hentry
  obtain ⟨p, hp, hpid, hpc, hpl, hlast⟩ := hinv.owner id entry hentry
  rw [h.latest]
  by_cases hr : entry.1 = r
  · rw [hr] at hp hlast ⊢
    obtain rfl := Option.some.inj (h.request.symm.trans hp)
    refine ⟨q', h.self, h.id.trans hpid, h.cookie.trans hpc, ⟨?_, fun hfin => ?_⟩, hlast⟩
    · rcases h.entered with hphase | hphase <;> exact fun hp => by rw [hphase] at hp; cases hp
    · exact hstay ⟨h.finished hfin, hpid.symm, hpc.symm⟩
  · exact ⟨p, (h.other hr).trans hp, hpid, hpc, hpl, hlast⟩

/-- A request whose registration was not given up stays registered. -/
theorem HandlerStep.held (h : HandlerStep s s' r q q' dropped) (hinv : Registered s) {r' : Nat}
    {p : RequestRecord} (hp : s'.requests r' = some p) (hstart : p.Started) (hend : p.endedAt = none)
    (hlast : s'.latest p.id = some r') :
    s'.registry.requestCancelers.lookup p.id = some (r', p.cookie) := by
  rw [h.latest] at hlast
  rw [h.cancelers]
  rcases h.back hp with ⟨rfl, rfl⟩ | ⟨hr, hp⟩
  · have hnot : ¬dropped := fun hd => h.gone hd hend
    rw [h.kept hnot] at hend
    rw [h.id] at hlast ⊢
    rw [h.cookie]
    exact ⟨hinv.held r' q h.request h.live.1 hend hlast, fun hgone => hnot hgone.1⟩
  · have hheld := hinv.held r' p hp hstart hend hlast
    refine ⟨hheld, fun hgone => ?_⟩
    obtain ⟨p', hp', _, _, hpl, _⟩ := hinv.owner _ _ hheld
    obtain rfl := Option.some.inj (hp.symm.trans hp')
    exact h.key_ne hinv hr hp hpl (Prod.ext hgone.2.1 hgone.2.2)

theorem Registered.ofHandler (hinv : Registered s) (dropped : Prop) (h : HandlerStep s s' r q q' dropped) :
    Registered s' where
  bound r' p hp := by
    rw [h.nextSequence]
    rcases h.back hp with ⟨rfl, _⟩ | ⟨_, hp⟩
    · exact hinv.bound r' q h.request
    · exact hinv.bound r' p hp
  fresh r' p hp hent := by
    rcases h.back hp with ⟨_, rfl⟩ | ⟨_, hp⟩
    · exact absurd h.entered hent
    · exact hinv.fresh r' p hp hent
  keys r' p hp key hkey := by
    rcases h.back hp with ⟨_, rfl⟩ | ⟨_, hp⟩
    · rw [h.id, h.cookie]
      exact h.keys key hkey
    · exact hinv.keys r' p hp key hkey
  owner id entry hentry := h.owner hinv hentry
  count r' p hp hpl := by
    rw [h.retained]
    rcases h.back hp with ⟨_, rfl⟩ | ⟨hr, hp⟩
    · rw [h.id, h.cookie, if_pos rfl]
    · rw [if_neg (h.key_ne hinv hr hp hpl)]
      exact hinv.count r' p hp hpl
  retained key n hn := by
    rw [h.retained] at hn
    split_ifs at hn with hkey hret
    · exact ⟨r, q', h.self, by rw [h.id, h.cookie]; exact hkey, hret⟩
    · obtain ⟨r₀, p, hp, hpkey, hret⟩ := hinv.retained key n hn
      have hr : r₀ ≠ r := by
        rintro rfl
        obtain rfl := Option.some.inj (h.request.symm.trans hp)
        exact hkey hpkey
      exact ⟨r₀, p, (h.other hr).trans hp, hpkey, hret⟩
  distinct r₁ r₂ p₁ p₂ h₁ h₂ hl₁ hl₂ hpid hpc := by
    obtain ⟨b₁, hb₁, hbl₁, hi₁, hc₁⟩ := h.live_before h₁ hl₁
    obtain ⟨b₂, hb₂, hbl₂, hi₂, hc₂⟩ := h.live_before h₂ hl₂
    have hid : b₁.id = b₂.id :=
      calc b₁.id = p₁.id := hi₁
        _ = p₂.id := hpid
        _ = b₂.id := hi₂.symm
    have hcookie : b₁.cookie = b₂.cookie :=
      calc b₁.cookie = p₁.cookie := hc₁
        _ = p₂.cookie := hpc
        _ = b₂.cookie := hc₂.symm
    exact hinv.distinct r₁ r₂ b₁ b₂ hb₁ hb₂ hbl₁ hbl₂ hid hcookie
  held r' p hp hstart hend hlast := h.held hinv hp hstart hend hlast
  ended r' p hp hend := by
    rcases h.back hp with ⟨_, rfl⟩ | ⟨_, hp⟩
    · exact h.ended hend
    · exact hinv.ended r' p hp hend

end Handler

theorem live_of_inScope {q : RequestRecord} (hphase : q.phase = .inScope) : q.Live := by
  constructor
  · intro h
    rw [hphase] at h
    cases h
  · rintro ⟨h, _⟩
    rw [hphase] at h
    cases h

theorem Registered.retain {s s' : CancelState} (hinv : Registered s) {r : Nat}
    (hown : TakesOwn (.retain r) s) (h : step (.retain r) s = some s') : Registered s' := by
  obtain ⟨request, hrequest, hphase, rfl⟩ := step_retain h
  have hlive := live_of_inScope hphase
  have hcount := hinv.count r request hrequest hlive
  refine hinv.ofHandler False
    ⟨hrequest, hlive, rfl, rfl, rfl, rfl, rfl, .inl hphase, ?_, ?_, ?_, False.elim, fun _ => rfl, ?_, ?_⟩
  · intro key hkey
    rcases List.mem_append.mp hkey with hnew | hold
    · unfold RequestCancellationRegistry.retainRequestCancellation at hnew
      split at hnew
      · cases hnew
      · rename_i entry hentry
        obtain rfl := List.mem_singleton.mp hnew
        rw [hown request hrequest entry hentry]
    · exact hinv.keys r request hrequest key hold
  · exact fun hend => hinv.ended r request hrequest hend
  · rintro ⟨hexit, _⟩
    rw [show _ = RequestPhase.inScope from hphase] at hexit
    cases hexit
  · intro id entry
    have hsame : (s.registry.retainRequestCancellation request.id).1.requestCancelers =
        s.registry.requestCancelers := by
      unfold RequestCancellationRegistry.retainRequestCancellation
      split <;> rfl
    simp [retainRequest, setRequest, hsame]
  · intro key
    simp only [retainRequest, setRequest]
    unfold RequestCancellationRegistry.retainRequestCancellation
    split
    · by_cases hkey : key = (request.id, request.cookie)
      · rw [if_pos hkey, hkey]
        exact hcount
      · rw [if_neg hkey]
    · rename_i entry hentry
      dsimp only
      rw [hown request hrequest entry hentry, Table.lookup_insert_ite]
      by_cases hkey : key = (request.id, request.cookie)
      · rw [if_pos hkey, if_pos hkey, hcount]
        by_cases hret : request.retainers = []
        · simp [hret]
        · simp [hret]
      · rw [if_neg hkey, if_neg hkey]

theorem Registered.exit {s s' : CancelState} (hinv : Registered s) {r : Nat}
    (h : step (.exit r) s = some s') : Registered s' := by
  obtain ⟨request, hrequest, hphase, rfl⟩ := step_exit h
  have hlive := live_of_inScope hphase
  have hcount := hinv.count r request hrequest hlive
  by_cases hret : request.retainers = []
  · rw [if_pos hret] at hcount
    refine hinv.ofHandler True
      ⟨hrequest, hlive, rfl, rfl, rfl, ?_, ?_, ?_, ?_, ?_, fun _ => trivial, ?_, absurd trivial, ?_, ?_⟩
    · simp [hret, RequestRecord.markEnded]
    · simp [hret, RequestRecord.markEnded]
    · simp [hret, RequestRecord.markEnded, RequestRecord.Entered]
    · simp [hret, RequestRecord.markEnded]
    · simp [hret, RequestRecord.markEnded]
    · simp [hret, RequestRecord.markEnded]
    · intro id entry
      simp only [exitRequest, setRequest, RequestCancellationRegistry.scopeExit, hcount,
        RequestCancellationRegistry.eraseCanceler_lookup, true_and]
    · intro key
      simp only [exitRequest, setRequest, RequestCancellationRegistry.scopeExit, hcount,
        RequestCancellationRegistry.eraseCanceler_retained, hret, RequestRecord.markEnded, if_true]
      split_ifs with hkey
      · rw [hkey, hcount]
      · rfl
  · rw [if_neg hret] at hcount
    refine hinv.ofHandler False
      ⟨hrequest, hlive, rfl, rfl, rfl, ?_, ?_, ?_, ?_, ?_, ?_, False.elim, ?_, ?_, ?_⟩
    · simp [hret]
    · simp [hret]
    · simp [hret, RequestRecord.Entered]
    · simpa [hret] using hinv.keys r request hrequest
    · simp [hret]
    · simp [hret, RequestRecord.Finished]
    · simp [hret]
    · intro id entry
      simp only [exitRequest, setRequest, RequestCancellationRegistry.scopeExit, hcount, false_and,
        not_false_eq_true, and_true]
    · intro key
      simp only [exitRequest, setRequest, RequestCancellationRegistry.scopeExit, hcount, hret, if_false]
      split_ifs with hkey
      · rw [hkey, hcount]
      · rfl

theorem Registered.release {s s' : CancelState} (hinv : Registered s) {r : Nat} {key : CancelKey}
    (h : step (.release r key) s = some s') : Registered s' := by
  obtain ⟨request, hrequest, hmem, rfl⟩ := step_release h
  have hne : request.retainers ≠ [] := List.ne_nil_of_mem hmem
  have hlive := hinv.live_of_retainer hrequest hne
  have hcount := hinv.count r request hrequest hlive
  rw [if_neg hne] at hcount
  obtain rfl := hinv.keys r request hrequest key hmem
  have hentered : request.Entered := by
    by_contra hent
    exact hne (hinv.fresh r request hrequest hent).1
  have hlen := List.length_erase_of_mem hmem
  have hsub : ∀ key ∈ request.retainers.erase (request.id, request.cookie),
      key = (request.id, request.cookie) := fun key hkey =>
    hinv.keys r request hrequest key (List.mem_of_mem_erase hkey)
  by_cases hlast : request.retainers.erase (request.id, request.cookie) = []
  · have hone : request.retainers.length - 1 = 0 := by rw [← hlen, hlast]; rfl
    refine hinv.ofHandler True
      ⟨hrequest, hlive, rfl, rfl, rfl, ?_, ?_, ?_, ?_, ?_, fun _ => trivial, ?_, absurd trivial, ?_, ?_⟩
    · simp [hlast, RequestRecord.markEnded]
    · simp [hlast, RequestRecord.markEnded]
    · simpa [hlast, RequestRecord.markEnded, RequestRecord.Entered] using hentered
    · simp [hlast, RequestRecord.markEnded]
    · simp [hlast, RequestRecord.markEnded]
    · simp [hlast, RequestRecord.markEnded]
    · intro id entry
      simp only [releaseRequest, setRequest, RequestCancellationRegistry.releaseRetainer, hcount, hone,
        ne_eq, not_true_eq_false, if_false, RequestCancellationRegistry.eraseCanceler_lookup, true_and]
    · intro key
      simp only [releaseRequest, setRequest, RequestCancellationRegistry.releaseRetainer, hcount, hone,
        ne_eq, not_true_eq_false, if_false, RequestCancellationRegistry.eraseCanceler_retained,
        Table.lookup_erase_ite, hlast, if_true, RequestRecord.markEnded]
  · have hmore : request.retainers.length - 1 ≠ 0 := by
      rw [← hlen]
      exact fun h => hlast (List.length_eq_zero_iff.mp h)
    refine hinv.ofHandler False
      ⟨hrequest, hlive, rfl, rfl, rfl, ?_, ?_, ?_, ?_, ?_, ?_, False.elim, ?_, ?_, ?_⟩
    · simp [hlast]
    · simp [hlast]
    · simpa [hlast, RequestRecord.Entered] using hentered
    · simpa [hlast] using hsub
    · simp [hlast]
    · simp [hlast, RequestRecord.Finished]
    · simp [hlast]
    · intro id entry
      simp only [releaseRequest, setRequest, RequestCancellationRegistry.releaseRetainer, hcount, ne_eq,
        hmore, not_false_eq_true, if_true, false_and, and_true]
    · intro key
      simp only [releaseRequest, setRequest, RequestCancellationRegistry.releaseRetainer, hcount, ne_eq,
        hmore, not_false_eq_true, if_true, Table.lookup_insert_ite, hlast, if_false, hlen]

/-- Every step that relies on its own registration only keeps the registry in order. -/
theorem Registered.step {s s' : CancelState} {a : CancelAction} (hinv : Registered s)
    (hown : TakesOwn a s) (h : step a s = some s') : Registered s' := by
  cases a with
  | routeRequest id =>
      obtain rfl := Option.some.inj h
      exact hinv.routeRequest id
  | routeCancel id => exact hinv.routeCancel h
  | routeOther =>
      obtain rfl := Option.some.inj h
      exact hinv.congr rfl rfl rfl (Nat.le_succ _) (fun r q hq => ⟨q, hq, Alike.refl q⟩)
        (fun r q hq => ⟨q, hq, Alike.refl q, id⟩)
  | register r => exact hinv.register hown h
  | enter r => exact hinv.enter h
  | retain r => exact hinv.retain hown h
  | release r key => exact hinv.release h
  | exit r => exact hinv.exit h

end CancelState

end LspCpp

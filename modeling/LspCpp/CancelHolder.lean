import LspCpp.CancelSystem

/-! Who a registration belongs to. While every retainer refers to the registration of the request that
took it and no cookie is drawn twice by live requests of one id, each registration belongs to the last
request that started with its id, and each retainer count is the number of retainers its owner holds. -/

namespace LspCpp

/-- Started, and its scope has not exited or a retainer it took is not released. -/
def RequestRecord.Live (request : RequestRecord) : Prop := request.Started ∧ ¬request.Finished

namespace CancelState

/-- The registry against the requests. -/
structure Registered (s : CancelState) : Prop where
  bound : ∀ r q, s.requests r = some q → r < s.nextSequence
  fresh : ∀ r q, s.requests r = some q → ¬q.Entered →
    q.retainers = [] ∧ q.released = false ∧ q.endedAt = none
  keys : ∀ r q, s.requests r = some q → ∀ key ∈ q.retainers, key = (q.id, q.cookie)
  owner : ∀ id entry, s.registry.requestCancelers.lookup id = some entry →
    ∃ q, s.requests entry.1 = some q ∧ q.id = id ∧ q.cookie = entry.2 ∧ q.Live ∧
      s.latest id = some entry.1
  count : ∀ r q, s.requests r = some q → q.Live →
    s.registry.retainedRequestCancelers.lookup (q.id, q.cookie) =
      if q.retainers = [] then none else some q.retainers.length
  retained : ∀ key n, s.registry.retainedRequestCancelers.lookup key = some n →
    ∃ r q, s.requests r = some q ∧ key = (q.id, q.cookie) ∧ q.retainers ≠ []
  distinct : ∀ r r' q q', s.requests r = some q → s.requests r' = some q' → q.Live → q'.Live →
    q.id = q'.id → q.cookie = q'.cookie → r = r'
  held : ∀ r q, s.requests r = some q → q.Started → q.endedAt = none → s.latest q.id = some r →
    s.registry.requestCancelers.lookup q.id = some (r, q.cookie)
  ended : ∀ r q, s.requests r = some q → q.endedAt ≠ none → q.phase = .exited ∨ q.released = true

/-- What the registry relies on: a started request draws a cookie that no live request of its id has,
and a retainer refers to the registration of the request that takes it. -/
def TakesOwn : CancelAction → CancelState → Prop
  | .register r, s => ∀ q, s.requests r = some q → ∀ r' q', s.requests r' = some q' → q'.Live →
      q'.id = q.id → q'.cookie ≠ s.nextRequestCookie
  | .retain r, s => ∀ q, s.requests r = some q → ∀ entry,
      s.registry.requestCancelers.lookup q.id = some entry → entry.2 = q.cookie
  | _, _ => True

theorem registered_init (limits : RemoteEndPointLimits) : Registered { limits := limits } where
  bound _ _ h := by cases h
  fresh _ _ h := by cases h
  keys _ _ h := by cases h
  owner _ _ h := by cases h
  count _ _ h := by cases h
  retained _ _ h := by cases h
  distinct _ _ _ _ h := by cases h
  held _ _ h := by cases h
  ended _ _ h := by cases h

/-- A request that holds a retainer is live. -/
theorem Registered.live_of_retainer {s : CancelState} (hinv : Registered s) {r : Nat}
    {q : RequestRecord} (hq : s.requests r = some q) (hret : q.retainers ≠ []) : q.Live := by
  constructor
  · intro hphase
    refine hret (hinv.fresh r q hq ?_).1
    rintro (h | h) <;> rw [hphase] at h <;> cases h
  · exact fun hfin => hret hfin.2

/-- Two records that the registry cannot tell apart. -/
structure Alike (q q' : RequestRecord) : Prop where
  id : q'.id = q.id
  cookie : q'.cookie = q.cookie
  retainers : q'.retainers = q.retainers
  released : q'.released = q.released
  endedAt : q'.endedAt = q.endedAt
  started : q'.Started ↔ q.Started
  exited : q'.phase = .exited ↔ q.phase = .exited

theorem Alike.refl (q : RequestRecord) : Alike q q := ⟨rfl, rfl, rfl, rfl, rfl, Iff.rfl, Iff.rfl⟩

theorem Alike.live {q q' : RequestRecord} (h : Alike q q') : q'.Live ↔ q.Live := by
  unfold RequestRecord.Live RequestRecord.Finished
  rw [h.started, h.exited, h.retainers]

/-- A step that changes no registration and keeps every request as the registry sees it. -/
theorem Registered.congr {s s' : CancelState} (hinv : Registered s)
    (hcancelers : s'.registry.requestCancelers = s.registry.requestCancelers)
    (hretained : s'.registry.retainedRequestCancelers = s.registry.retainedRequestCancelers)
    (hlatest : s'.latest = s.latest) (hnext : s.nextSequence ≤ s'.nextSequence)
    (hto : ∀ r q, s.requests r = some q → ∃ q', s'.requests r = some q' ∧ Alike q q')
    (hfrom : ∀ r q', s'.requests r = some q' → ∃ q, s.requests r = some q ∧ Alike q q' ∧
      (¬q'.Entered → ¬q.Entered)) : Registered s' where
  bound r q' hq' := by
    obtain ⟨q, hq, _⟩ := hfrom r q' hq'
    exact Nat.lt_of_lt_of_le (hinv.bound r q hq) hnext
  fresh r q' hq' hent := by
    obtain ⟨q, hq, hal, hent'⟩ := hfrom r q' hq'
    rw [hal.retainers, hal.released, hal.endedAt]
    exact hinv.fresh r q hq (hent' hent)
  keys r q' hq' key hkey := by
    obtain ⟨q, hq, hal, _⟩ := hfrom r q' hq'
    rw [hal.retainers] at hkey
    rw [hal.id, hal.cookie]
    exact hinv.keys r q hq key hkey
  owner id entry h := by
    rw [hcancelers] at h
    obtain ⟨q, hq, hid, hcookie, hlive, hlast⟩ := hinv.owner id entry h
    obtain ⟨q', hq', hal⟩ := hto _ q hq
    exact ⟨q', hq', hal.id.trans hid, hal.cookie.trans hcookie, hal.live.mpr hlive, hlatest ▸ hlast⟩
  count r q' hq' hlive := by
    obtain ⟨q, hq, hal, _⟩ := hfrom r q' hq'
    rw [hretained, hal.id, hal.cookie, hal.retainers]
    exact hinv.count r q hq (hal.live.mp hlive)
  retained key n h := by
    rw [hretained] at h
    obtain ⟨r, q, hq, hkey, hne⟩ := hinv.retained key n h
    obtain ⟨q', hq', hal⟩ := hto r q hq
    exact ⟨r, q', hq', by rw [hal.id, hal.cookie]; exact hkey, by rw [hal.retainers]; exact hne⟩
  distinct r₁ r₂ q₁' q₂' h₁ h₂ hl₁ hl₂ hid hcookie := by
    obtain ⟨q₁, hq₁, hal₁, _⟩ := hfrom r₁ q₁' h₁
    obtain ⟨q₂, hq₂, hal₂, _⟩ := hfrom r₂ q₂' h₂
    rw [hal₁.id, hal₂.id] at hid
    rw [hal₁.cookie, hal₂.cookie] at hcookie
    exact hinv.distinct r₁ r₂ q₁ q₂ hq₁ hq₂ (hal₁.live.mp hl₁) (hal₂.live.mp hl₂) hid hcookie
  held r q' hq' hstart hend hlast := by
    obtain ⟨q, hq, hal, _⟩ := hfrom r q' hq'
    rw [hal.endedAt] at hend
    rw [hal.id, hlatest] at hlast
    rw [hcancelers, hal.id, hal.cookie]
    exact hinv.held r q hq (hal.started.mp hstart) hend hlast
  ended r q' hq' hend := by
    obtain ⟨q, hq, hal, _⟩ := hfrom r q' hq'
    rw [hal.endedAt] at hend
    rw [hal.exited, hal.released]
    exact hinv.ended r q hq hend

/-! ### The steps -/

theorem Registered.routeRequest {s : CancelState} (hinv : Registered s) (id : LsRequestId) :
    Registered (setRequest { s with nextSequence := s.nextSequence + 1 } s.nextSequence { id := id }) := by
  have hnone : s.requests s.nextSequence = none := by
    by_contra h
    obtain ⟨q, hq⟩ := Option.ne_none_iff_exists'.mp h
    exact Nat.lt_irrefl _ (hinv.bound _ q hq)
  have hkeep : ∀ r q, s.requests r = some q → (setRequest { s with nextSequence := s.nextSequence + 1 }
      s.nextSequence { id := id }).requests r = some q := by
    intro r q hq
    rw [setRequest_requests, if_neg (Nat.ne_of_lt (hinv.bound r q hq))]
    exact hq
  have hnew : ¬(RequestRecord.Started { id := id }) := fun h => h rfl
  constructor
  case bound =>
    intro r q hq
    rcases requests_of_setRequest hq with ⟨rfl, _⟩ | ⟨_, hq⟩
    · exact Nat.lt_succ_self _
    · exact Nat.lt_succ_of_lt (hinv.bound r q hq)
  case fresh =>
    intro r q hq hent
    rcases requests_of_setRequest hq with ⟨_, rfl⟩ | ⟨_, hq⟩
    · exact ⟨rfl, rfl, rfl⟩
    · exact hinv.fresh r q hq hent
  case keys =>
    intro r q hq key hkey
    rcases requests_of_setRequest hq with ⟨_, rfl⟩ | ⟨_, hq⟩
    · cases hkey
    · exact hinv.keys r q hq key hkey
  case owner =>
    intro id' entry h
    obtain ⟨q, hq, hrest⟩ := hinv.owner id' entry h
    exact ⟨q, hkeep _ q hq, hrest⟩
  case count =>
    intro r q hq hlive
    rcases requests_of_setRequest hq with ⟨_, rfl⟩ | ⟨_, hq⟩
    · exact absurd hlive.1 hnew
    · exact hinv.count r q hq hlive
  case retained =>
    intro key n h
    obtain ⟨r, q, hq, hrest⟩ := hinv.retained key n h
    exact ⟨r, q, hkeep r q hq, hrest⟩
  case distinct =>
    intro r r' q q' hq hq' hl hl' hid hcookie
    rcases requests_of_setRequest hq with ⟨_, rfl⟩ | ⟨_, hq⟩
    · exact absurd hl.1 hnew
    rcases requests_of_setRequest hq' with ⟨_, rfl⟩ | ⟨_, hq'⟩
    · exact absurd hl'.1 hnew
    exact hinv.distinct r r' q q' hq hq' hl hl' hid hcookie
  case held =>
    intro r q hq hstart hend hlast
    rcases requests_of_setRequest hq with ⟨_, rfl⟩ | ⟨_, hq⟩
    · exact absurd hstart hnew
    · exact hinv.held r q hq hstart hend hlast
  case ended =>
    intro r q hq hend
    rcases requests_of_setRequest hq with ⟨_, rfl⟩ | ⟨_, hq⟩
    · exact absurd rfl hend
    · exact hinv.ended r q hq hend

/-- Invoking a canceler changes only the flag of its request. -/
theorem cancel_requests (s : CancelState) (canceler : Option Canceler) (r : Nat) :
    (s.cancel canceler).requests r = (s.requests r).map fun q =>
      if canceler = some r then { q with cancelled := true } else q := by
  cases canceler with
  | none => simp [cancel]
  | some c =>
      by_cases hr : r = c
      · subst hr
        cases hc : s.requests r <;> simp [cancel, hc]
      · have hne : ¬some c = some r := fun h => hr (Option.some.inj h).symm
        cases hc : s.requests c <;> simp [cancel, hc, hr, hne]

theorem cancel_eq (s : CancelState) (canceler : Option Canceler) :
    s.cancel canceler = { s with requests := (s.cancel canceler).requests } := by
  unfold cancel
  split
  · rfl
  · split <;> rfl

/-- A cancel on the wire: it invokes the canceler that stands under its id. -/
theorem step_routeCancel {s s' : CancelState} {id : LsRequestId}
    (h : step (.routeCancel id) s = some s') :
    s'.registry = (s.registry.onCancel s.limits id s.nextSequence).1 ∧
    s'.nextSequence = s.nextSequence + 1 ∧ s'.cancels = s.cancels ++ [(id, s.nextSequence)] ∧
    s'.latest = s.latest ∧ s'.limits = s.limits ∧ s'.nextRequestCookie = s.nextRequestCookie ∧
    s'.starts = s.starts ∧
    ∀ r, s'.requests r = (s.requests r).map fun q =>
      if (s.registry.requestCancelers.lookup id).map Prod.fst = some r then { q with cancelled := true }
      else q := by
  obtain rfl := Option.some.inj h
  rw [cancel_eq]
  refine ⟨rfl, rfl, rfl, rfl, rfl, rfl, rfl, fun r => ?_⟩
  rw [← RequestCancellationRegistry.onCancel_canceler s.registry s.limits id s.nextSequence]
  exact cancel_requests _ _ r

theorem alike_cancelled (q : RequestRecord) (c : Prop) [Decidable c] :
    Alike q (if c then { q with cancelled := true } else q) := by
  split_ifs
  · exact ⟨rfl, rfl, rfl, rfl, rfl, Iff.rfl, Iff.rfl⟩
  · exact Alike.refl q

theorem Registered.routeCancel {s s' : CancelState} (hinv : Registered s) {id : LsRequestId}
    (h : step (.routeCancel id) s = some s') : Registered s' := by
  obtain ⟨hregistry, hnext, _, hlatest, _, _, _, hrequests⟩ := step_routeCancel h
  refine hinv.congr (by simp [hregistry]) (by simp [hregistry]) hlatest (by omega) ?_ ?_
  · intro r q hq
    exact ⟨_, by rw [hrequests, hq]; rfl, alike_cancelled q _⟩
  · intro r q' hq'
    rw [hrequests] at hq'
    obtain ⟨q, hq, rfl⟩ := Option.map_eq_some_iff.mp hq'
    refine ⟨q, hq, alike_cancelled q _, ?_⟩
    split_ifs <;> exact fun hent => hent

theorem Registered.enter {s s' : CancelState} (hinv : Registered s) {r : Nat}
    (h : step (.enter r) s = some s') : Registered s' := by
  obtain ⟨request, invoke, hrequest, hphase, rfl⟩ := step_enter h
  have hal : Alike request
      { request with phase := .inScope, cancelled := request.cancelled || invoke } := by
    refine ⟨rfl, rfl, rfl, rfl, rfl, ?_, ?_⟩
    · simp [RequestRecord.Started, hphase]
    · simp [hphase]
  refine hinv.congr rfl rfl rfl (Nat.le_refl _) ?_ ?_
  · intro r' q hq
    rw [setRequest_requests]
    split_ifs with hr
    · subst hr
      obtain rfl := Option.some.inj (hrequest.symm.trans hq)
      exact ⟨_, rfl, hal⟩
    · exact ⟨q, hq, Alike.refl q⟩
  · intro r' q' hq'
    rcases requests_of_setRequest hq' with ⟨rfl, rfl⟩ | ⟨_, hq'⟩
    · exact ⟨request, hrequest, hal, fun hent => absurd (Or.inl rfl) hent⟩
    · exact ⟨q', hq', Alike.refl q', id⟩

theorem Registered.register {s s' : CancelState} (hinv : Registered s) {r : Nat}
    (hown : TakesOwn (.register r) s) (h : step (.register r) s = some s') : Registered s' := by
  obtain ⟨request, hrequest, hphase, rfl⟩ := step_register h
  have hunstarted : ¬request.Started := fun hs => hs hphase
  have hfresh := hinv.fresh r request hrequest (by
    rintro (h | h) <;> rw [hphase] at h <;> cases h)
  have hother : ∀ r' q, s.requests r' = some q → q.Started → r' ≠ r := by
    rintro r' q hq hstart rfl
    obtain rfl := Option.some.inj (hrequest.symm.trans hq)
    exact hunstarted hstart
  have hdrawn : ∀ r' q, s.requests r' = some q → q.Live → q.id = request.id →
      q.cookie ≠ s.nextRequestCookie := hown request hrequest
  constructor
  case bound =>
    intro r' q hq
    rcases requests_of_registerRequest hq with ⟨rfl, -⟩ | ⟨-, hq⟩
    · exact hinv.bound r' request hrequest
    · exact hinv.bound r' q hq
  case fresh =>
    intro r' q hq hent
    rcases requests_of_registerRequest hq with ⟨-, invoke, rfl⟩ | ⟨-, hq⟩
    · exact hfresh
    · exact hinv.fresh r' q hq hent
  case keys =>
    intro r' q hq key hkey
    rcases requests_of_registerRequest hq with ⟨-, invoke, rfl⟩ | ⟨-, hq⟩
    · rw [show _ = [] from hfresh.1] at hkey
      cases hkey
    · exact hinv.keys r' q hq key hkey
  case owner =>
    intro id entry hentry
    simp only [registerRequest, setRequest, RequestCancellationRegistry.cancelableRequestContext_requestCancelers,
      Table.lookup_insert_ite] at hentry ⊢
    split_ifs at hentry with hid
    · obtain rfl := Option.some.inj hentry
      refine ⟨_, Function.update_self .., hid.symm, rfl, ⟨?_, ?_⟩, ?_⟩
      · exact fun h => by cases h
      · exact fun h => by cases h.1
      · rw [hid]
        exact Function.update_self ..
    · obtain ⟨q, hq, hqid, hcookie, hlive, hlast⟩ := hinv.owner id entry hentry
      refine ⟨q, ?_, hqid, hcookie, hlive, ?_⟩
      · rw [Function.update_of_ne (hother _ q hq hlive.1)]
        exact hq
      · rw [Function.update_of_ne hid]
        exact hlast
  case count =>
    intro r' q hq hlive
    simp only [registerRequest, setRequest, RequestCancellationRegistry.cancelableRequestContext_retained]
    rcases requests_of_registerRequest hq with ⟨-, invoke, rfl⟩ | ⟨-, hq⟩
    · dsimp only
      rw [if_pos hfresh.1]
      by_contra hsome
      obtain ⟨n, hn⟩ := Option.ne_none_iff_exists'.mp hsome
      obtain ⟨r₀, q₀, hq₀, hkey, hret⟩ := hinv.retained _ n hn
      have hkey := Prod.mk.inj hkey
      exact hdrawn r₀ q₀ hq₀ (hinv.live_of_retainer hq₀ hret) hkey.1.symm hkey.2.symm
    · exact hinv.count r' q hq hlive
  case retained =>
    intro key n hn
    simp only [registerRequest, setRequest, RequestCancellationRegistry.cancelableRequestContext_retained] at hn ⊢
    obtain ⟨r₀, q₀, hq₀, hkey, hret⟩ := hinv.retained key n hn
    refine ⟨r₀, q₀, ?_, hkey, hret⟩
    rw [Function.update_of_ne (hother r₀ q₀ hq₀ (hinv.live_of_retainer hq₀ hret).1)]
    exact hq₀
  case distinct =>
    intro r₁ r₂ q₁ q₂ h₁ h₂ hl₁ hl₂ hid hcookie
    rcases requests_of_registerRequest h₁ with ⟨hr₁, invoke, rfl⟩ | ⟨-, h₁⟩ <;>
      rcases requests_of_registerRequest h₂ with ⟨hr₂, invoke', rfl⟩ | ⟨-, h₂⟩
    · exact hr₁.trans hr₂.symm
    · exact absurd hcookie.symm (hdrawn r₂ q₂ h₂ hl₂ hid.symm)
    · exact absurd hcookie (hdrawn r₁ q₁ h₁ hl₁ hid)
    · exact hinv.distinct r₁ r₂ q₁ q₂ h₁ h₂ hl₁ hl₂ hid hcookie
  case held =>
    intro r' q hq hstart hend hlast
    simp only [registerRequest, setRequest, RequestCancellationRegistry.cancelableRequestContext_requestCancelers,
      Table.lookup_insert_ite] at hlast ⊢
    rcases requests_of_registerRequest hq with ⟨hr, invoke, rfl⟩ | ⟨hr, hq⟩
    · rw [if_pos rfl, hr]
    · have hid : q.id ≠ request.id := by
        intro hid
        rw [hid, Function.update_self] at hlast
        exact hr (Option.some.inj hlast).symm
      rw [Function.update_of_ne hid] at hlast
      rw [if_neg hid]
      exact hinv.held r' q hq hstart hend hlast
  case ended =>
    intro r' q hq hend
    rcases requests_of_registerRequest hq with ⟨-, invoke, rfl⟩ | ⟨-, hq⟩
    · exact absurd hfresh.2.2 hend
    · exact hinv.ended r' q hq hend

end CancelState

end LspCpp

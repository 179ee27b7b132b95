import LspCpp.CancelHandler

/-! Overlapping requests with one id. The last of them to start is the one the registry cancels, as long
as no earlier one retains its registration. -/

namespace LspCpp

namespace CancelState

/-- The last request to start with its id is registered under it until it leaves its scope or releases a
retainer, and a finished request has left nothing behind. -/
def LastHolderCancellable (s : CancelState) : Prop :=
  (∀ r q, s.requests r = some q → q.Started → s.latest q.id = some r → q.phase ≠ .exited →
    q.released = false → s.registry.requestCancelers.lookup q.id = some (r, q.cookie)) ∧
  ∀ r q, s.requests r = some q → q.Finished →
    (∀ id entry, s.registry.requestCancelers.lookup id = some entry → entry.2 ≠ q.cookie) ∧
    ∀ key n, s.registry.retainedRequestCancelers.lookup key = some n → key.2 ≠ q.cookie

/-- The cookie counter has not wrapped, and a handler retains its request only while the registration
under the id, if there is one, is that of the request itself. -/
def RetainsOwn : CancelAction → CancelState → Prop
  | .register _, s => s.starts < cookieModulus
  | .retain r, s => ∀ q ∈ s.requests r, ∀ entry ∈ s.registry.requestCancelers.lookup q.id,
      entry.2 = q.cookie
  | _, _ => True

instance (a : CancelAction) (s : CancelState) : Decidable (RetainsOwn a s) :=
  match a with
  | .register _ => inferInstanceAs (Decidable (_ < _))
  | .retain r => inferInstanceAs (Decidable (∀ q ∈ s.requests r, ∀ entry ∈
      s.registry.requestCancelers.lookup q.id, entry.2 = q.cookie))
  | .routeRequest _ | .routeCancel _ | .routeOther | .enter _ | .release _ _ | .exit _ =>
      inferInstanceAs (Decidable True)

/-- Cookies are the numbers below `starts`, each drawn once. -/
structure CookiesFresh (s : CancelState) : Prop where
  next : s.nextRequestCookie = s.starts % cookieModulus
  bound : s.starts ≤ cookieModulus
  drawn : ∀ r q, s.requests r = some q → q.Started → q.cookie < s.starts
  once : ∀ r r' q q', s.requests r = some q → s.requests r' = some q' → q.Started → q'.Started →
    q.cookie = q'.cookie → r = r'

/-- A step that starts no request. -/
theorem CookiesFresh.congr {s s' : CancelState} (hinv : CookiesFresh s)
    (hnext : s'.nextRequestCookie = s.nextRequestCookie) (hstarts : s'.starts = s.starts)
    (hfrom : ∀ r q', s'.requests r = some q' → q'.Started →
      ∃ q, s.requests r = some q ∧ q.Started ∧ q.cookie = q'.cookie) : CookiesFresh s' where
  next := by rw [hnext, hstarts]; exact hinv.next
  bound := hstarts ▸ hinv.bound
  drawn r q' hq' hs' := by
    obtain ⟨q, hq, hs, hc⟩ := hfrom r q' hq' hs'
    rw [hstarts, ← hc]
    exact hinv.drawn r q hq hs
  once r₁ r₂ q₁' q₂' h₁ h₂ hs₁ hs₂ hcookie := by
    obtain ⟨q₁, hq₁, hst₁, hc₁⟩ := hfrom r₁ q₁' h₁ hs₁
    obtain ⟨q₂, hq₂, hst₂, hc₂⟩ := hfrom r₂ q₂' h₂ hs₂
    have hdrawn : q₁.cookie = q₂.cookie :=
      calc q₁.cookie = q₁'.cookie := hc₁
        _ = q₂'.cookie := hcookie
        _ = q₂.cookie := hc₂.symm
    exact hinv.once r₁ r₂ q₁ q₂ hq₁ hq₂ hst₁ hst₂ hdrawn

/-- A step of the handler of a started request. -/
theorem CookiesFresh.ofHandler {s s' : CancelState} (hinv : CookiesFresh s) {r : Nat}
    {q q' : RequestRecord} (hq : s.requests r = some q) (hstart : q.Started)
    (hrequests : s'.requests = Function.update s.requests r (some q')) (hcookie : q'.cookie = q.cookie)
    (hnext : s'.nextRequestCookie = s.nextRequestCookie) (hstarts : s'.starts = s.starts) :
    CookiesFresh s' := by
  refine hinv.congr hnext hstarts ?_
  intro r' p hp hs
  rw [hrequests, Function.update_apply] at hp
  split_ifs at hp with hr
  · obtain rfl := Option.some.inj hp
    exact ⟨q, hr ▸ hq, hstart, hcookie.symm⟩
  · exact ⟨p, hp, hs, rfl⟩

theorem CookiesFresh.step {s s' : CancelState} {a : CancelAction} (hinv : CookiesFresh s)
    (hreg : Registered s) (hok : RetainsOwn a s) (h : step a s = some s') : CookiesFresh s' := by
  cases a with
  | routeRequest id =>
      obtain rfl := Option.some.inj h
      refine hinv.congr rfl rfl ?_
      intro r q hq hs
      rcases requests_of_setRequest hq with ⟨_, rfl⟩ | ⟨_, hq⟩
      · exact absurd rfl hs
      · exact ⟨q, hq, hs, rfl⟩
  | routeCancel id =>
      obtain ⟨_, _, _, _, _, hnext, hstarts, hrequests⟩ := step_routeCancel h
      refine hinv.congr hnext hstarts ?_
      intro r q' hq' hs'
      rw [hrequests] at hq'
      obtain ⟨q, hq, rfl⟩ := Option.map_eq_some_iff.mp hq'
      exact ⟨q, hq, (alike_cancelled q _).started.mp hs', (alike_cancelled q _).cookie.symm⟩
  | routeOther =>
      obtain rfl := Option.some.inj h
      exact hinv.congr rfl rfl fun r q hq hs => ⟨q, hq, hs, rfl⟩
  | register r =>
      obtain ⟨request, hrequest, hphase, rfl⟩ := step_register h
      have hlt : s.starts < cookieModulus := hok
      have hcookie : s.nextRequestCookie = s.starts := by rw [hinv.next, Nat.mod_eq_of_lt hlt]
      refine ⟨?_, hlt, ?_, ?_⟩
      · show (s.nextRequestCookie + 1) % cookieModulus = (s.starts + 1) % cookieModulus
        rw [hcookie]
      · intro r' q hq hs
        rcases requests_of_registerRequest hq with ⟨_, invoke, rfl⟩ | ⟨_, hq⟩
        · show s.nextRequestCookie < s.starts + 1
          omega
        · exact Nat.lt_succ_of_lt (hinv.drawn r' q hq hs)
      · intro r₁ r₂ q₁ q₂ h₁ h₂ hs₁ hs₂ hc
        rcases requests_of_registerRequest h₁ with ⟨hr₁, invoke, rfl⟩ | ⟨_, h₁⟩ <;>
          rcases requests_of_registerRequest h₂ with ⟨hr₂, invoke', rfl⟩ | ⟨_, h₂⟩
        · exact hr₁.trans hr₂.symm
        · have hold := hinv.drawn r₂ q₂ h₂ hs₂
          have hdrawn : s.nextRequestCookie = q₂.cookie := hc
          omega
        · have hold := hinv.drawn r₁ q₁ h₁ hs₁
          have hdrawn : q₁.cookie = s.nextRequestCookie := hc
          omega
        · exact hinv.once r₁ r₂ q₁ q₂ h₁ h₂ hs₁ hs₂ hc
  | enter r =>
      obtain ⟨request, invoke, hrequest, hphase, rfl⟩ := step_enter h
      exact hinv.ofHandler hrequest (fun hs => by rw [hphase] at hs; cases hs) rfl rfl rfl rfl
  | retain r =>
      obtain ⟨request, hrequest, hphase, rfl⟩ := step_retain h
      exact hinv.ofHandler hrequest (live_of_inScope hphase).1 rfl rfl rfl rfl
  | release r key =>
      obtain ⟨request, hrequest, hmem, rfl⟩ := step_release h
      refine hinv.ofHandler hrequest
        (hreg.live_of_retainer hrequest (List.ne_nil_of_mem hmem)).1 rfl ?_ rfl rfl
      split_ifs <;> rfl
  | exit r =>
      obtain ⟨request, hrequest, hphase, rfl⟩ := step_exit h
      refine hinv.ofHandler hrequest (live_of_inScope hphase).1 rfl ?_ rfl rfl
      split_ifs <;> rfl

theorem RetainsOwn.takesOwn {s : CancelState} {a : CancelAction} (hcookies : CookiesFresh s)
    (hok : RetainsOwn a s) : TakesOwn a s := by
  cases a with
  | register r =>
      intro q hq r' q' hq' hlive hid
      have hlt : s.starts < cookieModulus := hok
      have := hcookies.drawn r' q' hq' hlive.1
      rw [hcookies.next, Nat.mod_eq_of_lt hlt]
      omega
  | retain r => exact fun q hq entry hentry => hok q hq entry hentry
  | _ => exact (trivial : True)

theorem reachable_registered {s : CancelState} (hs : cancelSystem.ReachableIf RetainsOwn s) :
    Registered s ∧ CookiesFresh s := by
  refine hs.invariant (fun s => Registered s ∧ CookiesFresh s) ?_ ?_
  · rintro s ⟨limits, rfl⟩
    refine ⟨registered_init limits, rfl, Nat.zero_le _, ?_, ?_⟩
    · rintro _ _ ⟨⟩
    · rintro _ _ _ _ ⟨⟩
  · rintro a s s' ⟨hreg, hcookies⟩ hok h
    exact ⟨hreg.step (hok.takesOwn hcookies) h, hcookies.step hreg hok h⟩

/-- **The last holder of an id stays cancellable** in every run in which the cookie counter does not
wrap and no handler retains the registration of a later request with its id. -/
theorem lastHolder_cancellable (s : CancelState) (hs : cancelSystem.ReachableIf RetainsOwn s) :
    LastHolderCancellable s := by
  obtain ⟨hreg, hcookies⟩ := reachable_registered hs
  refine ⟨?_, ?_⟩
  · intro r q hq hstart hlast hphase hreleased
    refine hreg.held r q hq hstart ?_ hlast
    by_contra hend
    rcases hreg.ended r q hq hend with h | h
    · exact hphase h
    · rw [hreleased] at h
      cases h
  · intro r q hq hfin
    have hstart : q.Started := fun h => by rw [hfin.1] at h; cases h
    have hnot : ∀ r' q', s.requests r' = some q' → q'.Live → q'.cookie ≠ q.cookie := by
      intro r' q' hq' hlive hcookie
      obtain rfl := hcookies.once r' r q' q hq' hq hlive.1 hstart hcookie
      obtain rfl := Option.some.inj (hq.symm.trans hq')
      exact hlive.2 hfin
    refine ⟨?_, ?_⟩
    · intro id entry hentry
      obtain ⟨q', hq', _, hcookie, hlive, _⟩ := hreg.owner id entry hentry
      exact hcookie ▸ hnot entry.1 q' hq' hlive
    · intro key n hkey
      obtain ⟨r', q', hq', rfl, hret⟩ := hreg.retained key n hkey
      exact hnot r' q' hq' (hreg.live_of_retainer hq' hret)

/-- Two requests with different ids, one of them retained past its scope and released. -/
def retainedRun : List CancelAction :=
  [.routeRequest (.kInt 1), .routeRequest (.kInt 2), .register 0, .enter 0, .register 1, .enter 1,
    .retain 0, .exit 0, .release 0 (.kInt 1, 0)]

theorem lastHolder_cancellable_retainedRun :
    ∃ s, cancelSystem.runIf RetainsOwn retainedRun {} = some s ∧ LastHolderCancellable s :=
  ⟨_, rfl, lastHolder_cancellable _
    (Transition.System.reachableIf_of_runIf retainedRun (.init ⟨{}, rfl⟩) rfl)⟩

/-- Two requests share the id 1. The first retains after the second has registered, so it holds a
retainer of the second's registration and erases that registration when it releases it. -/
def overlapRun : List CancelAction :=
  [.routeRequest (.kInt 1), .routeRequest (.kInt 1), .register 0, .enter 0, .register 1, .enter 1,
    .retain 0, .release 0 (.kInt 1, 1)]

theorem overlapRun_unregisters_lastHolder :
    ∃ s, cancelSystem.run overlapRun {} = some s ∧ ¬LastHolderCancellable s := by
  refine ⟨_, rfl, ?_⟩
  rintro ⟨hheld, _⟩
  exact absurd (hheld 1 { id := .kInt 1, cookie := 1, phase := .inScope } rfl (by decide) rfl (by decide) rfl)
    (by decide)

end CancelState

end LspCpp

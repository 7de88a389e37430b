import IocpChat.Authentication.RefreshFamilies
import IocpChat.Network.Connections

/-!
# A session and its newest access token

An authenticated session holds the time at which it ends, and `ValidateSessionHotPath` compares
the clock with it.  A client that sends `PKT_LOGIN`, `PKT_TOKEN` or `PKT_REFRESH` is given a new
access token.  The session should end when that token does.

After a login and after a refresh the session gets the expiry of the new token.
`HandleTokenPacket` caches the expiry of the token that was presented and then issues another one,
so the session ends when the old token does.  A refresh token that is refused by its family ends
the session at once, and the access token stays valid.

The handlers are those of `AuthManager`, step by step; here they write to the session.  Between two
steps the handlers of other sessions may do anything to the families.

## Main definitions

* `AuthCall.write` — what a step of a handler does to the session.
* `TokenSession`, `TokenSession.step` — a session, its handler, and the token it was sent last.
* `TokenSession.InStep` — the session is accepted as long as the token.
-/

namespace IocpChat

open Transition

variable {Signature : Type}

/-! ## The code -/

/-- What a handler does to the session in the step from a point to the next. -/
def AuthCall.write : AuthCall Signature → AuthCall Signature → Session → Session
  | .token (some t), .issue .. => cacheAuthOnSession t.payload.userId t.payload.expiry
  | .advance _, .done => fun s => { s with authState := .unauthenticated, cachedExpiry := 0 }
  | .issue .refresh userId, .send _ tokens =>
    cacheAuthOnSession userId tokens.accessToken.payload.expiry
  | .insert tokens, _ =>
    cacheAuthOnSession tokens.accessToken.payload.userId tokens.accessToken.payload.expiry
  | _, _ => id

/-- The access token that a step hands to `SendTokenGranted`. -/
def AuthCall.sent : AuthCall Signature → Option (AccessToken Signature)
  | .send _ tokens => some tokens.accessToken
  | _ => none

/-- A session with the handler of its packet, which is `done` if there is none. -/
structure TokenSession (Signature : Type) where
  manager : AuthManager Signature
  session : Session
  call : AuthCall Signature
  /-- The access token that was sent last. -/
  newest : Option (AccessToken Signature)

namespace TokenSession

inductive Action (Signature : Type)
  /-- A `PKT_LOGIN`.  There is a user if the password was verified. -/
  | login (user : Option AccountId)
  | token (data : Option (AccessToken Signature))
  | refresh (data : Option (RefreshToken Signature))
  | run (now : UInt64)
  /-- The handlers of other sessions have run. -/
  | others (manager : AuthManager Signature)

/-- A session that was not sent a token yet. -/
def start (manager : AuthManager Signature) (session : Session) : TokenSession Signature :=
  ⟨manager, session, .done, none⟩

/-- A packet arrives.  The packets of a session are handled one after the other. -/
def receive (s : TokenSession Signature) (call : AuthCall Signature) :
    Option (TokenSession Signature) :=
  match s.call with
  | .done => some { s with call }
  | _ => none

variable [DecidableEq Signature] (c : Crypto Signature)

def step (s : TokenSession Signature) : Action Signature → Option (TokenSession Signature)
  | .login user => s.receive (user.elim .done (.issue .login))
  | .token data => s.receive (.token data)
  | .refresh data => s.receive (.refresh data)
  | .run now =>
    (s.manager.exec c now s.call).map fun r =>
      { manager := r.1
        session := s.call.write r.2 s.session
        call := r.2
        newest := s.call.sent.or s.newest }
  | .others manager => some { s with manager }

/-- **The session is accepted as long as the newest access token.** -/
structure InStep (s : TokenSession Signature) : Prop where
  expiry : ∀ token ∈ s.newest, s.session.cachedExpiry = token.payload.expiry
  accepted : ∀ token ∈ s.newest, ∀ now,
    validateSessionHotPath now s.session = (c.validateAccessToken now (some token)).isSome

end TokenSession

/-- At this point a step leaves it so.  A token that was presented ends when the one that is issued
for it does, and one is issued; and the family of a refresh token does not refuse it. -/
def AuthCall.Lasting (c : Crypto Signature) (manager : AuthManager Signature) (session : Session)
    (now : UInt64) : AuthCall Signature → Prop
  | .issue .token userId =>
    (manager.issueTokenPair c now .token userId).2.isSome ∧
      now + accessTokenLifetime = session.cachedExpiry
  | .advance payload => (manager.advance payload).2 = true
  | _ => True

instance (c : Crypto Signature) (manager : AuthManager Signature) (session : Session) (now : UInt64) :
    (call : AuthCall Signature) → Decidable (call.Lasting c manager session now)
  | .issue .token _ => inferInstanceAs (Decidable (_ ∧ _))
  | .advance _ => inferInstanceAs (Decidable (_ = _))
  | .issue .login _ | .issue .refresh _ | .token _ | .refresh _ | .insert _ | .send .. | .done =>
    .isTrue trivial

namespace TokenSession

/-- A step leaves session and token in step. -/
def Lasting (c : Crypto Signature) (s : TokenSession Signature) : Action Signature → Prop
  | .run now => s.call.Lasting c s.manager s.session now
  | .login _ | .token _ | .refresh _ | .others _ => True

instance (c : Crypto Signature) (s : TokenSession Signature) :
    (a : Action Signature) → Decidable (s.Lasting c a)
  | .run _ => inferInstanceAs (Decidable (AuthCall.Lasting ..))
  | .login _ | .token _ | .refresh _ | .others _ => .isTrue trivial

/-! ## Tokens that are accepted -/

/-- A token that `IssueTokenPair` has made. -/
structure Made (c : Crypto Signature) (t : AccessToken Signature) : Prop where
  signature : c.authAccess t.payload = some t.signature
  keyId : t.payload.keyId = 0

/-- The session is authenticated until the token ends. -/
structure Lasts (session : Session) (t : AccessToken Signature) : Prop where
  authState : session.authState = .authenticated
  expiry : session.cachedExpiry = t.payload.expiry

section Tokens

variable {c : Crypto Signature} {t : AccessToken Signature} {session : Session}

theorem lasts_cache (userId : AccountId) (session : Session) :
    Lasts (cacheAuthOnSession userId t.payload.expiry session) t := ⟨rfl, rfl⟩

/-- **The two checks agree**, on a session that lasts as long as a token. -/
theorem Lasts.validate [DecidableEq Signature] (h : Lasts session t) (ht : Made c t) (now : UInt64) :
    validateSessionHotPath now session = (c.validateAccessToken now (some t)).isSome := by
  have hvalid : tokenValid (decide (c.authAccess t.payload = some t.signature)) now t.payload.expiry
      t.payload.keyId = decide (now < t.payload.expiry) := by
    rw [Bool.eq_iff_iff, tokenValid_iff]
    simp [ht.signature, ht.keyId]
  simp only [validateSessionHotPath, h.authState, h.expiry, Crypto.validateAccessToken, hvalid]
  by_cases hlt : now < t.payload.expiry <;> simp [hlt]

/-- What `IssueTokenPair` makes. -/
theorem made_issueTokenPair {m m' : AuthManager Signature} {now : UInt64} {grant : Grant}
    {userId : AccountId} {tokens : TokenPair Signature}
    (h : m.issueTokenPair c now grant userId = (m', some tokens)) :
    Made c tokens.accessToken ∧ tokens.accessToken.payload.expiry = now + accessTokenLifetime := by
  simp only [AuthManager.issueTokenPair] at h
  split at h
  · cases h
  next signature hsignature =>
    obtain ⟨-, htokens⟩ := Prod.mk.inj h
    obtain ⟨refreshSignature, -, rfl⟩ := Option.map_eq_some_iff.mp htokens
    exact ⟨⟨hsignature, rfl⟩, rfl⟩

end Tokens

/-! ## The steps of the handlers -/

variable {c : Crypto Signature} {s s' : TokenSession Signature}

/-- What holds at a point of a handler.  Between the check of an access token and the grant, the
session lasts as long as the token that was presented. -/
def PointInv (c : Crypto Signature) (session : Session) (newest : Option (AccessToken Signature)) :
    AuthCall Signature → Prop
  | .issue .token _ => session.authState = .authenticated
  | .insert tokens => (∀ t ∈ newest, Lasts session t) ∧ Made c tokens.accessToken
  | .send _ tokens => Lasts session tokens.accessToken ∧ Made c tokens.accessToken
  | _ => ∀ t ∈ newest, Lasts session t

structure Inv (c : Crypto Signature) (s : TokenSession Signature) : Prop where
  made : ∀ t ∈ s.newest, Made c t
  point : PointInv c s.session s.newest s.call

theorem Inv.receive {call : AuthCall Signature} (h : s.Inv c)
    (hcall : (∀ t ∈ s.newest, Lasts s.session t) → PointInv c s.session s.newest call)
    (hreceive : s.receive call = some s') : s'.Inv c := by
  unfold TokenSession.receive at hreceive
  split at hreceive
  next hdone =>
    cases hreceive
    have hpoint := h.point
    rw [hdone] at hpoint
    exact ⟨h.made, hcall hpoint⟩
  next => cases hreceive

variable [DecidableEq Signature]

theorem Inv.run {now : UInt64} (h : s.Inv c) (hlasting : s.Lasting c (.run now))
    (hstep : s.step c (.run now) = some s') : s'.Inv c := by
  obtain ⟨⟨m, next⟩, hexec, rfl⟩ := Option.map_eq_some_iff.mp hstep
  obtain ⟨manager, session, call, newest⟩ := s
  have hmade := h.made
  have hpoint := h.point
  cases call with
  | token data =>
    refine ⟨hmade, ?_⟩
    simp only [AuthManager.exec] at hexec
    split at hexec
    next =>
      cases hexec
      cases data <;> exact hpoint
    next payload hvalid =>
      cases hexec
      cases data with
      | none => cases hvalid
      | some t => exact rfl
  | refresh data =>
    refine ⟨hmade, ?_⟩
    simp only [AuthManager.exec] at hexec
    split at hexec <;> cases hexec <;> exact hpoint
  | advance payload =>
    refine ⟨hmade, ?_⟩
    have hok : (manager.advance payload).2 = true := hlasting
    simp only [AuthManager.exec] at hexec
    split at hexec
    next =>
      cases hexec
      exact hpoint
    next hfail =>
      rw [hfail] at hok
      cases hok
  | issue grant userId =>
    refine ⟨hmade, ?_⟩
    simp only [AuthManager.exec] at hexec
    split at hexec
    next hfail =>
      cases hexec
      cases grant with
      | token =>
        have hsome := hlasting.1
        rw [hfail] at hsome
        cases hsome
      | _ => exact hpoint
    next tokens hissue =>
      cases hexec
      obtain ⟨htokens, hexpiry⟩ := made_issueTokenPair hissue
      cases grant with
      | login => exact ⟨hpoint, htokens⟩
      | token => exact ⟨⟨hpoint, hlasting.2.symm.trans hexpiry.symm⟩, htokens⟩
      | refresh => exact ⟨lasts_cache userId session, htokens⟩
  | insert tokens =>
    cases hexec
    exact ⟨hmade, lasts_cache _ session, hpoint.2⟩
  | send grant tokens =>
    cases hexec
    refine ⟨?_, ?_⟩
    · intro t ht
      cases ht
      exact hpoint.2
    · intro t ht
      cases ht
      exact hpoint.1
  | done => cases hexec

theorem Inv.step {a : Action Signature} (h : s.Inv c) (hlasting : s.Lasting c a)
    (hstep : s.step c a = some s') : s'.Inv c := by
  cases a with
  | login user => exact h.receive (by cases user <;> exact id) hstep
  | token | refresh => exact h.receive id hstep
  | run now => exact h.run hlasting hstep
  | others manager =>
    cases hstep
    exact ⟨h.made, h.point⟩

/-- **A session lasts as long as its newest access token**, in every run in which a token that is
presented ends when the one that is issued for it does, and no refresh token is refused by its
family. -/
theorem inStep_of_lasting (c : Crypto Signature) (manager : AuthManager Signature) (session : Session)
    (s : TokenSession Signature) (hreach : Reaches (step c) (Lasting c) (start manager session) s)
    (hdone : s.call = .done) : s.InStep c := by
  have hinv : s.Inv c := by
    apply hreach.invariant
    · constructor
      · intro t ht
        cases ht
      · intro t ht
        cases ht
    · intro s a s' _ h hlasting hstep
      exact h.step hlasting hstep
  have hpoint := hinv.point
  rw [hdone] at hpoint
  constructor
  · intro t ht
    exact (hpoint t ht).expiry
  · intro t ht now
    exact (hpoint t ht).validate (hinv.made t ht) now

/-! ## Runs without signatures -/

/-- A session on a socket, before its first packet. -/
def sampleSession : Session := ⟨[], 5, false, .unauthenticated, .replicate 16 0, 0⟩

/-- A user logs in at the time 0. -/
def loggedIn : List (Action Unit) := [.login (some (.replicate 16 7)), .run 0, .run 0, .run 0]

/-- The access token that the user is granted then. -/
def loginToken : AccessToken Unit := ⟨⟨.replicate 16 7, 0, 900, 0⟩, ()⟩

/-- A user logs in and refreshes after 500 seconds. -/
theorem inStep_of_lasting_refresh :
    ∃ s, Reaches (step Authenticator.unsigned) (Lasting Authenticator.unsigned)
        (start .new sampleSession) s ∧
      s.newest = some ⟨⟨.replicate 16 7, 500, 1400, 0⟩, ()⟩ ∧ s.InStep Authenticator.unsigned := by
  obtain ⟨s, hrun, hnewest, hdone⟩ := exists_run (step Authenticator.unsigned)
    (start .new sampleSession)
    (loggedIn ++ [.refresh (some (Authenticator.firstToken 1)), .run 500, .run 500, .run 500, .run 500])
    (fun s => s.newest = some ⟨⟨.replicate 16 7, 500, 1400, 0⟩, ()⟩ ∧ s.call = .done)
    (by decide +kernel)
  have hreach : Reaches (step Authenticator.unsigned) (Lasting Authenticator.unsigned)
      (start .new sampleSession) s := reaches_of_run (by decide +kernel) hrun
  exact ⟨s, hreach, hnewest, inStep_of_lasting _ .new sampleSession s hreach hdone⟩

/-- A user logs in and presents the access token after 100 seconds.  The new one is valid until
1000, and the session ends at 900. -/
theorem not_inStep_token :
    ∃ s, Transition.run (step Authenticator.unsigned) (start .new sampleSession)
        (loggedIn ++ [.token (some loginToken), .run 100, .run 100, .run 100]) = some s ∧
      s.call = .done ∧ s.newest = some ⟨⟨.replicate 16 7, 100, 1000, 0⟩, ()⟩ ∧
      validateSessionHotPath 950 s.session = false ∧ ¬ s.InStep Authenticator.unsigned := by
  obtain ⟨s, hrun, hdone, hnewest, hpath⟩ := exists_run (step Authenticator.unsigned)
    (start .new sampleSession) (loggedIn ++ [.token (some loginToken), .run 100, .run 100, .run 100])
    (fun s => s.call = .done ∧ s.newest = some ⟨⟨.replicate 16 7, 100, 1000, 0⟩, ()⟩ ∧
      validateSessionHotPath 950 s.session = false) (by decide +kernel)
  refine ⟨s, hrun, hdone, hnewest, hpath, ?_⟩
  intro h
  have haccepted := h.accepted _ hnewest 950
  rw [hpath] at haccepted
  exact absurd haccepted (by decide)

end TokenSession

end IocpChat

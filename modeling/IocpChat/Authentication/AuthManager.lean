import IocpChat.Lib.Transition
import Mathlib.Data.Vector.Basic

/-!
# `AuthManager`: token pairs and refresh families

A client that is let in gets an access token and a refresh token.  Tokens are signed
payloads and are not stored.  What the server keeps is the family of a refresh token,
with the number of the token that may be presented next; presenting another one revokes
the family.

The handlers of any number of connections run at the same time.  They meet in the store
of families, whose functions run under a lock, and in the counter of family ids, so a
step is one access to either of them, or a part of a handler that touches neither.  The
time is read again in each step and may be anything.

`crypto_auth` under the server's key is a parameter; `crypto_auth_verify` compares a
signature with the one that `crypto_auth` gives.  A login is taken from where the
password has been verified.

## Main definitions

* `RefreshTokenPayload`, `AccessTokenPayload` — what is signed.
* `RefreshFamilyStore`, `insert`, `advanceTokenId` — the families.
* `issueTokenPair`, `validateAccessToken`, `validateRefreshToken` — the tokens.
* `Authenticator`, `Authenticator.step` — the handlers running concurrently.
-/

namespace IocpChat

open Transition

/-! ## Tokens -/

/-- The 16 bytes of a user's id. -/
abbrev AccountId := List.Vector UInt8 16

structure AccessTokenPayload where
  userId : AccountId
  issuedAt : UInt64
  expiry : UInt64
  keyId : UInt8
  deriving DecidableEq

structure RefreshTokenPayload where
  userId : AccountId
  familyId : UInt64
  tokenId : UInt64
  expiry : UInt64
  keyId : UInt8
  deriving DecidableEq

structure AccessToken (Signature : Type) where
  payload : AccessTokenPayload
  signature : Signature
  deriving DecidableEq

structure RefreshToken (Signature : Type) where
  payload : RefreshTokenPayload
  signature : Signature
  deriving DecidableEq

/-- `crypto_auth` under the signing key of the server, for the two kinds of payload.
Without a signature the call has failed. -/
structure Crypto (Signature : Type) where
  authAccess : AccessTokenPayload → Option Signature
  authRefresh : RefreshTokenPayload → Option Signature

/-- The lifetime of an access token, in seconds. -/
def accessTokenLifetime : UInt64 := 900

/-- The lifetime of a refresh token, in seconds. -/
def refreshTokenLifetime : UInt64 := 2592000

/-- The checks on a token of the right size: its signature, its expiry, and its key. -/
def tokenValid (verified : Bool) (now expiry : UInt64) (keyId : UInt8) : Bool :=
  if !verified then false
  else if expiry ≤ now then false
  else if keyId ≠ 0 then false
  else true

theorem tokenValid_iff {verified : Bool} {now expiry : UInt64} {keyId : UInt8} :
    tokenValid verified now expiry keyId = true ↔ verified = true ∧ now < expiry ∧ keyId = 0 := by
  cases verified with
  | false => simp [tokenValid]
  | true =>
    by_cases hexpiry : expiry ≤ now
    · simp [tokenValid, hexpiry, UInt64.not_lt.mpr hexpiry]
    · simp [tokenValid, hexpiry, UInt64.not_le.mp hexpiry]

section Validate

variable {Signature : Type} [DecidableEq Signature]

/-- Check an access token.  Data of another size is `none`. -/
def Crypto.validateAccessToken (c : Crypto Signature) (now : UInt64) :
    Option (AccessToken Signature) → Option AccessTokenPayload
  | none => none
  | some token =>
    if tokenValid (c.authAccess token.payload = some token.signature) now token.payload.expiry
      token.payload.keyId then some token.payload else none

/-- Check a refresh token.  Data of another size is `none`. -/
def Crypto.validateRefreshToken (c : Crypto Signature) (now : UInt64) :
    Option (RefreshToken Signature) → Option RefreshTokenPayload
  | none => none
  | some token =>
    if tokenValid (c.authRefresh token.payload = some token.signature) now token.payload.expiry
      token.payload.keyId then some token.payload else none

end Validate

/-! ## Families -/

structure RefreshFamilyRecord where
  familyId : UInt64
  userId : AccountId
  currentTokenId : UInt64
  revoked : Bool
  deriving DecidableEq

/-- The record of a family whose first token has this payload. -/
def RefreshFamilyRecord.first (payload : RefreshTokenPayload) : RefreshFamilyRecord :=
  ⟨payload.familyId, payload.userId, 1, false⟩

/-- The records of the families, by their ids. -/
abbrev RefreshFamilyStore := UInt64 → Option RefreshFamilyRecord

namespace RefreshFamilyStore

def insert (store : RefreshFamilyStore) (record : RefreshFamilyRecord) : RefreshFamilyStore :=
  Function.update store record.familyId (some record)

/-- Move a family on to its next token, if the token presented is the current one.
Another token revokes the family. -/
def advanceTokenId (store : RefreshFamilyStore) (familyId presented : UInt64) :
    RefreshFamilyStore × Bool :=
  match store familyId with
  | none => (store, false)
  | some fam =>
    if fam.revoked then (store, false)
    else if fam.currentTokenId ≠ presented then
      (Function.update store familyId (some { fam with revoked := true }), false)
    else
      (Function.update store familyId
        (some { fam with currentTokenId := fam.currentTokenId + 1 }), true)

/-- The family is there and not revoked, but this is not its current token. -/
def Mismatch (store : RefreshFamilyStore) (familyId presented : UInt64) : Prop :=
  ∃ fam ∈ store familyId, fam.revoked = false ∧ fam.currentTokenId ≠ presented

instance (store : RefreshFamilyStore) (familyId presented : UInt64) :
    Decidable (store.Mismatch familyId presented) :=
  inferInstanceAs (Decidable (∃ fam ∈ store familyId, _))

end RefreshFamilyStore

/-! ## The handlers -/

/-- The packets that can be answered with a token pair. -/
inductive Grant
  | login
  | token
  | refresh
  deriving DecidableEq

/-- The tokens of a `LoginResult` that is valid. -/
structure TokenPair (Signature : Type) where
  accessToken : AccessToken Signature
  refreshToken : RefreshToken Signature
  deriving DecidableEq

/-- What the handlers share, with the history. -/
structure AuthManager (Signature : Type) where
  families : RefreshFamilyStore
  nextFamilyId : UInt64
  /-- The refresh payloads that were made, with the packets they were made for. -/
  issued : List (Grant × RefreshTokenPayload)
  /-- The refresh tokens that were sent to clients. -/
  granted : List (Grant × RefreshToken Signature)
  /-- The refresh tokens that clients have presented. -/
  presented : List (RefreshToken Signature)
  /-- The families and tokens for which `AdvanceTokenId` has returned true. -/
  accepted : List (UInt64 × UInt64)
  /-- The families for which a token did not match. -/
  reused : List UInt64

/-- The point a handler has come to. -/
inductive AuthCall (Signature : Type)
  /-- `HandleTokenPacket`, before the token is checked. -/
  | token (data : Option (AccessToken Signature))
  /-- `HandleRefreshPacket`, before the token is checked. -/
  | refresh (data : Option (RefreshToken Signature))
  /-- Before `AdvanceTokenId`. -/
  | advance (payload : RefreshTokenPayload)
  /-- Before `IssueTokenPair`. -/
  | issue (grant : Grant) (userId : AccountId)
  /-- `ProcessLogin`, before the family is inserted. -/
  | insert (tokens : TokenPair Signature)
  /-- Before `SendTokenGranted`. -/
  | send (grant : Grant) (tokens : TokenPair Signature)
  | done
  deriving DecidableEq

namespace AuthManager

variable {Signature : Type}

def new : AuthManager Signature := ⟨fun _ => none, 1, [], [], [], [], []⟩

/-- Make and sign a token pair.  The counter of family ids is the only thing it shares. -/
def issueTokenPair (c : Crypto Signature) (m : AuthManager Signature) (now : UInt64)
    (grant : Grant) (userId : AccountId) : AuthManager Signature × Option (TokenPair Signature) :=
  let access : AccessTokenPayload := ⟨userId, now, now + accessTokenLifetime, 0⟩
  match c.authAccess access with
  | none => (m, none)
  | some accessSignature =>
    let refresh : RefreshTokenPayload :=
      ⟨userId, m.nextFamilyId, 1, now + refreshTokenLifetime, 0⟩
    let m' : AuthManager Signature :=
      { m with nextFamilyId := m.nextFamilyId + 1, issued := m.issued ++ [(grant, refresh)] }
    (m', (c.authRefresh refresh).map fun refreshSignature =>
      ⟨⟨access, accessSignature⟩, ⟨refresh, refreshSignature⟩⟩)

/-- `AdvanceTokenId`, with the history. -/
def advance (m : AuthManager Signature) (payload : RefreshTokenPayload) :
    AuthManager Signature × Bool :=
  let r := m.families.advanceTokenId payload.familyId payload.tokenId
  ({ m with
    families := r.1
    accepted := if r.2 then m.accepted ++ [(payload.familyId, payload.tokenId)] else m.accepted
    reused := if m.families.Mismatch payload.familyId payload.tokenId
      then m.reused ++ [payload.familyId] else m.reused }, r.2)

def exec [DecidableEq Signature] (c : Crypto Signature) (m : AuthManager Signature) (now : UInt64) :
    AuthCall Signature → Option (AuthManager Signature × AuthCall Signature)
  | .token data =>
    match c.validateAccessToken now data with
    | none => some (m, .done)
    | some payload => some (m, .issue .token payload.userId)
  | .refresh data =>
    match c.validateRefreshToken now data with
    | none => some (m, .done)
    | some payload => some (m, .advance payload)
  | .advance payload =>
    match m.advance payload with
    | (m', true) => some (m', .issue .refresh payload.userId)
    | (m', false) => some (m', .done)
  | .issue grant userId =>
    match m.issueTokenPair c now grant userId with
    | (m', none) => some (m', .done)
    | (m', some tokens) =>
      some (m', if grant = .login then .insert tokens else .send grant tokens)
  | .insert tokens =>
    some ({ m with families := m.families.insert (.first tokens.refreshToken.payload) },
      .send .login tokens)
  | .send grant tokens =>
    some ({ m with granted := m.granted ++ [(grant, tokens.refreshToken)] }, .done)
  | .done => none

end AuthManager

abbrev Authenticator (Signature : Type) := Config (AuthManager Signature) (AuthCall Signature)

namespace Authenticator

variable {Signature : Type} [DecidableEq Signature]

def new : Authenticator Signature := ⟨.new, []⟩

inductive Action (Signature : Type)
  /-- The password of a user was verified in a `PKT_LOGIN`. -/
  | login (userId : AccountId)
  | token (data : Option (AccessToken Signature))
  | refresh (data : Option (RefreshToken Signature))
  /-- The `i`-th handler takes a step. -/
  | run (i : ℕ) (now : UInt64)

/-- A refresh token is presented. -/
def present (s : Authenticator Signature) (data : Option (RefreshToken Signature)) :
    Authenticator Signature :=
  Config.spawn
    { s with shared := { s.shared with presented := s.shared.presented ++ data.toList } }
    (.refresh data)

def step (c : Crypto Signature) (s : Authenticator Signature) :
    Action Signature → Option (Authenticator Signature)
  | .login userId => some (s.spawn (.issue .login userId))
  | .token data => some (s.spawn (.token data))
  | .refresh data => some (s.present data)
  | .run i now => s.run (AuthManager.exec c) i now

/-- A refresh token that carries a right signature was made by `IssueTokenPair`. -/
def Unforged (c : Crypto Signature) (s : Authenticator Signature) : Action Signature → Prop
  | .refresh (some token) => c.authRefresh token.payload = some token.signature →
      token.payload ∈ s.shared.issued.map Prod.snd
  | _ => True

instance (c : Crypto Signature) (s : Authenticator Signature) :
    (a : Action Signature) → Decidable (Unforged c s a)
  | .refresh (some _) => inferInstanceAs (Decidable (_ → _))
  | .refresh none | .login _ | .token _ | .run _ _ => .isTrue trivial

end Authenticator

end IocpChat

import IocpChat.Authentication.AuthManager

/-!
# Refresh tokens are used once

Family ids are drawn from a counter, so the payloads that `IssueTokenPair` makes belong
to different families as long as the counter does not come round.  Every one of them is
the first token of its family, and only `ProcessLogin` inserts a family.

So a family is inserted once, is moved on by its one token, and is revoked when that token
comes back.  A token granted for a `PKT_TOKEN` or a `PKT_REFRESH` belongs to a family that
was never inserted, and is refused.

## Main definitions

* `UsedOnce` — what holds of the families in every run.
* `AuthManager.Accepts` — presenting a token moves its family on.
-/

namespace IocpChat

open Transition

variable {Signature : Type}

/-! ## What a step of a handler does -/

namespace RefreshFamilyStore

/-- **What `AdvanceTokenId` does.** -/
theorem advanceTokenId_cases (store : RefreshFamilyStore) (familyId presented : UInt64) :
    (store familyId = none ∧ store.advanceTokenId familyId presented = (store, false)) ∨
    (∃ fam, store familyId = some fam ∧ fam.revoked = true ∧
      store.advanceTokenId familyId presented = (store, false)) ∨
    (∃ fam, store familyId = some fam ∧ fam.revoked = false ∧ fam.currentTokenId ≠ presented ∧
      store.advanceTokenId familyId presented =
        (Function.update store familyId (some { fam with revoked := true }), false)) ∨
    (∃ fam, store familyId = some fam ∧ fam.revoked = false ∧ fam.currentTokenId = presented ∧
      store.advanceTokenId familyId presented =
        (Function.update store familyId
          (some { fam with currentTokenId := fam.currentTokenId + 1 }), true)) := by
  cases hfam : store familyId with
  | none => exact .inl ⟨rfl, by simp [advanceTokenId, hfam]⟩
  | some fam =>
    cases hrevoked : fam.revoked with
    | true => exact .inr (.inl ⟨fam, rfl, hrevoked, by simp [advanceTokenId, hfam, hrevoked]⟩)
    | false =>
      by_cases hcur : fam.currentTokenId = presented
      · refine .inr (.inr (.inr ⟨fam, rfl, hrevoked, hcur, ?_⟩))
        simp [advanceTokenId, hfam, hrevoked, hcur]
      · refine .inr (.inr (.inl ⟨fam, rfl, hrevoked, hcur, ?_⟩))
        simp [advanceTokenId, hfam, hrevoked, hcur]

theorem exists_update {store : RefreshFamilyStore} {f k : UInt64} {fam fam' : RefreshFamilyRecord}
    {P : RefreshFamilyRecord → Prop} (hfam : store k = some fam) (hP : P fam → P fam')
    (h : ∃ r, store f = some r ∧ P r) :
    ∃ r, Function.update store k (some fam') f = some r ∧ P r := by
  obtain ⟨r, hr, hPr⟩ := h
  by_cases hf : f = k
  · subst hf
    cases hfam.symm.trans hr
    exact ⟨fam', Function.update_self .., hP hPr⟩
  · exact ⟨r, (Function.update_of_ne hf ..).trans hr, hPr⟩

end RefreshFamilyStore

/-- **What a refresh does to the families and to the history.**  Nothing, if its family is
not there or revoked; another token than the current one revokes it. -/
theorem AuthManager.advance_cases (m : AuthManager Signature) (p : RefreshTokenPayload) :
    m.advance p = (m, false) ∨
    (∃ fam, m.families p.familyId = some fam ∧ m.advance p =
      ({ m with
        families := Function.update m.families p.familyId (some { fam with revoked := true })
        reused := m.reused ++ [p.familyId] }, false)) ∨
    (∃ fam, m.families p.familyId = some fam ∧ fam.currentTokenId = p.tokenId ∧ m.advance p =
      ({ m with
        families := Function.update m.families p.familyId
          (some { fam with currentTokenId := fam.currentTokenId + 1 })
        accepted := m.accepted ++ [(p.familyId, p.tokenId)] }, true)) := by
  rcases RefreshFamilyStore.advanceTokenId_cases m.families p.familyId p.tokenId with
    ⟨hfam, h⟩ | ⟨fam, hfam, hrevoked, h⟩ | ⟨fam, hfam, hrevoked, hcur, h⟩ |
    ⟨fam, hfam, hrevoked, hcur, h⟩
  · exact .inl (by simp [advance, h, RefreshFamilyStore.Mismatch, hfam])
  · exact .inl (by simp [advance, h, RefreshFamilyStore.Mismatch, hfam, hrevoked])
  · refine .inr (.inl ⟨fam, hfam, ?_⟩)
    simp [advance, h, RefreshFamilyStore.Mismatch, hfam, hrevoked, hcur]
  · refine .inr (.inr ⟨fam, hfam, hcur, ?_⟩)
    simp [advance, h, RefreshFamilyStore.Mismatch, hfam, hrevoked, hcur]

theorem AuthManager.exec_issued_le [DecidableEq Signature] {c : Crypto Signature}
    {m m' : AuthManager Signature} {now : UInt64} {call call' : AuthCall Signature}
    (h : m.exec c now call = some (m', call')) : m.issued.length ≤ m'.issued.length := by
  cases call with
  | token | refresh =>
    simp only [exec] at h
    split at h <;> cases h <;> exact Nat.le_refl _
  | advance payload =>
    have hissued : (m.advance payload).1.issued = m.issued := rfl
    simp only [exec] at h
    split at h <;> cases h <;> simp_all
  | issue grant userId =>
    have hissued : m.issued.length ≤ (m.issueTokenPair c now grant userId).1.issued.length := by
      simp only [issueTokenPair]
      split <;> simp
    simp only [exec] at h
    split at h <;> cases h <;> simp_all
  | insert | send =>
    cases h
    exact Nat.le_refl _
  | done => cases h

/-! ## The invariant -/

/-- The token was made for such a packet, and carries its signature. -/
def AuthManager.Signed (c : Crypto Signature) (m : AuthManager Signature) (grant : Grant)
    (token : RefreshToken Signature) : Prop :=
  (grant, token.payload) ∈ m.issued ∧ c.authRefresh token.payload = some token.signature

/-- The family of the token is there, and until the token is presented it is as it was
inserted. -/
def AuthManager.Usable (m : AuthManager Signature) (token : RefreshToken Signature) : Prop :=
  ∃ fam, m.families token.payload.familyId = some fam ∧
    (token ∈ m.presented ∨ fam.currentTokenId = 1 ∧ fam.revoked = false)

/-- What a handler knows at each point. -/
def AuthCall.Knows (c : Crypto Signature) (m : AuthManager Signature) : AuthCall Signature → Prop
  | .refresh (some t) => t ∈ m.presented ∧
      (c.authRefresh t.payload = some t.signature → ∃ g, (g, t.payload) ∈ m.issued)
  | .advance payload => ∃ signature g, ⟨payload, signature⟩ ∈ m.presented ∧
      m.Signed c g ⟨payload, signature⟩
  | .insert tokens => m.Signed c .login tokens.refreshToken ∧
      m.families tokens.refreshToken.payload.familyId = none
  | .send grant tokens => m.Signed c grant tokens.refreshToken ∧
      (grant = .login → m.Usable tokens.refreshToken)
  | _ => True

/-- The family a handler is about to insert. -/
def AuthCall.inserting : AuthCall Signature → Option UInt64
  | .insert tokens => some tokens.refreshToken.payload.familyId
  | _ => none

/-- **The invariant of the families.** -/
structure Tracked (c : Crypto Signature) (m : AuthManager Signature)
    (calls : List (AuthCall Signature)) : Prop where
  next_eq : m.nextFamilyId = UInt64.ofNat (m.issued.length + 1)
  numbered : ∀ i g p, m.issued[i]? = some (g, p) →
    p.familyId = UInt64.ofNat (i + 1) ∧ p.tokenId = 1 ∧ p.keyId = 0
  stored : ∀ f fam, m.families f = some fam → ∃ p, (Grant.login, p) ∈ m.issued ∧ p.familyId = f
  once : m.accepted.Nodup
  accepted : ∀ f t, (f, t) ∈ m.accepted →
    t = 1 ∧ ∃ fam, m.families f = some fam ∧ fam.currentTokenId ≠ 1
  reused : ∀ f ∈ m.reused, ∃ fam, m.families f = some fam ∧ fam.revoked = true
  granted : ∀ g token, (g, token) ∈ m.granted →
    m.Signed c g token ∧ (g = .login → m.Usable token)
  knows : ∀ call ∈ calls, call.Knows c m
  distinct : (calls.filterMap AuthCall.inserting).Nodup

/-- What every step keeps: nothing that was made or presented is forgotten, and no token
gets out of use without being presented. -/
structure AuthManager.Keeps (c : Crypto Signature) (m m' : AuthManager Signature) : Prop where
  issued : ∀ x ∈ m.issued, x ∈ m'.issued
  presented : ∀ x ∈ m.presented, x ∈ m'.presented
  usable : ∀ token, m.Signed c .login token → m.Usable token → m'.Usable token

section Keeps

variable {c : Crypto Signature} {m m' : AuthManager Signature} {call : AuthCall Signature}

theorem AuthManager.Signed.mono {g : Grant} {token : RefreshToken Signature} (h : m.Signed c g token)
    (hkeeps : m.Keeps c m') : m'.Signed c g token :=
  ⟨hkeeps.issued _ h.1, h.2⟩

/-- A handler keeps what it knows, unless its family is inserted by another one. -/
theorem AuthCall.Knows.mono (h : call.Knows c m) (hkeeps : m.Keeps c m')
    (hnone : ∀ f, call.inserting = some f → m.families f = none → m'.families f = none) :
    call.Knows c m' := by
  cases call with
  | refresh data =>
    cases data with
    | none => trivial
    | some token =>
      refine ⟨hkeeps.presented _ h.1, ?_⟩
      intro hsigned
      exact (h.2 hsigned).imp fun g => hkeeps.issued _
  | advance payload =>
    obtain ⟨signature, g, hpresented, hsigned⟩ := h
    exact ⟨signature, g, hkeeps.presented _ hpresented, hsigned.mono hkeeps⟩
  | insert tokens => exact ⟨h.1.mono hkeeps, hnone _ rfl h.2⟩
  | send grant tokens =>
    refine ⟨h.1.mono hkeeps, ?_⟩
    rintro rfl
    exact hkeeps.usable _ h.1 (h.2 rfl)
  | token | issue | done => trivial

end Keeps

namespace Tracked

variable {c : Crypto Signature} {m : AuthManager Signature} {calls calls' others : List (AuthCall Signature)}
  {call call' : AuthCall Signature} {p p' : RefreshTokenPayload} {g g' : Grant}

theorem new (c : Crypto Signature) : Tracked c .new [] := by
  constructor <;> simp [AuthManager.new]

theorem perm (h : Tracked c m calls) (hperm : calls.Perm calls') : Tracked c m calls' :=
  { h with
    knows := fun call hcall => h.knows call (hperm.mem_iff.mpr hcall)
    distinct := (hperm.filterMap _).nodup_iff.mp h.distinct }

theorem unique (h : Tracked c m calls) (hlen : m.issued.length < UInt64.size)
    (hp : (g, p) ∈ m.issued) (hp' : (g', p') ∈ m.issued) (hfamily : p.familyId = p'.familyId) :
    g = g' ∧ p = p' := by
  obtain ⟨i, hi⟩ := List.mem_iff_getElem?.mp hp
  obtain ⟨j, hj⟩ := List.mem_iff_getElem?.mp hp'
  have hi' := (List.getElem?_eq_some_iff.mp hi).1
  have hj' := (List.getElem?_eq_some_iff.mp hj).1
  rw [(h.numbered i g p hi).1, (h.numbered j g' p' hj).1] at hfamily
  have hij := congrArg UInt64.toNat hfamily
  rw [UInt64.toNat_ofNat_of_lt' (by omega), UInt64.toNat_ofNat_of_lt' (by omega)] at hij
  cases Nat.succ.inj hij
  rw [hi] at hj
  cases hj
  exact ⟨rfl, rfl⟩

theorem tokenId_keyId (h : Tracked c m calls) (hp : (g, p) ∈ m.issued) :
    p.tokenId = 1 ∧ p.keyId = 0 := by
  obtain ⟨i, hi⟩ := List.mem_iff_getElem?.mp hp
  exact (h.numbered i g p hi).2

/-! ### The steps -/

theorem move (h : Tracked c m (call :: others)) (hknows : call'.Knows c m)
    (hinserting : call'.inserting = none) : Tracked c m (call' :: others) := by
  constructor
  · exact h.next_eq
  · exact h.numbered
  · exact h.stored
  · exact h.once
  · exact h.accepted
  · exact h.reused
  · exact h.granted
  · exact List.forall_mem_cons.mpr ⟨hknows, (List.forall_mem_cons.mp h.knows).2⟩
  · rw [List.filterMap_cons_none hinserting]
    exact h.distinct.sublist ((List.sublist_cons_self call others).filterMap _)

theorem spawn (h : Tracked c m calls) (hknows : call.Knows c m) (hinserting : call.inserting = none) :
    Tracked c m (calls ++ [call]) := by
  have hdone : Tracked c m (.done :: calls) :=
    { h with knows := List.forall_mem_cons.mpr ⟨trivial, h.knows⟩ }
  exact (hdone.move hknows hinserting).perm (List.perm_append_singleton _ _).symm

theorem granted_mono {m' : AuthManager Signature} (h : Tracked c m calls) (hkeeps : m.Keeps c m')
    {token : RefreshToken Signature} (hmem : (g, token) ∈ m.granted) :
    m'.Signed c g token ∧ (g = .login → m'.Usable token) := by
  have hg := h.granted g token hmem
  refine ⟨hg.1.mono hkeeps, ?_⟩
  rintro rfl
  exact hkeeps.usable _ hg.1 (hg.2 rfl)

theorem present (h : Tracked c m calls) (tokens : List (RefreshToken Signature)) :
    Tracked c { m with presented := m.presented ++ tokens } calls := by
  have hkeeps : m.Keeps c { m with presented := m.presented ++ tokens } := by
    constructor
    · exact fun _ => id
    · exact fun x hx => List.mem_append_left _ hx
    · intro t _ hu
      exact hu.imp fun fam hfam => ⟨hfam.1, hfam.2.imp_left (List.mem_append_left _)⟩
  constructor
  · exact h.next_eq
  · exact h.numbered
  · exact h.stored
  · exact h.once
  · exact h.accepted
  · exact h.reused
  · intro g token hmem
    exact h.granted_mono hkeeps hmem
  · intro call hcall
    exact (h.knows call hcall).mono hkeeps fun _ _ => id
  · exact h.distinct

/-- **The record of a family is changed by its token.**  The token was presented, so
nothing is lost that another token could still use. -/
theorem change {fam : RefreshFamilyRecord} (h : Tracked c m (.advance p :: others))
    (hlen : m.issued.length < UInt64.size) (fam' : RefreshFamilyRecord)
    (hfam : m.families p.familyId = some fam) {accepted : List (UInt64 × UInt64)}
    {reused : List UInt64} (honce : accepted.Nodup)
    (haccepted : ∀ f t, (f, t) ∈ accepted →
      t = 1 ∧ ∃ r, Function.update m.families p.familyId (some fam') f = some r ∧ r.currentTokenId ≠ 1)
    (hreused : ∀ f ∈ reused,
      ∃ r, Function.update m.families p.familyId (some fam') f = some r ∧ r.revoked = true)
    (hknows : ∀ m, call'.Knows c m) (hinserting : call'.inserting = none) :
    Tracked c { m with
      families := Function.update m.families p.familyId (some fam')
      accepted, reused } (call' :: others) := by
  obtain ⟨signature, g, hpresented, hsigned⟩ := h.knows _ List.mem_cons_self
  have hkeeps : m.Keeps c { m with
      families := Function.update m.families p.familyId (some fam')
      accepted, reused } := by
    constructor
    · exact fun _ => id
    · exact fun _ => id
    · rintro ⟨payload, sig⟩ htoken ⟨r, hr, huse⟩
      by_cases hfamily : payload.familyId = p.familyId
      · -- then it is the token that was presented
        have hpayload := (h.unique hlen htoken.1 hsigned.1 hfamily).2
        have hsig : some sig = some signature := by
          rw [← htoken.2, ← hsigned.2]
          exact congrArg c.authRefresh hpayload
        subst hpayload
        cases hsig
        exact ⟨fam', Function.update_self .., .inl hpresented⟩
      · exact ⟨r, (Function.update_of_ne hfamily ..).trans hr, huse⟩
  constructor
  · exact h.next_eq
  · exact h.numbered
  · intro f r hr
    by_cases hf : f = p.familyId
    · exact h.stored f fam (hf ▸ hfam)
    · exact h.stored f r ((Function.update_of_ne hf ..).symm.trans hr)
  · exact honce
  · exact haccepted
  · exact hreused
  · intro g token hmem
    exact h.granted_mono hkeeps hmem
  · refine List.forall_mem_cons.mpr ⟨hknows _, ?_⟩
    intro call hcall
    refine (h.knows call (List.mem_cons_of_mem _ hcall)).mono hkeeps ?_
    intro f _ hnone
    have hf : f ≠ p.familyId := by
      rintro rfl
      simp [hfam] at hnone
    exact (Function.update_of_ne hf ..).trans hnone
  · rw [List.filterMap_cons_none hinserting]
    exact h.distinct

theorem advance (h : Tracked c m (.advance p :: others)) (hlen : m.issued.length < UInt64.size)
    (hknows : ∀ m, call'.Knows c m) (hinserting : call'.inserting = none) :
    Tracked c (m.advance p).1 (call' :: others) := by
  have hone : p.tokenId = 1 := by
    obtain ⟨signature, g, -, hsigned⟩ := h.knows _ List.mem_cons_self
    exact (h.tokenId_keyId hsigned.1).1
  rcases m.advance_cases p with heq | ⟨fam, hfam, heq⟩ | ⟨fam, hfam, hcur, heq⟩
  · rw [heq]
    exact h.move (hknows m) hinserting
  · rw [heq]
    refine h.change hlen _ hfam h.once ?_ ?_ hknows hinserting
    · intro f t hmem
      exact (h.accepted f t hmem).imp_right (RefreshFamilyStore.exists_update hfam id)
    · intro f hmem
      rcases List.mem_append.mp hmem with hold | hnew
      · exact RefreshFamilyStore.exists_update hfam (fun _ => rfl) (h.reused f hold)
      · cases List.mem_singleton.mp hnew
        exact ⟨_, Function.update_self .., rfl⟩
  · rw [heq]
    -- no token of this family was accepted before, for the first is still the current one
    have hnew : ∀ t, (p.familyId, t) ∉ m.accepted := by
      intro t hmem
      obtain ⟨-, r, hr, hne⟩ := h.accepted p.familyId t hmem
      cases hfam.symm.trans hr
      exact hne (hcur.trans hone)
    have hnext : fam.currentTokenId + 1 ≠ 1 := by
      rw [hcur, hone]
      decide
    refine h.change hlen _ hfam ?_ ?_ ?_ hknows hinserting
    · rw [← List.concat_eq_append]
      exact h.once.concat (hnew p.tokenId)
    · intro f t hmem
      rcases List.mem_append.mp hmem with hold | hlast
      · exact (h.accepted f t hold).imp_right
          (RefreshFamilyStore.exists_update hfam fun _ => hnext)
      · cases List.mem_singleton.mp hlast
        exact ⟨hone, _, Function.update_self .., hnext⟩
    · intro f hmem
      exact RefreshFamilyStore.exists_update hfam id (h.reused f hmem)

theorem familyId_ne (h : Tracked c m calls) (hlen : m.issued.length + 1 < UInt64.size)
    (hp : (g, p) ∈ m.issued) : p.familyId ≠ m.nextFamilyId := by
  obtain ⟨i, hi⟩ := List.mem_iff_getElem?.mp hp
  have hlt := (List.getElem?_eq_some_iff.mp hi).1
  intro heq
  rw [(h.numbered i g p hi).1, h.next_eq] at heq
  have hij := congrArg UInt64.toNat heq
  rw [UInt64.toNat_ofNat_of_lt' (by omega), UInt64.toNat_ofNat_of_lt' hlen] at hij
  omega

/-- **A family id is drawn.** -/
theorem draw (h : Tracked c m (call :: others)) (g : Grant) (payload : RefreshTokenPayload)
    (hfamily : payload.familyId = m.nextFamilyId)
    (htoken : payload.tokenId = 1 ∧ payload.keyId = 0) :
    Tracked c { m with
      nextFamilyId := m.nextFamilyId + 1
      issued := m.issued ++ [(g, payload)] } (.done :: others) := by
  have hkeeps : m.Keeps c { m with
      nextFamilyId := m.nextFamilyId + 1
      issued := m.issued ++ [(g, payload)] } := by
    constructor
    · exact fun x hx => List.mem_append_left _ hx
    · exact fun _ => id
    · exact fun _ _ => id
  constructor
  · simp [h.next_eq, UInt64.ofNat_add]
  · intro i g' p' hi
    rcases Nat.lt_or_ge i m.issued.length with hlt | hge
    · rw [List.getElem?_append_left hlt] at hi
      exact h.numbered i g' p' hi
    · rw [List.getElem?_append_right hge, List.getElem?_singleton] at hi
      split at hi
      · have hi' : i = m.issued.length := by omega
        cases hi
        rw [hi', ← h.next_eq]
        exact ⟨hfamily, htoken⟩
      · cases hi
  · intro f fam hfam
    exact (h.stored f fam hfam).imp fun p hp => ⟨List.mem_append_left _ hp.1, hp.2⟩
  · exact h.once
  · exact h.accepted
  · exact h.reused
  · intro g token hmem
    exact h.granted_mono hkeeps hmem
  · refine List.forall_mem_cons.mpr ⟨trivial, ?_⟩
    intro call hcall
    exact (h.knows call (List.mem_cons_of_mem _ hcall)).mono hkeeps fun _ _ => id
  · have hdone : Tracked c m (.done :: others) := h.move trivial rfl
    exact hdone.distinct

/-- `ProcessLogin` goes on to insert the family of the token it was given. -/
theorem insertNext (h : Tracked c m (call :: others)) (hlen : m.issued.length + 1 < UInt64.size)
    (tokens : TokenPair Signature) (hfamily : tokens.refreshToken.payload.familyId = m.nextFamilyId)
    (htoken : tokens.refreshToken.payload.tokenId = 1 ∧ tokens.refreshToken.payload.keyId = 0)
    (hsigned : c.authRefresh tokens.refreshToken.payload = some tokens.refreshToken.signature) :
    Tracked c { m with
      nextFamilyId := m.nextFamilyId + 1
      issued := m.issued ++ [(.login, tokens.refreshToken.payload)] } (.insert tokens :: others) := by
  have hdraw := h.draw .login _ hfamily htoken
  refine { hdraw with knows := ?_, distinct := ?_ }
  · refine List.forall_mem_cons.mpr ⟨⟨⟨by simp, hsigned⟩, ?_⟩, (List.forall_mem_cons.mp hdraw.knows).2⟩
    -- a family that is stored belongs to an earlier payload
    change m.families tokens.refreshToken.payload.familyId = none
    cases hfam : m.families tokens.refreshToken.payload.familyId with
    | none => rfl
    | some fam =>
      obtain ⟨p, hp, hpf⟩ := h.stored _ _ hfam
      exact absurd (hpf.trans hfamily) (h.familyId_ne hlen hp)
  · refine List.nodup_cons.mpr ⟨?_, hdraw.distinct⟩
    intro hmem
    obtain ⟨call', hcall', hinserting⟩ := List.mem_filterMap.mp hmem
    have hknows := h.knows call' (List.mem_cons_of_mem _ hcall')
    cases call' with
    | insert other =>
      have hother : other.refreshToken.payload.familyId = tokens.refreshToken.payload.familyId :=
        Option.some.inj hinserting
      exact h.familyId_ne hlen hknows.1.1 (hother.trans hfamily)
    | _ => cases hinserting

/-- **`IssueTokenPair`**, with the point the handler goes on at. -/
theorem issue {userId : AccountId} {now : UInt64} {m' : AuthManager Signature} [DecidableEq Signature]
    (h : Tracked c m (.issue g userId :: others))
    (hexec : m.exec c now (.issue g userId) = some (m', call'))
    (hlen : m'.issued.length < UInt64.size) : Tracked c m' (call' :: others) := by
  let refresh : RefreshTokenPayload := ⟨userId, m.nextFamilyId, 1, now + refreshTokenLifetime, 0⟩
  cases haccess : c.authAccess ⟨userId, now, now + accessTokenLifetime, 0⟩ with
  | none =>
    simp only [AuthManager.exec, AuthManager.issueTokenPair, haccess] at hexec
    cases hexec
    exact h.move trivial rfl
  | some accessSignature =>
    cases hrefresh : c.authRefresh refresh with
    | none =>
      simp only [AuthManager.exec, AuthManager.issueTokenPair, haccess, refresh, hrefresh,
        Option.map_none] at hexec
      cases hexec
      exact h.draw g refresh rfl ⟨rfl, rfl⟩
    | some signature =>
      simp only [AuthManager.exec, AuthManager.issueTokenPair, haccess, refresh, hrefresh,
        Option.map_some] at hexec
      cases hexec
      have hlen' : m.issued.length + 1 < UInt64.size := by simpa using hlen
      by_cases hg : g = .login
      · subst hg
        exact h.insertNext hlen' ⟨⟨_, accessSignature⟩, ⟨refresh, signature⟩⟩ rfl ⟨rfl, rfl⟩ hrefresh
      · rw [if_neg hg]
        refine (h.draw g refresh rfl ⟨rfl, rfl⟩).move ?_ rfl
        exact ⟨⟨by simp [refresh], hrefresh⟩, fun hlogin => absurd hlogin hg⟩

/-- **A login inserts its family**, which was not there. -/
theorem insert {tokens : TokenPair Signature} (h : Tracked c m (.insert tokens :: others)) :
    Tracked c { m with families := m.families.insert (.first tokens.refreshToken.payload) }
      (.send .login tokens :: others) := by
  obtain ⟨hsigned, hnone⟩ := h.knows _ List.mem_cons_self
  have hdistinct := List.nodup_cons.mp h.distinct
  have hne : ∀ f, m.families f ≠ none → f ≠ tokens.refreshToken.payload.familyId := by
    rintro f hf rfl
    exact hf hnone
  have hstay : ∀ f fam, m.families f = some fam →
      m.families.insert (.first tokens.refreshToken.payload) f = some fam := by
    intro f fam hfam
    exact (Function.update_of_ne (hne f (by simp [hfam])) ..).trans hfam
  have hkeeps : m.Keeps c
      { m with families := m.families.insert (.first tokens.refreshToken.payload) } := by
    constructor
    · exact fun _ => id
    · exact fun _ => id
    · intro token _ hu
      exact hu.imp fun fam hfam => ⟨hstay _ _ hfam.1, hfam.2⟩
  constructor
  · exact h.next_eq
  · exact h.numbered
  · intro f fam hfam
    by_cases hf : f = tokens.refreshToken.payload.familyId
    · exact ⟨_, hsigned.1, hf.symm⟩
    · exact h.stored f fam ((Function.update_of_ne hf ..).symm.trans hfam)
  · exact h.once
  · intro f t hmem
    exact (h.accepted f t hmem).imp_right fun hex =>
      hex.imp fun fam hfam => ⟨hstay f fam hfam.1, hfam.2⟩
  · intro f hmem
    exact (h.reused f hmem).imp fun fam hfam => ⟨hstay f fam hfam.1, hfam.2⟩
  · intro g token hmem
    exact h.granted_mono hkeeps hmem
  · refine List.forall_mem_cons.mpr ⟨⟨hsigned, ?_⟩, ?_⟩
    · intro _
      exact ⟨_, Function.update_self .., .inr ⟨rfl, rfl⟩⟩
    · intro call hcall
      refine (h.knows call (List.mem_cons_of_mem _ hcall)).mono hkeeps ?_
      -- no other handler inserts this family
      intro f hf hfnone
      refine (Function.update_of_ne ?_ ..).trans hfnone
      rintro rfl
      exact hdistinct.1 (List.mem_filterMap.mpr ⟨call, hcall, hf⟩)
  · exact hdistinct.2

theorem send {tokens : TokenPair Signature} (h : Tracked c m (.send g tokens :: others)) :
    Tracked c { m with granted := m.granted ++ [(g, tokens.refreshToken)] } (.done :: others) := by
  have hdone : Tracked c m (.done :: others) := h.move trivial rfl
  have hkeeps : m.Keeps c { m with granted := m.granted ++ [(g, tokens.refreshToken)] } :=
    ⟨fun _ => id, fun _ => id, fun _ _ => id⟩
  constructor
  · exact h.next_eq
  · exact h.numbered
  · exact h.stored
  · exact h.once
  · exact h.accepted
  · exact h.reused
  · intro g' token hmem
    rcases List.mem_append.mp hmem with hold | hlast
    · exact h.granted g' token hold
    · cases List.mem_singleton.mp hlast
      exact h.knows _ List.mem_cons_self
  · intro call hcall
    exact (hdone.knows call hcall).mono hkeeps fun _ _ => id
  · exact hdone.distinct

variable [DecidableEq Signature]

theorem validateRefreshToken_eq_some {now : UInt64} {data : Option (RefreshToken Signature)}
    (h : c.validateRefreshToken now data = some p) :
    ∃ signature, data = some ⟨p, signature⟩ ∧ c.authRefresh p = some signature := by
  cases data with
  | none => cases h
  | some token =>
    simp only [Crypto.validateRefreshToken] at h
    split at h
    · rename_i hvalid
      cases h
      exact ⟨token.signature, rfl, of_decide_eq_true (tokenValid_iff.mp hvalid).1⟩
    · cases h

theorem exec {now : UInt64} {m' : AuthManager Signature} (h : Tracked c m (call :: others))
    (hexec : m.exec c now call = some (m', call')) (hlen : m'.issued.length < UInt64.size) :
    Tracked c m' (call' :: others) := by
  cases call with
  | token data =>
    simp only [AuthManager.exec] at hexec
    split at hexec <;> cases hexec <;> exact h.move trivial rfl
  | refresh data =>
    simp only [AuthManager.exec] at hexec
    split at hexec
    · cases hexec
      exact h.move trivial rfl
    · rename_i payload hvalid
      cases hexec
      obtain ⟨signature, rfl, hsigned⟩ := validateRefreshToken_eq_some hvalid
      obtain ⟨hpresented, hissued⟩ := h.knows _ List.mem_cons_self
      obtain ⟨g, hg⟩ := hissued hsigned
      exact h.move ⟨signature, g, hpresented, hg, hsigned⟩ rfl
  | advance payload =>
    have hlen' := Nat.lt_of_le_of_lt (AuthManager.exec_issued_le hexec) hlen
    simp only [AuthManager.exec] at hexec
    cases hadvance : m.advance payload with
    | mk m₁ taken =>
      have hnext : ∀ call', (∀ m, AuthCall.Knows c m call') → call'.inserting = none →
          Tracked c m₁ (call' :: others) := by
        intro call' hknows hinserting
        have hnext := h.advance hlen' hknows hinserting
        rwa [hadvance] at hnext
      rw [hadvance] at hexec
      cases taken <;> cases hexec
      · exact hnext _ (fun _ => trivial) rfl
      · exact hnext _ (fun _ => trivial) rfl
  | issue grant userId => exact h.issue hexec hlen
  | insert tokens =>
    cases hexec
    exact h.insert
  | send grant tokens =>
    cases hexec
    exact h.send
  | done => cases hexec

end Tracked

/-! ## Runs -/

namespace Authenticator

variable [DecidableEq Signature] {c : Crypto Signature} {s s' : Authenticator Signature}

/-- **Every step keeps the invariant**, as long as the counter does not come round. -/
theorem tracked_step {a : Action Signature} (h : Tracked c s.shared s.calls) (hok : Unforged c s a)
    (hstep : s.step c a = some s') (hlen : s'.shared.issued.length < UInt64.size) :
    Tracked c s'.shared s'.calls := by
  cases a with
  | login | token =>
    cases hstep
    exact h.spawn trivial rfl
  | refresh data =>
    cases hstep
    refine (h.present data.toList).spawn ?_ rfl
    cases data with
    | none => trivial
    | some token =>
      refine ⟨by simp, ?_⟩
      intro hsigned
      simpa using hok hsigned
  | run i now =>
    obtain ⟨pc, pc', -, hperm, hperm', hexec⟩ := Config.run_spec hstep
    exact ((h.perm hperm).exec hexec hlen).perm hperm'.symm

theorem issued_le {a : Action Signature} (hstep : s.step c a = some s') :
    s.shared.issued.length ≤ s'.shared.issued.length := by
  cases a with
  | run i now =>
    obtain ⟨pc, pc', -, -, -, hexec⟩ := Config.run_spec hstep
    exact AuthManager.exec_issued_le hexec
  | _ =>
    cases hstep
    exact Nat.le_refl _

theorem tracked_of_reaches (h : Reaches (step c) (Unforged c) new s)
    (hlen : s.shared.issued.length < UInt64.size) : Tracked c s.shared s.calls := by
  revert hlen
  apply h.invariant
  · intro _
    exact .new c
  · intro s a s' _ hs hok hstep hlen
    exact tracked_step (hs (Nat.lt_of_le_of_lt (issued_le hstep) hlen)) hok hstep hlen

/-! ## Each token is accepted once -/

/-- The refresh tokens are used once. -/
structure UsedOnce (s : Authenticator Signature) : Prop where
  /-- `AdvanceTokenId` returns true at most once for a family and a token. -/
  once : s.shared.accepted.Nodup
  /-- After a token did not match, it returns false for every token of the family. -/
  killed : ∀ f ∈ s.shared.reused, ∀ t, (s.shared.families.advanceTokenId f t).2 = false
  /-- A login that is about to insert its family does not find one there. -/
  fresh : ∀ tokens, AuthCall.insert tokens ∈ s.calls →
    s.shared.families tokens.refreshToken.payload.familyId = none

/-- **Refresh tokens are used once**, whatever the handlers interleave. -/
theorem usedOnce_of_reaches (c : Crypto Signature) (s : Authenticator Signature)
    (h : Reaches (step c) (Unforged c) new s) (hlen : s.shared.issued.length < UInt64.size) :
    s.UsedOnce := by
  have htracked := tracked_of_reaches h hlen
  constructor
  · exact htracked.once
  · intro f hf t
    obtain ⟨fam, hfam, hrevoked⟩ := htracked.reused f hf
    simp [RefreshFamilyStore.advanceTokenId, hfam, hrevoked]
  · intro tokens hmem
    exact (htracked.knows _ hmem).2

/-! ## Which tokens are accepted -/

/-- **The token is accepted.**  A client presents it, and its handler moves the family
on. -/
def Accepts (c : Crypto Signature) (s : Authenticator Signature) (now : UInt64)
    (token : RefreshToken Signature) : Prop :=
  ∃ s' ∈ Transition.run (step c) s
      [.refresh (some token), .run s.calls.length now, .run s.calls.length now],
    s'.shared.accepted = s.shared.accepted ++ [(token.payload.familyId, token.payload.tokenId)]

instance (c : Crypto Signature) (s : Authenticator Signature) (now : UInt64)
    (token : RefreshToken Signature) : Decidable (s.Accepts c now token) :=
  inferInstanceAs (Decidable (∃ s' ∈ Transition.run (step c) s _, _))

/-- A valid token is accepted iff `AdvanceTokenId` returns true for it. -/
theorem accepts_iff {now : UInt64} {token : RefreshToken Signature}
    (hvalid : c.validateRefreshToken now (some token) = some token.payload) :
    s.Accepts c now token ↔
      (s.shared.families.advanceTokenId token.payload.familyId token.payload.tokenId).2 = true := by
  let m : AuthManager Signature := { s.shared with presented := s.shared.presented ++ [token] }
  have hcheck : m.exec c now (.refresh (some token)) = some (m, .advance token.payload) := by
    simp only [AuthManager.exec, hvalid]
  obtain ⟨call, hadvance⟩ : ∃ call, m.exec c now (.advance token.payload) =
      some ((m.advance token.payload).1, call) := by
    simp only [AuthManager.exec]
    split
    · rename_i heq
      exact ⟨_, by rw [heq]⟩
    · rename_i heq
      exact ⟨_, by rw [heq]⟩
  have hrun : Transition.run (step c) s
      [.refresh (some token), .run s.calls.length now, .run s.calls.length now] =
        some ⟨(m.advance token.payload).1, s.calls ++ [call]⟩ := by
    have hfirst : step c s (.refresh (some token)) = some ⟨m, s.calls ++ [.refresh (some token)]⟩ :=
      rfl
    rw [run_cons hfirst]
    have hsecond : step c ⟨m, s.calls ++ [.refresh (some token)]⟩ (.run s.calls.length now) =
        some ⟨m, s.calls ++ [.advance token.payload]⟩ := Config.run_last s.calls hcheck
    rw [run_cons hsecond]
    have hthird : step c ⟨m, s.calls ++ [.advance token.payload]⟩ (.run s.calls.length now) =
        some ⟨(m.advance token.payload).1, s.calls ++ [call]⟩ := Config.run_last s.calls hadvance
    rw [run_cons hthird]
    rfl
  simp [Accepts, hrun, exists_eq_left']
  change (if (s.shared.families.advanceTokenId token.payload.familyId token.payload.tokenId).2 = true
    then s.shared.accepted ++ [(token.payload.familyId, token.payload.tokenId)]
    else s.shared.accepted) = _ ↔ _
  split <;> simp_all

/-- **A refresh token that was not presented is accepted iff a login granted it**, as long
as it has not expired.  No such token can have a family that is revoked. -/
theorem accepts_iff_login (c : Crypto Signature) (s : Authenticator Signature)
    (h : Reaches (step c) (Unforged c) new s) (hlen : s.shared.issued.length < UInt64.size)
    (g : Grant) (token : RefreshToken Signature) (hgranted : (g, token) ∈ s.shared.granted)
    (hpresented : token ∉ s.shared.presented) (now : UInt64) (hnow : now < token.payload.expiry) :
    s.Accepts c now token ↔ g = .login := by
  have htracked := tracked_of_reaches h hlen
  obtain ⟨hsigned, husable⟩ := htracked.granted g token hgranted
  obtain ⟨hone, hkey⟩ := htracked.tokenId_keyId hsigned.1
  have hvalid : c.validateRefreshToken now (some token) = some token.payload := by
    have hok : tokenValid (c.authRefresh token.payload = some token.signature) now
        token.payload.expiry token.payload.keyId = true :=
      tokenValid_iff.mpr ⟨decide_eq_true hsigned.2, hnow, hkey⟩
    rw [Crypto.validateRefreshToken, if_pos hok]
  rw [accepts_iff hvalid]
  constructor
  · -- a family that is stored was inserted by a login
    intro haccepted
    cases hfam : s.shared.families token.payload.familyId with
    | none => simp [RefreshFamilyStore.advanceTokenId, hfam] at haccepted
    | some fam =>
      obtain ⟨p, hp, hpf⟩ := htracked.stored _ _ hfam
      exact (htracked.unique hlen hsigned.1 hp hpf.symm).1
  · intro hlogin
    obtain ⟨fam, hfam, hold | ⟨hcur, hfree⟩⟩ := husable hlogin
    · exact absurd hold hpresented
    · simp [RefreshFamilyStore.advanceTokenId, hfam, hfree, hcur, hone]

/-! ## Runs without signatures -/

/-- Signatures without content, for runs in which no client makes up a token. -/
def unsigned : Crypto Unit := ⟨fun _ => some (), fun _ => some ()⟩

/-- The token that the `n`-th family begins with, for a user who came at the time 0. -/
def firstToken (n : UInt64) : RefreshToken Unit :=
  ⟨⟨.replicate 16 7, n, 1, refreshTokenLifetime, 0⟩, ()⟩

/-- A user logs in and refreshes. -/
def refreshed : List (Action Unit) :=
  [.login (.replicate 16 7), .run 0 0, .run 0 0, .run 0 0, .refresh (some (firstToken 1)),
    .run 1 0, .run 1 0, .run 1 0, .run 1 0]

/-- The user logs in, refreshes, and presents the first token again. -/
theorem usedOnce_of_reaches_replay :
    ∃ s, Reaches (step unsigned) (Unforged unsigned) new s ∧ s.shared.accepted = [(1, 1)] ∧
      s.shared.reused = [1] ∧ s.UsedOnce := by
  obtain ⟨s, hrun, haccepted, hreused, hlen⟩ := exists_run (step unsigned) new
    (refreshed ++ [.refresh (some (firstToken 1)), .run 2 0, .run 2 0])
    (fun s => s.shared.accepted = [(1, 1)] ∧ s.shared.reused = [1] ∧
      s.shared.issued.length < UInt64.size) (by decide +kernel)
  have hreach : Reaches (step unsigned) (Unforged unsigned) new s :=
    reaches_of_run (by decide +kernel) hrun
  exact ⟨s, hreach, haccepted, hreused, usedOnce_of_reaches unsigned s hreach hlen⟩

/-- The token that a login granted is accepted. -/
theorem accepts_iff_login_first :
    ∃ s, Reaches (step unsigned) (Unforged unsigned) new s ∧
      (.login, firstToken 1) ∈ s.shared.granted ∧ s.Accepts unsigned 0 (firstToken 1) := by
  obtain ⟨s, hrun, hgranted, hpresented, hlen⟩ := exists_run (step unsigned) new
    (refreshed.take 4)
    (fun s => (.login, firstToken 1) ∈ s.shared.granted ∧ firstToken 1 ∉ s.shared.presented ∧
      s.shared.issued.length < UInt64.size) (by decide +kernel)
  have hreach : Reaches (step unsigned) (Unforged unsigned) new s :=
    reaches_of_run (by decide +kernel) hrun
  have hiff := accepts_iff_login unsigned s hreach hlen .login (firstToken 1) hgranted hpresented 0
    (by decide)
  exact ⟨s, hreach, hgranted, hiff.mpr rfl⟩

/-- **The token that a refresh granted is refused**, although it was never presented, has
not expired, and its family is not revoked. -/
theorem refused_after_refresh :
    ∃ s, Reaches (step unsigned) (Unforged unsigned) new s ∧
      (.refresh, firstToken 2) ∈ s.shared.granted ∧ firstToken 2 ∉ s.shared.presented ∧
      0 < (firstToken 2).payload.expiry ∧
      (∀ fam ∈ s.shared.families (firstToken 2).payload.familyId, fam.revoked = false) ∧
      ¬ s.Accepts unsigned 0 (firstToken 2) := by
  obtain ⟨s, hrun, hs⟩ := exists_run (step unsigned) new refreshed
    (fun s => (.refresh, firstToken 2) ∈ s.shared.granted ∧ firstToken 2 ∉ s.shared.presented ∧
      0 < (firstToken 2).payload.expiry ∧
      (∀ fam ∈ s.shared.families (firstToken 2).payload.familyId, fam.revoked = false) ∧
      ¬ s.Accepts unsigned 0 (firstToken 2)) (by decide +kernel)
  exact ⟨s, reaches_of_run (by decide +kernel) hrun, hs⟩

end Authenticator

end IocpChat

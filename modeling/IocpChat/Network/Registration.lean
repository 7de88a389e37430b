import IocpChat.Network.SessionUse

/-!
# The registration of users

When an authentication packet has succeeded, its session is to be registered under the id of
its user.  `handlePacket` calls `updateNewId` only if the session's `updated` is not set.
Neither a login as another user nor `returnSession` unsets it, so a session is registered
under its user's id as long as `updated` is set only where it has that id already.

## Main definitions

* `SessionManager.Registered` — a session is registered under the id of its user.
* `Workers.Loyal` — a session that is registered under the id of a user is not authenticated
  for another one.
* `registered_of_loyal` — what has been processed is registered.
-/

namespace IocpChat

open Transition SessionManager

/-- The session is registered under the id of its user and nothing else is, and the id it had
before is not in use any more. -/
structure SessionManager.Registered (m : SessionManager) (s : SessionPtr) (former : UserId) : Prop where
  hex : (m.pool s).userId = toHex (m.pool s).cachedUserId
  session : m.sessions (m.pool s).userId = some (some s)
  socket : m.socketToUserId (m.pool s).socket = some (m.pool s).userId
  former : former ≠ (m.pool s).userId → m.sessions former = none
  only : ∀ k, m.socketToUserId k = some (m.pool s).userId → k = (m.pool s).socket

/-- The session is new to `updateNewId`, or it is authenticated for the user it has already. -/
def Thread.Loyal (c : Connections) (e : Choice) : Thread → Prop
  | .batch _ _ (.authenticate s _ _ _) => ∀ userId ∈ e.outcome.user,
      (c.sessionManager.pool s).updated = false ∨ (c.sessionManager.pool s).userId = toHex userId
  | _ => True

instance (c : Connections) (e : Choice) : ∀ t : Thread, Decidable (t.Loyal c e)
  | .batch _ _ (.authenticate ..) => Option.decidableForallMem _
  | .batch _ _ (.lookup _) | .batch _ _ (.borrow _) | .batch _ _ (.register ..)
  | .batch _ _ (.dispatch ..) | .batch _ _ (.granted ..) | .batch _ _ (.update ..)
  | .batch _ _ (.logout ..) | .batch _ _ .finish => .isTrue trivial
  | .mark _ | .find _ | .remove .. | .close _ | .done => .isTrue trivial

def Workers.Loyal (w : Workers) : Workers.Action → Prop
  | .run i e => ∀ t ∈ w.calls[i]?, t.Loyal w.shared e
  | _ => True

instance (w : Workers) : ∀ a, Decidable (w.Loyal a)
  | .run _ _ => Option.decidableForallMem _
  | .accept .. | .receive .. | .sendFailed _ | .receiveFailed _ => .isTrue trivial

/-! ## The invariant -/

/-- After a login for a session that `updateNewId` has seen, the session has the id it had. -/
def Thread.Keeps (m : SessionManager) : Thread → Prop
  | .batch _ _ (.granted s id _) => (m.pool s).updated = true → id = (m.pool s).userId
  | _ => True

/-- A session that `updateNewId` has seen is registered under its id. -/
structure Named (c : Connections) (threads : List Thread) : Prop where
  userId : ∀ {k id s}, c.sessionManager.Bound k id s → (c.sessionManager.pool s).updated = true →
    (c.sessionManager.pool s).userId = id
  keeps : ∀ t ∈ threads, t.Keeps c.sessionManager
  processed : ∀ {s former}, c.processed = some (s, former) →
    c.sessionManager.Registered s former

section Named

variable {c c' : Connections} {t t' : Thread} {others threads : List Thread} {k : Socket}
  {id : UserId} {s : SessionPtr}

theorem Thread.Keeps.mono {u : Thread} (h : u.Keeps c.sessionManager) (hs : u.Spared c c') :
    u.Keeps c'.sessionManager := by
  cases u with
  | batch conn k point =>
    cases point with
    | granted s id packets =>
      have hpool := (hs.held s rfl).1
      simp only [Thread.Keeps, hpool]
      exact h
    | lookup | borrow | register | dispatch | authenticate | update | logout | finish => trivial
  | mark | find | remove | close | done => trivial

theorem Named.move (h : Named c (t :: others)) (hadv : Advances c c' t' others)
    (hbound : ∀ k id s, c'.sessionManager.Bound k id s →
      (c'.sessionManager.pool s).updated = true → (c'.sessionManager.pool s).userId = id)
    (hkeeps : t'.Keeps c'.sessionManager)
    (hprocessed : ∀ s former, c'.processed = some (s, former) →
      c'.sessionManager.Registered s former) :
    Named c' (t' :: others) := by
  refine ⟨fun hb => hbound _ _ _ hb, List.forall_mem_cons.mpr ⟨hkeeps, ?_⟩, fun hp => hprocessed _ _ hp⟩
  intro u hu
  exact (h.keeps u (List.mem_cons_of_mem t hu)).mono (hadv.spared u hu)

theorem Named.perm (h : Named c threads) {threads' : List Thread} (hperm : threads.Perm threads') :
    Named c threads' :=
  { h with keeps := fun t ht => h.keeps t (hperm.mem_iff.mpr ht) }

theorem registered_of_bound {m : SessionManager} (hcons : m.Consistent)
    (hb : m.Bound k (m.pool s).userId s) (hhex : (m.pool s).userId = toHex (m.pool s).cachedUserId)
    {former : UserId} (hformer : former ≠ (m.pool s).userId → ∀ k' s', ¬ m.Bound k' former s') :
    m.Registered s former := by
  refine ⟨hhex, hb.2.1, ?_, ?_, ?_⟩
  · rw [hb.2.2]
    exact hb.1
  · intro hne
    exact hcons.sessions_eq_none (hformer hne)
  · intro k' hk'
    obtain ⟨s', hb'⟩ := hcons.socket hk'
    rw [hb.2.2]
    exact (hb'.eq_of_id hb).1

theorem Named.userId_of_eq (h : Named c threads) (hb : c.sessionManager.Bound k id s)
    (hpool : c'.sessionManager.pool s = c.sessionManager.pool s)
    (hupdated : (c'.sessionManager.pool s).updated = true) :
    (c'.sessionManager.pool s).userId = id := by
  rw [hpool] at hupdated ⊢
  exact h.userId hb hupdated

theorem Named.move_of_eq (h : Named c (t :: others)) (hadv : Advances c c' t' others)
    (hm : c'.sessionManager = c.sessionManager) (hkeeps : t'.Keeps c'.sessionManager) (hp : c'.processed = none) :
    Named c' (t' :: others) := by
  refine h.move hadv ?_ hkeeps ?_
  · intro k id s hb
    rw [hm] at hb
    exact h.userId_of_eq hb (by rw [hm])
  · intro s former hp'
    rw [hp] at hp'
    cases hp'

theorem Named.unbind (h : Named c (t :: others)) (hcons : c.sessionManager.Consistent)
    (hadv : Advances c c' t' others) (hm : c'.sessionManager = c.sessionManager.unbind id)
    (hkeeps : t'.Keeps c'.sessionManager) (hp : c'.processed = none) : Named c' (t' :: others) := by
  refine h.move hadv ?_ hkeeps ?_
  · intro k id' s hb
    rw [hm] at hb
    obtain ⟨hne, hb⟩ := hcons.bound_unbind.mp hb
    refine h.userId_of_eq hb ?_
    rw [hm]
    apply pool_unbind
    intro hentry
    exact hne (hb.eq_of_session (hcons.bound hentry)).2
  · intro s former hp'
    rw [hp] at hp'
    cases hp'

/-! ## The threads -/

section Exec

variable {e : Choice} {conn : ℕ} {packets : Packets}

theorem Named.borrow (h : Named c (.batch conn k (.borrow packets) :: others))
    (hcons : c.sessionManager.Consistent) (hadv : Advances c c' t' others)
    (hexec : c.exec e (.batch conn k (.borrow packets)) = some (c', t')) :
    Named c' (t' :: others) := by
  simp only [Connections.exec, Connections.handle] at hexec
  cases hborrow : c.sessionManager.borrowSession k with
  | none =>
    rw [hborrow] at hexec
    cases hexec
    exact h.move_of_eq hadv rfl trivial rfl
  | some r =>
    obtain ⟨m, s⟩ := r
    obtain ⟨hfree, hm⟩ := borrowSession_eq hborrow
    have hmem : s ∈ c.sessionManager.freeIndices := hfree ▸ List.mem_cons_self
    rw [hborrow] at hexec
    cases hexec
    refine h.move hadv ?_ trivial fun _ _ hp => by cases hp
    rw [hm, modifySession_lend]
    intro k' id' s' hb
    have hb := (hcons.bound_lend hmem).mp hb
    have hne : s' ≠ s := by
      rintro rfl
      exact hcons.free s' hmem id' hb.2.1
    exact h.userId_of_eq hb (pool_modifySession_of_ne hne)

theorem Named.register (h : Named c (.batch conn k (.register s packets) :: others))
    (howned : Owned c (.batch conn k (.register s packets) :: others))
    (hadv : Advances c c' t' others)
    (hexec : c.exec e (.batch conn k (.register s packets)) = some (c', t')) :
    Named c' (t' :: others) := by
  obtain ⟨-, hno, -, hk, -, huser⟩ := howned.knows _ List.mem_cons_self
  cases hexec
  refine h.move hadv ?_ trivial fun _ _ hp => by cases hp
  intro k' id' s' hb
  rcases (howned.registry.bound_addSession hno hk).mp hb with ⟨-, rfl, rfl⟩ | hb
  · exact fun _ => huser
  · exact h.userId_of_eq hb rfl

theorem Named.authenticate {type : PacketType}
    (h : Named c (.batch conn k (.authenticate s type id packets) :: others))
    (howned : Owned c (.batch conn k (.authenticate s type id packets) :: others))
    (hissued : e.outcome.issued = true)
    (hloyal : (Thread.batch conn k (.authenticate s type id packets)).Loyal c e)
    (hadv : Advances c c' t' others)
    (hexec : c.exec e (.batch conn k (.authenticate s type id packets)) = some (c', t')) :
    Named c' (t' :: others) := by
  obtain ⟨-, ⟨key, hb⟩, huser, -⟩ := howned.knows _ List.mem_cons_self
  -- a session that is registered keeps its user
  have hsame : (c.sessionManager.pool s).updated = true →
      (e.outcome.write (c.sessionManager.pool s)).userId = (c.sessionManager.pool s).userId := by
    intro hupdated
    rcases e.outcome.cases_issued hissued with ⟨userId, expiry, hgranted⟩ | ⟨-, hkeeps⟩
    · have huser : (c.sessionManager.pool s).userId = toHex userId :=
        (hloyal userId (by rw [hgranted]; rfl)).resolve_left (by simp [hupdated])
      rw [hgranted]
      exact huser.symm
    · exact (hkeeps _).1
  have hbound : ∀ k' id' s', (c.sessionManager.modifySession s e.outcome.write).Bound k' id' s' →
      ((c.sessionManager.modifySession s e.outcome.write).pool s').updated = true →
      ((c.sessionManager.modifySession s e.outcome.write).pool s').userId = id' := by
    intro k' id' s' hafter hupdated
    have hb' := (bound_modifySession fun _ => socket_write e.outcome _).mp hafter
    by_cases hs : s' = s
    · subst hs
      rw [pool_modifySession_self, updated_write] at hupdated
      rw [pool_modifySession_self, hsame hupdated]
      exact h.userId hb' hupdated
    · rw [pool_modifySession_of_ne hs] at hupdated ⊢
      exact h.userId hb' hupdated
  simp only [Connections.exec, Connections.handle] at hexec
  split at hexec
  · split at hexec
    · cases hexec
      refine h.move hadv hbound ?_ fun _ _ hp => by cases hp
      intro hupdated
      rw [pool_modifySession_self, updated_write] at hupdated
      rw [pool_modifySession_self, hsame hupdated, huser]
    · cases hexec
      exact h.move hadv hbound trivial fun _ _ hp => by cases hp
  · cases hexec

theorem Named.granted (h : Named c (.batch conn k (.granted s id packets) :: others))
    (howned : Owned c (.batch conn k (.granted s id packets) :: others))
    (hadv : Advances c c' t' others)
    (hexec : c.exec e (.batch conn k (.granted s id packets)) = some (c', t')) :
    Named c' (t' :: others) := by
  obtain ⟨-, ⟨key, hb⟩, -, hhex⟩ := howned.knows _ List.mem_cons_self
  have hkeeps := h.keeps _ List.mem_cons_self
  simp only [Connections.exec, Connections.handle] at hexec
  split at hexec
  · rename_i hupdated
    cases hexec
    refine h.move hadv (fun _ _ _ hb' => h.userId hb') trivial ?_
    intro s' former hp
    cases hp
    cases h.userId hb hupdated
    refine registered_of_bound howned.registry.consistent hb hhex ?_
    intro hne
    exact absurd (hkeeps hupdated) hne
  · cases hexec
    exact h.move_of_eq hadv rfl trivial rfl

theorem Named.update (h : Named c (.batch conn k (.update s id packets) :: others))
    (howned : Owned c (.batch conn k (.update s id packets) :: others))
    (hadv : Advances c c' t' others)
    (hexec : c.exec e (.batch conn k (.update s id packets)) = some (c', t')) :
    Named c' (t' :: others) := by
  have hcons := howned.registry.consistent
  obtain ⟨-, ⟨key, hb⟩, hupdated, rfl, hhex⟩ := howned.knows _ List.mem_cons_self
  cases (howned.registry.temporary hb hupdated).1
  have hne : (c.sessionManager.pool s).userId ≠ tempId k := by
    rw [hhex]
    exact toHex_ne_tempId _ k
  have hself := hcons.pool_rebind_self hb hne
  have huser : ((c.sessionManager.rebind k (tempId k) s).pool s).userId =
      (c.sessionManager.pool s).userId := by rw [hself]
  simp only [Connections.exec, Connections.handle, hcons.updateNewId hb hne, Option.map_some] at hexec
  cases hexec
  refine h.move hadv ?_ trivial ?_
  · intro k' id' s' hb' hupdated'
    rcases (hcons.bound_rebind hb hne).mp hb' with ⟨-, hid, hs⟩ | ⟨hid, htemp, hb'⟩
    · subst hs hid
      exact huser
    · refine h.userId_of_eq hb' ?_ hupdated'
      exact howned.registry.pool_rebind rfl hb ⟨hid, htemp⟩ hb'
  · intro s' former hp
    cases hp
    refine registered_of_bound (k := k) (hcons.rebind hb hne) ?_ ?_ ?_
    · rw [hself]
      exact (hcons.bound_rebind hb hne).mpr (.inl ⟨rfl, rfl, rfl⟩)
    · rw [hself]
      exact hhex
    · intro _ k' s' hb'
      rcases (hcons.bound_rebind hb hne).mp hb' with ⟨-, hid, -⟩ | ⟨-, htemp, -⟩
      · exact hne hid.symm
      · exact htemp rfl

theorem Named.exec (h : Named c (t :: others)) (howned : Owned c (t :: others))
    (hok : t.Careful c others e) (hloyal : t.Loyal c e) (hexec : c.exec e t = some (c', t')) :
    Named c' (t' :: others) := by
  have hcons := howned.registry.consistent
  have hadv := howned.exec hok hexec
  cases t with
  | batch conn k point =>
    cases point with
    | lookup packets =>
      simp only [Connections.exec, Connections.handle] at hexec
      rcases hcons.findBySocket k with ⟨hfind, -⟩ | ⟨id, s, -, hfind⟩
      · rw [hfind] at hexec
        cases hexec
        exact h.move_of_eq hadv rfl trivial rfl
      · rw [hfind] at hexec
        cases hexec
        exact h.move_of_eq hadv rfl trivial rfl
    | borrow packets => exact h.borrow hcons hadv hexec
    | register s packets => exact h.register howned hadv hexec
    | dispatch s packets =>
      cases packets with
      | nil =>
        cases hexec
        exact h.move_of_eq hadv rfl trivial rfl
      | cons type packets =>
        cases hexec
        refine h.move_of_eq hadv rfl ?_ rfl
        rcases handlePacket_cases { c with processed := none } e.now s packets type with
          ⟨type', heq⟩ | heq | heq
        · rw [heq]
          trivial
        · rw [heq]
          trivial
        · rw [heq]
          trivial
    | authenticate s type id packets => exact h.authenticate howned hok hloyal hadv hexec
    | granted s id packets => exact h.granted howned hadv hexec
    | update s id packets => exact h.update howned hadv hexec
    | logout s packets =>
      simp only [Connections.exec, Connections.handle, hcons.removeSession,
        Option.map_some] at hexec
      cases hexec
      exact h.unbind hcons hadv rfl trivial rfl
    | finish =>
      simp only [Connections.exec, Connections.handle] at hexec
      split at hexec
      · cases hexec
        exact h.move_of_eq hadv rfl trivial rfl
      · cases hexec
        exact h.move_of_eq hadv rfl trivial rfl
  | mark k =>
    simp only [Connections.exec] at hexec
    split at hexec
    · cases hexec
      exact h.move_of_eq hadv rfl trivial rfl
    · cases hexec
      exact h.move_of_eq hadv rfl trivial rfl
  | find k =>
    simp only [Connections.exec] at hexec
    cases hexec
    refine h.move_of_eq hadv rfl ?_ rfl
    split <;> trivial
  | remove k id =>
    simp only [Connections.exec, hcons.removeSession, Option.map_some] at hexec
    cases hexec
    exact h.unbind hcons hadv rfl trivial rfl
  | close k =>
    cases hexec
    exact h.move_of_eq hadv rfl trivial rfl
  | done => cases hexec

end Exec

theorem named_new : Named .new [] := by
  refine ⟨?_, by simp, ?_⟩
  · intro k id s hb
    cases hb.1
  · intro s former hp
    cases hp

theorem Named.congr (h : Named c threads) (hm : c'.sessionManager = c.sessionManager)
    (hp : c'.processed = none) : Named c' threads := by
  constructor
  · rw [hm]
    exact h.userId
  · rw [hm]
    exact h.keeps
  · intro s former hp'
    rw [hp] at hp'
    cases hp'

theorem Named.spawn (h : Named c threads) (ht : t.Keeps c.sessionManager) :
    Named c (threads ++ [t]) := by
  refine { h with keeps := ?_ }
  exact List.forall_mem_append.mpr ⟨h.keeps, List.forall_mem_singleton.mpr ht⟩

theorem Named.step {w w' : Workers} {a : Workers.Action} (h : Named w.shared w.calls)
    (howned : Owned w.shared w.calls) (hok : w.Careful a) (hloyal : w.Loyal a)
    (hstep : w.step a = some w') : Named w'.shared w'.calls := by
  cases a with
  | accept k posted =>
    simp only [Workers.step] at hstep
    split at hstep
    · cases hstep
    · cases hstep
      simp only [Workers.accept]
      split
      · exact h.congr rfl rfl
      · exact Named.spawn (h.congr rfl rfl) trivial
  | receive k packets =>
    simp only [Workers.step] at hstep
    split at hstep
    · cases hstep
      refine Named.spawn (h.congr rfl rfl) ?_
      split <;> trivial
    · cases hstep
  | sendFailed k =>
    cases hstep
    exact Named.spawn (h.congr rfl rfl) trivial
  | receiveFailed k =>
    simp only [Workers.step] at hstep
    split at hstep
    · cases hstep
      exact Named.spawn (h.congr rfl rfl) trivial
    · cases hstep
  | run i e =>
    obtain ⟨t, t', hi, hperm, hperm', hexec⟩ := Config.run_spec hstep
    exact ((h.perm hperm).exec (howned.perm hperm) (hok t hi) (hloyal t hi) hexec).perm hperm'.symm

end Named

/-- **A successful authentication registers its session**, in every run whose steps are
careful and loyal. -/
theorem registered_of_loyal {w : Workers}
    (hreach : Reaches Workers.step (fun w a => w.Careful a ∧ w.Loyal a) .new w) {s : SessionPtr}
    {former : UserId} (hprocessed : w.shared.processed = some (s, former)) :
    w.shared.sessionManager.Registered s former := by
  have h : Owned w.shared w.calls ∧ Named w.shared w.calls := by
    apply hreach.invariant
    · exact ⟨owned_new, named_new⟩
    · intro w a w' _ h hok hstep
      exact ⟨h.1.step hok.1 hstep, h.2.step h.1 hok.1 hok.2 hstep⟩
  exact h.2.processed hprocessed

/-- A user logs in, and has the tokens refreshed. -/
def loginAndRefresh : List Workers.Action :=
  [.accept 5 true, .receive 5 [some .pktLogin, some .pktRefresh]] ++ turns 0 10 (.replicate 16 7)

theorem registered_of_loyal_same_user :
    ∃ w : Workers, Reaches Workers.step (fun w a => w.Careful a ∧ w.Loyal a) .new w ∧
      w.shared.processed = some (0, toHex (.replicate 16 7)) ∧
      w.shared.sessionManager.Registered 0 (toHex (.replicate 16 7)) := by
  obtain ⟨w, hrun, hprocessed⟩ := exists_run Workers.step .new loginAndRefresh
    (fun w => w.shared.processed = some (0, toHex (.replicate 16 7))) (by decide +kernel)
  have hreach : Reaches Workers.step (fun w a => w.Careful a ∧ w.Loyal a) .new w :=
    reaches_of_run (by decide +kernel) hrun
  exact ⟨w, hreach, hprocessed, registered_of_loyal hreach hprocessed⟩

/-- Two users log in on one connection. -/
def twoLogins : List Workers.Action :=
  [.accept 5 true, .receive 5 [some .pktLogin, some .pktLogin]] ++ turns 0 8 (.replicate 16 7) ++
    turns 0 2 (.replicate 16 8)

/-- **A login as another user is not registered.**  `updated` is set, and `updateNewId` is not
called. -/
theorem not_registered_second_user :
    ∃ w, Transition.run Workers.step .new twoLogins = some w ∧
      w.shared.processed = some (0, toHex (.replicate 16 7)) ∧
      ¬ w.shared.sessionManager.Registered 0 (toHex (.replicate 16 7)) := by
  obtain ⟨w, hrun, hprocessed, hentry⟩ := exists_run Workers.step .new twoLogins
    (fun w => w.shared.processed = some (0, toHex (.replicate 16 7)) ∧
      w.shared.sessionManager.sessions (w.shared.sessionManager.pool 0).userId = none)
    (by decide +kernel)
  refine ⟨w, hrun, hprocessed, ?_⟩
  intro h
  have hsession := h.session
  rw [hentry] at hsession
  cases hsession

end IocpChat

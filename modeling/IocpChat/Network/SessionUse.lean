import IocpChat.Network.SessionOwners

/-!
# The sessions that packets are handled with

A batch is handled with the session that was looked up for it once.  Nothing keeps that
session from going back to the pool before the batch ends: a logout in the batch itself, a
login of the same user elsewhere, and a disconnect by another thread all give it back, and
the packets that are left then write to a session that belongs to nobody or to somebody
else.  Likewise, a handle can be given to the next connection while a batch of the previous
one is still under way.

Where none of this happens (`Workers.Careful`), sessions belong to the connections that use
them, and a connection is authenticated by its own packets only.

## Main definitions

* `Thread.Careful`, `Workers.Careful` — a step takes no session away from a batch.
* `Owned.exec`, `Owned.step` — careful steps keep the invariant.
* `Workers.Honest`, `honest_of_careful` — connections are authenticated by their own packets.
-/

namespace IocpChat

open Transition SessionManager

/-! ## Careful steps -/

/-- The tokens of a user who has been cached are issued. -/
def AuthOutcome.issued : AuthOutcome → Bool
  | .notIssued .. => false
  | _ => true

/-- A step of a thread is careful, among these other threads: a session is registered only
on a socket that is live, it goes back to the pool only when no thread has packets left
for it, and tokens can be issued. -/
def Thread.Careful (c : Connections) (others : List Thread) (e : Choice) : Thread → Prop
  | .batch _ k (.register _ _) => c.Live k
  | .batch _ _ (.authenticate ..) => e.outcome.issued = true
  | .batch _ k (.update s _ _) => c.Live k ∧
      ∀ old ∈ c.sessionManager.findSession (c.sessionManager.pool s).userId, Unheld others old
  | .batch _ _ (.logout s packets) =>
    ∀ old ∈ c.sessionManager.findSession (c.sessionManager.pool s).userId,
      Unheld others old ∧ (old = s → packets = [])
  | .remove _ userId => ∀ old ∈ c.sessionManager.findSession userId, Unheld others old
  | _ => True

instance (c : Connections) (others : List Thread) (e : Choice) (t : Thread) :
    Decidable (t.Careful c others e) := by
  unfold Thread.Careful
  split <;> infer_instance

/-- A handle is given to a new connection only when no thread and no receive of the old
one is left, and the threads are careful. -/
def Workers.Careful (w : Workers) : Workers.Action → Prop
  | .accept k _ => w.shared.posted k = false ∧ ∀ t ∈ w.calls, t.socket ≠ some k
  | .run i e => ∀ t ∈ w.calls[i]?, t.Careful w.shared (w.calls.eraseIdx i) e
  | .receive .. | .sendFailed _ | .receiveFailed _ => True

instance (w : Workers) (a : Workers.Action) : Decidable (w.Careful a) := by
  unfold Workers.Careful
  split <;> infer_instance

/-! ## The threads -/

variable {c c' : Connections} {t t' : Thread} {others threads : List Thread} {k : Socket}
  {id : UserId} {s : SessionPtr}

section Handle

variable {e : Choice} {conn : ℕ} {packets : Packets}

/-- The session of a batch without a session is the one that is registered on its socket. -/
theorem Owned.lookup (h : Owned c (.batch conn k (.lookup packets) :: others))
    (hexec : c.exec e (.batch conn k (.lookup packets)) = some (c', t')) :
    Advances c c' t' others := by
  have hconn : conn = c.connection k := (h.knows _ List.mem_cons_self).1
  simp only [Connections.exec, Connections.handle] at hexec
  rcases h.registry.consistent.findBySocket k with ⟨hfind, hno⟩ | ⟨id, s, hb, hfind⟩
  · rw [hfind] at hexec
    cases hexec
    exact h.move_of_eq rfl rfl rfl h.registry.isOpen (fun _ hd => hd) (fun _ _ hr => hr)
      ⟨hconn, hno⟩ (.inr rfl) fun _ _ => rfl
  · rw [hfind] at hexec
    cases hexec
    refine h.move_of_eq rfl rfl rfl h.registry.isOpen (fun _ hd => hd) (fun _ _ hr => hr)
      ⟨hconn, ?_⟩ (.inr rfl) fun _ _ => rfl
    cases packets with
    | nil => trivial
    | cons p packets =>
      refine ⟨⟨id, hb⟩, ?_⟩
      intro hupdated
      rcases (h.registry.temporary hb hupdated).2 with huser | ⟨u, hu, hren⟩
      · exact huser
      · rcases List.mem_cons.mp hu with rfl | hu
        · cases hren
        · exact absurd hren.holds (h.ne_of_holds rfl hb.2.2 hu)

theorem Owned.borrow (h : Owned c (.batch conn k (.borrow packets) :: others))
    (hexec : c.exec e (.batch conn k (.borrow packets)) = some (c', t')) :
    Advances c c' t' others := by
  have hcons := h.registry.consistent
  obtain ⟨hconn, hno⟩ := h.knows _ List.mem_cons_self
  simp only [Connections.exec, Connections.handle] at hexec
  cases hborrow : c.sessionManager.borrowSession k with
  | none =>
    rw [hborrow] at hexec
    cases hexec
    exact h.move_of_eq rfl rfl rfl h.registry.isOpen (fun _ hd => hd) (fun _ _ hr => hr.elim)
      trivial (.inl rfl) fun _ _ => rfl
  | some r =>
    obtain ⟨m, s⟩ := r
    obtain ⟨hfree, hm⟩ := borrowSession_eq hborrow
    rw [hborrow] at hexec
    cases hexec
    have hmem : s ∈ c.sessionManager.freeIndices := hfree ▸ List.mem_cons_self
    have hnot : s ∉ m.freeIndices := (List.nodup_cons.mp (hfree ▸ hcons.nodup)).1
    have hloose : ∀ id, c.sessionManager.sessions id ≠ some (some s) := hcons.free s hmem
    have hunauth := h.registry.authState_of_free hmem
    rw [hm, modifySession_lend]
    refine h.move (h.registry.lend ?_ rfl hfree ?_ (fun _ hr => hr.elim) _) ?_ ⟨hconn, ?_⟩
      (.inr rfl) fun _ _ => rfl
    · exact ⟨rfl, rfl, rfl, rfl, rfl⟩
    · intro session
      rfl
    · intro u hu
      exact h.spared_lend ⟨rfl, rfl, rfl, rfl, rfl⟩ rfl hfree hu
    · refine ⟨?_, ⟨hnot, hloose⟩, ?_, ?_, ?_⟩
      · intro id s' hb
        exact hno id s' ((hcons.bound_lend hmem).mp hb)
      · simp [lend]
      · simpa [lend] using hunauth
      · simp [lend]

theorem Owned.register (h : Owned c (.batch conn k (.register s packets) :: others))
    (hlive : c.Live k)
    (hexec : c.exec e (.batch conn k (.register s packets)) = some (c', t')) :
    Advances c c' t' others := by
  obtain ⟨hconn, hno, hloose, hk, hauth, huser⟩ := h.knows _ List.mem_cons_self
  cases hexec
  refine h.move (h.registry.addSession ?_ ?_ hno hloose hk huser hlive (fun _ hr => hr.elim) _) ?_
    ⟨hconn, ?_⟩ (.inr rfl) fun _ _ => rfl
  · exact ⟨rfl, rfl, rfl, rfl, rfl⟩
  · rfl
  · intro u hu
    exact h.spared_addSession ⟨rfl, rfl, rfl, rfl, rfl⟩ rfl rfl hno hk hlive hu
  · cases packets with
    | nil => trivial
    | cons p packets =>
      have hb := (h.registry.bound_addSession hno hk).mpr (.inl ⟨rfl, rfl, rfl⟩)
      exact ⟨⟨tempId k, hb⟩, fun _ => huser⟩

theorem handlePacket_cases (c : Connections) (now : UInt64) (s : SessionPtr) (packets : Packets)
    (type : Option PacketType) :
    (∃ type', c.handlePacket now s packets type =
      .authenticate s type' (c.sessionManager.pool s).userId packets) ∨
    c.handlePacket now s packets type = .logout s packets ∨
    c.handlePacket now s packets type = .dispatch s packets := by
  unfold Connections.handlePacket
  split
  · exact .inl ⟨_, rfl⟩
  · exact .inl ⟨_, rfl⟩
  · exact .inl ⟨_, rfl⟩
  · split
    · exact .inr (.inl rfl)
    · exact .inr (.inr rfl)
  · exact .inr (.inr rfl)

theorem Owned.dispatch (h : Owned c (.batch conn k (.dispatch s packets) :: others))
    (hexec : c.exec e (.batch conn k (.dispatch s packets)) = some (c', t')) :
    Advances c c' t' others := by
  obtain ⟨hconn, hknows⟩ := h.knows _ List.mem_cons_self
  cases packets with
  | nil =>
    cases hexec
    exact h.move_of_eq rfl rfl rfl h.registry.isOpen (fun _ hd => hd) (fun _ _ hr => hr.elim)
      ⟨hconn, trivial⟩ (.inr rfl) fun _ _ => rfl
  | cons type packets =>
    cases hexec
    refine h.move_of_eq rfl rfl rfl h.registry.isOpen (fun _ hd => hd) (fun _ _ hr => hr.elim)
      ⟨hconn, ?_⟩ (.inr rfl) fun _ _ => rfl
    have hdispatch : (Handling.dispatch s packets).Knows c k := by
      cases packets with
      | nil => trivial
      | cons p packets => exact hknows
    have hauth : ∀ type, (Handling.authenticate s type (c.sessionManager.pool s).userId packets).Knows
        c k := fun type => ⟨hknows.1, rfl, hknows.2⟩
    rcases handlePacket_cases { c with processed := none } e.now s packets type with
      ⟨type', heq⟩ | heq | heq
    · rw [heq]
      exact hauth type'
    · rw [heq]
      exact hknows
    · rw [heq]
      exact hdispatch

theorem updated_write (outcome : AuthOutcome) (session : Session) :
    (outcome.write session).updated = session.updated := by
  cases outcome <;> rfl

/-- The bindings and the sessions after the handler of an authentication packet. -/
theorem Registry.write (h : Registry c (t :: others)) (outcome : AuthOutcome)
    (hm : c'.sessionManager = c.sessionManager.modifySession s outcome.write)
    (hopen : c'.isOpen = c.isOpen) (hconn : c'.connection = c.connection)
    (hauth : ∀ conn, c.authenticated conn = true → c'.authenticated conn = true)
    (hb : c.sessionManager.Bound k id s)
    (hsuccess : (outcome.write (c.sessionManager.pool s)).authState ≠ .unauthenticated →
      (c.sessionManager.pool s).authState ≠ .unauthenticated ∨
        c'.authenticated (c.connection k) = true)
    (hrename : ∀ s, ¬ t.Renames s)
    (huser : (outcome.write (c.sessionManager.pool s)).userId = (c.sessionManager.pool s).userId ∨
      t'.Renames s) : Registry c' (t' :: others) := by
  have hbound : ∀ {k id s'}, c'.sessionManager.Bound k id s' ↔ c.sessionManager.Bound k id s' :=
    bound_write (socket_write outcome) hm
  constructor
  · rw [hm]
    exact h.consistent.modifySession fun _ _ => socket_write outcome _
  · intro k id s' hb'
    rw [hopen]
    exact h.isOpen (hbound.mp hb')
  · intro k id s' hb'
    exact h.key (hbound.mp hb')
  · intro k' id' s' hb' hupdated
    by_cases hs : s' = s
    · subst hs
      rw [hm, pool_modifySession_self, updated_write] at hupdated
      obtain ⟨hkey, huser'⟩ := h.temporary (hbound.mp hb') hupdated
      refine ⟨hkey, ?_⟩
      rcases huser with heq | hren
      · rw [hm, pool_modifySession_self, heq]
        exact huser'.imp_right (renames_cons hrename t')
      · exact .inr ⟨t', List.mem_cons_self, hren⟩
    · rw [hm, pool_modifySession_of_ne hs] at hupdated ⊢
      obtain ⟨hkey, huser'⟩ := h.temporary (hbound.mp hb') hupdated
      exact ⟨hkey, huser'.imp_right (renames_cons hrename t')⟩
  · intro s' hauth'
    rw [hconn]
    by_cases hs : s' = s
    · subst hs
      rw [hm, pool_modifySession_self] at hauth'
      rcases hsuccess hauth' with hbefore | hnow
      · obtain ⟨k', id', hb', hconn'⟩ := h.authenticated hbefore
        exact ⟨k', id', hbound.mpr hb', hauth _ hconn'⟩
      · exact ⟨k, id, hbound.mpr hb, hnow⟩
    · rw [hm, pool_modifySession_of_ne hs] at hauth'
      obtain ⟨k', id', hb', hconn'⟩ := h.authenticated hauth'
      exact ⟨k', id', hbound.mpr hb', hauth _ hconn'⟩

theorem AuthOutcome.cases_issued (outcome : AuthOutcome)
    (h : outcome.issued = true) :
    (∃ userId expiry, outcome = .granted userId expiry) ∨
      outcome.success = false ∧ ∀ session, (outcome.write session).userId = session.userId ∧
        ((outcome.write session).authState ≠ .unauthenticated →
          session.authState ≠ .unauthenticated) := by
  cases outcome with
  | refused => exact .inr ⟨rfl, fun _ => ⟨rfl, fun h => h⟩⟩
  | granted userId expiry => exact .inl ⟨userId, expiry, rfl⟩
  | notIssued userId expiry => cases h
  | revoked => exact .inr ⟨rfl, fun _ => ⟨rfl, fun h => absurd rfl h⟩⟩

theorem Owned.authenticate {type : PacketType}
    (h : Owned c (.batch conn k (.authenticate s type id packets) :: others))
    (hissued : e.outcome.issued = true)
    (hexec : c.exec e (.batch conn k (.authenticate s type id packets)) = some (c', t')) :
    Advances c c' t' others := by
  obtain ⟨rfl, ⟨key, hb⟩, huser, htemp⟩ := h.knows _ List.mem_cons_self
  have hb' : (c.sessionManager.modifySession s e.outcome.write).Bound k key s :=
    (bound_modifySession fun _ => socket_write e.outcome _).mpr hb
  have hupdated := updated_write e.outcome (c.sessionManager.pool s)
  simp only [Connections.exec, Connections.handle] at hexec
  split at hexec
  · rcases e.outcome.cases_issued hissued with ⟨userId, expiry, hgranted⟩ | ⟨hfail, hkeeps⟩
    · have hsuccess : e.outcome.success = true := by rw [hgranted]; rfl
      rw [if_pos hsuccess] at hexec
      cases hexec
      refine h.move (h.registry.write e.outcome rfl rfl rfl ?_ hb ?_ (fun _ hr => hr.elim) (.inr rfl))
        ?_ ⟨rfl, ⟨key, hb'⟩, ?_, ?_⟩ (.inr rfl) fun _ _ => rfl
      · intro conn hconn
        by_cases heq : conn = c.connection k
        · subst heq
          simp
        · simpa [Function.update_of_ne heq] using hconn
      · intro _
        right
        simp
      · intro u hu
        exact h.spared_write (socket_write e.outcome) rfl rfl hb.2.2 rfl rfl hu
      · intro hfalse
        rw [pool_modifySession_self, hupdated] at hfalse
        exact htemp hfalse
      · rw [pool_modifySession_self, hgranted]
        rfl
    · rw [if_neg (by simp [hfail])] at hexec
      cases hexec
      refine h.move (h.registry.write e.outcome rfl rfl rfl (fun _ hconn => hconn) hb ?_
        (fun _ hr => hr.elim) (.inl (hkeeps _).1)) ?_ ⟨rfl, ?_⟩ (.inr rfl) fun _ _ => rfl
      · intro hauth
        exact .inl ((hkeeps _).2 hauth)
      · intro u hu
        exact h.spared_write (socket_write e.outcome) rfl rfl hb.2.2 rfl rfl hu
      · cases packets with
        | nil => trivial
        | cons p packets =>
          refine ⟨⟨key, hb'⟩, ?_⟩
          rw [pool_modifySession_self, hupdated, (hkeeps _).1, huser]
          exact htemp
  · cases hexec

/-- `updated` is read. -/
theorem Owned.granted (h : Owned c (.batch conn k (.granted s id packets) :: others))
    (hexec : c.exec e (.batch conn k (.granted s id packets)) = some (c', t')) :
    Advances c c' t' others := by
  obtain ⟨hconn, hb, htemp, huser⟩ := h.knows _ List.mem_cons_self
  simp only [Connections.exec, Connections.handle] at hexec
  split at hexec
  · rename_i hupdated
    cases hexec
    refine h.move_of_eq rfl rfl rfl h.registry.isOpen (fun _ hd => hd) ?_ ⟨hconn, ?_⟩ (.inr rfl)
      fun _ _ => rfl
    · -- the session has been registered under its id before
      intro s' hfalse hren
      cases (show s = s' from hren)
      rw [hupdated] at hfalse
      cases hfalse
    · cases packets with
      | nil => trivial
      | cons p packets =>
        refine ⟨hb, ?_⟩
        intro hfalse
        rw [hupdated] at hfalse
        cases hfalse
  · rename_i hupdated
    cases hexec
    have hfalse : (c.sessionManager.pool s).updated = false := by simpa using hupdated
    exact h.move_of_eq rfl rfl rfl h.registry.isOpen (fun _ hd => hd) (fun _ _ hr => hr)
      ⟨hconn, hb, hfalse, htemp hfalse, huser⟩ (.inr rfl) fun _ _ => rfl

theorem Owned.finish (h : Owned c (.batch conn k .finish :: others))
    (hexec : c.exec e (.batch conn k .finish) = some (c', t')) : Advances c c' t' others := by
  simp only [Connections.exec, Connections.handle] at hexec
  split at hexec
  · cases hexec
    exact h.move_of_eq rfl rfl rfl h.registry.isOpen (fun _ hd => hd) (fun _ _ hr => hr.elim)
      trivial (.inl rfl) fun _ _ => rfl
  · cases hexec
    refine h.move_of_eq rfl rfl rfl h.registry.isOpen (fun _ hd => hd) (fun _ _ hr => hr.elim)
      trivial (.inl rfl) ?_
    intro k' hk'
    have hne : k' ≠ k := by
      rintro rfl
      simp [Thread.batchSocket] at hk'
    exact Function.update_of_ne hne ..

theorem Owned.logout (h : Owned c (.batch conn k (.logout s packets) :: others))
    (hunheld : ∀ old ∈ c.sessionManager.findSession (c.sessionManager.pool s).userId,
      Unheld others old ∧ (old = s → packets = []))
    (hexec : c.exec e (.batch conn k (.logout s packets)) = some (c', t')) :
    Advances c c' t' others := by
  obtain ⟨hconn, ⟨key, hb⟩, htemp⟩ := h.knows _ List.mem_cons_self
  have hcons := h.registry.consistent
  simp only [Connections.exec, Connections.handle, hcons.removeSession, Option.map_some] at hexec
  cases hexec
  refine h.move (h.registry.unbind ?_ rfl (fun _ hr => hr.elim) _) ?_ ⟨hconn, ?_⟩ (.inr rfl)
    fun _ _ => rfl
  · exact ⟨rfl, rfl, rfl, rfl, rfl⟩
  · intro u hu
    exact h.spared_unbind ⟨rfl, rfl, rfl, rfl, rfl⟩ rfl (fun old hold => (hunheld old hold).1) hu
  · cases packets with
    | nil => trivial
    | cons p packets =>
      -- the session that was ended is another one
      have hne : c.sessionManager.sessions (c.sessionManager.pool s).userId ≠ some (some s) := by
        intro hentry
        have hfind : s ∈ c.sessionManager.findSession (c.sessionManager.pool s).userId := by
          simp [findSession, hentry]
        cases (hunheld s hfind).2 rfl
      refine ⟨⟨key, hcons.bound_unbind.mpr ⟨?_, hb⟩⟩, ?_⟩
      · rintro rfl
        exact hne hb.2.1
      · rw [pool_unbind hne]
        exact htemp

/-- Nothing is lost but the socket that is disconnected, if there is one. -/
structure Connections.Cuts (o : Option Socket) (c c' : Connections) : Prop where
  sessionManager : c'.sessionManager = c.sessionManager
  connection : c'.connection = c.connection
  authenticated : c'.authenticated = c.authenticated
  posted : c'.posted = c.posted
  isOpen : ∀ k, o ≠ some k → c'.isOpen k = c.isOpen k
  disconnected : ∀ k, c.disconnectedSockets k = true → c'.disconnectedSockets k = true

theorem cuts_handleDisconnectWithoutLock (c : Connections) (o : Option Socket) :
    c.Cuts o (o.elim c c.handleDisconnectWithoutLock) := by
  cases o with
  | none => exact ⟨rfl, rfl, rfl, rfl, fun _ _ => rfl, fun _ h => h⟩
  | some k =>
    simp only [Option.elim_some, Connections.handleDisconnectWithoutLock]
    split
    · exact ⟨rfl, rfl, rfl, rfl, fun _ _ => rfl, fun _ h => h⟩
    · refine ⟨rfl, rfl, rfl, rfl, ?_, ?_⟩
      · intro k' hk'
        have hne : k' ≠ k := by
          rintro rfl
          exact hk' rfl
        exact Function.update_of_ne hne ..
      · intro k' hdisc
        by_cases heq : k' = k
        · subst heq
          simp
        · simpa [Function.update_of_ne heq] using hdisc

/-- The socket that `updateNewId` disconnects has a session of the user. -/
theorem bound_oldSocket (h : c.sessionManager.Consistent) (hk : c.oldSocket s = some k) :
    k ≠ (c.sessionManager.pool s).socket ∧
      ∃ old, c.sessionManager.Bound k (c.sessionManager.pool s).userId old := by
  unfold Connections.oldSocket at hk
  cases hfind : c.sessionManager.findSession (c.sessionManager.pool s).userId with
  | none =>
    simp only [hfind] at hk
    cases hk
  | some old =>
    simp only [hfind] at hk
    split at hk
    · rename_i hne
      cases hk
      exact ⟨hne.symm, old, h.bound (Option.join_eq_some_iff.mp hfind)⟩
    · cases hk

theorem Owned.update (h : Owned c (.batch conn k (.update s id packets) :: others))
    (hlive : c.Live k)
    (hunheld : ∀ old ∈ c.sessionManager.findSession (c.sessionManager.pool s).userId,
      Unheld others old)
    (hexec : c.exec e (.batch conn k (.update s id packets)) = some (c', t')) :
    Advances c c' t' others := by
  have hcons := h.registry.consistent
  obtain ⟨hconn, ⟨key, hb⟩, hupdated, rfl, huser⟩ := h.knows _ List.mem_cons_self
  cases (h.registry.temporary hb hupdated).1
  have hne : (c.sessionManager.pool s).userId ≠ tempId k := by
    rw [huser]
    exact toHex_ne_tempId _ k
  have hcuts := cuts_handleDisconnectWithoutLock { c with processed := none } (c.oldSocket s)
  simp only [Connections.exec, Connections.handle, hcons.updateNewId hb hne, Option.map_some] at hexec
  cases hexec
  refine h.move (h.registry.rebind ?_ ?_ rfl hb hne ?_ ?_ ⟨_, huser⟩ ?_ _) ?_ ⟨?_, ?_⟩ (.inr rfl) ?_
  · exact hcuts.connection
  · exact hcuts.authenticated
  · -- the socket that is disconnected is another one
    refine (hcuts.isOpen k ?_).trans hlive.1
    intro hold
    exact (bound_oldSocket hcons hold).1 hb.2.2.symm
  · intro k' id' s' hb' hid
    refine (hcuts.isOpen k' ?_).trans (h.registry.isOpen hb')
    intro hold
    obtain ⟨-, old, hold⟩ := bound_oldSocket hcons hold
    exact hid (hb'.eq_of_socket hold).1
  · intro s' hren
    exact hren.symm
  · intro u hu
    refine h.spared_rebind ?_ rfl hb hne rfl hlive hcuts.disconnected hunheld hu
    exact hcuts.connection
  · exact hconn.trans (congrFun hcuts.connection k).symm
  · cases packets with
    | nil => trivial
    | cons p packets =>
      refine ⟨⟨_, (hcons.bound_rebind hb hne).mpr (.inl ⟨rfl, rfl, rfl⟩)⟩, ?_⟩
      intro hfalse
      rw [hcons.pool_rebind_self hb hne] at hfalse
      cases hfalse
  · intro k' _
    exact congrFun hcuts.posted k'

end Handle

/-! ## Disconnecting -/

section Disconnect

variable {e : Choice}

theorem Owned.mark (h : Owned c (.mark k :: others))
    (hexec : c.exec e (.mark k) = some (c', t')) : Advances c c' t' others := by
  simp only [Connections.exec] at hexec
  split at hexec
  · cases hexec
    exact h.move_of_eq rfl rfl rfl h.registry.isOpen (fun _ hd => hd) (fun _ _ hr => hr.elim)
      trivial (.inl rfl) fun _ _ => rfl
  · cases hexec
    refine h.move_of_eq rfl rfl rfl h.registry.isOpen ?_ (fun _ _ hr => hr.elim) ?_ (.inl rfl)
      fun _ _ => rfl
    · intro k' hdisc
      by_cases heq : k' = k
      · subst heq
        simp
      · simpa [Function.update_of_ne heq] using hdisc
    · simp [Thread.Knows]

theorem Registry.ne_nil (h : Registry c threads) (hb : c.sessionManager.Bound k id s) : id ≠ [] := by
  rcases h.key hb with rfl | ⟨user, rfl⟩
  · exact tempId_ne_nil k
  · exact toHex_ne_nil user

theorem Owned.find (h : Owned c (.find k :: others))
    (hexec : c.exec e (.find k) = some (c', t')) : Advances c c' t' others := by
  have hdisc : c.disconnectedSockets k = true := h.knows _ List.mem_cons_self
  have hget : ∀ id s, c.sessionManager.Bound k id s → id = c.sessionManager.getUserIdBySocket k := by
    intro id s hb
    simp [getUserIdBySocket, hb.1]
  simp only [Connections.exec] at hexec
  cases hexec
  refine h.move_of_eq rfl rfl rfl h.registry.isOpen (fun _ hd => hd) (fun _ _ hr => hr.elim) ?_ ?_
    fun _ _ => rfl
  · split
    · rename_i hnil
      refine ⟨hdisc, ?_⟩
      intro id s hb
      exact h.registry.ne_nil hb ((hget id s hb).trans hnil)
    · exact ⟨hdisc, hget⟩
  · left
    split <;> rfl

theorem Owned.remove (h : Owned c (.remove k id :: others))
    (hunheld : ∀ old ∈ c.sessionManager.findSession id, Unheld others old)
    (hexec : c.exec e (.remove k id) = some (c', t')) : Advances c c' t' others := by
  have hcons := h.registry.consistent
  obtain ⟨hdisc, honly⟩ := h.knows _ List.mem_cons_self
  simp only [Connections.exec, hcons.removeSession, Option.map_some] at hexec
  cases hexec
  refine h.move (h.registry.unbind ?_ rfl (fun _ hr => hr.elim) _) ?_ ⟨hdisc, ?_⟩ (.inl rfl)
    fun _ _ => rfl
  · exact ⟨rfl, rfl, rfl, rfl, rfl⟩
  · intro u hu
    exact h.spared_unbind ⟨rfl, rfl, rfl, rfl, rfl⟩ rfl hunheld hu
  · intro id' s hb
    obtain ⟨hne, hb⟩ := hcons.bound_unbind.mp hb
    exact hne (honly id' s hb)

theorem Owned.close (h : Owned c (.close k :: others))
    (hexec : c.exec e (.close k) = some (c', t')) : Advances c c' t' others := by
  obtain ⟨hdisc, hno⟩ := h.knows _ List.mem_cons_self
  cases hexec
  refine h.move_of_eq rfl rfl rfl ?_ (fun _ hd => hd) (fun _ _ hr => hr.elim) trivial (.inl rfl)
    fun _ _ => rfl
  intro k' id s hb
  have hne : k' ≠ k := by
    rintro rfl
    exact hno id s hb
  simpa [Function.update_of_ne hne] using h.registry.isOpen hb

end Disconnect

/-! ## Runs -/

theorem Owned.exec {e : Choice} (h : Owned c (t :: others)) (hok : t.Careful c others e)
    (hexec : c.exec e t = some (c', t')) : Advances c c' t' others := by
  cases t with
  | batch conn k point =>
    cases point with
    | lookup packets => exact h.lookup hexec
    | borrow packets => exact h.borrow hexec
    | register s packets => exact h.register hok hexec
    | dispatch s packets => exact h.dispatch hexec
    | authenticate s type id packets => exact h.authenticate hok hexec
    | granted s id packets => exact h.granted hexec
    | update s id packets => exact h.update hok.1 hok.2 hexec
    | logout s packets => exact h.logout hok hexec
    | finish => exact h.finish hexec
  | mark k => exact h.mark hexec
  | find k => exact h.find hexec
  | remove k id => exact h.remove hok hexec
  | close k => exact h.close hexec
  | done => cases hexec

theorem Owned.congr (h : Owned c threads) (hm : c'.sessionManager = c.sessionManager)
    (hauth : c'.authenticated = c.authenticated)
    (hopen : ∀ k, c.isOpen k = true → c'.isOpen k = true ∧ c'.connection k = c.connection k)
    (hconn : ∀ u ∈ threads, ∀ k, u.socket = some k → c'.connection k = c.connection k)
    (hdisc : ∀ u ∈ threads, ∀ k, u.socket = some k → c.disconnectedSockets k = true →
      c'.disconnectedSockets k = true)
    (hposted : ∀ k ∈ threads.filterMap Thread.batchSocket, c'.posted k = false) :
    Owned c' threads := by
  refine ⟨h.registry.congr hm ?_ ?_ fun _ _ hr => hr, ?_, h.batches, hposted⟩
  · intro k id s hb
    exact (hopen k (h.registry.isOpen hb)).1
  · intro k id s hb hconn'
    rw [hauth, (hopen k (h.registry.isOpen hb)).2]
    exact hconn'
  · intro u hu
    exact (h.knows u hu).mono (Thread.spared_of_eq hm (hconn u hu) (hdisc u hu))

theorem Owned.spawn (h : Owned c threads) (hknows : t.Knows c)
    (hbatch : ∀ k ∈ t.batchSocket, k ∉ threads.filterMap Thread.batchSocket ∧ c.posted k = false) :
    Owned c (threads ++ [t]) := by
  have hnodup : ((t :: threads).filterMap Thread.batchSocket).Nodup ∧
      ∀ k ∈ (t :: threads).filterMap Thread.batchSocket, c.posted k = false := by
    cases hk : t.batchSocket with
    | none =>
      rw [List.filterMap_cons_none hk]
      exact ⟨h.batches, h.posted⟩
    | some k =>
      rw [List.filterMap_cons_some hk]
      obtain ⟨hnot, hposted⟩ := hbatch k hk
      exact ⟨List.nodup_cons.mpr ⟨hnot, h.batches⟩, List.forall_mem_cons.mpr ⟨hposted, h.posted⟩⟩
  refine Owned.perm ?_ (List.perm_append_singleton t threads).symm
  refine ⟨?_, List.forall_mem_cons.mpr ⟨hknows, h.knows⟩, hnodup.1, hnodup.2⟩
  refine h.registry.congr rfl h.registry.isOpen (fun _ hconn => hconn) ?_
  intro s _ hren
  obtain ⟨u, hu, hren⟩ := hren
  exact ⟨u, List.mem_cons_of_mem t hu, hren⟩

theorem Owned.received (h : Owned c threads) (hc : c' = { c with
    posted := Function.update c.posted k false
    processed := none }) : Owned c' threads := by
  subst hc
  refine h.congr rfl rfl (fun _ hopen => ⟨hopen, rfl⟩) (fun _ _ _ _ => rfl)
    (fun _ _ _ _ hdisc => hdisc) ?_
  intro k' hk'
  by_cases heq : k' = k
  · subst heq
    simp
  · simpa [Function.update_of_ne heq] using h.posted k' hk'

theorem Owned.accept {w : Workers} {posted : Bool} (h : Owned w.shared w.calls)
    (hopen : w.shared.isOpen k = false) (hthreads : ∀ t ∈ w.calls, t.socket ≠ some k) :
    Owned (w.accept k posted).shared (w.accept k posted).calls := by
  have hne : ∀ u ∈ w.calls, ∀ k', u.socket = some k' → k' ≠ k := by
    rintro u hu k' hk' rfl
    exact hthreads u hu hk'
  have hbatch : ∀ u : Thread, ∀ k', u.batchSocket = some k' → u.socket = some k' := by
    intro u k' hk'
    cases u <;> simp_all [Thread.batchSocket, Thread.socket]
  simp only [Workers.accept]
  have haccepted : Owned { w.shared with
      disconnectedSockets := Function.update w.shared.disconnectedSockets k false
      isOpen := Function.update w.shared.isOpen k true
      posted := Function.update w.shared.posted k posted
      connection := Function.update w.shared.connection k w.shared.accepted
      accepted := w.shared.accepted + 1
      processed := none } w.calls := by
    refine h.congr rfl rfl ?_ ?_ ?_ ?_
    · intro k' hopen'
      have hk' : k' ≠ k := by
        rintro rfl
        rw [hopen] at hopen'
        cases hopen'
      simp [Function.update_of_ne hk', hopen']
    · intro u hu k' hk'
      simp [Function.update_of_ne (hne u hu k' hk')]
    · intro u hu k' hk' hdisc
      simp [Function.update_of_ne (hne u hu k' hk'), hdisc]
    · intro k' hk'
      obtain ⟨u, hu, hsocket⟩ := List.mem_filterMap.mp hk'
      have hk := hne u hu k' (hbatch u k' hsocket)
      simpa [Function.update_of_ne hk] using h.posted k' hk'
  cases posted with
  | true => exact haccepted
  | false => exact haccepted.spawn trivial fun k' hk' => by cases hk'

theorem Owned.step {w w' : Workers} {a : Workers.Action} (h : Owned w.shared w.calls)
    (hok : w.Careful a) (hstep : w.step a = some w') : Owned w'.shared w'.calls := by
  cases a with
  | accept k posted =>
    simp only [Workers.step] at hstep
    split at hstep
    · cases hstep
    · rename_i hopen
      cases hstep
      exact h.accept (by simpa using hopen) hok.2
  | receive k packets =>
    simp only [Workers.step] at hstep
    split at hstep
    · rename_i hposted
      cases hstep
      refine (h.received rfl).spawn ⟨rfl, ?_⟩ ?_
      · split <;> trivial
      · intro k' hk'
        cases hk'
        refine ⟨?_, by simp⟩
        -- a batch has its receive taken away
        intro hmem
        exact absurd hposted.1 (by simp [h.posted k hmem])
    · cases hstep
  | sendFailed k =>
    cases hstep
    have hsame : Owned { w.shared with processed := none } w.calls :=
      h.congr rfl rfl (fun _ hopen => ⟨hopen, rfl⟩) (fun _ _ _ _ => rfl)
        (fun _ _ _ _ hdisc => hdisc) h.posted
    exact hsame.spawn trivial fun k' hk' => by cases hk'
  | receiveFailed k =>
    simp only [Workers.step] at hstep
    split at hstep
    · cases hstep
      exact (h.received rfl).spawn trivial fun k' hk' => by cases hk'
    · cases hstep
  | run i e =>
    obtain ⟨t, t', hi, hperm, hperm', hexec⟩ := Config.run_spec hstep
    exact ((h.perm hperm).exec (hok t hi) hexec).owned.perm hperm'.symm

theorem owned_of_reaches {w : Workers} (hreach : Reaches Workers.step Workers.Careful .new w) :
    Owned w.shared w.calls := by
  apply hreach.invariant
  · exact owned_new
  · intro w a w' _ h hok hstep
    exact h.step hok hstep

/-- **A connection is authenticated by its own packets only.** -/
structure Workers.Honest (w : Workers) : Prop where
  /-- While a connection has had no authentication packet succeed, the session its packets are
  handled with does not pass `validateSessionHotPath`. -/
  handled : ∀ {conn k point s}, .batch conn k point ∈ w.calls → point.holds = some s →
    w.shared.authenticated conn = false →
    ∀ now, validateSessionHotPath now (w.shared.sessionManager.pool s) = false
  /-- A session that was handed out by `borrowSession` is clean. -/
  handedOut : ∀ {conn k s packets}, .batch conn k (.register s packets) ∈ w.calls →
    (w.shared.sessionManager.pool s).authState = .unauthenticated ∧
    ∀ id, w.shared.sessionManager.sessions id ≠ some (some s)
  /-- So is a session in the pool. -/
  free : ∀ {s}, s ∈ w.shared.sessionManager.freeIndices →
    (w.shared.sessionManager.pool s).authState = .unauthenticated ∧
    ∀ id, w.shared.sessionManager.sessions id ≠ some (some s)

/-- In every run whose steps are careful, connections are authenticated by their own packets
only. -/
theorem honest_of_careful {w : Workers} (hreach : Reaches Workers.step Workers.Careful .new w) :
    w.Honest := by
  have h := owned_of_reaches hreach
  constructor
  · intro conn k point s ht hs hconn now
    have hknows := h.knows _ ht
    have hunauth : (w.shared.sessionManager.pool s).authState = .unauthenticated := by
      by_contra hauth
      -- an authenticated session is registered, on the socket of the batch
      obtain ⟨k', id, hb, hauth⟩ := h.registry.authenticated hauth
      obtain ⟨k'', hk'', hsocket, -⟩ := hknows.holds hs
      cases hk''
      rw [hb.2.2] at hsocket
      subst hsocket
      rw [hknows.1, hauth] at hconn
      cases hconn
    simp [validateSessionHotPath, hunauth]
  · intro conn k s packets ht
    obtain ⟨-, -, hloose, -, hunauth, -⟩ := h.knows _ ht
    exact ⟨hunauth, hloose.2⟩
  · intro s hs
    exact ⟨h.registry.authState_of_free hs, h.registry.consistent.free s hs⟩

/-- Steps of one thread, in which authentication succeeds. -/
def turns (i n : ℕ) (user : AccountId) : List Workers.Action :=
  List.replicate n (.run i ⟨.granted user 100, 0, false⟩)

/-- A user logs in on one connection, while another connection has only sent a message. -/
def loginAndMessage : List Workers.Action :=
  [.accept 5 true, .receive 5 [some .pktLogin]] ++ turns 0 9 (.replicate 16 7) ++
    [.accept 6 true, .receive 6 [some .pktPrivateMessage]] ++ turns 1 3 (.replicate 16 7)

theorem honest_of_careful_two_connections :
    ∃ w : Workers, Reaches Workers.step Workers.Careful .new w ∧
      validateSessionHotPath 0 (w.shared.sessionManager.pool 0) = true ∧
      validateSessionHotPath 0 (w.shared.sessionManager.pool 1) = false := by
  obtain ⟨w, hrun, hcalls, hauth, hvalid⟩ := exists_run Workers.step .new loginAndMessage
    (fun w => w.calls = [.done, .batch 1 6 (.dispatch 1 [some .pktPrivateMessage])] ∧
      w.shared.authenticated 1 = false ∧
      validateSessionHotPath 0 (w.shared.sessionManager.pool 0) = true) (by decide +kernel)
  have hreach : Reaches Workers.step Workers.Careful .new w :=
    reaches_of_run (by decide +kernel) hrun
  have hmem : .batch 1 6 (.dispatch 1 [some .pktPrivateMessage]) ∈ w.calls := by simp [hcalls]
  exact ⟨w, hreach, hvalid, (honest_of_careful hreach).handled hmem rfl hauth 0⟩

/-- A batch goes on after a logout. -/
def loginAfterLogout : List Workers.Action :=
  [.accept 5 true, .receive 5 [some .pktLogin, some .pktLogout, some .pktLogin]] ++
    turns 0 11 (.replicate 16 7)

/-- **A login after a logout in the same batch authenticates a session in the pool.**  The
batch goes on with the session that the logout has given back. -/
theorem not_honest_login_after_logout :
    ∃ w, Transition.run Workers.step .new loginAfterLogout = some w ∧ ¬ w.Honest := by
  obtain ⟨w, hrun, hfree, hauth⟩ := exists_run Workers.step .new loginAfterLogout
    (fun w => 0 ∈ w.shared.sessionManager.freeIndices ∧
      (w.shared.sessionManager.pool 0).authState = .authenticated) (by decide +kernel)
  refine ⟨w, hrun, ?_⟩
  intro h
  have hclean := (h.free hfree).1
  rw [hauth] at hclean
  cases hclean

/-- A connection is closed while a thread is between `WSARecv` and `findBySocket`, and its
handle is used again. -/
def handleReused : List Workers.Action :=
  [.accept 5 true, .receive 5 [some .pktPrivateMessage], .sendFailed 5] ++
    turns 1 3 (.replicate 16 7) ++ [.accept 5 true, .receive 5 [some .pktLogin]] ++
    turns 2 9 (.replicate 16 7) ++ turns 0 1 (.replicate 16 7)

/-- **A handle that is used again lets the packets of one connection pass with the login of
another.** -/
theorem not_honest_handle_reused :
    ∃ w, Transition.run Workers.step .new handleReused = some w ∧ ¬ w.Honest := by
  obtain ⟨w, hrun, hcalls, hauth, hvalid⟩ := exists_run Workers.step .new handleReused
    (fun w => w.calls.head? = some (.batch 0 5 (.dispatch 0 [some .pktPrivateMessage])) ∧
      w.shared.authenticated 0 = false ∧
      validateSessionHotPath 0 (w.shared.sessionManager.pool 0) = true) (by decide +kernel)
  refine ⟨w, hrun, ?_⟩
  intro h
  have hinvalid := h.handled (List.mem_of_mem_head? hcalls) rfl hauth 0
  rw [hvalid] at hinvalid
  cases hinvalid

end IocpChat

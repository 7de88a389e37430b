import IocpChat.Session.SessionManager

/-!
# Which session a user has, and on which socket

`sessions`, `socketToUserId` and the field `socket` of the sessions record the same
thing: that a user has a session on a socket.  `Consistent` says that they agree.  Then
the calls of the manager make and end bindings, and each of them is described by the
bindings it leaves.

The manager does not see to it by itself.  A session that is registered again while it is
bound, or one whose socket is changed, leaves an entry behind.

## Main definitions

* `SessionManager.Bound` — a user has a session on a socket.
* `SessionManager.Consistent` — the maps record the bindings and nothing else.
* `SessionManager.unbind`, `SessionManager.rebind` — a binding ends, or gets another id.
* `SessionManager.Fits`, `SessionManager.ended` — what a call expects, and the bindings it ends.
-/

namespace IocpChat

namespace SessionManager

/-- The user has the session, and it is on the socket. -/
def Bound (m : SessionManager) (socket : Socket) (id : UserId) (s : SessionPtr) : Prop :=
  m.socketToUserId socket = some id ∧ m.sessions id = some (some s) ∧ (m.pool s).socket = socket

instance (m : SessionManager) (socket : Socket) (id : UserId) (s : SessionPtr) :
    Decidable (m.Bound socket id s) := inferInstanceAs (Decidable (_ ∧ _ ∧ _))

/-- **The maps agree.**  Their entries are those of the bindings, and a session in the pool
is in none. -/
structure Consistent (m : SessionManager) : Prop where
  socket : ∀ {socket id}, m.socketToUserId socket = some id → ∃ s, m.Bound socket id s
  session : ∀ {id entry}, m.sessions id = some entry →
    ∃ s, entry = some s ∧ m.Bound (m.pool s).socket id s
  free : ∀ s ∈ m.freeIndices, ∀ id, m.sessions id ≠ some (some s)
  nodup : m.freeIndices.Nodup

theorem consistent_new : new.Consistent := by
  constructor
  · intro socket id h
    cases h
  · intro id entry h
    cases h
  · intro s _ id h
    cases h
  · simp only [new]
    exact List.nodup_range

section Bound

variable {m : SessionManager} {k k' : Socket} {id id' : UserId} {s s' : SessionPtr}

theorem Consistent.bound (h : m.Consistent) (hs : m.sessions id = some (some s)) :
    m.Bound (m.pool s).socket id s := by
  obtain ⟨s', heq, hb⟩ := h.session hs
  cases heq
  exact hb

theorem Bound.eq_of_session (hb : m.Bound k id s) (hb' : m.Bound k' id' s) : k = k' ∧ id = id' := by
  have hk : k = k' := hb.2.2.symm.trans hb'.2.2
  subst hk
  exact ⟨rfl, Option.some.inj (hb.1.symm.trans hb'.1)⟩

theorem Bound.eq_of_socket (hb : m.Bound k id s) (hb' : m.Bound k id' s') : id = id' ∧ s = s' := by
  have hid : id = id' := Option.some.inj (hb.1.symm.trans hb'.1)
  subst hid
  exact ⟨rfl, by simpa using hb.2.1.symm.trans hb'.2.1⟩

theorem Bound.eq_of_id (hb : m.Bound k id s) (hb' : m.Bound k' id s') : k = k' ∧ s = s' := by
  have hs : s = s' := by simpa using hb.2.1.symm.trans hb'.2.1
  subst hs
  exact ⟨hb.2.2.symm.trans hb'.2.2, rfl⟩

theorem Consistent.not_mem_free (h : m.Consistent) (hb : m.Bound k id s) : s ∉ m.freeIndices :=
  fun hmem => h.free s hmem id hb.2.1

theorem Consistent.sessions_eq_none (h : m.Consistent) (hno : ∀ k s, ¬ m.Bound k id s) :
    m.sessions id = none := by
  cases hentry : m.sessions id with
  | none => rfl
  | some entry =>
    obtain ⟨s, -, hb⟩ := h.session hentry
    exact absurd hb (hno _ s)

theorem Consistent.socketToUserId_eq_none (h : m.Consistent) (hno : ∀ id s, ¬ m.Bound k id s) :
    m.socketToUserId k = none := by
  cases hentry : m.socketToUserId k with
  | none => rfl
  | some id =>
    obtain ⟨s, hb⟩ := h.socket hentry
    exact absurd hb (hno id s)

/-- `findBySocket` makes no entry, and finds the session that is bound to the socket. -/
theorem Consistent.findBySocket (h : m.Consistent) (k : Socket) :
    (m.findBySocket k = (m, none) ∧ ∀ id s, ¬ m.Bound k id s) ∨
      ∃ id s, m.Bound k id s ∧ m.findBySocket k = (m, some s) := by
  cases hentry : m.socketToUserId k with
  | none =>
    left
    refine ⟨by simp [SessionManager.findBySocket, hentry], ?_⟩
    intro id s hb
    rw [hb.1] at hentry
    cases hentry
  | some id =>
    right
    obtain ⟨s, hb⟩ := h.socket hentry
    exact ⟨id, s, hb, by simp [SessionManager.findBySocket, hentry, hb.2.1]⟩

end Bound

/-! ## Making a binding -/

section Add

variable {m : SessionManager} {k : Socket} {id id' : UserId} {s s' : SessionPtr}

/-- A session that is not bound is registered, on a socket and under an id that are not
bound. -/
theorem Consistent.bound_addSession (h : m.Consistent) (hid : m.sessions id = none)
    (hsocket : m.socketToUserId (m.pool s).socket = none) :
    (m.addSession id s).Bound k id' s' ↔
      (k = (m.pool s).socket ∧ id' = id ∧ s' = s) ∨ m.Bound k id' s' := by
  constructor
  · rintro ⟨hsocket', hsession, hpool⟩
    by_cases heq : id' = id
    · subst heq
      have hs : s = s' := by simpa [addSession] using hsession
      subst hs
      exact .inl ⟨hpool.symm, rfl, rfl⟩
    · right
      have hsession' : m.sessions id' = some (some s') := by
        simpa [addSession, Function.update_of_ne heq] using hsession
      have hb := h.bound hsession'
      have hpool' : (m.pool s').socket = k := hpool
      rwa [hpool'] at hb
  · rintro (⟨rfl, rfl, rfl⟩ | hb)
    · simp [Bound, addSession]
    · have hne : id' ≠ id := by
        rintro rfl
        rw [hb.2.1] at hid
        cases hid
      have hk : k ≠ (m.pool s).socket := by
        rintro rfl
        rw [hb.1] at hsocket
        cases hsocket
      simpa [Bound, addSession, Function.update_of_ne hne, Function.update_of_ne hk] using hb

theorem Consistent.addSession (h : m.Consistent) (hid : m.sessions id = none)
    (hsocket : m.socketToUserId (m.pool s).socket = none) (hfree : s ∉ m.freeIndices) :
    (m.addSession id s).Consistent := by
  constructor
  · intro socket id' hentry
    by_cases hk : socket = (m.pool s).socket
    · subst hk
      have heq : id = id' := by simpa [SessionManager.addSession] using hentry
      exact ⟨s, (h.bound_addSession hid hsocket).mpr (.inl ⟨rfl, heq.symm, rfl⟩)⟩
    · have hentry' : m.socketToUserId socket = some id' := by
        simpa [SessionManager.addSession, Function.update_of_ne hk] using hentry
      obtain ⟨s', hb⟩ := h.socket hentry'
      exact ⟨s', (h.bound_addSession hid hsocket).mpr (.inr hb)⟩
  · intro id' entry hentry
    by_cases heq : id' = id
    · subst heq
      have hs : some s = entry := by simpa [SessionManager.addSession] using hentry
      exact ⟨s, hs.symm, (h.bound_addSession hid hsocket).mpr (.inl ⟨rfl, rfl, rfl⟩)⟩
    · have hentry' : m.sessions id' = some entry := by
        simpa [SessionManager.addSession, Function.update_of_ne heq] using hentry
      obtain ⟨s', rfl, hb⟩ := h.session hentry'
      exact ⟨s', rfl, (h.bound_addSession hid hsocket).mpr (.inr hb)⟩
  · intro s' hs' id' hentry
    by_cases heq : id' = id
    · subst heq
      have hs : s = s' := by simpa [SessionManager.addSession] using hentry
      exact hfree (hs ▸ hs')
    · have hentry' : m.sessions id' = some (some s') := by
        simpa [SessionManager.addSession, Function.update_of_ne heq] using hentry
      exact h.free s' hs' id' hentry'
  · exact h.nodup

end Add

/-! ## Changing a session -/

def modifySession (m : SessionManager) (s : SessionPtr) (f : Session → Session) : SessionManager :=
  { m with pool := Function.update m.pool s (f (m.pool s)) }

section Modify

variable {m : SessionManager} {k : Socket} {id : UserId} {s s' : SessionPtr} {f : Session → Session}

@[simp] theorem pool_modifySession_self : (m.modifySession s f).pool s = f (m.pool s) :=
  Function.update_self ..

theorem pool_modifySession_of_ne (h : s' ≠ s) : (m.modifySession s f).pool s' = m.pool s' :=
  Function.update_of_ne h ..

/-- Writing to a session does not change the bindings if it is not bound, or if it stays
on its socket. -/
theorem bound_modifySession
    (hf : m.sessions id = some (some s) → (f (m.pool s)).socket = (m.pool s).socket) :
    (m.modifySession s f).Bound k id s' ↔ m.Bound k id s' := by
  by_cases hs : s' = s
  · subst hs
    constructor
    · rintro ⟨hsocket, hsession, hpool⟩
      rw [pool_modifySession_self, hf hsession] at hpool
      exact ⟨hsocket, hsession, hpool⟩
    · rintro ⟨hsocket, hsession, hpool⟩
      refine ⟨hsocket, hsession, ?_⟩
      rw [pool_modifySession_self, hf hsession, hpool]
  · simp only [Bound, pool_modifySession_of_ne hs]
    rfl

theorem Consistent.modifySession (h : m.Consistent)
    (hf : ∀ id, m.sessions id = some (some s) → (f (m.pool s)).socket = (m.pool s).socket) :
    (m.modifySession s f).Consistent := by
  constructor
  · intro socket id hentry
    obtain ⟨s', hb⟩ := h.socket hentry
    exact ⟨s', (bound_modifySession (hf id)).mpr hb⟩
  · intro id entry hentry
    obtain ⟨s', rfl, hb⟩ := h.session hentry
    refine ⟨s', rfl, ?_⟩
    have hb' := (bound_modifySession (hf id)).mpr hb
    rwa [← hb'.2.2] at hb'
  · exact h.free
  · exact h.nodup

theorem bound_returnSession (hs : ∀ id, m.sessions id ≠ some (some s)) :
    (m.returnSession s).Bound k id s' ↔ m.Bound k id s' :=
  bound_modifySession (m := m) (f := Session.cleared) fun hentry => absurd hentry (hs id)

theorem Consistent.returnSession (h : m.Consistent) (hs : ∀ id, m.sessions id ≠ some (some s))
    (hfree : s ∉ m.freeIndices) : (m.returnSession s).Consistent := by
  have hmod : (m.modifySession s Session.cleared).Consistent :=
    h.modifySession fun id hentry => absurd hentry (hs id)
  refine { hmod with free := ?_, nodup := ?_ }
  · exact List.forall_mem_append.mpr ⟨h.free, List.forall_mem_singleton.mpr hs⟩
  · refine List.Nodup.append h.nodup (List.nodup_singleton s) ?_
    intro s' hs' hmem
    exact hfree (List.mem_singleton.mp hmem ▸ hs')

end Modify

/-! ## Ending a binding -/

/-- The two entries of a binding are erased. -/
def release (m : SessionManager) (socket : Socket) (id : UserId) : SessionManager :=
  (m.eraseSocket socket).eraseSession id

section Release

variable {m : SessionManager} {k k' : Socket} {id id' : UserId} {s s' : SessionPtr}

theorem sessions_release (m : SessionManager) (k : Socket) (id id' : UserId) :
    (m.release k id).sessions id' = if id' = id then none else m.sessions id' := by
  simp [release, eraseSession, eraseSocket, Function.update_apply]

theorem socketToUserId_release (m : SessionManager) (k k' : Socket) (id : UserId) :
    (m.release k id).socketToUserId k' = if k' = k then none else m.socketToUserId k' := by
  simp [release, eraseSession, eraseSocket, Function.update_apply]

/-- **The bindings that are left.** -/
theorem Consistent.bound_release (h : m.Consistent) (hb : m.Bound k id s) :
    (m.release k id).Bound k' id' s' ↔ id' ≠ id ∧ m.Bound k' id' s' := by
  simp only [Bound, sessions_release, socketToUserId_release]
  constructor
  · rintro ⟨-, hsession, hpool⟩
    split at hsession
    · cases hsession
    · rename_i hid
      have hb' := h.bound hsession
      have hpool' : (m.pool s').socket = k' := hpool
      rw [hpool'] at hb'
      exact ⟨hid, hb'⟩
  · rintro ⟨hid, hb'⟩
    have hk : k' ≠ k := by
      rintro rfl
      exact hid (Bound.eq_of_socket hb' hb).1
    rw [if_neg hk, if_neg hid]
    exact hb'

theorem Consistent.release (h : m.Consistent) (hb : m.Bound k id s) : (m.release k id).Consistent := by
  constructor
  · intro k' id' hentry
    rw [socketToUserId_release] at hentry
    split at hentry
    · cases hentry
    · rename_i hk
      obtain ⟨s', hb'⟩ := h.socket hentry
      refine ⟨s', (h.bound_release hb).mpr ⟨?_, hb'⟩⟩
      rintro rfl
      exact hk (hb'.eq_of_id hb).1
  · intro id' entry hentry
    rw [sessions_release] at hentry
    split at hentry
    · cases hentry
    · rename_i hid
      obtain ⟨s', rfl, hb'⟩ := h.session hentry
      exact ⟨s', rfl, (h.bound_release hb).mpr ⟨hid, hb'⟩⟩
  · intro s' hs' id' hentry
    rw [sessions_release] at hentry
    split at hentry
    · cases hentry
    · exact h.free s' hs' id' hentry
  · exact h.nodup

theorem Consistent.sessions_release_ne (h : m.Consistent) (hb : m.Bound k id s) (id' : UserId) :
    (m.release k id).sessions id' ≠ some (some s) := by
  rw [sessions_release]
  split
  · simp
  · rename_i hid
    intro hentry
    exact hid ((h.bound hentry).eq_of_session hb).2

end Release

/-- The session of a user is ended and goes back to the pool. -/
def unbind (m : SessionManager) (id : UserId) : SessionManager :=
  match m.findSession id with
  | none => m
  | some s => (m.release (m.pool s).socket id).returnSession s

section Unbind

variable {m : SessionManager} {k : Socket} {id id' : UserId} {s : SessionPtr}

theorem unbind_of_none (h : m.sessions id = none) : m.unbind id = m := by
  simp [unbind, findSession, h]

theorem unbind_of_bound (h : m.Bound k id s) : m.unbind id = (m.release k id).returnSession s := by
  simp [unbind, findSession, h.2.1, h.2.2]

theorem Consistent.none_or_bound (h : m.Consistent) (id : UserId) :
    m.sessions id = none ∨ ∃ k s, m.Bound k id s := by
  cases hentry : m.sessions id with
  | none => exact .inl rfl
  | some entry =>
    obtain ⟨s, -, hb⟩ := h.session hentry
    exact .inr ⟨_, s, hb⟩

theorem Consistent.removeSession (h : m.Consistent) (id : UserId) :
    m.removeSession id = some (m.unbind id) := by
  unfold SessionManager.removeSession
  rcases h.none_or_bound id with hnone | ⟨k, s, hb⟩
  · rw [hnone, unbind_of_none hnone]
  · rw [unbind_of_bound hb, hb.2.1, ← hb.2.2]
    rfl

theorem Consistent.bound_unbind (h : m.Consistent) :
    (m.unbind id).Bound k id' s ↔ id' ≠ id ∧ m.Bound k id' s := by
  rcases h.none_or_bound id with hnone | ⟨k, s, hb⟩
  · rw [unbind_of_none hnone]
    refine ⟨fun hb => ⟨?_, hb⟩, fun hb => hb.2⟩
    rintro rfl
    rw [hb.2.1] at hnone
    cases hnone
  · rw [unbind_of_bound hb, bound_returnSession (h.sessions_release_ne hb), h.bound_release hb]

theorem Consistent.unbind (h : m.Consistent) (id : UserId) : (m.unbind id).Consistent := by
  rcases h.none_or_bound id with hnone | ⟨k, s, hb⟩
  · rw [unbind_of_none hnone]
    exact h
  · rw [unbind_of_bound hb]
    exact (h.release hb).returnSession (h.sessions_release_ne hb) (h.not_mem_free hb)

theorem pool_unbind (hs : m.sessions id ≠ some (some s)) : (m.unbind id).pool s = m.pool s := by
  unfold SessionManager.unbind findSession
  cases hentry : m.sessions id with
  | none => rfl
  | some entry =>
    cases entry with
    | none => rfl
    | some old =>
      have hne : s ≠ old := by
        rintro rfl
        exact hs hentry
      exact Function.update_of_ne hne ..

theorem pool_unbind_self (hb : m.Bound k id s) : (m.unbind id).pool s = (m.pool s).cleared := by
  rw [unbind_of_bound hb]
  exact Function.update_self ..

theorem mem_free_unbind :
    s ∈ (m.unbind id).freeIndices ↔ s ∈ m.freeIndices ∨ m.sessions id = some (some s) := by
  unfold SessionManager.unbind findSession
  cases hentry : m.sessions id with
  | none => simp
  | some entry =>
    cases entry with
    | none => simp
    | some old => simp [release, eraseSession, returnSession, eraseSocket, eq_comm]

end Unbind

/-! ## Changing the id of a binding -/

/-- A session gets the id it has now, and an older session of the user is ended. -/
def rebind (m : SessionManager) (socket : Socket) (id : UserId) (s : SessionPtr) : SessionManager :=
  (((m.unbind (m.pool s).userId).release socket id).addSession (m.pool s).userId s).modifySession s
    fun session => { session with updated := true }

section Rebind

variable {m : SessionManager} {k k' : Socket} {id id' : UserId} {s s' : SessionPtr}

theorem Consistent.sessions_userId (h : m.Consistent) (hb : m.Bound k id s)
    (hne : (m.pool s).userId ≠ id) : m.sessions (m.pool s).userId ≠ some (some s) :=
  fun hentry => hne ((h.bound hentry).eq_of_session hb).2

theorem Consistent.takeOver (h : m.Consistent) (hb : m.Bound k id s)
    (hne : (m.pool s).userId ≠ id) : m.takeOver s = some (m.unbind (m.pool s).userId) := by
  unfold SessionManager.takeOver
  rcases h.none_or_bound (m.pool s).userId with hnone | ⟨k', old, hold⟩
  · simp only [hnone, unbind_of_none]
  · have hk : (m.pool s).socket ≠ (m.pool old).socket := by
      intro hk
      rw [hb.2.2, hold.2.2] at hk
      subst hk
      exact hne (hold.eq_of_socket hb).1
    simp only [hold.2.1, if_pos hk, unbind_of_bound hold, ← hold.2.2]
    rfl

theorem Consistent.updateNewId (h : m.Consistent) (hb : m.Bound k id s)
    (hne : (m.pool s).userId ≠ id) : m.updateNewId id s = some (m.rebind k id s) := by
  have hpool := pool_unbind (h.sessions_userId hb hne)
  unfold SessionManager.updateNewId
  rw [h.takeOver hb hne, Option.map_some, hpool]
  simp only [SessionManager.rebind, SessionManager.release, SessionManager.addSession, eraseSession,
    eraseSocket, SessionManager.modifySession, hpool, hb.2.2, Function.update_idem]

/-- Where the session is registered again, neither its socket nor its new id is bound. -/
theorem Consistent.release_unbind (h : m.Consistent) (hb : m.Bound k id s)
    (hne : (m.pool s).userId ≠ id) :
    ((m.unbind (m.pool s).userId).release k id).Consistent ∧
      ((m.unbind (m.pool s).userId).release k id).sessions (m.pool s).userId = none ∧
      ((m.unbind (m.pool s).userId).release k id).socketToUserId
        (((m.unbind (m.pool s).userId).release k id).pool s).socket = none := by
  have hb' : (m.unbind (m.pool s).userId).Bound k id s := h.bound_unbind.mpr ⟨hne.symm, hb⟩
  refine ⟨(h.unbind _).release hb', ?_, ?_⟩
  · rw [sessions_release, if_neg hne]
    apply (h.unbind _).sessions_eq_none
    intro k' s' hold
    exact (h.bound_unbind.mp hold).1 rfl
  · have hpool : ((m.unbind (m.pool s).userId).release k id).pool s =
        (m.unbind (m.pool s).userId).pool s := rfl
    rw [hpool, hb'.2.2, socketToUserId_release, if_pos rfl]

theorem Consistent.bound_rebind (h : m.Consistent) (hb : m.Bound k id s)
    (hne : (m.pool s).userId ≠ id) :
    (m.rebind k id s).Bound k' id' s' ↔
      (k' = k ∧ id' = (m.pool s).userId ∧ s' = s) ∨
        (id' ≠ (m.pool s).userId ∧ id' ≠ id ∧ m.Bound k' id' s') := by
  have hb' : (m.unbind (m.pool s).userId).Bound k id s := h.bound_unbind.mpr ⟨hne.symm, hb⟩
  obtain ⟨hcons, hid, hsocket⟩ := h.release_unbind hb hne
  have hk : (((m.unbind (m.pool s).userId).release k id).pool s).socket = k := hb'.2.2
  rw [rebind, bound_modifySession (fun _ => rfl), hcons.bound_addSession hid hsocket, hk,
    (h.unbind _).bound_release hb', h.bound_unbind]
  tauto

theorem Consistent.rebind (h : m.Consistent) (hb : m.Bound k id s)
    (hne : (m.pool s).userId ≠ id) : (m.rebind k id s).Consistent := by
  obtain ⟨hcons, hid, hsocket⟩ := h.release_unbind hb hne
  refine (hcons.addSession hid hsocket ?_).modifySession fun _ _ => rfl
  intro hfree
  rcases mem_free_unbind.mp hfree with hfree | hold
  · exact h.not_mem_free hb hfree
  · exact h.sessions_userId hb hne hold

theorem pool_rebind_of_ne (hs : s' ≠ s) (hold : m.sessions (m.pool s).userId ≠ some (some s')) :
    (m.rebind k id s).pool s' = m.pool s' :=
  (pool_modifySession_of_ne hs).trans (pool_unbind hold)

theorem Consistent.pool_rebind_self (h : m.Consistent) (hb : m.Bound k id s)
    (hne : (m.pool s).userId ≠ id) :
    (m.rebind k id s).pool s = { m.pool s with updated := true } := by
  have hpool := pool_unbind (h.sessions_userId hb hne)
  simp only [SessionManager.rebind, pool_modifySession_self]
  exact congrArg (fun session : Session => { session with updated := true }) hpool

end Rebind

/-! ## Borrowing a session -/

/-- A session is taken from the pool and prepared. -/
def lend (m : SessionManager) (s : SessionPtr) (rest : List SessionPtr) (f : Session → Session) :
    SessionManager :=
  { m.modifySession s f with freeIndices := rest }

section Lend

variable {m m' : SessionManager} {k : Socket} {id : UserId} {s s' : SessionPtr}
  {rest : List SessionPtr} {f g : Session → Session}

theorem borrowSession_eq (h : m.borrowSession k = some (m', s)) :
    m.freeIndices = s :: m'.freeIndices ∧
      m' = m.lend s m'.freeIndices fun session => { session with socket := k } := by
  unfold borrowSession at h
  split at h
  · cases h
  · rename_i hfree
    cases h
    exact ⟨hfree, rfl⟩

theorem modifySession_lend : (m.lend s rest f).modifySession s g = m.lend s rest (g ∘ f) := by
  simp [lend, modifySession]

theorem Consistent.bound_lend (h : m.Consistent) (hfree : s ∈ m.freeIndices) :
    (m.lend s rest f).Bound k id s' ↔ m.Bound k id s' :=
  bound_modifySession fun hentry => absurd hentry (h.free s hfree id)

theorem Consistent.lend (h : m.Consistent) (hfree : m.freeIndices = s :: rest) :
    (m.lend s rest f).Consistent := by
  have hmem : s ∈ m.freeIndices := hfree ▸ List.mem_cons_self
  have hmod : (m.modifySession s f).Consistent :=
    h.modifySession fun id hentry => absurd hentry (h.free s hmem id)
  refine { hmod with free := ?_, nodup := ?_ }
  · intro s' hs' id
    exact h.free s' (hfree ▸ List.mem_cons_of_mem s hs') id
  · exact (List.nodup_cons.mp (hfree ▸ h.nodup)).2

end Lend

/-! ## The calls -/

/-- The call is made for a session that is bound or not bound, as the call expects. -/
def Fits (m : SessionManager) : SessionOp → Prop
  | .addSession id s =>
    m.sessions id = none ∧ m.socketToUserId (m.pool s).socket = none ∧ s ∉ m.freeIndices
  | .updateNewId id s => m.sessions id = some (some s) ∧ (m.pool s).userId ≠ id
  | _ => True

instance (m : SessionManager) (op : SessionOp) : Decidable (m.Fits op) := by
  unfold Fits
  split <;> infer_instance

/-- The users whose binding ends with the call. -/
def ended (m : SessionManager) : SessionOp → List UserId
  | .updateNewId id s => [id, (m.pool s).userId]
  | .removeSession id => [id]
  | .removeBySocket socket => [m.getUserIdBySocket socket]
  | _ => []

section Apply

variable {m m' : SessionManager} {k : Socket} {id : UserId} {s : SessionPtr}

theorem Consistent.removeBySocket (h : m.Consistent) (k : Socket) :
    m.removeBySocket k = m ∨ m.removeBySocket k = m.unbind (m.getUserIdBySocket k) := by
  unfold SessionManager.removeBySocket
  cases hentry : m.socketToUserId k with
  | none => exact .inl rfl
  | some id =>
    obtain ⟨s, hb⟩ := h.socket hentry
    have hsession : (m.eraseSocket k).sessions id = some (some s) := hb.2.1
    right
    simp only [getUserIdBySocket, hentry, Option.getD_some, hsession, unbind_of_bound hb]
    rfl

/-- **A call that fits keeps the maps consistent, and ends the bindings of the users it
names only.** -/
theorem Consistent.apply {op : SessionOp} (h : m.Consistent) (hfits : m.Fits op)
    (happly : m.apply op = some m') :
    m'.Consistent ∧ ∀ {k id s}, id ∉ m.ended op → m.Bound k id s → m'.Bound k id s := by
  have hunbind : ∀ id, (m.unbind id).Consistent ∧
      ∀ {k id' s}, id' ∉ [id] → m.Bound k id' s → (m.unbind id).Bound k id' s := by
    intro id
    refine ⟨h.unbind id, ?_⟩
    intro k id' s hid hb
    exact h.bound_unbind.mpr ⟨by simpa using hid, hb⟩
  cases op with
  | borrowSession k =>
    obtain ⟨⟨m₁, s⟩, hborrow, hm⟩ := Option.map_eq_some_iff.mp happly
    obtain ⟨hfree, hlend⟩ := borrowSession_eq hborrow
    cases (show m₁ = m' from hm)
    rw [hlend]
    refine ⟨h.lend hfree, ?_⟩
    intro k id s' _ hb
    exact (h.bound_lend (hfree ▸ List.mem_cons_self)).mpr hb
  | setUserId s id =>
    have hm : m' = m.modifySession s fun session => { session with userId := id } :=
      (Option.some.inj happly).symm
    subst hm
    refine ⟨h.modifySession fun _ _ => rfl, ?_⟩
    intro k id' s' _ hb
    exact (bound_modifySession fun _ => rfl).mpr hb
  | addSession id s =>
    cases happly
    obtain ⟨hid, hsocket, hfree⟩ := hfits
    refine ⟨h.addSession hid hsocket hfree, ?_⟩
    intro k id' s' _ hb
    exact (h.bound_addSession hid hsocket).mpr (.inr hb)
  | updateNewId id s =>
    have hb := h.bound hfits.1
    rw [SessionManager.apply, h.updateNewId hb hfits.2] at happly
    cases happly
    refine ⟨h.rebind hb hfits.2, ?_⟩
    intro k id' s' hid hb'
    simp [ended, not_or] at hid
    exact (h.bound_rebind hb hfits.2).mpr (.inr ⟨hid.2, hid.1, hb'⟩)
  | removeSession id =>
    rw [SessionManager.apply, h.removeSession] at happly
    cases happly
    exact hunbind id
  | removeBySocket k =>
    cases happly
    rcases h.removeBySocket k with heq | heq
    · rw [heq]
      exact ⟨h, fun _ hb => hb⟩
    · rw [heq]
      exact hunbind _
  | findBySocket k =>
    cases happly
    have hm : (m.findBySocket k).1 = m := by
      rcases h.findBySocket k with ⟨hfind, -⟩ | ⟨_, _, -, hfind⟩ <;> rw [hfind]
    rw [hm]
    exact ⟨h, fun _ hb => hb⟩

end Apply

end SessionManager

end IocpChat

import IocpChat.Network.Connections

/-!
# Sessions and the connections that use them

A worker thread keeps the session of a batch in a variable while it handles the packets,
without a lock.  What it relies on is that the session stays registered on the socket of
the batch, or out of everybody's reach until it is registered.  `Thread.Knows` says this
for each point of a thread, and `Owned` says it of all threads, together with what the
registry of sessions then satisfies.

A change of the sessions is shown to keep the registry (`Registry`), and to go unnoticed by
the threads that did not make it (`Thread.Spared`).  `Owned.move` puts the two together.

## Main definitions

* `Handling.holds` — the session that a batch still has packets for.
* `Thread.Spared`, `Advances`, `Owned.move` — a step of one thread.
-/

namespace IocpChat

open Transition SessionManager

/-! ## What the threads hold -/

/-- The session that the packets of a batch are still to be handled with. -/
def Handling.holds : Handling → Option SessionPtr
  | .register s _ => some s
  | .dispatch s (_ :: _) => some s
  | .authenticate s _ _ _ => some s
  | .granted s _ _ => some s
  | .update s _ _ => some s
  | .logout s _ => some s
  | .lookup _ | .borrow _ | .dispatch _ [] | .finish => none

/-- The session is about to get another id. -/
def Handling.Renames (s : SessionPtr) : Handling → Prop
  | .granted s' _ _ => s' = s
  | .update s' _ _ => s' = s
  | _ => False

namespace Thread

def holds : Thread → Option SessionPtr
  | .batch _ _ point => point.holds
  | _ => none

def socket : Thread → Option Socket
  | .batch _ k _ => some k
  | .mark k => some k
  | .find k => some k
  | .remove k _ => some k
  | .close k => some k
  | .done => none

def batchSocket : Thread → Option Socket
  | .batch _ k _ => some k
  | _ => none

def Renames (s : SessionPtr) : Thread → Prop
  | .batch _ _ point => point.Renames s
  | _ => False

end Thread

/-- None of the threads has packets left to handle with the session. -/
def Unheld (threads : List Thread) (s : SessionPtr) : Prop := ∀ t ∈ threads, t.holds ≠ some s

instance (threads : List Thread) (s : SessionPtr) : Decidable (Unheld threads s) :=
  inferInstanceAs (Decidable (∀ t ∈ threads, _))

/-- The connection on the socket is open, and nobody has begun to disconnect it. -/
def Connections.Live (c : Connections) (k : Socket) : Prop :=
  c.isOpen k = true ∧ c.disconnectedSockets k = false

instance (c : Connections) (k : Socket) : Decidable (c.Live k) :=
  inferInstanceAs (Decidable (_ ∧ _))

/-! ## The invariant -/

section Knows

variable (c : Connections) (k : Socket)

/-- The session is neither in the pool nor registered. -/
def Connections.Loose (s : SessionPtr) : Prop :=
  s ∉ c.sessionManager.freeIndices ∧ ∀ id, c.sessionManager.sessions id ≠ some (some s)

/-- No session is registered on the socket. -/
def Connections.Unbound : Prop := ∀ id s, ¬ c.sessionManager.Bound k id s

/-- What a batch of packets from a socket relies on. -/
def Handling.Knows : Handling → Prop
  | .borrow _ => c.Unbound k
  | .register s _ =>
    c.Unbound k ∧ c.Loose s ∧ (c.sessionManager.pool s).socket = k ∧
    (c.sessionManager.pool s).authState = .unauthenticated ∧
    (c.sessionManager.pool s).userId = tempId k
  | .dispatch s (_ :: _) =>
    (∃ id, c.sessionManager.Bound k id s) ∧
    ((c.sessionManager.pool s).updated = false → (c.sessionManager.pool s).userId = tempId k)
  | .authenticate s _ id _ =>
    (∃ id', c.sessionManager.Bound k id' s) ∧ (c.sessionManager.pool s).userId = id ∧
    ((c.sessionManager.pool s).updated = false → id = tempId k)
  | .granted s id _ =>
    (∃ id', c.sessionManager.Bound k id' s) ∧
    ((c.sessionManager.pool s).updated = false → id = tempId k) ∧
    (c.sessionManager.pool s).userId = toHex (c.sessionManager.pool s).cachedUserId
  | .update s id _ =>
    (∃ id', c.sessionManager.Bound k id' s) ∧
    (c.sessionManager.pool s).updated = false ∧ id = tempId k ∧
    (c.sessionManager.pool s).userId = toHex (c.sessionManager.pool s).cachedUserId
  | .logout s _ =>
    (∃ id, c.sessionManager.Bound k id s) ∧
    ((c.sessionManager.pool s).updated = false → (c.sessionManager.pool s).userId = tempId k)
  | .lookup _ | .dispatch _ [] | .finish => True

end Knows

def Thread.Knows (c : Connections) : Thread → Prop
  | .batch conn k point => conn = c.connection k ∧ point.Knows c k
  | .find k => c.disconnectedSockets k = true
  | .remove k id => c.disconnectedSockets k = true ∧
      ∀ id' s, c.sessionManager.Bound k id' s → id' = id
  | .close k => c.disconnectedSockets k = true ∧ c.Unbound k
  | .mark _ | .done => True

/-- The sessions that are registered. -/
structure Registry (c : Connections) (threads : List Thread) : Prop where
  consistent : c.sessionManager.Consistent
  /-- A session is registered on a socket that is in use, under its temporary id or the id
  of a user. -/
  isOpen : ∀ {k id s}, c.sessionManager.Bound k id s → c.isOpen k = true
  key : ∀ {k id s}, c.sessionManager.Bound k id s → id = tempId k ∨ ∃ user, id = toHex user
  /-- A session that `updateNewId` has never seen is registered under the temporary id, which
  it has until it is renamed. -/
  temporary : ∀ {k id s}, c.sessionManager.Bound k id s →
    (c.sessionManager.pool s).updated = false →
    id = tempId k ∧ ((c.sessionManager.pool s).userId = tempId k ∨ ∃ t ∈ threads, t.Renames s)
  /-- A session that is authenticated is registered, for a connection that has
  authenticated itself. -/
  authenticated : ∀ {s}, (c.sessionManager.pool s).authState ≠ .unauthenticated →
    ∃ k id, c.sessionManager.Bound k id s ∧ c.authenticated (c.connection k) = true

/-- **Sessions belong to the connections that use them.** -/
structure Owned (c : Connections) (threads : List Thread) : Prop where
  registry : Registry c threads
  knows : ∀ t ∈ threads, t.Knows c
  /-- A connection has one batch at a time. -/
  batches : (threads.filterMap Thread.batchSocket).Nodup
  posted : ∀ k ∈ threads.filterMap Thread.batchSocket, c.posted k = false

theorem owned_new : Owned .new [] := by
  refine ⟨?_, by simp, by simp, by simp⟩
  have hunbound : ∀ {k id s}, ¬ Connections.new.sessionManager.Bound k id s := by
    intro k id s h
    cases h.1
  constructor
  · exact consistent_new
  · exact fun h => absurd h hunbound
  · exact fun h => absurd h hunbound
  · exact fun h => absurd h hunbound
  · intro s h
    exact absurd rfl h

section Threads

variable {c c' : Connections} {t t' u : Thread} {others threads threads' : List Thread}
  {k : Socket} {id : UserId} {s : SessionPtr}

theorem Owned.perm (h : Owned c threads) (hperm : threads.Perm threads') : Owned c threads' := by
  constructor
  · refine { h.registry with temporary := ?_ }
    intro k id s hb hupdated
    obtain ⟨hid, huser⟩ := h.registry.temporary hb hupdated
    exact ⟨hid, huser.imp_right fun ⟨t, ht, hren⟩ => ⟨t, hperm.mem_iff.mp ht, hren⟩⟩
  · exact fun t ht => h.knows t (hperm.mem_iff.mpr ht)
  · exact (hperm.filterMap _).nodup_iff.mp h.batches
  · exact fun k hk => h.posted k ((hperm.filterMap _).mem_iff.mpr hk)

/-- The socket whose bindings the thread relies on. -/
def Thread.guards : Thread → Option Socket
  | .batch _ k _ => some k
  | .remove k _ => some k
  | .close k => some k
  | .mark _ | .find _ | .done => none

/-- The thread does not notice a change. -/
structure Thread.Spared (c c' : Connections) (t : Thread) : Prop where
  connection : ∀ k, t.socket = some k → c'.connection k = c.connection k
  disconnected : ∀ k, t.socket = some k → c.disconnectedSockets k = true →
    c'.disconnectedSockets k = true
  bound : ∀ k, t.guards = some k → ∀ id s, c'.sessionManager.Bound k id s →
    c.sessionManager.Bound k id s
  held : ∀ s, t.holds = some s → c'.sessionManager.pool s = c.sessionManager.pool s ∧
    (∀ k id, c.sessionManager.Bound k id s → c'.sessionManager.Bound k id s) ∧
    (c.Loose s → c'.Loose s)

theorem Thread.Knows.mono (h : t.Knows c) (hs : t.Spared c c') : t.Knows c' := by
  cases t with
  | batch conn k point =>
    refine ⟨h.1.trans (hs.connection k rfl).symm, ?_⟩
    have hpoint := h.2
    have hheld := hs.held
    have hunbound : c.Unbound k → c'.Unbound k := fun hno id s hb => hno id s (hs.bound k rfl id s hb)
    cases point with
    | lookup | finish => trivial
    | borrow packets => exact hunbound hpoint
    | register s packets =>
      obtain ⟨hpool, -, hloose⟩ := hheld s rfl
      simp only [Handling.Knows, hpool]
      exact ⟨hunbound hpoint.1, hloose hpoint.2.1, hpoint.2.2⟩
    | dispatch s packets =>
      cases packets with
      | nil => trivial
      | cons p packets =>
        obtain ⟨hpool, hbound, -⟩ := hheld s rfl
        simp only [Handling.Knows, hpool]
        exact ⟨hpoint.1.imp fun id => hbound k id, hpoint.2⟩
    | authenticate s type id | granted s id | update s id | logout s =>
      obtain ⟨hpool, hbound, -⟩ := hheld s rfl
      simp only [Handling.Knows, hpool]
      exact ⟨hpoint.1.imp fun id => hbound k id, hpoint.2⟩
  | find k => exact hs.disconnected k rfl h
  | remove k id => exact ⟨hs.disconnected k rfl h.1, fun id' s hb => h.2 id' s (hs.bound k rfl id' s hb)⟩
  | close k => exact ⟨hs.disconnected k rfl h.1, fun id s hb => h.2 id s (hs.bound k rfl id s hb)⟩
  | _ => trivial

/-- A thread has moved: the others have not noticed, and sessions still belong to the
connections that use them. -/
structure Advances (c c' : Connections) (t' : Thread) (others : List Thread) : Prop where
  spared : ∀ u ∈ others, u.Spared c c'
  owned : Owned c' (t' :: others)

/-- **One thread moves**, and the others do not notice. -/
theorem Owned.move (h : Owned c (t :: others)) (hregistry : Registry c' (t' :: others))
    (hspared : ∀ u ∈ others, u.Spared c c') (hknows : t'.Knows c')
    (hsocket : t'.batchSocket = none ∨ t'.batchSocket = t.batchSocket)
    (hposted : ∀ k, t.batchSocket ≠ some k ∨ t'.batchSocket = some k → c'.posted k = c.posted k) :
    Advances c c' t' others := by
  have hothers : ∀ k ∈ others.filterMap Thread.batchSocket, t.batchSocket ≠ some k := by
    intro k hk heq
    have hnodup := h.batches
    rw [List.filterMap_cons_some heq] at hnodup
    exact (List.nodup_cons.mp hnodup).1 hk
  have hposted' : ∀ k ∈ others.filterMap Thread.batchSocket, c'.posted k = false := by
    intro k hk
    rw [hposted k (.inl (hothers k hk))]
    exact h.posted k ((List.sublist_cons_self t others).filterMap _ |>.subset hk)
  refine ⟨hspared, hregistry, ?_, ?_, ?_⟩
  · refine List.forall_mem_cons.mpr ⟨hknows, ?_⟩
    intro u hu
    exact (h.knows u (List.mem_cons_of_mem t hu)).mono (hspared u hu)
  · rcases hsocket with hnone | hsame
    · rw [List.filterMap_cons_none hnone]
      exact h.batches.sublist ((List.sublist_cons_self t others).filterMap _)
    · have hbatches := h.batches
      simp only [List.filterMap_cons, ← hsame] at hbatches ⊢
      exact hbatches
  · rcases hsocket with hnone | hsame
    · rw [List.filterMap_cons_none hnone]
      exact hposted'
    · intro k hk
      cases hk' : t'.batchSocket with
      | none =>
        rw [List.filterMap_cons_none hk'] at hk
        exact hposted' k hk
      | some k' =>
        rw [List.filterMap_cons_some hk'] at hk
        rcases List.mem_cons.mp hk with rfl | hk
        · rw [hposted k (.inr hk')]
          apply h.posted
          rw [List.filterMap_cons_some (hsame ▸ hk')]
          exact List.mem_cons_self
        · exact hposted' k hk

/-- A session that is held is on the socket of its batch, and is registered there or about
to be. -/
theorem Thread.Knows.holds (h : t.Knows c) (hs : t.holds = some s) :
    ∃ k, t.batchSocket = some k ∧ (c.sessionManager.pool s).socket = k ∧
      ((∃ id, c.sessionManager.Bound k id s) ∨ c.Loose s) := by
  have hbound : ∀ k, (∃ id, c.sessionManager.Bound k id s) →
      (c.sessionManager.pool s).socket = k ∧
        ((∃ id, c.sessionManager.Bound k id s) ∨ c.Loose s) :=
    fun k hb => ⟨hb.elim fun _ hb => hb.2.2, .inl hb⟩
  cases t with
  | batch conn k point =>
    refine ⟨k, rfl, ?_⟩
    have hpoint := h.2
    cases point with
    | register s packets =>
      cases hs
      exact ⟨hpoint.2.2.1, .inr hpoint.2.1⟩
    | dispatch s packets =>
      cases packets with
      | nil => cases hs
      | cons p packets =>
        cases hs
        exact hbound k hpoint.1
    | authenticate | granted | update | logout =>
      cases hs
      exact hbound k hpoint.1
    | _ => cases hs
  | mark | find | remove | close | done => cases hs

theorem Owned.not_mem_free (h : Owned c threads) (ht : t ∈ threads) (hs : t.holds = some s) :
    s ∉ c.sessionManager.freeIndices := by
  obtain ⟨k, -, -, ⟨id, hb⟩ | hloose⟩ := (h.knows t ht).holds hs
  · exact h.registry.consistent.not_mem_free hb
  · exact hloose.1

theorem Thread.Renames.holds (h : t.Renames s) : t.holds = some s := by
  cases t with
  | batch conn k point =>
    cases point with
    | granted | update => exact congrArg some h
    | lookup | borrow | register | dispatch | authenticate | logout | finish => cases h
  | mark | find | remove | close | done => cases h

theorem Owned.batchSocket_ne (h : Owned c (t :: others)) (ht : t.batchSocket = some k)
    (hu : u ∈ others) : u.batchSocket ≠ some k := by
  intro heq
  have hnodup := h.batches
  rw [List.filterMap_cons_some ht] at hnodup
  exact (List.nodup_cons.mp hnodup).1 (List.mem_filterMap.mpr ⟨u, hu, heq⟩)

theorem Owned.ne_of_holds (h : Owned c (t :: others)) (ht : t.batchSocket = some k)
    (hk : (c.sessionManager.pool s).socket = k) (hu : u ∈ others) : u.holds ≠ some s := by
  intro hs
  obtain ⟨k', hk', hsocket, -⟩ := (h.knows u (List.mem_cons_of_mem t hu)).holds hs
  rw [hk] at hsocket
  subst hsocket
  exact h.batchSocket_ne ht hu hk'

theorem Owned.guards_ne (h : Owned c (t :: others)) (ht : t.batchSocket = some k)
    (hlive : c.Live k) (hu : u ∈ others) : u.guards ≠ some k := by
  have hknows := h.knows u (List.mem_cons_of_mem t hu)
  intro hk
  cases u with
  | batch conn k' point => exact h.batchSocket_ne ht hu hk
  | remove | close =>
    cases hk
    exact absurd hknows.1 (by simp [hlive.2])
  | mark | find | done => cases hk

/-! ## The changes that a step makes -/

theorem renames_cons (hrename : ∀ s, ¬ t.Renames s) (t' : Thread)
    (h : ∃ u ∈ t :: others, u.Renames s) : ∃ u ∈ t' :: others, u.Renames s := by
  rcases h with ⟨u, hu, hren⟩
  rcases List.mem_cons.mp hu with rfl | hu
  · exact absurd hren (hrename s)
  · exact ⟨u, List.mem_cons_of_mem t' hu, hren⟩

/-- Nothing but the sessions is different. -/
structure Connections.Like (c c' : Connections) : Prop where
  disconnectedSockets : c'.disconnectedSockets = c.disconnectedSockets
  isOpen : c'.isOpen = c.isOpen
  posted : c'.posted = c.posted
  connection : c'.connection = c.connection
  authenticated : c'.authenticated = c.authenticated

theorem loose_of_bound {m m' : SessionManager} (h : m'.Consistent)
    (hbound : ∀ k id, m'.Bound k id s → m.Bound k id s) (hfree : s ∉ m'.freeIndices)
    (hs : ∀ id, m.sessions id ≠ some (some s)) :
    s ∉ m'.freeIndices ∧ ∀ id, m'.sessions id ≠ some (some s) :=
  ⟨hfree, fun id hentry => hs id (hbound _ id (h.bound hentry)).2.1⟩

section Unbind

variable (hlike : c.Like c') (hm : c'.sessionManager = c.sessionManager.unbind id)

include hlike hm

theorem Registry.unbind (h : Registry c (t :: others)) (hrename : ∀ s, ¬ t.Renames s) (t' : Thread) :
    Registry c' (t' :: others) := by
  have hbound : ∀ {k id' s}, c'.sessionManager.Bound k id' s →
      id' ≠ id ∧ c.sessionManager.Bound k id' s := by
    intro k id' s hb
    rw [hm] at hb
    exact h.consistent.bound_unbind.mp hb
  constructor
  · rw [hm]
    exact h.consistent.unbind id
  · intro k id' s hb
    rw [hlike.isOpen]
    exact h.isOpen (hbound hb).2
  · intro k id' s hb
    exact h.key (hbound hb).2
  · intro k id' s hb hupdated
    obtain ⟨hid, hb⟩ := hbound hb
    have hpool : c'.sessionManager.pool s = c.sessionManager.pool s := by
      rw [hm]
      apply pool_unbind
      intro hs
      exact hid (hb.eq_of_session (h.consistent.bound hs)).2
    rw [hpool] at hupdated ⊢
    obtain ⟨hkey, huser⟩ := h.temporary hb hupdated
    exact ⟨hkey, huser.imp_right (renames_cons hrename t')⟩
  · intro s hauth
    have hne : c.sessionManager.sessions id ≠ some (some s) := by
      intro hs
      rw [hm, pool_unbind_self (h.consistent.bound hs)] at hauth
      exact hauth rfl
    rw [hm, pool_unbind hne] at hauth
    obtain ⟨k, id', hb, hconn⟩ := h.authenticated hauth
    refine ⟨k, id', ?_, ?_⟩
    · rw [hm]
      refine h.consistent.bound_unbind.mpr ⟨?_, hb⟩
      rintro rfl
      exact hne hb.2.1
    · rw [hlike.authenticated, hlike.connection]
      exact hconn

theorem Owned.spared_unbind (h : Owned c (t :: others))
    (hunheld : ∀ old ∈ c.sessionManager.findSession id, Unheld others old) (hu : u ∈ others) :
    u.Spared c c' := by
  have hcons := h.registry.consistent
  constructor
  · intro k _
    rw [hlike.connection]
  · intro k _ hdisc
    rw [hlike.disconnectedSockets]
    exact hdisc
  · intro k _ id' s hb
    rw [hm] at hb
    exact (hcons.bound_unbind.mp hb).2
  · intro s hs
    have hne : c.sessionManager.sessions id ≠ some (some s) := by
      intro hentry
      have hfind : s ∈ c.sessionManager.findSession id := by simp [findSession, hentry]
      exact hunheld s hfind u hu hs
    rw [hm]
    refine ⟨pool_unbind hne, ?_, ?_⟩
    · intro k id' hb
      refine hcons.bound_unbind.mpr ⟨?_, hb⟩
      rintro rfl
      exact hne hb.2.1
    · intro hloose
      rw [Connections.Loose, hm]
      refine loose_of_bound (hcons.unbind id) (fun k id' hb => (hcons.bound_unbind.mp hb).2) ?_ hloose.2
      rw [mem_free_unbind]
      rintro (hfree | hentry)
      · exact hloose.1 hfree
      · exact hne hentry

end Unbind

section AddSession

variable (hlike : c.Like c') (hm : c'.sessionManager = c.sessionManager.addSession (tempId k) s)

theorem Registry.sessions_tempId (h : Registry c threads) (hno : c.Unbound k) :
    c.sessionManager.sessions (tempId k) = none := by
  apply h.consistent.sessions_eq_none
  intro k' s' hb
  rcases h.key hb with hkey | ⟨user, hkey⟩
  · cases tempId_injective hkey
    exact hno _ _ hb
  · exact toHex_ne_tempId user k hkey.symm

theorem Registry.bound_addSession (h : Registry c threads) (hno : c.Unbound k)
    (hk : (c.sessionManager.pool s).socket = k) {k' : Socket} {id' : UserId} {s' : SessionPtr} :
    (c.sessionManager.addSession (tempId k) s).Bound k' id' s' ↔
      (k' = k ∧ id' = tempId k ∧ s' = s) ∨ c.sessionManager.Bound k' id' s' := by
  have hsocket : c.sessionManager.socketToUserId (c.sessionManager.pool s).socket = none := by
    rw [hk]
    exact h.consistent.socketToUserId_eq_none hno
  rw [h.consistent.bound_addSession (h.sessions_tempId hno) hsocket, hk]

include hlike hm

theorem Registry.addSession (h : Registry c (t :: others)) (hno : c.Unbound k) (hloose : c.Loose s)
    (hk : (c.sessionManager.pool s).socket = k) (huser : (c.sessionManager.pool s).userId = tempId k)
    (hlive : c.Live k) (hrename : ∀ s, ¬ t.Renames s) (t' : Thread) : Registry c' (t' :: others) := by
  have hbound : ∀ {k' id' s'}, c'.sessionManager.Bound k' id' s' ↔
      (k' = k ∧ id' = tempId k ∧ s' = s) ∨ c.sessionManager.Bound k' id' s' := by
    intro k' id' s'
    rw [hm]
    exact h.bound_addSession hno hk
  have hpool : c'.sessionManager.pool = c.sessionManager.pool := by rw [hm]; rfl
  constructor
  · rw [hm]
    refine h.consistent.addSession (h.sessions_tempId hno) ?_ hloose.1
    rw [hk]
    exact h.consistent.socketToUserId_eq_none hno
  · intro k' id' s' hb
    rw [hlike.isOpen]
    rcases hbound.mp hb with ⟨rfl, -, -⟩ | hb
    · exact hlive.1
    · exact h.isOpen hb
  · intro k' id' s' hb
    rcases hbound.mp hb with ⟨rfl, rfl, -⟩ | hb
    · exact .inl rfl
    · exact h.key hb
  · intro k' id' s' hb hupdated
    rw [hpool] at hupdated ⊢
    rcases hbound.mp hb with ⟨rfl, rfl, rfl⟩ | hb
    · exact ⟨rfl, .inl huser⟩
    · obtain ⟨hkey, huser'⟩ := h.temporary hb hupdated
      exact ⟨hkey, huser'.imp_right (renames_cons hrename t')⟩
  · intro s' hauth
    rw [hpool] at hauth
    obtain ⟨k', id', hb, hconn⟩ := h.authenticated hauth
    refine ⟨k', id', hbound.mpr (.inr hb), ?_⟩
    rw [hlike.authenticated, hlike.connection]
    exact hconn

theorem Owned.spared_addSession (h : Owned c (t :: others)) (ht : t.batchSocket = some k)
    (hno : c.Unbound k) (hk : (c.sessionManager.pool s).socket = k) (hlive : c.Live k)
    (hu : u ∈ others) : u.Spared c c' := by
  have hbound : ∀ {k' id' s'}, c'.sessionManager.Bound k' id' s' ↔
      (k' = k ∧ id' = tempId k ∧ s' = s) ∨ c.sessionManager.Bound k' id' s' := by
    intro k' id' s'
    rw [hm]
    exact h.registry.bound_addSession hno hk
  constructor
  · intro k' _
    rw [hlike.connection]
  · intro k' _ hdisc
    rw [hlike.disconnectedSockets]
    exact hdisc
  · intro k' hguards id' s' hb
    rcases hbound.mp hb with ⟨rfl, -, -⟩ | hb
    · exact absurd hguards (h.guards_ne ht hlive hu)
    · exact hb
  · intro s' hs'
    have hne : s' ≠ s := by
      rintro rfl
      exact h.ne_of_holds ht hk hu hs'
    refine ⟨by rw [hm]; rfl, fun k' id' hb => hbound.mpr (.inr hb), ?_⟩
    intro hloose
    refine ⟨by rw [hm]; exact hloose.1, ?_⟩
    intro id' hentry
    rw [hm] at hentry
    by_cases hid : id' = tempId k
    · subst hid
      simp [SessionManager.addSession] at hentry
      exact hne hentry.symm
    · simp only [SessionManager.addSession, Function.update_of_ne hid] at hentry
      exact hloose.2 id' hentry

end AddSession

section Write

variable {f : Session → Session} (hf : ∀ session, (f session).socket = session.socket)
  (hm : c'.sessionManager = c.sessionManager.modifySession s f)

include hf hm

theorem bound_write {k' : Socket} {id' : UserId} {s' : SessionPtr} :
    c'.sessionManager.Bound k' id' s' ↔ c.sessionManager.Bound k' id' s' := by
  rw [hm]
  exact bound_modifySession fun _ => hf _

theorem Owned.spared_write (h : Owned c (t :: others)) (ht : t.batchSocket = some k)
    (hk : (c.sessionManager.pool s).socket = k) (hconn : c'.connection = c.connection)
    (hdisc : c'.disconnectedSockets = c.disconnectedSockets) (hu : u ∈ others) : u.Spared c c' := by
  constructor
  · intro k' _
    rw [hconn]
  · intro k' _ hdisc'
    rw [hdisc]
    exact hdisc'
  · intro k' _ id' s' hb
    exact (bound_write hf hm).mp hb
  · intro s' hs'
    have hne : s' ≠ s := by
      rintro rfl
      exact h.ne_of_holds ht hk hu hs'
    refine ⟨by rw [hm]; exact pool_modifySession_of_ne hne, ?_, ?_⟩
    · intro k' id' hb
      exact (bound_write hf hm).mpr hb
    · intro hloose
      rw [Connections.Loose, hm]
      exact hloose

end Write

section Lend

variable {f : Session → Session} {rest : List SessionPtr} (hlike : c.Like c')
  (hm : c'.sessionManager = c.sessionManager.lend s rest f)
  (hfree : c.sessionManager.freeIndices = s :: rest)

theorem Registry.authState_of_free (h : Registry c threads)
    (hmem : s ∈ c.sessionManager.freeIndices) :
    (c.sessionManager.pool s).authState = .unauthenticated := by
  by_contra hauth
  obtain ⟨k, id, hb, -⟩ := h.authenticated hauth
  exact h.consistent.free s hmem id hb.2.1

include hlike hm hfree

theorem Registry.lend (h : Registry c (t :: others))
    (hf : ∀ session, (f session).authState = session.authState) (hrename : ∀ s, ¬ t.Renames s)
    (t' : Thread) : Registry c' (t' :: others) := by
  have hmem : s ∈ c.sessionManager.freeIndices := hfree ▸ List.mem_cons_self
  have hbound : ∀ {k id s'}, c'.sessionManager.Bound k id s' ↔ c.sessionManager.Bound k id s' := by
    intro k id s'
    rw [hm]
    exact h.consistent.bound_lend hmem
  have hpool : ∀ {s'}, s' ≠ s → c'.sessionManager.pool s' = c.sessionManager.pool s' := by
    intro s' hs'
    rw [hm]
    exact pool_modifySession_of_ne hs'
  constructor
  · rw [hm]
    exact h.consistent.lend hfree
  · intro k id s' hb
    rw [hlike.isOpen]
    exact h.isOpen (hbound.mp hb)
  · intro k id s' hb
    exact h.key (hbound.mp hb)
  · intro k id s' hb hupdated
    have hs' : s' ≠ s := by
      rintro rfl
      exact h.consistent.free s' hmem id (hbound.mp hb).2.1
    rw [hpool hs'] at hupdated ⊢
    obtain ⟨hkey, huser⟩ := h.temporary (hbound.mp hb) hupdated
    exact ⟨hkey, huser.imp_right (renames_cons hrename t')⟩
  · intro s' hauth
    have hs' : s' ≠ s := by
      rintro rfl
      rw [hm] at hauth
      simp [SessionManager.lend, hf] at hauth
      exact hauth (h.authState_of_free hmem)
    rw [hpool hs'] at hauth
    obtain ⟨k, id, hb, hconn⟩ := h.authenticated hauth
    refine ⟨k, id, hbound.mpr hb, ?_⟩
    rw [hlike.authenticated, hlike.connection]
    exact hconn

theorem Owned.spared_lend (h : Owned c (t :: others)) (hu : u ∈ others) : u.Spared c c' := by
  have hmem : s ∈ c.sessionManager.freeIndices := hfree ▸ List.mem_cons_self
  have hcons := h.registry.consistent
  constructor
  · intro k _
    rw [hlike.connection]
  · intro k _ hdisc
    rw [hlike.disconnectedSockets]
    exact hdisc
  · intro k _ id s' hb
    rw [hm] at hb
    exact (hcons.bound_lend hmem).mp hb
  · intro s' hs'
    have hne : s' ≠ s := by
      rintro rfl
      exact h.not_mem_free (List.mem_cons_of_mem t hu) hs' hmem
    rw [hm]
    refine ⟨pool_modifySession_of_ne hne, fun k id hb => (hcons.bound_lend hmem).mpr hb, ?_⟩
    intro hloose
    rw [Connections.Loose, hm]
    refine ⟨fun hrest => hloose.1 ?_, hloose.2⟩
    rw [hfree]
    exact List.mem_cons_of_mem s hrest

end Lend

section Rebind

variable (hconn : c'.connection = c.connection) (hauth : c'.authenticated = c.authenticated)
  (hm : c'.sessionManager = c.sessionManager.rebind k (tempId k) s)
  (hb : c.sessionManager.Bound k (tempId k) s)
  (hne : (c.sessionManager.pool s).userId ≠ tempId k)

include hm hb hne

/-- The bindings after `updateNewId`. -/
theorem Registry.bound_rebind (h : Registry c threads) (k' : Socket) (id' : UserId)
    (s' : SessionPtr) :
    c'.sessionManager.Bound k' id' s' ↔
      (k' = k ∧ id' = (c.sessionManager.pool s).userId ∧ s' = s) ∨
        (id' ≠ (c.sessionManager.pool s).userId ∧ id' ≠ tempId k ∧
          c.sessionManager.Bound k' id' s') := by
  rw [hm]
  exact h.consistent.bound_rebind hb hne

omit hne in
theorem Registry.pool_rebind (h : Registry c threads) {k' : Socket} {id' : UserId}
    {s' : SessionPtr} (hid : id' ≠ (c.sessionManager.pool s).userId ∧ id' ≠ tempId k)
    (hb' : c.sessionManager.Bound k' id' s') :
    c'.sessionManager.pool s' = c.sessionManager.pool s' := by
  rw [hm]
  apply pool_rebind_of_ne
  · rintro rfl
    exact hid.2 (hb'.eq_of_session hb).2
  · intro hentry
    exact hid.1 (hb'.eq_of_session (h.consistent.bound hentry)).2

include hconn hauth

theorem Registry.rebind (h : Registry c (t :: others)) (hopen : c'.isOpen k = true)
    (hothers : ∀ {k' id' s'}, c.sessionManager.Bound k' id' s' →
      id' ≠ (c.sessionManager.pool s).userId → c'.isOpen k' = true)
    (huser : ∃ user, (c.sessionManager.pool s).userId = toHex user)
    (hrename : ∀ s', t.Renames s' → s' = s) (t' : Thread) : Registry c' (t' :: others) := by
  have hbound := h.bound_rebind hm hb hne
  constructor
  · rw [hm]
    exact h.consistent.rebind hb hne
  · intro k' id' s' hb'
    rcases (hbound _ _ _).mp hb' with ⟨rfl, -, -⟩ | ⟨hid, -, hb'⟩
    · exact hopen
    · exact hothers hb' hid
  · intro k' id' s' hb'
    rcases (hbound _ _ _).mp hb' with ⟨-, rfl, -⟩ | ⟨-, -, hb'⟩
    · exact .inr huser
    · exact h.key hb'
  · intro k' id' s' hb' hupdated
    rcases (hbound _ _ _).mp hb' with ⟨-, -, rfl⟩ | ⟨hid, htemp, hb'⟩
    · rw [hm, h.consistent.pool_rebind_self hb hne] at hupdated
      cases hupdated
    · rw [h.pool_rebind hm hb ⟨hid, htemp⟩ hb'] at hupdated ⊢
      obtain ⟨hkey, huser'⟩ := h.temporary hb' hupdated
      refine ⟨hkey, huser'.imp_right ?_⟩
      rintro ⟨u, hu, hren⟩
      rcases List.mem_cons.mp hu with rfl | hu
      · cases hrename s' hren
        exact absurd (hb'.eq_of_session hb).2 htemp
      · exact ⟨u, List.mem_cons_of_mem t' hu, hren⟩
  · intro s' hauth'
    rw [hauth, hconn]
    by_cases hs : s' = s
    · subst hs
      rw [hm, h.consistent.pool_rebind_self hb hne] at hauth'
      obtain ⟨k', id', hb', hconn'⟩ := h.authenticated hauth'
      cases (hb'.eq_of_session hb).1
      exact ⟨k, _, (hbound _ _ _).mpr (.inl ⟨rfl, rfl, rfl⟩), hconn'⟩
    · have hold : c.sessionManager.sessions (c.sessionManager.pool s).userId ≠ some (some s') := by
        intro hentry
        have hcleared : c'.sessionManager.pool s' = (c.sessionManager.pool s').cleared := by
          rw [hm]
          exact (pool_modifySession_of_ne hs).trans (pool_unbind_self (h.consistent.bound hentry))
        rw [hcleared] at hauth'
        exact hauth' rfl
      rw [hm, pool_rebind_of_ne hs hold] at hauth'
      obtain ⟨k', id', hb', hconn'⟩ := h.authenticated hauth'
      refine ⟨k', id', (hbound _ _ _).mpr (.inr ⟨?_, ?_, hb'⟩), hconn'⟩
      · rintro rfl
        exact hold hb'.2.1
      · rintro rfl
        exact hs (hb'.eq_of_id hb).2

omit hauth in
theorem Owned.spared_rebind (h : Owned c (t :: others)) (ht : t.batchSocket = some k)
    (hlive : c.Live k)
    (hdisc : ∀ k', c.disconnectedSockets k' = true → c'.disconnectedSockets k' = true)
    (hunheld : ∀ old ∈ c.sessionManager.findSession (c.sessionManager.pool s).userId,
      Unheld others old) (hu : u ∈ others) : u.Spared c c' := by
  have hcons := h.registry.consistent
  have hbound := h.registry.bound_rebind hm hb hne
  constructor
  · intro k' _
    rw [hconn]
  · intro k' _
    exact hdisc k'
  · intro k' hguards id' s' hb'
    rcases (hbound _ _ _).mp hb' with ⟨rfl, -, -⟩ | ⟨-, -, hb'⟩
    · exact absurd hguards (h.guards_ne ht hlive hu)
    · exact hb'
  · intro s' hs'
    have hs : s' ≠ s := by
      rintro rfl
      exact h.ne_of_holds ht hb.2.2 hu hs'
    have hold : c.sessionManager.sessions (c.sessionManager.pool s).userId ≠ some (some s') := by
      intro hentry
      have hfind : s' ∈ c.sessionManager.findSession (c.sessionManager.pool s).userId := by
        simp [findSession, hentry]
      exact hunheld s' hfind u hu hs'
    refine ⟨by rw [hm]; exact pool_rebind_of_ne hs hold, ?_, ?_⟩
    · intro k' id' hb'
      refine (hbound _ _ _).mpr (.inr ⟨?_, ?_, hb'⟩)
      · rintro rfl
        exact hold hb'.2.1
      · rintro rfl
        exact hs (hb'.eq_of_id hb).2
    · intro hloose
      rw [Connections.Loose, hm]
      refine loose_of_bound (hcons.rebind hb hne) ?_ ?_ hloose.2
      · intro k' id' hb'
        rcases (hcons.bound_rebind hb hne).mp hb' with ⟨-, -, heq⟩ | ⟨-, -, hb'⟩
        · exact absurd heq hs
        · exact hb'
      · intro hfree
        rcases mem_free_unbind.mp hfree with hfree | hentry
        · exact hloose.1 hfree
        · exact hold hentry

end Rebind

/-! ## Steps that leave the sessions as they are -/

theorem Registry.congr (h : Registry c threads) (hm : c'.sessionManager = c.sessionManager)
    (hopen : ∀ {k id s}, c.sessionManager.Bound k id s → c'.isOpen k = true)
    (hauth : ∀ {k id s}, c.sessionManager.Bound k id s →
      c.authenticated (c.connection k) = true → c'.authenticated (c'.connection k) = true)
    (hrename : ∀ s, (c.sessionManager.pool s).updated = false →
      (∃ u ∈ threads, u.Renames s) → ∃ u ∈ threads', u.Renames s) : Registry c' threads' := by
  constructor
  · rw [hm]
    exact h.consistent
  · intro k id s hb
    rw [hm] at hb
    exact hopen hb
  · intro k id s hb
    rw [hm] at hb
    exact h.key hb
  · intro k id s hb hupdated
    rw [hm] at hb hupdated ⊢
    obtain ⟨hkey, huser⟩ := h.temporary hb hupdated
    exact ⟨hkey, huser.imp_right (hrename s hupdated)⟩
  · intro s hauth'
    rw [hm] at hauth' ⊢
    obtain ⟨k, id, hb, hconn⟩ := h.authenticated hauth'
    exact ⟨k, id, hb, hauth hb hconn⟩

/-- The other threads do not notice a change that keeps the sessions, their own
connections, and the sockets that are disconnected. -/
theorem Thread.spared_of_eq (hm : c'.sessionManager = c.sessionManager)
    (hconn : ∀ k, u.socket = some k → c'.connection k = c.connection k)
    (hdisc : ∀ k, u.socket = some k → c.disconnectedSockets k = true →
      c'.disconnectedSockets k = true) : u.Spared c c' := by
  refine ⟨hconn, hdisc, ?_, ?_⟩
  · intro k _ id s hb
    rwa [hm] at hb
  · intro s _
    rw [Connections.Loose, Connections.Loose, hm]
    exact ⟨rfl, fun _ _ hb => hb, fun hloose => hloose⟩

theorem Owned.move_of_eq (h : Owned c (t :: others)) (hm : c'.sessionManager = c.sessionManager)
    (hconn : c'.connection = c.connection) (hauth : c'.authenticated = c.authenticated)
    (hopen : ∀ {k id s}, c.sessionManager.Bound k id s → c'.isOpen k = true)
    (hdisc : ∀ k, c.disconnectedSockets k = true → c'.disconnectedSockets k = true)
    (hrename : ∀ s, (c.sessionManager.pool s).updated = false → t.Renames s → t'.Renames s)
    (hknows : t'.Knows c') (hsocket : t'.batchSocket = none ∨ t'.batchSocket = t.batchSocket)
    (hposted : ∀ k, t.batchSocket ≠ some k ∨ t'.batchSocket = some k → c'.posted k = c.posted k) :
    Advances c c' t' others := by
  refine h.move (h.registry.congr hm hopen ?_ ?_) ?_ hknows hsocket hposted
  · intro k id s _ hconn'
    rw [hauth, hconn]
    exact hconn'
  · rintro s hupdated ⟨u, hu, hren⟩
    rcases List.mem_cons.mp hu with rfl | hu
    · exact ⟨t', List.mem_cons_self, hrename s hupdated hren⟩
    · exact ⟨u, List.mem_cons_of_mem t' hu, hren⟩
  · intro u _
    exact Thread.spared_of_eq hm (fun k _ => congrFun hconn k) fun k _ => hdisc k

end Threads

end IocpChat

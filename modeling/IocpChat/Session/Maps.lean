import IocpChat.Lib.Transition
import IocpChat.Session.Bindings

/-!
# The two maps of the session manager are inverse

`Consistent` speaks of the manager together with the pool: a session that is registered is
not free.  What the maps say of each other does not depend on that.  They stay inverse for
any sessions that are registered, wherever these come from, if a session is registered on a
socket and under an id that are not in use, and moved only from the id it is registered
under.

The list of free sessions is therefore forgotten, and the results on consistent managers are
used for the rest.

## Main definitions

* `SessionManager.MapsInverse` — the maps are inverse.
* `SessionManager.Registers` — what the calls expect.
* `SessionManager.displaced` — the session that a takeover ends.
-/

namespace IocpChat

open Transition

namespace SessionManager

def Listed (m : SessionManager) (s : SessionPtr) : Prop := ∃ id, m.sessions id = some (some s)

/-- **The maps are inverse**, and have no other entries. -/
structure MapsInverse (m : SessionManager) : Prop where
  iff : ∀ id s, m.Listed s →
    (m.sessions id = some (some s) ↔ m.socketToUserId (m.pool s).socket = some id)
  socket : ∀ k id, m.socketToUserId k = some id →
    ∃ s, m.sessions id = some (some s) ∧ (m.pool s).socket = k
  not_null : ∀ id, m.sessions id ≠ some none
  eq_of_session : ∀ id id' s, m.sessions id = some (some s) → m.sessions id' = some (some s) →
    id = id'
  eq_of_socket : ∀ id id' s s', m.sessions id = some (some s) → m.sessions id' = some (some s') →
    (m.pool s).socket = (m.pool s').socket → id = id'

/-- A session is registered on a socket and under an id that are not registered, and is moved
from the id it is registered under.  The pool hands out no session that is registered. -/
def Registers (m : SessionManager) : SessionOp → Prop
  | .borrowSession _ => ∀ s ∈ m.freeIndices.head?, ¬ m.Listed s
  | .addSession id s => m.sessions id = none ∧ m.socketToUserId (m.pool s).socket = none
  | .updateNewId id s => m.sessions id = some (some s)
  | _ => True

/-- The session that the user has, if it is another one. -/
def displaced (m : SessionManager) (s : SessionPtr) : Option SessionPtr :=
  (m.findSession (m.pool s).userId).filter fun old => old ≠ s

/-! ## Without the free sessions -/

/-- The manager without the list of free sessions. -/
def bare (m : SessionManager) : SessionManager := { m with freeIndices := [] }

section Bare

variable {m m' : SessionManager} {id : UserId} {s : SessionPtr} {op : SessionOp}

theorem Consistent.bare (h : m.Consistent) : m.bare.Consistent where
  socket := h.socket
  session := h.session
  free := fun _ hs => absurd hs List.not_mem_nil
  nodup := List.nodup_nil

/-- What a call does to the maps and the sessions does not depend on the free ones. -/
theorem apply_bare (hop : ∀ k, op ≠ .borrowSession k) :
    (m.bare.apply op).map SessionManager.bare = (m.apply op).map SessionManager.bare := by
  cases op with
  | borrowSession k => exact absurd rfl (hop k)
  | setUserId | addSession => rfl
  | updateNewId id s =>
    have hentry : m.bare.sessions = m.sessions := rfl
    have hpool : m.bare.pool = m.pool := rfl
    simp only [apply, updateNewId, takeOver, hentry, hpool]
    cases m.sessions (m.pool s).userId with
    | none => rfl
    | some entry =>
      cases entry with
      | none => rfl
      | some old =>
        simp only
        split <;> rfl
  | removeSession id =>
    have hentry : m.bare.sessions = m.sessions := rfl
    simp only [apply, removeSession, hentry]
    cases m.sessions id with
    | none => rfl
    | some entry => cases entry <;> rfl
  | removeBySocket k =>
    simp only [apply, removeBySocket, SessionManager.bare, eraseSocket]
    cases m.socketToUserId k with
    | none => rfl
    | some id =>
      simp only
      cases m.sessions id with
      | none => rfl
      | some entry => cases entry <;> rfl
  | findBySocket k =>
    simp only [apply, findBySocket, SessionManager.bare]
    cases m.socketToUserId k with
    | none => rfl
    | some id =>
      simp only
      cases m.sessions id <;> rfl

theorem updateNewId_of_userId (h : m.bare.Consistent) (hs : m.sessions id = some (some s))
    (hid : (m.pool s).userId = id) :
    m.updateNewId id s = some (m.modifySession s fun session => { session with updated := true }) := by
  have hb : m.bare.Bound (m.pool s).socket id s := h.bound hs
  have hsocket : m.socketToUserId (m.pool s).socket = some id := hb.1
  have htake : m.takeOver s = some m := by simp [takeOver, hid, hs]
  simp only [updateNewId, htake, Option.map_some, addSession, eraseSession, modifySession, hid,
    Function.update_idem, ← hs, ← hsocket, Function.update_eq_self]

theorem Consistent.step (h : m.bare.Consistent) (hop : m.Registers op)
    (happly : m.apply op = some m') : m'.bare.Consistent := by
  -- The calls that `Consistent.apply` covers, once the free sessions are forgotten.
  have hfits : m.bare.Fits op → (∀ k, op ≠ .borrowSession k) → m'.bare.Consistent := by
    intro hfits hborrow
    have hbare := apply_bare (m := m) hborrow
    rw [happly, Option.map_some, Option.map_eq_some_iff] at hbare
    obtain ⟨m₁, hm₁, heq⟩ := hbare
    rw [← heq]
    exact (h.apply hfits hm₁).1.bare
  cases op with
  | borrowSession k =>
    obtain ⟨⟨m₁, s⟩, hborrow, hm⟩ := Option.map_eq_some_iff.mp happly
    obtain ⟨hfree, hlend⟩ := borrowSession_eq hborrow
    cases (show m₁ = m' from hm)
    have hnot : ¬ m.Listed s := hop s (by rw [hfree]; rfl)
    rw [hlend]
    refine h.modifySession (s := s) (f := fun session => { session with socket := k }) ?_
    intro id hentry
    exact absurd ⟨id, hentry⟩ hnot
  | updateNewId id s =>
    by_cases hid : (m.pool s).userId = id
    · rw [SessionManager.apply, updateNewId_of_userId h hop hid] at happly
      cases happly
      exact h.modifySession (f := fun session => { session with updated := true }) fun _ _ => rfl
    · exact hfits ⟨hop, hid⟩ fun k hk => by cases hk
  | addSession id s => exact hfits ⟨hop.1, hop.2, List.not_mem_nil⟩ fun k hk => by cases hk
  | _ => exact hfits trivial fun k hk => by cases hk

end Bare

/-! ## The maps -/

section Maps

variable {m m₀ : SessionManager} {id : UserId} {s : SessionPtr}

theorem consistent_of_empty (hsessions : ∀ id, m.sessions id = none)
    (hsockets : ∀ k, m.socketToUserId k = none) : m.bare.Consistent := by
  constructor
  · intro k id hentry
    exact absurd ((hsockets k).symm.trans hentry) (by simp)
  · intro id entry hentry
    exact absurd ((hsessions id).symm.trans hentry) (by simp)
  · intro s hs
    exact absurd hs List.not_mem_nil
  · exact List.nodup_nil

theorem Consistent.mapsInverse (h : m.bare.Consistent) : m.MapsInverse := by
  constructor
  · rintro id s ⟨id', hs⟩
    have hb := h.bound hs
    constructor
    · intro hs'
      exact (h.bound hs').1
    · intro hsocket
      cases Option.some.inj (hb.1.symm.trans hsocket)
      exact hs
  · intro k id hentry
    obtain ⟨s, hb⟩ := h.socket hentry
    exact ⟨s, hb.2⟩
  · intro id hentry
    obtain ⟨s, hs, -⟩ := h.session hentry
    cases hs
  · intro id id' s hs hs'
    exact ((h.bound hs).eq_of_session (h.bound hs')).2
  · intro id id' s s' hs hs' hsocket
    have hb := h.bound hs
    rw [show (m.bare.pool s).socket = (m.bare.pool s').socket from hsocket] at hb
    exact (hb.eq_of_socket (h.bound hs')).1

theorem Consistent.findBySocket_bare (h : m.bare.Consistent) (k : Socket) :
    (m.findBySocket k).1 = m := by
  unfold SessionManager.findBySocket
  cases hentry : m.socketToUserId k with
  | none => rfl
  | some id =>
    obtain ⟨s, hb⟩ := h.socket hentry
    have hs : m.sessions id = some (some s) := hb.2.1
    simp only [hs]

theorem Consistent.isSome_removeSession (h : m.bare.Consistent) (id : UserId) :
    (m.removeSession id).isSome = true := by
  unfold SessionManager.removeSession
  cases hentry : m.sessions id with
  | none => rfl
  | some entry =>
    obtain ⟨s, rfl, -⟩ := h.session hentry
    rfl

/-- **A takeover returns the displaced session, and no other.** -/
theorem Consistent.updateNewId_free (h : m.bare.Consistent) (hs : m.sessions id = some (some s)) :
    ∃ m', m.updateNewId id s = some m' ∧
      m'.freeIndices = m.freeIndices ++ (m.displaced s).toList ∧
      ∀ old ∈ m.displaced s, m'.pool old = (m.pool old).cleared := by
  unfold SessionManager.updateNewId SessionManager.takeOver displaced findSession
  cases hentry : m.sessions (m.pool s).userId with
  | none => simp [hentry, SessionManager.addSession, eraseSession]
  | some entry =>
    obtain ⟨old, rfl, hold⟩ := h.session hentry
    by_cases heq : old = s
    · subst heq
      simp [hentry, SessionManager.addSession, eraseSession]
    · have hk : (m.pool s).socket ≠ (m.pool old).socket := by
        intro hk
        have hb := h.bound hs
        rw [show (m.bare.pool s).socket = (m.bare.pool old).socket from hk] at hb
        exact heq (hold.eq_of_socket hb).2
      simp [hentry, heq, hk, Option.filter, SessionManager.addSession, eraseSession,
        SessionManager.returnSession, eraseSocket]

theorem consistent_of_reaches (hsessions : ∀ id, m₀.sessions id = none)
    (hsockets : ∀ k, m₀.socketToUserId k = none)
    (hreach : Reaches SessionManager.apply Registers m₀ m) : m.bare.Consistent := by
  apply hreach.invariant
  · exact consistent_of_empty hsessions hsockets
  · intro m op m' _ hm hop happly
    exact hm.step hop happly

/-- **The maps stay inverse.**  Whatever the sessions are, and whichever of them the pool has:
after any calls that begin with empty maps, the maps are inverse, `findBySocket` makes no
entry, `removeSession` meets no null entry, and `updateNewId` returns the session it displaces
to the pool, and nothing else. -/
theorem mapsInverse_of_reaches (m₀ m : SessionManager) (hsessions : ∀ id, m₀.sessions id = none)
    (hsockets : ∀ k, m₀.socketToUserId k = none)
    (hreach : Reaches SessionManager.apply Registers m₀ m) :
    m.MapsInverse ∧ (∀ k, (m.findBySocket k).1 = m) ∧ (∀ id, (m.removeSession id).isSome = true) ∧
      ∀ id s, m.sessions id = some (some s) →
        ∃ m', m.updateNewId id s = some m' ∧
          m'.freeIndices = m.freeIndices ++ (m.displaced s).toList ∧
          ∀ old ∈ m.displaced s, m'.pool old = (m.pool old).cleared := by
  have h := consistent_of_reaches hsessions hsockets hreach
  exact ⟨h.mapsInverse, h.findBySocket_bare, h.isSome_removeSession, fun _ _ => h.updateNewId_free⟩

/-- Two sessions are registered, and their users turn out to be the same. -/
def twoLogins : List SessionOp :=
  [.addSession [1] 1, .addSession [2] 2, .setUserId 1 [9], .updateNewId [1] 1, .setUserId 2 [9]]

theorem mapsInverse_of_twoLogins :
    ∃ m, Transition.run apply { new with pool := fun s => { new.pool s with socket := s } }
        twoLogins = some m ∧
      m.displaced 2 = some 1 ∧ m.MapsInverse := by
  obtain ⟨m, hrun, hdisplaced⟩ := exists_run apply
    { new with pool := fun s => { new.pool s with socket := s } } twoLogins
    (fun m => m.displaced 2 = some 1) (by decide +kernel)
  have hmeets : Meets apply Registers { new with pool := fun s => { new.pool s with socket := s } }
      twoLogins := by
    refine ⟨⟨rfl, rfl⟩, ?_⟩
    rintro _ ⟨⟩
    refine ⟨⟨rfl, rfl⟩, ?_⟩
    rintro _ ⟨⟩
    refine ⟨trivial, ?_⟩
    rintro _ ⟨⟩
    refine ⟨rfl, ?_⟩
    rintro _ ⟨⟩
    refine ⟨trivial, ?_⟩
    rintro _ ⟨⟩
    trivial
  have hreach := reaches_of_run hmeets hrun
  exact ⟨m, hrun, hdisplaced,
    (mapsInverse_of_reaches _ m (fun _ => rfl) (fun _ => rfl) hreach).1⟩

end Maps

end SessionManager

end IocpChat

import Mathlib.Data.Vector.Basic

/-!
# `SessionPool` and `SessionManager`

A session is a place in the pool.  The manager maps user ids to sessions and sockets
to user ids; each of its functions runs under one lock, so it is one step.

An entry of `sessions` may hold a null pointer, since `findBySocket` looks its session
up with `operator[]`.  A function that follows a null pointer has no result.

## Main definitions

* `Session`, `SessionManager` — the state, with the pool.
* `addSession`, `updateNewId`, `removeSession`, `removeBySocket`, `findSession`,
  `findBySocket`, `getUserIdBySocket` — the manager.
* `SessionOp`, `SessionManager.apply` — its calls, as the steps of the server.
-/

namespace IocpChat

abbrev UserId := List UInt8

abbrev Socket := ℕ

/-- A session is known by its place in the pool. -/
abbrev SessionPtr := ℕ

/-- `INVALID_SOCKET`. -/
def invalidSocket : Socket := 0xFFFFFFFFFFFFFFFF

inductive AuthSessionState
  | unauthenticated
  | authenticated
  | expired
  deriving DecidableEq

/-- A session.  Its file transfer flag is not used here. -/
structure Session where
  userId : UserId
  socket : Socket
  /-- `updateNewId` has registered it. -/
  updated : Bool
  authState : AuthSessionState
  cachedUserId : List.Vector UInt8 16
  cachedExpiry : UInt64
  deriving DecidableEq

/-- What is left of a session in the pool.  The field `updated` stays as it is. -/
def Session.cleared (s : Session) : Session :=
  { s with
    socket := invalidSocket
    userId := []
    authState := .unauthenticated
    cachedUserId := .replicate 16 0
    cachedExpiry := 0 }

/-- The two maps of the manager, and the pool the sessions live in. -/
structure SessionManager where
  pool : SessionPtr → Session
  freeIndices : List SessionPtr
  sessions : UserId → Option (Option SessionPtr)
  socketToUserId : Socket → Option UserId

namespace SessionManager

def maxSize : ℕ := 10000

def new : SessionManager where
  pool := fun _ => ⟨[], invalidSocket, false, .unauthenticated, .replicate 16 0, 0⟩
  freeIndices := List.range maxSize
  sessions := fun _ => none
  socketToUserId := fun _ => none

/-! ## The pool -/

/-- Take a session from the pool for a socket. -/
def borrowSession (m : SessionManager) (socket : Socket) : Option (SessionManager × SessionPtr) :=
  match m.freeIndices with
  | [] => none
  | s :: rest =>
    some ({ m with
      freeIndices := rest
      pool := Function.update m.pool s { m.pool s with socket } }, s)

/-- Give a session back to the pool. -/
def returnSession (m : SessionManager) (s : SessionPtr) : SessionManager :=
  { m with
    pool := Function.update m.pool s (m.pool s).cleared
    freeIndices := m.freeIndices ++ [s] }

/-! ## The manager -/

/-- `sessions.erase(id)`. -/
def eraseSession (m : SessionManager) (id : UserId) : SessionManager :=
  { m with sessions := Function.update m.sessions id none }

/-- `socketToUserId.erase(socket)`. -/
def eraseSocket (m : SessionManager) (socket : Socket) : SessionManager :=
  { m with socketToUserId := Function.update m.socketToUserId socket none }

/-- Register a session under an id, and its socket. -/
def addSession (m : SessionManager) (id : UserId) (s : SessionPtr) : SessionManager :=
  { m with
    sessions := Function.update m.sessions id (some (some s))
    socketToUserId := Function.update m.socketToUserId (m.pool s).socket (some id) }

/-- The part of `updateNewId` that ends an older session of the same user on another
socket. -/
def takeOver (m : SessionManager) (s : SessionPtr) : Option SessionManager :=
  let newId := (m.pool s).userId
  match m.sessions newId with
  | none => some m
  | some none => none
  | some (some old) =>
    if (m.pool s).socket ≠ (m.pool old).socket then
      some (((m.eraseSocket (m.pool old).socket).returnSession old).eraseSession newId)
    else some m

/-- Move a session from its temporary id to the id it now has. -/
def updateNewId (m : SessionManager) (id : UserId) (s : SessionPtr) : Option SessionManager :=
  (m.takeOver s).map fun m =>
    let m := (m.eraseSession id).addSession (m.pool s).userId s
    { m with pool := Function.update m.pool s { m.pool s with updated := true } }

/-- Remove the session of an id. -/
def removeSession (m : SessionManager) (id : UserId) : Option SessionManager :=
  match m.sessions id with
  | none => some m
  | some none => none
  | some (some s) => some (((m.eraseSocket (m.pool s).socket).returnSession s).eraseSession id)

/-- Remove the session of a socket. -/
def removeBySocket (m : SessionManager) (socket : Socket) : SessionManager :=
  match m.socketToUserId socket with
  | none => m
  | some id =>
    let m := m.eraseSocket socket
    match m.sessions id with
    | none => m
    | some none => m.eraseSession id
    | some (some s) => (m.returnSession s).eraseSession id

def findSession (m : SessionManager) (id : UserId) : Option SessionPtr := (m.sessions id).join

/-- The session of a socket.  If its id has no entry, `operator[]` makes one. -/
def findBySocket (m : SessionManager) (socket : Socket) : SessionManager × Option SessionPtr :=
  match m.socketToUserId socket with
  | none => (m, none)
  | some id =>
    match m.sessions id with
    | none => ({ m with sessions := Function.update m.sessions id (some none) }, none)
    | some s => (m, s)

/-- The user id of a socket, which is empty if there is none. -/
def getUserIdBySocket (m : SessionManager) (socket : Socket) : UserId :=
  (m.socketToUserId socket).getD []

end SessionManager

/-- The calls that change the sessions: those of the pool and the manager, and the
assignment of a user id by the handlers. -/
inductive SessionOp
  | borrowSession (socket : Socket)
  | setUserId (s : SessionPtr) (id : UserId)
  | addSession (id : UserId) (s : SessionPtr)
  | updateNewId (id : UserId) (s : SessionPtr)
  | removeSession (id : UserId)
  | removeBySocket (socket : Socket)
  | findBySocket (socket : Socket)

/-- A call that changes the sessions. -/
def SessionManager.apply (m : SessionManager) : SessionOp → Option SessionManager
  | .borrowSession socket => (m.borrowSession socket).map Prod.fst
  | .setUserId s id =>
    some { m with pool := Function.update m.pool s { m.pool s with userId := id } }
  | .addSession id s => some (m.addSession id s)
  | .updateNewId id s => m.updateNewId id s
  | .removeSession id => m.removeSession id
  | .removeBySocket socket => some (m.removeBySocket socket)
  | .findBySocket socket => some (m.findBySocket socket).1

end IocpChat

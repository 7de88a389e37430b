import IocpChat.Network.Connections

/-!
# Handles that are used again

A `SOCKET` is a handle.  After `closesocket` the system may give the same handle to the next
connection, while operations of the last one are still pending; they complete with an error
later.  A completion only says which handle it is for.

`handleDisconnect` is kept from running twice by a set of handles, and `acceptLoop` takes the
handle out of the set when it gets it again.  Here every operation and every thread has the
number of the connection it belongs to, which the code does not know, and what
`handleDisconnect` takes from a connection is recorded.

The sessions are those of `Connections`, and so are the steps of a batch of packets.  The
functions of the manager run under its lock, and `HandleDisconnectWithoutLock` inside one of
them, in one step: its entry in the set keeps all others from the handle until it is closed.
The flag `disconnected` of a `ConnectionBuffer` only stops a receive, and is left out.

## Main definitions

* `Handles` — the connections, the operations that are pending, and what was taken from whom.
* `Handles.Worker`, `Handles.exec` — the threads, one step at a time.
-/

namespace IocpChat

open Transition

/-! ## The state -/

/-- What `handleDisconnect` takes from a connection. -/
inductive Handles.Part
  | session
  | buffer
  | socket
  deriving DecidableEq

/-- A connection lost something, by a thread of this one. -/
structure Handles.Teardown where
  cause : ℕ
  victim : ℕ
  part : Handles.Part
  deriving DecidableEq

/-- An operation that the system has taken. -/
structure Handles.Operation where
  socket : Socket
  connection : ℕ
  /-- It is a send, or else a receive. -/
  isSend : Bool
  deriving DecidableEq

/-- The connections.  In `connection` are the last ones on each handle. -/
structure Handles extends Connections where
  /-- The connections the `ConnectionBuffer`s in `socketBuffers` were made for. -/
  socketBuffers : Socket → Option ℕ
  pending : List Handles.Operation
  /-- The handle that a connection was given. -/
  socketOf : ℕ → Socket
  /-- `acceptLoop` has taken the connection's handle out of the set. -/
  setUp : ℕ → Bool
  /-- A connection on the handle was set up. -/
  known : Socket → Bool
  /-- The connection a session was borrowed for. -/
  owner : SessionPtr → Option ℕ
  /-- `handleDisconnect` was called by a thread of the connection, after it was set up. -/
  ended : ℕ → Bool
  /-- How often `closesocket` was called with the handle since the connection got it, and
  before the next one did. -/
  closes : ℕ → ℕ
  teardowns : List Handles.Teardown

namespace Handles

inductive Stage
  /-- In `acceptLoop`, before `CreateIoCompletionPort`. -/
  | associate
  /-- Before the handle is taken out of `disconnectedSockets`. -/
  | clear
  /-- Before the entry in `socketBuffers` is made. -/
  | makeBuffer
  /-- Before `postRecv`. -/
  | post
  | handle (point : Handling)
  /-- Before the rest of a packet is sent. -/
  | resend
  /-- In `handleDisconnect`, before the handle is added to `disconnectedSockets`. -/
  | mark
  /-- Before `getUserIdBySocket`. -/
  | find
  /-- Before `removeSession`. -/
  | remove (userId : UserId)
  /-- Before the entry in `socketBuffers` is erased. -/
  | erase
  /-- Before `closesocket`. -/
  | close
  | done
  deriving DecidableEq

/-- A thread, with the handle it was told and the connection this was. -/
structure Worker where
  connection : ℕ
  socket : Socket
  stage : Stage
  deriving DecidableEq

def new : Handles where
  toConnections := .new
  socketBuffers := fun _ => none
  pending := []
  socketOf := fun _ => 0
  setUp := fun _ => false
  known := fun _ => false
  owner := fun _ => none
  ended := fun _ => false
  closes := fun _ => 0
  teardowns := []

/-! ## What is taken -/

/-- The last connection on a handle. -/
def lastOn (n : Handles) (socket : Socket) : Option ℕ :=
  let m := n.connection socket
  if m < n.accepted ∧ n.socketOf m = socket then some m else none

/-- Something is taken from a connection, if there is one that has it. -/
def record (n : Handles) (cause : ℕ) (part : Part) (victim : Option ℕ) : Handles :=
  { n with teardowns := n.teardowns ++ victim.toList.map fun m => ⟨cause, m, part⟩ }

/-- The entry in `socketBuffers` is erased. -/
def eraseBuffer (n : Handles) (cause : ℕ) (socket : Socket) : Handles :=
  { n.record cause .buffer (n.socketBuffers socket) with
    socketBuffers := Function.update n.socketBuffers socket none }

/-- `closesocket`.  It takes the handle from the connection that has it. -/
def closesocket (n : Handles) (cause : ℕ) (socket : Socket) : Handles :=
  let last := n.lastOn socket
  { n.record cause .socket (if n.isOpen socket then last else none) with
    isOpen := Function.update n.isOpen socket false
    closes := last.elim n.closes fun m => Function.update n.closes m (n.closes m + 1) }

def handleDisconnectWithoutLock (n : Handles) (cause : ℕ) (socket : Socket) : Handles :=
  if n.disconnectedSockets socket then n
  else
    let n := { n with disconnectedSockets := Function.update n.disconnectedSockets socket true }
    (n.eraseBuffer cause socket).closesocket cause socket

/-! ## The threads -/

/-- How a thread of `Connections` goes on. -/
def Stage.ofThread : Thread → Stage
  | .batch _ _ point => .handle point
  | .mark _ => .mark
  | .find _ => .find
  | .remove _ userId => .remove userId
  | .close _ => .close
  | .done => .done

/-- The session that a step of a batch borrows. -/
def borrowed (n : Handles) (socket : Socket) : Handling → Option SessionPtr
  | .borrow _ => (n.sessionManager.borrowSession socket).map Prod.snd
  | _ => none

/-- `WSARecv` or `WSASend`, or `handleDisconnect` if it fails. -/
def post (n : Handles) (e : Choice) (socket : Socket) (isSend : Bool) : Handles × Stage :=
  if e.disconnect ∨ n.isOpen socket = false then (n, .mark)
  else ({ n with pending := n.pending ++ [⟨socket, n.connection socket, isSend⟩] }, .done)

/-- A step of a worker thread with a batch. -/
def handle (n : Handles) (e : Choice) (conn : ℕ) (socket : Socket) :
    Handling → Option (Handles × Stage)
  | .finish => some (n.post e socket false)
  | .update s tempId packets =>
    (n.sessionManager.updateNewId tempId s).map fun m =>
      let n := (n.oldSocket s).elim n (n.handleDisconnectWithoutLock conn)
      ({ n with sessionManager := m }, .handle (.dispatch s packets))
  | point =>
    (n.toConnections.handle e conn socket point).map fun r =>
      ({ n with
          toConnections := r.1
          owner := (n.borrowed socket point).elim n.owner fun s =>
            Function.update n.owner s (some conn) },
        .ofThread r.2)

/-- A step of a thread, and where it goes on. -/
def execStage (n : Handles) (e : Choice) (conn : ℕ) (socket : Socket) :
    Stage → Option (Handles × Stage)
  | .associate => some (if e.disconnect then (n.closesocket conn socket, .done) else (n, .clear))
  | .clear =>
    some ({ n with
      disconnectedSockets := Function.update n.disconnectedSockets socket false
      setUp := Function.update n.setUp conn true
      known := Function.update n.known socket true }, .makeBuffer)
  | .makeBuffer =>
    some ({ n with socketBuffers := Function.update n.socketBuffers socket (some conn) }, .post)
  | .post => some (n.post e socket false)
  | .handle point => n.handle e conn socket point
  | .resend => some (n.post e socket true)
  | .mark =>
    let n := if n.setUp conn then { n with ended := Function.update n.ended conn true } else n
    if n.disconnectedSockets socket then some (n, .done)
    else
      some ({ n with disconnectedSockets := Function.update n.disconnectedSockets socket true },
        .find)
  | .find =>
    let userId := n.sessionManager.getUserIdBySocket socket
    some (n, if userId = [] then .erase else .remove userId)
  | .remove userId =>
    (n.sessionManager.removeSession userId).map fun m =>
      ({ n.record conn .session ((n.sessionManager.findSession userId).bind n.owner) with
          sessionManager := m }, .erase)
  | .erase => some (n.eraseBuffer conn socket, .close)
  | .close => some (n.closesocket conn socket, .done)
  | .done => none

def exec (n : Handles) (e : Choice) (w : Worker) : Option (Handles × Worker) :=
  (n.execStage e w.connection w.socket w.stage).map fun r => (r.1, { w with stage := r.2 })

/-! ## The server -/

/-- The handles and the threads at work. -/
abbrev Server := Config Handles Worker

namespace Server

inductive Outcome
  | failure
  /-- A packet is sent, or these packets are received. -/
  | success (packets : Packets)
  | unfinished

/-- Where the thread that is told of a completion begins.  Nothing can be read from a handle that
is closed. -/
def Outcome.stage (isOpen isSend : Bool) : Outcome → Option Stage
  | .failure => some .mark
  | .success packets =>
    if isSend then some .done
    else if packets = [] then some (.handle .finish)
    else if isOpen then some (.handle (.lookup packets))
    else none
  | .unfinished => if isSend then some .resend else none

inductive Action
  /-- `WSAAccept` gives a handle that is not in use. -/
  | accept (socket : Socket)
  /-- A packet is sent.  Its handle is that of a session, so connections on it were set up. -/
  | send (socket : Socket)
  /-- The `i`-th of the pending operations completes. -/
  | complete (i : ℕ) (outcome : Outcome)
  /-- The `i`-th thread takes a step. -/
  | run (i : ℕ) (e : Choice)

def start : Server := ⟨.new, []⟩

/-- A connection is accepted on a handle. -/
def accept (s : Server) (socket : Socket) : Server :=
  let n := s.shared
  Config.spawn ⟨{ n with
      isOpen := Function.update n.isOpen socket true
      connection := Function.update n.connection socket n.accepted
      socketOf := Function.update n.socketOf n.accepted socket
      accepted := n.accepted + 1 }, s.calls⟩
    ⟨n.accepted, socket, .associate⟩

def step (s : Server) : Action → Option Server
  | .accept socket =>
    if s.shared.isOpen socket ∨ socket = invalidSocket then none else some (s.accept socket)
  | .send socket =>
    if s.shared.isOpen socket ∧ s.shared.known socket then
      let operation := ⟨socket, s.shared.connection socket, true⟩
      some ⟨{ s.shared with pending := s.shared.pending ++ [operation] }, s.calls⟩
    else none
  | .complete i outcome =>
    s.shared.pending[i]?.bind fun o =>
      (outcome.stage (s.shared.isOpen o.socket) o.isSend).map fun stage =>
        Config.spawn ⟨{ s.shared with pending := s.shared.pending.eraseIdx i }, s.calls⟩
          ⟨o.connection, o.socket, stage⟩
  | .run i e => Config.run Handles.exec s i e

end Server

end Handles

end IocpChat

import IocpChat.Authentication.AuthManager
import IocpChat.Protocol.Packet
import IocpChat.Session.Bindings

/-!
# Connections, and the sessions their packets are handled with

`acceptLoop` takes connections, and posts one receive for each.  When it completes, a
worker thread takes the packets that have come, looks up the session of the socket once,
and hands the packets to `MessageRouter::handlePacket` one after the other, all with that
session.  Then it posts the next receive, or disconnects.

Other threads run at the same time: the packets of other connections, and
`handleDisconnect` for any socket on which an operation has failed.  A step is a call of
the manager, of the pool or of the set of disconnected sockets, each of which runs under
a lock, or a part of a thread that only touches its session.

Whether an authentication packet succeeds, and for whom, is not decided here.  A socket
is a handle, which the system gives to another connection after `closesocket`.  A
connection therefore has a number, and it is recorded which connections have
authenticated themselves.

## Main definitions

* `validateSessionHotPath`, `cacheAuthOnSession` — the authentication of a session.
* `Handling`, `Thread`, `Connections.exec` — the threads.
-/

namespace IocpChat

open Bytes Transition

/-! ## Ids -/

/-- `std::to_string`. -/
def toDecimal (n : ℕ) : List UInt8 :=
  if n = 0 then [48] else (Nat.digits 10 n).reverse.map fun d => 48 + UInt8.ofNat d

/-- The id of a session whose user is not known yet. -/
def tempId (socket : Socket) : UserId := toDecimal socket ++ [105, 100]

/-- `UserIdToHexString`. -/
def toHex (id : AccountId) : UserId := hexString id.toList

theorem toDecimal_injective : Function.Injective toDecimal := by
  let parse : List UInt8 → ℕ := fun bytes => Nat.ofDigits 10 (bytes.reverse.map fun b => (b - 48).toNat)
  have hparse : ∀ n, parse (toDecimal n) = n := by
    intro n
    by_cases hn : n = 0
    · subst hn
      decide
    · have hdigit : ∀ d ∈ Nat.digits 10 n, (48 + UInt8.ofNat d - 48).toNat = d := by
        intro d hd
        have hlt := Nat.digits_lt_base (by decide) hd
        have hsub : 48 + UInt8.ofNat d - 48 = UInt8.ofNat d := by
          rw [UInt8.add_comm, UInt8.add_sub_cancel]
        rw [hsub]
        exact Nat.mod_eq_of_lt (by omega)
      simp only [parse, toDecimal, if_neg hn, ← List.map_reverse, List.reverse_reverse, List.map_map]
      have hmap : (Nat.digits 10 n).map ((fun b => (b - 48).toNat) ∘ fun d => 48 + UInt8.ofNat d) =
          (Nat.digits 10 n).map id := List.map_congr_left hdigit
      rw [hmap, List.map_id, Nat.ofDigits_digits]
  exact Function.LeftInverse.injective hparse

theorem tempId_injective : Function.Injective tempId := by
  intro k k' h
  exact toDecimal_injective (List.append_cancel_right h)

theorem tempId_ne_nil (k : Socket) : tempId k ≠ [] := by simp [tempId]

theorem hexDigits_ne :
    ∀ b : UInt8, (105 : UInt8) ∉ [hexDigit (b / 16), hexDigit (b % 16)] :=
  forall_byte (by decide +kernel)

/-- A temporary id has an `i`. -/
theorem toHex_ne_tempId (id : AccountId) (socket : Socket) : toHex id ≠ tempId socket := by
  intro h
  have hmem : (105 : UInt8) ∈ toHex id := by
    rw [h]
    simp [tempId]
  obtain ⟨b, -, hb⟩ := List.mem_flatMap.mp hmem
  exact hexDigits_ne b hb

theorem toHex_ne_nil (id : AccountId) : toHex id ≠ [] := by
  intro h
  have hbytes : id.toList = [] := by
    rw [List.eq_nil_iff_forall_not_mem]
    intro b hb
    have hdigits := List.flatMap_eq_nil_iff.mp h b hb
    cases hdigits
  have hlength := id.toList_length
  rw [hbytes] at hlength
  cases hlength

theorem toHex_injective : Function.Injective toHex :=
  hexString_injective.comp List.Vector.toList_injective

/-! ## The authentication of a session -/

/-- `ValidateSessionHotPath`. -/
def validateSessionHotPath (now : UInt64) (s : Session) : Bool :=
  if s.authState ≠ .authenticated then false else decide (now < s.cachedExpiry)

/-- `CacheAuthOnSession`. -/
def cacheAuthOnSession (userId : AccountId) (expiry : UInt64) (s : Session) : Session :=
  { s with
    cachedUserId := userId
    cachedExpiry := expiry
    authState := .authenticated
    userId := toHex userId }

/-- How `HandleLoginPacket`, `HandleTokenPacket` or `HandleRefreshPacket` ends. -/
inductive AuthOutcome
  | refused
  | granted (userId : AccountId) (expiry : UInt64)
  /-- The user of an access token is cached, but no new tokens could be issued. -/
  | notIssued (userId : AccountId) (expiry : UInt64)
  /-- The family of a refresh token is revoked. -/
  | revoked
  deriving DecidableEq

namespace AuthOutcome

/-- The handler of a packet type can end so. -/
def Possible (type : PacketType) : AuthOutcome → Prop
  | .refused | .granted .. => True
  | .notIssued .. => type = .pktToken
  | .revoked => type = .pktRefresh

instance (type : PacketType) : (outcome : AuthOutcome) → Decidable (outcome.Possible type)
  | .refused | .granted .. => .isTrue trivial
  | .notIssued .. | .revoked => inferInstanceAs (Decidable (_ = _))

/-- What the handler does to the session. -/
def write : AuthOutcome → Session → Session
  | .refused => id
  | .granted userId expiry | .notIssued userId expiry => cacheAuthOnSession userId expiry
  | .revoked => fun s => { s with authState := .unauthenticated, cachedExpiry := 0 }

def success : AuthOutcome → Bool
  | .granted .. => true
  | _ => false

/-- The user who has been authenticated. -/
def user : AuthOutcome → Option AccountId
  | .granted userId _ => some userId
  | _ => none

end AuthOutcome

theorem socket_write (outcome : AuthOutcome) (session : Session) :
    (outcome.write session).socket = session.socket := by
  cases outcome <;> rfl

/-! ## The threads -/

/-- The types of the packets of a batch that are still to be handled; a code that is not
in the enumeration has none. -/
abbrev Packets := List (Option PacketType)

/-- Where a worker thread is with a batch of packets. -/
inductive Handling
  /-- Before `findBySocket`. -/
  | lookup (packets : Packets)
  /-- Before `borrowSession`. -/
  | borrow (packets : Packets)
  /-- Before `addSession`. -/
  | register (s : SessionPtr) (packets : Packets)
  /-- At the top of the loop over the packets. -/
  | dispatch (s : SessionPtr) (packets : Packets)
  /-- Before the handler of an authentication packet, with the id the session had. -/
  | authenticate (s : SessionPtr) (type : PacketType) (tempId : UserId) (packets : Packets)
  /-- The handler has returned true; before `updated` is read. -/
  | granted (s : SessionPtr) (tempId : UserId) (packets : Packets)
  /-- Before `updateNewId`. -/
  | update (s : SessionPtr) (tempId : UserId) (packets : Packets)
  /-- Before `removeSession`. -/
  | logout (s : SessionPtr) (packets : Packets)
  | finish
  deriving DecidableEq

/-- A batch of packets of a connection, or `handleDisconnect` for a socket. -/
inductive Thread
  | batch (connection : ℕ) (socket : Socket) (point : Handling)
  /-- Before the socket is added to `disconnectedSockets`. -/
  | mark (socket : Socket)
  /-- Before `getUserIdBySocket`. -/
  | find (socket : Socket)
  /-- Before `removeSession`. -/
  | remove (socket : Socket) (userId : UserId)
  /-- Before `closesocket`. -/
  | close (socket : Socket)
  | done
  deriving DecidableEq

structure Connections where
  sessionManager : SessionManager
  disconnectedSockets : Socket → Bool
  isOpen : Socket → Bool
  posted : Socket → Bool
  /-- The last connection that was given the handle. -/
  connection : Socket → ℕ
  /-- The number of connections so far. -/
  accepted : ℕ
  /-- The connections that have had an authentication packet succeed. -/
  authenticated : ℕ → Bool
  /-- The last step has ended the handling of an authentication packet that succeeded: its
  session, and the id it had. -/
  processed : Option (SessionPtr × UserId)

/-- What a step depends on besides the state. -/
structure Choice where
  outcome : AuthOutcome
  now : UInt64
  /-- The packets end in a violation of the protocol, or the next receive cannot be
  posted. -/
  disconnect : Bool

namespace Connections

def new : Connections where
  sessionManager := .new
  disconnectedSockets := fun _ => false
  isOpen := fun _ => false
  posted := fun _ => false
  connection := fun _ => 0
  accepted := 0
  authenticated := fun _ => false
  processed := none

/-- The socket of the session that `updateNewId` ends. -/
def oldSocket (c : Connections) (s : SessionPtr) : Option Socket :=
  let newId := (c.sessionManager.pool s).userId
  match c.sessionManager.findSession newId with
  | none => none
  | some old =>
    let oldSocket := (c.sessionManager.pool old).socket
    if (c.sessionManager.pool s).socket ≠ oldSocket then some oldSocket else none

/-- `HandleDisconnectWithoutLock`. -/
def handleDisconnectWithoutLock (c : Connections) (socket : Socket) : Connections :=
  if c.disconnectedSockets socket then c
  else
    { c with
      disconnectedSockets := Function.update c.disconnectedSockets socket true
      isOpen := Function.update c.isOpen socket false }

/-- `handlePacket`, up to the first step that other threads can see. -/
def handlePacket (c : Connections) (now : UInt64) (s : SessionPtr) (packets : Packets) :
    Option PacketType → Handling
  | some .pktLogin => .authenticate s .pktLogin (c.sessionManager.pool s).userId packets
  | some .pktToken => .authenticate s .pktToken (c.sessionManager.pool s).userId packets
  | some .pktRefresh => .authenticate s .pktRefresh (c.sessionManager.pool s).userId packets
  | some .pktLogout =>
    if validateSessionHotPath now (c.sessionManager.pool s) then .logout s packets
    else .dispatch s packets
  | _ => .dispatch s packets

/-- A step of a worker thread with a batch. -/
def handle (c : Connections) (e : Choice) (conn : ℕ) (socket : Socket) :
    Handling → Option (Connections × Thread)
  | .lookup packets =>
    let r := c.sessionManager.findBySocket socket
    some ({ c with sessionManager := r.1 }, .batch conn socket
      (match r.2 with
        | none => .borrow packets
        | some s => .dispatch s packets))
  | .borrow packets =>
    match c.sessionManager.borrowSession socket with
    | none => some (c, .mark socket)
    | some (m, s) =>
      some ({ c with
          sessionManager := m.modifySession s fun session =>
            { session with userId := tempId socket } },
        .batch conn socket (.register s packets))
  | .register s packets =>
    some ({ c with sessionManager := c.sessionManager.addSession (tempId socket) s },
      .batch conn socket (.dispatch s packets))
  | .dispatch _ [] => some (c, .batch conn socket .finish)
  | .dispatch s (type :: packets) =>
    some (c, .batch conn socket (c.handlePacket e.now s packets type))
  | .authenticate s type tempId packets =>
    if e.outcome.Possible type then
      let c := { c with sessionManager := c.sessionManager.modifySession s e.outcome.write }
      if e.outcome.success then
        some ({ c with authenticated := Function.update c.authenticated conn true },
          .batch conn socket (.granted s tempId packets))
      else some (c, .batch conn socket (.dispatch s packets))
    else none
  | .granted s tempId packets =>
    if (c.sessionManager.pool s).updated then
      some ({ c with processed := some (s, tempId) }, .batch conn socket (.dispatch s packets))
    else some (c, .batch conn socket (.update s tempId packets))
  | .update s tempId packets =>
    (c.sessionManager.updateNewId tempId s).map fun m =>
      let c := (c.oldSocket s).elim c c.handleDisconnectWithoutLock
      ({ c with sessionManager := m, processed := some (s, tempId) },
        .batch conn socket (.dispatch s packets))
  | .logout s packets =>
    (c.sessionManager.removeSession (c.sessionManager.pool s).userId).map fun m =>
      ({ c with sessionManager := m }, .batch conn socket (.dispatch s packets))
  | .finish =>
    if e.disconnect then some (c, .mark socket)
    else some ({ c with posted := Function.update c.posted socket true }, .done)

def exec (c : Connections) (e : Choice) (t : Thread) : Option (Connections × Thread) :=
  let c := { c with processed := none }
  match t with
  | .batch conn socket point => c.handle e conn socket point
  | .mark socket =>
    if c.disconnectedSockets socket then some (c, .done)
    else
      some ({ c with disconnectedSockets := Function.update c.disconnectedSockets socket true },
        .find socket)
  | .find socket =>
    let userId := c.sessionManager.getUserIdBySocket socket
    some (c, if userId = [] then .close socket else .remove socket userId)
  | .remove socket userId =>
    (c.sessionManager.removeSession userId).map fun m =>
      ({ c with sessionManager := m }, .close socket)
  | .close socket => some ({ c with isOpen := Function.update c.isOpen socket false }, .done)
  | .done => none

end Connections

/-! ## The server -/

/-- The connections and the threads at work. -/
abbrev Workers := Config Connections Thread

namespace Workers

inductive Action
  /-- A connection is accepted on a handle that is not in use, and a receive is posted. -/
  | accept (socket : Socket) (posted : Bool)
  /-- A receive completes, with these packets. -/
  | receive (socket : Socket) (packets : Packets)
  /-- A send completes with an error. -/
  | sendFailed (socket : Socket)
  /-- A receive completes with an error. -/
  | receiveFailed (socket : Socket)
  /-- The `i`-th thread takes a step. -/
  | run (i : ℕ) (e : Choice)

def new : Workers := ⟨.new, []⟩

/-- The socket is accepted.  If no receive can be posted, it is disconnected. -/
def accept (w : Workers) (socket : Socket) (posted : Bool) : Workers :=
  let c := w.shared
  let w : Workers := ⟨{ c with
    disconnectedSockets := Function.update c.disconnectedSockets socket false
    isOpen := Function.update c.isOpen socket true
    posted := Function.update c.posted socket posted
    connection := Function.update c.connection socket c.accepted
    accepted := c.accepted + 1
    processed := none }, w.calls⟩
  if posted then w else w.spawn (.mark socket)

def step (w : Workers) : Action → Option Workers
  | .accept socket posted => if w.shared.isOpen socket then none else some (w.accept socket posted)
  | .receive socket packets =>
    -- nothing can be read from a handle that is closed
    if w.shared.posted socket ∧ (packets = [] ∨ w.shared.isOpen socket) then
      let c := { w.shared with
        posted := Function.update w.shared.posted socket false
        processed := none }
      let point := if packets = [] then Handling.finish else .lookup packets
      some (Config.spawn ⟨c, w.calls⟩ (.batch (c.connection socket) socket point))
    else none
  | .sendFailed socket => some (Config.spawn ⟨{ w.shared with processed := none }, w.calls⟩ (.mark socket))
  | .receiveFailed socket =>
    if w.shared.posted socket then
      let c := { w.shared with
        posted := Function.update w.shared.posted socket false
        processed := none }
      some (Config.spawn ⟨c, w.calls⟩ (.mark socket))
    else none
  | .run i e => Config.run Connections.exec w i e

end Workers

end IocpChat

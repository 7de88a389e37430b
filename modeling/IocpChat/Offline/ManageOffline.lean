import IocpChat.Lib.Transition
import IocpChat.DataStructure.Mpsc
import IocpChat.Session.SessionManager
import Mathlib.Data.List.Count

/-!
# `ManageOffline` for one receiver

Packets for a receiver go through a queue, and a flag tells whether one of them is
in flight.  A call of `ManageCompletePacket` pushes its packet and then tries to take
the flag; whoever takes it sends the front of the queue.  When a send completes,
`drainNext` pops the packet and sends the next one, or gives the flag back.
`notifySend` takes the flag for a receiver that has come back.

Any number of these calls run at the same time.  A call is given by the point of its
code it has come to, and `exec` is one step: one operation on an atomic variable, or
one call into the rest of the server.  What the rest of the server answers is the
environment's choice, so the same calls serve for a receiver whose sends all succeed
and inside the whole server.

## Main definitions

* `ClientQueue` — the queue and the flag, the sends in flight, and the history.
* `Call`, `exec` — the calls, one atomic step at a time.
* `Receiver`, `Receiver.step` — a receiver with the calls in progress on its queue.
-/

namespace IocpChat

open Transition MpscQueue

/-- A packet taken from the pool.  A packet that is returned and borrowed again is
another one. -/
abbrev PacketId := ℕ

/-! ## The state -/

/-- A packet of the queue that was handed to `WSASend` and has not completed. -/
structure Outstanding where
  packet : PacketId
  socket : Socket
  deriving DecidableEq

/-- The `clientQueue` of a receiver.  An item of the queue is its packet; the
receiver's name in it is never read. -/
structure ClientQueue where
  queue : MpscQueue PacketId
  flag : Bool
  /-- The receiver has an entry in `queue_per_client`. -/
  mapped : Bool
  outstanding : List Outstanding
  /-- The packets `ManageCompletePacket` was called with. -/
  enqueued : List PacketId
  /-- The packets in the order in which their nodes were exchanged into `head`. -/
  exchanged : List PacketId
  /-- The packets that were passed to `initiateSend`, but for null ones. -/
  initiated : List PacketId
  /-- The packets that were completely sent. -/
  completed : List PacketId

/-- A receiver that nothing was enqueued for. -/
def ClientQueue.new : ClientQueue := ⟨.new, false, false, [], [], [], [], []⟩

/-! ## The calls -/

/-- The places at which `empty` is called. -/
inductive Test
  | notify
  /-- In `drainNext`, before the completed packet is popped. -/
  | first (socket : Socket)
  /-- In `drainNext`, after that. -/
  | again (socket : Socket)
  deriving DecidableEq

/-- The point a call has come to.  A packet that is `none` is the null packet of a
default-constructed item. -/
inductive Call
  | alloc (p : PacketId)
  | exchange (p : PacketId) (node : ℕ)
  | link (prev node : ℕ)
  /-- The `compare_exchange` of `ManageCompletePacket` (`pushed`) or `notifySend`. -/
  | cas (pushed : Bool)
  /-- `empty`, before its first load or with the tail it has loaded. -/
  | empty (test : Test) (tail_ : Option ℕ)
  | pop (socket : Socket) (c : Cursor)
  | advance (socket : Socket) (tail_ next_ : ℕ)
  /-- `front`, by the thread that took the flag or by `drainNext` for a socket. -/
  | front (socket : Option Socket) (c : Cursor)
  /-- `routePacket`, before `findSession`. -/
  | route (p : Option PacketId)
  /-- `routePacket`, before the session's socket is read. -/
  | deref (session : SessionPtr) (p : Option PacketId)
  | send (socket : Socket) (p : Option PacketId)
  /-- Before `flag.store(false)`. -/
  | release
  | done
  /-- `initiateSend` was called with a null packet. -/
  | crashed
  deriving DecidableEq

/-- What a step may depend on besides the receiver's state. -/
structure Env where
  /-- What a load from a deleted node gives. -/
  junk : Option ℕ
  /-- What `findSession` gives for the receiver. -/
  found : Option SessionPtr
  socketOf : SessionPtr → Socket
  /-- Whether `WSASend` takes the packet. -/
  accepted : Bool

/-- How a call goes on after `empty`. -/
def Test.after (isEmpty : Bool) : Test → Call
  | .notify => if isEmpty then .done else .cas false
  | .first socket => if isEmpty then .empty (.again socket) none else .pop socket .loadTail
  | .again socket => if isEmpty then .release else .front (some socket) .loadTail

/-- How a call goes on after `front`. -/
def afterFront (p : Option PacketId) : Option Socket → Call
  | none => .route p
  | some socket => .send socket p

/-- One step of a call.  A crash stops the process; here the other calls may still go
on, which only adds runs. -/
def ClientQueue.exec (c : ClientQueue) (env : Env) : Call → Option (ClientQueue × Call)
  | .alloc p => some ({ c with queue := c.queue.alloc p }, .exchange p c.queue.fresh)
  | .exchange p node =>
    some ({ c with queue := c.queue.exchange node, exchanged := c.exchanged ++ [p] },
      .link c.queue.head node)
  | .link prev node => some ({ c with queue := c.queue.link prev node }, .cas true)
  | .cas _ => if c.flag then some (c, .done) else some ({ c with flag := true }, .front none .loadTail)
  | .empty test none => some (c, .empty test (some c.queue.tail))
  | .empty test (some tail_) => some (c, test.after (c.queue.loadNext env.junk tail_).isNone)
  | .pop socket cursor =>
    match c.queue.peek env.junk cursor with
    | .more cursor' => some (c, .pop socket cursor')
    | .empty => some (c, .empty (.again socket) none)
    | .found tail_ next_ => some (c, .advance socket tail_ next_)
  | .advance socket tail_ next_ =>
    some ({ c with queue := c.queue.advance tail_ next_ }, .empty (.again socket) none)
  | .front socket cursor =>
    match c.queue.peek env.junk cursor with
    | .more cursor' => some (c, .front socket cursor')
    | .empty => some (c, afterFront none socket)
    | .found _ next_ =>
      match c.queue.data next_ with
      | none => some (c, .crashed)
      | some p => some (c, afterFront (some p) socket)
  | .route p =>
    match env.found with
    | none => some (c, .release)
    | some session => some (c, .deref session p)
  | .deref session p => some (c, .send (env.socketOf session) p)
  | .send _ none => some (c, .crashed)
  | .send socket (some p) =>
    if env.accepted then
      some ({ c with outstanding := c.outstanding ++ [⟨p, socket⟩], initiated := c.initiated ++ [p] },
        .done)
    else some ({ c with initiated := c.initiated ++ [p] }, .release)
  | .release => some ({ c with flag := false }, .done)
  | .done => none
  | .crashed => none

/-! ## What a step does -/

/-- The call is one of `ManageCompletePacket` that has not yet tried to take the flag. -/
def Call.coming : Call → Bool
  | .alloc _ | .exchange .. | .link .. | .cas true => true
  | _ => false

/-- What one step does to the shared state. -/
inductive ClientQueue.Effect (c : ClientQueue) (env : Env) : Call → ClientQueue → Call → Prop
  | alloc (p : PacketId) :
      c.Effect env (.alloc p) { c with queue := c.queue.alloc p } (.exchange p c.queue.fresh)
  | exchange (p : PacketId) (node : ℕ) :
      c.Effect env (.exchange p node)
        { c with queue := c.queue.exchange node, exchanged := c.exchanged ++ [p] }
        (.link c.queue.head node)
  | link (prev node : ℕ) :
      c.Effect env (.link prev node) { c with queue := c.queue.link prev node } (.cas true)
  | take (pushed : Bool) (h : c.flag = false) :
      c.Effect env (.cas pushed) { c with flag := true } (.front none .loadTail)
  | advance (socket : Socket) (tail_ next_ : ℕ) :
      c.Effect env (.advance socket tail_ next_) { c with queue := c.queue.advance tail_ next_ }
        (.empty (.again socket) none)
  | accept (socket : Socket) (p : PacketId) (h : env.accepted = true) :
      c.Effect env (.send socket (some p))
        { c with outstanding := c.outstanding ++ [⟨p, socket⟩], initiated := c.initiated ++ [p] } .done
  | reject (socket : Socket) (p : PacketId) (h : env.accepted = false) :
      c.Effect env (.send socket (some p)) { c with initiated := c.initiated ++ [p] } .release
  | release : c.Effect env .release { c with flag := false } .done
  | read (call call' : Call) (h : call.coming = false ∨ c.flag = true) : c.Effect env call c call'

section Exec

variable {c c' : ClientQueue} {env : Env} {call call' : Call}

/-- The `compare_exchange` fails on a flag that is set, and sets it otherwise. -/
theorem ClientQueue.exec_cas_cases {pushed : Bool}
    (h : c.exec env (.cas pushed) = some (c', call')) :
    (c.flag = true ∧ c' = c ∧ call' = .done) ∨
    (c.flag = false ∧ c' = { c with flag := true } ∧ call' = .front none .loadTail) := by
  cases hflag : c.flag with
  | true =>
    simp only [exec, hflag, if_true] at h
    cases h
    exact .inl ⟨rfl, rfl, rfl⟩
  | false =>
    simp only [exec, hflag, Bool.false_eq_true, if_false] at h
    cases h
    exact .inr ⟨rfl, rfl, rfl⟩

/-- A packet that is passed to `initiateSend` is outstanding if `WSASend` takes it. -/
theorem ClientQueue.exec_send_cases {socket : Socket} {p : PacketId}
    (h : c.exec env (.send socket (some p)) = some (c', call')) :
    (env.accepted = true ∧ call' = .done ∧ c' = { c with
        outstanding := c.outstanding ++ [⟨p, socket⟩], initiated := c.initiated ++ [p] }) ∨
    (env.accepted = false ∧ call' = .release ∧
      c' = { c with initiated := c.initiated ++ [p] }) := by
  cases haccepted : env.accepted with
  | true =>
    simp only [exec, haccepted, if_true] at h
    cases h
    exact .inl ⟨rfl, rfl, rfl⟩
  | false =>
    simp only [exec, haccepted, Bool.false_eq_true, if_false] at h
    cases h
    exact .inr ⟨rfl, rfl, rfl⟩

theorem ClientQueue.effect_of_exec (h : c.exec env call = some (c', call')) :
    c.Effect env call c' call' := by
  cases call with
  | alloc p =>
    cases h
    exact .alloc p
  | exchange p node =>
    cases h
    exact .exchange p node
  | link prev node =>
    cases h
    exact .link prev node
  | cas pushed =>
    rcases exec_cas_cases h with ⟨hflag, rfl, rfl⟩ | ⟨hflag, rfl, rfl⟩
    · exact .read _ _ (.inr hflag)
    · exact .take pushed hflag
  | advance socket t n =>
    cases h
    exact .advance socket t n
  | send socket p =>
    cases p with
    | none =>
      cases h
      exact .read _ _ (.inl rfl)
    | some p =>
      rcases exec_send_cases h with ⟨haccepted, rfl, rfl⟩ | ⟨hrejected, rfl, rfl⟩
      · exact .accept socket p haccepted
      · exact .reject socket p hrejected
  | release =>
    cases h
    exact .release
  | empty test t =>
    cases t with
    | none | some =>
      cases h
      exact .read _ _ (.inl rfl)
  | front socket cursor =>
    simp only [exec] at h
    split at h
    · cases h
      exact .read _ _ (.inl rfl)
    · cases h
      exact .read _ _ (.inl rfl)
    · split at h <;> cases h <;> exact .read _ _ (.inl rfl)
  | deref session p =>
    cases h
    exact .read _ _ (.inl rfl)
  | done | crashed => cases h
  | _ =>
    simp only [exec] at h
    split at h <;> cases h <;> exact .read _ _ (.inl rfl)

end Exec

/-! ## A receiver -/

/-- The queue of a receiver and the calls in progress on it. -/
abbrev Receiver := Config ClientQueue Call

namespace Receiver

def new : Receiver := ⟨.new, []⟩

/-- `ManageCompletePacket` is called. -/
def manageCompletePacket (r : Receiver) (p : PacketId) : Receiver :=
  Config.spawn { r with shared := { r.shared with mapped := true, enqueued := r.shared.enqueued ++ [p] } }
    (.alloc p)

/-- `notifySend` is called.  It returns if the receiver has no entry. -/
def notifySend (r : Receiver) : Receiver :=
  if r.shared.mapped then r.spawn (.empty .notify none) else r

/-- `drainNext` is called.  It returns if the receiver has no entry. -/
def drainNext (r : Receiver) (socket : Socket) : Receiver :=
  if r.shared.mapped then r.spawn (.empty (.first socket) none) else r

/-- `clearFlag`, which does nothing if the receiver has no entry. -/
def clearFlag (r : Receiver) : Receiver :=
  if r.shared.mapped then { r with shared := { r.shared with flag := false } } else r

/-- The completion of the `i`-th outstanding send is taken from the port. -/
def dequeue (r : Receiver) (i : ℕ) : Receiver :=
  { r with shared := { r.shared with outstanding := r.shared.outstanding.eraseIdx i } }

/-- A packet has been sent to its end. -/
def complete (r : Receiver) (p : PacketId) : Receiver :=
  { r with shared := { r.shared with completed := r.shared.completed ++ [p] } }

/-- What happens to a receiver whose completions find the receiver itself. -/
inductive Action
  | enqueue (p : PacketId)
  | notify
  /-- The `i`-th outstanding packet is completely sent: `drainNext`. -/
  | complete (i : ℕ)
  /-- The rest of the `i`-th outstanding packet is not accepted: `clearFlag`. -/
  | resendFailed (i : ℕ)
  /-- The `i`-th call takes a step. -/
  | run (i : ℕ) (env : Env)

def step (r : Receiver) : Action → Option Receiver
  | .enqueue p => some (r.manageCompletePacket p)
  | .notify => some r.notifySend
  | .complete i =>
    r.shared.outstanding[i]?.map fun o => ((r.dequeue i).complete o.packet).drainNext o.socket
  | .resendFailed i => r.shared.outstanding[i]?.map fun _ => (r.dequeue i).clearFlag
  | .run i env => Config.run ClientQueue.exec r i env

def Quiescent (r : Receiver) : Prop := ∀ call ∈ r.calls, call = .done

instance (r : Receiver) : Decidable r.Quiescent := inferInstanceAs (Decidable (∀ call ∈ r.calls, _))

end Receiver

end IocpChat

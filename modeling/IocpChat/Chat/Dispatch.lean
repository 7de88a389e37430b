import IocpChat.Chat.Handlers
import IocpChat.Network.Connections
import IocpChat.Pool.PacketPool

/-!
# The packets of the pool, from hand to hand

A packet is taken from the pool when it is received, and passed on by pointer: to
`MessageRouter::handlePacket`, from there to a handler or to the queue of a receiver, to
`WSASend`, and at last back to the pool.  Some handlers borrow packets of their own for
replies.  Here each of these calls runs to its end, so that it can be seen who has which
packet between them.

What the packets say does not matter, as far as it does not decide where they go.  What the
rest of the server answers (sessions, credentials, files, `WSASend`) is given with each
event.  Using a null packet stops the server: there is no next state.

## Main definitions

* `Hub` — the pool, the queues, the sends that are outstanding and the packets to dispatch.
* `Hub.manageCompletePacket`, `Hub.drainNext`, `Hub.notifySend` — the queues.
* `Hub.step` — receiving, dispatching, and the completions of sends.
-/

namespace IocpChat

/-! ## The state -/

/-- The `clientQueue` of a receiver, between calls. -/
structure SendQueue where
  queue : List PacketPtr
  flag : Bool
  /-- The receiver has an entry in `queue_per_client`. -/
  mapped : Bool

/-- A packet that `WSASend` has taken. -/
structure Sending where
  packet : PacketPtr
  socket : Socket
  deriving DecidableEq

/-- What decides where a received packet goes.  `workerThread` takes no packet that does not
fit in `Packet::data`. -/
structure Arrival where
  /-- `parseHeader` and `parseData` succeed. -/
  parsed : Bool
  type : UInt16
  payloadLength : UInt32
  receiverId : AccountId
  senderId : AccountId
  length_le : headerSize + payloadLength.toNat ≤ dataSize

/-- What the rest of the server answers during an event. -/
structure Outside where
  /-- The socket of the session that `findSession` gives. -/
  findSession : UserId → Option Socket
  /-- Whether `WSASend` takes a packet, in turn. -/
  wsaSend : List Bool

/-- What a dispatch depends on besides the packet. -/
structure Context extends Outside where
  /-- The session passes `ValidateSessionHotPath`. -/
  valid : Bool
  socket : Socket
  userId : UserId
  updated : Bool
  authManager : Bool
  signUpManager : Bool
  /-- An authentication packet succeeds. -/
  success : Bool
  /-- The sign-up manager has a reply. -/
  signUpReply : Bool
  /-- The receiver of the file manager's reply, if there is one. -/
  fileReply : Option UserId

structure Hub where
  pool : PacketPool
  queues : UserId → SendQueue
  outstanding : List Sending
  groups : UserId → Option (List UserId)
  /-- The packets that were received and not yet dispatched. -/
  batch : List (PacketPtr × Arrival)
  /-- What `WSASend` will answer during the event. -/
  wsaSend : List Bool

namespace Hub

def new (groups : UserId → Option (List UserId)) : Hub :=
  ⟨.new, fun _ => ⟨[], false, false⟩, [], groups, [], []⟩

/-! ## The pool and the sockets -/

def borrowPacket (h : Hub) : Option (Hub × Option PacketPtr) :=
  h.pool.borrowPacket.map fun r => ({ h with pool := r.1 }, r.2)

def returnPacket (h : Hub) (p : PacketPtr) : Hub := { h with pool := h.pool.returnPacket p }

/-- `p->bypassQueue = true`. -/
def setBypass (h : Hub) (p : PacketPtr) : Hub :=
  { h with pool := { h.pool with bypassQueue := Function.update h.pool.bypassQueue p true } }

/-- `initiateSend`, and whether it succeeds. -/
def initiateSend (h : Hub) (socket : Socket) (p : PacketPtr) : Hub × Bool :=
  if h.wsaSend.headD false then
    ({ h with wsaSend := h.wsaSend.tail, outstanding := h.outstanding ++ [⟨p, socket⟩] }, true)
  else ({ h with wsaSend := h.wsaSend.tail }, false)

/-- `routePacket`.  A session that is registered has its `iocp` set. -/
def routePacket (h : Hub) (env : Outside) (p : PacketPtr) (recvId : UserId) : Hub × Bool :=
  if recvId = [] then (h, false)
  else
    match env.findSession recvId with
    | none => (h, false)
    | some socket => h.initiateSend socket p

/-! ## The queues -/

def setQueue (h : Hub) (u : UserId) (q : SendQueue) : Hub :=
  { h with queues := Function.update h.queues u q }

def setFlag (h : Hub) (u : UserId) (flag : Bool) : Hub := h.setQueue u { h.queues u with flag }

/-- Send the front of a queue if nothing is in flight: the second half of
`ManageCompletePacket` and of `notifySend`. -/
def sendFront (h : Hub) (env : Outside) (u : UserId) : Hub :=
  if (h.queues u).flag then h
  else
    match (h.queues u).queue with
    | [] => h
    | front :: _ =>
      let r := (h.setFlag u true).routePacket env front u
      if r.2 then r.1 else r.1.setFlag u false

def manageCompletePacket (h : Hub) (env : Outside) (p : PacketPtr) (recvId : UserId) : Hub :=
  let q := h.queues recvId
  (h.setQueue recvId { q with queue := q.queue ++ [p], mapped := true }).sendFront env recvId

/-- `notifySend`, which returns if the receiver has no entry or an empty queue. -/
def notifySend (h : Hub) (env : Outside) (recvId : UserId) : Hub :=
  if (h.queues recvId).mapped then h.sendFront env recvId else h

/-- The part of `drainNext` after the completed packet was popped. -/
def sendNext (h : Hub) (recvId : UserId) (socket : Socket) : Hub :=
  match (h.queues recvId).queue with
  | [] => h.setFlag recvId false
  | next :: _ =>
    let r := h.initiateSend socket next
    if r.2 then r.1 else r.1.setFlag recvId false

/-- The front of a queue is removed, if there is one. -/
def pop (h : Hub) (u : UserId) : Hub :=
  h.setQueue u { h.queues u with queue := (h.queues u).queue.tail }

def drainNext (h : Hub) (recvId : UserId) (socket : Socket) : Hub :=
  if (h.queues recvId).mapped then (h.pop recvId).sendNext recvId socket else h

def clearFlag (h : Hub) (recvId : UserId) : Hub :=
  if (h.queues recvId).mapped then h.setFlag recvId false else h

/-! ## Replies -/

/-- A reply of the authentication manager. -/
def sendResponse (h : Hub) (socket : Socket) : Option Hub :=
  h.borrowPacket.map fun r =>
    match r.2 with
    | none => r.1
    | some response =>
      let sent := (r.1.setBypass response).initiateSend socket response
      if sent.2 then sent.1 else sent.1.returnPacket response

def sendAuthFailure (h : Hub) (ctx : Context) : Option Hub := h.sendResponse ctx.socket

def sendTokenGranted (h : Hub) (ctx : Context) : Option Hub := h.sendResponse ctx.socket

/-- A packet that is routed to a user past the queues.  It is not checked for null. -/
def routeReply (h : Hub) (env : Outside) (recvId : UserId) : Option Hub :=
  h.borrowPacket.bind fun r =>
    r.2.map fun p =>
      let routed := (r.1.setBypass p).routePacket env p recvId
      if routed.2 then routed.1 else routed.1.returnPacket p

/-- A packet of the file manager.  It is not checked for null. -/
def sendFilePacket (h : Hub) (env : Outside) (recvId : UserId) : Option Hub :=
  h.borrowPacket.bind fun r => r.2.map fun p => r.1.manageCompletePacket env p recvId

/-! ## The handlers -/

/-- The handlers of the authentication packets return their packet, and send one reply. -/
def handleAuthPacket (h : Hub) (ctx : Context) (p : PacketPtr) : Option Hub :=
  if ctx.success then (h.returnPacket p).sendTokenGranted ctx
  else (h.returnPacket p).sendAuthFailure ctx

def handleLoginPacket (h : Hub) (ctx : Context) (p : PacketPtr) : Option Hub := h.handleAuthPacket ctx p

def handleTokenPacket (h : Hub) (ctx : Context) (p : PacketPtr) : Option Hub := h.handleAuthPacket ctx p

def handleRefreshPacket (h : Hub) (ctx : Context) (p : PacketPtr) : Option Hub :=
  h.handleAuthPacket ctx p

/-- The handlers of the sign-up packets return their packet, and may route a reply. -/
def handleSignUpPacket (h : Hub) (ctx : Context) (p : PacketPtr) : Option Hub :=
  if ctx.signUpReply then (h.returnPacket p).routeReply ctx.toOutside ctx.userId
  else some (h.returnPacket p)

def otpRequestHandler (h : Hub) (ctx : Context) (p : PacketPtr) : Option Hub :=
  h.handleSignUpPacket ctx p

def onOtpVerificationRequest (h : Hub) (ctx : Context) (p : PacketPtr) : Option Hub :=
  h.handleSignUpPacket ctx p

def signUpRequestHandler (h : Hub) (ctx : Context) (p : PacketPtr) : Option Hub :=
  h.handleSignUpPacket ctx p

/-- The handlers of the file packets that may be answered. -/
def handleFilePacket (h : Hub) (ctx : Context) (p : PacketPtr) : Option Hub :=
  match ctx.fileReply with
  | none => some (h.returnPacket p)
  | some recvId => (h.returnPacket p).sendFilePacket ctx.toOutside recvId

def handleFileStart (h : Hub) (ctx : Context) (p : PacketPtr) : Option Hub := h.handleFilePacket ctx p

def handleRoundEnd (h : Hub) (ctx : Context) (p : PacketPtr) : Option Hub := h.handleFilePacket ctx p

def handleFileEnd (h : Hub) (ctx : Context) (p : PacketPtr) : Option Hub := h.handleFilePacket ctx p

def handleFileChunk (h : Hub) (p : PacketPtr) : Hub := h.returnPacket p

def onAckReceived (h : Hub) (p : PacketPtr) : Hub := h.returnPacket p

/-- `HandleDisconnectRequest`, whose check of the length can only fail by an overflow. -/
def handleDisconnectRequest (h : Hub) (p : PacketPtr) (r : Arrival) : Hub :=
  if (packetSize r.payloadLength).toNat < headerSize then h else h.returnPacket p

/-- `HandleDownloadRequest`, which sends an error or the start of the file. -/
def handleDownloadRequest (h : Hub) (ctx : Context) (p : PacketPtr) (r : Arrival) : Option Hub :=
  (h.returnPacket p).sendFilePacket ctx.toOutside (toHex r.receiverId)

/-! ## Groups -/

def createGroup (h : Hub) (groupId adminId : UserId) : Hub :=
  match h.groups groupId with
  | some _ => h
  | none => { h with groups := Function.update h.groups groupId (some [adminId]) }

def joinGroup (h : Hub) (groupId userId : UserId) : Hub :=
  match h.groups groupId with
  | none => h
  | some members =>
    if userId ∈ members then h
    else { h with groups := Function.update h.groups groupId (some (members ++ [userId])) }

def leaveGroup (h : Hub) (groupId userId : UserId) : Hub :=
  match h.groups groupId with
  | none => h
  | some members =>
    if userId ∈ members then
      let left := members.erase userId
      { h with groups := Function.update h.groups groupId (if left = [] then none else some left) }
    else h

/-- The loop of `routeGroupMessage` over the members.  It returns if the pool is empty. -/
def fanOut (h : Hub) (env : Outside) (senderId : UserId) : List UserId → Option (Hub × Bool)
  | [] => some (h, true)
  | memberId :: members =>
    if memberId = senderId then h.fanOut env senderId members
    else
      match h.borrowPacket with
      | none => none
      | some (h, none) => some (h, false)
      | some (h, some outgoing) =>
        (h.manageCompletePacket env outgoing memberId).fanOut env senderId members

def routeGroupMessage (h : Hub) (env : Outside) (p : PacketPtr) (r : Arrival) : Option Hub :=
  match h.groups (toHex r.receiverId) with
  | none => some h
  | some members =>
    (h.fanOut env (toHex r.senderId) members).map fun result =>
      if result.2 then result.1.returnPacket p else result.1

/-! ## The dispatch -/

/-- The packet is refused for want of authentication. -/
def refuses (ctx : Context) (r : Arrival) : Bool :=
  !((PacketType.ofCode r.type).any bypassAuth) && !ctx.valid

/-- What follows the handler of a `PKT_LOGIN` packet. -/
def afterLogin (h : Hub) (ctx : Context) : Option Hub :=
  if ctx.success then
    (if ctx.updated then some h else h.routeReply ctx.toOutside ctx.userId).map fun h =>
      h.notifySend ctx.toOutside ctx.userId
  else some h

/-- What follows the handlers of `PKT_TOKEN` and `PKT_REFRESH` packets. -/
def afterToken (h : Hub) (ctx : Context) : Hub :=
  if ctx.success then h.notifySend ctx.toOutside ctx.userId else h

/-- The `switch` of `handlePacket`. -/
def route (h : Hub) (ctx : Context) (p : PacketPtr) (r : Arrival) : Option PacketType → Option Hub
  | some .pktLogin =>
    if ctx.authManager then (h.handleLoginPacket ctx p).bind fun h => h.afterLogin ctx
    else some (h.returnPacket p)
  | some .pktToken =>
    if ctx.authManager then (h.handleTokenPacket ctx p).map fun h => h.afterToken ctx
    else some (h.returnPacket p)
  | some .pktRefresh =>
    if ctx.authManager then (h.handleRefreshPacket ctx p).map fun h => h.afterToken ctx
    else some (h.returnPacket p)
  | some .pktLogout => some (h.returnPacket p)
  | some .pktPrivateMessage => some (h.manageCompletePacket ctx.toOutside p (toHex r.receiverId))
  | some .pktGroupMessage => h.routeGroupMessage ctx.toOutside p r
  | some .pktCreateGroup => some (h.createGroup (toHex r.receiverId) (toHex r.senderId))
  | some .pktJoinGroup => some (h.joinGroup (toHex r.receiverId) (toHex r.senderId))
  | some .pktLeaveGroup => some (h.leaveGroup (toHex r.receiverId) (toHex r.senderId))
  | some .pktFileStart => h.handleFileStart ctx p
  | some .pktFileChunk => some (h.handleFileChunk p)
  | some .pktRoundEnd => h.handleRoundEnd ctx p
  | some .pktFileEnd => h.handleFileEnd ctx p
  | some .pktFileAck => some (h.onAckReceived p)
  | some .pktAcknowledgment => some (h.returnPacket p)
  | some .pktResume => some h
  | some .fileDwnldDisconnectRequest => some (h.handleDisconnectRequest p r)
  | some .downloadRequest => h.handleDownloadRequest ctx p r
  | some .pktOtpReq => if ctx.signUpManager then h.otpRequestHandler ctx p else some h
  | some .pktOtpVerify => if ctx.signUpManager then h.onOtpVerificationRequest ctx p else some h
  | some .pktSignUp => if ctx.signUpManager then h.signUpRequestHandler ctx p else some h
  | _ => some h

/-- `MessageRouter::handlePacket`, which always returns true. -/
def handlePacket (h : Hub) (ctx : Context) (p : PacketPtr) (r : Arrival) : Option Hub :=
  if refuses ctx r then
    (if ctx.authManager then h.sendAuthFailure ctx else some h).map fun h => h.returnPacket p
  else h.route ctx p r (PacketType.ofCode r.type)

/-! ## Events -/

/-- Packets are taken from a connection, until the pool is empty. -/
def receive (h : Hub) : List Arrival → Option Hub
  | [] => some h
  | r :: packets =>
    match h.borrowPacket with
    | none => none
    | some (h, none) => some h
    | some (h, some p) => { h with batch := h.batch ++ [(p, r)] }.receive packets

inductive Event
  /-- A receive completes, with these packets in the buffer. -/
  | receive (packets : List Arrival)
  /-- The `i`-th packet to dispatch is dispatched. -/
  | dispatch (i : ℕ) (ctx : Context)
  /-- It is returned, because there is no session for its connection. -/
  | noSession (i : ℕ)
  /-- A thread of the file manager enqueues a packet for a user. -/
  | produce (recvId : UserId) (env : Outside)
  /-- The `i`-th outstanding packet is completely sent, and this user is on its socket. -/
  | sent (i : ℕ) (recvId : UserId) (env : Outside)
  | failed (i : ℕ) (recvId : UserId) (env : Outside)
  /-- It is partly sent, and `WSASend` does not take the rest. -/
  | resendFailed (i : ℕ) (recvId : UserId)

/-- The `i`-th outstanding send is taken from the completion port. -/
def dequeue (h : Hub) (i : ℕ) : Hub := { h with outstanding := h.outstanding.eraseIdx i }

/-- The `i`-th packet is taken from those to dispatch. -/
def unbatch (h : Hub) (i : ℕ) : Hub := { h with batch := h.batch.eraseIdx i }

def step (h : Hub) : Event → Option Hub
  | .receive packets => h.receive packets
  | .dispatch i ctx =>
    h.batch[i]?.bind fun b =>
      let h := { h.unbatch i with wsaSend := ctx.wsaSend }
      if b.2.parsed then h.handlePacket ctx b.1 b.2 else some (h.returnPacket b.1)
  | .noSession i => h.batch[i]?.map fun b => (h.unbatch i).returnPacket b.1
  | .produce recvId env => { h with wsaSend := env.wsaSend }.sendFilePacket env recvId
  | .sent i recvId env =>
    h.outstanding[i]?.map fun o =>
      let h := { h.dequeue i with wsaSend := env.wsaSend }
      if h.pool.bypassQueue o.packet then h.returnPacket o.packet
      else (h.returnPacket o.packet).drainNext recvId o.socket
  | .failed i recvId env =>
    h.outstanding[i]?.map fun o =>
      let h := { h.dequeue i with wsaSend := env.wsaSend }
      if h.pool.bypassQueue o.packet then h.returnPacket o.packet
      else h.manageCompletePacket env o.packet recvId
  | .resendFailed i recvId => h.outstanding[i]?.map fun _ => (h.dequeue i).clearFlag recvId

end Hub

end IocpChat

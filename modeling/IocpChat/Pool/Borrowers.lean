import IocpChat.Chat.Dispatch
import IocpChat.DataStructure.FixedQueue
import IocpChat.Lib.Program

/-!
# Who borrows from the pools

Packets come from the `PacketPool` and the contexts of operations from the `IOContextPool`, and
both give null when they have nothing left.  Here is every function of the server that borrows
from one of them, as a program that calls the pools, the queues of the receivers and the
sockets.  Each call is one step, so that other threads can empty a pool between any two of them.

What a function does with null is part of its program.  Three places see to it that the code
goes on without the packet: the loop that takes packets from a connection, and the two replies
of the authentication manager.  The loop of `routeGroupMessage` sees null too, but returns
without giving back the message it was called with.  All others use the pointer at once.

What the rest of the server finds out (sessions, credentials, files) is asked for and answered
by the environment.  `HandleDisconnect` and the threads of the sign-up do not borrow anything.
The counters of the pools are only written, and are left out.

## Main definitions

* `ServerCall`, `Service` — the calls, and programs that make them.
* `Service.postRecv`, `Service.initiateSend`, `Service.manageCompletePacket`, … — the code.
* `Pools`, `Pools.handle` — the state the calls work on.
-/

namespace IocpChat

open Program

/-! ## The pool of contexts -/

/-- A `PER_IO_OPERATION_DATA` of the pool. -/
abbrev ContextPtr := ℕ

/-- The contexts that can be borrowed, which are kept in an `Fqueue`. -/
structure IOContextPool where
  freeIndices : List ContextPtr

namespace IOContextPool

def maxSize : ℕ := 20000

/-- The number of places of the queue. -/
def capacity : ℕ := Fqueue.roundUpToPowerOfTwo maxSize

def new : IOContextPool := ⟨List.range maxSize⟩

/-- Take a context, or null if none is left. -/
def borrowIOPdata (pool : IOContextPool) : IOContextPool × Option ContextPtr :=
  match pool.freeIndices with
  | [] => (pool, none)
  | idx :: rest => (⟨rest⟩, if maxSize ≤ idx then none else some idx)

/-- Give a context back.  A push to a full queue does nothing. -/
def returnIOPdata (pool : IOContextPool) (idx : ContextPtr) : IOContextPool :=
  if maxSize ≤ idx then pool
  else if pool.freeIndices.length < capacity then ⟨pool.freeIndices ++ [idx]⟩
  else pool

end IOContextPool

/-! ## The calls -/

/-- The places at which `borrowPacket` is called. -/
inductive PacketSite
  /-- The loop of `workerThread` that takes packets from the buffer. -/
  | extract
  | authFailure
  | tokenGranted
  /-- The loop of `routeGroupMessage`. -/
  | fanOut
  | userId
  /-- `otpRequestHandler`, for an email that has an account. -/
  | alreadySigned
  /-- `signUpRequestHandler`, for an email that was not verified. -/
  | notVerified
  /-- The three replies of `onOtpVerificationRequest`. -/
  | otpNotGenerated
  | otpExpired
  | otpVerified
  | fileStartResponse
  | ack
  | fileStatus
  | fileError
  | link
  | downloadStart
  | chunk
  | missingChunk
  | roundEnd
  | fileEnd

/-- The code at this place goes on without the packet. -/
def PacketSite.optional : PacketSite → Bool
  | .extract | .authFailure | .tokenGranted => true
  | _ => false

/-- The places at which `borrowIOPdata` is called. -/
inductive ContextSite
  | postRecv
  | initiateSend

/-- What a function finds out elsewhere. -/
inductive Question
  /-- The session has its `iocp`. -/
  | iocp
  | validSession
  | authManager
  | signUpManager
  /-- The sign-up manager has its `router`. -/
  | router
  /-- The credentials are right, and tokens were issued. -/
  | authenticated
  | updated
  | validEmail
  | alreadySignup
  | emailVerified
  /-- There is a code for the email. -/
  | otpFound
  | otpExpired
  | otpMatches
  /-- The file is larger than the server takes. -/
  | tooBig
  | fileOpen
  /-- There is a `TransferState` for the upload id. -/
  | transferState
  /-- The connection has a session, or gets one. -/
  | session
  /-- The connection is to be closed. -/
  | shouldDisconnect
  /-- The packet is only sent in part. -/
  | unfinished

inductive ServerCall
  | borrowPacket (site : PacketSite)
  | returnPacket (p : PacketPtr)
  | setBypass (p : PacketPtr)
  | bypassQueue (p : PacketPtr)
  | borrowIOPdata (site : ContextSite)
  | returnIOPdata (c : ContextPtr)
  | wsaRecv (socket : Socket) (c : ContextPtr)
  | wsaSend (socket : Socket) (c : ContextPtr) (p : PacketPtr)
  /-- The entry of the receiver is there. -/
  | mapped (u : UserId)
  /-- The entry is made if it is not there, and a packet is pushed. -/
  | push (u : UserId) (p : PacketPtr)
  | pop (u : UserId)
  | isEmpty (u : UserId)
  | front (u : UserId)
  /-- The `compare_exchange` on the flag. -/
  | takeFlag (u : UserId)
  | storeFalse (u : UserId)
  | findSession (u : UserId)
  | getGroup (groupId : UserId)
  /-- An id that stands in a session or in a `TransferState`. -/
  | userId
  | ask (question : Question)
  /-- A null pointer that came from a pool is used. -/
  | nullDereference
  /-- The packet of an empty queue's front is used. -/
  | nullItem
  /-- A function returns without the packet it was called with, because a pool is empty. -/
  | abandon (p : PacketPtr)

namespace ServerCall

@[reducible]
def Answer : ServerCall → Type
  | .borrowPacket _ => Option PacketPtr
  | .borrowIOPdata _ => Option ContextPtr
  | .bypassQueue _ | .wsaRecv .. | .wsaSend .. | .mapped _ | .isEmpty _ | .takeFlag _ | .ask _ => Bool
  | .front _ => Option PacketPtr
  | .findSession _ => Option Socket
  | .getGroup _ => Option (List UserId)
  | .userId => UserId
  | .nullDereference | .nullItem => Empty
  | .returnPacket _ | .setBypass _ | .returnIOPdata _ | .push .. | .pop _ | .storeFalse _
  | .abandon _ => Unit

end ServerCall

abbrev Service := Prog ServerCall ServerCall.Answer

namespace Service

/-! ## Single calls -/

def request (q : ServerCall) : Service q.Answer := Prog.request q

abbrev borrowPacket (site : PacketSite) : Service (Option PacketPtr) := request (.borrowPacket site)

abbrev returnPacket (p : PacketPtr) : Service Unit := request (.returnPacket p)

/-- `p->bypassQueue = true`. -/
abbrev setBypass (p : PacketPtr) : Service Unit := request (.setBypass p)

abbrev bypassQueue (p : PacketPtr) : Service Bool := request (.bypassQueue p)

abbrev borrowIOPdata (site : ContextSite) : Service (Option ContextPtr) := request (.borrowIOPdata site)

abbrev returnIOPdata (c : ContextPtr) : Service Unit := request (.returnIOPdata c)

abbrev wsaRecv (socket : Socket) (c : ContextPtr) : Service Bool := request (.wsaRecv socket c)

abbrev wsaSend (socket : Socket) (c : ContextPtr) (p : PacketPtr) : Service Bool :=
  request (.wsaSend socket c p)

abbrev mapped (u : UserId) : Service Bool := request (.mapped u)

abbrev push (u : UserId) (p : PacketPtr) : Service Unit := request (.push u p)

abbrev pop (u : UserId) : Service Unit := request (.pop u)

abbrev isEmpty (u : UserId) : Service Bool := request (.isEmpty u)

abbrev front (u : UserId) : Service (Option PacketPtr) := request (.front u)

abbrev takeFlag (u : UserId) : Service Bool := request (.takeFlag u)

abbrev storeFalse (u : UserId) : Service Unit := request (.storeFalse u)

abbrev findSession (u : UserId) : Service (Option Socket) := request (.findSession u)

abbrev getGroup (groupId : UserId) : Service (Option (List UserId)) := request (.getGroup groupId)

abbrev userId : Service UserId := request .userId

abbrev ask (question : Question) : Service Bool := request (.ask question)

abbrev abandon (p : PacketPtr) : Service Unit := request (.abandon p)

/-- A null pointer that came from a pool is used. -/
def nullDereference {α : Type} : Service α := .call .nullDereference fun e => e.elim

def nullItem {α : Type} : Service α := .call .nullItem fun e => e.elim

/-- The result of `borrowPacket` is used without a check. -/
def takePacket (site : PacketSite) : Service PacketPtr := do
  match ← borrowPacket site with
  | none => nullDereference
  | some p => pure p

/-- The result of `borrowIOPdata` is used without a check. -/
def takeIOPdata (site : ContextSite) : Service ContextPtr := do
  match ← borrowIOPdata site with
  | none => nullDereference
  | some c => pure c

/-! ## Sending -/

def postRecv (socket : Socket) : Service Bool := do
  let c ← takeIOPdata .postRecv
  if ← wsaRecv socket c then pure true
  else do
    returnIOPdata c
    pure false

/-- `initiateSend`.  The packet is null if it comes from an empty queue. -/
def initiateSend (socket : Socket) (p : Option PacketPtr) : Service Bool := do
  let c ← takeIOPdata .initiateSend
  match p with
  | none => nullItem
  | some p => do
      if ← wsaSend socket c p then pure true
      else do
        returnIOPdata c
        pure false

def sendPacket (p : Option PacketPtr) (socket : Socket) : Service Bool := do
  if ← ask .iocp then initiateSend socket p else pure true

def routePacket (p : Option PacketPtr) (recvId : UserId) : Service Bool := do
  if recvId = [] then pure false
  else do
    match ← findSession recvId with
    | none => pure false
    | some socket => sendPacket p socket

/-! ## The queues -/

/-- The end of `ManageCompletePacket` and of `notifySend`. -/
def sendFront (u : UserId) : Service Unit := do
  if ← takeFlag u then
    if ← routePacket (← front u) u then pure () else storeFalse u
  else pure ()

def manageCompletePacket (p : PacketPtr) (recvId : UserId) : Service Unit := do
  push recvId p
  sendFront recvId

def notifySend (recvId : UserId) : Service Unit := do
  if ← mapped recvId then
    if ← isEmpty recvId then pure () else sendFront recvId
  else pure ()

/-- The part of `drainNext` after the completed packet was popped. -/
def sendNext (recvId : UserId) (socket : Socket) : Service Unit := do
  if ← isEmpty recvId then storeFalse recvId
  else if ← initiateSend socket (← front recvId) then pure ()
  else storeFalse recvId

def drainNext (recvId : UserId) (socket : Socket) : Service Unit := do
  if ← mapped recvId then do
    if ← isEmpty recvId then pure () else pop recvId
    sendNext recvId socket
  else pure ()

def clearFlag (recvId : UserId) : Service Unit := do
  if ← mapped recvId then storeFalse recvId else pure ()

/-! ## Replies -/

/-- A reply of the authentication manager. -/
def sendResponse (site : PacketSite) (socket : Socket) : Service Unit := do
  if ← ask .iocp then
    match ← borrowPacket site with
    | none => pure ()
    | some response => do
        setBypass response
        if ← sendPacket (some response) socket then pure () else returnPacket response
  else pure ()

def sendAuthFailure (socket : Socket) : Service Unit := sendResponse .authFailure socket

def sendTokenGranted (socket : Socket) : Service Unit := sendResponse .tokenGranted socket

/-- A packet that is routed to a user past the queues. -/
def routeReply (site : PacketSite) (recvId : UserId) : Service Unit := do
  let p ← takePacket site
  setBypass p
  if ← routePacket (some p) recvId then pure () else returnPacket p

/-- A packet of the file manager. -/
def sendFilePacket (site : PacketSite) (recvId : UserId) : Service Unit := do
  let p ← takePacket site
  manageCompletePacket p recvId

def sendErrorPacket (recvId : UserId) : Service Unit := sendFilePacket .fileError recvId

def sendAck (recvId : UserId) : Service Unit := sendFilePacket .ack recvId

def sendFileStatus (recvId : UserId) : Service Unit := sendFilePacket .fileStatus recvId

/-! ## Authentication and sign-up -/

/-- The handlers of the authentication packets, and whether they succeed. -/
def handleAuthPacket (p : PacketPtr) (socket : Socket) : Service Bool := do
  returnPacket p
  if ← ask .authenticated then do
    sendTokenGranted socket
    pure true
  else do
    sendAuthFailure socket
    pure false

def handleLoginPacket (p : PacketPtr) (socket : Socket) : Service Bool := handleAuthPacket p socket

def handleTokenPacket (p : PacketPtr) (socket : Socket) : Service Bool := handleAuthPacket p socket

def handleRefreshPacket (p : PacketPtr) (socket : Socket) : Service Bool := handleAuthPacket p socket

def otpRequestHandler (p : PacketPtr) : Service Unit := do
  returnPacket p
  if ← ask .validEmail then
    if ← ask .alreadySignup then
      if ← ask .router then routeReply .alreadySigned (← userId) else pure ()
    else pure ()
  else pure ()

def signUpRequestHandler (p : PacketPtr) : Service Unit := do
  let sessionId ← userId
  returnPacket p
  if ← ask .emailVerified then pure ()
  else if ← ask .router then routeReply .notVerified sessionId
  else pure ()

def onOtpVerificationRequest (p : PacketPtr) : Service Unit := do
  let sessionId ← userId
  returnPacket p
  if ← ask .otpFound then
    if ← ask .otpExpired then
      if ← ask .router then routeReply .otpExpired sessionId else pure ()
    else if ← ask .otpMatches then
      if ← ask .router then routeReply .otpVerified sessionId else pure ()
    else pure ()
  else if ← ask .router then routeReply .otpNotGenerated sessionId
  else pure ()

/-! ## Files -/

def handleFileStart (p : PacketPtr) : Service Unit := do
  returnPacket p
  if ← ask .tooBig then sendErrorPacket (← userId)
  else if ← ask .fileOpen then sendFilePacket .fileStartResponse (← userId)
  else pure ()

def handleFileChunk (p : PacketPtr) : Service Unit := returnPacket p

def handleRoundEnd (p : PacketPtr) : Service Unit := do
  returnPacket p
  if ← ask .transferState then sendAck (← userId) else pure ()

def handleFileEnd (p : PacketPtr) : Service Unit := do
  returnPacket p
  if ← ask .transferState then sendFileStatus (← userId) else pure ()

def onAckReceived (p : PacketPtr) : Service Unit := returnPacket p

/-- `HandleDisconnectRequest`, whose check of the length can only fail by an overflow. -/
def handleDisconnectRequest (p : PacketPtr) (r : Arrival) : Service Unit :=
  if (packetSize r.payloadLength).toNat < headerSize then pure () else returnPacket p

/-- `HandleDownloadRequest`, up to the thread it starts. -/
def handleDownloadRequest (p : PacketPtr) (r : Arrival) : Service Unit := do
  returnPacket p
  if ← ask .transferState then sendFilePacket .downloadStart (toHex r.receiverId)
  else sendErrorPacket (toHex r.receiverId)

/-- A round of a download: how many chunks it has, and what the answers say is missing.  After
the last answer the wait times out. -/
structure DownloadRound where
  chunks : ℕ
  answers : List (List ℕ)

def sendChunks (receiverId : UserId) : ℕ → Service Unit
  | 0 => pure ()
  | n + 1 => do
      sendFilePacket .chunk receiverId
      sendChunks receiverId n

def sendMissing (receiverId : UserId) (chunksThisRound : ℕ) : List ℕ → Service Unit
  | [] => pure ()
  | idx :: missing =>
    if chunksThisRound ≤ idx then sendMissing receiverId chunksThisRound missing
    else do
      sendFilePacket .missingChunk receiverId
      sendMissing receiverId chunksThisRound missing

/-- The loop that asks for the answer to a round, and whether the round is done.  The list with
the one number `-1` is an error. -/
def askForAck (receiverId : UserId) (chunksThisRound : ℕ) : List (List ℕ) → Service Bool
  | [] => do
      sendFilePacket .roundEnd receiverId
      pure false
  | missing :: answers => do
      sendFilePacket .roundEnd receiverId
      if missing = [0xFFFFFFFF] then pure false
      else if missing = [] then pure true
      else do
        sendMissing receiverId chunksThisRound missing
        askForAck receiverId chunksThisRound answers

/-- The rounds, and whether the file was sent to its end. -/
def sendRounds (receiverId : UserId) : List DownloadRound → Service Bool
  | [] => pure true
  | round :: rounds =>
    if round.chunks = 0 then pure true
    else do
      sendChunks receiverId round.chunks
      if ← askForAck receiverId round.chunks round.answers then sendRounds receiverId rounds
      else pure false

def handleFileTransfer (receiverId : UserId) (rounds : List DownloadRound) : Service Unit := do
  if ← ask .transferState then
    if ← ask .fileOpen then
      if ← sendRounds receiverId rounds then sendFilePacket .fileEnd receiverId else pure ()
    else sendErrorPacket receiverId
  else sendErrorPacket receiverId

/-! ## Groups -/

/-- The loop of `routeGroupMessage` over the members, and whether it comes to its end. -/
def fanOut (packet : PacketPtr) (senderId : UserId) : List UserId → Service Bool
  | [] => pure true
  | memberId :: members =>
    if memberId = senderId then fanOut packet senderId members
    else do
      match ← borrowPacket .fanOut with
      | none => do
          abandon packet
          pure false
      | some outgoing => do
          manageCompletePacket outgoing memberId
          fanOut packet senderId members

def routeGroupMessage (packet : PacketPtr) (recvId sendId : UserId) : Service Unit := do
  match ← getGroup recvId with
  | none => pure ()
  | some members => do
      if ← fanOut packet sendId members then returnPacket packet else pure ()

/-- `checkGrp`: the id begins with `GRP`. -/
def checkGrp (id : UserId) : Bool := id.take 3 == [0x47, 0x52, 0x50]

/-- A turn of `sendDownloadLinkLoop`.  `routeGroupMessage` takes the ids from where they are in
a chat message. -/
def sendDownloadLink (receiverId recvId sendId : UserId) : Service Unit := do
  let p ← takePacket .link
  if checkGrp receiverId then routeGroupMessage p recvId sendId
  else manageCompletePacket p receiverId

/-! ## The dispatch -/

/-- What follows the handler of a `PKT_LOGIN` packet. -/
def afterLogin (success : Bool) : Service Unit := do
  if success then do
    if ← ask .updated then pure () else routeReply .userId (← userId)
    notifySend (← userId)
  else pure ()

/-- What follows the handlers of `PKT_TOKEN` and `PKT_REFRESH` packets. -/
def afterToken (success : Bool) : Service Unit := do
  if success then notifySend (← userId) else pure ()

/-- The `switch` of `handlePacket`. -/
def route (socket : Socket) (p : PacketPtr) (r : Arrival) : Option PacketType → Service Unit
  | some .pktLogin => do
      if ← ask .authManager then afterLogin (← handleLoginPacket p socket) else returnPacket p
  | some .pktToken => do
      if ← ask .authManager then afterToken (← handleTokenPacket p socket) else returnPacket p
  | some .pktRefresh => do
      if ← ask .authManager then afterToken (← handleRefreshPacket p socket) else returnPacket p
  | some .pktLogout => returnPacket p
  | some .pktPrivateMessage => manageCompletePacket p (toHex r.receiverId)
  | some .pktGroupMessage => routeGroupMessage p (toHex r.receiverId) (toHex r.senderId)
  | some .pktFileStart => handleFileStart p
  | some .pktFileChunk => handleFileChunk p
  | some .pktRoundEnd => handleRoundEnd p
  | some .pktFileEnd => handleFileEnd p
  | some .pktFileAck => onAckReceived p
  | some .pktAcknowledgment => returnPacket p
  | some .fileDwnldDisconnectRequest => handleDisconnectRequest p r
  | some .downloadRequest => handleDownloadRequest p r
  | some .pktOtpReq => do if ← ask .signUpManager then otpRequestHandler p else pure ()
  | some .pktOtpVerify => do if ← ask .signUpManager then onOtpVerificationRequest p else pure ()
  | some .pktSignUp => do if ← ask .signUpManager then signUpRequestHandler p else pure ()
  -- The packets that change groups, `PKT_RESUME` and unknown ones stay with nobody.
  | _ => pure ()

/-- `MessageRouter::handlePacket`, which always returns true. -/
def handlePacket (socket : Socket) (p : PacketPtr) (r : Arrival) : Service Unit := do
  if (PacketType.ofCode r.type).any bypassAuth then route socket p r (PacketType.ofCode r.type)
  else if ← ask .validSession then route socket p r (PacketType.ofCode r.type)
  else do
    if ← ask .authManager then sendAuthFailure socket else pure ()
    returnPacket p

/-! ## The threads -/

/-- Packets are taken from a connection, until the pool is empty. -/
def extract : List Arrival → Service (List (PacketPtr × Arrival))
  | [] => pure []
  | r :: packets => do
      match ← borrowPacket .extract with
      | none => pure []
      | some p => do pure ((p, r) :: (← extract packets))

/-- The packets are given back, because there is no session for their connection. -/
def returnAll : List (PacketPtr × Arrival) → Service Unit
  | [] => pure ()
  | (p, _) :: batch => do
      returnPacket p
      returnAll batch

def dispatchAll (socket : Socket) : List (PacketPtr × Arrival) → Service Unit
  | [] => pure ()
  | (p, r) :: batch => do
      if r.parsed then handlePacket socket p r else returnPacket p
      dispatchAll socket batch

/-- The packets are dispatched, and whether there is a session for them. -/
def dispatch (socket : Socket) (batch : List (PacketPtr × Arrival)) : Service Bool := do
  if batch.isEmpty then pure true
  else if ← ask .session then do
    dispatchAll socket batch
    pure true
  else do
    returnAll batch
    pure false

/-- A receive completes, and the complete packets in the buffer are these. -/
def received (socket : Socket) (c : ContextPtr) (packets : List Arrival) : Service Unit := do
  returnIOPdata c
  let batch ← extract packets
  if ← dispatch socket batch then
    if ← ask .shouldDisconnect then pure ()
    else do
      let _ ← postRecv socket
      pure ()
  else pure ()

def sent (socket : Socket) (c : ContextPtr) (p : PacketPtr) : Service Unit := do
  if ← ask .unfinished then do
    if ← wsaSend socket c p then pure ()
    else do
      let recvId ← userId
      returnIOPdata c
      clearFlag recvId
  else do
    let recvId ← userId
    let bypassQ ← bypassQueue p
    returnPacket p
    if bypassQ then pure () else drainNext recvId socket
    returnIOPdata c

/-- An operation completes with an error. -/
def failed (c : ContextPtr) (packet : Option PacketPtr) : Service Unit := do
  match packet with
  | none => pure ()
  | some p => do
      if ← bypassQueue p then returnPacket p else manageCompletePacket p (← userId)
  returnIOPdata c

def accept (socket : Socket) : Service Unit := do
  let _ ← postRecv socket
  pure ()

end Service

/-! ## The state -/

/-- An operation that the operating system has taken.  A receive has no packet. -/
structure Posted where
  context : ContextPtr
  socket : Socket
  packet : Option PacketPtr

structure Pools where
  packets : PacketPool
  contexts : IOContextPool
  queues : UserId → SendQueue
  posted : List Posted

/-- What the rest of the server and the operating system answer. -/
structure Answers where
  ask : Question → Bool
  findSession : UserId → Option Socket
  getGroup : UserId → Option (List UserId)
  userId : UserId
  /-- `WSARecv` or `WSASend` takes the operation. -/
  accepted : Bool

namespace Pools

def new : Pools := ⟨.new, .new, fun _ => ⟨[], false, false⟩, []⟩

def setQueue (s : Pools) (u : UserId) (q : SendQueue) : Pools :=
  { s with queues := Function.update s.queues u q }

/-- `WSARecv` or `WSASend`. -/
def post (s : Pools) (accepted : Bool) (operation : Posted) : Pools × Bool :=
  (if accepted then { s with posted := s.posted ++ [operation] } else s, accepted)

/-- What a call does.  Nothing follows the use of a null pointer. -/
def handle (s : Pools) (e : Answers) : (q : ServerCall) → Option (Pools × q.Answer)
  | .borrowPacket _ => s.packets.borrowPacket.map fun r => ({ s with packets := r.1 }, r.2)
  | .returnPacket p => some ({ s with packets := s.packets.returnPacket p }, ())
  | .setBypass p =>
    let bypassQueue := Function.update s.packets.bypassQueue p true
    some ({ s with packets := { s.packets with bypassQueue } }, ())
  | .bypassQueue p => some (s, s.packets.bypassQueue p)
  | .borrowIOPdata _ =>
    let r := s.contexts.borrowIOPdata
    some ({ s with contexts := r.1 }, r.2)
  | .returnIOPdata c => some ({ s with contexts := s.contexts.returnIOPdata c }, ())
  | .wsaRecv socket c => some (s.post e.accepted ⟨c, socket, none⟩)
  | .wsaSend socket c p => some (s.post e.accepted ⟨c, socket, some p⟩)
  | .mapped u => some (s, (s.queues u).mapped)
  | .push u p =>
    let q := s.queues u
    some (s.setQueue u { q with queue := q.queue ++ [p], mapped := true }, ())
  | .pop u => some (s.setQueue u { s.queues u with queue := (s.queues u).queue.tail }, ())
  | .isEmpty u => some (s, (s.queues u).queue.isEmpty)
  | .front u => some (s, (s.queues u).queue.head?)
  | .takeFlag u =>
    if (s.queues u).flag then some (s, false)
    else some (s.setQueue u { s.queues u with flag := true }, true)
  | .storeFalse u => some (s.setQueue u { s.queues u with flag := false }, ())
  | .findSession u => some (s, e.findSession u)
  | .getGroup groupId => some (s, e.getGroup groupId)
  | .userId => some (s, e.userId)
  | .ask question => some (s, e.ask question)
  | .nullDereference | .nullItem => none
  | .abandon _ => some (s, ())

end Pools

end IocpChat

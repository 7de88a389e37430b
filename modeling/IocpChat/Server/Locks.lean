import IocpChat.Chat.Handlers
import IocpChat.Lib.Locks
import IocpChat.Session.SessionManager

/-!
# The locks of the server

Every function that a thread of the server runs, as far as its locks and the data it shares with
other threads go.  The scope of a `lock_guard` is `locked`; what a branch or a loop depends on is
not followed, so a branch may go either way and a loop may have any number of turns; an index or a
pointer that is found in a map may be any.  Packets, contexts and queue nodes belong to one thread at
a time, and the queues are free of locks; they and the atomic members are left out.

The locks have an order.  A thread that sends to a group, answers a code or answers the wrong
round of an upload holds a lock while it borrows packets and routes them; the session manager holds
its own while it closes a connection and gives a session back; the pools and the log come last.
Most of the data has one lock under which every thread uses it.  A `Routine` is a function that
keeps to both, with the ranks it may be called at and the locks its caller holds in its type.

## Main definitions

* `Mutex`, `Mutex.rank` — the locks and their order.
* `Shared`, `Shared.guard` — the data that several threads use, and the locks that guard it.
* `ServerThread`, `ServerThread.program` — the threads.
-/

namespace IocpChat

open Locks Guarded

/-- The mutexes, by their names in the source.  Those called `mtx` there carry the class. -/
inductive Mutex
  | groupManagerMtx
  | mapMutex
  | sessionManagerMtx
  /-- `SessionPool::fmx`. -/
  | fmx
  /-- `PacketPool::amx`. -/
  | amx
  | disconnectMtx
  | socketBuffersMutex
  /-- The lock of one `ConnectionBuffer`. -/
  | bufMtx (connBuf : ℕ)
  | loggerMtx
  | omutex
  | cmutex
  | otmtx
  | emtx
  | tableMtx
  /-- `UserStore::mutex_`, which readers share. -/
  | userStoreMutex
  /-- `RefreshFamilyStore::mutex_`, which readers share. -/
  | familyStoreMutex
  | fileTransferMtx
  /-- `mtx` of one `TransferState`. -/
  | stateMtx (state : ℕ)
  /-- `ackMtx` of one `TransferState`. -/
  | ackMtx (state : ℕ)
  | downloadMtx
  | downloadableFilesMtx
  deriving DecidableEq

/-- The data that several threads use. -/
inductive Shared
  /-- The map of the groups, and the groups in it. -/
  | groups
  | queuePerClient
  /-- `sessions` and `socketToUserId`. -/
  | sessions
  /-- The members of a `Session` that are not atomic. -/
  | session (s : SessionPtr)
  | freeIndices
  /-- `availableIdx` and `inUse`. -/
  | availableIdx
  | disconnectedSockets
  | socketBuffers
  | buffer (connBuf : ℕ)
  /-- The output of the `Logger`. -/
  | log
  | otpChecker
  | emailVerified
  | db
  /-- `records_`, `email_to_uid_` and `username_to_uid_`. -/
  | records
  | families
  /-- `activeTransfers` and `uploadIdToTransferState`. -/
  | activeTransfers
  /-- The members of a `TransferState` that change after it was entered into the maps, but for the
  two of the acknowledgement. -/
  | transferState (state : ℕ)
  | ackReceived (state : ℕ)
  | missingChunks (state : ℕ)
  | downloadableFiles
  | stopLoop
  /-- `SignUp::stopThread`. -/
  | stopThread
  | listenSocket
  | iocpHandle
  deriving DecidableEq

/-- The place of a lock in the order. -/
def Mutex.rank : Mutex → ℕ
  | .groupManagerMtx | .otmtx | .stateMtx _ => 0
  | .mapMutex | .omutex | .cmutex | .tableMtx | .userStoreMutex | .familyStoreMutex
  | .fileTransferMtx | .ackMtx _ | .downloadMtx | .downloadableFilesMtx => 1
  | .sessionManagerMtx => 2
  | .fmx | .emtx | .disconnectMtx | .socketBuffersMutex | .bufMtx _ => 3
  | .amx => 4
  | .loggerMtx => 5

/-- The lock under which the data is used, if there is one. -/
def Shared.guard : Shared → Option Mutex
  | .groups => some .groupManagerMtx
  | .queuePerClient => some .mapMutex
  | .sessions => some .sessionManagerMtx
  | .freeIndices => some .fmx
  | .availableIdx => some .amx
  | .disconnectedSockets => some .disconnectMtx
  | .socketBuffers => some .socketBuffersMutex
  | .buffer connBuf => some (.bufMtx connBuf)
  | .log => some .loggerMtx
  | .emailVerified => some .emtx
  | .records => some .userStoreMutex
  | .families => some .familyStoreMutex
  | .activeTransfers => some .fileTransferMtx
  | .ackReceived state => some (.ackMtx state)
  | .downloadableFiles => some .downloadableFilesMtx
  | .session _ | .otpChecker | .db | .transferState _ | .missingChunks _ | .stopLoop | .stopThread
  | .listenSocket | .iocpHandle => none

def serverDiscipline : Discipline Mutex Shared := ⟨Mutex.rank, Shared.guard⟩

/-- A function that may be called while `need` is held and nothing of rank `floor` or more. -/
abbrev Routine := Guarded serverDiscipline

namespace Routine

variable {α : Type} {floor : ℕ} {need : List (Mutex × Mode)}

/-- The scope of a `lock_guard` or a `unique_lock`. -/
def locked (l : Mutex) (body : Routine (l.rank + 1) ((l, .exclusive) :: need) α)
    (h : floor ≤ l.rank := by first | decide | (simp only [Mutex.rank]; omega)) :
    Routine floor need α := withLock l .exclusive body h

def read (v : Shared)
    (h : ∀ l ∈ v.guard, ∃ mode, (l, mode) ∈ need := by simp [Shared.guard]) :
    Routine floor need Unit := Guarded.reads v h

def write (v : Shared)
    (h : ∀ l ∈ v.guard, (l, Mode.exclusive) ∈ need := by simp [Shared.guard]) :
    Routine floor need Unit := Guarded.writes v h

/-- A function that is called while no lock is held. -/
abbrev Task := Routine 0 []

/-- A function that may be called whatever is held, but for locks of rank `k` or more. -/
abbrev Below (k : ℕ) (α : Type) : Type :=
  {floor : ℕ} → {need : List (Mutex × Mode)} →
    (h : floor ≤ k := by first | omega | simp [Mutex.rank]) → Routine floor need α

/-- An element of a map is found, or not. -/
def lookup : Routine floor need (Option ℕ) := do
  if ← choose then pure (some (← pick)) else pure none

/-- The data is changed, if what is read allows it. -/
def tryWrite (v : Shared) (h : ∀ l ∈ v.guard, (l, Mode.exclusive) ∈ need := by simp [Shared.guard]) :
    Routine floor need Bool := do
  read v fun l hl => ⟨_, h l hl⟩
  if ← choose then do
    write v h
    pure true
  else pure false

/-- `Logger::info`, `warn`, `error` and `debug`. -/
def log : Below 5 Unit := fun h => locked .loggerMtx (write .log)

/-! ## The pools -/

/-- `borrowPacket`, and whether there was a packet. -/
def borrowPacket : Below 4 Bool := fun h =>
  locked .amx do
    read .availableIdx
    if ← choose then do
      log
      pure false
    else do
      -- Packets in the queue that are in use are passed over.
      repeatCode (do write .availableIdx; log) (← pick)
      write .availableIdx
      pure true

/-- `returnPacket`, which does nothing for a null pointer or a wrong index. -/
def returnPacket : Below 4 Unit := fun h => do
  unless ← choose do
    locked .amx do
      read .availableIdx
      if ← choose then log else write .availableIdx

def borrowSession : Task (Option SessionPtr) := do
  let idx ← locked .fmx do
    read .freeIndices
    if ← choose then pure none
    else do
      write .freeIndices
      pure (some (← pick))
  match idx with
  | none => pure none
  | some s => do
      write (.session s)
      pure (some s)

def returnSession (s : SessionPtr) : Below 3 Unit := fun h => do
  write (.session s)
  locked .fmx (write .freeIndices)

/-! ## Sockets -/

/-- What is logged where it fails, and whether it succeeds. -/
def orLog : Below 5 Bool := fun h => do
  if ← choose then pure true
  else do
    log
    pure false

/-- `postRecv`, and whether it succeeds.  The pool of the contexts is free of locks. -/
def postRecv : Task Bool := orLog

def initiateSend : Below 5 Bool := fun h => orLog

/-- The first part of both functions that close a connection, and whether they go on. -/
def markDisconnected : Below 3 Bool := fun h =>
  locked .disconnectMtx (tryWrite .disconnectedSockets)

/-- The last part of both functions that close a connection. -/
def removeBuffer : Below 3 Unit := fun h => do
  let connBuf ← locked .socketBuffersMutex do
    read .socketBuffers
    let found ← lookup
    if found.isSome then write .socketBuffers
    pure found
  match connBuf with
  | none => pure ()
  -- The flag that is set under the lock is atomic.
  | some c => locked (.bufMtx c) (pure ())

def handleDisconnectWithoutLock : Below 3 Unit := fun h => do
  if ← markDisconnected then removeBuffer

/-! ## Sessions -/

def updateNewId (s : SessionPtr) : Task Unit :=
  locked .sessionManagerMtx do
    read (.session s)
    read .sessions
    match ← lookup with
    | none => pure ()
    | some old => do
        read (.session old)
        if ← choose then do
          handleDisconnectWithoutLock
          write .sessions
          returnSession old
          write .sessions
    read .sessions
    if ← choose then write .sessions
    read (.session s)
    write .sessions

def addSession (s : SessionPtr) : Task Unit :=
  locked .sessionManagerMtx do
    read (.session s)
    write .sessions

/-- `removeSession`.  The id is a reference, which is read under the lock. -/
def removeSession (readId : Routine 3 [(.sessionManagerMtx, .exclusive)] Unit) :
    Task Unit :=
  locked .sessionManagerMtx do
    readId
    read .sessions
    match ← lookup with
    | none => pure ()
    | some s => do
        read (.session s)
        write .sessions
        returnSession s
        write .sessions

def findSession : Below 2 (Option SessionPtr) := fun h =>
  locked .sessionManagerMtx do
    read .sessions
    lookup

/-- `findBySocket`, which may make an entry. -/
def findBySocket : Task (Option SessionPtr) :=
  locked .sessionManagerMtx do
    write .sessions
    lookup

def getUserIdBySocket : Task Unit := locked .sessionManagerMtx (read .sessions)

/-- `setRecievingFileTrue` and `setRecievingFileFalse`. -/
def setRecievingFile : Task Unit :=
  locked .sessionManagerMtx do
    read .sessions
    match ← lookup with
    | none => log
    | some s => write (.session s)

def handleDisconnect : Task Unit := do
  if ← markDisconnected then do
    getUserIdBySocket
    if ← choose then do
      log
      removeSession (pure ())
    else log
    removeBuffer

/-! ## Routing -/

def sendPacket (s : SessionPtr) : Below 5 Bool := fun h => do
  read (.session s)
  if ← choose then initiateSend else pure true

def routePacket : Below 2 Bool := fun h => do
  if ← choose then pure false
  else
    (← findSession).elim (pure false) fun receiver => sendPacket receiver

/-- A packet is borrowed, without a check, and routed past the queues. -/
def routeReply : Task Unit := do
  let _ ← borrowPacket
  unless ← routePacket do returnPacket

/-- The `compare_exchange` on the flag of a queue, and what follows it. -/
def sendFront : Below 2 Unit := fun h => do
  if ← choose then do
    discard routePacket

def manageCompletePacket : Below 1 Unit := fun h => do
  locked .mapMutex (write .queuePerClient)
  sendFront

def notifySend : Task Unit := do
  if ← locked .mapMutex (tryWrite .queuePerClient) then
    if ← choose then sendFront

def drainNext : Task Unit := do
  let found ← locked .mapMutex do
    read .queuePerClient
    choose
  if found then
    if ← choose then do
      discard initiateSend

def clearFlag : Task Unit := locked .mapMutex (read .queuePerClient)

/-- `SendErrorPacket`, `sendAck`, `sendFileStatus`, and the other packets of the file manager. -/
def sendFilePacket : Below 1 Unit := fun h => do
  let _ ← borrowPacket
  manageCompletePacket

/-! ## Groups -/

/-- `createGroup`, `joinGroup` and `leaveGroup`, and whether they succeed. -/
def changeGroup : Task Bool :=
  locked .groupManagerMtx (tryWrite .groups)

def getGroup : Task Bool :=
  locked .groupManagerMtx do
    read .groups
    choose

/-- The loop of `routeGroupMessage` over the members, and whether it comes to its end. -/
def fanOut : ℕ → Routine 1 [(.groupManagerMtx, .exclusive)] Bool
  | 0 => pure true
  | members + 1 => do
      read .groups
      if ← choose then fanOut members
      else if ← borrowPacket then do
        manageCompletePacket
        fanOut members
      else pure false

/-- `routeGroupMessage`, which holds the lock of the groups while it sends. -/
def routeGroupMessage : Task Unit := do
  if ← getGroup then
    locked .groupManagerMtx do
      if ← fanOut (← pick) then returnPacket
  else log

/-! ## Authentication -/

/-- `SendAuthFailure` and `SendTokenGranted`. -/
def sendResponse (s : SessionPtr) : Task Unit := do
  read (.session s)
  if ← choose then
    if ← borrowPacket then
      if ← sendPacket s then pure () else returnPacket
    else log
  else log

/-- `FindByEmail` and `FindByUsername`, which share the lock. -/
def findUser : Task Bool :=
  withLock .userStoreMutex .shared (do read .records; choose) (Nat.zero_le _)

def addUserRecord : Task Unit :=
  locked .userStoreMutex do
    read .records
    if ← choose then write .records

/-- `RefreshFamilyStore::Insert`. -/
def insertFamily : Task Unit := locked .familyStoreMutex (write .families)

def advanceTokenId : Task Bool :=
  locked .familyStoreMutex do
    if ← tryWrite .families then choose else pure false

def issueTokenPair : Task Bool := orLog

/-- `ValidateAccessToken` and `ValidateRefreshToken`. -/
def validateToken : Task Bool := orLog

def cacheAuthOnSession (s : SessionPtr) : Task Unit := write (.session s)

def refuse (s : SessionPtr) : Task Bool := do
  log
  sendResponse s
  pure false

def processLogin (s : SessionPtr) : Task Bool := do
  let found ← do if ← findUser then pure true else findUser
  if !found then refuse s
  else if ← choose then refuse s
  else if ← choose then refuse s
  else if ← issueTokenPair then do
    insertFamily
    cacheAuthOnSession s
    read (.session s)
    log
    sendResponse s
    pure true
  else refuse s

def handleLoginPacket (s : SessionPtr) : Task Bool := do
  returnPacket
  if ← choose then refuse s else processLogin s

def handleTokenPacket (s : SessionPtr) : Task Bool := do
  let valid ← validateToken
  returnPacket
  if valid then do
    cacheAuthOnSession s
    read (.session s)
    log
    let issued ← issueTokenPair
    sendResponse s
    pure issued
  else do
    sendResponse s
    pure false

def handleRefreshPacket (s : SessionPtr) : Task Bool := do
  let valid ← validateToken
  returnPacket
  if !valid then do
    sendResponse s
    pure false
  else if ← advanceTokenId then do
    if ← issueTokenPair then do
      cacheAuthOnSession s
      read (.session s)
      log
      sendResponse s
      pure true
    else do
      sendResponse s
      pure false
  else refuse s

/-! ## Sign-up -/

/-- `isAlreadySignup`, which looks into an index of the table without its lock. -/
def isAlreadySignup : Task Bool := do
  read .db
  choose

def isVerified : Task Bool :=
  locked .emtx do
    read .emailVerified
    choose

def otpRequestHandler (s : SessionPtr) : Task Unit := do
  returnPacket
  if ← choose then
    if ← isAlreadySignup then
      if ← choose then do
        let _ ← borrowPacket
        read (.session s)
        unless ← routePacket do returnPacket

def signUpRequestHandler (s : SessionPtr) : Task Unit := do
  read (.session s)
  returnPacket
  if ← isVerified then locked .cmutex (pure ())
  else if ← choose then routeReply

/-- The entry of a code is erased, and the reply is routed while the lock is held.  After a right
code, an email whose reply cannot be sent is not verified any more. -/
def eraseAndReply (verified : Bool) : Task Unit := do
  let _ ← borrowPacket
  locked .otmtx do
    write .otpChecker
    if ← routePacket then pure ()
    else do
      returnPacket
      if verified then locked .emtx (write .emailVerified)

def onOtpVerificationRequest (s : SessionPtr) : Task Unit := do
  read (.session s)
  returnPacket
  let found ← locked .otmtx (tryWrite .otpChecker)
  if !found then
    if ← choose then routeReply
  else if ← choose then
    if ← choose then eraseAndReply false
  else if ← choose then do
    locked .emtx (write .emailVerified)
    if ← choose then eraseAndReply true

/-- A turn of `otpSenderLoop`, which writes the code without its lock. -/
def otpSenderTurn : Task Unit := do
  waitFor .omutex (pure ()) (read .stopThread) (← pick) (pure ())
  read .stopThread
  if ← choose then write .otpChecker

def otpSenderLoop : Task Unit := do repeatCode otpSenderTurn (← pick)

/-- `writeTheData`, and whether it succeeds. -/
def writeTheData : Task Bool :=
  locked .tableMtx do
    write .db
    choose

/-- A turn of `signupManager`. -/
def signupTurn : Task Unit := do
  let taken ← waitFor .cmutex (pure ()) (read .stopThread) (← pick) do
    read .stopThread
    choose
  if taken then
    if ← choose then
      if ← writeTheData then
        if ← choose then addUserRecord

def signupManager : Task Unit := do repeatCode signupTurn (← pick)

/-- `~SignUp`, up to the thread it waits for. -/
def stopSignUp : Task Unit := do
  write .stopThread
  sleep

/-! ## Uploads -/

def getTransferState : Task (Option ℕ) :=
  locked .fileTransferMtx do
    read .activeTransfers
    lookup

def cleanupTransfer : Task Unit :=
  locked .fileTransferMtx do
    read .activeTransfers
    match ← lookup with
    | none => pure ()
    | some state => do
        write (.transferState state)
        write .activeTransfers

/-- `handleFileStart`.  The id of the sender is a reference to that of the session; the new state
is nobody else's until it is in the maps. -/
def handleFileStart (s : SessionPtr) : Task Unit := do
  read (.session s)
  log
  returnPacket
  if ← choose then sendFilePacket
  else do
    read (.session s)
    if ← choose then log
    else do
      locked .fileTransferMtx (write .activeTransfers)
      log
      let _ ← borrowPacket
      read (.session s)
      manageCompletePacket

def handleFileChunk : Task Unit := do
  returnPacket
  log
  match ← getTransferState with
  | none => log
  | some state =>
    if ← choose then log
    else
      locked (.stateMtx state) do
        read (.transferState state)
        if ← choose then write (.transferState state)

/-- `handleRoundEnd`.  The answer to the wrong round is sent while the lock is held. -/
def handleRoundEnd : Task Unit := do
  returnPacket
  match ← getTransferState with
  | none => pure ()
  | some state => do
      let current ← locked (.stateMtx state) do
        read (.transferState state)
        if ← choose then do
          log
          sendFilePacket
          pure false
        else do
          if ← choose then write (.transferState state)
          pure true
      if current then sendFilePacket

/-- `handleFileEnd`.  The state is read and cleared without its lock. -/
def handleFileEnd : Task Unit := do
  returnPacket
  match ← getTransferState with
  | none => pure ()
  | some state => do
      read (.transferState state)
      if ← choose then do
        write (.transferState state)
        log
        write (.transferState state)
        locked .downloadMtx do
          write (.transferState state)
          write (.missingChunks state)
      else do
        log
        write (.transferState state)
        cleanupTransfer
      sendFilePacket
      locked .fileTransferMtx (write .activeTransfers)

/-! ## Downloads -/

def findDownloadable : Task (Option ℕ) :=
  locked .downloadableFilesMtx do
    read .downloadableFiles
    lookup

/-- The announcement of an upload by `sendDownloadLinkLoop`. -/
def sendDownloadLink : Task Unit := do
  let _ ← borrowPacket
  read (.transferState (← pick))
  locked .downloadableFilesMtx (write .downloadableFiles)
  if ← choose then routeGroupMessage else manageCompletePacket

/-- A turn of `sendDownloadLinkLoop`.  The flag is read again after the lock was given back. -/
def sendDownloadLinkTurn : Task Unit := do
  waitFor .downloadMtx (pure ()) (read .stopLoop) (← pick) (pure ())
  read .stopLoop
  repeatCode sendDownloadLink (← pick)

def sendDownloadLinkLoop : Task Unit := do repeatCode sendDownloadLinkTurn (← pick)

/-- `HandleDownloadRequest`, up to the thread it starts. -/
def handleDownloadRequest : Task Unit := do
  returnPacket
  if ← choose then log
  else
    match ← findDownloadable with
    | none => sendFilePacket
    | some state => do
        setRecievingFile
        write (.transferState state)
        sendFilePacket

/-- The wait for an acknowledgement, and whether it comes. -/
def awaitAck (state : ℕ) : Task Bool := do
  waitFor (.ackMtx state) (write (.ackReceived state)) (read (.ackReceived state)) (← pick) choose

/-- A chunk that is sent, or sent again. -/
def sendChunk (state : ℕ) : Task Unit := do
  let _ ← borrowPacket
  read (.transferState state)
  manageCompletePacket

/-- The loop that asks for the answer to a round, with a bound for its turns, and whether the round
is done.  What is missing is read after the lock was given back. -/
def askForAck (state : ℕ) : ℕ → Task Bool
  | 0 => pure false
  | n + 1 => do
      let _ ← borrowPacket
      log
      manageCompletePacket
      if ← awaitAck state then do
        read (.missingChunks state)
        if ← choose then do
          log
          setRecievingFile
          pure false
        else if ← choose then pure true
        else do
          repeatCode (do read (.missingChunks state); sendChunk state) (← pick)
          askForAck state n
      else pure false

/-- The rounds, and whether the file was sent to its end. -/
def sendRounds (state : ℕ) : ℕ → Task Bool
  | 0 => pure true
  | n + 1 => do
      write (.transferState state)
      repeatCode (sendChunk state) (← pick)
      if ← askForAck state (← pick) then sendRounds state n else pure false

def handleFileTransfer : Task Unit := do
  match ← findDownloadable with
  | none => do
      sendFilePacket
      setRecievingFile
  | some state =>
    if ← choose then do
      sendFilePacket
      setRecievingFile
    else if ← sendRounds state (← pick) then do
      sendFilePacket
      setRecievingFile

def onAckReceived : Task Unit := do
  returnPacket
  log
  let found ← locked .downloadableFilesMtx do
    log
    read .downloadableFiles
    match ← lookup with
    | none => do
        log
        pure none
    | some state => pure (some state)
  match found with
  | none => pure ()
  | some state => do
      read (.transferState state)
      unless ← choose do
        locked (.ackMtx state) do
          write (.missingChunks state)
          write (.ackReceived state)

def handleDisconnectRequest : Task Unit := do
  unless ← choose do
    returnPacket
    if ← choose then setRecievingFile

/-- `stopAllTransfers`.  Between the two locks it waits for a thread. -/
def stopAllTransfers : Task Unit := do
  locked .downloadMtx (write .stopLoop)
  sleep
  locked .fileTransferMtx do
    repeatCode (do write (.transferState (← pick))) (← pick)
    write .activeTransfers

/-! ## The dispatch -/

/-- A `PKT_LOGIN` packet. -/
def login (s : SessionPtr) : Task Unit := do
  read (.session s)
  if ← handleLoginPacket s then do
    if ← choose then do
      updateNewId s
      read (.session s)
      let _ ← borrowPacket
      read (.session s)
      unless ← routePacket do returnPacket
    read (.session s)
    notifySend

/-- `PKT_TOKEN` and `PKT_REFRESH` packets, with their handlers. -/
def reconnect (s : SessionPtr) (handler : Task Bool) : Task Unit := do
  read (.session s)
  if ← handler then do
    if ← choose then updateNewId s
    read (.session s)
    notifySend

/-- The `switch` of `handlePacket`. -/
def route (s : SessionPtr) : Option PacketType → Task Unit
  | some .pktLogin => do if ← choose then login s else returnPacket
  | some .pktToken => do
      if ← choose then reconnect s (handleTokenPacket s) else returnPacket
  | some .pktRefresh => do
      if ← choose then reconnect s (handleRefreshPacket s) else returnPacket
  | some .pktLogout => do
      read (.session s)
      log
      removeSession (read (.session s))
      returnPacket
  | some .pktPrivateMessage => manageCompletePacket
  | some .pktGroupMessage => routeGroupMessage
  | some .pktCreateGroup | some .pktJoinGroup | some .pktLeaveGroup => do
      if ← changeGroup then log
  | some .pktFileStart => do
      read (.session s)
      log
      handleFileStart s
  | some .pktFileChunk => handleFileChunk
  | some .pktRoundEnd => handleRoundEnd
  | some .pktFileEnd => handleFileEnd
  | some .pktFileAck => onAckReceived
  | some .pktAcknowledgment => returnPacket
  | some .pktResume => pure ()
  | some .fileDwnldDisconnectRequest => handleDisconnectRequest
  | some .downloadRequest => handleDownloadRequest
  | some .pktOtpReq => do if ← choose then otpRequestHandler s
  | some .pktOtpVerify => do if ← choose then onOtpVerificationRequest s
  | some .pktSignUp => do if ← choose then signUpRequestHandler s
  | _ => log

/-- `MessageRouter::handlePacket`, for a packet of any type. -/
def handlePacket (s : SessionPtr) : Task Unit := do
  let type := PacketType.ofCode (UInt16.ofNat (← pick))
  if type.any bypassAuth then route s type
  else if ← choose then route s type
  else do
    read (.session s)
    log
    if ← choose then sendResponse s
    returnPacket

/-! ## The thread -/

/-- The loop of `workerThread` that takes packets from a buffer: how many, and whether the
connection is to be closed. -/
def extract (connBuf : ℕ) : ℕ → Routine 4 [(.bufMtx connBuf, .exclusive)] (ℕ × Bool)
  | 0 => pure (0, false)
  | n + 1 => do
      read (.buffer connBuf)
      if ← choose then do
        log
        pure (0, true)
      else if ← borrowPacket then do
        write (.buffer connBuf)
        let r ← extract connBuf n
        pure (r.1 + 1, r.2)
      else pure (0, false)

/-- What a receive takes from a connection. -/
def readBuffer : Option ℕ → Task (ℕ × Bool)
  | none => pure (0, true)
  | some connBuf =>
    locked (.bufMtx connBuf) do
      if ← choose then pure (0, true)
      else do
        write (.buffer connBuf)
        if ← choose then extract connBuf (← pick) else pure (0, ← choose)

/-- The session of a connection, which is made if there is none. -/
def findOrAddSession : Task (Option SessionPtr) := do
  match ← findBySocket with
  | some s => pure (some s)
  | none =>
    match ← borrowSession with
    | none => pure none
    | some s => do
        write (.session s)
        addSession s
        pure (some s)

/-- One packet is parsed and dispatched. -/
def dispatchPacket (s : SessionPtr) : Task Unit := do
  if ← choose then do
    log
    returnPacket
  else handlePacket s

/-- The packets are dispatched, and whether there is a session for them. -/
def dispatch (packets : ℕ) : Task Bool := do
  if packets = 0 then pure true
  else
    match ← findOrAddSession with
    | none => do
        repeatCode returnPacket packets
        log
        pure false
    | some s => do
        repeatCode (dispatchPacket s) packets
        pure true

def received : Task Unit := do
  let connBuf ← locked .socketBuffersMutex do
    read .socketBuffers
    lookup
  let r ← readBuffer connBuf
  let served ← dispatch r.1
  if r.2 || !served then handleDisconnect
  else if ← postRecv then pure ()
  else handleDisconnect

def sent : Task Unit := do
  if ← choose then pure ()
  else if ← choose then
    -- The packet was only sent in part.
    unless ← choose do
      log
      getUserIdBySocket
      clearFlag
      handleDisconnect
  else do
    getUserIdBySocket
    returnPacket
    if ← choose then drainNext

/-- An operation completes with an error. -/
def failed : Task Unit := do
  if ← choose then
    if ← choose then do
      getUserIdBySocket
      manageCompletePacket
    else returnPacket
  handleDisconnect

/-- A turn of `workerThread`. -/
def workerTurn : Task Unit := do
  read .iocpHandle
  if ← choose then failed
  else if ← choose then received
  else sent

def workerThread : Task Unit := do repeatCode workerTurn (← pick)

/-- A turn of `acceptLoop`. -/
def acceptTurn : Task Unit := do
  read .listenSocket
  if ← choose then log
  else do
    read .iocpHandle
    if ← choose then log
    else do
      locked .disconnectMtx (write .disconnectedSockets)
      locked .socketBuffersMutex (write .socketBuffers)
      log
      if ← postRecv then pure ()
      else do
        log
        handleDisconnect

def acceptLoop : Task Unit := do
  log
  repeatCode acceptTurn (← pick)

/-- `Server::stop`, with `IOCPManager::shutdown`, which waits for the workers. -/
def stop : Task Unit := do
  unless ← choose do
    log
    read .listenSocket
    if ← choose then write .listenSocket
    read .iocpHandle
    sleep
    if ← choose then write .iocpHandle
    log
    log

def signalHandler : Task Unit := do
  log
  stop

end Routine

inductive ServerThread
  | acceptLoop
  | workerThread
  | otpSenderLoop
  | signupManager
  | sendDownloadLinkLoop
  | handleFileTransfer
  | signalHandler
  /-- The thread that destroys the file manager. -/
  | stopAllTransfers
  /-- The thread that destroys the sign-up manager. -/
  | stopSignUp

def ServerThread.program : ServerThread → Routine.Task Unit
  | .acceptLoop => Routine.acceptLoop
  | .workerThread => Routine.workerThread
  | .otpSenderLoop => Routine.otpSenderLoop
  | .signupManager => Routine.signupManager
  | .sendDownloadLinkLoop => Routine.sendDownloadLinkLoop
  | .handleFileTransfer => Routine.handleFileTransfer
  | .signalHandler => Routine.signalHandler
  | .stopAllTransfers => Routine.stopAllTransfers
  | .stopSignUp => Routine.stopSignUp

end IocpChat

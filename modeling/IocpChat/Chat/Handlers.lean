import IocpChat.Lib.ReadLog
import IocpChat.Protocol.Structs

/-!
# What the server's packet handlers read

A handler reaches its packet's payload through `getPayload`, a pointer into
`Packet::data` that knows nothing of `payload_length`.  It reads the struct's
fields, and then strings, chunks or arrays whose lengths stand in the struct.

The handlers are modelled here as far as they read: each returns the request it
extracts, and the reads are logged.  Memory goes on behind the packet, since a
length field can reach beyond it.  What a handler does with its request is not
this module's concern.

`serverNeeds` adds up the payload a handler touches.  Nothing compares it with
`payload_length`, except for the two token packets, whose handlers check for the
exact size; so a handler stays inside the packet iff the sender was honest.

## Main definitions

* `Packet.memory` — the bytes from `data` on.
* `serverNeeds` — how many payload bytes the handler of a packet touches.
-/

namespace IocpChat

open Bytes ReadLog

/-! ## Payload access -/

/-- The bytes from `data` on; behind the packet there is whatever there is. -/
def Packet.memory (p : Packet) (beyond : ℕ → UInt8) (i : ℕ) : UInt8 :=
  (p.data.toList[i]?).getD (beyond i)

/-- A field of the payload struct, at its offset. -/
def field {α : Type} (c : Codec α) (off : ℕ) : Reads UInt8 α :=
  c.decode <$> read (headerSize + off) c.width

/-- A string behind the payload struct. -/
def bytesAt (off len : ℕ) : Reads UInt8 (List UInt8) := read (headerSize + off) len

/-- An array of words behind the payload struct. -/
def wordsAt (off n : ℕ) : Reads UInt8 (List UInt32) :=
  List.map u32.decode <$> readArray 4 (headerSize + off) n

def fieldAt {α : Type} (c : Codec α) (mem : ℕ → UInt8) (off : ℕ) : α :=
  c.decode (cells mem (headerSize + off) c.width)

def len16At (mem : ℕ → UInt8) (off : ℕ) : ℕ := (fieldAt u16 mem off).toNat

def len32At (mem : ℕ → UInt8) (off : ℕ) : ℕ := (fieldAt u32 mem off).toNat

/-- Only bytes that the packet carries are read. -/
def Inside {β : Type} (payloadLength : ℕ) (m : Reads UInt8 β) (mem : ℕ → UInt8) : Prop :=
  Within headerSize (headerSize + payloadLength) m mem

section Rules

variable {α β γ : Type} {c : Codec α} {mem : ℕ → UInt8} {off len payloadLength : ℕ}

@[simp] theorem val_field : val (field c off) mem = fieldAt c mem off := rfl

@[simp] theorem toNat_fieldAt_u16 : (fieldAt u16 mem off).toNat = len16At mem off := rfl

@[simp] theorem toNat_fieldAt_u32 : (fieldAt u32 mem off).toNat = len32At mem off := rfl

@[simp] theorem inside_pure (b : β) : Inside payloadLength (pure b) mem := within_pure b

@[simp] theorem inside_bind (m : Reads UInt8 β) (f : β → Reads UInt8 γ) :
    Inside payloadLength (m >>= f) mem ↔
      Inside payloadLength m mem ∧ Inside payloadLength (f (val m mem)) mem := within_bind m f

@[simp] theorem inside_field :
    Inside payloadLength (field c off) mem ↔ c.width = 0 ∨ off + c.width ≤ payloadLength := by
  rw [Inside, field, within_map, within_read]
  omega

@[simp] theorem inside_bytesAt :
    Inside payloadLength (bytesAt off len) mem ↔ len = 0 ∨ off + len ≤ payloadLength := by
  rw [Inside, bytesAt, within_read]
  omega

@[simp] theorem inside_wordsAt :
    Inside payloadLength (wordsAt off len) mem ↔ len = 0 ∨ off + 4 * len ≤ payloadLength := by
  rw [Inside, wordsAt, within_map, within_readArray (by decide)]
  omega

end Rules

/-! ## The handlers -/

/-- What a handler takes out of its packet. -/
inductive Request
  | login (identifier password : List UInt8)
  | token (token : List UInt8)
  | refresh (token : List UInt8)
  | badTokenSize
  | logout
  | privateMessage (receiverId : Uuid)
  | groupMessage (receiverId senderId : Uuid)
  | createGroup (receiverId senderId : Uuid)
  | joinGroup (receiverId senderId : Uuid)
  | leaveGroup (receiverId senderId : Uuid)
  | fileStart (receiverId uploadId : Uuid) (fileName : List UInt8) (totalSize : UInt64)
      (finalCrc : UInt32)
  | fileChunk (uploadId : Uuid) (byteOffset : UInt64) (chunkData : List UInt8)
      (crcReceived : UInt32)
  | roundEnd (uploadId : Uuid) (roundId chunkCount : UInt32)
  | fileEnd (uploadId : Uuid) (finalCrc : UInt32)
  | fileAck (uploadId : Uuid) (roundId : UInt32) (missing : List UInt32)
  | disconnectDownload (raw : List UInt8)
  | downloadRequest (userId uploadId : Uuid) (startBytes : UInt32)
  | otpRequest (email : List UInt8)
  | otpVerify (email otp : List UInt8)
  | signUp (email number username password : List UInt8)
  /-- Refused before dispatch: the session is not authenticated. -/
  | unauthorized
  /-- Nothing is read for this type. -/
  | ignored

/-- `AuthManager::HandleLoginPacket`. -/
def handleLoginPacket : Reads UInt8 Request := do
  let idLen ← field u16 0
  let passLen ← field u16 2
  let identifier ← bytesAt 4 idLen.toNat
  let password ← bytesAt (4 + idLen.toNat) passLen.toNat
  pure (.login identifier password)

/-- The token handlers look at the token only if the payload is exactly one. -/
def readToken (size payloadLength : ℕ) (request : List UInt8 → Request) :
    Reads UInt8 Request :=
  if payloadLength ≠ size then pure .badTokenSize
  else do
    let token ← bytesAt 0 size
    pure (request token)

/-- `sizeof(AccessToken)`: the id, two timestamps, the key id and the signature. -/
def accessTokenSize : ℕ := 16 + 8 + 8 + 1 + 32

/-- `sizeof(RefreshToken)`: the id, three words, the key id and the signature. -/
def refreshTokenSize : ℕ := 16 + 8 + 8 + 8 + 1 + 32

/-- `AuthManager::HandleTokenPacket`. -/
def handleTokenPacket (payloadLength : ℕ) : Reads UInt8 Request :=
  readToken accessTokenSize payloadLength .token

/-- `AuthManager::HandleRefreshPacket`. -/
def handleRefreshPacket (payloadLength : ℕ) : Reads UInt8 Request :=
  readToken refreshTokenSize payloadLength .refresh

/-- The group packets read the receiver and then the sender. -/
def readGroup (request : Uuid → Uuid → Request) : Reads UInt8 Request := do
  let receiverId ← field uuid 16
  let senderId ← field uuid 0
  pure (request receiverId senderId)

/-- `FileTransferManager::handleFileStart`. -/
def handleFileStart : Reads UInt8 Request := do
  let totalSize ← field u64 32
  let finalCrc ← field u32 40
  let filenameLen ← field u16 44
  let receiverId ← field uuid 0
  let uploadId ← field uuid 16
  let fileName ← bytesAt 46 filenameLen.toNat
  pure (.fileStart receiverId uploadId fileName totalSize finalCrc)

/-- `FileTransferManager::handleFileChunk`. -/
def handleFileChunk : Reads UInt8 Request := do
  let uploadId ← field uuid 0
  let byteOffset ← field u64 16
  let chunkSize ← field u32 24
  let crcReceived ← field u32 28
  let chunkData ← bytesAt 32 chunkSize.toNat
  pure (.fileChunk uploadId byteOffset chunkData crcReceived)

/-- `FileTransferManager::handleRoundEnd`. -/
def handleRoundEnd : Reads UInt8 Request := do
  let uploadId ← field uuid 0
  let roundId ← field u32 16
  let chunkCount ← field u32 20
  pure (.roundEnd uploadId roundId chunkCount)

/-- `FileTransferManager::handleFileEnd`. -/
def handleFileEnd : Reads UInt8 Request := do
  let uploadId ← field uuid 0
  let finalCrc ← field u32 16
  pure (.fileEnd uploadId finalCrc)

/-- `FileTransferManager::onAckReceived`. -/
def onAckReceived : Reads UInt8 Request := do
  let uploadId ← field uuid 0
  let roundId ← field u32 16
  let missingCount ← field u32 20
  let missing ← wordsAt 24 missingCount.toNat
  pure (.fileAck uploadId roundId missing)

/-- `FileTransferManager::HandleDisconnectRequest`. -/
def handleDisconnectRequest (payloadLength : UInt32) : Reads UInt8 Request :=
  if (packetSize payloadLength).toNat < headerSize then pure .ignored
  else do
    let raw ← bytesAt 0 payloadLength.toNat
    pure (.disconnectDownload raw)

/-- `FileTransferManager::HandleDownloadRequest`. -/
def handleDownloadRequest : Reads UInt8 Request := do
  let receiverId ← field uuid 0
  let upId ← field uuid 16
  let startBytes ← field u32 32
  pure (.downloadRequest receiverId upId startBytes)

/-- `SignUp::otpRequestHandler`. -/
def otpRequestHandler : Reads UInt8 Request := do
  let emailLen ← field u16 0
  let email ← bytesAt 2 emailLen.toNat
  pure (.otpRequest email)

/-- `SignUp::onOtpVerificationRequest`. -/
def onOtpVerificationRequest : Reads UInt8 Request := do
  let emailLen ← field u16 0
  let otpLen ← field u16 2
  let email ← bytesAt 4 emailLen.toNat
  let otp ← bytesAt (4 + emailLen.toNat) otpLen.toNat
  pure (.otpVerify email otp)

/-- `SignUp::signUpRequestHandler`. -/
def signUpRequestHandler : Reads UInt8 Request := do
  let emailLen ← field u16 0
  let numberLen ← field u16 2
  let usernameLen ← field u16 4
  let passwordLen ← field u16 6
  let email ← bytesAt 8 emailLen.toNat
  let number ← bytesAt (8 + emailLen.toNat) numberLen.toNat
  let username ← bytesAt (8 + emailLen.toNat + numberLen.toNat) usernameLen.toNat
  let password ← bytesAt (8 + emailLen.toNat + numberLen.toNat + usernameLen.toNat)
    passwordLen.toNat
  pure (.signUp email number username password)

/-- The types that need no authenticated session. -/
def bypassAuth (t : PacketType) : Bool :=
  t == .pktLogin || t == .pktSignUp || t == .pktOtpReq || t == .pktOtpVerify || t == .pktToken ||
    t == .pktRefresh

/-- `MessageRouter::handlePacket`, on a server with all its managers in place.
`authenticated` is the answer of `ValidateSessionHotPath`. -/
def handlePacket (authenticated : Bool) (hdr : PacketHeader) : Reads UInt8 Request :=
  match PacketType.ofCode hdr.type with
  | none => pure (if authenticated then .ignored else .unauthorized)
  | some t =>
    if !bypassAuth t && !authenticated then pure .unauthorized
    else
      match t with
      | .pktLogin => handleLoginPacket
      | .pktToken => handleTokenPacket hdr.payloadLength.toNat
      | .pktRefresh => handleRefreshPacket hdr.payloadLength.toNat
      | .pktLogout => pure .logout
      | .pktPrivateMessage => do
          let receiverId ← field uuid 16
          pure (.privateMessage receiverId)
      | .pktGroupMessage => readGroup .groupMessage
      | .pktCreateGroup => readGroup .createGroup
      | .pktJoinGroup => readGroup .joinGroup
      | .pktLeaveGroup => readGroup .leaveGroup
      | .pktFileStart => handleFileStart
      | .pktFileChunk => handleFileChunk
      | .pktRoundEnd => handleRoundEnd
      | .pktFileEnd => handleFileEnd
      | .pktFileAck => onAckReceived
      | .fileDwnldDisconnectRequest => handleDisconnectRequest hdr.payloadLength
      | .downloadRequest => handleDownloadRequest
      | .pktOtpReq => otpRequestHandler
      | .pktOtpVerify => onOtpVerificationRequest
      | .pktSignUp => signUpRequestHandler
      | _ => pure .ignored

/-! ## What they need -/

/-- The number of payload bytes the handler of a packet touches: the struct's
fields up to the last one it uses, and the parts whose lengths stand in them. -/
def serverNeeds (authenticated : Bool) (type : UInt16) (mem : ℕ → UInt8) : ℕ :=
  match PacketType.ofCode type with
  | none => 0
  | some t =>
    if !bypassAuth t && !authenticated then 0
    else
      match t with
      | .pktLogin | .pktOtpVerify => 4 + len16At mem 0 + len16At mem 2
      | .pktOtpReq => 2 + len16At mem 0
      | .pktSignUp => 8 + len16At mem 0 + len16At mem 2 + len16At mem 4 + len16At mem 6
      | .pktPrivateMessage | .pktGroupMessage | .pktCreateGroup | .pktJoinGroup
      | .pktLeaveGroup => 32
      | .pktFileStart => 46 + len16At mem 44
      | .pktFileChunk => 32 + len32At mem 24
      | .pktRoundEnd => 24
      | .pktFileEnd => 20
      | .pktFileAck => 24 + 4 * len32At mem 20
      | .downloadRequest => 36
      | _ => 0

section Needs

variable {mem : ℕ → UInt8} {payloadLength : ℕ}

theorem inside_handleLoginPacket : Inside payloadLength handleLoginPacket mem ↔
    4 + len16At mem 0 + len16At mem 2 ≤ payloadLength := by
  simp [handleLoginPacket]
  omega

theorem inside_onOtpVerificationRequest : Inside payloadLength onOtpVerificationRequest mem ↔
    4 + len16At mem 0 + len16At mem 2 ≤ payloadLength := by
  simp [onOtpVerificationRequest]
  omega

theorem inside_otpRequestHandler : Inside payloadLength otpRequestHandler mem ↔
    2 + len16At mem 0 ≤ payloadLength := by
  simp [otpRequestHandler]
  omega

theorem inside_signUpRequestHandler : Inside payloadLength signUpRequestHandler mem ↔
    8 + len16At mem 0 + len16At mem 2 + len16At mem 4 + len16At mem 6 ≤ payloadLength := by
  simp [signUpRequestHandler]
  omega

theorem inside_readGroup (request : Uuid → Uuid → Request) :
    Inside payloadLength (readGroup request) mem ↔ 32 ≤ payloadLength := by
  simp [readGroup]
  omega

theorem inside_handleFileStart : Inside payloadLength handleFileStart mem ↔
    46 + len16At mem 44 ≤ payloadLength := by
  simp [handleFileStart]
  omega

theorem inside_handleFileChunk : Inside payloadLength handleFileChunk mem ↔
    32 + len32At mem 24 ≤ payloadLength := by
  simp [handleFileChunk]
  omega

theorem inside_handleRoundEnd : Inside payloadLength handleRoundEnd mem ↔ 24 ≤ payloadLength := by
  simp [handleRoundEnd]
  omega

theorem inside_handleFileEnd : Inside payloadLength handleFileEnd mem ↔ 20 ≤ payloadLength := by
  simp [handleFileEnd]
  omega

theorem inside_onAckReceived : Inside payloadLength onAckReceived mem ↔
    24 + 4 * len32At mem 20 ≤ payloadLength := by
  simp [onAckReceived]
  omega

theorem inside_handleDownloadRequest :
    Inside payloadLength handleDownloadRequest mem ↔ 36 ≤ payloadLength := by
  simp [handleDownloadRequest]
  omega

theorem inside_readToken (size : ℕ) (request : List UInt8 → Request) :
    Inside payloadLength (readToken size payloadLength request) mem := by
  unfold readToken
  split
  · exact inside_pure _
  · simp
    omega

theorem inside_handleDisconnectRequest (length : UInt32) :
    Inside length.toNat (handleDisconnectRequest length) mem := by
  unfold handleDisconnectRequest
  split
  · exact inside_pure _
  · simp only [inside_bind, inside_bytesAt, inside_pure, and_true]
    omega

/-- **When the server's handlers stay inside the packet.** -/
theorem inside_handlePacket_iff (authenticated : Bool) (hdr : PacketHeader) (mem : ℕ → UInt8) :
    Inside hdr.payloadLength.toNat (handlePacket authenticated hdr) mem ↔
      serverNeeds authenticated hdr.type mem ≤ hdr.payloadLength.toNat := by
  unfold handlePacket serverNeeds
  cases PacketType.ofCode hdr.type with
  | none => simp
  | some t =>
    by_cases hgate : (!bypassAuth t && !authenticated) = true
    · simp only [if_pos hgate, inside_pure, Nat.zero_le]
    · simp only [if_neg hgate]
      cases t with
      | pktLogin => exact inside_handleLoginPacket
      | pktOtpVerify => exact inside_onOtpVerificationRequest
      | pktOtpReq => exact inside_otpRequestHandler
      | pktSignUp => exact inside_signUpRequestHandler
      | pktToken => simp [handleTokenPacket, inside_readToken]
      | pktRefresh => simp [handleRefreshPacket, inside_readToken]
      | pktPrivateMessage => simp
      | pktGroupMessage | pktCreateGroup | pktJoinGroup | pktLeaveGroup => exact inside_readGroup _
      | pktFileStart => exact inside_handleFileStart
      | pktFileChunk => exact inside_handleFileChunk
      | pktRoundEnd => exact inside_handleRoundEnd
      | pktFileEnd => exact inside_handleFileEnd
      | pktFileAck => exact inside_onAckReceived
      | downloadRequest => exact inside_handleDownloadRequest
      | fileDwnldDisconnectRequest => simp [inside_handleDisconnectRequest]
      | _ => simp

end Needs

end IocpChat

import IocpChat.Chat.Handlers
import IocpChat.Protocol.Decode

/-!
# What the client's packet handlers read

`Client::handleIncomingPacket` and the handlers it calls, as far as they read the
packet.  The transfer packets are read field by field as the server reads them, so
those handlers are the server's.

The two sides together give the answer to whether a handler reads only what its
packet carries: it does iff `payload_length` is at least what the length fields in
the payload call for, and nothing makes a sender keep to that.

## Main definitions

* `Client.handleIncomingPacket` — the dispatch.
* `Client.clientNeeds` — how many payload bytes the handler of a packet touches.
-/

namespace IocpChat.Client

open Bytes ReadLog

/-- What a handler takes out of its packet. -/
inductive Incoming
  | userId (serverId userId : Uuid)
  | privateMessage (senderId : Uuid) (text : List UInt8)
  | groupMessage (senderId receiverId : Uuid) (text : List UInt8)
  | downloadLink (senderId uploadId : Uuid) (totalSize : UInt32)
      (filename timestamp : List UInt8)
  /-- A packet of a file transfer, read as the server reads it. -/
  | transfer (request : Request)
  | fileStartResponse (uploadId : Uuid) (resumeOffset : UInt64)
  | message (msg : List UInt8)
  | tokens (accessToken refreshToken : List UInt8)
  | badTokenLengths
  | ignored

/-- `Client::handleUserIdPacket`. -/
def handleUserIdPacket : Reads UInt8 Incoming := do
  let serverId ← field uuid 0
  let userId ← field uuid 16
  pure (.userId serverId userId)

/-- `PKT_PRIVATE_MESSAGE`; the username is stepped over. -/
def handlePrivateMessage : Reads UInt8 Incoming := do
  let sender ← field uuid 0
  let txtLen ← field u16 46
  let usernameLen ← field u16 44
  let text ← bytesAt (48 + usernameLen.toNat) txtLen.toNat
  pure (.privateMessage sender text)

/-- `PKT_GROUP_MESSAGE`. -/
def handleGroupMessage : Reads UInt8 Incoming := do
  let sender ← field uuid 0
  let receiver ← field uuid 16
  let txtLen ← field u16 46
  let usernameLen ← field u16 44
  let text ← bytesAt (48 + usernameLen.toNat) txtLen.toNat
  pure (.groupMessage sender receiver text)

/-- `Client::handleDownloadLink`. -/
def handleDownloadLink : Reads UInt8 Incoming := do
  let senderId ← field uuid 0
  let upId ← field uuid 16
  let totalSize ← field u32 32
  let filenameLen ← field u16 36
  let timeLen ← field u16 38
  let filename ← bytesAt 40 filenameLen.toNat
  let timestamp ← bytesAt (40 + filenameLen.toNat) timeLen.toNat
  pure (.downloadLink senderId upId totalSize filename timestamp)

/-- `Client::HandleFileStartResponse`. -/
def handleFileStartResponse : Reads UInt8 Incoming := do
  let upId ← field uuid 0
  let resumeOffset ← field u64 16
  pure (.fileStartResponse upId resumeOffset)

/-- The handlers of a packet with one string. -/
def readString : Reads UInt8 Incoming := do
  let msgLen ← field u16 0
  let msg ← bytesAt 2 msgLen.toNat
  pure (.message msg)

/-- The tokens behind their lengths are copied only if both lengths are right. -/
def readTokens (accessLen refreshLen : ℕ) : Reads UInt8 Incoming :=
  if accessLen ≠ accessTokenSize ∨ refreshLen ≠ refreshTokenSize then pure .badTokenLengths
  else do
    let accessToken ← bytesAt 4 accessLen
    let refreshToken ← bytesAt (4 + accessLen) refreshLen
    pure (.tokens accessToken refreshToken)

/-- `Client::handleTokenGranted`. -/
def handleTokenGranted : Reads UInt8 Incoming := do
  let accessLen ← field u16 0
  let refreshLen ← field u16 2
  readTokens accessLen.toNat refreshLen.toNat

/-- `Client::handleIncomingPacket`. -/
def handleIncomingPacket (hdr : PacketHeader) : Reads UInt8 Incoming :=
  match PacketType.ofCode hdr.type with
  | some .pktUserId => handleUserIdPacket
  | some .pktPrivateMessage => handlePrivateMessage
  | some .pktGroupMessage => handleGroupMessage
  | some .downloadLink => handleDownloadLink
  | some .pktFileStart => .transfer <$> handleFileStart
  | some .pktFileChunk => .transfer <$> handleFileChunk
  | some .pktRoundEnd => .transfer <$> handleRoundEnd
  | some .pktFileEnd => .transfer <$> handleFileEnd
  | some .pktFileAck => .transfer <$> onAckReceived
  | some .fileStartResponse => handleFileStartResponse
  | some .pktTokenGranted => handleTokenGranted
  | some .pktFileStatus | some .pktAcknowledgment | some .pktAuthFail | some .pktSignupError
  | some .pktFileError => readString
  | _ => pure .ignored

/-- The number of payload bytes the handler of a packet touches. -/
def clientNeeds (type : UInt16) (mem : ℕ → UInt8) : ℕ :=
  match PacketType.ofCode type with
  | some .pktUserId => 32
  | some .pktPrivateMessage | some .pktGroupMessage =>
    if len16At mem 46 = 0 then 48 else 48 + len16At mem 44 + len16At mem 46
  | some .downloadLink => 40 + len16At mem 36 + len16At mem 38
  | some .pktFileStart => 46 + len16At mem 44
  | some .pktFileChunk => 32 + len32At mem 24
  | some .pktRoundEnd => 24
  | some .pktFileEnd => 20
  | some .pktFileAck => 24 + 4 * len32At mem 20
  | some .fileStartResponse => 24
  | some .pktTokenGranted =>
    if len16At mem 0 = accessTokenSize ∧ len16At mem 2 = refreshTokenSize then
      4 + accessTokenSize + refreshTokenSize
    else 4
  | some .pktFileStatus | some .pktAcknowledgment | some .pktAuthFail | some .pktSignupError
  | some .pktFileError => 2 + len16At mem 0
  | _ => 0

section Needs

variable {mem : ℕ → UInt8} {payloadLength : ℕ}

theorem inside_map {β γ : Type} (f : β → γ) (m : Reads UInt8 β) :
    Inside payloadLength (f <$> m) mem ↔ Inside payloadLength m mem := within_map f m

theorem inside_handlePrivateMessage : Inside payloadLength handlePrivateMessage mem ↔
    (if len16At mem 46 = 0 then 48 else 48 + len16At mem 44 + len16At mem 46) ≤
      payloadLength := by
  simp [handlePrivateMessage]
  split <;> omega

theorem inside_handleGroupMessage : Inside payloadLength handleGroupMessage mem ↔
    (if len16At mem 46 = 0 then 48 else 48 + len16At mem 44 + len16At mem 46) ≤
      payloadLength := by
  simp [handleGroupMessage]
  split <;> omega

theorem inside_handleDownloadLink : Inside payloadLength handleDownloadLink mem ↔
    40 + len16At mem 36 + len16At mem 38 ≤ payloadLength := by
  simp [handleDownloadLink]
  omega

theorem inside_readString :
    Inside payloadLength readString mem ↔ 2 + len16At mem 0 ≤ payloadLength := by
  simp [readString]
  omega

theorem inside_readTokens (accessLen refreshLen : ℕ) :
    Inside payloadLength (readTokens accessLen refreshLen) mem ↔
      (accessLen = accessTokenSize ∧ refreshLen = refreshTokenSize →
        4 + accessTokenSize + refreshTokenSize ≤ payloadLength) := by
  unfold readTokens
  split
  · simp only [inside_pure, true_iff]
    omega
  · have hpos : 0 < accessTokenSize ∧ 0 < refreshTokenSize := by decide
    simp
    omega

theorem inside_handleTokenGranted : Inside payloadLength handleTokenGranted mem ↔
    (if len16At mem 0 = accessTokenSize ∧ len16At mem 2 = refreshTokenSize then
      4 + accessTokenSize + refreshTokenSize else 4) ≤ payloadLength := by
  simp [handleTokenGranted, inside_readTokens]
  split <;> omega

/-- **When the client's handlers stay inside the packet.** -/
theorem inside_handleIncomingPacket_iff (hdr : PacketHeader) (mem : ℕ → UInt8) :
    Inside hdr.payloadLength.toNat (handleIncomingPacket hdr) mem ↔
      clientNeeds hdr.type mem ≤ hdr.payloadLength.toNat := by
  unfold handleIncomingPacket clientNeeds
  cases PacketType.ofCode hdr.type with
  | none => simp
  | some t =>
    cases t with
    | pktUserId =>
      simp [handleUserIdPacket]
      omega
    | fileStartResponse =>
      simp [handleFileStartResponse]
      omega
    | pktPrivateMessage => exact inside_handlePrivateMessage
    | pktGroupMessage => exact inside_handleGroupMessage
    | downloadLink => exact inside_handleDownloadLink
    | pktFileStart => exact (inside_map _ _).trans inside_handleFileStart
    | pktFileChunk => exact (inside_map _ _).trans inside_handleFileChunk
    | pktRoundEnd => exact (inside_map _ _).trans inside_handleRoundEnd
    | pktFileEnd => exact (inside_map _ _).trans inside_handleFileEnd
    | pktFileAck => exact (inside_map _ _).trans inside_onAckReceived
    | pktTokenGranted => exact inside_handleTokenGranted
    | pktFileStatus | pktAcknowledgment | pktAuthFail | pktSignupError | pktFileError => exact inside_readString
    | _ => simp

end Needs

/-- **Handlers read only what the packet carries iff `payload_length` covers what
they need**: for every packet, whatever lies behind it in memory, on both sides. -/
theorem handlers_inside_iff (p : Packet) (beyond : ℕ → UInt8) (authenticated : Bool) :
    (Inside p.header.payloadLength.toNat (handlePacket authenticated p.header) (p.memory beyond) ↔
      serverNeeds authenticated p.header.type (p.memory beyond) ≤
        p.header.payloadLength.toNat) ∧
    (Inside p.header.payloadLength.toNat (handleIncomingPacket p.header) (p.memory beyond) ↔
      clientNeeds p.header.type (p.memory beyond) ≤ p.header.payloadLength.toNat) :=
  ⟨inside_handlePacket_iff authenticated p.header _, inside_handleIncomingPacket_iff p.header _⟩

/-- A login packet without a payload passes `parseHeader` and `parseData`, and its
handler reads beyond it. -/
theorem not_inside_empty_login :
    ∃ q p : Packet, q.parse false = (true, p) ∧ p.header.type = PacketType.pktLogin.code ∧
      p.header.payloadLength = 0 ∧ ∀ beyond authenticated,
        ¬ Inside p.header.payloadLength.toNat (handlePacket authenticated p.header)
          (p.memory beyond) := by
  have hsize : (Message.raw .pktLogin []).wireSize ≤ dataSize := by decide
  obtain ⟨q, p, hparse, htype, hlen⟩ : ∃ q p : Packet, q.parse false = (true, p) ∧
      p.header.type = PacketType.pktLogin.code ∧ p.header.payloadLength = 0 :=
    ⟨_, _, Packet.parse_receive (.fresh .zero (List.Vector.replicate _ 0))
      ((Message.raw .pktLogin []).frame false hsize), rfl, rfl⟩
  refine ⟨q, p, hparse, htype, hlen, ?_⟩
  intro beyond authenticated hinside
  have hneeds := (inside_handlePacket_iff authenticated p.header _).mp hinside
  rw [hlen, htype, serverNeeds, PacketType.ofCode_code] at hneeds
  have hfields : 4 + len16At (p.memory beyond) 0 + len16At (p.memory beyond) 2 ≤ 0 := hneeds
  omega

end IocpChat.Client

import IocpChat.Lib.Bytes
import IocpChat.Protocol.CRC32C

/-!
# Packets: the header, the buffer, and parsing

`Packet` is the class of `protocol/Packet.h`: a header in host byte order, the
4096-byte buffer `data`, and the bookkeeping around it.  A pointer into `data` is
modelled by its offset, so the member `in` is `inPointer`, the number of bytes of
`data` that count as received.

Every multi-byte field of the wire header is in network order, so storing
`htonl x` is storing the big-endian bytes of `x` and `ntohl` of a loaded field is
their big-endian value.

## Main definitions

* `PacketType`, `PacketType.code` — the enumeration of `PacketTypes.h`.
* `PacketHeader`, `PacketHeader.codec` — the packed 16-byte header.
* `Packet`, `Packet.parseHeader`, `Packet.parseData`, `Packet.finalizePacket`.
-/

namespace IocpChat

open Bytes

/-! ## Constants and packet types -/

/-- `HEADER_SIZE`. -/
def headerSize : ℕ := 16

/-- `sizeof(Packet::data)`. -/
def dataSize : ℕ := 4096

/-- `START_BYTE`. -/
def startByte : UInt8 := 0xD5

/-- `CURRENT_VERSION`. -/
def currentVersion : UInt8 := 0x01

/-- `UUID_SIZE`. -/
def uuidSize : ℕ := 16

/-- The packet types, in the order of `PacketTypes.h`. -/
inductive PacketType
  | pktLogin | pktLogout | pktPrivateMessage | pktGroupMessage | pktCreateGroup | pktJoinGroup
  | pktLeaveGroup | pktFileStart | pktFileChunk | pktFileEnd | fileDwnldDisconnectRequest
  | pktAcknowledgment | pktResume | pktStatus | fileStatus | roundStatus | downloadLink
  | downloadRequest | pktRoundEnd | pktFileAck | pktFileError | fileStartResponse | pktSignUp
  | pktOtpReq | pktOtpVerify | pktToken | pktRefresh | pktTokenGranted | pktAuthFail
  | pktSignupPending | pktUserId | pktSignupError | pktFileStatus
  deriving DecidableEq, Repr

namespace PacketType

/-- Every packet type, in enumeration order. -/
def all : List PacketType :=
  [pktLogin, pktLogout, pktPrivateMessage, pktGroupMessage, pktCreateGroup, pktJoinGroup,
    pktLeaveGroup, pktFileStart, pktFileChunk, pktFileEnd, fileDwnldDisconnectRequest,
    pktAcknowledgment, pktResume, pktStatus, fileStatus, roundStatus, downloadLink,
    downloadRequest, pktRoundEnd, pktFileAck, pktFileError, fileStartResponse, pktSignUp,
    pktOtpReq, pktOtpVerify, pktToken, pktRefresh, pktTokenGranted, pktAuthFail,
    pktSignupPending, pktUserId, pktSignupError, pktFileStatus]

/-- The enumerator's value; `PKT_LOGIN` is 1 and the rest follow. -/
def code (t : PacketType) : UInt16 := UInt16.ofNat (all.idxOf t + 1)

/-- The cast back from the 16-bit type field; values outside the enumeration reach
the `default` of every `switch`. -/
def ofCode (c : UInt16) : Option PacketType := all.find? fun t => t.code == c

theorem ofCode_code (t : PacketType) : ofCode t.code = some t := by
  cases t <;> decide

end PacketType

/-! ## Network byte order -/

/-- A 16-bit field in network order. -/
def u16 : Codec UInt16 :=
  Codec.be 2 UInt16.toNat UInt16.ofNat fun a => by
    rw [show 256 ^ 2 = 2 ^ 16 from rfl, Nat.mod_eq_of_lt a.toNat_lt, UInt16.ofNat_toNat]

/-- A 32-bit field in network order. -/
def u32 : Codec UInt32 :=
  Codec.be 4 UInt32.toNat UInt32.ofNat fun a => by
    rw [show 256 ^ 4 = 2 ^ 32 from rfl, Nat.mod_eq_of_lt a.toNat_lt, UInt32.ofNat_toNat]

/-- A 64-bit field in network order. -/
def u64 : Codec UInt64 :=
  Codec.be 8 UInt64.toNat UInt64.ofNat fun a => by
    rw [show 256 ^ 8 = 2 ^ 64 from rfl, Nat.mod_eq_of_lt a.toNat_lt, UInt64.ofNat_toNat]

def u8 : Codec UInt8 :=
  Codec.be 1 UInt8.toNat UInt8.ofNat fun a => by
    rw [show 256 ^ 1 = 2 ^ 8 from rfl, Nat.mod_eq_of_lt a.toNat_lt, UInt8.ofNat_toNat]

@[simp] theorem width_u8 : u8.width = 1 := rfl
@[simp] theorem width_u16 : u16.width = 2 := rfl
@[simp] theorem width_u32 : u32.width = 4 := rfl
@[simp] theorem width_u64 : u64.width = 8 := rfl

/-! ## The header -/

/-- The packed header, with its fields in host order. -/
@[ext] structure PacketHeader where
  magic : UInt8
  version : UInt8
  type : UInt16
  payloadLength : UInt32
  sequenceNumber : UInt32
  checksum : UInt32
  deriving DecidableEq, Repr

namespace PacketHeader

/-- The header of a cleared packet. -/
def zero : PacketHeader := ⟨0, 0, 0, 0, 0, 0⟩

/-- The 16 bytes of a header on the wire. -/
def codec : Codec PacketHeader :=
  (u8.pair (u8.pair (u16.pair (u32.pair (u32.pair u32))))).iso
    (fun x => ⟨x.1, x.2.1, x.2.2.1, x.2.2.2.1, x.2.2.2.2.1, x.2.2.2.2.2⟩)
    (fun h => (h.magic, h.version, h.type, h.payloadLength, h.sequenceNumber, h.checksum))
    (fun _ => rfl)

@[simp] theorem width_codec : codec.width = headerSize := rfl

/-- The bytes before the checksum, which are the ones the checksum covers. -/
def leading (h : PacketHeader) : List UInt8 :=
  u8.encode h.magic ++ u8.encode h.version ++ u16.encode h.type ++ u32.encode h.payloadLength ++
    u32.encode h.sequenceNumber

@[simp] theorem length_leading (h : PacketHeader) : h.leading.length = 12 := by
  simp [leading]

theorem encode_eq (h : PacketHeader) : codec.encode h = h.leading ++ u32.encode h.checksum := by
  simp [codec, Codec.pair, Codec.iso, leading]

@[simp] theorem leading_withChecksum (h : PacketHeader) (c : UInt32) :
    { h with checksum := c }.leading = h.leading := rfl

end PacketHeader

/-! ## The packet -/

/-- The class `Packet`.  `inPointer` is the member `in`, as an offset into `data`. -/
@[ext] structure Packet where
  header : PacketHeader
  data : List.Vector UInt8 dataSize
  inPointer : ℕ
  writePos : ℕ
  parsedHeader : Bool
  parsedData : Bool
  isSent : Bool
  isSending : Bool
  isSentFail : Bool
  bypassQueue : Bool
  id : ℕ
  deriving DecidableEq

/-- The checksum a packet with these bytes and this payload length should carry:
over the header without its checksum field, then over the payload if there is
one. -/
def checksumOf (hw : Bool) (data : List UInt8) (payloadLength : UInt32) : UInt32 :=
  let crc := CRC32C.compute hw (slice data 0 (headerSize - 4)) 0
  if 0 < payloadLength then
    CRC32C.compute hw (slice data headerSize payloadLength.toNat) crc
  else crc

/-- `HEADER_SIZE + payload_length` in 32-bit arithmetic, wrapping as the source's
does. -/
def packetSize (payloadLength : UInt32) : UInt32 := 16 + payloadLength

theorem toNat_packetSize (payloadLength : UInt32) :
    (packetSize payloadLength).toNat = (16 + payloadLength.toNat) % 2 ^ 32 := by
  rw [packetSize, UInt32.toNat_add]
  rfl

/-- The size of a packet, read as a signed number, is exact below `2 ^ 31`. -/
theorem toInt_packetSize_of_lt {payloadLength : UInt32} (h : 16 + payloadLength.toNat < 2 ^ 31) :
    (packetSize payloadLength).toInt32.toInt = 16 + payloadLength.toNat := by
  have hnat := toNat_packetSize payloadLength
  change (packetSize payloadLength).toBitVec.toInt = _
  rw [BitVec.toInt_eq_toNat_cond, UInt32.toNat_toBitVec, if_pos (by omega)]
  omega

theorem toInt_packetSize {payloadLength : UInt32} (h : 16 + payloadLength.toNat ≤ 4096) :
    (packetSize payloadLength).toInt32.toInt = 16 + payloadLength.toNat :=
  toInt_packetSize_of_lt (by omega)

namespace Packet

/-- A default-constructed packet whose uninitialised members hold `junk` and
`header`. -/
def fresh (header : PacketHeader) (junk : List.Vector UInt8 dataSize) : Packet where
  header := header
  data := junk
  inPointer := 0
  writePos := headerSize
  parsedHeader := false
  parsedData := false
  isSent := false
  isSending := false
  isSentFail := false
  bypassQueue := false
  id := 0

/-- Everything but `data` and the id is as in a packet that was just made. -/
def clearInPointer (p : Packet) : Packet :=
  { p with
    inPointer := 0
    header := .zero
    parsedHeader := false
    parsedData := false
    isSent := false
    isSending := false
    isSentFail := false
    bypassQueue := false
    writePos := headerSize }

/-- `memcpy(data + off, src, |src|)`. -/
def copyIn (p : Packet) (off : ℕ) (src : List UInt8) : Packet :=
  { p with data := ⟨overwrite p.data.toList off src, by simp⟩ }

theorem data_copyIn (p : Packet) (off : ℕ) (src : List UInt8) :
    (p.copyIn off src).data.toList = overwrite p.data.toList off src := rfl

/-- The receivers' way of filling a packet: copy a frame to the start of `data`
and set `in` behind it. -/
def receive (p : Packet) (frame : List UInt8) : Packet :=
  { p.copyIn 0 frame with inPointer := frame.length }

@[simp] theorem length_data (p : Packet) : p.data.toList.length = dataSize := p.data.toList_length

/-- `in - data`, as the `int` the source casts it to. -/
def bytesReceived (p : Packet) : ℤ := p.inPointer

/-- The header is read even when the magic byte turns out wrong; only
`parsedHeader` tells. -/
def parseHeader (p : Packet) : Bool × Packet :=
  if p.bytesReceived < headerSize then (false, p)
  else
    let q := { p with header := PacketHeader.codec.decode p.data.toList }
    if q.header.magic ≠ startByte then (false, q)
    else (true, { q with parsedHeader := true })

/-- The length check compares `int`s: `HEADER_SIZE + payload_length` wraps in 32
bits and is then read as signed. -/
def parseData (hw : Bool) (p : Packet) : Bool × Packet :=
  if !p.parsedHeader then (false, p)
  else if p.bytesReceived < (packetSize p.header.payloadLength).toInt32.toInt then (false, p)
  else if checksumOf hw p.data.toList p.header.payloadLength ≠ p.header.checksum then (false, p)
  else (true, { p with parsedData := true })

/-- `parseHeader() && parseData()`, with the packet they leave. -/
def parse (hw : Bool) (p : Packet) : Bool × Packet :=
  if p.parseHeader.1 then p.parseHeader.2.parseData hw else (false, p.parseHeader.2)

/-- **What parsing does** with a complete packet: only the checksum decides. -/
theorem parse_of_complete (hw : Bool) {p : Packet} {hdr : PacketHeader}
    (hdecode : PacketHeader.codec.decode p.data.toList = hdr) (hmagic : hdr.magic = startByte)
    (hheader : 16 ≤ p.inPointer)
    (hbody : (packetSize hdr.payloadLength).toInt32.toInt ≤ p.inPointer) :
    p.parse hw =
      if checksumOf hw p.data.toList hdr.payloadLength = hdr.checksum then
        (true, { p with header := hdr, parsedHeader := true, parsedData := true })
      else (false, { p with header := hdr, parsedHeader := true }) := by
  have hhdr : p.parseHeader = (true, { p with header := hdr, parsedHeader := true }) := by
    have hrecv : ¬ p.bytesReceived < (headerSize : ℤ) := by
      rw [bytesReceived, headerSize]
      omega
    rw [parseHeader, if_neg hrecv]
    simp [hdecode, hmagic]
  rw [parse, hhdr, if_pos rfl, parseData]
  simp only [Bool.not_true, Bool.false_eq_true, if_false, bytesReceived, not_lt.mpr hbody]
  by_cases hcrc : checksumOf hw p.data.toList hdr.payloadLength = hdr.checksum
  · simp [hcrc]
  · simp [hcrc]

/-- Put the write position behind the header. -/
def resetWritePos (p : Packet) : Packet := { p with writePos := headerSize }

/-- Copy a string to the write position and move on. -/
def put (p : Packet) (src : List UInt8) : Packet :=
  { p.copyIn p.writePos src with writePos := p.writePos + src.length }

/-- The header `finalizePacket` writes, before its checksum is known. -/
def nextHeader (p : Packet) (type : PacketType) : PacketHeader :=
  ⟨startByte, currentVersion, type.code, UInt32.ofNat (p.writePos - headerSize), 0, 0⟩

/-- Write the header for the payload that stands before the write position, and
set the parsed header and `in` to match. -/
def finalizePacket (hw : Bool) (type : PacketType) (p : Packet) : Bool × Packet :=
  let hdr := p.nextHeader type
  let p := p.copyIn 0 hdr.leading
  let computedCrc := checksumOf hw p.data.toList hdr.payloadLength
  let p := p.copyIn hdr.leading.length (u32.encode computedCrc)
  (true, { p with header := { hdr with checksum := computedCrc }, inPointer := p.writePos })

end Packet

end IocpChat

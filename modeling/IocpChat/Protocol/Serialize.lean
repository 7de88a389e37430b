import IocpChat.Protocol.Frame
import IocpChat.Protocol.Structs

/-!
# The serializers of `Packet`

All seventeen serializers have one shape: reset the write position, refuse what
does not fit, write a packed struct, append the variable-length parts, finalize.
`Packet.serializeParts` is that shape, and each serializer is it at its own
struct, parts and type.

The theorems about the shape are `serializeParts_of_fits`, which says which frame
the packet then carries, and `serializeParts_of_not_fits`, which says that a
refused packet keeps its header and its `in`.

## Main definitions

* `Packet.serializeParts` — the common body.
* `Packet.serialize`, `Packet.serializeFileStart`, … — the seventeen serializers.
-/

namespace IocpChat

open Bytes

namespace Packet

/-- The body the serializers share: `fixed` is the packed struct, `parts` what is
copied behind it.  The lengths are those of objects in memory at once, so their
`size_t` sum does not wrap. -/
def serializeParts (hw : Bool) (p : Packet) (type : PacketType) (fixed : List UInt8)
    (parts : List (List UInt8)) : Bool × Packet :=
  let p := p.resetWritePos
  if dataSize < p.writePos + fixed.length + (parts.map List.length).sum then (false, p)
  else (parts.foldl put (p.put fixed)).finalizePacket hw type

/-! ## What the shape does -/

@[simp] theorem data_put (p : Packet) (src : List UInt8) :
    (p.put src).data.toList = overwrite p.data.toList p.writePos src := rfl

@[simp] theorem writePos_put (p : Packet) (src : List UInt8) :
    (p.put src).writePos = p.writePos + src.length := rfl

theorem foldl_put (parts : List (List UInt8)) (p : Packet) :
    (parts.foldl put p).data.toList = overwrite p.data.toList p.writePos parts.flatten ∧
      (parts.foldl put p).writePos = p.writePos + parts.flatten.length := by
  induction parts generalizing p with
  | nil => simp
  | cons a parts ih =>
    obtain ⟨hdata, hpos⟩ := ih (p.put a)
    rw [List.foldl_cons, hdata, hpos, data_put, writePos_put, overwrite_overwrite,
      List.flatten_cons, List.length_append, Nat.add_assoc]
    exact ⟨rfl, rfl⟩

/-- The frame of a struct and its parts. -/
def partsFrame (type : PacketType) (fixed : List UInt8) (parts : List (List UInt8))
    (h : headerSize + fixed.length + parts.flatten.length ≤ dataSize) : Frame where
  type := type.code
  payload := fixed ++ parts.flatten
  fits := by rw [List.length_append]; omega

section Shape

variable {hw : Bool} {p : Packet} {type : PacketType} {fixed : List UInt8}
  {parts : List (List UInt8)}

/-- **A serializer whose arguments fit returns true and leaves their frame.** -/
theorem serializeParts_of_fits
    (h : headerSize + fixed.length + parts.flatten.length ≤ dataSize) :
    (p.serializeParts hw type fixed parts).1 = true ∧
      (p.serializeParts hw type fixed parts).2.Carries hw (partsFrame type fixed parts h) ∧
      (p.serializeParts hw type fixed parts).2.inPointer =
        headerSize + (fixed ++ parts.flatten).length := by
  have hlen : ¬ dataSize < p.resetWritePos.writePos + fixed.length +
      (parts.map List.length).sum := by
    rw [← List.length_flatten]
    exact Nat.not_lt.mpr h
  obtain ⟨hdata, hpos⟩ := foldl_put parts (p.resetWritePos.put fixed)
  have hcopied : (parts.foldl put (p.resetWritePos.put fixed)).data.toList =
      overwrite p.data.toList headerSize (fixed ++ parts.flatten) := by
    rw [hdata, data_put, writePos_put, overwrite_overwrite]
    rfl
  have hpos' : (parts.foldl put (p.resetWritePos.put fixed)).writePos =
      headerSize + (fixed ++ parts.flatten).length := by
    rw [hpos, writePos_put, List.length_append, Nat.add_assoc]
    rfl
  rw [serializeParts, if_neg hlen]
  refine finalizePacket_carries (f := partsFrame type fixed parts h) type rfl hpos' ?_
  change slice _ headerSize (fixed ++ parts.flatten).length = fixed ++ parts.flatten
  rw [hcopied]
  refine slice_overwrite_self _ _ _ ?_
  rw [length_data, List.length_append, ← Nat.add_assoc]
  exact h

/-- A serializer whose arguments do not fit only resets the write position. -/
theorem serializeParts_of_not_fits
    (h : ¬ headerSize + fixed.length + parts.flatten.length ≤ dataSize) :
    p.serializeParts hw type fixed parts = (false, p.resetWritePos) := by
  have hlen : dataSize < p.resetWritePos.writePos + fixed.length +
      (parts.map List.length).sum := by
    rw [← List.length_flatten]
    exact Nat.lt_of_not_le h
  rw [serializeParts, if_pos hlen]

end Shape

/-! ## The serializers -/

/-- The 32-bit word that `memcpy` makes of four bytes on a little-endian host. -/
def hostWord (bs : List.Vector UInt8 4) : UInt32 := UInt32.ofNat (beDecode bs.toList.reverse)

/-- The length of a string, cast to the 16-bit field that carries it. -/
def len16 (s : List UInt8) : UInt16 := UInt16.ofNat s.length

section Serializers

variable (hw : Bool) (p : Packet)

/-- `nowMs` is the reading of the system clock; a null `number` counts as zero. -/
def serialize (type : PacketType) (sender receiver : Uuid) (nowMs : UInt64)
    (number : Option (List.Vector UInt8 4)) (username payloadData : List UInt8) : Bool × Packet :=
  p.serializeParts hw type
    (ChatMessagePayload.codec.encode
      ⟨sender, receiver, nowMs, (number.map hostWord).getD 0, len16 username, len16 payloadData⟩)
    [username, payloadData]

def serializeFileStart (recid uploadId : Uuid) (fileName : List UInt8) (totalSize : UInt64)
    (finalCrc : UInt32) : Bool × Packet :=
  p.serializeParts hw .pktFileStart
    (FileStartPayload.codec.encode ⟨recid, uploadId, totalSize, finalCrc, len16 fileName⟩)
    [fileName]

def serializeFileStartResponse (uploadId : Uuid) (resumeOffset : UInt64) : Bool × Packet :=
  p.serializeParts hw .fileStartResponse
    (FileStartResponsePayload.codec.encode ⟨uploadId, resumeOffset⟩) []

def serializeFileChunk (uploadId : Uuid) (byteOffset : UInt64) (chunkData : List UInt8) :
    Bool × Packet :=
  p.serializeParts hw .pktFileChunk
    (FileChunkPayload.codec.encode
      ⟨uploadId, byteOffset, UInt32.ofNat chunkData.length, CRC32C.compute hw chunkData 0⟩)
    [chunkData]

def serializeRoundEnd (uploadId : Uuid) (roundId chunkCount : UInt32) : Bool × Packet :=
  p.serializeParts hw .pktRoundEnd
    (RoundEndPayload.codec.encode ⟨uploadId, roundId, chunkCount⟩) []

/-- The missing chunks are converted and copied one at a time. -/
def serializeFileAck (uploadId : Uuid) (roundId : UInt32) (missingChunks : List UInt32) :
    Bool × Packet :=
  p.serializeParts hw .pktFileAck
    (FileAckPayload.codec.encode ⟨uploadId, roundId, UInt32.ofNat missingChunks.length⟩)
    (missingChunks.map u32.encode)

def serializeFileEnd (uploadId : Uuid) (finalCrc : UInt32) : Bool × Packet :=
  p.serializeParts hw .pktFileEnd (FileEndPayload.codec.encode ⟨uploadId, finalCrc⟩) []

def serializeLink (senderId uploadId : Uuid) (filename : List UInt8) (totalsize : UInt32)
    (timestamp : List UInt8) : Bool × Packet :=
  p.serializeParts hw .downloadLink
    (DownloadLinkPayload.codec.encode
      ⟨senderId, uploadId, totalsize, len16 filename, len16 timestamp⟩)
    [filename, timestamp]

def serializeDownloadReq (userId upId : Uuid) (bytes : UInt32) : Bool × Packet :=
  p.serializeParts hw .downloadRequest (DownloadReqPayload.codec.encode ⟨userId, upId, bytes⟩) []

def serializeLogin (identifier password : List UInt8) : Bool × Packet :=
  p.serializeParts hw .pktLogin (LoginPayload.codec.encode ⟨len16 identifier, len16 password⟩)
    [identifier, password]

def serializeOtpRequest (email : List UInt8) : Bool × Packet :=
  p.serializeParts hw .pktOtpReq (OtpReqPayload.codec.encode ⟨len16 email⟩) [email]

def serializeOtpVerification (email otp : List UInt8) : Bool × Packet :=
  p.serializeParts hw .pktOtpVerify (OtpVerifyPayload.codec.encode ⟨len16 email, len16 otp⟩)
    [email, otp]

def serializeSignup (email number username password : List UInt8) : Bool × Packet :=
  p.serializeParts hw .pktSignUp
    (SignupPayload.codec.encode ⟨len16 email, len16 number, len16 username, len16 password⟩)
    [email, number, username, password]

def serializeUserId (userId serverTempId : Uuid) : Bool × Packet :=
  p.serializeParts hw .pktUserId (UserIdPayload.codec.encode ⟨serverTempId, userId⟩) []

def serializeToken (type : PacketType) (accessToken refreshToken : List UInt8) : Bool × Packet :=
  p.serializeParts hw type
    (TokenGrantedPayload.codec.encode ⟨len16 accessToken, len16 refreshToken⟩)
    [accessToken, refreshToken]

def serializeString (type : PacketType) (str : List UInt8) : Bool × Packet :=
  p.serializeParts hw type (StringPayload.codec.encode ⟨len16 str⟩) [str]

def serializeRaw (type : PacketType) (rawPayload : List UInt8) : Bool × Packet :=
  p.serializeParts hw type [] [rawPayload]

end Serializers

end Packet

end IocpChat

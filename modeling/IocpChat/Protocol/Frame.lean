import IocpChat.Protocol.Packet

/-!
# Well-formed frames

A `Frame` is what one packet means on the wire: a type and a payload that fits in
`Packet::data`.  `Frame.bytes` is its image, with the length and the checksum that
`finalizePacket` writes.

The module connects frames with the packet code in both directions.
`finalizePacket` produces a frame's bytes (`finalizePacket_eq`), and a packet
filled with a frame's bytes passes `parseHeader` and `parseData` with the frame's
header (`parse_receive`).  The serializers, both receive loops and the handlers
go through these two.

## Main definitions

* `Frame`, `Frame.header`, `Frame.bytes`.
* `Packet.Carries` — the packet's leading bytes and its header are a frame's.
-/

namespace IocpChat

open Bytes

/-- A packet type and a payload that fits behind the header. -/
structure Frame where
  type : UInt16
  payload : List UInt8
  fits : headerSize + payload.length ≤ dataSize

instance : Inhabited Frame := ⟨⟨0, [], by decide⟩⟩

namespace Frame

variable (hw : Bool) (f : Frame)

/-- The payload length, as the header carries it. -/
def payloadLength : UInt32 := UInt32.ofNat f.payload.length

/-- The header before its checksum is known. -/
def bareHeader : PacketHeader :=
  ⟨startByte, currentVersion, f.type, f.payloadLength, 0, 0⟩

/-- The checksum: the leading header bytes, then the payload if there is one. -/
def checksum : UInt32 :=
  let crc := CRC32C.compute hw f.bareHeader.leading 0
  if 0 < f.payloadLength then CRC32C.compute hw f.payload crc else crc

def header : PacketHeader := { f.bareHeader with checksum := f.checksum hw }

def bytes : List UInt8 := PacketHeader.codec.encode (f.header hw) ++ f.payload

@[simp] theorem magic_header : (f.header hw).magic = startByte := rfl
@[simp] theorem payloadLength_header : (f.header hw).payloadLength = f.payloadLength := rfl
@[simp] theorem checksum_header : (f.header hw).checksum = f.checksum hw := rfl

theorem length_payload_le : f.payload.length ≤ 4080 := by
  have h := f.fits
  simp only [headerSize, dataSize] at h
  omega

@[simp] theorem toNat_payloadLength : f.payloadLength.toNat = f.payload.length := by
  have h := f.length_payload_le
  rw [payloadLength, UInt32.toNat_ofNat']
  omega

@[simp] theorem length_bytes : (f.bytes hw).length = headerSize + f.payload.length := by
  simp [bytes]

theorem length_bytes_le : (f.bytes hw).length ≤ dataSize := by
  rw [length_bytes]
  exact f.fits

theorem slice_bytes_leading : slice (f.bytes hw) 0 12 = f.bareHeader.leading := by
  rw [bytes, PacketHeader.encode_eq, List.append_assoc, header, PacketHeader.leading_withChecksum]
  have h := slice_append_left f.bareHeader.leading
    (u32.encode ({ f.bareHeader with checksum := f.checksum hw } : PacketHeader).checksum
      ++ f.payload)
  rwa [PacketHeader.length_leading] at h

theorem slice_bytes_payload : slice (f.bytes hw) headerSize f.payload.length = f.payload := by
  have h := slice_append_right (PacketHeader.codec.encode (f.header hw)) f.payload
  rwa [Codec.length_encode, PacketHeader.width_codec] at h

variable {hw f} {xs : List UInt8}

/-! ## Reading a frame back

Everything below assumes only that a byte string begins with the frame. -/

theorem decode_of_take (h : xs.take (headerSize + f.payload.length) = f.bytes hw) :
    PacketHeader.codec.decode xs = f.header hw := by
  rw [← List.take_append_drop (headerSize + f.payload.length) xs, h, bytes, List.append_assoc,
    Codec.decode_encode]

theorem checksumOf_of_take (h : xs.take (headerSize + f.payload.length) = f.bytes hw) :
    checksumOf hw xs f.payloadLength = f.checksum hw := by
  have hlead : slice xs 0 (headerSize - 4) = f.bareHeader.leading := by
    rw [slice_of_take_eq h _ _ (by simp [headerSize]; omega)]
    exact f.slice_bytes_leading hw
  have hpay : slice xs headerSize f.payload.length = f.payload := by
    rw [slice_of_take_eq h _ _ le_rfl, slice_bytes_payload]
  simp [checksumOf, checksum, hlead, hpay]

end Frame

namespace Packet

variable {hw : Bool} {f : Frame} {p : Packet}

/-- The packet's leading bytes and its header in host order are the frame's. -/
structure Carries (hw : Bool) (p : Packet) (f : Frame) : Prop where
  bytes : p.data.toList.take (headerSize + f.payload.length) = f.bytes hw
  header : p.header = f.header hw

/-- **A packet filled with a frame parses**, and the parsed header is the
frame's. -/
theorem parse_of_take (h : p.data.toList.take (headerSize + f.payload.length) = f.bytes hw)
    (hin : p.inPointer = headerSize + f.payload.length) :
    p.parse hw =
      (true, { p with header := f.header hw, parsedHeader := true, parsedData := true }) := by
  have hlen := f.length_payload_le
  have hfits : 16 + f.payloadLength.toNat ≤ 4096 := by
    rw [Frame.toNat_payloadLength]
    omega
  rw [parse_of_complete hw (Frame.decode_of_take h) rfl (by rw [hin, headerSize]; omega),
    Frame.payloadLength_header, Frame.checksum_header, if_pos (Frame.checksumOf_of_take h)]
  rw [Frame.payloadLength_header, toInt_packetSize hfits, Frame.toNat_payloadLength, hin,
    headerSize]
  omega

theorem take_receive (p : Packet) (frame : List UInt8) (h : frame.length ≤ dataSize) :
    (p.receive frame).data.toList.take frame.length = frame := by
  change (overwrite p.data.toList 0 frame).take frame.length = frame
  exact take_overwrite_zero _ _ (by simpa using h)

theorem parse_receive (p : Packet) (f : Frame) :
    (p.receive (f.bytes hw)).parse hw =
      (true, { p.receive (f.bytes hw) with
        header := f.header hw, parsedHeader := true, parsedData := true }) := by
  have h := take_receive p (f.bytes hw) (f.length_bytes_le hw)
  rw [Frame.length_bytes] at h
  exact parse_of_take h (by simp [receive])

theorem nextHeader_eq (type : PacketType) (ht : f.type = type.code)
    (hpos : p.writePos = headerSize + f.payload.length) :
    p.nextHeader type = f.bareHeader := by
  rw [nextHeader, hpos, Nat.add_sub_cancel_left, ← ht, Frame.bareHeader, Frame.payloadLength]

/-- The checksum `finalizePacket` computes, once the leading header bytes stand. -/
theorem checksumOf_leading (hpay : slice p.data.toList headerSize f.payload.length = f.payload) :
    checksumOf hw (overwrite p.data.toList 0 f.bareHeader.leading) f.payloadLength =
      f.checksum hw := by
  have hlead : slice (overwrite p.data.toList 0 f.bareHeader.leading) 0 (headerSize - 4) =
      f.bareHeader.leading := by
    have h := slice_overwrite_self p.data.toList 0 f.bareHeader.leading
      (by rw [length_data, PacketHeader.length_leading]; decide)
    rwa [PacketHeader.length_leading] at h
  have hpay' : slice (overwrite p.data.toList 0 f.bareHeader.leading) headerSize
      f.payload.length = f.payload := by
    rw [slice_overwrite_of_disjoint _ _ _ _ _ (by simp [headerSize]), hpay]
  simp [checksumOf, Frame.checksum, hlead, hpay']

theorem take_overwrite_header
    (hpay : slice p.data.toList headerSize f.payload.length = f.payload) :
    (overwrite (overwrite p.data.toList 0 f.bareHeader.leading) f.bareHeader.leading.length
      (u32.encode (f.checksum hw))).take (headerSize + f.payload.length) = f.bytes hw := by
  have hboth := overwrite_overwrite p.data.toList 0 f.bareHeader.leading
    (u32.encode (f.checksum hw))
  rw [Nat.zero_add] at hboth
  have henc : f.bareHeader.leading ++ u32.encode (f.checksum hw) =
      PacketHeader.codec.encode (f.header hw) := by
    rw [PacketHeader.encode_eq]
    rfl
  have hfirst : slice (overwrite p.data.toList 0 (PacketHeader.codec.encode (f.header hw))) 0
      headerSize = PacketHeader.codec.encode (f.header hw) := by
    have h := slice_overwrite_self p.data.toList 0 (PacketHeader.codec.encode (f.header hw))
      (by rw [length_data, Codec.length_encode]; decide)
    rwa [Codec.length_encode, PacketHeader.width_codec] at h
  have hrest : slice (overwrite p.data.toList 0 (PacketHeader.codec.encode (f.header hw)))
      headerSize f.payload.length = f.payload := by
    rw [slice_overwrite_of_disjoint _ _ _ _ _ (by simp), hpay]
  rw [hboth, henc, ← slice_zero, ← slice_append_slice, Nat.zero_add, hfirst, hrest, Frame.bytes]

/-- **`finalizePacket` writes a frame.**  The payload is what stands between the
header and the write position. -/
theorem finalizePacket_carries (type : PacketType) (ht : f.type = type.code)
    (hpos : p.writePos = headerSize + f.payload.length)
    (hpay : slice p.data.toList headerSize f.payload.length = f.payload) :
    (p.finalizePacket hw type).1 = true ∧ (p.finalizePacket hw type).2.Carries hw f ∧
      (p.finalizePacket hw type).2.inPointer = headerSize + f.payload.length := by
  have hcrc : checksumOf hw (p.copyIn 0 f.bareHeader.leading).data.toList
      f.bareHeader.payloadLength = f.checksum hw := checksumOf_leading hpay
  refine ⟨rfl, ⟨?_, ?_⟩, hpos⟩
  · simp only [finalizePacket, nextHeader_eq type ht hpos, hcrc]
    exact take_overwrite_header hpay
  · simp only [finalizePacket, nextHeader_eq type ht hpos, hcrc]
    rfl

end Packet

end IocpChat

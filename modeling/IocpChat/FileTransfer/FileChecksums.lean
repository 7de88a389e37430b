import IocpChat.Client.Requests
import IocpChat.Protocol.Checksums

/-!
# Checksums of files and packets, taken in pieces

A checksum can be continued: `compute` inverts the state when it starts and when it ends, so the
two inversions at a seam cancel, and the hardware loop takes in eight bytes as it would take them
in one by one, so that it does not matter where the groups of eight begin (`compute_append`).
Everything that computes a checksum in the program relies on this.  A file is read a mebibyte at
a time, with whatever is left in the last block; a packet is covered in two pieces, on both sides
of the checksum field.

## Main definitions

* `FileTransfer.computeFileCrc` — the server's `computeFileCRC`.
* `Packet.coveredBytes` — what the checksum of a packet covers.
-/

namespace IocpChat

open Bytes

namespace FileTransfer

/-- `FileTransferManager::computeFileCRC`, which is that of the client. -/
def computeFileCrc (hw : Bool) (contents : Option (List UInt8)) : UInt32 :=
  CRC32C.computeFileCrc hw contents

end FileTransfer

namespace CRC32C

theorem compute_if_pos (hw : Bool) (buffer : List UInt8) (crc : UInt32) :
    (if 0 < buffer.length then compute hw buffer crc else crc) =
      compute hw buffer crc := by
  cases buffer with
  | nil => simp [compute_nil]
  | cons b buffer => simp

theorem crcLoop_eq (hw : Bool) (rest : List UInt8) (crc : UInt32) :
    crcLoop hw rest crc = compute hw rest crc := by
  fun_induction crcLoop hw rest crc with
  | case1 rest crc buffer crc' hlast =>
    have hall : rest.take crcBlock = rest := List.take_of_length_le (by omega)
    simp only [crc', buffer, dite_eq_ite, compute_if_pos, hall]
  | case2 rest crc buffer crc' hfull ih =>
    rw [ih]
    simp only [crc', buffer, dite_eq_ite, compute_if_pos, compute_append,
      List.take_append_drop]

end CRC32C

namespace Packet

/-- What the checksum of a packet covers: the header without the checksum field, then the
payload. -/
def coveredBytes (data : List UInt8) (payloadLength : UInt32) : List UInt8 :=
  slice data 0 (headerSize - 4) ++ slice data headerSize payloadLength.toNat

theorem checksumOf_eq (hw : Bool) (data : List UInt8) (payloadLength : UInt32) :
    checksumOf hw data payloadLength = CRC32C.compute hw (coveredBytes data payloadLength) 0 := by
  unfold checksumOf coveredBytes
  by_cases hpayload : 0 < payloadLength
  · simp only [hpayload, if_true, CRC32C.compute_append]
  · have hzero : payloadLength = 0 := by
      rw [UInt32.lt_iff_toNat_lt] at hpayload
      exact UInt32.toNat_inj.mp (Nat.eq_zero_of_not_pos hpayload)
    simp [hzero]

/-- The checksum field lies between the two pieces, so writing it changes neither. -/
theorem coveredBytes_overwrite (data : List UInt8) (payloadLength checksum : UInt32) :
    coveredBytes (overwrite data (headerSize - 4) (u32.encode checksum)) payloadLength =
      coveredBytes data payloadLength := by
  have hlength : (u32.encode checksum).length = 4 := by simp
  unfold coveredBytes
  rw [slice_overwrite_of_disjoint _ _ _ _ _ (.inl (by simp [headerSize])),
    slice_overwrite_of_disjoint _ _ _ _ _ (.inr (by simp [headerSize, hlength]))]

theorem checksum_finalizePacket (hw : Bool) (type : PacketType) (p : Packet) :
    (p.finalizePacket hw type).2.header.checksum =
      CRC32C.compute hw (coveredBytes (p.finalizePacket hw type).2.data.toList
        (p.finalizePacket hw type).2.header.payloadLength) 0 := by
  have hdata : (p.finalizePacket hw type).2.data.toList =
      overwrite (overwrite p.data.toList 0 (p.nextHeader type).leading) (headerSize - 4)
        (u32.encode (checksumOf hw (overwrite p.data.toList 0 (p.nextHeader type).leading)
          (p.nextHeader type).payloadLength)) := by
    simp [finalizePacket, data_copyIn]
    rfl
  rw [hdata, coveredBytes_overwrite, ← checksumOf_eq]
  rfl

end Packet

/-- **A checksum can be taken in pieces.**  With either body, the checksum of two strings is that
of the second continued from that of the first.  So `computeFileCRC` of the client and that of the
server both return the checksum of the whole contents of a file, and the checksum that
`finalizePacket` writes and `parseData` compares is that of the twelve bytes of the header before
it followed by the payload. -/
theorem checksum_in_pieces (hw : Bool) :
    (∀ a b crc, CRC32C.compute hw (a ++ b) crc = CRC32C.compute hw b (CRC32C.compute hw a crc)) ∧
      (∀ size contents,
        Client.computeFileCrc hw ⟨size, some contents⟩ = CRC32C.compute hw contents 0 ∧
          FileTransfer.computeFileCrc hw (some contents) = CRC32C.compute hw contents 0) ∧
      (∀ (p : Packet) (type : PacketType),
        (p.finalizePacket hw type).2.header.checksum =
          CRC32C.compute hw (Packet.coveredBytes (p.finalizePacket hw type).2.data.toList
            (p.finalizePacket hw type).2.header.payloadLength) 0) ∧
      ∀ p : Packet, (p.parseData hw).1 = true ↔
        p.parsedHeader = true ∧
          (packetSize p.header.payloadLength).toInt32.toInt ≤ p.bytesReceived ∧
          CRC32C.compute hw (Packet.coveredBytes p.data.toList p.header.payloadLength) 0 =
            p.header.checksum := by
  refine ⟨?_, ?_, ?_, ?_⟩
  · intro a b crc
    exact (CRC32C.compute_append hw a b crc).symm
  · intro size contents
    exact ⟨CRC32C.crcLoop_eq hw contents 0, CRC32C.crcLoop_eq hw contents 0⟩
  · intro p type
    exact Packet.checksum_finalizePacket hw type p
  · intro p
    rw [← Packet.checksumOf_eq, Packet.parseData]
    by_cases hparsed : p.parsedHeader = true
    · by_cases hshort : p.bytesReceived < (packetSize p.header.payloadLength).toInt32.toInt
      · simp [hparsed, hshort]
      · by_cases hcrc : checksumOf hw p.data.toList p.header.payloadLength = p.header.checksum
        · simp [hparsed, hshort, hcrc, not_lt.mp hshort]
        · simp [hparsed, hshort, hcrc]
    · simp [hparsed]

end IocpChat

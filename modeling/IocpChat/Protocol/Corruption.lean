import IocpChat.Protocol.Checksums
import IocpChat.Protocol.Decode

/-!
# Corrupted packets

A packet on the wire is sealed: the four bytes behind the first twelve are the checksum of all
the others.  A receiver accepts a string only if it is sealed, so one that differs from a
sealed string in one byte is refused, whichever of the two parts the byte is in.  Only the
bytes of the payload length are left out, since they decide which bytes the receiver looks at.

The results are about the table-driven checksum.

## Main definitions

* `Sealed` — a string that carries its checksum.
-/

namespace IocpChat

open Bytes CRC32C

/-- The bytes that the checksum covers: all but the four that hold it. -/
def checkedBytes (wire : List UInt8) : List UInt8 := wire.take 12 ++ wire.drop 16

/-- A string that carries its checksum. -/
def Sealed (wire : List UInt8) : Prop :=
  (wire.drop 12).take 4 = u32.encode (computeSoftware (checkedBytes wire) 0)

/-! ## One byte is changed -/

section Change

variable {wire : List UInt8} {i : ℕ} {byte : UInt8}

theorem not_sealed_of_checksum (hsealed : Sealed wire) (hlow : 12 ≤ i) (hhigh : i < 16)
    (hi : i < wire.length) (hne : wire[i]? ≠ some byte) : ¬ Sealed (wire.set i byte) := by
  intro hset
  have hsame : checkedBytes (wire.set i byte) = checkedBytes wire := by
    rw [checkedBytes, checkedBytes, List.take_set, List.set_eq_of_length_le (by simp; omega),
      List.drop_set_of_lt hhigh]
  rw [Sealed, hsame, ← hsealed] at hset
  have hbyte := congrArg (fun field : List UInt8 => field[i - 12]?) hset
  simp only [List.getElem?_take_of_lt (show i - 12 < 4 by omega), List.getElem?_drop,
    Nat.add_sub_cancel' hlow, List.getElem?_set_self hi] at hbyte
  exact hne hbyte.symm

theorem not_sealed_of_covered {j : ℕ} (hsealed : Sealed wire) (hj : j < (checkedBytes wire).length)
    (hfield : ((wire.set i byte).drop 12).take 4 = (wire.drop 12).take 4)
    (hcovered : checkedBytes (wire.set i byte) = (checkedBytes wire).set j byte)
    (hne : (checkedBytes wire)[j]? ≠ some byte) : ¬ Sealed (wire.set i byte) := by
  intro hset
  rw [Sealed, hfield, hcovered, hsealed] at hset
  exact computeSoftware_set_ne hj hne 0 (u32.encode_injective hset.symm)

/-- **A change of one byte breaks the seal.** -/
theorem not_sealed_set (hsealed : Sealed wire) (hlen : 16 ≤ wire.length) (hi : i < wire.length)
    (hne : wire[i]? ≠ some byte) : ¬ Sealed (wire.set i byte) := by
  have htake : (wire.take 12).length = 12 := by
    rw [List.length_take]
    omega
  by_cases hlow : i < 12
  · refine not_sealed_of_covered (j := i) hsealed ?_ ?_ ?_ ?_
    · rw [checkedBytes, List.length_append]
      omega
    · rw [List.drop_set_of_lt hlow]
    · rw [checkedBytes, checkedBytes, List.take_set, List.drop_set_of_lt (by omega),
        List.set_append_left _ _ (by omega)]
    · rw [checkedBytes, List.getElem?_append_left (by omega), List.getElem?_take_of_lt hlow]
      exact hne
  · by_cases hhigh : i < 16
    · exact not_sealed_of_checksum hsealed (by omega) hhigh hi hne
    · refine not_sealed_of_covered (j := i - 4) hsealed ?_ ?_ ?_ ?_
      · rw [checkedBytes, List.length_append, List.length_drop]
        omega
      · rw [List.drop_set, if_neg (by omega), List.take_set, List.set_eq_of_length_le (by simp; omega)]
      · rw [checkedBytes, checkedBytes, List.take_set, List.set_eq_of_length_le (by omega), List.drop_set,
          if_neg (by omega), List.set_append_right _ _ (by omega), htake]
        rfl
      · rw [checkedBytes, List.getElem?_append_right (by omega), List.getElem?_drop, htake,
          show 16 + (i - 4 - 12) = i by omega]
        exact hne

end Change

/-! ## Packets -/

theorem u32_encode_decode {bs : List UInt8} (h : 4 ≤ bs.length) :
    u32.encode (u32.decode bs) = bs.take 4 := by
  have hlen : (bs.take 4).length = 4 := by
    rw [List.length_take]
    omega
  have hlt := beDecode_lt (bs.take 4)
  rw [hlen] at hlt
  have hback := beEncode_beDecode (bs.take 4)
  rw [hlen] at hback
  change beEncode 4 (UInt32.ofNat (beDecode (bs.take 4))).toNat = _
  rw [UInt32.toNat_ofNat', show 2 ^ 32 = 256 ^ 4 from rfl, Nat.mod_eq_of_lt hlt, hback]

/-- The checksum of a packet is computed in two calls, and is that of the bytes in one. -/
theorem checksumOf_software {data wire : List UInt8} {payloadLength : UInt32}
    (htake : data.take (16 + payloadLength.toNat) = wire)
    (hlen : wire.length = 16 + payloadLength.toNat) :
    checksumOf false data payloadLength = computeSoftware (checkedBytes wire) 0 := by
  have hlead : slice data 0 (headerSize - 4) = wire.take 12 := by
    rw [slice_of_take_eq htake _ _ (by simp [headerSize]; omega)]
    rfl
  have hpay : slice data headerSize payloadLength.toNat = wire.drop 16 := by
    rw [headerSize, slice_of_take_eq htake _ _ le_rfl, slice, List.take_of_length_le]
    rw [List.length_drop]
    omega
  simp [checksumOf, hlead, hpay, compute]
  split
  · rw [computeSoftware_append]
    rfl
  · rename_i hzero
    have hnil : wire.drop 16 = [] := by
      rw [UInt32.lt_iff_toNat_lt, UInt32.toNat_zero] at hzero
      exact List.drop_of_length_le (by omega)
    rw [checkedBytes, hnil, List.append_nil]

theorem Packet.magic_of_parse {hw : Bool} {p : Packet} (h : (p.parse hw).1 = true) :
    (PacketHeader.codec.decode p.data.toList).magic = startByte := by
  by_contra hmagic
  have hheader : p.parseHeader.1 = false := by
    rw [parseHeader]
    split
    · rfl
    · simp [hmagic]
  simp [parse, hheader] at h

/-- **Only sealed strings are accepted**, if they are as long as their header says. -/
theorem sealed_of_parse {q : Packet} {wire : List UInt8} {payloadLength : UInt32}
    (hlen : wire.length = 16 + payloadLength.toNat) (hfits : wire.length ≤ dataSize)
    (hfield : u32.decode (wire.drop 4) = payloadLength)
    (hparse : ((q.receive wire).parse false).1 = true) : Sealed wire := by
  have hdata : dataSize = 4096 := rfl
  have htake := Packet.take_receive q wire hfits
  set data := (q.receive wire).data.toList with hdef
  set hdr := PacketHeader.codec.decode data with hhdr
  have hdrop : ∀ n, (data.drop n).take (wire.length - n) = wire.drop n := by
    intro n
    rw [← List.drop_take, htake]
  have hpayload : hdr.payloadLength = payloadLength := by
    rw [← hfield]
    change u32.decode ((((data.drop 1).drop 1).drop 2)) = _
    rw [List.drop_drop, List.drop_drop]
    refine u32.decode_of_take_eq (n := wire.length - 4) ?_ (by simp; omega)
    rw [hdrop, List.take_of_length_le (by simp)]
  have hsum : hdr.checksum = u32.decode (wire.drop 12) := by
    change u32.decode (((((data.drop 1).drop 1).drop 2).drop 4).drop 4) = _
    rw [List.drop_drop, List.drop_drop, List.drop_drop, List.drop_drop]
    refine u32.decode_of_take_eq (n := wire.length - 12) ?_ (by simp; omega)
    rw [hdrop, List.take_of_length_le (by simp)]
  have hmagic : hdr.magic = startByte := Packet.magic_of_parse hparse
  have hbody : (packetSize hdr.payloadLength).toInt32.toInt ≤ (q.receive wire).inPointer := by
    rw [hpayload, toInt_packetSize (by omega)]
    simp [Packet.receive, hlen]
  rw [Packet.parse_of_complete false hhdr.symm hmagic (by simp [Packet.receive]; omega) hbody] at hparse
  split at hparse
  · rename_i hcrc
    rw [hpayload, checksumOf_software (hlen ▸ htake) hlen, hsum] at hcrc
    rw [Sealed, hcrc, u32_encode_decode]
    rw [List.length_drop]
    omega
  · cases hparse

/-- What `finalizePacket` writes is sealed. -/
theorem Frame.sealed_bytes (f : Frame) : Sealed (f.bytes false) := by
  have hlen : (f.bytes false).length = 16 + f.payloadLength.toNat := by
    rw [f.length_bytes, f.toNat_payloadLength, headerSize]
  have htake : (f.bytes false).take (headerSize + f.payload.length) = f.bytes false :=
    List.take_of_length_le (by simp)
  have hcrc : f.checksum false = computeSoftware (checkedBytes (f.bytes false)) 0 := by
    rw [← checksumOf_of_take htake]
    exact checksumOf_software (List.take_of_length_le hlen.le) hlen
  have hdrop : (f.bytes false).drop 12 = u32.encode (f.checksum false) ++ f.payload := by
    rw [Frame.bytes, PacketHeader.encode_eq, List.append_assoc, List.drop_append_of_le_length (by simp),
      List.drop_of_length_le (by simp)]
    rfl
  rw [Sealed, hdrop, ← hcrc, List.take_append_of_le_length (by simp), List.take_of_length_le (by simp)]

theorem Frame.decode_payloadLength (f : Frame) : u32.decode ((f.bytes false).drop 4) = f.payloadLength := by
  have htake : (f.bytes false).take (headerSize + f.payload.length) = f.bytes false :=
    List.take_of_length_le (by simp)
  have hheader := congrArg PacketHeader.payloadLength (decode_of_take htake)
  change u32.decode ((((f.bytes false).drop 1).drop 1).drop 2) = _ at hheader
  rwa [List.drop_drop, List.drop_drop] at hheader

/-- A frame with one byte changed is refused, unless the byte is of the payload length. -/
theorem Frame.parse_set_eq_false (f : Frame) (q : Packet) {i : ℕ} {byte : UInt8}
    (hi : i < (f.bytes false).length) (hlength : i < 4 ∨ 8 ≤ i)
    (hne : (f.bytes false)[i]? ≠ some byte) :
    ((q.receive ((f.bytes false).set i byte)).parse false).1 = false := by
  by_contra hparse
  have hlen : (f.bytes false).length = 16 + f.payloadLength.toNat := by
    rw [f.length_bytes, f.toNat_payloadLength, headerSize]
  have hfield : u32.decode (((f.bytes false).set i byte).drop 4) = f.payloadLength := by
    rw [← f.decode_payloadLength]
    rcases hlength with hlow | hhigh
    · rw [List.drop_set_of_lt hlow]
    · rw [List.drop_set, if_neg (by omega)]
      refine u32.decode_of_take_eq (n := 4) ?_ le_rfl
      rw [List.take_set, List.set_eq_of_length_le]
      rw [List.length_take]
      omega
  have hset : ((f.bytes false).set i byte).length = 16 + f.payloadLength.toNat := by
    rw [List.length_set, hlen]
  refine not_sealed_set f.sealed_bytes (by omega) hi hne ?_
  refine sealed_of_parse hset ?_ hfield (Bool.eq_true_of_not_eq_false hparse)
  rw [List.length_set]
  exact f.length_bytes_le false

/-- **Any corruption confined to one byte is detected.**  The checksums of strings that differ
in one position differ.  So a packet that a serializer has finalized is refused after a change
of any one byte that is not of the payload length. -/
theorem corruption_detected :
    (∀ (xs ys : List UInt8) (crc : UInt32), xs.length = ys.length →
      (∃! i : ℕ, xs[i]? ≠ ys[i]?) → computeSoftware xs crc ≠ computeSoftware ys crc) ∧
    ∀ (m : Message) (p q : Packet) (i : ℕ) (byte : UInt8), (m.serialize false p).1 = true →
      let wire := (m.serialize false p).2.data.toList.take
        (16 + (m.serialize false p).2.header.payloadLength.toNat)
      i < wire.length → i < 4 ∨ 8 ≤ i → wire[i]? ≠ some byte →
        ((q.receive (wire.set i byte)).parse false).1 = false := by
  constructor
  · intro xs ys crc hlen hone
    obtain ⟨i, hne, honly⟩ := hone
    have hi : i < ys.length := by
      by_contra hge
      refine hne ?_
      rw [List.getElem?_eq_none (by omega), List.getElem?_eq_none (by omega)]
    obtain ⟨byte, hbyte⟩ : ∃ byte, xs[i]? = some byte := ⟨_, List.getElem?_eq_getElem (hlen ▸ hi)⟩
    have hset : xs = ys.set i byte := by
      apply List.ext_getElem?
      intro j
      by_cases hj : j = i
      · subst hj
        rw [List.getElem?_set_self hi, hbyte]
      · rw [List.getElem?_set_ne (Ne.symm hj)]
        by_contra hdiff
        exact hj (honly j hdiff)
    rw [hset]
    refine computeSoftware_set_ne hi ?_ crc
    rw [← hbyte]
    exact hne.symm
  · intro m p q i byte hserialize wire hi hlength hne
    rcases m.serialize_spec false p with ⟨h, -, hcarries⟩ | ⟨h, heq⟩
    · have hwire : wire = (m.frame false h).bytes false := by
        simp only [wire]
        rw [hcarries.header, Frame.payloadLength_header, Frame.toNat_payloadLength]
        exact hcarries.bytes
      rw [hwire] at hi hne ⊢
      exact Frame.parse_set_eq_false _ q hi hlength hne
    · rw [heq] at hserialize
      cases hserialize

end IocpChat

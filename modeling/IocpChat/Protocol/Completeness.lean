import IocpChat.Protocol.Frame

/-!
# When a packet counts as complete

`isComplete` and `parseData` compare the bytes received with `HEADER_SIZE + payload_length`.
The sum is made in 32 bits and cast to an `int`, so it is the size of the packet only below
`2 ^ 31`.  From there on it is `2 ^ 32` too small: negative first, and one of 0 to 15 for the last
16 lengths, where the sum has wrapped already.  A header alone is enough for either, and then the
checksum is taken over up to four gigabytes from a buffer of 4096 bytes.

## Main definitions

* `Packet.crcRanges` — the ranges of `data` that `parseData` hands to `CRC32C::compute`.
* `Packet.CompletenessExact` — the tests agree with unbounded arithmetic.
-/

namespace IocpChat

open Bytes

/-! ## The size as an `int` -/

/-- From `2 ^ 31` on, whether the sum has wrapped or not, the cast is `2 ^ 32` too small. -/
theorem toInt_packetSize_of_le {payloadLength : UInt32} (h : 2 ^ 31 ≤ 16 + payloadLength.toNat) :
    (packetSize payloadLength).toInt32.toInt = 16 + payloadLength.toNat - 2 ^ 32 := by
  have hnat := toNat_packetSize payloadLength
  have hlt := payloadLength.toNat_lt
  change (packetSize payloadLength).toBitVec.toInt = _
  rw [BitVec.toInt_eq_toNat_cond, UInt32.toNat_toBitVec]
  by_cases hwraps : 16 + payloadLength.toNat < 2 ^ 32
  · rw [if_neg (by omega)]
    omega
  · rw [if_pos (by omega)]
    omega

namespace Packet

/-! ## The code -/

def isHeaderComplete (p : Packet) : Bool := decide ((headerSize : ℤ) ≤ p.bytesReceived)

def isComplete (p : Packet) : Bool :=
  if !p.isHeaderComplete then false
  else decide ((packetSize p.header.payloadLength).toInt32.toInt ≤ p.bytesReceived)

/-- The ranges of `data` over which `parseData` computes the checksum, one after the other, each
with its offset and its length. -/
def crcRanges (p : Packet) : List (ℕ × ℕ) :=
  if !p.parsedHeader then []
  else if p.bytesReceived < (packetSize p.header.payloadLength).toInt32.toInt then []
  else (0, headerSize - 4) ::
    if 0 < p.header.payloadLength then [(headerSize, p.header.payloadLength.toNat)] else []

/-- The checksum continued over ranges of a buffer. -/
def crcOver (hw : Bool) (data : List UInt8) (ranges : List (ℕ × ℕ)) : UInt32 :=
  ranges.foldl (fun crc r => CRC32C.compute hw (slice data r.1 r.2) crc) 0

/-- The checksum that `parseData` compares is the one over `crcRanges`, and without ranges there
is no success. -/
theorem parseData_eq (hw : Bool) (p : Packet) :
    p.parseData hw =
      if p.crcRanges ≠ [] ∧ crcOver hw p.data.toList p.crcRanges = p.header.checksum then
        (true, { p with parsedData := true })
      else (false, p) := by
  by_cases hparsed : p.parsedHeader = true
  · by_cases hshort : p.bytesReceived < (packetSize p.header.payloadLength).toInt32.toInt
    · simp [parseData, crcRanges, hparsed, hshort]
    · have hcrc : crcOver hw p.data.toList p.crcRanges =
          checksumOf hw p.data.toList p.header.payloadLength := by
        by_cases hpayload : 0 < p.header.payloadLength
        · simp [crcRanges, crcOver, checksumOf, hparsed, hshort, hpayload]
        · simp [crcRanges, crcOver, checksumOf, hparsed, hshort, hpayload]
      have hranges : p.crcRanges ≠ [] := by simp [crcRanges, hparsed, hshort]
      simp [parseData, hparsed, hshort, hcrc, hranges]
  · simp [parseData, crcRanges, hparsed]

/-! ## The tests and unbounded arithmetic -/

/-- The packet counts as complete just if all of it was received, and the checksum is taken over
nothing but bytes that were received. -/
structure CompletenessExact (p : Packet) : Prop where
  isComplete_iff : p.isComplete = true ↔ headerSize + p.header.payloadLength.toNat ≤ p.inPointer
  received : ∀ r ∈ p.crcRanges, r.1 + r.2 ≤ p.inPointer

section Parsed

variable {p : Packet}

theorem parseHeader_eq (h : p.parseHeader.1 = true) :
    16 ≤ p.inPointer ∧
      p.parseHeader.2 =
        { p with header := PacketHeader.codec.decode p.data.toList, parsedHeader := true } := by
  unfold parseHeader at h ⊢
  by_cases hreceived : p.bytesReceived < headerSize
  · simp [hreceived] at h
  · by_cases hmagic : (PacketHeader.codec.decode p.data.toList).magic = startByte
    · simp [hreceived, hmagic]
      simp only [bytesReceived, headerSize] at hreceived
      omega
    · simp [hreceived, hmagic] at h

theorem isComplete_eq_true_iff (h : 16 ≤ p.inPointer) :
    p.isComplete = true ↔ (packetSize p.header.payloadLength).toInt32.toInt ≤ p.inPointer := by
  have hheader : p.isHeaderComplete = true := by simpa [isHeaderComplete, bytesReceived, headerSize]
  rw [isComplete, hheader, bytesReceived]
  exact decide_eq_true_iff

/-- What is handed to the checksum ends with the header, or with the payload. -/
theorem received_of_mem_crcRanges (h : 16 ≤ p.inPointer)
    (hsize : (packetSize p.header.payloadLength).toInt32.toInt = 16 + p.header.payloadLength.toNat)
    (r : ℕ × ℕ) (hr : r ∈ p.crcRanges) : r.1 + r.2 ≤ p.inPointer := by
  unfold crcRanges at hr
  by_cases hparsed : p.parsedHeader = true
  · by_cases hshort : p.bytesReceived < (packetSize p.header.payloadLength).toInt32.toInt
    · simp [hparsed, hshort] at hr
    · have hreceived : 16 + p.header.payloadLength.toNat ≤ p.inPointer := by
        rw [hsize, bytesReceived] at hshort
        omega
      by_cases hpayload : 0 < p.header.payloadLength
      · simp [hparsed, hshort, hpayload] at hr
        rcases hr with rfl | rfl
        · simp only [headerSize]
          omega
        · exact hreceived
      · simp [hparsed, hshort, hpayload] at hr
        subst hr
        simp only [headerSize]
        omega
  · simp [hparsed] at hr

/-- The tests are right where the size is right as an `int`.  Elsewhere a header is enough. -/
theorem completenessExact_iff_of_le (hheader : 16 ≤ p.inPointer) (hin : p.inPointer ≤ dataSize) :
    p.CompletenessExact ↔ p.header.payloadLength.toNat < 2 ^ 31 - 16 := by
  have hlt := p.header.payloadLength.toNat_lt
  have hcomplete := isComplete_eq_true_iff hheader
  simp only [dataSize] at hin
  constructor
  · intro hexact
    by_contra hlong
    rw [toInt_packetSize_of_le (by omega)] at hcomplete
    have hall := hexact.isComplete_iff.mp (hcomplete.mpr (by omega))
    simp only [headerSize] at hall
    omega
  · intro hshort
    have hsize := @toInt_packetSize_of_lt p.header.payloadLength (by omega)
    constructor
    · rw [hcomplete, hsize, headerSize]
      omega
    · exact received_of_mem_crcRanges hheader hsize

end Parsed

/-- **When the tests for completeness are exact.**  Whatever the buffer and however much of it was
received, after `parseHeader` has succeeded `isComplete` agrees with unbounded arithmetic and
`parseData` stays within the bytes received just if the payload length is less than `2 ^ 31 - 16`.
-/
theorem completenessExact_parseHeader_iff (p : Packet) (hin : p.inPointer ≤ dataSize)
    (hheader : p.parseHeader.1 = true) :
    p.parseHeader.2.CompletenessExact ↔
      p.parseHeader.2.header.payloadLength.toNat < 2 ^ 31 - 16 := by
  have hparsed := parseHeader_eq hheader
  apply completenessExact_iff_of_le
  · rw [hparsed.2]
    exact hparsed.1
  · rw [hparsed.2]
    exact hin

/-- The packet of a receiver that got a header and nothing else. -/
def headerOnly (header : PacketHeader) : Packet :=
  (fresh .zero (.replicate dataSize 0)).receive (PacketHeader.codec.encode header)

theorem parseHeader_headerOnly {header : PacketHeader} (hmagic : header.magic = startByte) :
    (headerOnly header).parseHeader =
      (true, { headerOnly header with header := header, parsedHeader := true }) := by
  have hlength : (PacketHeader.codec.encode header).length = headerSize := by simp
  have htake := take_receive (fresh .zero (.replicate dataSize 0))
    (PacketHeader.codec.encode header)
    (by rw [hlength]; decide)
  have hdecode : PacketHeader.codec.decode (headerOnly header).data.toList = header := by
    rw [← List.take_append_drop (PacketHeader.codec.encode header).length
      (headerOnly header).data.toList, headerOnly, htake, Codec.decode_encode]
  have hreceived : ¬ (headerOnly header).bytesReceived < (headerSize : ℤ) := by
    simp [headerOnly, receive, bytesReceived]
  rw [parseHeader, if_neg hreceived]
  simp [hdecode, hmagic]

theorem inPointer_headerOnly (header : PacketHeader) : (headerOnly header).inPointer = 16 := by
  simp [headerOnly, receive, headerSize]

/-- A header as `finalizePacket` writes it, but for the length. -/
def sampleHeader (payloadLength : UInt32) : PacketHeader :=
  ⟨startByte, currentVersion, 1, payloadLength, 0, 0⟩

theorem completenessExact_headerOnly :
    (headerOnly (sampleHeader 100)).parseHeader.2.CompletenessExact := by
  have hparsed := @parseHeader_headerOnly (sampleHeader 100) rfl
  refine (completenessExact_parseHeader_iff _ ?_ ?_).mpr ?_
  · rw [inPointer_headerOnly]
    decide
  · rw [hparsed]
  · rw [hparsed]
    decide

theorem not_completenessExact_of_le {length : UInt32} (h : 2 ^ 31 - 16 ≤ length.toNat) :
    (headerOnly (sampleHeader length)).parseHeader.1 = true ∧
      ¬ (headerOnly (sampleHeader length)).parseHeader.2.CompletenessExact := by
  rw [@parseHeader_headerOnly (sampleHeader length) rfl]
  refine ⟨rfl, mt (completenessExact_iff_of_le ?_ ?_).mp (not_lt.mpr h)⟩
  · exact (inPointer_headerOnly _).ge
  · exact (inPointer_headerOnly _).trans_le (by decide)

/-- **A header is enough.**  With a payload length of `2 ^ 31 - 16` the packet counts as complete
when nothing of the payload was received, and so it does with `2 ^ 32 - 1`, where the sum wraps. -/
theorem not_completenessExact :
    ((headerOnly (sampleHeader 0x7FFFFFF0)).parseHeader.1 = true ∧
        ¬ (headerOnly (sampleHeader 0x7FFFFFF0)).parseHeader.2.CompletenessExact) ∧
      (headerOnly (sampleHeader 0xFFFFFFFF)).parseHeader.1 = true ∧
        ¬ (headerOnly (sampleHeader 0xFFFFFFFF)).parseHeader.2.CompletenessExact :=
  ⟨not_completenessExact_of_le (by decide), not_completenessExact_of_le (by decide)⟩

end Packet

end IocpChat

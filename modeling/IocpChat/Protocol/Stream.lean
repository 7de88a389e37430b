import IocpChat.Lib.Framing
import IocpChat.Protocol.Frame

/-!
# Reference framings of a byte stream

What a receiver should make of the bytes of a connection, stated on the stream
itself and not on any buffer.  The length of a frame is `16 + payload_length` over
the naturals, so it cannot wrap.

## Main definitions

* `frameScanner` — the server's framing: a bad header ends the stream.
* `resyncScanner` — the client's framing: bytes before a start byte are skipped,
  and a frame with a wrong checksum is dropped.
-/

namespace IocpChat

open Bytes Framing

/-! ## Frames in packets -/

/-- `data` starts with the frame and `in` stands behind it. -/
structure HoldsFrame (p : Packet) (f : List UInt8) : Prop where
  inPointer : p.inPointer = f.length
  bytes : p.data.toList.take f.length = f

theorem HoldsFrame.inPointer_le {p : Packet} {f : List UInt8} (h : HoldsFrame p f) :
    p.inPointer ≤ 4096 := by
  have hlen := congrArg List.length h.bytes
  rw [List.length_take, Packet.length_data] at hlen
  rw [h.inPointer, ← hlen]
  exact Nat.min_le_right _ _

theorem holdsFrame_copyIn (p : Packet) {f : List UInt8} (h : f.length ≤ dataSize) :
    HoldsFrame { p.copyIn 0 f with inPointer := f.length } f :=
  ⟨rfl, take_overwrite_zero _ _ (by rw [Packet.length_data]; exact h)⟩

/-- The bytes of a packet that belong on the wire. -/
def Packet.wire (p : Packet) : List UInt8 :=
  p.data.toList.take (16 + p.header.payloadLength.toNat)

theorem Packet.Carries.wire_eq {hw : Bool} {p : Packet} {f : Frame} (h : p.Carries hw f) :
    p.wire = f.bytes hw := by
  rw [Packet.wire, h.header, Frame.payloadLength_header, Frame.toNat_payloadLength]
  exact h.bytes

theorem checksumOf_of_take_eq (hw : Bool) {xs ys : List UInt8} {payloadLength : UInt32}
    (h : xs.take (16 + payloadLength.toNat) = ys.take (16 + payloadLength.toNat)) :
    checksumOf hw xs payloadLength = checksumOf hw ys payloadLength := by
  have hhead : slice xs 0 (headerSize - 4) = slice ys 0 (headerSize - 4) := by
    have hle : 0 + (headerSize - 4) ≤ 16 + payloadLength.toNat := by
      rw [headerSize]
      omega
    rw [slice_of_take_eq h _ _ hle, ← slice_of_take_eq rfl _ _ hle]
  have hbody : slice xs headerSize payloadLength.toNat = slice ys headerSize payloadLength.toNat := by
    have hle : headerSize + payloadLength.toNat ≤ 16 + payloadLength.toNat := le_rfl
    rw [slice_of_take_eq h _ _ hle, ← slice_of_take_eq rfl _ _ hle]
  rw [checksumOf, checksumOf, hhead, hbody]

/-! ## The server's framing -/

/-- What the reference framing says about the bytes at hand: the frame length is
taken over the naturals. -/
def scanFrame (xs : List UInt8) : Verdict (List UInt8) :=
  if xs.length < 16 then .wait
  else
    let hdr := PacketHeader.codec.decode xs
    if hdr.magic ≠ 0xD5 ∨ hdr.version ≠ 1 then .reject
    else if 4096 < 16 + hdr.payloadLength.toNat then .reject
    else if xs.length < 16 + hdr.payloadLength.toNat then .wait
    else .eat (16 + hdr.payloadLength.toNat) [xs.take (16 + hdr.payloadLength.toNat)]

theorem scanFrame_eat {xs : List UInt8} {n : ℕ} {out : List (List UInt8)}
    (h : scanFrame xs = .eat n out) :
    16 ≤ n ∧ n ≤ 4096 ∧ n ≤ xs.length ∧ out = [xs.take n] ∧
      n = 16 + (PacketHeader.codec.decode xs).payloadLength.toNat := by
  simp only [scanFrame] at h
  split at h
  · cases h
  split at h
  · cases h
  split at h
  · cases h
  split at h
  · cases h
  obtain ⟨rfl, rfl⟩ := Verdict.eat.inj h
  exact ⟨by omega, by omega, by omega, rfl, rfl⟩

theorem scanFrame_bytes (hw : Bool) (f : Frame) (ys : List UInt8) :
    scanFrame (f.bytes hw ++ ys) = .eat (16 + f.payload.length) [f.bytes hw] := by
  have hlen : (f.bytes hw).length = 16 + f.payload.length := f.length_bytes hw
  have htake : (f.bytes hw ++ ys).take (16 + f.payload.length) = f.bytes hw := by
    rw [← hlen, List.take_left]
  have hpay := f.length_payload_le
  rw [scanFrame, if_neg (by rw [List.length_append]; omega), Frame.decode_of_take htake]
  simp only [Frame.payloadLength_header, Frame.toNat_payloadLength]
  rw [if_neg (by simp [Frame.header, Frame.bareHeader, startByte, currentVersion]),
    if_neg (by omega), if_neg (by rw [List.length_append]; omega), htake]

/-- Once the header is complete and its verdict is not to wait, more bytes change
nothing. -/
theorem scanFrame_append {xs : List UInt8} (h : scanFrame xs ≠ .wait) (ys : List UInt8) :
    scanFrame (xs ++ ys) = scanFrame xs := by
  have hlen : ¬ xs.length < 16 := fun hlt => h (if_pos hlt)
  have hdecode := PacketHeader.codec.decode_append (Nat.le_of_not_lt hlen) ys
  rw [scanFrame, if_neg hlen] at h
  rw [scanFrame, scanFrame, if_neg hlen, if_neg (by rw [List.length_append]; omega)]
  simp only [hdecode] at h ⊢
  split
  · rfl
  split
  · rfl
  rename_i hmagic hlarge
  rw [if_neg hmagic, if_neg hlarge] at h
  have hbody : ¬ xs.length < 16 + (PacketHeader.codec.decode xs).payloadLength.toNat :=
    fun hlt => h (if_pos hlt)
  rw [if_neg hbody, if_neg (by rw [List.length_append]; omega),
    List.take_append_of_le_length (by omega)]

def frameScanner : Scanner UInt8 (List UInt8) where
  scan := scanFrame
  eat_pos h := by
    have := (scanFrame_eat h).1
    omega
  eat_le h := (scanFrame_eat h).2.2.1
  stable h ys := scanFrame_append h ys

theorem length_lt_of_scanFrame_wait {xs : List UInt8} (h : scanFrame xs = .wait) :
    xs.length < 4096 := by
  simp only [scanFrame] at h
  split at h
  · omega
  split at h
  · cases h
  split at h
  · cases h
  split at h
  · omega
  · cases h

/-! ## The client's framing -/

/-- What the client's framing says.  Only a frame that does not fit in a packet is
an error. -/
def scanResync (hw : Bool) (xs : List UInt8) : Verdict (List UInt8) :=
  if xs.length < 16 then .wait
  else
    let hdr := PacketHeader.codec.decode xs
    if hdr.magic ≠ 0xD5 then .eat 1 []
    else if 4096 < 16 + hdr.payloadLength.toNat then .reject
    else if xs.length < 16 + hdr.payloadLength.toNat then .wait
    else if checksumOf hw xs hdr.payloadLength = hdr.checksum then
      .eat (16 + hdr.payloadLength.toNat) [xs.take (16 + hdr.payloadLength.toNat)]
    else .eat (16 + hdr.payloadLength.toNat) []

theorem scanResync_eat {hw : Bool} {xs : List UInt8} {n : ℕ} {out : List (List UInt8)}
    (h : scanResync hw xs = .eat n out) : 1 ≤ n ∧ n ≤ xs.length := by
  simp only [scanResync] at h
  split at h
  · cases h
  split at h
  · obtain ⟨rfl, -⟩ := Verdict.eat.inj h
    omega
  split at h
  · cases h
  split at h
  · cases h
  split at h <;> obtain ⟨rfl, -⟩ := Verdict.eat.inj h <;> omega

theorem scanResync_append {hw : Bool} {xs : List UInt8} (h : scanResync hw xs ≠ .wait)
    (ys : List UInt8) : scanResync hw (xs ++ ys) = scanResync hw xs := by
  have hlen : ¬ xs.length < 16 := fun hlt => h (if_pos hlt)
  have hdecode := PacketHeader.codec.decode_append (Nat.le_of_not_lt hlen) ys
  rw [scanResync, if_neg hlen] at h
  rw [scanResync, scanResync, if_neg hlen, if_neg (by rw [List.length_append]; omega)]
  simp only [hdecode] at h ⊢
  split
  · rfl
  split
  · rfl
  rename_i hmagic hlarge
  rw [if_neg hmagic, if_neg hlarge] at h
  have hbody : ¬ xs.length < 16 + (PacketHeader.codec.decode xs).payloadLength.toNat :=
    fun hlt => h (if_pos hlt)
  rw [if_neg hbody, if_neg (by rw [List.length_append]; omega),
    List.take_append_of_le_length (by omega),
    checksumOf_of_take_eq hw (List.take_append_of_le_length (by omega))]

def resyncScanner (hw : Bool) : Scanner UInt8 (List UInt8) where
  scan := scanResync hw
  eat_pos h := (scanResync_eat h).1
  eat_le h := (scanResync_eat h).2
  stable h ys := scanResync_append h ys

@[simp] theorem scan_resyncScanner (hw : Bool) (xs : List UInt8) :
    (resyncScanner hw).scan xs = scanResync hw xs := rfl

/-! ## Clean streams -/

section Clean

variable {hw : Bool} {ys : List UInt8}

theorem magic_decode_cons (b : UInt8) (xs : List UInt8) :
    (PacketHeader.codec.decode (b :: xs)).magic = b := by
  have h : (PacketHeader.codec.decode (b :: xs)).magic = UInt8.ofNat (beDecode [b]) := rfl
  rw [h, beDecode]
  simp

theorem scanResync_skip {b : UInt8} (hb : b ≠ 0xD5) (hlen : 15 ≤ ys.length) :
    scanResync hw (b :: ys) = .eat 1 [] := by
  have hlong : ¬ (b :: ys).length < 16 := by
    rw [List.length_cons]
    omega
  rw [scanResync, if_neg hlong]
  exact if_pos (by rw [magic_decode_cons]; exact hb)

/-- Bytes other than the start byte are skipped, once a header's worth is there. -/
theorem drain_garbage {g : List UInt8} (hg : 0xD5 ∉ g) (hlen : 16 ≤ ys.length) :
    (resyncScanner hw).drain (g ++ ys) = (resyncScanner hw).drain ys := by
  induction g with
  | nil => rfl
  | cons b g ih =>
    rw [List.mem_cons, not_or] at hg
    obtain ⟨hb, hg⟩ := hg
    have hscan : (resyncScanner hw).scan (b :: (g ++ ys)) = .eat 1 [] :=
      scanResync_skip (Ne.symm hb) (by rw [List.length_append]; omega)
    rw [List.cons_append, Scanner.drain_of_eat hscan, List.drop_one, List.tail_cons, ih hg,
      List.nil_append]

theorem drain_trailing {g : List UInt8} (hg : 0xD5 ∉ g) :
    ((resyncScanner hw).drain g).out = [] ∧ ((resyncScanner hw).drain g).rejected = false := by
  induction g with
  | nil =>
    rw [Scanner.drain_of_wait rfl]
    exact ⟨rfl, rfl⟩
  | cons b g ih =>
    rw [List.mem_cons, not_or] at hg
    obtain ⟨hb, hg⟩ := hg
    by_cases hlen : 15 ≤ g.length
    · have hscan : (resyncScanner hw).scan (b :: g) = .eat 1 [] :=
        scanResync_skip (Ne.symm hb) hlen
      rw [Scanner.drain_of_eat hscan]
      exact ih hg
    · have hscan : (resyncScanner hw).scan (b :: g) = .wait :=
        if_pos (by rw [List.length_cons]; omega)
      rw [Scanner.drain_of_wait hscan]
      exact ⟨rfl, rfl⟩

theorem drain_frame (f : Frame) :
    (resyncScanner hw).drain (f.bytes hw ++ ys) =
      ⟨f.bytes hw :: ((resyncScanner hw).drain ys).out, ((resyncScanner hw).drain ys).rest,
        ((resyncScanner hw).drain ys).rejected⟩ := by
  have hlen : (f.bytes hw).length = 16 + f.payload.length := f.length_bytes hw
  have htake : (f.bytes hw ++ ys).take (16 + f.payload.length) = f.bytes hw := by
    rw [← hlen, List.take_left]
  have hpay := f.length_payload_le
  have hscan : scanResync hw (f.bytes hw ++ ys) = .eat (16 + f.payload.length) [f.bytes hw] := by
    rw [scanResync, if_neg (by rw [List.length_append]; omega), Frame.decode_of_take htake]
    simp only [Frame.magic_header, Frame.payloadLength_header, Frame.checksum_header,
      Frame.toNat_payloadLength]
    rw [if_neg (by decide), if_neg (by omega), if_neg (by rw [List.length_append]; omega),
      if_pos (Frame.checksumOf_of_take htake), htake]
  rw [← scan_resyncScanner] at hscan
  rw [Scanner.drain_of_eat hscan, ← hlen, List.drop_left]
  rfl

/-- **A clean stream is framed as it was written**: frames, each with garbage before
it that has no start byte, and such garbage at the end. -/
theorem drain_clean (hw : Bool) {sent : List (List UInt8 × Frame)} {trailing : List UInt8}
    (hsent : ∀ x ∈ sent, 0xD5 ∉ x.1) (htrailing : 0xD5 ∉ trailing) :
    ((resyncScanner hw).drain
        ((sent.map fun x => x.1 ++ x.2.bytes hw).flatten ++ trailing)).out =
      sent.map (fun x => x.2.bytes hw) ∧
    ((resyncScanner hw).drain
        ((sent.map fun x => x.1 ++ x.2.bytes hw).flatten ++ trailing)).rejected = false := by
  induction sent with
  | nil => exact drain_trailing htrailing
  | cons x sent ih =>
    have hsplit : ((x :: sent).map fun x => x.1 ++ x.2.bytes hw).flatten ++ trailing =
        x.1 ++ (x.2.bytes hw ++ ((sent.map fun x => x.1 ++ x.2.bytes hw).flatten ++ trailing)) := by
      simp
    have hlen : 16 ≤ (x.2.bytes hw ++
        ((sent.map fun x => x.1 ++ x.2.bytes hw).flatten ++ trailing)).length := by
      rw [List.length_append, Frame.length_bytes, headerSize]
      omega
    obtain ⟨hout, hrej⟩ := ih fun y hy => hsent y (List.mem_cons_of_mem _ hy)
    rw [hsplit, drain_garbage (hsent x List.mem_cons_self) hlen, drain_frame, hout, hrej]
    exact ⟨rfl, rfl⟩

end Clean

end IocpChat

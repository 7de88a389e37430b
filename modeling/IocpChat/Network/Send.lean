import IocpChat.DataStructure.CircularBuffer
import IocpChat.Protocol.Stream
import IocpChat.Protocol.Decode

/-!
# Sending on the server: `initiateSend` and the send completions

A send is one overlapped operation that carries its own progress: how much is to
be sent, how much has been confirmed, and the range handed to `WSASend` last.  A
completion for part of the range posts the rest; a completion for all of it marks
the packet sent and returns it to the pool.

`WSASend` transfers a prefix of the range it is given, so the bytes a completion
puts on the wire are known, and `runSend` collects them over the life of the
operation.

The progress is kept correctly, but towards a total that is too small.
`initiateSend` computes the total as
`ntohl(*(uint32_t*)(p->data + 4)); + HEADER_SIZE;`, where the second half is a
statement of its own without effect.  So the payload length is sent, and not the
packet.

## Main definitions

* `SendOp`, `initiateSend`, `onSendCompletion`, `runSend` — the code.
* `Confirmed` — what it takes for the given bytes to be sent whole.
-/

namespace IocpChat

open Bytes

/-! ## The code -/

/-- The operation data of a send.  The range is an offset into the packet's
`data` and a length. -/
structure SendOp where
  packet : Packet
  buffer : WSABUF
  totalToSend : ℤ
  bytesSent : ℤ

inductive SendState
  /-- A range was handed to `WSASend` and its completion is awaited. -/
  | inFlight (op : SendOp)
  /-- The packet is marked sent and was returned to the pool. -/
  | sent (p : Packet)
  | failed (p : Packet)

/-- A send completion: whether it reports success, the number of bytes, and whether
`WSASend` accepts the rest if one is posted. -/
structure SendCompletion where
  success : Bool
  bytesTransferred : ℕ
  accepted : Bool

/-- The packet's flags after a failure. -/
def Packet.sendFailed (p : Packet) : Packet := { p with isSending := false, isSentFail := true }

/-- `toCopy` of `initiateSend`.  The source goes on with `; + HEADER_SIZE`, which
adds nothing. -/
def toCopy (p : Packet) : UInt32 := u32.decode (p.data.toList.drop 4)

/-- Start to send a packet; `accepted` tells whether `WSASend` takes the range. -/
def initiateSend (p : Packet) (accepted : Bool) : SendState :=
  let p := { p with isSending := true, isSentFail := false, isSent := false }
  if accepted then
    .inFlight ⟨p, ⟨0, (toCopy p).toNat⟩, (toCopy p).toInt32.toInt, 0⟩
  else .failed p.sendFailed

/-- The send branch of `workerThread`. -/
def onSendCompletion (op : SendOp) (c : SendCompletion) : SendState :=
  if !c.success || c.bytesTransferred == 0 then .failed op.packet.sendFailed
  else
    let bytesSent := op.bytesSent + c.bytesTransferred
    if bytesSent < op.totalToSend then
      let remaining := op.totalToSend - bytesSent
      if c.accepted then
        .inFlight { op with bytesSent, buffer := ⟨bytesSent.toNat, remaining.toNat⟩ }
      else .failed op.packet.sendFailed
    else .sent { op.packet with isSending := false, isSent := true }

/-- The bytes in the range handed to `WSASend`. -/
def SendOp.handed (op : SendOp) : List UInt8 :=
  slice op.packet.data.toList op.buffer.buf op.buffer.len

/-- The bytes transferred over a sequence of completions, and the state they lead
to.  Once the send is over, no completion follows. -/
def runSend : SendState → List SendCompletion → List UInt8 × SendState
  | .inFlight op, c :: cs =>
    let r := runSend (onSendCompletion op c) cs
    (op.handed.take c.bytesTransferred ++ r.1, r.2)
  | st, _ => ([], st)

/-- Completions as they come when nothing fails: each reports a positive part of
the range. -/
def Succeeds : SendState → List SendCompletion → Prop
  | .inFlight op, c :: cs =>
    (c.success = true ∧ 1 ≤ c.bytesTransferred ∧ c.bytesTransferred ≤ op.buffer.len ∧
      c.accepted = true) ∧ Succeeds (onSendCompletion op c) cs
  | _, [] => True
  | _, _ :: _ => False

/-! ## What is sent -/

/-- The bytes are being sent whole: what was transferred, followed by the range in
flight, is all of them, and the packet is marked sent only once they were all
transferred. -/
def Confirmed (bytes : List UInt8) (r : List UInt8 × SendState) : Prop :=
  match r.2 with
  | .inFlight op => r.1 ++ op.handed = bytes
  | .sent p => r.1 = bytes ∧ p.isSent = true
  | .failed _ => False

theorem Confirmed.append_left {bytes : List UInt8} {r : List UInt8 × SendState}
    (h : Confirmed bytes r) (t : List UInt8) : Confirmed (t ++ bytes) (t ++ r.1, r.2) := by
  obtain ⟨transferred, st⟩ := r
  cases st with
  | inFlight op => exact (List.append_assoc _ _ _).trans (congrArg (t ++ ·) h)
  | sent p => exact ⟨congrArg (t ++ ·) h.1, h.2⟩
  | failed p => exact h

theorem Confirmed.unique {bytes bytes' : List UInt8} {r : List UInt8 × SendState}
    (h : Confirmed bytes r) (h' : Confirmed bytes' r) : bytes = bytes' := by
  obtain ⟨transferred, st⟩ := r
  cases st with
  | inFlight op => exact Eq.trans (Eq.symm h) h'
  | sent p => exact h.1.symm.trans h'.1
  | failed p => exact h.elim

/-- The length of the packet, as its header on the wire says. -/
def Packet.frameLength (p : Packet) : ℕ :=
  16 + (PacketHeader.codec.decode p.data.toList).payloadLength.toNat

/-- The packets that are sent: finalized by a serializer, or copied from a received
frame. -/
def Sendable (hw : Bool) (p : Packet) : Prop :=
  (∃ m q, Message.serialize hw q m = (true, p)) ∨
  ∃ xs n f, scanFrame xs = .eat n [f] ∧ HoldsFrame p f

theorem toCopy_eq (p : Packet) :
    toCopy p = (PacketHeader.codec.decode p.data.toList).payloadLength := by
  have hfield : (PacketHeader.codec.decode p.data.toList).payloadLength =
      u32.decode (((p.data.toList.drop 1).drop 1).drop 2) := rfl
  rw [hfield, List.drop_drop, List.drop_drop, toCopy]

/-- An operation whose progress is right: the range begins where the confirmed
bytes end and reaches to the total. -/
structure SendOp.Progress (op : SendOp) (data : List UInt8) (total done : ℕ) : Prop where
  data_eq : op.packet.data.toList = data
  total_eq : op.totalToSend = total
  sent_eq : op.bytesSent = done
  buffer_eq : op.buffer = ⟨done, total - done⟩
  done_le : done ≤ total
  total_le : total ≤ data.length

section Progress

variable {op : SendOp} {data : List UInt8} {total done : ℕ}

theorem SendOp.Progress.handed_eq (h : op.Progress data total done) :
    op.handed = slice data done (total - done) := by
  rw [SendOp.handed, h.data_eq, h.buffer_eq]

/-- **One completion moves the progress on**: the range shrinks by what was
transferred, or everything has been sent. -/
theorem onSendCompletion_spec (h : op.Progress data total done) {c : SendCompletion}
    (hsuccess : c.success = true) (hpos : 1 ≤ c.bytesTransferred)
    (hle : c.bytesTransferred ≤ op.buffer.len) (haccepted : c.accepted = true) :
    (∃ op', onSendCompletion op c = .inFlight op' ∧ done + c.bytesTransferred < total ∧
      op'.Progress data total (done + c.bytesTransferred)) ∨
    (∃ p, onSendCompletion op c = .sent p ∧ p.isSent = true ∧
      done + c.bytesTransferred = total) := by
  have hdone := h.done_le
  rw [h.buffer_eq] at hle
  have hle' : c.bytesTransferred ≤ total - done := hle
  have hok : (!c.success || c.bytesTransferred == 0) = false := by
    rw [hsuccess, Bool.not_true, Bool.false_or, beq_eq_false_iff_ne]
    omega
  rw [onSendCompletion, if_neg (by rw [hok]; exact Bool.false_ne_true)]
  simp only [h.sent_eq, h.total_eq]
  by_cases hpart : (done : ℤ) + c.bytesTransferred < total
  · rw [if_pos hpart, if_pos haccepted]
    refine .inl ⟨_, rfl, by omega, h.data_eq, rfl, ?_, ?_, by omega, h.total_le⟩
    · push_cast
      rfl
    · change WSABUF.mk _ _ = _
      congr 1
      omega
  · rw [if_neg hpart]
    exact .inr ⟨_, rfl, rfl, by omega⟩

/-- **Over the life of an operation, the bytes up to the total are sent whole.** -/
theorem runSend_spec (cs : List SendCompletion) (h : op.Progress data total done)
    (hcs : Succeeds (.inFlight op) cs) :
    Confirmed (slice data done (total - done)) (runSend (.inFlight op) cs) := by
  induction cs generalizing op done with
  | nil => exact h.handed_eq
  | cons c cs ih =>
    obtain ⟨⟨hsuccess, hpos, hle, haccepted⟩, hrest⟩ := hcs
    have hle' : c.bytesTransferred ≤ total - done := by
      rw [h.buffer_eq] at hle
      exact hle
    have hsplit : slice data done (total - done) =
        op.handed.take c.bytesTransferred ++
          slice data (done + c.bytesTransferred) (total - (done + c.bytesTransferred)) := by
      rw [h.handed_eq, ← slice_zero, slice_slice _ _ _ _ _ (by omega), Nat.add_zero,
        slice_append_slice]
      congr 1
      omega
    rcases onSendCompletion_spec h hsuccess hpos hle haccepted with
      ⟨op', hop', -, hprogress⟩ | ⟨p, hp, hsent, htotal⟩
    · rw [hop'] at hrest
      rw [hsplit, runSend, hop']
      exact (ih hprogress hrest).append_left _
    · have hnil : cs = [] := by
        rw [hp] at hrest
        cases cs with
        | nil => rfl
        | cons c' cs => exact absurd hrest id
      subst hnil
      rw [hsplit, htotal, Nat.sub_self, slice_length_zero, runSend, hp]
      exact ⟨rfl, hsent⟩

end Progress

/-! ## What `initiateSend` sends -/

theorem Packet.Carries.frameLength_eq {hw : Bool} {p : Packet} {f : Frame}
    (h : p.Carries hw f) : p.frameLength = 16 + f.payload.length := by
  rw [Packet.frameLength, Frame.decode_of_take h.bytes, Frame.payloadLength_header,
    Frame.toNat_payloadLength]

/-- The frame of a packet that is sent fits in `data`. -/
theorem Sendable.frameLength_le {hw : Bool} {p : Packet} (h : Sendable hw p) :
    p.frameLength ≤ 4096 := by
  rcases h with ⟨m, q, hm⟩ | ⟨xs, n, f, hscan, hp⟩
  · obtain ⟨hfits, hcarries⟩ := Message.carries_of_serialize hm
    rw [hcarries.frameLength_eq]
    exact (m.frame hw hfits).fits
  · obtain ⟨hlow, hhigh, hlen, hout, hn⟩ := scanFrame_eat hscan
    have hf : f = xs.take n := by simpa using hout
    have hflen : f.length = n := by rw [hf, List.length_take, Nat.min_eq_left hlen]
    have htake : p.data.toList.take n = xs.take n := by
      rw [← hf, ← hflen]
      exact hp.bytes
    rw [Packet.frameLength, PacketHeader.codec.decode_of_take_eq htake hlow, ← hn]
    exact hhigh

theorem progress_initiateSend {p : Packet} (h : p.frameLength ≤ 4096) :
    ∃ op, initiateSend p true = .inFlight op ∧
      op.Progress p.data.toList (p.frameLength - 16) 0 := by
  have hlen : p.frameLength - 16 = (toCopy p).toNat := by
    rw [toCopy_eq, Packet.frameLength, Nat.add_sub_cancel_left]
  have hint : (toCopy p).toInt32.toInt = (toCopy p).toNat := by
    change (toCopy p).toBitVec.toInt = _
    rw [BitVec.toInt_eq_toNat_cond, UInt32.toNat_toBitVec, if_pos (by omega)]
  refine ⟨_, rfl, rfl, ?_, rfl, ?_, Nat.zero_le _, ?_⟩
  · rw [hlen]
    exact hint
  · rw [hlen]
    rfl
  · rw [Packet.length_data, dataSize]
    omega

/-- **The server never sends a packet whole.**  Whatever completions come, the bytes
sent for a packet are its frame without the last `HEADER_SIZE` bytes, and never the
whole frame; nevertheless the packet is marked sent. -/
theorem initiateSend_not_whole (hw : Bool) (p : Packet) (h : Sendable hw p) :
    ∀ cs, Succeeds (initiateSend p true) cs →
      Confirmed (p.data.toList.take (p.frameLength - 16)) (runSend (initiateSend p true) cs) ∧
      ¬ Confirmed (p.data.toList.take p.frameLength) (runSend (initiateSend p true) cs) := by
  intro cs hcs
  have hle := h.frameLength_le
  have hlow : 16 ≤ p.frameLength := Nat.le_add_right 16 _
  obtain ⟨op, hop, hprogress⟩ := progress_initiateSend hle
  rw [hop] at hcs ⊢
  have hconf := runSend_spec cs hprogress hcs
  rw [Nat.sub_zero, slice_zero] at hconf
  refine ⟨hconf, ?_⟩
  intro hwhole
  have hlen := congrArg List.length (hconf.unique hwhole)
  rw [List.length_take, List.length_take, Packet.length_data, dataSize] at hlen
  omega

/-- A login packet of 23 bytes, of which the first 7 are sent with one completion. -/
theorem exists_login_sent :
    ∃ login sent, Message.serialize false (.fresh .zero (List.Vector.replicate _ 0))
        (.login [97, 98] [99]) = (true, login) ∧ login.frameLength = 23 ∧
      Succeeds (initiateSend login true) [⟨true, 7, true⟩] ∧
      runSend (initiateSend login true) [⟨true, 7, true⟩] =
        (login.data.toList.take 7, .sent sent) ∧
      sent.isSent = true := by
  have hsize : (Message.login [97, 98] [99]).wireSize ≤ dataSize := by decide
  obtain ⟨login, hlogin⟩ := Message.exists_serialize false
    (.fresh .zero (List.Vector.replicate _ 0)) hsize
  obtain ⟨_, hcarries⟩ := Message.carries_of_serialize hlogin
  have hlen : login.frameLength = 23 := hcarries.frameLength_eq
  obtain ⟨op, hop, hprogress⟩ := progress_initiateSend (hlen.trans_le (by decide))
  rw [hlen] at hprogress
  have hbuf : (7 : ℕ) ≤ op.buffer.len := by rw [hprogress.buffer_eq]
  rcases onSendCompletion_spec (c := ⟨true, 7, true⟩) hprogress rfl (by decide) hbuf rfl with
    ⟨op', -, hmore, -⟩ | ⟨sent, hsent, hflag, -⟩
  · exact absurd hmore (by decide)
  · refine ⟨login, sent, hlogin, hlen, ?_, ?_, hflag⟩
    · rw [hop]
      refine ⟨⟨rfl, by decide, hbuf, rfl⟩, ?_⟩
      rw [hsent]
      trivial
    · rw [hop, runSend, hsent, hprogress.handed_eq]
      simp [runSend, slice]

/-- It is so for a login packet, after its completion. -/
theorem initiateSend_not_whole_login :
    ∃ login, Message.serialize false (.fresh .zero (List.Vector.replicate _ 0))
        (.login [97, 98] [99]) = (true, login) ∧
      Confirmed (login.data.toList.take (login.frameLength - 16))
        (runSend (initiateSend login true) [⟨true, 7, true⟩]) ∧
      ¬ Confirmed (login.data.toList.take login.frameLength)
        (runSend (initiateSend login true) [⟨true, 7, true⟩]) := by
  obtain ⟨login, -, hlogin, -, hsucceeds, -, -⟩ := exists_login_sent
  exact ⟨login, hlogin, initiateSend_not_whole false login (.inl ⟨_, _, hlogin⟩) _ hsucceeds⟩

/-- A login packet of 23 bytes is marked sent after its first 7. -/
theorem runSend_login :
    ∃ login sent, Message.serialize false (.fresh .zero (List.Vector.replicate _ 0))
        (.login [97, 98] [99]) = (true, login) ∧ login.frameLength = 23 ∧
      Succeeds (initiateSend login true) [⟨true, 7, true⟩] ∧
      runSend (initiateSend login true) [⟨true, 7, true⟩] =
        (login.data.toList.take 7, .sent sent) ∧
      sent.isSent = true ∧
      ¬ Confirmed (login.data.toList.take login.frameLength)
        (runSend (initiateSend login true) [⟨true, 7, true⟩]) := by
  obtain ⟨login, sent, hlogin, hlen, hsucceeds, hrun, hflag⟩ := exists_login_sent
  refine ⟨login, sent, hlogin, hlen, hsucceeds, hrun, hflag, ?_⟩
  rw [hrun, hlen]
  intro hconf
  have hcut := congrArg List.length hconf.1
  rw [List.length_take, List.length_take, Packet.length_data] at hcut
  exact absurd hcut (by decide)

end IocpChat

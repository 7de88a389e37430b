import IocpChat.Lib.Loop
import IocpChat.Protocol.Stream
import IocpChat.Protocol.Decode

/-!
# Receiving on the client: `Client::receiveLoop`

Received bytes are appended to `streamBuffer`, and an inner `while (true)` takes
packets off its front.  `extractTurn` is one turn of that loop, `loopBody` the same
as a loop body, and `receiveLoop` the outer loop over the results of `recv`.

The inner loop does not always terminate.  `HEADER_SIZE + payload_length` wraps in
32 bits, and for one value of the length field it is zero: then nothing is copied,
parsing fails, and zero bytes are erased.  The server's loop guards against the
wrapped sum; this one does not.

Streams made of well-formed packets, with garbage between them that has no start
byte, stay clear of that case.

## Main definitions

* `extractTurn`, `loopBody`, `receiveLoop` — the code.
* `ZeroSizeHeader` — the header the inner loop hangs on.
-/

namespace IocpChat.Client

open Bytes Framing

/-! ## The code -/

/-- What the local `Packet p` of a turn holds before it is filled. -/
structure Junk where
  header : PacketHeader
  data : List.Vector UInt8 dataSize

/-- What one turn of the inner loop does. -/
inductive Turn
  /-- `break`, leaving these bytes. -/
  | leave (rest : List UInt8)
  /-- `continue` without a packet. -/
  | skip (rest : List UInt8)
  /-- Hand a packet to `handleIncomingPacket` and go on. -/
  | handle (p : Packet) (rest : List UInt8)

/-- The local packet of a turn, filled with the first `size` bytes. -/
def fill (junk : Junk) (streamBuffer : List UInt8) (size : ℕ) : Packet :=
  { (Packet.fresh junk.header junk.data).copyIn 0 (streamBuffer.take size) with
    inPointer := size }

def extractTurn (hw : Bool) (junk : Junk) (streamBuffer : List UInt8) : Turn :=
  if streamBuffer.length < headerSize then .leave streamBuffer
  else
    let hdr := PacketHeader.codec.decode streamBuffer
    if hdr.magic ≠ startByte then .skip (streamBuffer.drop 1)
    else
      let size := (packetSize hdr.payloadLength).toNat
      if streamBuffer.length < size ∨ dataSize < size then
        if dataSize < size then .leave (streamBuffer.drop headerSize)
        else .leave streamBuffer
      else
        let r := (fill junk streamBuffer size).parse hw
        if !r.1 then .skip (streamBuffer.drop size)
        else .handle r.2 (streamBuffer.drop size)

/-- The state of the client around the inner loop. -/
structure LoopState where
  streamBuffer : List UInt8
  /-- The packets handed to `handleIncomingPacket`, in order. -/
  handled : List Packet
  /-- The number of turns taken; it only tells the local packets apart. -/
  turns : ℕ

def loopBody (hw : Bool) (junk : ℕ → Junk) (s : LoopState) : LoopState ⊕ LoopState :=
  match extractTurn hw (junk s.turns) s.streamBuffer with
  | .leave rest => .inr { s with streamBuffer := rest }
  | .skip rest => .inl { s with streamBuffer := rest, turns := s.turns + 1 }
  | .handle p rest =>
    .inl { streamBuffer := rest, handled := s.handled ++ [p], turns := s.turns + 1 }

/-- The outer loop: `recv` answers with each of the given byte strings and then
reports the end of the connection, as an empty result does.  `fuel` bounds the
turns of each inner loop. -/
def receiveLoop (hw : Bool) (junk : ℕ → Junk) (fuel : ℕ) :
    LoopState → List (List UInt8) → Option LoopState
  | s, [] => some s
  | s, c :: cs =>
    if c = [] then some s
    else do
      let s' ← Loop.run (loopBody hw junk) fuel { s with streamBuffer := s.streamBuffer ++ c }
      receiveLoop hw junk fuel s' cs

/-! ## When the inner loop terminates -/

/-- The buffer starts with a header whose `payload_length` makes `packetSize`
zero. -/
def ZeroSizeHeader (streamBuffer : List UInt8) : Prop :=
  16 ≤ streamBuffer.length ∧ (PacketHeader.codec.decode streamBuffer).magic = 0xD5 ∧
    (PacketHeader.codec.decode streamBuffer).payloadLength = 0xFFFFFFF0

instance (streamBuffer : List UInt8) : Decidable (ZeroSizeHeader streamBuffer) :=
  inferInstanceAs (Decidable (_ ∧ _ ∧ _))

theorem toNat_packetSize_eq_zero_iff (payloadLength : UInt32) :
    (packetSize payloadLength).toNat = 0 ↔ payloadLength = 0xFFFFFFF0 := by
  have hlt := payloadLength.toNat_lt
  rw [toNat_packetSize, ← UInt32.toNat_inj]
  change _ ↔ payloadLength.toNat = 4294967280
  omega

/-- **What a turn erases** when it goes on: one byte, or the size of the packet. -/
theorem extractTurn_cases (hw : Bool) (junk : Junk) (xs : List UInt8) :
    (∃ rest, extractTurn hw junk xs = .leave rest ∧ ¬ ZeroSizeHeader xs) ∨
    (extractTurn hw junk xs = .skip (xs.drop 1) ∧ 16 ≤ xs.length ∧ ¬ ZeroSizeHeader xs) ∨
    ∃ size, size ≤ xs.length ∧ (size = 0 ↔ ZeroSizeHeader xs) ∧
      (extractTurn hw junk xs = .skip (xs.drop size) ∨
        ∃ p, extractTurn hw junk xs = .handle p (xs.drop size)) := by
  rw [extractTurn]
  by_cases hshort : xs.length < headerSize
  · refine .inl ⟨xs, if_pos hshort, ?_⟩
    rintro ⟨hlen, -⟩
    exact absurd hshort (Nat.not_lt.mpr hlen)
  have hlen : 16 ≤ xs.length := Nat.le_of_not_lt hshort
  simp only [if_neg hshort]
  by_cases hmagic : (PacketHeader.codec.decode xs).magic ≠ startByte
  · refine .inr (.inl ⟨if_pos hmagic, hlen, ?_⟩)
    rintro ⟨-, hm, -⟩
    exact hmagic hm
  rw [if_neg hmagic]
  have hm : (PacketHeader.codec.decode xs).magic = 0xD5 := not_not.mp hmagic
  set size := (packetSize (PacketHeader.codec.decode xs).payloadLength).toNat with hsize
  have hzero : size = 0 ↔ ZeroSizeHeader xs := by
    rw [hsize, toNat_packetSize_eq_zero_iff, ZeroSizeHeader]
    exact ⟨fun h => ⟨hlen, hm, h⟩, fun h => h.2.2⟩
  by_cases hout : xs.length < size ∨ dataSize < size
  · have hnz : ¬ ZeroSizeHeader xs := by
      rw [← hzero]
      omega
    rw [if_pos hout]
    by_cases hlarge : dataSize < size
    · exact .inl ⟨_, if_pos hlarge, hnz⟩
    · exact .inl ⟨_, if_neg hlarge, hnz⟩
  · rw [if_neg hout]
    refine .inr (.inr ⟨size, by omega, hzero, ?_⟩)
    cases ((fill junk xs size).parse hw).1 with
    | true => exact .inr ⟨_, rfl⟩
    | false => exact .inl rfl

section Termination

variable {hw : Bool} {junk : ℕ → Junk} {s s' : LoopState}

theorem loopBody_of_leave {rest : List UInt8}
    (h : extractTurn hw (junk s.turns) s.streamBuffer = .leave rest) :
    loopBody hw junk s = .inr { s with streamBuffer := rest } := by
  simp only [loopBody, h]

theorem loopBody_of_skip {rest : List UInt8}
    (h : extractTurn hw (junk s.turns) s.streamBuffer = .skip rest) :
    loopBody hw junk s = .inl { s with streamBuffer := rest, turns := s.turns + 1 } := by
  simp only [loopBody, h]

theorem loopBody_of_handle {p : Packet} {rest : List UInt8}
    (h : extractTurn hw (junk s.turns) s.streamBuffer = .handle p rest) :
    loopBody hw junk s =
      .inl { streamBuffer := rest, handled := s.handled ++ [p], turns := s.turns + 1 } := by
  simp only [loopBody, h]

/-- **What a turn that goes on does to the buffer**: it shrinks, unless the header
is the one of size zero, and then it stays as it is. -/
theorem length_of_goes (h : Loop.Goes (loopBody hw junk) s s') :
    if ZeroSizeHeader s.streamBuffer then s'.streamBuffer = s.streamBuffer
    else s'.streamBuffer.length < s.streamBuffer.length := by
  rw [Loop.Goes] at h
  rcases extractTurn_cases hw (junk s.turns) s.streamBuffer with
    ⟨rest, hturn, -⟩ | ⟨hturn, hlen, hnz⟩ | ⟨size, hle, hzero, hturn⟩
  · rw [loopBody_of_leave hturn] at h
    cases h
  · rw [loopBody_of_skip hturn] at h
    obtain rfl := Sum.inl.inj h
    rw [if_neg hnz]
    simp only [List.length_drop]
    omega
  · have hbuf : s'.streamBuffer = s.streamBuffer.drop size := by
      rcases hturn with hturn | ⟨p, hturn⟩
      · rw [loopBody_of_skip hturn] at h
        obtain rfl := Sum.inl.inj h
        rfl
      · rw [loopBody_of_handle hturn] at h
        obtain rfl := Sum.inl.inj h
        rfl
    by_cases hz : ZeroSizeHeader s.streamBuffer
    · rw [if_pos hz, hbuf, hzero.mpr hz, List.drop_zero]
    · have hpos : size ≠ 0 := fun h => hz (hzero.mp h)
      have hne : 0 < s.streamBuffer.length := by omega
      rw [if_neg hz, hbuf, List.length_drop]
      omega

theorem goes_of_zeroSizeHeader (h : ZeroSizeHeader s.streamBuffer) :
    ∃ s', loopBody hw junk s = .inl s' ∧ ZeroSizeHeader s'.streamBuffer := by
  have hgoes : ∃ s', loopBody hw junk s = .inl s' := by
    rcases extractTurn_cases hw (junk s.turns) s.streamBuffer with
      ⟨rest, hturn, hnz⟩ | ⟨hturn, -⟩ | ⟨size, -, -, hturn | ⟨p, hturn⟩⟩
    · exact absurd h hnz
    · exact ⟨_, loopBody_of_skip hturn⟩
    · exact ⟨_, loopBody_of_skip hturn⟩
    · exact ⟨_, loopBody_of_handle hturn⟩
  obtain ⟨s', hs'⟩ := hgoes
  have hbuf := length_of_goes hs'
  rw [if_pos h] at hbuf
  refine ⟨s', hs', ?_⟩
  rwa [hbuf]

variable (hw junk s)

/-- **When the inner loop terminates.**  It exits from a state iff no turn on the
way begins with the header of size zero; and a turn that goes on shrinks the
buffer iff it does not begin so. -/
theorem exits_iff_no_zeroSizeHeader :
    (Loop.Exits (loopBody hw junk) s ↔
      ∀ s', Loop.Visits (loopBody hw junk) s s' → ¬ ZeroSizeHeader s'.streamBuffer) ∧
    ∀ s', Loop.Goes (loopBody hw junk) s s' →
      (s'.streamBuffer.length < s.streamBuffer.length ↔ ¬ ZeroSizeHeader s.streamBuffer) := by
  constructor
  · refine Loop.exits_iff_never_stuck (fun s => s.streamBuffer.length)
      (fun s => ZeroSizeHeader s.streamBuffer) (fun s h => goes_of_zeroSizeHeader h) ?_ s
    intro s s' hgo hnz
    have hlen := length_of_goes hgo
    rwa [if_neg hnz] at hlen
  · intro s' hgo
    have hlen := length_of_goes hgo
    by_cases hz : ZeroSizeHeader s.streamBuffer
    · rw [if_pos hz] at hlen
      simp [hlen, hz]
    · rw [if_neg hz] at hlen
      simp [hlen, hz]

/-- On sixteen bytes, with the local packet zero, the inner loop hangs. -/
theorem not_exits_zeroSizeHeader :
    ¬ Loop.Exits (loopBody false fun _ => ⟨.zero, List.Vector.replicate _ 0⟩)
      ⟨[0xD5, 1, 0, 0, 0xFF, 0xFF, 0xFF, 0xF0, 0, 0, 0, 0, 0, 0, 0, 0], [], 0⟩ := by
  rintro ⟨fuel, r, hrun⟩
  have hzero : ZeroSizeHeader [0xD5, 1, 0, 0, 0xFF, 0xFF, 0xFF, 0xF0, 0, 0, 0, 0, 0, 0, 0, 0] := by
    refine ⟨by simp, ?_, ?_⟩
    · decide
    · decide
  rw [Loop.run_eq_none_of_stuck (fun s : LoopState => ZeroSizeHeader s.streamBuffer)
    (fun s h => goes_of_zeroSizeHeader h) hzero] at hrun
  cases hrun

end Termination

/-! ## The loop follows the client's framing -/

/-- A packet as `handleIncomingPacket` gets it: the frame, and its header in host
order. -/
structure Handled (p : Packet) (f : List UInt8) : Prop extends HoldsFrame p f where
  header : p.header = PacketHeader.codec.decode f

theorem Handled.carries {hw : Bool} {p : Packet} {f : Frame} (h : Handled p (f.bytes hw)) :
    p.Carries hw f := by
  have hbytes := h.bytes
  rw [Frame.length_bytes] at hbytes
  refine ⟨hbytes, h.header.trans (Frame.decode_of_take ?_)⟩
  rw [← f.length_bytes hw, List.take_length]

section Framing

variable {xs : List UInt8}

theorem take_fill (junk : Junk) {n : ℕ} (hle : n ≤ 4096) (hlen : n ≤ xs.length) :
    (fill junk xs n).data.toList.take n = xs.take n := by
  have htake : (xs.take n).length = n := by
    rw [List.length_take, Nat.min_eq_left hlen]
  have h := (holdsFrame_copyIn (Packet.fresh junk.header junk.data) (htake.trans_le hle)).bytes
  rwa [htake] at h

theorem parse_fill (hw : Bool) (junk : Junk)
    (hmagic : (PacketHeader.codec.decode xs).magic = startByte)
    (hle : 16 + (PacketHeader.codec.decode xs).payloadLength.toNat ≤ 4096)
    (hlen : 16 + (PacketHeader.codec.decode xs).payloadLength.toNat ≤ xs.length) :
    ∃ q, (fill junk xs (16 + (PacketHeader.codec.decode xs).payloadLength.toNat)).parse hw = q ∧
      (q.1 = true ↔ checksumOf hw xs (PacketHeader.codec.decode xs).payloadLength =
        (PacketHeader.codec.decode xs).checksum) ∧
      (q.1 = true → Handled q.2
        (xs.take (16 + (PacketHeader.codec.decode xs).payloadLength.toNat))) := by
  set hdr := PacketHeader.codec.decode xs with hhdr
  set n := 16 + hdr.payloadLength.toNat with hn
  have htake := take_fill junk hle hlen
  have hwidth : PacketHeader.codec.width ≤ n := Nat.le_add_right 16 _
  have hdecode : PacketHeader.codec.decode (fill junk xs n).data.toList = hdr :=
    PacketHeader.codec.decode_of_take_eq htake hwidth
  have hcrc := checksumOf_of_take_eq hw htake
  refine ⟨_, rfl, ?_⟩
  rw [Packet.parse_of_complete hw hdecode hmagic (Nat.le_add_right 16 _)
    (by rw [toInt_packetSize hle]; exact le_rfl), hcrc]
  by_cases hsum : checksumOf hw xs hdr.payloadLength = hdr.checksum
  · rw [if_pos hsum]
    refine ⟨iff_of_true rfl hsum, fun _ => ⟨⟨?_, ?_⟩, ?_⟩⟩
    · rw [List.length_take, Nat.min_eq_left hlen]
      rfl
    · rw [List.length_take, Nat.min_eq_left hlen]
      exact htake
    · exact PacketHeader.codec.decode_of_take_eq (List.take_take.trans
        (by rw [Nat.min_self])).symm hwidth
  · rw [if_neg hsum]
    refine ⟨iff_of_false Bool.false_ne_true hsum, ?_⟩
    intro h
    cases h

/-- **One turn follows the framing**, as long as the framing does not reject. -/
theorem extractTurn_spec (hw : Bool) (junk : Junk) (xs : List UInt8) :
    (scanResync hw xs = .wait ∧ extractTurn hw junk xs = .leave xs) ∨
    scanResync hw xs = .reject ∨
    (∃ n, scanResync hw xs = .eat n [] ∧ extractTurn hw junk xs = .skip (xs.drop n)) ∨
    ∃ n p, scanResync hw xs = .eat n [xs.take n] ∧
      extractTurn hw junk xs = .handle p (xs.drop n) ∧ Handled p (xs.take n) := by
  rw [extractTurn, scanResync]
  by_cases hshort : xs.length < headerSize
  · exact .inl ⟨if_pos hshort, if_pos hshort⟩
  have hshort' : ¬ xs.length < 16 := hshort
  simp only [if_neg hshort, if_neg hshort']
  by_cases hmagic : (PacketHeader.codec.decode xs).magic ≠ startByte
  · exact .inr (.inr (.inl ⟨1, if_pos hmagic, if_pos hmagic⟩))
  have hmagic' : ¬ (PacketHeader.codec.decode xs).magic ≠ 0xD5 := hmagic
  rw [if_neg hmagic, if_neg hmagic']
  by_cases hlarge : 4096 < 16 + (PacketHeader.codec.decode xs).payloadLength.toNat
  · exact .inr (.inl (if_pos hlarge))
  have hle := Nat.le_of_not_lt hlarge
  have hsize : (packetSize (PacketHeader.codec.decode xs).payloadLength).toNat =
      16 + (PacketHeader.codec.decode xs).payloadLength.toNat := by
    rw [toNat_packetSize]
    omega
  have hfits : ¬ dataSize < 16 + (PacketHeader.codec.decode xs).payloadLength.toNat := hlarge
  rw [if_neg hlarge, hsize]
  by_cases hbody : xs.length < 16 + (PacketHeader.codec.decode xs).payloadLength.toNat
  · exact .inl ⟨if_pos hbody, by rw [if_pos (.inl hbody), if_neg hfits]⟩
  rw [if_neg hbody, if_neg (not_or.mpr ⟨hbody, hfits⟩)]
  obtain ⟨q, hparse, hiff, hhandled⟩ :=
    parse_fill hw junk (not_not.mp hmagic) hle (Nat.le_of_not_lt hbody)
  rw [hparse]
  by_cases hsum : checksumOf hw xs (PacketHeader.codec.decode xs).payloadLength =
      (PacketHeader.codec.decode xs).checksum
  · have hok := hiff.mpr hsum
    refine .inr (.inr (.inr ⟨_, q.2, if_pos hsum, ?_, hhandled hok⟩))
    rw [hok]
    rfl
  · have hbad : q.1 = false := by
      rw [← Bool.not_eq_true]
      exact fun h => hsum (hiff.mp h)
    refine .inr (.inr (.inl ⟨_, if_neg hsum, ?_⟩))
    rw [hbad]
    rfl

end Framing

section Runs

variable {hw : Bool} {junk : ℕ → Junk} {fuel : ℕ}

/-- **The inner loop drains the buffer.** -/
theorem run_loopBody {s : LoopState}
    (hclean : ((resyncScanner hw).drain s.streamBuffer).rejected = false)
    (hfuel : s.streamBuffer.length < fuel) :
    ∃ s' ps, Loop.run (loopBody hw junk) fuel s = some s' ∧
      s'.streamBuffer = ((resyncScanner hw).drain s.streamBuffer).rest ∧
      s'.handled = s.handled ++ ps ∧
      List.Forall₂ Handled ps ((resyncScanner hw).drain s.streamBuffer).out := by
  induction fuel generalizing s with
  | zero => exact absurd hfuel (Nat.not_lt_zero _)
  | succ fuel ih =>
    rcases extractTurn_spec hw (junk s.turns) s.streamBuffer with
      ⟨hscan, hturn⟩ | hscan | ⟨n, hscan, hturn⟩ | ⟨n, p, hscan, hturn, hhandled⟩
    · rw [Scanner.drain_of_wait hscan, Loop.run_of_inr (loopBody_of_leave hturn)]
      exact ⟨_, [], rfl, rfl, (List.append_nil _).symm, .nil⟩
    · rw [Scanner.drain_of_reject hscan] at hclean
      cases hclean
    all_goals
      have hpos := (resyncScanner hw).eat_pos hscan
      have hle := (resyncScanner hw).eat_le hscan
      have hlt : (s.streamBuffer.drop n).length < fuel := by
        rw [List.length_drop]
        omega
      rw [Scanner.drain_of_eat hscan] at hclean ⊢
    · rw [Loop.run_of_inl (loopBody_of_skip hturn)]
      exact ih hclean hlt
    · obtain ⟨s', ps, hrun, hbuf, hps, hall⟩ :=
        @ih ⟨s.streamBuffer.drop n, s.handled ++ [p], s.turns + 1⟩ hclean hlt
      rw [Loop.run_of_inl (loopBody_of_handle hturn)]
      exact ⟨s', p :: ps, hrun, hbuf, hps.trans (List.append_assoc _ _ _), .cons hhandled hall⟩

/-- **Whatever is received, the client has handled the frames of it**, for every
stream the framing does not reject. -/
theorem receiveLoop_spec (cs : List (List UInt8)) {s : LoopState} {xs : List UInt8}
    (hne : ∀ c ∈ cs, c ≠ [])
    (hclean : ((resyncScanner hw).drain (xs ++ cs.flatten)).rejected = false)
    (hfuel : (xs ++ cs.flatten).length < fuel)
    (hbuf : s.streamBuffer = ((resyncScanner hw).drain xs).rest)
    (hhandled : List.Forall₂ Handled s.handled ((resyncScanner hw).drain xs).out) :
    ∃ s', receiveLoop hw junk fuel s cs = some s' ∧
      List.Forall₂ Handled s'.handled ((resyncScanner hw).drain (xs ++ cs.flatten)).out := by
  induction cs generalizing s xs with
  | nil =>
    refine ⟨s, rfl, ?_⟩
    rw [List.flatten_nil, List.append_nil]
    exact hhandled
  | cons c cs ih =>
    rw [List.flatten_cons, ← List.append_assoc] at hclean hfuel ⊢
    have hclean' := (resyncScanner hw).not_rejected_of_append hclean
    have hdrain := (resyncScanner hw).drain_append xs c
    rw [(resyncScanner hw).not_rejected_of_append hclean', if_neg Bool.false_ne_true, ← hbuf]
      at hdrain
    have hlen : (s.streamBuffer ++ c).length < fuel := by
      have hrest := Scanner.length_rest_le (S := resyncScanner hw) xs
      rw [← hbuf] at hrest
      simp only [List.length_append] at hfuel ⊢
      omega
    rw [hdrain] at hclean'
    obtain ⟨s', ps, hrun, hbuf', hps, hall⟩ :=
      @run_loopBody hw junk fuel { s with streamBuffer := s.streamBuffer ++ c } hclean' hlen
    have hhandled' : List.Forall₂ Handled s'.handled ((resyncScanner hw).drain (xs ++ c)).out := by
      rw [hps, hdrain]
      exact List.rel_append hhandled hall
    obtain ⟨s'', hloop, hfinal⟩ := ih (fun c' h => hne c' (List.mem_cons_of_mem _ h)) hclean hfuel
      (by rw [hbuf', hdrain]) hhandled'
    refine ⟨s'', ?_, hfinal⟩
    rw [receiveLoop, if_neg (hne c List.mem_cons_self), hrun]
    exact hloop

/-- **The client loses and invents nothing.**  For packets that serializers built,
sent with garbage between them that has no start byte, and for every way `recv`
may cut the stream, the loop terminates and `handleIncomingPacket` has been called
once for each packet, in order, with its bytes and its header. -/
theorem receiveLoop_reassembles (hw : Bool) (junk : ℕ → Junk)
    (sent : List (List UInt8 × Packet)) (trailing : List UInt8) (chunks : List (List UInt8))
    (fuel : ℕ) (hsent : ∀ x ∈ sent, 0xD5 ∉ x.1 ∧ ∃ m p, Message.serialize hw p m = (true, x.2))
    (htrailing : 0xD5 ∉ trailing)
    (hchunks : ∀ c ∈ chunks, 1 ≤ c.length ∧ c.length ≤ 16384)
    (hstream : chunks.flatten = (sent.map fun x => x.1 ++ x.2.wire).flatten ++ trailing)
    (hfuel : chunks.flatten.length < fuel) :
    ∃ s, receiveLoop hw junk fuel ⟨[], [], 0⟩ chunks = some s ∧
      List.Forall₂ (fun q P => q.wire = P.wire ∧ q.header = P.header) s.handled
        (sent.map Prod.snd) := by
  -- each packet carries a frame; the stream is the clean stream of these frames
  have hframes : ∀ x ∈ sent, ∃ f : Frame, x.2.Carries hw f := by
    intro x hx
    obtain ⟨-, m, p, hm⟩ := hsent x hx
    obtain ⟨_, hcarries⟩ := Message.carries_of_serialize hm
    exact ⟨_, hcarries⟩
  choose! f hf using hframes
  have hwires : sent.map (fun x => x.1 ++ x.2.wire) =
      (sent.map fun x => (x.1, f x)).map fun x => x.1 ++ x.2.bytes hw := by
    rw [List.map_map]
    apply List.map_congr_left
    intro x hx
    rw [(hf x hx).wire_eq]
    rfl
  have hgarbage : ∀ y ∈ sent.map fun x => (x.1, f x), 0xD5 ∉ y.1 := by
    intro y hy
    obtain ⟨x, hx, rfl⟩ := List.mem_map.mp hy
    exact (hsent x hx).1
  obtain ⟨hout, hrej⟩ := drain_clean hw hgarbage htrailing
  rw [← hwires, ← hstream, ← List.nil_append chunks.flatten] at hout hrej
  rw [← List.nil_append chunks.flatten] at hfuel
  have hnil : (resyncScanner hw).drain [] = ⟨[], [], false⟩ := Scanner.drain_of_wait rfl
  have hstart : List.Forall₂ Handled (LoopState.handled ⟨[], [], 0⟩)
      ((resyncScanner hw).drain []).out := by
    rw [hnil]
    exact .nil
  obtain ⟨s, hloop, hall⟩ := receiveLoop_spec chunks
    (fun c hc => List.length_pos_iff.mp (hchunks c hc).1) hrej hfuel (by rw [hnil]) hstart
  refine ⟨s, hloop, ?_⟩
  rw [hout, List.map_map, List.forall₂_map_right_iff, List.forall₂_iff_get] at hall
  rw [List.forall₂_map_right_iff, List.forall₂_iff_get]
  refine ⟨hall.1, ?_⟩
  intro i hi hi'
  have hsender := hf _ (List.get_mem sent ⟨i, hi'⟩)
  have hreceiver := Handled.carries (hall.2 i hi hi')
  exact ⟨hreceiver.wire_eq.trans hsender.wire_eq.symm, hreceiver.header.trans hsender.header.symm⟩

/-- A login packet behind two bytes of garbage, received byte by byte. -/
theorem receiveLoop_reassembles_login :
    ∃ login, Message.serialize false (.fresh .zero (List.Vector.replicate _ 0))
        (.login [97, 98] [99]) = (true, login) ∧
      ∃ s, receiveLoop false (fun _ => ⟨.zero, List.Vector.replicate _ 0⟩)
          ([1, 2] ++ login.wire).length.succ ⟨[], [], 0⟩
          (([1, 2] ++ login.wire).map fun b => [b]) = some s ∧
        s.handled.map Packet.wire = [login.wire] ∧
        s.handled.map Packet.header = [login.header] := by
  have hsize : (Message.login [97, 98] [99]).wireSize ≤ dataSize := by decide
  obtain ⟨login, hlogin⟩ := Message.exists_serialize false
    (.fresh .zero (List.Vector.replicate _ 0)) hsize
  obtain ⟨s, hloop, hall⟩ := receiveLoop_reassembles false
    (fun _ => ⟨.zero, List.Vector.replicate _ 0⟩) [([1, 2], login)] []
    (([1, 2] ++ login.wire).map fun b => [b]) ([1, 2] ++ login.wire).length.succ
    (by
      intro x hx
      obtain rfl := List.mem_singleton.mp hx
      exact ⟨by simp, _, _, hlogin⟩)
    (by decide)
    (by
      intro c hc
      obtain ⟨b, -, rfl⟩ := List.mem_map.mp hc
      exact ⟨le_rfl, by simp⟩)
    (by simp [← List.flatMap_def])
    (by simp [← List.flatMap_def])
  obtain ⟨q, qs, ⟨hwire, hheader⟩, hrest, hs⟩ := List.forall₂_cons_right_iff.mp hall
  obtain rfl := List.forall₂_nil_right_iff.mp hrest
  refine ⟨login, hlogin, s, hloop, ?_⟩
  rw [hs, List.map_singleton, List.map_singleton, hwire, hheader]
  exact ⟨rfl, rfl⟩

end Runs

end IocpChat.Client

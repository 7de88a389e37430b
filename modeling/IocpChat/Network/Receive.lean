import IocpChat.DataStructure.CircularBuffer
import IocpChat.Protocol.Stream

/-!
# Receiving on the server: the zero-byte-recv branch of `workerThread`

A completion finds the connection's buffer, receives into its free ranges, and
then extracts packets until the header or the body of the next one is
incomplete, the header is bad, or the packet pool is empty.  `extractStep` is one
turn of that loop and `extract` the loop; `receive` is the whole branch up to the
release of the buffer lock, and `run` a sequence of completions with the
disconnect that follows a raised `shouldDisconnect`.

What the operating system and the pool answer is part of the completion.  A failed
`postRecv` merely ends the sequence of completions.

The specification is the reference framing `frameScanner`.

## Main definitions

* `extractStep`, `extract`, `receive`, `run` — the code.
* `run_eq_reference` — however the stream is cut, the code extracts the frames of
  the reference framing.
-/

namespace IocpChat

open Bytes Framing

/-! ## The code -/

/-- What a synchronous `WSARecv` answers: some bytes (none when the peer closed), or
an error, which may be `WSAEWOULDBLOCK`. -/
inductive RecvResult
  | received (bytes : List UInt8)
  | failed (wouldBlock : Bool)

/-- One completion of a zero-byte receive, with the answers it will get: that of
`WSARecv`, and those of the successive calls of `borrowPacket`. -/
structure Completion where
  result : RecvResult
  borrowPacket : ℕ → Option Packet

/-- An entry of `socketBuffers`. -/
structure ConnectionBuffer where
  buffer : CircularBuffer
  disconnected : Bool

/-- What one turn of the extraction loop does. -/
inductive Turn
  /-- Leave the loop, with `shouldDisconnect` raised or not. -/
  | stop (shouldDisconnect : Bool)
  /-- Push a packet; these bytes remain. -/
  | push (p : Packet) (rest : CircularBuffer)

/-- One turn of the loop.  `packetSize` is a wrapping 32-bit sum, which is why it
is compared with the header size as well. -/
def extractStep (borrowed : Option Packet) (recvBuffer : CircularBuffer) : Turn :=
  if recvBuffer.size < headerSize then .stop false
  else
    let hdr := PacketHeader.codec.decode ((recvBuffer.copy headerSize).getD [])
    if hdr.magic ≠ startByte ∨ hdr.version ≠ currentVersion then .stop true
    else
      let size := packetSize hdr.payloadLength
      if size.toNat < headerSize then .stop true
      else if dataSize < size.toNat then .stop true
      else if recvBuffer.size < size.toNat then .stop false
      else
        match borrowed with
        | none => .stop false
        | some p =>
          let r := (recvBuffer.consume size.toNat).getD ([], recvBuffer)
          .push { p.copyIn 0 r.1 with inPointer := size.toNat } r.2

/-- **One turn follows the reference framing**: it waits, raises `shouldDisconnect`
or pushes the frame exactly as the framing waits, rejects or eats.  Without a
packet it only stops. -/
theorem extractStep_spec (borrowed : Option Packet) (b : CircularBuffer) :
    (scanFrame b.contents = .wait ∧ extractStep borrowed b = .stop false) ∨
    (scanFrame b.contents = .reject ∧ extractStep borrowed b = .stop true) ∨
    ∃ n, ∃ h : n ≤ b.size, scanFrame b.contents = .eat n [b.contents.take n] ∧
      extractStep borrowed b =
        match borrowed with
        | none => .stop false
        | some p =>
          .push { p.copyIn 0 (b.contents.take n) with inPointer := n } (b.advance n h) := by
  have h16 : headerSize = 16 := rfl
  rw [extractStep, scanFrame, CircularBuffer.length_contents, h16]
  by_cases hshort : b.size < 16
  · exact .inl ⟨if_pos hshort, if_pos hshort⟩
  have hhdr : PacketHeader.codec.decode ((b.copy 16).getD []) =
      PacketHeader.codec.decode b.contents := by
    rw [b.copy_eq_some (Nat.le_of_not_lt hshort), Option.getD_some]
    exact PacketHeader.codec.decode_take b.contents
  simp only [if_neg hshort, hhdr]
  set hdr := PacketHeader.codec.decode b.contents
  by_cases hmagic : hdr.magic ≠ startByte ∨ hdr.version ≠ currentVersion
  · exact .inr (.inl ⟨if_pos hmagic, if_pos hmagic⟩)
  have hmagic' : ¬ (hdr.magic ≠ 0xD5 ∨ hdr.version ≠ 1) := hmagic
  rw [if_neg hmagic', if_neg hmagic]
  have hsize := toNat_packetSize hdr.payloadLength
  have hpay := hdr.payloadLength.toNat_lt
  have hdata : dataSize = 4096 := rfl
  by_cases hlarge : 4096 < 16 + hdr.payloadLength.toNat
  · -- either the sum is too large as it stands, or it wrapped below the header size
    refine .inr (.inl ⟨if_pos hlarge, ?_⟩)
    by_cases hwrap : (packetSize hdr.payloadLength).toNat < 16
    · rw [if_pos hwrap]
    · rw [if_neg hwrap, if_pos (by omega)]
  have hexact : (packetSize hdr.payloadLength).toNat = 16 + hdr.payloadLength.toNat := by omega
  have hwrap : ¬ 16 + hdr.payloadLength.toNat < 16 := by omega
  have hfits : ¬ dataSize < 16 + hdr.payloadLength.toNat := hlarge
  rw [if_neg hlarge, hexact, if_neg hwrap, if_neg hfits]
  by_cases hbody : b.size < 16 + hdr.payloadLength.toNat
  · exact .inl ⟨if_pos hbody, if_pos hbody⟩
  have hle : 16 + hdr.payloadLength.toNat ≤ b.size := Nat.le_of_not_lt hbody
  refine .inr (.inr ⟨_, hle, if_neg hbody, ?_⟩)
  rw [if_neg hbody]
  cases borrowed with
  | none => rfl
  | some p => rw [b.consume_eq_some hle, Option.getD_some]

theorem size_lt_of_push {borrowed : Option Packet} {b rest : CircularBuffer} {p : Packet}
    (h : extractStep borrowed b = .push p rest) : rest.size < b.size := by
  rcases extractStep_spec borrowed b with ⟨_, hstop⟩ | ⟨_, hstop⟩ | ⟨n, hn, heat, hpush⟩
  · rw [hstop] at h
    cases h
  · rw [hstop] at h
    cases h
  · rw [hpush] at h
    cases borrowed with
    | none => cases h
    | some q =>
      obtain ⟨-, rfl⟩ := Turn.push.inj h
      have hpos := (scanFrame_eat heat).1
      rw [← CircularBuffer.length_contents, CircularBuffer.contents_advance, List.length_drop,
        CircularBuffer.length_contents]
      omega

/-- What the extraction loop leaves. -/
structure Extraction where
  localQueue : List Packet
  shouldDisconnect : Bool
  buffer : CircularBuffer

/-- The extraction loop, after `k` calls of `borrowPacket`. -/
def extract (borrowPacket : ℕ → Option Packet) (k : ℕ) (b : CircularBuffer) : Extraction :=
  match _h : extractStep (borrowPacket k) b with
  | .stop shouldDisconnect => ⟨[], shouldDisconnect, b⟩
  | .push p rest =>
    let r := extract borrowPacket (k + 1) rest
    { r with localQueue := p :: r.localQueue }
termination_by b.size
decreasing_by exact size_lt_of_push _h

/-- The part of the branch that runs under the buffer lock. -/
def receiveLocked (b : CircularBuffer) (c : Completion) : Extraction :=
  if b.getWriteBuffers = [] then ⟨[], false, b⟩
  else
    match c.result with
    | .received bytes =>
      if bytes = [] then ⟨[], true, b⟩
      else extract c.borrowPacket 0 ((b.receiveInto bytes).commitWrite bytes.length)
    | .failed wouldBlock => ⟨[], !wouldBlock, b⟩

/-- The packets extracted, whether `shouldDisconnect` is raised, and the entry of
`socketBuffers` before the disconnect. -/
def receive (entry : Option ConnectionBuffer) (c : Completion) :
    List Packet × Bool × Option ConnectionBuffer :=
  match entry with
  | none => ([], true, none)
  | some conn =>
    if conn.disconnected then ([], true, some conn)
    else
      let r := receiveLocked conn.buffer c
      (r.localQueue, r.shouldDisconnect, some { conn with buffer := r.buffer })

/-- What `handleDisconnect` does to the socket's entry. -/
def handleDisconnect (_ : Option ConnectionBuffer) : Option ConnectionBuffer := none

/-- The entry of a socket that was just accepted. -/
def accepted (junk : List.Vector UInt8 capacity) : Option ConnectionBuffer :=
  some ⟨.new junk, false⟩

/-- What a sequence of completions on one socket amounts to. -/
structure Received where
  packets : List Packet
  shouldDisconnect : Bool
  entry : Option ConnectionBuffer

/-- The entry the next completion finds. -/
def nextEntry (entry : Option ConnectionBuffer) (c : Completion) : Option ConnectionBuffer :=
  if (receive entry c).2.1 then handleDisconnect (receive entry c).2.2 else (receive entry c).2.2

/-- One completion after another. -/
def run (entry : Option ConnectionBuffer) : List Completion → Received
  | [] => ⟨[], false, entry⟩
  | c :: cs =>
    let rest := run (nextEntry entry c) cs
    ⟨(receive entry c).1 ++ rest.packets, (receive entry c).2.1 || rest.shouldDisconnect,
      rest.entry⟩

/-- The bytes a completion brings. -/
def Completion.bytes (c : Completion) : List UInt8 :=
  match c.result with
  | .received bytes => bytes
  | .failed _ => []

/-- The completions a stream can arrive in: while the connection lasts, each
brings at least one byte and at most as many as the buffer has room for. -/
def Arrives (entry : Option ConnectionBuffer) : List Completion → Prop
  | [] => True
  | c :: cs =>
    (∀ conn, entry = some conn → c.result = .received c.bytes ∧
      1 ≤ c.bytes.length ∧ c.bytes.length ≤ conn.buffer.freeSpace) ∧
    Arrives (nextEntry entry c) cs

/-! ## The code follows the reference framing -/

section Loop

variable {borrowPacket : ℕ → Option Packet} {k : ℕ} {b rest : CircularBuffer}

theorem extract_of_stop {d : Bool} (h : extractStep (borrowPacket k) b = .stop d) :
    extract borrowPacket k b = ⟨[], d, b⟩ := by
  rw [extract]
  split <;> simp_all

theorem extract_of_push {p : Packet} (h : extractStep (borrowPacket k) b = .push p rest) :
    extract borrowPacket k b =
      { extract borrowPacket (k + 1) rest with
        localQueue := p :: (extract borrowPacket (k + 1) rest).localQueue } := by
  rw [extract]
  split <;> simp_all

theorem holdsFrame_of_eat (p : Packet) {xs : List UInt8} {n : ℕ} {out : List (List UInt8)}
    (hscan : scanFrame xs = .eat n out) :
    HoldsFrame { p.copyIn 0 (xs.take n) with inPointer := n } (xs.take n) := by
  obtain ⟨-, hle, hlen, -⟩ := scanFrame_eat hscan
  have htake : (xs.take n).length = n := by
    rw [List.length_take, Nat.min_eq_left hlen]
  have h := holdsFrame_copyIn p (htake.trans_le hle)
  rwa [htake] at h

/-- **The loop drains the buffer**, given packets: it pushes the frames, raises
`shouldDisconnect` iff the framing rejects, and leaves the incomplete rest. -/
theorem extract_spec (hpool : ∀ k, borrowPacket k ≠ none) (k : ℕ) (b : CircularBuffer) :
    List.Forall₂ HoldsFrame (extract borrowPacket k b).localQueue
        (frameScanner.drain b.contents).out ∧
      (extract borrowPacket k b).shouldDisconnect = (frameScanner.drain b.contents).rejected ∧
      (extract borrowPacket k b).buffer.contents = (frameScanner.drain b.contents).rest := by
  generalize hsize : b.size = size
  induction size using Nat.strongRecOn generalizing b k with
  | _ size ih =>
    rcases extractStep_spec (borrowPacket k) b with
      ⟨hscan, hturn⟩ | ⟨hscan, hturn⟩ | ⟨n, hn, hscan, hturn⟩
    · rw [Scanner.drain_of_wait hscan, extract_of_stop hturn]
      exact ⟨.nil, rfl, rfl⟩
    · rw [Scanner.drain_of_reject hscan, extract_of_stop hturn]
      exact ⟨.nil, rfl, rfl⟩
    · obtain ⟨p, hp⟩ := Option.ne_none_iff_exists'.mp (hpool k)
      have hhold := holdsFrame_of_eat p hscan
      simp only [hp] at hturn
      rw [← hp] at hturn
      have hlt : (b.advance n hn).size < size := hsize ▸ size_lt_of_push hturn
      obtain ⟨hqueue, hdisc, hrest⟩ := ih _ hlt (k + 1) (b.advance n hn) rfl
      rw [Scanner.drain_of_eat hscan, ← b.contents_advance hn, extract_of_push hturn]
      exact ⟨.cons hhold hqueue, hdisc, hrest⟩

end Loop

/-! ## Runs -/

/-- The entry of a connection that has drained a stream to `st`. -/
def Tracks (entry : Option ConnectionBuffer) (st : Outcome UInt8 (List UInt8)) : Prop :=
  if st.rejected then entry = none
  else ∃ conn, entry = some conn ∧ conn.disconnected = false ∧ conn.buffer.contents = st.rest

theorem receive_of_live {conn : ConnectionBuffer} (c : Completion)
    (hlive : conn.disconnected = false) :
    receive (some conn) c = ((receiveLocked conn.buffer c).localQueue,
      (receiveLocked conn.buffer c).shouldDisconnect,
      some { conn with buffer := (receiveLocked conn.buffer c).buffer }) := by
  simp [receive, hlive]

theorem receiveLocked_of_received {b : CircularBuffer} {c : Completion} {bytes : List UInt8}
    (hres : c.result = .received bytes) (hpos : 1 ≤ bytes.length)
    (hfree : bytes.length ≤ b.freeSpace) :
    receiveLocked b c =
      extract c.borrowPacket 0 ((b.receiveInto bytes).commitWrite bytes.length) := by
  have hbufs : b.getWriteBuffers ≠ [] := b.getWriteBuffers_ne_nil (by omega)
  have hne : bytes ≠ [] := List.length_pos_iff.mp hpos
  rw [receiveLocked, if_neg hbufs, hres]
  exact if_neg hne

/-- **One completion drains one more piece.** -/
theorem receive_spec {conn : ConnectionBuffer} {c : Completion}
    (hlive : conn.disconnected = false) (hpool : ∀ k, c.borrowPacket k ≠ none)
    (hres : c.result = .received c.bytes) (hpos : 1 ≤ c.bytes.length)
    (hfree : c.bytes.length ≤ conn.buffer.freeSpace) :
    List.Forall₂ HoldsFrame (receive (some conn) c).1
        (frameScanner.drain (conn.buffer.contents ++ c.bytes)).out ∧
      (receive (some conn) c).2.1 =
        (frameScanner.drain (conn.buffer.contents ++ c.bytes)).rejected ∧
      Tracks (nextEntry (some conn) c)
        (frameScanner.drain (conn.buffer.contents ++ c.bytes)) := by
  have hlocked := receiveLocked_of_received hres hpos hfree
  obtain ⟨hqueue, hdisc, hrest⟩ := extract_spec hpool 0
    ((conn.buffer.receiveInto c.bytes).commitWrite c.bytes.length)
  rw [conn.buffer.contents_commitWrite hfree, ← hlocked] at hqueue hdisc hrest
  rw [nextEntry, receive_of_live c hlive]
  refine ⟨hqueue, hdisc, ?_⟩
  rw [Tracks, ← hdisc]
  cases (receiveLocked conn.buffer c).shouldDisconnect with
  | true => rfl
  | false => exact ⟨_, rfl, hlive, hrest⟩

/-- **A run feeds its pieces to the framing.** -/
theorem run_spec (cs : List Completion) {entry : Option ConnectionBuffer}
    {st : Outcome UInt8 (List UInt8)} (htracks : Tracks entry st)
    (hpool : ∀ c ∈ cs, ∀ k, c.borrowPacket k ≠ none) (harrives : Arrives entry cs) :
    (∃ out, (frameScanner.feed st (cs.map Completion.bytes)).out = st.out ++ out ∧
      List.Forall₂ HoldsFrame (run entry cs).packets out) ∧
    (frameScanner.feed st (cs.map Completion.bytes)).rejected =
      (st.rejected || (run entry cs).shouldDisconnect) := by
  induction cs generalizing entry st with
  | nil => exact ⟨⟨[], (List.append_nil _).symm, .nil⟩, (Bool.or_false _).symm⟩
  | cons c cs ih =>
    obtain ⟨hc, hcs⟩ := harrives
    have hpool' : ∀ c ∈ cs, ∀ k, c.borrowPacket k ≠ none := fun c' h =>
      hpool c' (List.mem_cons_of_mem _ h)
    rw [List.map_cons, Scanner.feed]
    by_cases hrej : st.rejected = true
    · -- the entry is gone: every later completion extracts nothing
      rw [Tracks, if_pos hrej] at htracks
      subst htracks
      have hgone : Tracks (nextEntry none c) ⟨st.out, st.rest ++ c.bytes, true⟩ := rfl
      obtain ⟨⟨out, hout, hall⟩, hdisc⟩ := ih hgone hpool' hcs
      rw [if_pos hrej, hrej]
      exact ⟨⟨out, hout, hall⟩, hdisc⟩
    · rw [Tracks, if_neg hrej] at htracks
      obtain ⟨conn, rfl, hlive, hrest⟩ := htracks
      obtain ⟨hres, hpos, hfree⟩ := hc conn rfl
      obtain ⟨hqueue, hraised, hnext⟩ :=
        receive_spec hlive (hpool c List.mem_cons_self) hres hpos hfree
      rw [hrest] at hqueue hraised hnext
      rw [if_neg hrej]
      have hnext' : Tracks (nextEntry (some conn) c)
          ⟨st.out ++ (frameScanner.drain (st.rest ++ c.bytes)).out,
            (frameScanner.drain (st.rest ++ c.bytes)).rest,
            (frameScanner.drain (st.rest ++ c.bytes)).rejected⟩ := hnext
      obtain ⟨⟨out, hout, hall⟩, hdisc⟩ := ih hnext' hpool' hcs
      refine ⟨⟨_, hout.trans (List.append_assoc _ _ _), List.rel_append hqueue hall⟩, ?_⟩
      rw [Bool.not_eq_true] at hrej
      rw [hdisc, hrej, Bool.false_or, run, hraised]

theorem drain_nil : frameScanner.drain [] = ⟨[], [], false⟩ := Scanner.drain_of_wait rfl

theorem tracks_accepted (junk : List.Vector UInt8 capacity) :
    Tracks (accepted junk) (frameScanner.drain []) := by
  rw [drain_nil]
  exact ⟨_, rfl, rfl, CircularBuffer.contents_new junk⟩

/-- Pieces that leave room for an incomplete frame always arrive: after each
completion less than a packet is left in the buffer. -/
theorem arrives_of_le (cs : List Completion) {entry : Option ConnectionBuffer} {xs : List UInt8}
    (htracks : Tracks entry (frameScanner.drain xs))
    (hpool : ∀ c ∈ cs, ∀ k, c.borrowPacket k ≠ none)
    (hlen : ∀ c ∈ cs, c.result = .received c.bytes ∧ 1 ≤ c.bytes.length ∧
      c.bytes.length ≤ capacity - dataSize) : Arrives entry cs := by
  induction cs generalizing entry xs with
  | nil => exact trivial
  | cons c cs ih =>
    have hpool' : ∀ c ∈ cs, ∀ k, c.borrowPacket k ≠ none := fun c' h =>
      hpool c' (List.mem_cons_of_mem _ h)
    have hlen' := fun c' h => hlen c' (List.mem_cons_of_mem c h)
    obtain ⟨hres, hpos, hle⟩ := hlen c List.mem_cons_self
    have hscan := Scanner.scan_rest (S := frameScanner) xs
    by_cases hrej : (frameScanner.drain xs).rejected = true
    · have hgone : entry = none := by rwa [Tracks, if_pos hrej] at htracks
      subst hgone
      refine ⟨?_, ih htracks hpool' hlen'⟩
      intro conn h
      cases h
    · rw [Tracks, if_neg hrej] at htracks
      rw [if_neg hrej] at hscan
      obtain ⟨conn, rfl, hlive, hrest⟩ := htracks
      have hfree : c.bytes.length ≤ conn.buffer.freeSpace := by
        have hshort := length_lt_of_scanFrame_wait hscan
        rw [← hrest, CircularBuffer.length_contents] at hshort
        rw [CircularBuffer.freeSpace]
        exact hle.trans (Nat.sub_le_sub_left (Nat.le_of_lt hshort) capacity)
      refine ⟨fun conn' h => ?_, ?_⟩
      · obtain rfl := Option.some.inj h
        exact ⟨hres, hpos, hfree⟩
      · exact ih (receive_spec hlive (hpool c List.mem_cons_self) hres hpos hfree).2.2
          hpool' hlen'

/-- **Framing does not depend on how the stream is cut.**  However a stream
arrives, the packets extracted before the first framing error hold exactly the
frames of the reference framing, one each and in order; `shouldDisconnect` is
raised iff the reference framing meets a bad header; and no more than
`sizeof(Packet::data)` bytes are copied into a packet. -/
theorem run_eq_reference (junk : List.Vector UInt8 capacity) (cs : List Completion)
    (hpool : ∀ c ∈ cs, ∀ k, c.borrowPacket k ≠ none) (harrives : Arrives (accepted junk) cs) :
    List.Forall₂ HoldsFrame (run (accepted junk) cs).packets
        (frameScanner.drain (cs.map Completion.bytes).flatten).out ∧
      ((run (accepted junk) cs).shouldDisconnect = true ↔
        (frameScanner.drain (cs.map Completion.bytes).flatten).rejected = true) ∧
      ∀ p ∈ (run (accepted junk) cs).packets, p.inPointer ≤ 4096 := by
  obtain ⟨⟨out, hout, hall⟩, hrej⟩ := run_spec cs (tracks_accepted junk) hpool harrives
  rw [frameScanner.feed_eq_drain, List.nil_append] at hout hrej
  rw [drain_nil, List.nil_append] at hout
  rw [drain_nil, Bool.false_or] at hrej
  rw [hout, hrej]
  refine ⟨hall, Iff.rfl, ?_⟩
  have hboth : List.Forall₂ (fun p f => p.inPointer ≤ 4096 ∧ HoldsFrame p f)
      (run (accepted junk) cs).packets out := hall.imp fun p f h => ⟨h.inPointer_le, h⟩
  exact ((List.forall₂_and_left _ _).mp hboth).1

/-- A header that arrives in two pieces, with a bad one behind it. -/
theorem run_eq_reference_two_pieces :
    let cut : List Completion := [⟨.received [0xD5, 1, 0, 2, 0, 0], fun _ => some (.fresh .zero
        (List.Vector.replicate _ 0))⟩, ⟨.received ([0, 0, 0, 0, 0, 0, 0, 0, 0, 0] ++
        List.replicate 16 7), fun _ => some (.fresh .zero (List.Vector.replicate _ 0))⟩]
    (run (accepted (List.Vector.replicate _ 0)) cut).packets.length = 1 ∧
      (run (accepted (List.Vector.replicate _ 0)) cut).shouldDisconnect = true := by
  intro cut
  have hpool : ∀ c ∈ cut, ∀ k, c.borrowPacket k ≠ none := by simp [cut]
  have harrives : Arrives (accepted (List.Vector.replicate _ 0)) cut := by
    refine arrives_of_le cut (tracks_accepted _) hpool ?_
    intro c hc
    rcases List.mem_pair.mp hc with rfl | rfl <;> exact ⟨rfl, by decide, by decide⟩
  obtain ⟨hall, hdisc, -⟩ := run_eq_reference (List.Vector.replicate _ 0) cut hpool harrives
  have hdrain : frameScanner.drain (cut.map Completion.bytes).flatten =
      ⟨[[0xD5, 1, 0, 2, 0, 0, 0, 0, 0, 0, 0, 0, 0, 0, 0, 0]], List.replicate 16 7, true⟩ := by
    have hfirst : frameScanner.scan (cut.map Completion.bytes).flatten =
        .eat 16 [[0xD5, 1, 0, 2, 0, 0, 0, 0, 0, 0, 0, 0, 0, 0, 0, 0]] := by decide
    have hsecond : frameScanner.scan ((cut.map Completion.bytes).flatten.drop 16) = .reject := by
      decide
    rw [Scanner.drain_of_eat hfirst, Scanner.drain_of_reject hsecond]
    rfl
  rw [hdrain] at hall hdisc
  exact ⟨hall.length_eq, hdisc.mpr rfl⟩

end IocpChat

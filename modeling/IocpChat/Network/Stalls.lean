import IocpChat.Network.Receive

/-!
# Frames that stay in the receive buffer

When the pool has run out of packets, the extraction loop leaves complete frames in the buffer.
The next completion goes on with them, but only behind a receive of its own.  A buffer that is
full has no room to receive to: the completion then neither receives nor extracts, and it posts
the next receive as if nothing had happened.  Since nothing else empties the buffer, the
connection stays as it is however many packets are back in the pool.

## Main definitions

* `Readable` — there is something to read on the socket.
* `Progress` — the completion extracts the frame in front, or disconnects.
-/

namespace IocpChat

open Bytes Framing

/-- There is something to read on the socket: a receive that has room brings some of it, or
it fails for good. -/
def Readable (conn : ConnectionBuffer) (c : Completion) : Prop :=
  0 < conn.buffer.freeSpace →
    match c.result with
    | .received bytes => 1 ≤ bytes.length ∧ bytes.length ≤ conn.buffer.freeSpace
    | .failed wouldBlock => wouldBlock = false

/-- The completion extracts the `n` bytes in front of the buffer as a packet, or it disconnects
the client. -/
def Progress (conn : ConnectionBuffer) (n : ℕ) (c : Completion) : Prop :=
  (∃ p packets, (receive (some conn) c).1 = p :: packets ∧
    HoldsFrame p (conn.buffer.contents.take n)) ∨ (receive (some conn) c).2.1 = true

section Turns

variable {b : CircularBuffer} {n : ℕ} {out : List (List UInt8)} {borrowPacket : ℕ → Option Packet}

theorem extractStep_of_eat (hscan : scanFrame b.contents = .eat n out) (borrowed : Option Packet) :
    ∃ h : n ≤ b.size, extractStep borrowed b =
      match borrowed with
      | none => .stop false
      | some p =>
        .push { p.copyIn 0 (b.contents.take n) with inPointer := n } (b.advance n h) := by
  rcases extractStep_spec borrowed b with ⟨hwait, -⟩ | ⟨hreject, -⟩ | ⟨m, hm, heat, hturn⟩
  · rw [hscan] at hwait
    cases hwait
  · rw [hscan] at hreject
    cases hreject
  · rw [hscan] at heat
    obtain ⟨rfl, -⟩ := Verdict.eat.inj heat
    exact ⟨hm, hturn⟩

theorem extract_of_eat (hscan : scanFrame b.contents = .eat n out) (hpool : borrowPacket 0 ≠ none) :
    ∃ p packets, (extract borrowPacket 0 b).localQueue = p :: packets ∧
      HoldsFrame p (b.contents.take n) := by
  obtain ⟨q, hq⟩ := Option.ne_none_iff_exists'.mp hpool
  obtain ⟨hn, hturn⟩ := extractStep_of_eat hscan (borrowPacket 0)
  simp only [hq] at hturn
  rw [← hq] at hturn
  rw [extract_of_push hturn]
  exact ⟨_, _, rfl, holdsFrame_of_eat q hscan⟩

theorem extract_of_exhausted (hscan : scanFrame b.contents = .eat n out)
    (hpool : borrowPacket 0 = none) : extract borrowPacket 0 b = ⟨[], false, b⟩ := by
  obtain ⟨hn, hturn⟩ := extractStep_of_eat hscan (borrowPacket 0)
  simp only [hpool] at hturn
  rw [← hpool] at hturn
  exact extract_of_stop hturn

theorem receiveLocked_of_full (h : b.freeSpace = 0) (c : Completion) :
    receiveLocked b c = ⟨[], false, b⟩ := by
  have hbufs : b.getWriteBuffers = [] := by
    rw [CircularBuffer.getWriteBuffers]
    simp only [h, if_true]
  rw [receiveLocked, if_pos hbufs]

end Turns

/-- **When a connection gets on.**  A completion that finds a complete frame in the buffer,
something to read on the socket and a packet in the pool extracts the frame or disconnects if
and only if the buffer is not full. -/
theorem progress_iff_freeSpace (conn : ConnectionBuffer) (c : Completion) (n : ℕ)
    (out : List (List UInt8)) (hlive : conn.disconnected = false)
    (hframe : scanFrame conn.buffer.contents = .eat n out) (hread : Readable conn c)
    (hpool : c.borrowPacket 0 ≠ none) :
    Progress conn n c ↔ 0 < conn.buffer.freeSpace := by
  rw [Progress, receive_of_live c hlive]
  constructor
  · intro h
    by_contra hfull
    rw [receiveLocked_of_full (Nat.eq_zero_of_not_pos hfull)] at h
    rcases h with ⟨p, packets, hnil, -⟩ | hfalse
    · cases hnil
    · cases hfalse
  · intro hfree
    have hdata := hread hfree
    cases hresult : c.result with
    | failed wouldBlock =>
      rw [hresult] at hdata
      right
      rw [receiveLocked, if_neg (conn.buffer.getWriteBuffers_ne_nil hfree), hresult]
      simpa using hdata
    | received bytes =>
      rw [hresult] at hdata
      obtain ⟨hpos, hle⟩ := hdata
      obtain ⟨-, -, hlen, -⟩ := scanFrame_eat hframe
      -- what is received comes behind the frame
      have hcontents := conn.buffer.contents_commitWrite hle
      have hscan : scanFrame ((conn.buffer.receiveInto bytes).commitWrite bytes.length).contents =
          .eat n out := by
        rw [hcontents, scanFrame_append (by rw [hframe]; simp), hframe]
      obtain ⟨p, packets, hpush, hhold⟩ := extract_of_eat hscan hpool
      rw [hcontents, List.take_append_of_le_length hlen] at hhold
      left
      rw [receiveLocked_of_received hresult hpos hle]
      exact ⟨p, packets, hpush, hhold⟩

/-! ## A buffer that fills up -/

/-- A completion that meets an empty pool. -/
def exhausted (bytes : List UInt8) : Completion := ⟨.received bytes, fun _ => none⟩

/-- A completion that brings one byte and finds packets in the pool. -/
def recovered : Completion :=
  ⟨.received [0xD5], fun _ => some (.fresh .zero (List.Vector.replicate _ 0))⟩

/-- The smallest frames, one after another. -/
def backlog (count : ℕ) : List UInt8 :=
  (List.replicate count ((default : Frame).bytes false)).flatten

theorem length_backlog (count : ℕ) : (backlog count).length = count * 16 := by
  simp only [backlog, List.length_flatten, List.map_replicate, List.sum_replicate_nat,
    Frame.length_bytes]
  rfl

theorem scanFrame_backlog (count : ℕ) :
    scanFrame (backlog (count + 1)) = .eat 16 [(default : Frame).bytes false] := by
  rw [backlog, List.replicate_succ, List.flatten_cons]
  exact scanFrame_bytes false default _

theorem run_exhausted (junk : List.Vector UInt8 capacity) (count : ℕ)
    (hle : (count + 1) * 16 ≤ capacity) :
    Arrives (accepted junk) [exhausted (backlog (count + 1))] ∧
    ∃ conn, (run (accepted junk) [exhausted (backlog (count + 1))]).entry = some conn ∧
      conn.disconnected = false ∧ conn.buffer.contents = backlog (count + 1) := by
  have hlen := length_backlog (count + 1)
  have hfree : (backlog (count + 1)).length ≤ (CircularBuffer.new junk).freeSpace := by
    rw [CircularBuffer.freeSpace, ← CircularBuffer.length_contents, CircularBuffer.contents_new,
      hlen]
    exact hle
  have hcontents := (CircularBuffer.new junk).contents_commitWrite hfree
  rw [CircularBuffer.contents_new, List.nil_append] at hcontents
  have hscan := scanFrame_backlog count
  rw [← hcontents] at hscan
  refine ⟨⟨?_, trivial⟩, ?_⟩
  · intro conn hconn
    obtain rfl := Option.some.inj hconn
    exact ⟨rfl, by rw [exhausted, Completion.bytes, hlen]; omega, hfree⟩
  · have hlocked : receiveLocked (CircularBuffer.new junk) (exhausted (backlog (count + 1))) =
        ⟨[], false, ((CircularBuffer.new junk).receiveInto (backlog (count + 1))).commitWrite
          (backlog (count + 1)).length⟩ := by
      rw [receiveLocked_of_received rfl (by omega) hfree]
      exact extract_of_exhausted hscan rfl
    rw [run, run, nextEntry, accepted, receive_of_live _ rfl, hlocked]
    exact ⟨_, rfl, rfl, hcontents⟩

/-- Two frames are left in the buffer; the next completion extracts the first. -/
theorem progress_of_backlog :
    ∃ conn, (run (accepted (List.Vector.replicate _ 0)) [exhausted (backlog 2)]).entry = some conn ∧
      Progress conn 16 recovered := by
  obtain ⟨-, conn, hrun, hlive, hcontents⟩ :=
    run_exhausted (List.Vector.replicate _ 0) 1 (by decide)
  have hfree : conn.buffer.freeSpace = 16352 := by
    rw [CircularBuffer.freeSpace, ← CircularBuffer.length_contents, hcontents, length_backlog]
    rfl
  have hscan := scanFrame_backlog 1
  rw [← hcontents] at hscan
  have hread : Readable conn recovered := fun _ => ⟨by decide, by rw [hfree]; decide⟩
  have hpool : recovered.borrowPacket 0 ≠ none := by simp [recovered]
  exact ⟨conn, hrun,
    (progress_iff_freeSpace conn recovered 16 _ hlive hscan hread hpool).mpr (by omega)⟩

/-- The buffer is filled with 1024 frames while the pool is empty.  When there are packets again,
the next completion neither extracts a frame nor disconnects, and leaves the buffer full. -/
theorem stalled_of_full_backlog :
    ∃ conn, Arrives (accepted (List.Vector.replicate _ 0)) [exhausted (backlog 1024)] ∧
      (run (accepted (List.Vector.replicate _ 0)) [exhausted (backlog 1024)]).entry = some conn ∧
      conn.disconnected = false ∧
      conn.buffer.contents = (default : Frame).bytes false ++ backlog 1023 ∧
      Readable conn recovered ∧ recovered.borrowPacket 0 ≠ none ∧
      ¬ Progress conn 16 recovered ∧
      receive (some conn) recovered = ([], false, some conn) := by
  obtain ⟨harrives, conn, hrun, hlive, hcontents⟩ :=
    run_exhausted (List.Vector.replicate _ 0) 1023 (by decide)
  have hfree : conn.buffer.freeSpace = 0 := by
    rw [CircularBuffer.freeSpace, ← CircularBuffer.length_contents, hcontents, length_backlog]
    rfl
  have hreceive : receive (some conn) recovered = ([], false, some conn) := by
    rw [receive_of_live _ hlive, receiveLocked_of_full hfree]
  refine ⟨conn, harrives, hrun, hlive, ?_, fun hpos => by omega, by simp [recovered], ?_, hreceive⟩
  · rw [hcontents, backlog, List.replicate_succ, List.flatten_cons, backlog]
  · rw [Progress, hreceive]
    rintro (⟨p, packets, hnil, -⟩ | hfalse)
    · cases hnil
    · cases hfalse

end IocpChat

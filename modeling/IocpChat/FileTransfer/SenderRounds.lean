import IocpChat.FileTransfer.Downloads

/-!
# The rounds of a thread that sends

`HandleFileTransfer` and `uploadWorker` read the chunks of a round into two vectors and send what is
in them.  As long as nobody else writes to the vectors, these are the chunks of the round.

## Main definitions

* `Holds` — the vectors hold the first chunks of a round.
* `Sender.Leads` — steps that are the same in both functions.
-/

namespace IocpChat

open Pieces

namespace FileTransfer

abbrev StoredFile.whole (file : List UInt8) (finalCrc : UInt32) : StoredFile :=
  ⟨some file, file.length, finalCrc⟩

/-- The vectors have all their slots, and the first chunks of the round that begins at an offset are
in them. -/
structure Holds (file : List UInt8) (base : ℕ) (state : TransferState) (i : ℕ) : Prop where
  buffers : state.roundBuffer.length = maxChunksPerRound
  offsets : state.roundOffsets.length = maxChunksPerRound
  chunks : ∀ j < i, ∀ c ∈ (roundChunks file base)[j]?,
    state.roundOffsets[j]? = some c.offset ∧ state.roundBuffer[j]? = some c.data

/-- A thread that has read the first chunks of its round. -/
def Sender.reading (file : List UInt8) (base round i : ℕ) (sent : List Sent) : Sender :=
  ⟨.fill, min (base + maxChunkSize * i) file.length, round, i, sent⟩

@[simp] theorem Sender.point_reading (file : List UInt8) (base round i : ℕ) (sent : List Sent) :
    (reading file base round i sent).point = .fill := rfl

@[simp] theorem Sender.sent_reading (file : List UInt8) (base round i : ℕ) (sent : List Sent) :
    (reading file base round i sent).sent = sent := rfl

/-- A thread that has read its round, which is in the vectors. -/
structure Sender.In (file : List UInt8) (base : ℕ) (state : TransferState) (t : Sender) : Prop where
  bytesSent : t.bytesSent = roundNext file base
  chunks : t.chunksThisRound = (roundChunks file base).length
  holds : Holds file base state (roundChunks file base).length

/-- The thread goes on at a point after it has sent something. -/
def Sender.move (t : Sender) (point : SenderPoint) (new : List Sent) : Sender :=
  { t with point, sent := t.sent ++ new }

@[simp] theorem Sender.move_move (t : Sender) (point point' : SenderPoint) (new new' : List Sent) :
    (t.move point new).move point' new' = t.move point' (new ++ new') := by
  simp [move]

theorem Sender.In.move {file : List UInt8} {base : ℕ} {state : TransferState} {t : Sender}
    (h : t.In file base state) (point : SenderPoint) (new : List Sent) :
    (t.move point new).In file base state :=
  ⟨h.bytesSent, h.chunks, h.holds⟩

theorem Sender.In.setAcks {file : List UInt8} {base : ℕ} {state : TransferState} {t : Sender}
    (h : t.In file base state) (acks : Outgoing) : t.In file base { state with acks } :=
  ⟨h.bytesSent, h.chunks, h.holds.buffers, h.holds.offsets, h.holds.chunks⟩

def sentChunks (chunks : List Chunk) : List Sent := chunks.map fun c => .fileChunk c.offset c.data

theorem sentChunks_append (chunks chunks' : List Chunk) :
    sentChunks (chunks ++ chunks') = sentChunks chunks ++ sentChunks chunks' :=
  List.map_append

/-- Steps of a thread, apart from those in which the two functions differ. -/
def Sender.Leads (u : StoredFile) : TransferState × Sender → TransferState × Sender → Prop :=
  Relation.ReflTransGen fun x y =>
    x.2.point ≠ .openFile ∧ x.2.point ≠ .check ∧ x.2.work u x.1 = some y

section Rounds

variable {file : List UInt8} {base round i n : ℕ} {crc : UInt32} {state : TransferState}
  {sent : List Sent} {t : Sender} {u : StoredFile}

theorem lt_of_lt_length (hi : i < (roundChunks file base).length) : i < maxChunksPerRound :=
  (lt_length_roundChunks.mp hi).1

theorem getElem?_of_lt_length (hi : i < (roundChunks file base).length) :
    (roundChunks file base)[i]? =
      some ⟨base + maxChunkSize * i, piece maxChunkSize (file.drop base) i⟩ := by
  rw [getElem?_roundChunks, if_pos (lt_length_roundChunks.mp hi)]

theorem Holds.fill (h : Holds file base state i) (hi : i < (roundChunks file base).length) :
    Holds file base { state with
      roundOffsets := state.roundOffsets.set i (base + maxChunkSize * i)
      roundBuffer := state.roundBuffer.set i (piece maxChunkSize (file.drop base) i) } (i + 1) where
  buffers := by simpa using h.buffers
  offsets := by simpa using h.offsets
  chunks := by
    intro j hj c hc
    have hslot := lt_of_lt_length hi
    rcases Nat.lt_succ_iff_lt_or_eq.mp hj with hlt | rfl
    · have hne : i ≠ j := Nat.ne_of_gt hlt
      simpa [List.getElem?_set_ne hne] using h.chunks j hlt c hc
    · rw [getElem?_of_lt_length hi] at hc
      cases hc
      simp [h.buffers, h.offsets, hslot]

theorem Holds.sendBuffered (h : Holds file base state n) (hi : i < n) {c : Chunk}
    (hc : (roundChunks file base)[i]? = some c) :
    t.sendBuffered state i = some (t.send (.fileChunk c.offset c.data)) := by
  obtain ⟨hoffset, hbuffer⟩ := h.chunks i hi c hc
  rw [Sender.sendBuffered, hoffset, hbuffer]

theorem work_reading (h : Holds file base state i) (hi : i < (roundChunks file base).length) :
    (Sender.reading file base round i sent).work (.whole file crc) state =
      some ({ state with
          roundOffsets := state.roundOffsets.set i (base + maxChunkSize * i)
          roundBuffer := state.roundBuffer.set i (piece maxChunkSize (file.drop base) i) },
        .reading file base round (i + 1) sent) := by
  obtain ⟨hslot, hlt⟩ := lt_length_roundChunks.mp hi
  have hmin : min (base + maxChunkSize * i) file.length = base + maxChunkSize * i := by omega
  have hblock : (Sender.reading file base round i sent).block (.whole file crc) =
      piece maxChunkSize (file.drop base) i := by
    simp only [Sender.block, Sender.reading, hmin, hslot, hlt, and_self, if_true,
      Option.getD_some, piece, List.drop_drop]
    rw [List.take_eq_take_iff, List.length_drop]
    omega
  have hne : piece maxChunkSize (file.drop base) i ≠ [] := by
    rw [Ne, piece_eq_nil_iff (by decide), List.length_drop]
    omega
  have hread : base + maxChunkSize * i + (piece maxChunkSize (file.drop base) i).length =
      min (base + maxChunkSize * (i + 1)) file.length := by
    simp [piece, Nat.mul_succ]
    omega
  simp only [Sender.work, hblock, if_neg hne]
  simp only [Sender.reading, h.offsets, h.buffers, hslot, and_self, if_true, hmin, hread]

theorem work_read (hlt : base < file.length) :
    (Sender.reading file base round (roundChunks file base).length sent).work (.whole file crc)
        state =
      some (state,
        ⟨.sendChunk 0, roundNext file base, round, (roundChunks file base).length, sent⟩) := by
  have hend := lt_length_roundChunks.not.mp (Nat.lt_irrefl (roundChunks file base).length)
  have hpos : 0 < (roundChunks file base).length :=
    lt_length_roundChunks.mpr ⟨by decide, by omega⟩
  have hnext : min (base + maxChunkSize * (roundChunks file base).length) file.length =
      roundNext file base := by
    have hle : (roundChunks file base).length ≤ maxChunksPerRound := by
      by_contra hgt
      exact absurd (lt_of_lt_length (Nat.lt_of_not_le hgt)) (Nat.lt_irrefl _)
    rw [roundNext_eq (Nat.le_of_lt hlt), roundSize]
    rcases Nat.lt_or_eq_of_le hle with hless | heq
    · rw [not_and] at hend
      have hdone := hend hless
      have hmul := Nat.mul_le_mul_left maxChunkSize hle
      omega
    · rw [heq]
  have hblock : (Sender.reading file base round (roundChunks file base).length sent).block
      (.whole file crc) = [] := by
    simp only [Sender.block, Sender.reading]
    refine if_neg fun hmore => hend ⟨hmore.1, ?_⟩
    have hbytes := hmore.2
    omega
  simp only [Sender.work, hblock, if_true]
  simp only [Sender.reading, Sender.goto, hnext, if_neg (Nat.ne_of_gt hpos)]

theorem work_sendChunk (h : t.In file base state) (hpoint : t.point = .sendChunk i)
    (hi : i < (roundChunks file base).length) :
    t.work u state = some
      (state, t.move (.sendChunk (i + 1)) (sentChunks (roundChunks file base)[i]?.toList)) := by
  have hc := List.getElem?_eq_getElem hi
  simp [Sender.work, hpoint, h.chunks, hi, h.holds.sendBuffered hi hc, sentChunks, Sender.move,
    Sender.send, Sender.goto]

theorem work_resend {idx : ℕ} {rest : List ℕ} (h : t.In file base state)
    (hpoint : t.point = .resend (idx :: rest)) :
    t.work u state =
      some (state, t.move (.resend rest) (sentChunks (roundChunks file base)[idx]?.toList)) := by
  by_cases hidx : idx < (roundChunks file base).length
  · have hc := List.getElem?_eq_getElem hidx
    simp [Sender.work, hpoint, h.chunks, hidx, h.holds.sendBuffered hidx hc, sentChunks,
      Sender.move, Sender.send, Sender.goto]
  · simp [Sender.work, hpoint, h.chunks, hidx, sentChunks, Sender.move, Sender.goto]

/-! ## Many steps -/

theorem leads_reading (hlt : base < file.length) (h : Holds file base state i)
    (hi : i ≤ (roundChunks file base).length) :
    ∃ state', Sender.Leads (.whole file crc) (state, .reading file base round i sent)
        (state', ⟨.sendChunk 0, roundNext file base, round, (roundChunks file base).length, sent⟩) ∧
      Holds file base state' (roundChunks file base).length ∧ state'.acks = state.acks := by
  induction hleft : (roundChunks file base).length - i generalizing i state with
  | zero =>
    obtain rfl : i = (roundChunks file base).length := by omega
    exact ⟨state, .single ⟨by simp, by simp, work_read hlt⟩, h, rfl⟩
  | succ left ih =>
    have hmore : i < (roundChunks file base).length := by omega
    obtain ⟨state', hleads, hrest⟩ := ih (h.fill hmore) hmore (by omega)
    exact ⟨state', hleads.head ⟨by simp, by simp, work_reading h hmore⟩, hrest⟩

theorem leads_nextRound (hlt : base < file.length)
    (hoffsets : state.roundOffsets.length = maxChunksPerRound) :
    ∃ state', Sender.Leads (.whole file crc) (state, ⟨.nextRound, base, round, n, sent⟩)
        (state', ⟨.sendChunk 0, roundNext file base, round, (roundChunks file base).length, sent⟩) ∧
      Holds file base state' (roundChunks file base).length ∧ state'.acks = state.acks := by
  have hholds : Holds file base { state with roundBuffer := .replicate maxChunksPerRound [] } 0 :=
    ⟨List.length_replicate, hoffsets, fun j hj => absurd hj (Nat.not_lt_zero j)⟩
  obtain ⟨state', hleads, hrest⟩ := leads_reading hlt hholds (Nat.zero_le _)
  refine ⟨state', hleads.head ⟨by simp, by simp, ?_⟩, hrest⟩
  simp [Sender.work, Sender.reading, hlt, Nat.le_of_lt hlt]

theorem leads_sendChunk (h : t.In file base state) (hpoint : t.point = .sendChunk i)
    (hi : i ≤ (roundChunks file base).length) :
    Sender.Leads u (state, t)
      (state, t.move .sendRoundEnd (sentChunks ((roundChunks file base).drop i))) := by
  induction hleft : (roundChunks file base).length - i generalizing i t with
  | zero =>
    refine .single ⟨by simp [hpoint], by simp [hpoint], ?_⟩
    simp [Sender.work, Sender.goto, Sender.move, hpoint, h.chunks, sentChunks,
      Nat.le_antisymm hi (by omega)]
  | succ left ih =>
    have hmore : i < (roundChunks file base).length := by omega
    have hrest := ih (h.move (.sendChunk (i + 1)) (sentChunks [(roundChunks file base)[i]])) rfl
      hmore (by omega)
    rw [Sender.move_move, ← sentChunks_append, List.singleton_append, List.getElem_cons_drop]
      at hrest
    refine hrest.head ⟨by simp [hpoint], by simp [hpoint], ?_⟩
    rw [work_sendChunk h hpoint hmore, List.getElem?_eq_getElem hmore, Option.toList_some]

theorem leads_resend {missing : List ℕ} (h : t.In file base state)
    (hpoint : t.point = .resend missing) :
    Sender.Leads u (state, t) (state, t.move .sendRoundEnd
      (sentChunks (missing.filterMap fun idx => (roundChunks file base)[idx]?))) := by
  induction missing generalizing t with
  | nil =>
    refine .single ⟨by simp [hpoint], by simp [hpoint], ?_⟩
    simp [Sender.work, Sender.goto, Sender.move, hpoint, sentChunks]
  | cons idx missing ih =>
    have hrest := ih (h.move (.resend missing) (sentChunks (roundChunks file base)[idx]?.toList))
      rfl
    rw [Sender.move_move, ← sentChunks_append] at hrest
    have hchunks : (roundChunks file base)[idx]?.toList ++
        missing.filterMap (fun idx => (roundChunks file base)[idx]?) =
          (idx :: missing).filterMap fun idx => (roundChunks file base)[idx]? := by
      rw [List.filterMap_cons]
      cases (roundChunks file base)[idx]? <;> rfl
    rw [← hchunks]
    exact hrest.head ⟨by simp [hpoint], by simp [hpoint], work_resend h hpoint⟩

end Rounds

end FileTransfer

end IocpChat

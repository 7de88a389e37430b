import IocpChat.Lib.Pieces
import IocpChat.Protocol.Structs

/-!
# Rounds of chunks

A file is sent in rounds of at most 1024 chunks of at most 3840 bytes.  The sender
numbers the chunks of a round from its beginning; the receiver finds the slot of a chunk
from its offset in the file, and asks for the slots that are empty when the round ends.

The code is written twice: `Client::uploadWorker` and `HandleFileTransfer` send, and
`FileTransferManager` and `Client` receive, each pair by the same statements.  Sizes are
those of files in memory and do not come near the width of the counters.

Sender and receiver mean the same slot if the file is sent from an offset in the first
chunk of a round (`agree_iff`).

## Main definitions

* `roundChunks`, `rounds`, `Outgoing`, `FileAck` — a sender, and what it is answered.
* `Incoming`, `handleFileChunk`, `handleRoundEnd`, `writeRoundToDisk` — a receiver.
* `Agree` — the receiver puts the chunks of a round where the sender counts them.
-/

namespace IocpChat

open Pieces

namespace FileTransfer

/-- `MAX_CHUNKS_PER_ROUND`. -/
def maxChunksPerRound : ℕ := 1024

/-- `MAX_CHUNK_SIZE`. -/
def maxChunkSize : ℕ := 3840

def roundSize : ℕ := maxChunkSize * maxChunksPerRound

/-! ## The sender -/

/-- An entry of `roundOffsets` and of `roundBuffer`. -/
structure Chunk where
  offset : ℕ
  data : List UInt8
  deriving DecidableEq

/-- The loop that reads the chunks of a round, with so many slots left.  The whole file
can be read, so a read gives nothing only at its end. -/
def fillRound (file : List UInt8) : ℕ → ℕ → List Chunk
  | 0, _ => []
  | slots + 1, bytesSent =>
    if bytesSent < file.length then
      let data := (file.drop bytesSent).take maxChunkSize
      ⟨bytesSent, data⟩ :: fillRound file slots (bytesSent + data.length)
    else []

/-- The chunks of the round that begins at an offset. -/
def roundChunks (file : List UInt8) (bytesSent : ℕ) : List Chunk :=
  fillRound file maxChunksPerRound bytesSent

/-- `bytesSent` after the round. -/
def roundNext (file : List UInt8) (bytesSent : ℕ) : ℕ :=
  bytesSent + ((roundChunks file bytesSent).map fun c => c.data.length).sum

section Sender

variable {file : List UInt8} {bytesSent slots i : ℕ}

/-- **The chunks of a round** are the pieces of the rest of the file. -/
theorem getElem?_fillRound (file : List UInt8) (slots bytesSent i : ℕ) :
    (fillRound file slots bytesSent)[i]? =
      if i < slots ∧ bytesSent + maxChunkSize * i < file.length then
        some ⟨bytesSent + maxChunkSize * i, piece maxChunkSize (file.drop bytesSent) i⟩
      else none := by
  induction slots generalizing bytesSent i with
  | zero => simp [fillRound]
  | succ slots ih =>
    by_cases hlt : bytesSent < file.length
    · rw [fillRound, if_pos hlt]
      cases i with
      | zero => simp [hlt, piece]
      | succ i =>
        have hdata : ((file.drop bytesSent).take maxChunkSize).length =
            min maxChunkSize (file.length - bytesSent) := by simp
        rw [List.getElem?_cons_succ, ih, hdata]
        rcases Nat.lt_or_ge (bytesSent + maxChunkSize) file.length with hmore | hend
        · -- a whole chunk was read
          have hmin : min maxChunkSize (file.length - bytesSent) = maxChunkSize := by omega
          have hoff : bytesSent + maxChunkSize + maxChunkSize * i =
              bytesSent + maxChunkSize * (i + 1) := by rw [Nat.mul_succ]; omega
          rw [hmin, hoff, piece_succ, List.drop_drop]
          simp
        · have hstop : ¬ bytesSent + min maxChunkSize (file.length - bytesSent) +
              maxChunkSize * i < file.length := by omega
          have hstop' : ¬ bytesSent + maxChunkSize * (i + 1) < file.length := by
            rw [Nat.mul_succ]
            omega
          rw [if_neg (fun h => hstop h.2), if_neg (fun h => hstop' h.2)]
    · rw [fillRound, if_neg hlt, if_neg (fun h => hlt (by omega))]
      rfl

theorem getElem?_roundChunks (file : List UInt8) (bytesSent i : ℕ) :
    (roundChunks file bytesSent)[i]? =
      if i < maxChunksPerRound ∧ bytesSent + maxChunkSize * i < file.length then
        some ⟨bytesSent + maxChunkSize * i, piece maxChunkSize (file.drop bytesSent) i⟩
      else none :=
  getElem?_fillRound file maxChunksPerRound bytesSent i

theorem lt_length_roundChunks : i < (roundChunks file bytesSent).length ↔
    i < maxChunksPerRound ∧ bytesSent + maxChunkSize * i < file.length := by
  have hchunk := getElem?_roundChunks file bytesSent i
  split at hchunk
  · rename_i h
    exact iff_of_true (List.getElem?_eq_some_iff.mp hchunk).1 h
  · rename_i h
    exact iff_of_false (Nat.not_lt.mpr (List.getElem?_eq_none_iff.mp hchunk)) h

theorem data_fillRound (file : List UInt8) (slots bytesSent : ℕ) :
    ((fillRound file slots bytesSent).map Chunk.data).flatten =
      (file.drop bytesSent).take (maxChunkSize * slots) := by
  induction slots generalizing bytesSent with
  | zero => simp [fillRound]
  | succ slots ih =>
    by_cases hlt : bytesSent < file.length
    · have hdrop : (file.drop bytesSent).drop ((file.drop bytesSent).take maxChunkSize).length =
          (file.drop bytesSent).drop maxChunkSize := by
        rw [List.drop_eq_drop_iff, List.length_take]
        omega
      rw [fillRound, if_pos hlt, List.map_cons, List.flatten_cons, ih, ← List.drop_drop, hdrop,
        Nat.mul_succ, Nat.add_comm (maxChunkSize * slots), List.take_add]
    · rw [fillRound, if_neg hlt, List.drop_eq_nil_of_le (Nat.le_of_not_lt hlt)]
      simp

theorem data_roundChunks (file : List UInt8) (bytesSent : ℕ) :
    ((roundChunks file bytesSent).map Chunk.data).flatten =
      (file.drop bytesSent).take roundSize :=
  data_fillRound file maxChunksPerRound bytesSent

theorem roundNext_eq (h : bytesSent ≤ file.length) :
    roundNext file bytesSent = min (bytesSent + roundSize) file.length := by
  have hlen := congrArg List.length (data_roundChunks file bytesSent)
  rw [List.length_flatten, List.map_map, List.length_take, List.length_drop] at hlen
  have hsum : ((roundChunks file bytesSent).map fun c => c.data.length).sum =
      min roundSize (file.length - bytesSent) := hlen
  rw [roundNext, hsum]
  omega

theorem lt_roundNext (h : bytesSent < file.length) : bytesSent < roundNext file bytesSent := by
  rw [roundNext_eq (Nat.le_of_lt h), roundSize, maxChunkSize, maxChunksPerRound]
  omega

end Sender

/-- The rounds that are sent from an offset on, with their numbers. -/
def sentRounds (file : List UInt8) (round bytesSent : ℕ) : List (ℕ × List Chunk) :=
  if h : bytesSent < file.length then
    (round, roundChunks file bytesSent) :: sentRounds file (round + 1) (roundNext file bytesSent)
  else []
  termination_by file.length - bytesSent
  decreasing_by
    have hnext := lt_roundNext h
    omega

/-- The rounds of a transfer that starts after some bytes of the file. -/
def rounds (file : List UInt8) (startBytes : ℕ) : List (ℕ × List Chunk) :=
  sentRounds file (startBytes / roundSize) startBytes

/-- What the handler of acknowledgements shares with a sender: a part of `UploadState` at
a client, and of `TransferState` for a download. -/
structure Outgoing where
  currentRound : ℕ
  ackReceived : Bool
  missingChunks : List ℕ
  deriving DecidableEq

/-- The answer to the end of a round. -/
structure FileAck where
  roundId : ℕ
  missingChunks : List ℕ

/-- `serializeFileAck` returns true.  The receiver does not look at what it returns, and
an answer that does not fit is not sent. -/
def FileAck.Fits (ack : FileAck) : Prop :=
  headerSize + FileAckPayload.codec.width + 4 * ack.missingChunks.length ≤ dataSize

instance (ack : FileAck) : Decidable ack.Fits := inferInstanceAs (Decidable (_ ≤ _))

/-- An acknowledgement that is for the current round is recorded. -/
def Outgoing.record (s : Outgoing) (missing : List ℕ) : Outgoing :=
  { s with missingChunks := missing, ackReceived := true }

/-! ## The receiver -/

/-- A transfer at its receiver: `TransferState` of an upload at the server, and
`DownloadState` at a client. -/
structure Incoming where
  totalSize : ℕ
  receivedOffset : ℕ
  currentRound : ℕ
  roundBuffer : List (List UInt8)
  /-- The contents of the file that the chunks are appended to. -/
  fileStream : List UInt8

def chunkIndex (byteOffset : ℕ) : ℕ := byteOffset / maxChunkSize % maxChunksPerRound

namespace Incoming

/-- A transfer begins; some of the file may be there already. -/
def start (totalSize : ℕ) (fileStream : List UInt8) : Incoming :=
  ⟨totalSize, fileStream.length, fileStream.length / roundSize,
    List.replicate maxChunksPerRound [], fileStream⟩

/-- Put a chunk into its slot, unless its checksum is wrong or the slot is taken. -/
def handleFileChunk (hw : Bool) (s : Incoming) (byteOffset : ℕ) (crc : UInt32)
    (data : List UInt8) : Incoming :=
  if CRC32C.compute hw data 0 ≠ crc then s
  else
    match s.roundBuffer[chunkIndex byteOffset]? with
    | none => s
    | some slot =>
      if slot ≠ [] then s
      else { s with roundBuffer := s.roundBuffer.set (chunkIndex byteOffset) data }

/-- Append the slots to the file. -/
def writeRoundToDisk (s : Incoming) : Incoming :=
  s.roundBuffer.foldl (fun s chunk =>
    if chunk ≠ [] then
      { s with
        fileStream := s.fileStream ++ chunk
        receivedOffset := s.receivedOffset + chunk.length }
    else s) s

/-- A round has ended.  The answer has the number of a round and the slots that are
missing; a round that is complete is written. -/
def handleRoundEnd (s : Incoming) (roundId expectedChunkCount : ℕ) : Incoming × ℕ × List ℕ :=
  if roundId ≠ s.currentRound then (s, s.currentRound, [])
  else if missing s.roundBuffer expectedChunkCount = [] then
    ({ s.writeRoundToDisk with
      roundBuffer := List.replicate s.roundBuffer.length []
      currentRound := s.currentRound + 1 }, roundId, [])
  else (s, roundId, missing s.roundBuffer expectedChunkCount)

theorem writeRoundToDisk_eq (s : Incoming) : s.writeRoundToDisk =
    { s with
      fileStream := s.fileStream ++ s.roundBuffer.flatten
      receivedOffset := s.receivedOffset + s.roundBuffer.flatten.length } := by
  have hfold : ∀ (buffer : List (List UInt8)) (t : Incoming), buffer.foldl (fun s chunk =>
      if chunk ≠ [] then
        { s with
          fileStream := s.fileStream ++ chunk
          receivedOffset := s.receivedOffset + chunk.length }
      else s) t =
        { t with
          fileStream := t.fileStream ++ buffer.flatten
          receivedOffset := t.receivedOffset + buffer.flatten.length } := by
    intro buffer
    induction buffer with
    | nil =>
      intro t
      simp
    | cons chunk buffer ih =>
      intro t
      rw [List.foldl_cons, ih]
      by_cases hchunk : chunk = []
      · simp [hchunk]
      · simp [hchunk, Nat.add_assoc]
  exact hfold s.roundBuffer s

section Slots

variable {hw : Bool} {s : Incoming} {byteOffset i : ℕ} {crc : UInt32} {data : List UInt8}

/-- A chunk that is intact goes into its slot if that is empty, and is dropped
otherwise. -/
theorem handleFileChunk_eq (hcrc : CRC32C.compute hw data 0 = crc) :
    s.handleFileChunk hw byteOffset crc data =
      if s.roundBuffer[chunkIndex byteOffset]? = some [] then
        { s with roundBuffer := s.roundBuffer.set (chunkIndex byteOffset) data }
      else s := by
  unfold handleFileChunk
  rw [if_neg (not_not.mpr hcrc)]
  cases s.roundBuffer[chunkIndex byteOffset]? with
  | none => rfl
  | some slot => cases slot <;> simp

/-- **The slots after a chunk.** -/
theorem getElem?_handleFileChunk (hcrc : CRC32C.compute hw data 0 = crc) :
    (s.handleFileChunk hw byteOffset crc data).roundBuffer[i]? =
      if i = chunkIndex byteOffset ∧ s.roundBuffer[i]? = some [] then some data
      else s.roundBuffer[i]? := by
  rw [handleFileChunk_eq hcrc]
  by_cases hslot : s.roundBuffer[chunkIndex byteOffset]? = some []
  · have hlt := (List.getElem?_eq_some_iff.mp hslot).1
    rw [if_pos hslot]
    by_cases hi : i = chunkIndex byteOffset
    · rw [if_pos ⟨hi, hi ▸ hslot⟩, hi, List.getElem?_set_self hlt]
    · rw [if_neg (fun h => hi h.1), List.getElem?_set_ne (Ne.symm hi)]
  · rw [if_neg hslot, if_neg]
    rintro ⟨rfl, h⟩
    exact hslot h

/-- A list of chunks arrives, each intact. -/
def receiveAll (hw : Bool) (s : Incoming) (chunks : List Chunk) : Incoming :=
  chunks.foldl (fun s c => s.handleFileChunk hw c.offset (CRC32C.compute hw c.data 0) c.data) s

theorem receiveAll_eq_empty {chunks : List Chunk} (hdata : ∀ c ∈ chunks, c.data ≠ []) :
    (s.receiveAll hw chunks).roundBuffer[i]? = some [] ↔
      s.roundBuffer[i]? = some [] ∧ ∀ c ∈ chunks, chunkIndex c.offset ≠ i := by
  induction chunks generalizing s with
  | nil => simp [receiveAll]
  | cons c chunks ih =>
    have hhead := hdata c List.mem_cons_self
    have hstep := ih (fun c' hc' => hdata c' (List.mem_cons_of_mem _ hc'))
      (s := s.handleFileChunk hw c.offset (CRC32C.compute hw c.data 0) c.data)
    refine Iff.trans hstep ?_
    rw [getElem?_handleFileChunk rfl]
    by_cases hi : i = chunkIndex c.offset
    · by_cases hempty : s.roundBuffer[i]? = some []
      · simp [hi ▸ hempty, hi, hhead]
      · simp [hi ▸ hempty, hi]
    · simp [hi, Ne.symm hi]

theorem fits_handleFileChunk {xs : List UInt8} (h : Fits maxChunkSize xs s.roundBuffer)
    (hcrc : CRC32C.compute hw data 0 = crc)
    (hdata : data = piece maxChunkSize xs (chunkIndex byteOffset)) :
    Fits maxChunkSize xs (s.handleFileChunk hw byteOffset crc data).roundBuffer := by
  rw [handleFileChunk_eq hcrc]
  split
  · subst hdata
    exact h.set
  · exact h

theorem length_handleFileChunk :
    (s.handleFileChunk hw byteOffset crc data).roundBuffer.length = s.roundBuffer.length := by
  by_cases hcrc : CRC32C.compute hw data 0 = crc
  · rw [handleFileChunk_eq hcrc]
    split <;> simp
  · rw [handleFileChunk, if_pos hcrc]

theorem handleFileChunk_frame (hw : Bool) (s : Incoming) (byteOffset : ℕ) (crc : UInt32)
    (data : List UInt8) :
    (s.handleFileChunk hw byteOffset crc data).totalSize = s.totalSize ∧
      (s.handleFileChunk hw byteOffset crc data).receivedOffset = s.receivedOffset ∧
      (s.handleFileChunk hw byteOffset crc data).currentRound = s.currentRound ∧
      (s.handleFileChunk hw byteOffset crc data).fileStream = s.fileStream := by
  unfold handleFileChunk
  split
  · exact ⟨rfl, rfl, rfl, rfl⟩
  · split
    · exact ⟨rfl, rfl, rfl, rfl⟩
    · split <;> exact ⟨rfl, rfl, rfl, rfl⟩

theorem length_handleRoundEnd (s : Incoming) (roundId chunkCount : ℕ) :
    (s.handleRoundEnd roundId chunkCount).1.roundBuffer.length = s.roundBuffer.length := by
  unfold handleRoundEnd
  split
  · rfl
  · split
    · simp
    · rfl

theorem receiveAll_frame (hw : Bool) (s : Incoming) (chunks : List Chunk) :
    (s.receiveAll hw chunks).totalSize = s.totalSize ∧
      (s.receiveAll hw chunks).receivedOffset = s.receivedOffset ∧
      (s.receiveAll hw chunks).currentRound = s.currentRound ∧
      (s.receiveAll hw chunks).fileStream = s.fileStream := by
  induction chunks generalizing s with
  | nil => exact ⟨rfl, rfl, rfl, rfl⟩
  | cons c chunks ih =>
    have hc := handleFileChunk_frame hw s c.offset (CRC32C.compute hw c.data 0) c.data
    have hrest := ih (s.handleFileChunk hw c.offset (CRC32C.compute hw c.data 0) c.data)
    exact ⟨hrest.1.trans hc.1, hrest.2.1.trans hc.2.1, hrest.2.2.1.trans hc.2.2.1,
      hrest.2.2.2.trans hc.2.2.2⟩

theorem length_receiveAll (hw : Bool) (s : Incoming) (chunks : List Chunk) :
    (s.receiveAll hw chunks).roundBuffer.length = s.roundBuffer.length := by
  induction chunks generalizing s with
  | nil => rfl
  | cons c chunks ih => exact (ih _).trans length_handleFileChunk

theorem mem_missing_receiveAll {chunks : List Chunk} {count : ℕ}
    (hs : s.roundBuffer = List.replicate maxChunksPerRound []) (hdata : ∀ c ∈ chunks, c.data ≠ [])
    (hi : i < maxChunksPerRound) :
    i ∈ missing (s.receiveAll hw chunks).roundBuffer count ↔
      i < count ∧ ∀ c ∈ chunks, chunkIndex c.offset ≠ i := by
  have hlen : i < (s.receiveAll hw chunks).roundBuffer.length := by
    rw [length_receiveAll, hs, List.length_replicate]
    exact hi
  have hslot : (s.receiveAll hw chunks).roundBuffer[i]?.getD [] = [] ↔
      (s.receiveAll hw chunks).roundBuffer[i]? = some [] := by
    rw [List.getElem?_eq_getElem hlen]
    simp
  have hstart : s.roundBuffer[i]? = some [] := by simp [hs, hi]
  rw [mem_missing, hslot, receiveAll_eq_empty hdata]
  simp [hstart]

theorem fits_receiveAll {xs : List UInt8} {chunks : List Chunk}
    (h : Fits maxChunkSize xs s.roundBuffer)
    (hchunks : ∀ c ∈ chunks, c.data = piece maxChunkSize xs (chunkIndex c.offset)) :
    Fits maxChunkSize xs (s.receiveAll hw chunks).roundBuffer := by
  induction chunks generalizing s with
  | nil => exact h
  | cons c chunks ih =>
    refine ih ?_ fun c' hc' => hchunks c' (List.mem_cons_of_mem _ hc')
    exact fits_handleFileChunk h rfl (hchunks c List.mem_cons_self)

end Slots

end Incoming

/-! ## Where sender and receiver agree -/

/-- **Sender and receiver agree on the chunks of a round.**  A receiver that begins the
round with empty slots puts each chunk into the slot with its number, so that the slots
missing are those of the chunks that did not arrive, and the slots in their order are the
bytes of the round. -/
structure Agree (hw : Bool) (round : List Chunk) : Prop where
  index : ∀ i c, round[i]? = some c → chunkIndex c.offset = i
  names : ∀ (s : Incoming) (got : List Chunk),
    s.roundBuffer = List.replicate maxChunksPerRound [] → got.Sublist round →
    ∀ i c, round[i]? = some c →
      (i ∈ missing (s.receiveAll hw got).roundBuffer round.length ↔ c ∉ got)
  ordered : ∀ s : Incoming, s.roundBuffer = List.replicate maxChunksPerRound [] →
    (s.receiveAll hw round).roundBuffer.flatten = (round.map Chunk.data).flatten

/-- A round begins in the first chunk of a round of the receiver. -/
def Aligned (bytesSent : ℕ) : Prop := bytesSent / maxChunkSize % maxChunksPerRound = 0

section Agree

variable {file : List UInt8} {bytesSent i : ℕ} {c : Chunk} {hw : Bool}

theorem chunkIndex_add (bytesSent i : ℕ) :
    chunkIndex (bytesSent + maxChunkSize * i) = (bytesSent / maxChunkSize + i) % maxChunksPerRound := by
  have hdiv : (bytesSent + maxChunkSize * i) / maxChunkSize = bytesSent / maxChunkSize + i :=
    Nat.add_mul_div_left _ _ (by decide)
  rw [chunkIndex, hdiv]

theorem chunkIndex_of_aligned (h : Aligned bytesSent) (hi : i < maxChunksPerRound) :
    chunkIndex (bytesSent + maxChunkSize * i) = i := by
  rw [chunkIndex_add, Nat.add_mod, show bytesSent / maxChunkSize % maxChunksPerRound = 0 from h,
    Nat.zero_add, Nat.mod_mod, Nat.mod_eq_of_lt hi]

theorem Aligned.roundNext (h : Aligned bytesSent) (hnext : roundNext file bytesSent < file.length)
    (hle : bytesSent ≤ file.length) : Aligned (roundNext file bytesSent) := by
  have heq : FileTransfer.roundNext file bytesSent = bytesSent + maxChunkSize * maxChunksPerRound := by
    rw [roundNext_eq hle] at hnext ⊢
    exact Nat.min_eq_left (by omega)
  have hdiv : (bytesSent + maxChunkSize * maxChunksPerRound) / maxChunkSize =
      bytesSent / maxChunkSize + maxChunksPerRound := Nat.add_mul_div_left _ _ (by decide)
  rw [Aligned, heq, hdiv, Nat.add_mod_right]
  exact h

theorem chunk_of_getElem? (h : (roundChunks file bytesSent)[i]? = some c) :
    i < maxChunksPerRound ∧ c.offset = bytesSent + maxChunkSize * i ∧
      c.data = piece maxChunkSize (file.drop bytesSent) i ∧ c.data ≠ [] := by
  rw [getElem?_roundChunks] at h
  split at h
  · rename_i hi
    cases h
    refine ⟨hi.1, rfl, rfl, ?_⟩
    rw [Ne, piece_eq_nil_iff (by decide), List.length_drop]
    omega
  · cases h

theorem data_ne_nil (h : c ∈ roundChunks file bytesSent) : c.data ≠ [] := by
  obtain ⟨i, hi⟩ := List.mem_iff_getElem?.mp h
  exact (chunk_of_getElem? hi).2.2.2

theorem index_of_aligned (h : Aligned bytesSent) (hc : (roundChunks file bytesSent)[i]? = some c) :
    chunkIndex c.offset = i := by
  obtain ⟨hi, hoffset, -, -⟩ := chunk_of_getElem? hc
  rw [hoffset, chunkIndex_of_aligned h hi]

theorem data_of_aligned (h : Aligned bytesSent) (hc : c ∈ roundChunks file bytesSent) :
    c.data = piece maxChunkSize (file.drop bytesSent) (chunkIndex c.offset) := by
  obtain ⟨i, hi⟩ := List.mem_iff_getElem?.mp hc
  rw [index_of_aligned h hi, (chunk_of_getElem? hi).2.2.1]

theorem agree_of_aligned (hw : Bool) (h : Aligned bytesSent) :
    Agree hw (roundChunks file bytesSent) := by
  have hindex : ∀ i c, (roundChunks file bytesSent)[i]? = some c → chunkIndex c.offset = i :=
    fun i c hc => index_of_aligned h hc
  constructor
  · exact hindex
  · intro s got hs hgot i c hc
    rw [Incoming.mem_missing_receiveAll hs (fun c' hc' => data_ne_nil (hgot.subset hc'))
      (chunk_of_getElem? hc).1]
    constructor
    · intro hmissing hmem
      exact hmissing.2 c hmem (hindex i c hc)
    · intro hnot
      refine ⟨(List.getElem?_eq_some_iff.mp hc).1, ?_⟩
      intro c' hc' heq
      -- the chunk in this slot is the one with this number
      obtain ⟨j, hj⟩ := List.mem_iff_getElem?.mp (hgot.subset hc')
      have hji : j = i := (hindex j c' hj).symm.trans heq
      rw [hji, hc] at hj
      cases hj
      exact hnot hc'
  · intro s hs
    have hfits : Fits maxChunkSize (file.drop bytesSent)
        (s.receiveAll hw (roundChunks file bytesSent)).roundBuffer :=
      Incoming.fits_receiveAll (hs ▸ fits_replicate) fun c hc => data_of_aligned h hc
    have hlen : (s.receiveAll hw (roundChunks file bytesSent)).roundBuffer.length =
        maxChunksPerRound := by
      rw [Incoming.length_receiveAll, hs, List.length_replicate]
    rw [data_roundChunks, hfits.flatten_eq, hlen, roundSize]
    intro i hi hpiece hempty
    rw [hlen] at hi
    rw [Incoming.receiveAll_eq_empty fun c hc => data_ne_nil hc] at hempty
    rw [Ne, piece_eq_nil_iff (by decide), List.length_drop] at hpiece
    have hchunk := getElem?_roundChunks file bytesSent i
    rw [if_pos ⟨hi, by omega⟩] at hchunk
    exact hempty.2 _ (List.mem_of_getElem? hchunk) (hindex i _ hchunk)

theorem agree_of_mem_sentRounds (hw : Bool) {round : ℕ} {r : ℕ × List Chunk} (h : Aligned bytesSent)
    (hr : r ∈ sentRounds file round bytesSent) : Agree hw r.2 := by
  fun_induction sentRounds file round bytesSent with
  | case1 round bytesSent hlt ih =>
    rcases List.mem_cons.mp hr with rfl | hr
    · exact agree_of_aligned hw h
    · rcases Nat.lt_or_ge (roundNext file bytesSent) file.length with hnext | hend
      · exact ih (h.roundNext hnext (Nat.le_of_lt hlt)) hr
      · rw [sentRounds, dif_neg (Nat.not_lt.mpr hend)] at hr
        cases hr
  | case2 round bytesSent hge => cases hr

theorem aligned_of_agree (hlt : bytesSent < file.length)
    (h : ∀ r ∈ rounds file bytesSent, Agree hw r.2) : Aligned bytesSent := by
  have hround : (bytesSent / roundSize, roundChunks file bytesSent) ∈ rounds file bytesSent := by
    rw [rounds, sentRounds, dif_pos hlt]
    exact List.mem_cons_self
  have hchunk := getElem?_roundChunks file bytesSent 0
  rw [if_pos ⟨by decide, by simpa using hlt⟩] at hchunk
  have hindex := (h _ hround).index 0 _ hchunk
  rwa [Nat.mul_zero, Nat.add_zero] at hindex

end Agree

/-- **Sender and receiver agree on every round iff** there is nothing to send or the
transfer starts in the first chunk of a round. -/
theorem agree_iff (hw : Bool) (file : List UInt8) (startBytes : ℕ) :
    (∀ r ∈ rounds file startBytes, Agree hw r.2) ↔
      file.length ≤ startBytes ∨ Aligned startBytes := by
  constructor
  · intro h
    rcases Nat.lt_or_ge startBytes file.length with hlt | hge
    · exact .inr (aligned_of_agree hlt h)
    · exact .inl hge
  · rintro (hge | haligned)
    · intro r hr
      rw [rounds, sentRounds, dif_neg (Nat.not_lt.mpr hge)] at hr
      cases hr
    · intro r hr
      exact agree_of_mem_sentRounds hw haligned hr

/-- A file has one byte more than a chunk, and one chunk of it is there: the first chunk
that is sent goes into the second slot. -/
theorem not_agree_second_chunk :
    ¬ ∀ r ∈ rounds (List.replicate 3841 0) 3840, Agree true r.2 := by
  intro h
  have hlt : 3840 < (List.replicate 3841 (0 : UInt8)).length := by
    rw [List.length_replicate]
    decide
  exact absurd (aligned_of_agree hlt h) (by unfold Aligned; decide)

end FileTransfer

end IocpChat

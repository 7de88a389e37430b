import IocpChat.FileTransfer.Downloads
import IocpChat.FileTransfer.RoundAcks

/-!
# Accesses to the round buffers

The chunks of a round are in the vectors `roundBuffer` and `roundOffsets`.  They have
`MAX_CHUNKS_PER_ROUND` elements from the beginning of an upload on, none after `clearState`, and all
again when a download is requested.  The operator `[]` does not look at the size.

`handleRoundEnd` reads as many elements as the packet says.  `HandleFileTransfer` looks the
`TransferState` up once more, and may find another one than `HandleDownloadRequest` has resized the
vectors of: the same id may have been uploaded again in between.  There are no other accesses out of
range (`inRange_iff`).

The server handles one packet after the other.  The threads of the downloads and that of
`sendDownloadLinkLoop` take steps in between.

## Main definitions

* `Access` — an index, and the size of the vector.
* `TransferManager`, `TransferManager.step` — uploads and downloads at the server.
* `ClientUpload`, `ClientUpload.step` — an upload at the client.
* `TransferManager.InRange`, `TransferManager.Safe` — accesses, and what keeps them in range.
-/

namespace IocpChat

open Transition

namespace FileTransfer

/-! ## Accesses -/

/-- An index that is used, and the size of the vector. -/
abbrev Access := ℕ × ℕ

def AllInRange (accesses : List Access) : Prop := ∀ a ∈ accesses, a.1 < a.2

instance (accesses : List Access) : Decidable (AllInRange accesses) :=
  inferInstanceAs (Decidable (∀ a ∈ accesses, a.1 < a.2))

namespace Incoming

/-- What `handleFileChunk` accesses. -/
def chunkAccesses (hw : Bool) (s : Incoming) (byteOffset : ℕ) (crc : UInt32) (data : List UInt8) :
    List Access :=
  if CRC32C.compute hw data 0 ≠ crc then []
  else if s.roundBuffer.length ≤ chunkIndex byteOffset then []
  else [(chunkIndex byteOffset, s.roundBuffer.length)]

/-- What `handleRoundEnd` accesses. -/
def roundAccesses (s : Incoming) (roundId expectedChunkCount : ℕ) : List Access :=
  if roundId ≠ s.currentRound then []
  else (List.range expectedChunkCount).map fun i => (i, s.roundBuffer.length)

end Incoming

/-- What the handler of a packet accesses. -/
def UploadPacket.accesses (hw : Bool) (s : Incoming) : UploadPacket → List Access
  | .fileChunk byteOffset crc data => s.chunkAccesses hw byteOffset crc data
  | .roundEnd roundId chunkCount => s.roundAccesses roundId chunkCount
  | .fileStart .. | .fileEnd => []

/-- The same for a download at the client. -/
def DownloadPacket.accesses (hw : Bool) (s : Incoming) : DownloadPacket → List Access
  | .fileChunk byteOffset crc data => s.chunkAccesses hw byteOffset crc data
  | .roundEnd roundId chunkCount => s.roundAccesses roundId chunkCount
  | .fileStart .. | .fileEnd .. => []

/-- Both vectors are accessed with the same index. -/
def TransferState.both (state : TransferState) (i : ℕ) : List Access :=
  [(i, state.roundOffsets.length), (i, state.roundBuffer.length)]

/-- What a step of a thread accesses. -/
def Sender.accesses (u : StoredFile) (state : TransferState) (t : Sender) : List Access :=
  match t.point with
  | .fill => if t.block u = [] then [] else state.both t.chunksThisRound
  | .sendChunk i => if i < t.chunksThisRound then state.both i else []
  | .resend (idx :: _) => if idx < t.chunksThisRound then state.both idx else []
  | _ => []

/-! ## The server -/

/-- The `TransferState` of an upload that is complete. -/
structure Stored where
  /-- The file at `tempPath`. -/
  file : Key
  totalSize : ℕ
  finalCrc : UInt32
  state : TransferState
  /-- A `DOWNLOAD_REQUEST` has been handled for it. -/
  requested : Bool

def Stored.request (st : Stored) : Stored :=
  { st with
    state := { st.state with
      roundBuffer := resize [] maxChunksPerRound st.state.roundBuffer
      roundOffsets := resize 0 maxChunksPerRound st.state.roundOffsets }
    requested := true }

/-- A thread of `HandleFileTransfer`, and which `TransferState` it has found. -/
structure DownloadThread where
  upId : Key
  found : Option ℕ
  sender : Sender

/-- The transfers of the server.  Each upload that is complete has a `TransferState` of its own. -/
structure TransferManager where
  uploads : UploadServer
  stored : List Stored
  completedUpload : List (Key × ℕ)
  downloadableFiles : Key → Option ℕ
  threads : List DownloadThread

inductive ManagerAction
  /-- A packet of an upload.  A `FILE_START` has brought the checksum. -/
  | upload (id : UploadId) (p : UploadPacket) (finalCrc : UInt32)
  /-- A turn of `sendDownloadLinkLoop`. -/
  | announce
  /-- `HandleDownloadRequest`. -/
  | request (id : UploadId) (startBytes : ℕ)
  | work (i : ℕ)
  /-- A thread has waited for 15 seconds. -/
  | timeout (i : ℕ)
  /-- `onAckReceived`. -/
  | ack (id : UploadId) (ack : FileAck)

namespace TransferManager

variable (host : Host) (reads : Key → Bool) (hw : Bool)

/-- A server that finds some files. -/
def start (files : Key → List UInt8) : TransferManager := ⟨.start files, [], [], fun _ => none, []⟩

/-- The upload that a packet completes. -/
def completed (s : TransferManager) (id : UploadId) : UploadPacket → Option Transfer
  | .fileEnd => (s.uploads.transfers id.key).filter fun t => t.state.receivedOffset = t.state.totalSize
  | _ => none

/-- The end of an upload that is complete. -/
def store (s : TransferManager) (id : UploadId) (t : Transfer) (finalCrc : UInt32) : TransferManager :=
  { s with
    stored := s.stored ++ [⟨t.file, t.state.totalSize, finalCrc, .cleared, false⟩]
    completedUpload := s.completedUpload ++ [(id.key, s.stored.length)] }

def source (s : TransferManager) (st : Stored) : StoredFile :=
  ⟨if reads st.file then some (s.uploads.files st.file) else none, st.totalSize, st.finalCrc⟩

def setThread (s : TransferManager) (i : ℕ) (t : DownloadThread) : TransferManager :=
  { s with threads := s.threads.set i t }

/-- A step of a thread.  It looks the `TransferState` up first. -/
def work (s : TransferManager) (i : ℕ) (t : DownloadThread) : Option TransferManager :=
  match t.found with
  | none =>
    if t.sender.point = .stopped then none
    else
      match s.downloadableFiles t.upId with
      | none =>
        some (s.setThread i
          { t with sender := (t.sender.send (.error (text "State lost"))).goto .stopped })
      | some found => some (s.setThread i { t with found := some found })
  | some found =>
    match s.stored[found]? with
    | none => none
    | some st =>
      (t.sender.work (s.source reads st) st.state).map fun r =>
        { s.setThread i { t with sender := r.2 } with
          stored := s.stored.set found { st with state := r.1 } }

def step (s : TransferManager) : ManagerAction → Option TransferManager
  | .upload id p finalCrc =>
    (s.uploads.step host hw (id, p)).map fun uploads =>
      match s.completed id p with
      | none => { s with uploads }
      | some t => { s.store id t finalCrc with uploads }
  | .announce =>
    match s.completedUpload with
    | [] => none
    | (upId, found) :: rest =>
      some { s with
        completedUpload := rest
        downloadableFiles := Function.update s.downloadableFiles upId (some found) }
  | .request id startBytes =>
    match s.downloadableFiles id.key with
    | none => some s
    | some found =>
      s.stored[found]?.map fun st =>
        { s with
          stored := s.stored.set found st.request
          threads := s.threads ++
            [⟨id.key, none, ⟨.openFile, startBytes, startBytes / roundSize, 0, [.fileStart]⟩⟩] }
  | .work i => s.threads[i]?.bind (s.work reads i)
  | .timeout i =>
    s.threads[i]?.bind fun t => t.found.bind fun found => s.stored[found]?.bind fun st =>
      if t.sender.point = .wait ∧ st.state.acks.ackReceived = false then
        some (s.setThread i { t with sender := t.sender.goto .stopped })
      else none
  | .ack id ack =>
    match s.downloadableFiles id.key with
    | none => some s
    | some found =>
      s.stored[found]?.map fun st =>
        if ack.roundId ≠ st.state.acks.currentRound then s
        else
          { s with
            stored := s.stored.set found
              { st with state := { st.state with acks := st.state.acks.onAckReceived ack } }
            threads := s.threads.map fun t =>
              if t.found = some found then { t with sender := t.sender.invalidate } else t }

def accesses (s : TransferManager) : ManagerAction → List Access
  | .upload id p _ => (s.uploads.transfers id.key).elim [] fun t => p.accesses hw t.state
  | .work i =>
    s.threads[i]?.elim [] fun t => t.found.elim [] fun found => s.stored[found]?.elim [] fun st =>
      t.sender.accesses (s.source reads st) st.state
  | .announce | .request .. | .timeout .. | .ack .. => []

/-- **The accesses of a step are in range.** -/
def InRange (s : TransferManager) (a : ManagerAction) : Prop := AllInRange (s.accesses reads hw a)

instance (s : TransferManager) (a : ManagerAction) : Decidable (s.InRange reads hw a) :=
  inferInstanceAs (Decidable (AllInRange _))

/-- What a step must keep to: a `ROUND_END` for the current round counts no more than
`MAX_CHUNKS_PER_ROUND` chunks, and a thread puts a chunk into the vectors only if a
`DOWNLOAD_REQUEST` has been handled for the `TransferState` that it has found. -/
def Safe (s : TransferManager) : ManagerAction → Prop
  | .upload id (.roundEnd roundId chunkCount) _ => ∀ t ∈ s.uploads.transfers id.key,
      roundId = t.state.currentRound → chunkCount ≤ maxChunksPerRound
  | .work i => ∀ t ∈ s.threads[i]?, ∀ found ∈ t.found, ∀ st ∈ s.stored[found]?,
      t.sender.point = .fill → t.sender.block (s.source reads st) ≠ [] → st.requested = true
  | _ => True

end TransferManager

/-! ## The client -/

namespace ClientDownloads

/-- What the handler of a packet accesses. -/
def accesses (hw : Bool) (s : ClientDownloads) (a : UploadId × DownloadPacket) : List Access :=
  (s.activeDownloads a.1.key).elim [] fun d => a.2.accesses hw d.state

def InRange (hw : Bool) (s : ClientDownloads) (a : UploadId × DownloadPacket) : Prop :=
  AllInRange (s.accesses hw a)

/-- A `ROUND_END` for the current round counts no more than `MAX_CHUNKS_PER_ROUND` chunks. -/
def Safe (s : ClientDownloads) : UploadId × DownloadPacket → Prop
  | (id, .roundEnd roundId chunkCount) => ∀ d ∈ s.activeDownloads id.key,
      roundId = d.state.currentRound → chunkCount ≤ maxChunksPerRound
  | _ => True

end ClientDownloads

/-- `UploadState`, and `uploadWorker`. -/
structure ClientUpload where
  state : TransferState
  worker : Sender

inductive ClientUploadAction
  | work
  /-- It has waited for 15 seconds. -/
  | timeout
  /-- `handleFileAck`. -/
  | ack (ack : FileAck)

namespace ClientUpload

variable (u : StoredFile)

/-- `sendFile` has resized the vectors, and the server has said where to start. -/
def start (startBytes : ℕ) : ClientUpload where
  state :=
    { roundBuffer := List.replicate maxChunksPerRound []
      roundOffsets := List.replicate maxChunksPerRound 0
      acks := ⟨startBytes / roundSize, false, []⟩ }
  worker := ⟨.openFile, startBytes, startBytes / roundSize, 0, []⟩

/-- A step of `uploadWorker`.  It differs from `HandleFileTransfer` in that it does not report that
it cannot open the file, does not look for an error in the answer, and counts the rounds in the
`UploadState`. -/
def work (s : ClientUpload) : Option ClientUpload :=
  match s.worker.point with
  | .openFile => some { s with worker := s.worker.goto (if u.file.isSome then .nextRound else .stopped) }
  | .check =>
    if s.state.acks.missingChunks = [] then
      some
        { state := { s.state with
            acks := { s.state.acks with currentRound := s.state.acks.currentRound + 1 } }
          worker := { s.worker.send (.roundDone s.worker.currentRound) with
            currentRound := s.worker.currentRound + 1 }.goto .nextRound }
    else some { s with worker := s.worker.goto (.resend s.state.acks.missingChunks) }
  | _ => (s.worker.work u s.state).map fun r => ⟨r.1, r.2⟩

def step (s : ClientUpload) : ClientUploadAction → Option ClientUpload
  | .work => s.work u
  | .timeout =>
    if s.worker.point = .wait ∧ s.state.acks.ackReceived = false then
      some { s with worker := s.worker.goto .stopped }
    else none
  | .ack ack =>
    if ack.roundId ≠ s.state.acks.currentRound then some s
    else
      some
        { state := { s.state with acks := s.state.acks.record ack.missingChunks }
          worker := s.worker.invalidate }

def accesses (s : ClientUpload) : ClientUploadAction → List Access
  | .work => s.worker.accesses u s.state
  | .timeout | .ack .. => []

def InRange (s : ClientUpload) (a : ClientUploadAction) : Prop := AllInRange (s.accesses u a)

end ClientUpload

/-! ## The handlers -/

section Handlers

variable {hw : Bool} {s : Incoming} {byteOffset roundId chunkCount : ℕ} {crc : UInt32}
  {data : List UInt8}

theorem allInRange_nil : AllInRange [] := by simp [AllInRange]

theorem allInRange_both {state : TransferState} {i : ℕ} :
    AllInRange (state.both i) ↔ i < state.roundOffsets.length ∧ i < state.roundBuffer.length := by
  simp [AllInRange, TransferState.both]

namespace Incoming

/-- `handleFileChunk` looks at the size. -/
theorem allInRange_chunkAccesses : AllInRange (s.chunkAccesses hw byteOffset crc data) := by
  unfold chunkAccesses
  split
  · exact allInRange_nil
  · split
    · exact allInRange_nil
    · rename_i hlt
      simpa [AllInRange] using hlt

theorem allInRange_roundAccesses_iff : AllInRange (s.roundAccesses roundId chunkCount) ↔
    (roundId = s.currentRound → chunkCount ≤ s.roundBuffer.length) := by
  unfold roundAccesses
  by_cases hround : roundId = s.currentRound
  · rw [if_neg (not_not.mpr hround)]
    simp [AllInRange, List.mem_range, forall_exists_index, and_imp, forall_apply_eq_imp_iff₂,
      hround]
    constructor
    · intro h
      by_contra hlt
      exact Nat.lt_irrefl _ (h _ (Nat.lt_of_not_le hlt))
    · intro hle i hi
      exact Nat.lt_of_lt_of_le hi hle
  · simp [hround, AllInRange]

end Incoming

end Handlers

/-! ## The threads -/

section Threads

variable {u : StoredFile} {t t' : Sender} {state state' : TransferState}

def SenderPoint.inRound : SenderPoint → Bool
  | .openFile | .nextRound | .sendFileEnd | .stopped => false
  | _ => true

/-- What a thread can rely on.  It has put chunks only into vectors that were resized. -/
structure Sized (t : Sender) (state : TransferState) : Prop where
  chunks : t.chunksThisRound ≤ maxChunksPerRound
  offsets : 0 < t.chunksThisRound → state.roundOffsets.length = maxChunksPerRound
  buffers : t.point.inRound = true → state.roundBuffer.length = maxChunksPerRound

/-- Vectors that have all their elements keep them. -/
structure Grows (state state' : TransferState) : Prop where
  offsets : state.roundOffsets.length = maxChunksPerRound →
    state'.roundOffsets.length = maxChunksPerRound
  buffers : state.roundBuffer.length = maxChunksPerRound →
    state'.roundBuffer.length = maxChunksPerRound

theorem Sized.grow (h : Sized t state) (hgrows : Grows state state') : Sized t state' :=
  ⟨h.chunks, fun hpos => hgrows.offsets (h.offsets hpos), fun hround => hgrows.buffers (h.buffers hround)⟩

theorem Sized.goto (h : Sized t state) {point : SenderPoint}
    (hpoint : point.inRound = true → t.point.inRound = true) : Sized (t.goto point) state :=
  ⟨h.chunks, h.offsets, fun hround => h.buffers (hpoint hround)⟩

theorem chunks_lt_of_block (h : t.block u ≠ []) : t.chunksThisRound < maxChunksPerRound := by
  by_contra hge
  exact h (if_neg fun hmore => hge hmore.1)

theorem isSome_sendBuffered {i : ℕ} :
    (t.sendBuffered state i).isSome ↔ AllInRange (state.both i) := by
  rw [allInRange_both, Sender.sendBuffered]
  by_cases hoffsets : i < state.roundOffsets.length <;> by_cases hbuffers : i < state.roundBuffer.length <;>
    simp [hoffsets, hbuffers]

/-- **The accesses of a thread.** -/
theorem Sized.inRange_iff (h : Sized t state) (hsize : state.roundOffsets.length = maxChunksPerRound ∨
    state.roundOffsets.length = 0) :
    AllInRange (t.accesses u state) ↔ (t.point = .fill → t.block u ≠ [] →
      state.roundOffsets.length = maxChunksPerRound) := by
  have hsent : ∀ i, i < t.chunksThisRound → t.point.inRound = true → AllInRange (state.both i) := by
    intro i hi hround
    rw [allInRange_both, h.offsets (Nat.zero_lt_of_lt hi), h.buffers hround]
    exact ⟨Nat.lt_of_lt_of_le hi h.chunks, Nat.lt_of_lt_of_le hi h.chunks⟩
  unfold Sender.accesses
  split
  · rename_i hpoint
    by_cases hblock : t.block u = []
    · simp [hblock, allInRange_nil]
    · have hlt := chunks_lt_of_block hblock
      rw [if_neg hblock, allInRange_both, h.buffers (by rw [hpoint]; rfl)]
      simp [hpoint, hblock]
      omega
  · rename_i i hpoint
    refine iff_of_true ?_ (by simp [hpoint])
    split
    · rename_i hi
      exact hsent i hi (by rw [hpoint]; rfl)
    · exact allInRange_nil
  · rename_i idx rest hpoint
    refine iff_of_true ?_ (by simp [hpoint])
    split
    · rename_i hi
      exact hsent idx hi (by rw [hpoint]; rfl)
    · exact allInRange_nil
  · rename_i hfill _ _
    exact iff_of_true allInRange_nil fun hpoint => absurd hpoint hfill

/-- The thread has not stopped, does not wait, and does not go through a vector that was replaced. -/
def Sender.Runs (state : TransferState) (t : Sender) : Prop :=
  (t.point = .wait → state.acks.ackReceived = true) ∧ t.point ≠ .dangling ∧ t.point ≠ .stopped

/-- **The accesses of a step decide** whether a thread that runs gets past it. -/
theorem isSome_work_iff :
    (t.work u state).isSome ↔ t.Runs state ∧ AllInRange (t.accesses u state) := by
  unfold Sender.work Sender.accesses Sender.Runs
  cases hpoint : t.point with
  | openFile => cases u.file <;> simp [allInRange_nil]
  | nextRound | check =>
    simp only [allInRange_nil]
    grind
  | fill =>
    by_cases hblock : t.block u = []
    · simp [hblock, allInRange_nil]
    · simp [hblock, allInRange_both]
  | sendChunk i =>
    by_cases hi : i < t.chunksThisRound
    · simp [hi, isSome_sendBuffered]
    · simp [hi, allInRange_nil]
  | resend missing =>
    cases missing with
    | nil => simp [allInRange_nil]
    | cons idx rest =>
      by_cases hi : idx < t.chunksThisRound
      · simp [hi, isSome_sendBuffered]
      · simp [hi, allInRange_nil]
  | _ => simp [allInRange_nil]

/-- A step of a thread leaves the vectors as large as they are, or makes them larger. -/
theorem grows_work (hwork : t.work u state = some (state', t')) : Grows state state' := by
  unfold Sender.work at hwork
  constructor <;> grind [Option.map_eq_some_iff]

/-- Outside of the two places where it prepares a round, a thread leaves the vectors alone. -/
theorem work_frame (hwork : t.work u state = some (state', t')) (hnext : t.point ≠ .nextRound)
    (hfill : t.point ≠ .fill) : t'.chunksThisRound = t.chunksThisRound ∧
      state'.roundOffsets = state.roundOffsets ∧ state'.roundBuffer = state.roundBuffer ∧
      (t'.point.inRound = true → t.point.inRound = true) := by
  unfold Sender.work at hwork
  grind [exists_of_sendBuffered, Option.map_eq_some_iff, SenderPoint.inRound, Sender.send,
    Sender.goto]

theorem Sized.work (h : Sized t state) (hsize : state.roundOffsets.length = maxChunksPerRound ∨
    state.roundOffsets.length = 0) (hwork : t.work u state = some (state', t')) : Sized t' state' := by
  by_cases hnext : t.point = .nextRound
  · simp only [Sender.work, hnext] at hwork
    split at hwork
    · cases hwork
      exact ⟨Nat.zero_le _, fun hpos => absurd hpos (Nat.lt_irrefl 0), fun _ => List.length_replicate⟩
    · cases hwork
      exact h.goto (by simp [SenderPoint.inRound])
  by_cases hfill : t.point = .fill
  · have hbuffers := h.buffers (by rw [hfill]; rfl)
    simp only [Sender.work, hfill] at hwork
    split at hwork
    · cases hwork
      exact ⟨h.chunks, h.offsets, fun _ => hbuffers⟩
    · rename_i hblock
      split at hwork
      · rename_i hroom
        cases hwork
        refine ⟨chunks_lt_of_block hblock, fun _ => ?_, fun _ => ?_⟩
        · rw [List.length_set]
          omega
        · rw [List.length_set]
          exact hbuffers
      · cases hwork
  · obtain ⟨hchunks, hoffsets, hbuffers, hround⟩ := work_frame hwork hnext hfill
    refine ⟨hchunks ▸ h.chunks, ?_, ?_⟩
    · rw [hchunks, hoffsets]
      exact h.offsets
    · rw [hbuffers]
      exact fun hin => h.buffers (hround hin)

theorem length_offsets_work (hwork : t.work u state = some (state', t')) :
    state'.roundOffsets.length = state.roundOffsets.length := by
  unfold Sender.work at hwork
  grind [Option.map_eq_some_iff]

theorem sized_of_fresh (hchunks : t.chunksThisRound = 0) (hround : t.point.inRound = false)
    (state : TransferState) : Sized t state where
  chunks := by rw [hchunks]; exact Nat.zero_le _
  offsets := fun hpos => absurd hchunks (Nat.ne_of_gt hpos)
  buffers := fun hin => absurd hin (by simp [hround])

theorem Sized.invalidate (h : Sized t state) : Sized t.invalidate state := by
  unfold Sender.invalidate
  split
  · rename_i hpoint
    exact ⟨h.chunks, h.offsets, fun _ => h.buffers (by rw [hpoint]; rfl)⟩
  · exact h

theorem Sized.stop (h : Sized t state) : Sized (t.goto .stopped) state :=
  h.goto (by simp [SenderPoint.inRound])

theorem grows_request (st : Stored) : Grows st.state st.request.state where
  offsets := fun _ => Downloads.length_resize ..
  buffers := fun _ => Downloads.length_resize ..

end Threads

/-! ## Runs -/

/-- Every `TransferState` is still there, with vectors that are as large as before, and requests are
not forgotten. -/
def Kept (stored stored' : List Stored) : Prop :=
  ∀ (found : ℕ) (st : Stored), stored[found]? = some st → ∃ st' : Stored,
    stored'[found]? = some st' ∧ Grows st.state st'.state ∧ (st.requested = true → st'.requested = true)

/-- What a thread can rely on, before and after it has found its `TransferState`. -/
def DownloadThread.Fits (stored : List Stored) (t : DownloadThread) : Prop :=
  match t.found with
  | none => t.sender.chunksThisRound = 0 ∧ t.sender.point.inRound = false
  | some found => ∃ st, stored[found]? = some st ∧ Sized t.sender st.state

theorem DownloadThread.Fits.keep {stored stored' : List Stored} {t : DownloadThread}
    (h : t.Fits stored) (hkept : Kept stored stored') : t.Fits stored' := by
  unfold DownloadThread.Fits at h ⊢
  split at h
  · exact h
  · rename_i found hfound
    obtain ⟨st, hst, hsized⟩ := h
    obtain ⟨st', hst', hgrows, -⟩ := hkept found st hst
    exact ⟨st', hst', hsized.grow hgrows⟩

theorem kept_append (stored more : List Stored) : Kept stored (stored ++ more) := by
  intro found st hst
  refine ⟨st, ?_, ⟨fun h => h, fun h => h⟩, fun h => h⟩
  rw [List.getElem?_append_left (List.getElem?_eq_some_iff.mp hst).1]
  exact hst

theorem kept_set {stored : List Stored} {found : ℕ} {st st' : Stored} (hst : stored[found]? = some st)
    (hgrows : Grows st.state st'.state) (hrequested : st.requested = true → st'.requested = true) :
    Kept stored (stored.set found st') := by
  intro k st₁ hst₁
  by_cases hk : found = k
  · subst hk
    rw [hst] at hst₁
    cases hst₁
    exact ⟨st', List.getElem?_set_self (List.getElem?_eq_some_iff.mp hst).1, hgrows, hrequested⟩
  · exact ⟨st₁, by rw [List.getElem?_set_ne hk, hst₁], ⟨fun h => h, fun h => h⟩, fun h => h⟩

namespace TransferManager

variable {host : Host} {reads : Key → Bool} {hw : Bool} {s s' : TransferManager}

/-- The size of `roundOffsets` says if a download was requested. -/
def OffsetsFit (st : Stored) : Prop :=
  st.state.roundOffsets.length = if st.requested then maxChunksPerRound else 0

/-- **What holds of the vectors.** -/
structure Inv (s : TransferManager) : Prop where
  uploads : s.uploads.AllSlots
  stored : ∀ st ∈ s.stored, OffsetsFit st
  completed : ∀ c ∈ s.completedUpload, c.2 < s.stored.length
  downloadable : ∀ upId, ∀ found ∈ s.downloadableFiles upId, found < s.stored.length
  threads : ∀ t ∈ s.threads, t.Fits s.stored

theorem inv_start (files : Key → List UInt8) : (start files).Inv where
  uploads := UploadServer.allSlots_start files
  stored := by simp [start]
  completed := by simp [start]
  downloadable := by simp [start]
  threads := by simp [start]

theorem OffsetsFit.size {st : Stored} (h : OffsetsFit st) :
    st.state.roundOffsets.length = maxChunksPerRound ∨ st.state.roundOffsets.length = 0 := by
  unfold OffsetsFit at h
  split at h
  · exact .inl h
  · exact .inr h

theorem OffsetsFit.requested_iff {st : Stored} (h : OffsetsFit st) :
    st.state.roundOffsets.length = maxChunksPerRound ↔ st.requested = true := by
  unfold OffsetsFit at h
  split at h
  · rename_i hrequested
    simp [h, hrequested]
  · rename_i hrequested
    simp [h, hrequested, maxChunksPerRound]

/-- **Which steps are in range.** -/
theorem Inv.inRange_iff (h : s.Inv) (a : ManagerAction) : s.InRange reads hw a ↔ s.Safe reads a := by
  cases a with
  | upload id p finalCrc =>
    simp only [InRange, accesses]
    cases htransfer : s.uploads.transfers id.key with
    | none => cases p <;> simp [Safe, htransfer, allInRange_nil]
    | some t =>
      cases p with
      | fileStart senderId receiverId totalSize name time =>
        simp [Safe, UploadPacket.accesses, allInRange_nil]
      | fileChunk byteOffset crc data =>
        simp [Safe, UploadPacket.accesses, Incoming.allInRange_chunkAccesses]
      | roundEnd roundId chunkCount =>
        simp [Safe, UploadPacket.accesses, Incoming.allInRange_roundAccesses_iff, htransfer,
          h.uploads id.key t htransfer]
      | fileEnd => simp [Safe, UploadPacket.accesses, allInRange_nil]
  | work i =>
    simp only [InRange, accesses, Safe]
    cases hthread : s.threads[i]? with
    | none => simp [allInRange_nil]
    | some t =>
      have hfits := h.threads t (List.mem_of_getElem? hthread)
      cases hfound : t.found with
      | none => simp [hfound, allInRange_nil]
      | some found =>
        simp only [DownloadThread.Fits, hfound] at hfits
        obtain ⟨st, hst, hsized⟩ := hfits
        have hstored := h.stored st (List.mem_of_getElem? hst)
        simp [hfound, hst, hsized.inRange_iff hstored.size, hstored.requested_iff]
  | announce | request | timeout | ack => simp [InRange, accesses, Safe, allInRange_nil]

theorem Inv.setThread (h : s.Inv) (i : ℕ) {t : DownloadThread} (ht : t.Fits s.stored) :
    (s.setThread i t).Inv := by
  refine { h with threads := ?_ }
  intro t' ht'
  rcases List.mem_or_eq_of_mem_set ht' with hmem | rfl
  · exact h.threads t' hmem
  · exact ht

/-- One `TransferState` changes. -/
theorem Inv.setStored (h : s.Inv) {found : ℕ} {st : Stored} (st' : Stored)
    (hst : s.stored[found]? = some st) (hgrows : Grows st.state st'.state)
    (hrequested : st.requested = true → st'.requested = true) (hfit : OffsetsFit st') :
    { s with stored := s.stored.set found st' }.Inv where
  uploads := h.uploads
  stored := by
    intro st₁ hst₁
    rcases List.mem_or_eq_of_mem_set hst₁ with hmem | rfl
    · exact h.stored st₁ hmem
    · exact hfit
  completed := by simpa using h.completed
  downloadable := by simpa using h.downloadable
  threads := fun t ht => (h.threads t ht).keep (kept_set hst hgrows hrequested)

theorem Inv.store (h : s.Inv) (id : UploadId) (t : Transfer) (finalCrc : UInt32) :
    (s.store id t finalCrc).Inv where
  uploads := h.uploads
  stored := by
    intro st hst
    rcases List.mem_append.mp hst with hmem | hnew
    · exact h.stored st hmem
    · rw [List.mem_singleton.mp hnew]
      rfl
  completed := by
    intro c hc
    rw [TransferManager.store, List.length_append]
    rcases List.mem_append.mp hc with hmem | hnew
    · exact Nat.lt_add_right _ (h.completed c hmem)
    · rw [List.mem_singleton.mp hnew]
      simp
  downloadable := by
    intro upId found hfound
    rw [TransferManager.store, List.length_append]
    exact Nat.lt_add_right _ (h.downloadable upId found hfound)
  threads := fun t ht => (h.threads t ht).keep (kept_append _ _)

theorem Inv.work (h : s.Inv) {i : ℕ} {t : DownloadThread} (ht : s.threads[i]? = some t)
    (hstep : s.work reads i t = some s') : s'.Inv := by
  have hfits := h.threads t (List.mem_of_getElem? ht)
  unfold TransferManager.work at hstep
  unfold DownloadThread.Fits at hfits
  split at hstep
  · rename_i hfound
    rw [hfound] at hfits
    split at hstep
    · cases hstep
    · split at hstep
      · cases hstep
        refine h.setThread i ?_
        simp only [DownloadThread.Fits, hfound]
        exact ⟨hfits.1, rfl⟩
      · rename_i found hlookup
        cases hstep
        exact h.setThread i ⟨_, List.getElem?_eq_getElem (h.downloadable _ found hlookup),
          sized_of_fresh hfits.1 hfits.2 _⟩
  · rename_i found hfound
    rw [hfound] at hfits
    obtain ⟨st, hst, hsized⟩ := hfits
    rw [hst] at hstep
    obtain ⟨⟨state', t'⟩, hwork, rfl⟩ := Option.map_eq_some_iff.mp hstep
    have hstored := h.stored st (List.mem_of_getElem? hst)
    have hfit : OffsetsFit { st with state := state' } := (length_offsets_work hwork).trans hstored
    have hset := h.setStored { st with state := state' } hst (grows_work hwork) (fun h => h) hfit
    refine hset.setThread i ?_
    simp only [DownloadThread.Fits, hfound]
    exact ⟨_, List.getElem?_set_self (List.getElem?_eq_some_iff.mp hst).1, hsized.work hstored.size hwork⟩

/-- An answer is recorded, and the threads that were reading `missingChunks` are lost. -/
theorem Inv.ack (h : s.Inv) {found : ℕ} {st : Stored} (hst : s.stored[found]? = some st)
    (ack : FileAck) : Inv { s with
      stored := s.stored.set found
        { st with state := { st.state with acks := st.state.acks.onAckReceived ack } }
      threads := s.threads.map fun t =>
        if t.found = some found then { t with sender := t.sender.invalidate } else t } := by
  have hset := h.setStored
    { st with state := { st.state with acks := st.state.acks.onAckReceived ack } } hst
    ⟨fun hsize => hsize, fun hsize => hsize⟩ (fun h => h) (h.stored st (List.mem_of_getElem? hst))
  refine { hset with threads := ?_ }
  intro t ht
  obtain ⟨t₀, ht₀, rfl⟩ := List.mem_map.mp ht
  have hfits := hset.threads t₀ ht₀
  split
  · rename_i hsame
    simp only [DownloadThread.Fits, hsame] at hfits ⊢
    obtain ⟨st', hst', hsized⟩ := hfits
    exact ⟨st', hst', hsized.invalidate⟩
  · exact hfits

theorem Inv.step (h : s.Inv) {a : ManagerAction}
    (hstep : s.step host reads hw a = some s') : s'.Inv := by
  cases a with
  | upload id p finalCrc =>
    obtain ⟨uploads, huploads, rfl⟩ := Option.map_eq_some_iff.mp hstep
    split
    · exact { h with uploads := h.uploads.step huploads }
    · rename_i t ht
      exact { h.store id t finalCrc with uploads := h.uploads.step huploads }
  | announce =>
    simp only [TransferManager.step] at hstep
    split at hstep
    · cases hstep
    · rename_i upId found rest hcompleted
      cases hstep
      have hfound : found < s.stored.length := h.completed (upId, found) (by simp [hcompleted])
      refine { h with completed := ?_, downloadable := ?_ }
      · intro c hc
        exact h.completed c (by simp [hcompleted, hc])
      · intro upId' found' hfound'
        by_cases hkey : upId' = upId
        · subst hkey
          obtain rfl : found = found' := by simpa using hfound'
          exact hfound
        · exact h.downloadable upId' found' (by simpa [hkey] using hfound')
  | request id startBytes =>
    simp only [TransferManager.step] at hstep
    split at hstep
    · cases hstep
      exact h
    · rename_i found hfound
      obtain ⟨st, hst, rfl⟩ := Option.map_eq_some_iff.mp hstep
      have hset := h.setStored st.request hst (grows_request st) (fun _ => rfl)
        (Downloads.length_resize ..)
      refine { hset with threads := ?_ }
      intro t ht
      rcases List.mem_append.mp ht with hmem | hnew
      · exact hset.threads t hmem
      · rw [List.mem_singleton.mp hnew]
        exact ⟨rfl, rfl⟩
  | work i =>
    obtain ⟨t, ht, hwork⟩ := Option.bind_eq_some_iff.mp hstep
    exact h.work ht hwork
  | timeout i =>
    obtain ⟨t, ht, hrest⟩ := Option.bind_eq_some_iff.mp hstep
    obtain ⟨found, hfound, hrest⟩ := Option.bind_eq_some_iff.mp hrest
    obtain ⟨st, hst, hrest⟩ := Option.bind_eq_some_iff.mp hrest
    split at hrest
    · cases hrest
      have hfits := h.threads t (List.mem_of_getElem? ht)
      simp only [DownloadThread.Fits, hfound] at hfits
      obtain ⟨st', hst', hsized⟩ := hfits
      refine h.setThread i ?_
      simp only [DownloadThread.Fits, hfound]
      exact ⟨st', hst', hsized.stop⟩
    · cases hrest
  | ack id ack =>
    simp only [TransferManager.step] at hstep
    split at hstep
    · cases hstep
      exact h
    · rename_i found hfound
      obtain ⟨st, hst, rfl⟩ := Option.map_eq_some_iff.mp hstep
      split
      · exact h
      · exact h.ack hst ack

/-- **A packet of an upload has a result** if and only if its accesses are in range, and
`cleanupTransfer` gets past its iterator. -/
theorem isSome_upload_iff {id : UploadId} {p : UploadPacket} {finalCrc : UInt32} :
    (s.step host reads hw (.upload id p finalCrc)).isSome ↔
      s.InRange reads hw (.upload id p finalCrc) ∧
        (p = .fileEnd → UploadServer.Proper host s.uploads (id, .fileEnd)) := by
  rw [step, Option.isSome_map, UploadServer.isSome_step_iff, InRange, accesses]
  cases htransfer : s.uploads.transfers id.key with
  | none => cases p <;> simp [UploadServer.Proper, htransfer, allInRange_nil]
  | some t =>
    cases p <;> simp [UploadServer.Proper, UploadPacket.accesses, htransfer, allInRange_nil,
      Incoming.allInRange_chunkAccesses, Incoming.allInRange_roundAccesses_iff]

/-- **A step of a thread that has found its `TransferState`.** -/
theorem isSome_step_work_iff {i found : ℕ} {t : DownloadThread} {st : Stored}
    (hthread : s.threads[i]? = some t) (hfound : t.found = some found)
    (hst : s.stored[found]? = some st) :
    (s.step host reads hw (.work i)).isSome ↔
      t.sender.Runs st.state ∧ s.InRange reads hw (.work i) := by
  simp [step, TransferManager.work, InRange, accesses, hthread, hfound, hst, isSome_work_iff]

end TransferManager

namespace ClientDownloads

variable {hw : Bool} {s : ClientDownloads}

theorem AllSlots.inRange_iff (h : s.AllSlots) (a : UploadId × DownloadPacket) :
    s.InRange hw a ↔ s.Safe a := by
  obtain ⟨id, p⟩ := a
  simp only [InRange, accesses]
  cases hdownload : s.activeDownloads id.key with
  | none => cases p <;> simp [Safe, hdownload, allInRange_nil]
  | some d =>
    cases p with
    | fileChunk byteOffset crc data =>
      simp [Safe, DownloadPacket.accesses, Incoming.allInRange_chunkAccesses]
    | roundEnd roundId chunkCount =>
      simp [Safe, DownloadPacket.accesses, Incoming.allInRange_roundAccesses_iff, hdownload,
        h id.key d hdownload]
    | _ => simp [Safe, DownloadPacket.accesses, allInRange_nil]

/-- **A packet of a download has a result** if and only if its accesses are in range. -/
theorem isSome_step_iff {host : Host} {reads : Key → Bool} {a : UploadId × DownloadPacket} :
    (s.step host reads hw a).isSome ↔ s.InRange hw a := by
  obtain ⟨id, p⟩ := a
  simp only [InRange, accesses]
  cases hdownload : s.activeDownloads id.key with
  | none => cases p <;> simp [step, hdownload, allInRange_nil]
  | some d =>
    cases p with
    | roundEnd roundId chunkCount =>
      by_cases hout : roundId = d.state.currentRound ∧ d.state.roundBuffer.length < chunkCount
      · simp [step, DownloadPacket.accesses, Incoming.allInRange_roundAccesses_iff, hdownload, hout]
      · simp [step, hdownload, DownloadPacket.accesses, if_neg hout, Option.elim_some,
        Incoming.allInRange_roundAccesses_iff]
        simpa using hout
    | _ =>
      simp [step, hdownload, DownloadPacket.accesses, allInRange_nil,
        Incoming.allInRange_chunkAccesses]

end ClientDownloads

namespace ClientUpload

variable {u : StoredFile} {s s' : ClientUpload}

/-- The vectors have all their elements. -/
structure Inv (s : ClientUpload) : Prop where
  offsets : s.state.roundOffsets.length = maxChunksPerRound
  worker : Sized s.worker s.state

theorem inv_start (startBytes : ℕ) : (start startBytes).Inv where
  offsets := List.length_replicate
  worker := sized_of_fresh rfl rfl _

theorem Inv.work (h : s.Inv) (hstep : s.work u = some s') : s'.Inv := by
  unfold ClientUpload.work at hstep
  split at hstep
  · cases hstep
    refine ⟨h.offsets, h.worker.goto ?_⟩
    split <;> simp [SenderPoint.inRound]
  · rename_i hpoint
    split at hstep
    · cases hstep
      exact ⟨h.offsets, h.worker.chunks, h.worker.offsets, by simp [Sender.goto, SenderPoint.inRound]⟩
    · cases hstep
      exact ⟨h.offsets, h.worker.goto fun _ => by rw [hpoint]; rfl⟩
  · obtain ⟨⟨state', t'⟩, hwork, rfl⟩ := Option.map_eq_some_iff.mp hstep
    exact ⟨(length_offsets_work hwork).trans h.offsets, h.worker.work (.inl h.offsets) hwork⟩

theorem Inv.step (h : s.Inv) {a : ClientUploadAction} (hstep : s.step u a = some s') : s'.Inv := by
  cases a with
  | work => exact h.work hstep
  | timeout =>
    simp only [ClientUpload.step] at hstep
    split at hstep
    · cases hstep
      exact ⟨h.offsets, h.worker.stop⟩
    · cases hstep
  | ack ack =>
    simp only [ClientUpload.step] at hstep
    split at hstep
    · cases hstep
      exact h
    · cases hstep
      exact ⟨h.offsets, h.worker.invalidate.grow ⟨fun hsize => hsize, fun hsize => hsize⟩⟩

/-- **A step of the worker has a result** if and only if it runs and its accesses are in range. -/
theorem isSome_step_work_iff :
    (s.step u .work).isSome ↔ s.worker.Runs s.state ∧ s.InRange u .work := by
  simp only [step, ClientUpload.work, InRange, accesses]
  split
  · rename_i hpoint
    simp [Sender.Runs, Sender.accesses, hpoint, allInRange_nil]
  · rename_i hpoint
    split <;> simp [Sender.Runs, Sender.accesses, hpoint, allInRange_nil]
  · rw [Option.isSome_map, isSome_work_iff]

theorem Inv.inRange (h : s.Inv) (a : ClientUploadAction) : s.InRange u a := by
  cases a with
  | work => exact (h.worker.inRange_iff (.inl h.offsets)).mpr fun _ _ => h.offsets
  | timeout | ack => exact allInRange_nil

end ClientUpload

/-- **Which accesses are in range.**  At the server they are if and only if the steps are safe, and so
are those of a download at the client.  Those of an upload at the client always are. -/
theorem inRange_iff_safe (host : Host) (reads : Key → Bool) (hw : Bool) (files : Key → List UInt8)
    (actions : List ManagerAction) (packets : List (UploadId × DownloadPacket)) (u : StoredFile)
    (startBytes : ℕ) (uploadActions : List ClientUploadAction) :
    (Meets (TransferManager.step host reads hw) (TransferManager.InRange reads hw) (.start files)
        actions ↔
      Meets (TransferManager.step host reads hw) (TransferManager.Safe reads) (.start files) actions) ∧
    (Meets (ClientDownloads.step host reads hw) (ClientDownloads.InRange hw) (.start files) packets ↔
      Meets (ClientDownloads.step host reads hw) ClientDownloads.Safe (.start files) packets) ∧
    Meets (ClientUpload.step u) (ClientUpload.InRange u) (.start startBytes) uploadActions := by
  refine ⟨?_, ?_, ?_⟩
  · exact meets_congr TransferManager.Inv (TransferManager.inv_start files)
      (fun _ a h => h.inRange_iff a) fun _ _ _ h _ hstep => h.step hstep
  · exact meets_congr ClientDownloads.AllSlots (by rintro key d ⟨⟩)
      (fun _ a h => h.inRange_iff a) fun _ _ _ h _ hstep => h.step hstep
  · have hall : Meets (ClientUpload.step u) (fun _ _ => True) (.start startBytes) uploadActions :=
      meets_of_forall fun _ _ _ => trivial
    exact hall.imp ClientUpload.Inv (ClientUpload.inv_start startBytes)
      (fun _ a h _ => h.inRange a) fun _ _ _ h _ hstep => h.step hstep

/-- A file with one byte is uploaded. -/
def sampleUpload : List ManagerAction :=
  [.upload sampleUploadId (.fileStart (text "s") (text "r") 1 (text "a") (text "0")) 0,
    .upload sampleUploadId (.fileChunk 0 (CRC32C.compute false [7] 0) [7]) 0,
    .upload sampleUploadId (.roundEnd 0 1) 0, .upload sampleUploadId .fileEnd 0]

/-- The same file is uploaded once more; the server has it already. -/
def sampleReupload : List ManagerAction :=
  [.upload sampleUploadId (.fileStart (text "s") (text "r") 1 (text "a") (text "0")) 0,
    .upload sampleUploadId .fileEnd 0]

/-- A `ROUND_END` counts one chunk more than there are slots.  And a file is uploaded again while a
download of it begins: its thread finds vectors without elements. -/
theorem not_inRange_samples :
    ¬ Meets (TransferManager.step plainHost (fun _ => true) false)
        (TransferManager.InRange (fun _ => true) false) (.start fun _ => [])
        [.upload sampleUploadId (.fileStart (text "s") (text "r") 1 (text "a") (text "0")) 0,
          .upload sampleUploadId (.roundEnd 0 1025) 0] ∧
    ¬ Meets (TransferManager.step plainHost (fun _ => true) false)
        (TransferManager.InRange (fun _ => true) false) (.start fun _ => [])
        (sampleUpload ++ [.announce, .request sampleUploadId 0] ++ sampleReupload ++
          [.announce, .work 0, .work 0, .work 0, .work 0]) := by
  constructor <;> decide +kernel

end FileTransfer

end IocpChat

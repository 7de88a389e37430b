import IocpChat.FileTransfer.ClientDownloads
import IocpChat.FileTransfer.SenderRounds

/-!
# A download from the request to the report

A client asks for a stored file, and gets it packet by packet.  `downloadFile` asks for the file from
its beginning, whatever the client has of it.  `handleFileStart` finds what there is, and appends the
chunks to it.  So a client that has downloaded some of the file gets all of it once more.

Nothing is lost here, and all that is sent arrives in the order in which it was sent; the thread of
the server gives up when nothing is on its way any more.  Otherwise the thread, the client and the
handler of its answers take their steps in any order.

## Main definitions

* `Request` — what is asked for, and by whom.
* `Fetch`, `Fetch.step` — a download in progress, at both ends.
* `Fetch.Complete` — the client has the file, and says so.
-/

namespace IocpChat

open Transition Pieces

namespace FileTransfer

/-! ## The code -/

/-- A stored file, and the client that asks for it.  `FILE_START` arrives at the time. -/
structure Request where
  host : Host
  reads : Key → Bool
  hw : Bool
  id : UploadId
  name : Key
  time : Key
  file : List UInt8
  finalCrc : UInt32

namespace Request

variable (r : Request)

def stored : StoredFile := ⟨some r.file, r.file.length, r.finalCrc⟩

/-- The name of the file at the client. -/
def fileName : Key := r.host.sanitize r.time r.name

def target : Key := r.host.file (downloadPath r.fileName)

/-- What `downloadFile` asks the server to start from. -/
def bytesRequested : ℕ := 0

/-- What arrives at the client, if it is a packet that a download is about. -/
def packet : Sent → Option DownloadPacket
  | .fileStart => some (.fileStart r.file.length r.name r.time)
  | .fileChunk offset data => some (.fileChunk offset (CRC32C.compute r.hw data 0) data)
  | .roundEnd currentRound chunksThisRound => some (.roundEnd currentRound chunksThisRound)
  | .fileEnd finalCrc => some (.fileEnd finalCrc)
  | .roundDone _ | .error _ => none

/-- Something arrives at the client. -/
def hear (c : ClientDownloads) (p : Sent) : Option ClientDownloads :=
  match r.packet p with
  | none => some c
  | some p => c.step r.host r.reads r.hw (r.id, p)

end Request

/-- The answers that `sendRoundAck` can send. -/
def acks (answers : List (UploadId × DownloadAnswer)) : List FileAck :=
  answers.filterMap fun a =>
    match a.2 with
    | .ack roundId missing => if FileAck.Fits ⟨roundId, missing⟩ then some ⟨roundId, missing⟩ else none
    | .finished .. => none

inductive FetchAction
  /-- `HandleDownloadRequest`. -/
  | request
  | work
  | timeout
  /-- The next packet arrives at the client. -/
  | deliver
  /-- The next answer arrives at the server. -/
  | deliverAck
  deriving DecidableEq

/-- A download.  It counts what has arrived of the packets, and of the answers. -/
structure Fetch where
  server : Downloads Unit
  client : ClientDownloads
  requested : Bool
  arrived : ℕ
  acked : ℕ
  /-- An answer came before the thread cleared `ackReceived`. -/
  overtaken : Bool

namespace Fetch

variable (r : Request)

def thread (s : Fetch) : Sender := s.server.threads ()

/-- The server keeps the `TransferState` from one download to the next. -/
def start (state : TransferState) (files : Key → List UInt8) : Fetch :=
  ⟨⟨state, fun _ => .idle⟩, .start files, false, 0, 0, false⟩

def step (s : Fetch) : FetchAction → Option Fetch
  | .request =>
    if s.requested then none
    else
      (Downloads.step r.stored s.server ((), .request Request.bytesRequested)).map fun server =>
        { s with server, requested := true }
  | .work =>
    (Downloads.step r.stored s.server ((), .work)).map fun server =>
      { s with
        server
        overtaken := s.overtaken || decide (s.thread.point = .clearAck ∧ 0 < s.acked) }
  | .timeout =>
    if s.arrived = s.thread.sent.length ∧ s.acked = (acks s.client.answers).length then
      (Downloads.step r.stored s.server ((), .timeout)).map fun server => { s with server }
    else none
  | .deliver =>
    s.thread.sent[s.arrived]?.bind fun p =>
      (r.hear s.client p).map fun client => { s with client, arrived := s.arrived + 1 }
  | .deliverAck =>
    (acks s.client.answers)[s.acked]?.bind fun ack =>
      (Downloads.step r.stored s.server ((), .ack ack)).map fun server =>
        { s with server, acked := s.acked + 1 }

def Finished (s : Fetch) : Prop := ∀ a, s.step r a = none

instance (s : Fetch) : Decidable (s.Finished r) :=
  decidable_of_iff (∀ a ∈ ([.request, .work, .timeout, .deliver, .deliverAck] : List FetchAction),
      s.step r a = none)
    ⟨fun h a => h a (by cases a <;> simp), fun h a _ => h a⟩

/-- **The client has the file**, and has reported a success. -/
def Complete (s : Fetch) : Prop :=
  (r.id, .finished r.fileName true) ∈ s.client.answers ∧ s.client.files r.target = r.file

end Fetch

/-! ## What the client hears -/

namespace Request

variable {r : Request} {files : Key → List UInt8} {answers : List (UploadId × DownloadAnswer)}
  {st : Incoming}

/-- A client with this download only. -/
def downloading (r : Request) (files : Key → List UInt8)
    (answers : List (UploadId × DownloadAnswer)) (st : Incoming) : ClientDownloads :=
  ⟨Function.update (fun _ => none) r.id.key (some ⟨r.fileName, some r.target, st⟩), files, answers⟩

theorem hear_fileStart (hopens : r.host.opens (downloadPath r.fileName) = true) :
    r.hear (.start files) .fileStart =
      some (r.downloading files [] (.start r.file.length (files r.target))) := by
  simp only [fileName] at hopens
  simp [hear, packet, ClientDownloads.step, ClientDownloads.handleFileStart, ClientDownloads.start,
    downloading, fileName, target, hopens]

theorem hear_fileChunk (c : Chunk) :
    r.hear (r.downloading files answers st) (.fileChunk c.offset c.data) =
      some (r.downloading files answers
        (st.handleFileChunk r.hw c.offset (CRC32C.compute r.hw c.data 0) c.data)) := by
  simp [hear, packet, ClientDownloads.step, downloading]

theorem run_hear_chunks (chunks : List Chunk) :
    Transition.run r.hear (r.downloading files answers st)
        (chunks.map fun c => .fileChunk c.offset c.data) =
      some (r.downloading files answers (st.receiveAll r.hw chunks)) := by
  induction chunks generalizing st with
  | nil => rfl
  | cons c chunks ih =>
    rw [List.map_cons, run_cons (hear_fileChunk c), ih]
    rfl

theorem hear_roundEnd (hfile : st.fileStream = files r.target) {round count : ℕ}
    (hcount : count ≤ st.roundBuffer.length) {st' : Incoming} {ack : ℕ × List ℕ}
    (hend : st.handleRoundEnd round count = (st', ack)) :
    r.hear (r.downloading files answers st) (.roundEnd round count) =
      some (r.downloading (Function.update files r.target st'.fileStream)
        (answers ++ [(r.id, .ack ack.1 ack.2)]) st') := by
  have hst : { st with fileStream := files r.target } = st := by
    rw [← hfile]
  simp [hear, packet, ClientDownloads.step, ClientDownloads.handleRoundEnd, downloading,
    Nat.not_lt.mpr hcount, hst, hend]

/-- What the client reports at the end. -/
def report (r : Request) (files : Key → List UInt8) (st : Incoming) : Bool :=
  (r.downloading files [] st).success r.host r.reads r.hw ⟨r.fileName, some r.target, st⟩ r.finalCrc

theorem run_hear_fileEnd :
    Transition.run r.hear (r.downloading files answers st) [.fileEnd r.finalCrc] =
      some ⟨fun _ => none, files,
        answers ++ [(r.id, .finished r.fileName (r.report files st))]⟩ := by
  simp [Transition.run, hear, packet, ClientDownloads.step, downloading, report]
  rfl

theorem run_hear_ending :
    Transition.run r.hear (r.downloading files answers st) [.roundDone 0, .fileEnd r.finalCrc] =
      some ⟨fun _ => none, files,
        answers ++ [(r.id, .finished r.fileName (r.report files st))]⟩ :=
  run_hear_fileEnd

theorem acks_hear {c c' : ClientDownloads} {p : Sent} (hp : ∀ round count, p ≠ .roundEnd round count)
    (h : r.hear c p = some c') : acks c'.answers = acks c.answers := by
  cases p with
  | roundEnd round count => exact absurd rfl (hp round count)
  | fileEnd finalCrc =>
    simp only [hear, packet, ClientDownloads.step] at h
    split at h
    · cases h
      rfl
    · cases h
      simp [acks]
  | _ =>
    cases h
    rfl

theorem acks_run_hear {c c' : ClientDownloads} {ps : List Sent}
    (hps : ∀ p ∈ ps, ∀ round count, p ≠ .roundEnd round count)
    (h : Transition.run r.hear c ps = some c') : acks c'.answers = acks c.answers := by
  induction ps generalizing c with
  | nil =>
    cases h
    rfl
  | cons p ps ih =>
    obtain ⟨c₁, hhear, hrun⟩ := exists_of_run h
    rw [ih (fun q hq => hps q (List.mem_cons_of_mem p hq)) hrun,
      acks_hear (hps p List.mem_cons_self) hhear]

/-! ## The only round -/

/-- The chunks of the file, which is sent in one round. -/
def chunks (r : Request) : List Chunk := roundChunks r.file 0

/-- What is sent before the end of the round, up to a chunk. -/
def begun (r : Request) (i : ℕ) : List Sent :=
  .fileStart :: (r.chunks.take i).map fun c => .fileChunk c.offset c.data

/-- What is sent up to the end of the round. -/
def asked (r : Request) : List Sent := r.begun r.chunks.length ++ [.roundEnd 0 r.chunks.length]

theorem ne_roundEnd_of_mem_begun {i : ℕ} {p : Sent} (h : p ∈ r.begun i) (round count : ℕ) :
    p ≠ .roundEnd round count := by
  rcases List.mem_cons.mp h with rfl | h
  · exact Sent.noConfusion
  · obtain ⟨c, -, rfl⟩ := List.mem_map.mp h
    exact Sent.noConfusion

theorem length_asked (r : Request) : r.asked.length = r.chunks.length + 2 := by
  simp [asked, begun]

theorem heard_begun (hopens : r.host.opens (downloadPath r.fileName) = true) (i : ℕ) :
    Transition.run r.hear (.start files) (r.begun i) =
      some (r.downloading files []
        ((Incoming.start r.file.length (files r.target)).receiveAll r.hw (r.chunks.take i))) := by
  rw [begun, run_cons (hear_fileStart hopens), run_hear_chunks]

theorem length_chunks_le (r : Request) : r.chunks.length ≤ maxChunksPerRound := by
  by_contra h
  have hlt : maxChunksPerRound < (roundChunks r.file 0).length := Nat.lt_of_not_le h
  exact absurd (lt_length_roundChunks.mp hlt).1 (Nat.lt_irrefl _)

/-- A client that had some bytes, when all chunks have arrived. -/
def received (r : Request) (prior : List UInt8) : Incoming :=
  (Incoming.start r.file.length prior).receiveAll r.hw r.chunks

theorem length_received (r : Request) (prior : List UInt8) :
    (r.received prior).roundBuffer.length = maxChunksPerRound :=
  (Incoming.length_receiveAll ..).trans List.length_replicate

/-- **The client at the end of the round.**  It answers that nothing is missing.  If it is in the
first round it appends the file to what it had. -/
theorem handleRoundEnd_received (prior : List UInt8) (hlt : 0 < r.file.length)
    (hone : r.file.length ≤ roundSize) :
    ∃ st', (r.received prior).handleRoundEnd 0 r.chunks.length =
        (st', prior.length / roundSize, []) ∧
      st'.totalSize = r.file.length ∧
      (prior.length / roundSize = 0 → st'.fileStream = prior ++ r.file ∧
        st'.receivedOffset = prior.length + r.file.length) := by
  obtain ⟨htotal, hoffset, hround, hfile⟩ :=
    Incoming.receiveAll_frame r.hw (.start r.file.length prior) r.chunks
  change (r.received prior).currentRound = prior.length / roundSize at hround
  by_cases hzero : prior.length / roundSize = 0
  · have hmissing : missing (r.received prior).roundBuffer r.chunks.length = [] :=
      (missing_roundChunks_eq_nil_iff rfl hlt).mpr (.inl rfl)
    have hagree : Agree r.hw r.chunks := agree_of_aligned r.hw rfl
    have hflatten : (r.received prior).roundBuffer.flatten = r.file := by
      refine (hagree.ordered _ rfl).trans ?_
      rw [chunks, data_roundChunks, List.drop_zero, List.take_of_length_le hone]
    rw [hzero] at hround
    rw [Incoming.handleRoundEnd, if_neg (by simp [hround]), if_pos hmissing, hzero]
    refine ⟨_, rfl, ?_, fun _ => ⟨?_, ?_⟩⟩
    · simp only [Incoming.writeRoundToDisk_eq]
      exact htotal
    · simp only [Incoming.writeRoundToDisk_eq, hflatten]
      exact congrArg (· ++ r.file) hfile
    · simp only [Incoming.writeRoundToDisk_eq, hflatten]
      exact congrArg (· + r.file.length) hoffset
  · rw [Incoming.handleRoundEnd, if_pos (by rw [hround]; exact Ne.symm hzero), hround]
    exact ⟨_, rfl, htotal, fun h => absurd h hzero⟩

variable (files) in
/-- **The client has heard of the end of the round.** -/
theorem heard_asked (hopens : r.host.opens (downloadPath r.fileName) = true) (hlt : 0 < r.file.length)
    (hone : r.file.length ≤ roundSize) :
    ∃ files' st', Transition.run r.hear (.start files) r.asked = some (r.downloading files'
        [(r.id, .ack ((files r.target).length / roundSize) [])] st') ∧
      st'.totalSize = r.file.length ∧
      ((files r.target).length / roundSize = 0 → files' r.target = files r.target ++ r.file ∧
        st'.receivedOffset = (files r.target).length + r.file.length) := by
  obtain ⟨st', hend, htotal, hwritten⟩ := handleRoundEnd_received (files r.target) hlt hone
  have hfile : (r.received (files r.target)).fileStream = files r.target :=
    (Incoming.receiveAll_frame ..).2.2.2
  have hcount : r.chunks.length ≤ (r.received (files r.target)).roundBuffer.length :=
    r.length_received _ ▸ r.length_chunks_le
  refine ⟨Function.update files r.target st'.fileStream, st', ?_, htotal, ?_⟩
  · rw [asked, run_append, heard_begun hopens, List.take_length]
    exact run_cons (hear_roundEnd hfile hcount hend)
  · rw [Function.update_self]
    exact hwritten

/-- What the server can get as answers, when so much has arrived at the client. -/
theorem acks_heard (hopens : r.host.opens (downloadPath r.fileName) = true) (hlt : 0 < r.file.length)
    (hone : r.file.length ≤ roundSize) {rest : List Sent}
    (hrest : ∀ p ∈ rest, ∀ round count, p ≠ .roundEnd round count) {k : ℕ} {c : ClientDownloads}
    (h : Transition.run r.hear (.start files) ((r.asked ++ rest).take k) = some c) :
    acks c.answers = if k < r.asked.length then [] else
      [⟨(files r.target).length / roundSize, []⟩] := by
  split
  · rename_i hk
    have hbegun : (r.asked ++ rest).take k = (r.begun r.chunks.length).take k := by
      rw [List.take_append_of_le_length (Nat.le_of_lt hk), asked, List.take_append_of_le_length]
      simpa [length_asked, begun] using Nat.le_of_lt_succ hk
    rw [hbegun] at h
    exact acks_run_hear (fun p hp => ne_roundEnd_of_mem_begun (List.mem_of_mem_take hp)) h
  · rename_i hk
    obtain ⟨files', st', hasked, -, -⟩ := heard_asked files hopens hlt hone
    rw [List.take_append, List.take_of_length_le (Nat.le_of_not_lt hk), run_append, hasked] at h
    rw [acks_run_hear (fun p hp => hrest p (List.mem_of_mem_take hp)) h]
    have hfits : FileAck.Fits ⟨(files r.target).length / roundSize, []⟩ := by
      simp [FileAck.Fits]
      decide
    simp [acks, downloading, hfits]

end Request

/-! ## How far a download has come -/

section Stages

variable {r : Request} {t t' : Sender} {state state' : TransferState} {i : ℕ}

/-- The answer of a client in the first round has been taken. -/
structure Answered (round : ℕ) (acks : Outgoing) (acked : ℕ) (overtaken : Bool) : Prop where
  round : round = 0
  acked : acked = 1
  missing : acks.missingChunks = []
  kept : overtaken = false

/-- The thread waits for the answer: it has yet to come, or it is there, or it was thrown away. -/
inductive Waits (round : ℕ) (acks : Outgoing) (acked : ℕ) (overtaken : Bool) : Prop
  | pending (hacked : acked = 0) (hclear : acks.ackReceived = false) (hkept : overtaken = false)
  | there (hanswered : Answered round acks acked overtaken) (hset : acks.ackReceived = true)
  | thrown (hacked : acked = 1) (hclear : acks.ackReceived = false)
      (hwhy : overtaken = true ∨ round ≠ 0)

/-- **How far the thread has come**, and how many steps it has left at most.  The client is in the
given round. -/
inductive Stage (r : Request) (round : ℕ) (t : Sender) (state : TransferState) (acked : ℕ)
    (overtaken : Bool) : ℕ → Prop
  | opening (ht : t = ⟨.openFile, 0, 0, 0, r.begun 0⟩) (hholds : Holds r.file 0 state 0) (hacked : acked = 0)
      (hkept : overtaken = false) : Stage r round t state acked overtaken (2 * r.chunks.length + 10)
  | beginning (ht : t = ⟨.nextRound, 0, 0, 0, r.begun 0⟩) (hholds : Holds r.file 0 state 0)
      (hacked : acked = 0) (hkept : overtaken = false) :
      Stage r round t state acked overtaken (2 * r.chunks.length + 9)
  | filling (i : ℕ) (hi : i ≤ r.chunks.length) (hlt : 0 < r.file.length)
      (ht : t = .reading r.file 0 0 i (r.begun 0))
      (hholds : Holds r.file 0 state i) (hacked : acked = 0) (hkept : overtaken = false) :
      Stage r round t state acked overtaken (2 * r.chunks.length + 8 - i)
  | sending (i : ℕ) (hi : i ≤ r.chunks.length) (hlt : 0 < r.file.length)
      (ht : t = ⟨.sendChunk i, r.file.length, 0, r.chunks.length, r.begun i⟩)
      (hholds : Holds r.file 0 state r.chunks.length) (hacked : acked = 0) (hkept : overtaken = false) :
      Stage r round t state acked overtaken (r.chunks.length + 7 - i)
  | asking (hlt : 0 < r.file.length)
      (ht : t = ⟨.sendRoundEnd, r.file.length, 0, r.chunks.length, r.begun r.chunks.length⟩)
      (hacked : acked = 0) (hkept : overtaken = false) : Stage r round t state acked overtaken 6
  | clearing (hlt : 0 < r.file.length)
      (ht : t = ⟨.clearAck, r.file.length, 0, r.chunks.length, r.asked⟩) (hacked : acked ≤ 1)
      (hkept : overtaken = false) : Stage r round t state acked overtaken 5
  | waiting (hlt : 0 < r.file.length)
      (ht : t = ⟨.wait, r.file.length, 0, r.chunks.length, r.asked⟩)
      (hwaits : Waits round state.acks acked overtaken) : Stage r round t state acked overtaken 4
  | checking (hlt : 0 < r.file.length)
      (ht : t = ⟨.check, r.file.length, 0, r.chunks.length, r.asked⟩)
      (hanswered : Answered round state.acks acked overtaken) :
      Stage r round t state acked overtaken 3
  | next (hlt : 0 < r.file.length)
      (ht : t = ⟨.nextRound, r.file.length, 1, r.chunks.length, r.asked ++ [.roundDone 0]⟩)
      (hanswered : Answered round state.acks acked overtaken) :
      Stage r round t state acked overtaken 2
  | ending (hlt : 0 < r.file.length)
      (ht : t = ⟨.sendFileEnd, r.file.length, 1, r.chunks.length, r.asked ++ [.roundDone 0]⟩)
      (hanswered : Answered round state.acks acked overtaken) :
      Stage r round t state acked overtaken 1
  | ended (hlt : 0 < r.file.length)
      (ht : t = ⟨.stopped, r.file.length, 1, r.chunks.length,
        r.asked ++ [.roundDone 0, .fileEnd r.finalCrc]⟩)
      (hanswered : Answered round state.acks acked overtaken) :
      Stage r round t state acked overtaken 0
  | gaveUp (hlt : 0 < r.file.length)
      (ht : t = ⟨.stopped, r.file.length, 0, r.chunks.length, r.asked⟩) (hacked : acked = 1)
      (hwhy : overtaken = true ∨ round ≠ 0) : Stage r round t state acked overtaken 0
  | endingEmpty (hempty : r.file = []) (ht : t = ⟨.sendFileEnd, 0, 0, 0, r.begun 0⟩)
      (hacked : acked = 0) (hkept : overtaken = false) : Stage r round t state acked overtaken 1
  | endedEmpty (hempty : r.file = [])
      (ht : t = ⟨.stopped, 0, 0, 0, r.begun 0 ++ [.fileEnd r.finalCrc]⟩) (hacked : acked = 0)
      (hkept : overtaken = false) : Stage r round t state acked overtaken 0

theorem getElem?_chunks (hi : i < r.chunks.length) :
    r.chunks[i]? = some ⟨maxChunkSize * i, piece maxChunkSize r.file i⟩ := by
  have hlt := lt_length_roundChunks.mp hi
  rw [Request.chunks, getElem?_roundChunks, if_pos hlt, Nat.zero_add, List.drop_zero]

theorem begun_succ {c : Chunk} (hc : r.chunks[i]? = some c) :
    r.begun (i + 1) = r.begun i ++ [.fileChunk c.offset c.data] := by
  rw [Request.begun, Request.begun, List.take_add_one, hc]
  simp

theorem roundNext_eq_length (hone : r.file.length ≤ roundSize) :
    roundNext r.file 0 = r.file.length := by
  rw [roundNext_eq (Nat.zero_le _), Nat.zero_add, Nat.min_eq_right hone]

variable {round acked left : ℕ} {overtaken : Bool}

theorem work_filled (hone : r.file.length ≤ roundSize) (hlt : 0 < r.file.length) (sent : List Sent) :
    (Sender.reading r.file 0 0 r.chunks.length sent).work r.stored state =
      some (state, ⟨.sendChunk 0, r.file.length, 0, r.chunks.length, sent⟩) := by
  rw [Request.chunks, Request.stored, work_read hlt, roundNext_eq_length hone]

theorem work_sending (h : Holds r.file 0 state r.chunks.length) (hi : i < r.chunks.length) :
    Sender.work r.stored state ⟨.sendChunk i, r.file.length, 0, r.chunks.length, r.begun i⟩ =
      some (state, ⟨.sendChunk (i + 1), r.file.length, 0, r.chunks.length, r.begun (i + 1)⟩) := by
  have hc := getElem?_chunks hi
  simp only [Sender.work]
  rw [if_pos hi, h.sendBuffered hi hc, begun_succ hc]
  rfl

theorem work_sent (sent : List Sent) :
    Sender.work r.stored state ⟨.sendChunk r.chunks.length, r.file.length, 0, r.chunks.length, sent⟩ =
      some (state, ⟨.sendRoundEnd, r.file.length, 0, r.chunks.length, sent⟩) := by
  simp only [Sender.work]
  rw [if_neg (Nat.lt_irrefl _)]
  rfl

/-- **A step of the thread.** -/
theorem Stage.work (hone : r.file.length ≤ roundSize)
    (h : Stage r round t state acked overtaken left)
    (hwork : t.work r.stored state = some (state', t')) :
    ∃ left' < left, Stage r round t' state' acked
      (overtaken || decide (t.point = .clearAck ∧ 0 < acked)) left' := by
  cases h with
  | opening ht hholds hacked hkept =>
    subst ht
    cases hwork
    exact ⟨_, by omega, .beginning rfl hholds hacked (by simp [hkept])⟩
  | beginning ht hholds hacked hkept =>
    subst ht
    simp only [Sender.work] at hwork
    by_cases hlt : 0 < r.stored.totalSize
    · rw [if_pos hlt] at hwork
      cases hwork
      refine ⟨_, ?_, .filling 0 (Nat.zero_le _) hlt (by simp [Sender.reading]) ?_ hacked (by simp [hkept])⟩
      · omega
      · exact ⟨List.length_replicate, hholds.offsets, fun j hj => absurd hj (Nat.not_lt_zero j)⟩
    · rw [if_neg hlt] at hwork
      cases hwork
      have hempty := List.length_eq_zero_iff.mp (Nat.eq_zero_of_not_pos hlt)
      exact ⟨1, by omega, .endingEmpty hempty rfl hacked (by simp [hkept])⟩
  | filling i hi hlt ht hholds hacked hkept =>
    subst ht
    rcases Nat.lt_or_eq_of_le hi with hmore | rfl
    · rw [Request.stored, work_reading hholds hmore] at hwork
      cases hwork
      exact ⟨_, by omega, .filling (i + 1) hmore hlt rfl (hholds.fill hmore) hacked (by simp [hkept])⟩
    · rw [work_filled hone hlt] at hwork
      cases hwork
      exact ⟨_, by omega, .sending 0 (Nat.zero_le _) hlt rfl hholds hacked (by simp [hkept])⟩
  | sending i hi hlt ht hholds hacked hkept =>
    subst ht
    rcases Nat.lt_or_eq_of_le hi with hmore | rfl
    · rw [work_sending hholds hmore] at hwork
      cases hwork
      exact ⟨_, by omega, .sending (i + 1) hmore hlt rfl hholds hacked (by simp [hkept])⟩
    · rw [work_sent] at hwork
      cases hwork
      exact ⟨6, by omega, .asking hlt rfl hacked (by simp [hkept])⟩
  | asking hlt ht hacked hkept =>
    subst ht
    cases hwork
    exact ⟨5, by omega, .clearing hlt rfl (by omega) (by simp [hkept])⟩
  | clearing hlt ht hacked hkept =>
    subst ht
    cases hwork
    refine ⟨4, by omega, .waiting hlt rfl ?_⟩
    rcases Nat.eq_zero_or_pos acked with rfl | hpos
    · exact .pending rfl rfl (by simp [hkept])
    · exact .thrown (by omega) rfl (.inl (by simp [hpos]))
  | waiting hlt ht hwaits =>
    subst ht
    simp only [Sender.work] at hwork
    split at hwork
    · rename_i hset
      cases hwork
      refine ⟨3, by omega, .checking hlt rfl ?_⟩
      cases hwaits with
      | pending _ hclear _ => simp [hclear] at hset
      | there hanswered _ => simpa using hanswered
      | thrown _ hclear _ => simp [hclear] at hset
    · cases hwork
  | checking hlt ht hanswered =>
    subst ht
    simp only [Sender.work, hanswered.missing, List.nil_eq, reduceCtorEq, if_false, if_true] at hwork
    cases hwork
    exact ⟨2, by omega, .next hlt rfl (by simpa using hanswered)⟩
  | next hlt ht hanswered =>
    subst ht
    simp only [Sender.work, Request.stored, Nat.lt_irrefl, if_false] at hwork
    cases hwork
    exact ⟨1, by omega, .ending hlt rfl (by simpa using hanswered)⟩
  | ending hlt ht hanswered =>
    subst ht
    cases hwork
    refine ⟨0, by omega, .ended hlt ?_ (by simpa using hanswered)⟩
    simp [Sender.send, Sender.goto, Request.stored]
  | ended hlt ht | gaveUp hlt ht =>
    subst ht
    cases hwork
  | endingEmpty hempty ht hacked hkept =>
    subst ht
    cases hwork
    exact ⟨0, by omega, .endedEmpty hempty rfl hacked (by simp [hkept])⟩
  | endedEmpty hempty ht hacked hkept =>
    subst ht
    cases hwork

theorem Stage.isSome_work (hone : r.file.length ≤ roundSize)
    (h : Stage r round t state acked overtaken left) (hstop : t.point ≠ .stopped)
    (hwait : t.point = .wait → state.acks.ackReceived = true) : (t.work r.stored state).isSome := by
  cases h with
  | opening ht hholds hacked hkept =>
    subst ht
    rfl
  | beginning ht hholds hacked hkept =>
    subst ht
    simp only [Sender.work]
    split <;> rfl
  | filling i hi hlt ht hholds hacked hkept =>
    subst ht
    rcases Nat.lt_or_eq_of_le hi with hmore | rfl
    · rw [Request.stored, work_reading hholds hmore, Option.isSome_some]
    · rw [work_filled hone hlt, Option.isSome_some]
  | sending i hi hlt ht hholds hacked hkept =>
    subst ht
    rcases Nat.lt_or_eq_of_le hi with hmore | rfl
    · rw [work_sending hholds hmore, Option.isSome_some]
    · rw [work_sent, Option.isSome_some]
  | waiting hlt ht hwaits =>
    subst ht
    simp [Sender.work, hwait rfl]
  | checking hlt ht hanswered =>
    subst ht
    simp [Sender.work, hanswered.missing]
  | next hlt ht hanswered =>
    subst ht
    simp only [Sender.work]
    split <;> rfl
  | ended hlt ht | gaveUp hlt ht | endedEmpty hempty ht => exact absurd (by rw [ht]) hstop
  | asking hlt ht | clearing hlt ht | ending hlt ht | endingEmpty hempty ht =>
    subst ht
    rfl

/-- What has been sent: the end of the round is not among it, or the whole round is. -/
inductive Progress (r : Request) (sent : List Sent) : Prop
  | begun (i : ℕ) (hsent : sent = r.begun i)
  | empty (hempty : r.file = []) (hsent : sent = r.begun 0 ++ [.fileEnd r.finalCrc])
  | asked (hlt : 0 < r.file.length) (rest : List Sent) (hsent : sent = r.asked ++ rest)
      (hrest : rest <+: [.roundDone 0, .fileEnd r.finalCrc])

theorem Stage.progress (h : Stage r round t state acked overtaken left) : Progress r t.sent := by
  cases h with
  | opening ht | beginning ht => exact .begun 0 (by rw [ht])
  | filling i hi hlt ht hholds hacked hkept => exact .begun 0 (by rw [ht, Sender.sent_reading])
  | sending i hi hlt ht hholds hacked hkept => exact .begun i (by rw [ht])
  | asking hlt ht hacked hkept => exact .begun r.chunks.length (by rw [ht])
  | clearing hlt ht | waiting hlt ht | checking hlt ht =>
    exact .asked hlt [] (by simp [ht]) (by simp)
  | next hlt ht | ending hlt ht => exact .asked hlt [.roundDone 0] (by rw [ht]) (by simp)
  | ended hlt ht hanswered => exact .asked hlt _ (by rw [ht]) List.prefix_rfl
  | gaveUp hlt ht hacked hwhy => exact .asked hlt [] (by simp [ht]) (by simp)
  | endingEmpty hempty ht hacked hkept => exact .begun 0 (by rw [ht])
  | endedEmpty hempty ht hacked hkept => exact .empty hempty (by rw [ht])

theorem Progress.length_le {sent : List Sent} (h : Progress r sent) :
    sent.length ≤ r.chunks.length + 4 := by
  cases h with
  | begun i hsent =>
    simp [hsent, Request.begun]
  | empty hempty hsent => simp [hsent, Request.begun]
  | asked hlt rest hsent hrest =>
    have hle := hrest.length_le
    rw [hsent, List.length_append, r.length_asked]
    simp at hle
    omega

theorem Progress.heard (files : Key → List UInt8) {sent : List Sent}
    (hopens : r.host.opens (downloadPath r.fileName) = true) (hone : r.file.length ≤ roundSize)
    (h : Progress r sent) : (Transition.run r.hear (.start files) sent).isSome := by
  cases h with
  | begun i hsent => rw [hsent, Request.heard_begun hopens, Option.isSome_some]
  | empty hempty hsent =>
    rw [hsent, run_append, Request.heard_begun hopens, Option.bind_some, Request.run_hear_fileEnd,
      Option.isSome_some]
  | asked hlt rest hsent hrest =>
    obtain ⟨files', st', hasked, -, -⟩ := Request.heard_asked files hopens hlt hone
    obtain ⟨rest', hrest⟩ := hrest
    have hall : (Transition.run r.hear (r.downloading files' [(r.id, .ack
        ((files r.target).length / roundSize) [])] st') (rest ++ rest')).isSome := by
      rw [hrest, Request.run_hear_ending, Option.isSome_some]
    rw [hsent, run_append, hasked, Option.bind_some]
    rw [run_append] at hall
    exact Option.isSome_of_isSome_bind hall

/-- What the server can get as answers: none, until the client has heard of the end of the round. -/
theorem Progress.acks_eq {files : Key → List UInt8} {sent : List Sent} {k : ℕ} {c : ClientDownloads}
    (hopens : r.host.opens (downloadPath r.fileName) = true) (hone : r.file.length ≤ roundSize)
    (h : Progress r sent) (hears : Transition.run r.hear (.start files) (sent.take k) = some c) :
    acks c.answers = [] ∨
      Sent.roundEnd 0 r.chunks.length ∈ sent ∧
        acks c.answers = [⟨(files r.target).length / roundSize, []⟩] := by
  cases h with
  | begun i hsent =>
    subst hsent
    exact .inl (Request.acks_run_hear
      (fun p hp => Request.ne_roundEnd_of_mem_begun (List.mem_of_mem_take hp)) hears)
  | empty hempty hsent =>
    subst hsent
    refine .inl (Request.acks_run_hear (fun p hp => ?_) hears)
    rcases List.mem_append.mp (List.mem_of_mem_take hp) with hbegun | hend
    · exact Request.ne_roundEnd_of_mem_begun hbegun
    · rw [List.mem_singleton.mp hend]
      exact fun _ _ => Sent.noConfusion
  | asked hlt rest hsent hrest =>
    subst hsent
    have hacks := Request.acks_heard hopens hlt hone ?_ hears
    · split at hacks
      · exact .inl hacks
      · exact .inr ⟨by simp [Request.asked], hacks⟩
    · intro p hp
      have hmem := hrest.subset hp
      simp at hmem
      rcases hmem with rfl | rfl <;> exact fun _ _ => Sent.noConfusion

/-- **The answer arrives.**  The server drops it if the client is not in the first round. -/
theorem Stage.ack (h : Stage r round t state 0 overtaken left)
    (hasked : .roundEnd 0 r.chunks.length ∈ t.sent) :
    (round ≠ 0 → Stage r round t state 1 overtaken left) ∧
      (round = 0 → Stage r round t.invalidate { state with acks := state.acks.record [] } 1
        overtaken left) := by
  have hbegun : ∀ i, t.sent ≠ r.begun i := by
    intro i h
    exact Request.ne_roundEnd_of_mem_begun (h ▸ hasked) _ _ rfl
  cases h with
  | opening ht | beginning ht => exact absurd (by rw [ht]) (hbegun 0)
  | filling i hi hlt ht hholds hacked hkept => exact absurd (by rw [ht, Sender.sent_reading]) (hbegun 0)
  | sending i hi hlt ht hholds hacked hkept => exact absurd (by rw [ht]) (hbegun i)
  | asking hlt ht hacked hkept => exact absurd (by rw [ht]) (hbegun _)
  | clearing hlt ht hacked hkept =>
    exact ⟨fun _ => .clearing hlt ht (Nat.le_refl 1) hkept,
      fun _ => .clearing hlt (by rw [ht]; rfl) (Nat.le_refl 1) hkept⟩
  | waiting hlt ht hwaits =>
    cases hwaits with
    | pending hacked hclear hkept =>
      exact ⟨fun hround => .waiting hlt ht (.thrown rfl hclear (.inr hround)),
        fun hround => .waiting hlt (by rw [ht]; rfl) (.there ⟨hround, rfl, rfl, hkept⟩ rfl)⟩
    | there hanswered hset => cases hanswered.acked
    | thrown hacked hclear hwhy => cases hacked
  | checking hlt ht hanswered | next hlt ht hanswered | ending hlt ht hanswered
  | ended hlt ht hanswered => cases hanswered.acked
  | gaveUp hlt ht hacked hwhy => cases hacked
  | endingEmpty hempty ht hacked hkept => exact absurd (by rw [ht]) (hbegun 0)
  | endedEmpty hempty ht hacked hkept => simp [ht, Request.begun] at hasked

theorem Stage.waits (h : Stage r round t state acked overtaken left) (hwait : t.point = .wait) :
    0 < r.file.length ∧ t = ⟨.wait, r.file.length, 0, r.chunks.length, r.asked⟩ ∧
      Waits round state.acks acked overtaken ∧ left = 4 := by
  cases h
  case waiting hlt ht hwaits => exact ⟨hlt, ht, hwaits, rfl⟩
  all_goals simp_all

end Stages

/-! ## Runs -/

theorem Sender.sent_work {u : StoredFile} {state state' : TransferState} {t t' : Sender}
    (h : t.work u state = some (state', t')) : t.sent <+: t'.sent := by
  unfold Sender.work at h
  grind [exists_of_sendBuffered, Sender.send, Sender.goto, Option.map_eq_some_iff,
    List.prefix_append]

theorem Sender.sent_invalidate (t : Sender) : t.invalidate.sent = t.sent := by
  unfold Sender.invalidate
  split <;> rfl

namespace Fetch

variable {r : Request} {files : Key → List UInt8} {state : TransferState} {s s' : Fetch} {rank : ℕ}

/-- **What holds during a download.**  The client has heard of what has arrived. -/
structure Inv (r : Request) (files : Key → List UInt8) (s : Fetch) (rank : ℕ) : Prop where
  requested : s.requested = true
  hears : Transition.run r.hear (.start files) (s.thread.sent.take s.arrived) = some s.client
  arrived : s.arrived ≤ s.thread.sent.length
  round : s.server.state.acks.currentRound = 0
  stage : ∃ left, Stage r ((files r.target).length / roundSize) s.thread s.server.state s.acked
    s.overtaken left ∧ left + (r.chunks.length + 4 - s.arrived) + (1 - s.acked) = rank

theorem Inv.work (hone : r.file.length ≤ roundSize) (h : Inv r files s rank)
    (hstep : s.step r .work = some s') : ∃ rank' < rank, Inv r files s' rank' := by
  obtain ⟨server', hserver, rfl⟩ := Option.map_eq_some_iff.mp hstep
  obtain ⟨⟨state', t'⟩, hwork, rfl⟩ := Option.map_eq_some_iff.mp hserver
  obtain ⟨left, hstage, hrank⟩ := h.stage
  obtain ⟨left', hlt, hstage'⟩ := hstage.work hone hwork
  obtain ⟨more, hmore⟩ := Sender.sent_work hwork
  have hthread : Function.update s.server.threads () t' () = t' := Function.update_self ..
  have hsent : t'.sent.take s.arrived = s.thread.sent.take s.arrived := by
    rw [← hmore]
    exact List.take_append_of_le_length h.arrived
  refine ⟨left' + (r.chunks.length + 4 - s.arrived) + (1 - s.acked), by omega, ?_⟩
  constructor
  · exact h.requested
  · simp only [thread, hthread, hsent]
    exact h.hears
  · simp only [thread, hthread, ← hmore, List.length_append]
    exact Nat.le_add_right_of_le h.arrived
  · exact (Sender.currentRound_work hwork).trans h.round
  · refine ⟨left', ?_, rfl⟩
    simp only [thread, hthread]
    exact hstage'

theorem Inv.deliver (h : Inv r files s rank) (hstep : s.step r .deliver = some s') :
    ∃ rank' < rank, Inv r files s' rank' := by
  obtain ⟨p, hp, hclient⟩ := Option.bind_eq_some_iff.mp hstep
  obtain ⟨client', hhear, rfl⟩ := Option.map_eq_some_iff.mp hclient
  obtain ⟨left, hstage, hrank⟩ := h.stage
  have hlt : s.arrived < s.thread.sent.length := (List.getElem?_eq_some_iff.mp hp).1
  have hlength := hstage.progress.length_le
  refine ⟨left + (r.chunks.length + 4 - (s.arrived + 1)) + (1 - s.acked), by omega, ?_⟩
  constructor
  · exact h.requested
  · change Transition.run r.hear (.start files) (s.thread.sent.take (s.arrived + 1)) = some client'
    rw [List.take_add_one, hp, run_append, h.hears]
    exact run_cons hhear
  · exact hlt
  · exact h.round
  · exact ⟨left, hstage, rfl⟩

theorem Inv.deliverAck (hopens : r.host.opens (downloadPath r.fileName) = true)
    (hone : r.file.length ≤ roundSize) (h : Inv r files s rank)
    (hstep : s.step r .deliverAck = some s') : ∃ rank' < rank, Inv r files s' rank' := by
  obtain ⟨ack, hack, hserver⟩ := Option.bind_eq_some_iff.mp hstep
  obtain ⟨server', hserver', rfl⟩ := Option.map_eq_some_iff.mp hserver
  obtain ⟨left, hstage, hrank⟩ := h.stage
  rcases hstage.progress.acks_eq hopens hone h.hears with hnone | ⟨hasked, hacks⟩
  · simp [hnone] at hack
  · obtain ⟨hacked, rfl⟩ : s.acked = 0 ∧ ack = ⟨(files r.target).length / roundSize, []⟩ := by
      rw [hacks, List.getElem?_singleton] at hack
      split at hack
      · rename_i hzero
        cases hack
        exact ⟨hzero, rfl⟩
      · cases hack
    rw [hacked] at hstage
    obtain ⟨hdropped, htaken⟩ := hstage.ack hasked
    refine ⟨left + (r.chunks.length + 4 - s.arrived) + (1 - (s.acked + 1)), by omega, ?_⟩
    by_cases hround : (files r.target).length / roundSize = 0
    · simp [Downloads.step, h.round, hround] at hserver'
      cases hserver'
      have hack' : s.server.state.acks.onAckReceived ⟨0, []⟩ = s.server.state.acks.record [] := by
        simp [Outgoing.onAckReceived, h.round]
      constructor
      · exact h.requested
      · simp only [thread, Sender.sent_invalidate]
        exact h.hears
      · simp only [thread, Sender.sent_invalidate]
        exact h.arrived
      · rw [hack']
        exact h.round
      · refine ⟨left, ?_, rfl⟩
        rw [hack', hacked]
        exact htaken hround
    · simp [Downloads.step, h.round, hround] at hserver'
      cases hserver'
      refine { h with stage := ⟨left, ?_, rfl⟩ }
      simp only [hacked]
      exact hdropped hround

/-- The answer to the end of the round, when all has arrived at the client. -/
theorem Inv.acks_eq (hopens : r.host.opens (downloadPath r.fileName) = true)
    (hone : r.file.length ≤ roundSize) (h : Inv r files s rank) (hlt : 0 < r.file.length)
    (hsent : s.thread.sent = r.asked) (hall : s.arrived = s.thread.sent.length) :
    acks s.client.answers = [⟨(files r.target).length / roundSize, []⟩] := by
  have hears : Transition.run r.hear (.start files) ((r.asked ++ []).take r.asked.length) =
      some s.client := by
    rw [List.append_nil, ← hsent, ← hall]
    exact h.hears
  have hacks := Request.acks_heard hopens hlt hone (by simp) hears
  rwa [if_neg (Nat.lt_irrefl _)] at hacks

theorem Inv.timeout (hopens : r.host.opens (downloadPath r.fileName) = true)
    (hone : r.file.length ≤ roundSize) (h : Inv r files s rank)
    (hstep : s.step r .timeout = some s') : ∃ rank' < rank, Inv r files s' rank' := by
  simp only [step] at hstep
  split at hstep
  · rename_i hall
    obtain ⟨server', hserver, rfl⟩ := Option.map_eq_some_iff.mp hstep
    simp only [Downloads.step] at hserver
    split at hserver
    · rename_i hwait
      cases hserver
      obtain ⟨left, hstage, hrank⟩ := h.stage
      obtain ⟨hlt, hthread, hwaits, rfl⟩ := hstage.waits hwait.1
      have hacks := h.acks_eq hopens hone hlt (by rw [hthread]) hall.1
      have hgaveUp : Stage r ((files r.target).length / roundSize) (s.thread.goto .stopped)
          s.server.state s.acked s.overtaken 0 := by
        cases hwaits with
        | pending hacked hclear hkept => simp [hacked, hacks] at hall
        | there hanswered hset => simp [hset] at hwait
        | thrown hacked hclear hwhy => exact .gaveUp hlt (by rw [hthread]; rfl) hacked hwhy
      refine ⟨0 + (r.chunks.length + 4 - s.arrived) + (1 - s.acked), by omega, ?_⟩
      refine { h with hears := ?_, arrived := ?_, stage := ⟨0, ?_, rfl⟩ }
      · simp only [thread, Function.update_self]
        exact h.hears
      · simp only [thread, Function.update_self]
        exact h.arrived
      · simp only [thread, Function.update_self]
        exact hgaveUp
    · cases hserver
  · cases hstep

theorem Inv.step (hopens : r.host.opens (downloadPath r.fileName) = true)
    (hone : r.file.length ≤ roundSize) {a : FetchAction} (h : Inv r files s rank)
    (hstep : s.step r a = some s') : ∃ rank' < rank, Inv r files s' rank' := by
  cases a with
  | request => simp [Fetch.step, h.requested] at hstep
  | work => exact h.work hone hstep
  | timeout => exact h.timeout hopens hone hstep
  | deliver => exact h.deliver hstep
  | deliverAck => exact h.deliverAck hopens hone hstep

theorem inv_of_step_start (hround : state.acks.currentRound = 0) {a : FetchAction}
    (hstep : (start state files).step r a = some s) : Inv r files s (3 * r.chunks.length + 15) := by
  cases a with
  | request =>
    cases hstep
    constructor
    · rfl
    · rfl
    · exact Nat.zero_le _
    · exact hround
    · refine ⟨2 * r.chunks.length + 10, .opening ?_ ?_ rfl rfl, ?_⟩
      · simp [thread, start, Request.begun, Request.bytesRequested, Sender.idle]
      · exact ⟨Downloads.length_resize .., Downloads.length_resize ..,
          fun j hj => absurd hj (Nat.not_lt_zero j)⟩
      · simp only [start]
        omega
  | work | timeout | deliver | deliverAck => cases hstep

/-- Nothing is left to be done when all has arrived and the thread has stopped. -/
theorem Inv.finished (hopens : r.host.opens (downloadPath r.fileName) = true)
    (hone : r.file.length ≤ roundSize) (h : Inv r files s rank) (hfinished : s.Finished r) :
    s.thread.point = .stopped ∧
      Transition.run r.hear (.start files) s.thread.sent = some s.client := by
  obtain ⟨left, hstage, -⟩ := h.stage
  have hall : s.arrived = s.thread.sent.length := by
    by_contra hne
    have hlt : s.arrived < s.thread.sent.length := Nat.lt_of_le_of_ne h.arrived hne
    have hheard := hstage.progress.heard files hopens hone
    rw [← List.take_append_drop s.arrived s.thread.sent, run_append, h.hears, Option.bind_some,
      List.drop_eq_getElem_cons hlt] at hheard
    obtain ⟨c, hc⟩ := Option.isSome_iff_exists.mp hheard
    obtain ⟨c', hhear, -⟩ := exists_of_run hc
    have hdeliver := hfinished .deliver
    rw [Fetch.step, List.getElem?_eq_getElem hlt, Option.bind_some, hhear] at hdeliver
    cases hdeliver
  have hears := h.hears
  rw [hall, List.take_length] at hears
  refine ⟨?_, hears⟩
  by_contra hstop
  by_cases hwait : s.thread.point = .wait ∧ s.server.state.acks.ackReceived = false
  · obtain ⟨hlt, hthread, hwaits, -⟩ := hstage.waits hwait.1
    have hacks := h.acks_eq hopens hone hlt (by rw [hthread]) hall
    cases hwaits with
    | pending hacked hclear hkept =>
      have hdeliver := hfinished .deliverAck
      simp [Fetch.step, hacks, hacked, Downloads.step] at hdeliver
      split at hdeliver <;> cases hdeliver
    | there hanswered hset => simp [hset] at hwait
    | thrown hacked hclear hwhy =>
      have htimeout := hfinished .timeout
      rw [Fetch.step, if_pos ⟨hall, by rw [hacked, hacks]; rfl⟩, Downloads.step] at htimeout
      simp only [thread] at hwait
      simp [hwait] at htimeout
  · have hwork := hstage.isSome_work hone hstop (fun hpoint => by simpa [hpoint] using hwait)
    obtain ⟨x, hx⟩ := Option.isSome_iff_exists.mp hwork
    have hnone := hfinished .work
    rw [Fetch.step, Downloads.step] at hnone
    simp only [thread] at hx
    simp [hx] at hnone

/-- The checksum that was stored with the file is that of the file, or there is none. -/
def CrcMatches (r : Request) : Prop :=
  r.finalCrc ≠ 0 → Client.computeFileCrc r.hw
    ⟨none, if r.reads (downloadPath r.fileName) then some r.file else none⟩ = r.finalCrc

theorem report_iff (files : Key → List UInt8) (st : Incoming) :
    r.report files st = true ↔ st.receivedOffset = st.totalSize ∧
      (r.finalCrc ≠ 0 → Client.computeFileCrc r.hw
        ⟨none, if r.reads (downloadPath r.fileName) then some (files r.target) else none⟩ =
          r.finalCrc) :=
  decide_eq_true_iff

theorem complete_of_report {active : Key → Option DownloadState} {files : Key → List UInt8}
    {answers : List (UploadId × DownloadAnswer)} {success : Bool}
    (hclient : s.client = ⟨active, files, answers ++ [(r.id, .finished r.fileName success)]⟩)
    (hanswers : (r.id, .finished r.fileName true) ∉ answers) :
    s.Complete r ↔ success = true ∧ files r.target = r.file := by
  rw [Complete, hclient]
  simp [hanswers]

/-- **The end of a download.** -/
theorem Inv.complete_iff (hopens : r.host.opens (downloadPath r.fileName) = true)
    (hone : r.file.length ≤ roundSize) (hprior : files r.target <+: r.file) (h : Inv r files s rank)
    (hfinished : s.Finished r) :
    s.Complete r ↔ files r.target = [] ∧ s.overtaken = false ∧ CrcMatches r := by
  obtain ⟨hstop, hears⟩ := h.finished hopens hone hfinished
  obtain ⟨left, hstage, -⟩ := h.stage
  cases hstage with
  | ended hlt ht hanswered =>
    obtain ⟨files', st', hasked, htotal, hwritten⟩ := Request.heard_asked files hopens hlt hone
    obtain ⟨hfile, hoffset⟩ := hwritten hanswered.round
    rw [ht, run_append, hasked, Option.bind_some, Request.run_hear_ending, Option.some.injEq] at hears
    rw [complete_of_report hears.symm (by simp), report_iff, hoffset, htotal, hfile]
    constructor
    · rintro ⟨⟨-, hcrc⟩, hsame⟩
      rw [hsame] at hcrc
      exact ⟨by simpa using hsame, hanswered.kept, hcrc⟩
    · rintro ⟨hnone, -, hcrc⟩
      rw [hnone, List.nil_append]
      exact ⟨⟨by simp, hcrc⟩, rfl⟩
  | gaveUp hlt ht hacked hwhy =>
    obtain ⟨files', st', hasked, -, -⟩ := Request.heard_asked files hopens hlt hone
    rw [ht, hasked, Option.some.injEq] at hears
    constructor
    · rintro ⟨hreport, -⟩
      simp [← hears, Request.downloading] at hreport
    · rintro ⟨hnone, hkept, -⟩
      simp [hnone, hkept] at hwhy
  | endedEmpty hempty ht hacked hkept =>
    rw [ht, run_append, Request.heard_begun hopens, Option.bind_some, Request.run_hear_fileEnd,
      Option.some.injEq] at hears
    have hnone : files r.target = [] := by
      rw [hempty] at hprior
      exact List.prefix_nil.mp hprior
    rw [complete_of_report hears.symm (by simp), report_iff]
    simp [hnone, hempty, hkept, CrcMatches, Request.chunks, Incoming.start, Incoming.receiveAll]
  | _ => simp_all

/-- Every run from the first round comes to an end, where the client has the file and says so if and
only if it had nothing of it before, its answer did not come before the thread waited for it, and
the checksum of the file is right. -/
theorem complete_run_iff (hopens : r.host.opens (downloadPath r.fileName) = true)
    (hone : r.file.length ≤ roundSize) (hprior : files r.target <+: r.file)
    (hround : state.acks.currentRound = 0) (actions : List FetchAction)
    (hrun : Transition.run (step r) (start state files) actions = some s) :
    actions.length ≤ 3 * r.chunks.length + 16 ∧
      (s.Finished r → (s.Complete r ↔ files r.target = [] ∧ s.overtaken = false ∧ CrcMatches r)) := by
  cases actions with
  | nil =>
    cases hrun
    refine ⟨Nat.zero_le _, fun hfinished => ?_⟩
    have hrequest := hfinished .request
    cases hrequest
  | cons a actions =>
    obtain ⟨s₁, hs₁, hrun⟩ := exists_of_run hrun
    obtain ⟨rank, hinv, hle⟩ := exists_rank_of_run
      (fun _ _ _ _ h hstep => h.step hopens hone hstep) (inv_of_step_start hround hs₁) hrun
    refine ⟨?_, fun hfinished => hinv.complete_iff hopens hone hprior hfinished⟩
    rw [List.length_cons]
    omega

theorem currentRound_of_reaches {ι : Type*} [DecidableEq ι] {u : StoredFile}
    {ok : Downloads ι → ι × DownloadAction → Prop} {server : Downloads ι}
    (h : Reaches (Downloads.step u) ok .start server) : server.state.acks.currentRound = 0 := by
  induction h with
  | refl => rfl
  | tail _ hmove ih =>
    obtain ⟨a, -, hstep⟩ := hmove
    exact (Downloads.step_frame hstep).1.trans ih

/-- **Downloads that repeat.**  After any downloads of the file by any clients, every run of one more
comes to an end.  The client then has the file, and says so, if and only if it had nothing of it
before, its answer did not come before the thread waited for it, and the checksum of the file is
right. -/
theorem complete_iff_of_downloads {ι : Type*} [DecidableEq ι] {before : Downloads ι}
    (hbefore : Reaches (Downloads.step r.stored) (fun _ _ => True) .start before)
    (hopens : r.host.opens (downloadPath r.fileName) = true) (hone : r.file.length ≤ roundSize)
    (hprior : files r.target <+: r.file) (actions : List FetchAction)
    (hrun : Transition.run (step r) (start before.state files) actions = some s) :
    actions.length ≤ 3 * r.chunks.length + 16 ∧
      (s.Finished r → (s.Complete r ↔ files r.target = [] ∧ s.overtaken = false ∧ CrcMatches r)) :=
  complete_run_iff hopens hone hprior (currentRound_of_reaches hbefore) actions hrun

/-- A client that asks for a file with one byte. -/
def sampleRequest : Request where
  host := ⟨id, fun _ => true, id, true⟩
  reads := fun _ => true
  hw := false
  id := .replicate 16 0
  name := text "a"
  time := text "0"
  file := [7]
  finalCrc := Client.computeFileCrc false ⟨none, some [7]⟩

/-- All is done as soon as it can be, and the answer comes when the thread waits for it. -/
def sampleActions : List FetchAction :=
  .request :: List.replicate 8 .work ++ List.replicate 3 .deliver ++ .deliverAck ::
    List.replicate 4 .work ++ List.replicate 2 .deliver

/-- The first download of a file. -/
theorem complete_sampleRequest :
    ∃ s, Transition.run (step sampleRequest) (start .cleared fun _ => []) sampleActions = some s ∧
      s.Finished sampleRequest ∧ s.Complete sampleRequest := by
  obtain ⟨s, hrun, hfinished, hkept⟩ := exists_run (step sampleRequest) (start .cleared fun _ => [])
    sampleActions (fun s => s.Finished sampleRequest ∧ s.overtaken = false) (by decide +kernel)
  refine ⟨s, hrun, hfinished, ?_⟩
  have hnone : Reaches (Downloads.step sampleRequest.stored) (fun _ _ => True)
      (.start : Downloads Unit) .start := .refl
  have h := complete_iff_of_downloads hnone rfl (by decide) List.nil_prefix sampleActions hrun
  exact (h.2 hfinished).mpr ⟨rfl, hkept, fun _ => rfl⟩

/-- The second download of the same file.  The client appends the file to itself, and reports a
failure. -/
theorem not_complete_repeated :
    ∃ s, Transition.run (step sampleRequest) (start .cleared fun _ => [7]) sampleActions = some s ∧
      s.Finished sampleRequest ∧ ¬ s.Complete sampleRequest ∧
      s.client.files sampleRequest.target = [7, 7] ∧
      (sampleRequest.id, .finished sampleRequest.fileName false) ∈ s.client.answers := by
  obtain ⟨s, hrun, hfinished, hfile, hreport⟩ := exists_run (step sampleRequest)
    (start .cleared fun _ => [7]) sampleActions
    (fun s => s.Finished sampleRequest ∧ s.client.files sampleRequest.target = [7, 7] ∧
      (sampleRequest.id, .finished sampleRequest.fileName false) ∈ s.client.answers)
    (by decide +kernel)
  refine ⟨s, hrun, hfinished, ?_, hfile, hreport⟩
  rintro ⟨-, hsame⟩
  rw [hfile] at hsame
  cases hsame

end Fetch

end FileTransfer

end IocpChat

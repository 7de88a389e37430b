import IocpChat.Lib.Transition
import IocpChat.FileTransfer.Rounds

/-!
# Uploads

`Client::uploadWorker` sends a file to the server round by round.  After the chunks of a
round it asks which are missing, sends those again and asks again, until none is
missing.  Both directions keep the order of the packets and may lose any of them.  The
worker waits for an answer, and gives up if none comes.

Worker, server and the client's receive thread run at the same time.  The worker clears
`ackReceived` only after it has asked, so an answer that is quicker is lost; then the
worker gives up.

An answer that is not lost is about the round the worker is in, so the two sides move to
the next round together (`Phase`).  Whatever is lost, the server holds the beginning of
the file, and reports success only if it holds all of it.

## Main definitions

* `Worker`, `Upload`, `Upload.step` — the client, the server, and what is between them.
* `Incoming.In` — the server has received the file up to a round.
* `Phase` — how far the worker and the server have come in a round.
-/

namespace IocpChat

open Transition Pieces

namespace FileTransfer

/-! ## The code -/

inductive ToServer
  | fileChunk (byteOffset : ℕ) (crc : UInt32) (data : List UInt8)
  | roundEnd (roundId chunkCount : ℕ)
  | fileEnd

/-- The point the worker has come to, with the offset at which its round begins. -/
inductive Worker
  /-- Before it sends the `i`-th chunk. -/
  | sendChunk (base i : ℕ)
  | sendRoundEnd (base : ℕ)
  /-- Before it clears `ackReceived`. -/
  | clearAck (base : ℕ)
  | wait (base : ℕ)
  /-- Before it sends these chunks again. -/
  | resend (base : ℕ) (missingChunks : List ℕ)
  | gaveUp (base : ℕ)
  | sendFileEnd
  | finished
  deriving DecidableEq

structure Upload where
  client : Outgoing
  worker : Worker
  toServer : List ToServer
  toClient : List FileAck
  /-- `handleFileAck` has seen that an answer is for the current round, and has yet to
  record what is missing. -/
  recording : Option (List ℕ)
  server : Incoming
  /-- The server finds the transfer by its id. -/
  active : Bool
  /-- What `handleFileEnd` has reported. -/
  status : Option Bool

/-- The server takes files of up to 5 MiB. -/
def maxFileSize : ℕ := 1024 * 1024 * 5

/-- `handleFileStart`, with what is in the file at `tempPath`. -/
def handleFileStart (totalSize : ℕ) (fileStream : List UInt8) : Option Incoming :=
  if maxFileSize < totalSize then none else some (.start totalSize fileStream)

/-- The test at the beginning of a round. -/
def nextRound (file : List UInt8) (bytesSent : ℕ) : Worker :=
  if bytesSent < file.length then .sendChunk bytesSent 0 else .sendFileEnd

/-- `serializeFileChunk`. -/
def chunkPacket (hw : Bool) (c : Chunk) : ToServer :=
  .fileChunk c.offset (CRC32C.compute hw c.data 0) c.data

/-- `clearState`. -/
def Incoming.clearState (s : Incoming) : Incoming :=
  { s with currentRound := 0, receivedOffset := 0, roundBuffer := [] }

namespace Upload

/-- The server has answered `FILE_START`, and the worker begins where it says. -/
def start (file : List UInt8) (server : Incoming) : Upload where
  client := ⟨server.receivedOffset / roundSize, false, []⟩
  worker := nextRound file server.receivedOffset
  toServer := []
  toClient := []
  recording := none
  server
  active := true
  status := none

/-- The worker sends a chunk, if there is one with the number. -/
def sendFileChunk (hw : Bool) (s : Upload) (chunk : Option Chunk) : Upload :=
  { s with toServer := s.toServer ++ (chunk.map (chunkPacket hw)).toList }

/-- A step of `uploadWorker`. -/
def work (hw : Bool) (file : List UInt8) (s : Upload) : Option Upload :=
  match s.worker with
  | .sendChunk base i =>
    if i < (roundChunks file base).length then
      some { s.sendFileChunk hw (roundChunks file base)[i]? with worker := .sendChunk base (i + 1) }
    else some { s with worker := .sendRoundEnd base }
  | .sendRoundEnd base =>
    some { s with
      toServer := s.toServer ++ [.roundEnd s.client.currentRound (roundChunks file base).length]
      worker := .clearAck base }
  | .clearAck base =>
    some { s with client := { s.client with ackReceived := false }, worker := .wait base }
  | .wait base =>
    if s.client.ackReceived then
      if s.client.missingChunks = [] then
        some { s with
          client := { s.client with currentRound := s.client.currentRound + 1 }
          worker := nextRound file (roundNext file base) }
      else some { s with worker := .resend base s.client.missingChunks }
    else none
  | .resend base [] => some { s with worker := .sendRoundEnd base }
  | .resend base (idx :: rest) =>
    some { s.sendFileChunk hw (roundChunks file base)[idx]? with worker := .resend base rest }
  | .sendFileEnd => some { s with toServer := s.toServer ++ [.fileEnd], worker := .finished }
  | .gaveUp _ => none
  | .finished => none

/-- The server handles a packet. -/
def handle (hw : Bool) (s : Upload) (p : ToServer) : Upload :=
  if s.active then
    match p with
    | .fileChunk byteOffset crc data =>
      { s with server := s.server.handleFileChunk hw byteOffset crc data }
    | .roundEnd roundId chunkCount =>
      let r := s.server.handleRoundEnd roundId chunkCount
      let ack : FileAck := ⟨r.2.1, r.2.2⟩
      { s with server := r.1, toClient := if ack.Fits then s.toClient ++ [ack] else s.toClient }
    | .fileEnd =>
      let success := decide (s.server.receivedOffset = s.server.totalSize)
      { s with
        server := if success then s.server.clearState else s.server
        active := false
        status := some success }
  else s

inductive Action
  | work
  /-- The worker has waited long enough. -/
  | timeout
  /-- The next packet arrives at the server, or is lost. -/
  | deliver (lost : Bool)
  /-- The next answer arrives at the client, or is lost. -/
  | deliverAck (lost : Bool)
  | recordAck
  deriving DecidableEq

def step (hw : Bool) (file : List UInt8) (s : Upload) : Action → Option Upload
  | .work => s.work hw file
  | .timeout =>
    match s.worker with
    | .wait base => if s.client.ackReceived then none else some { s with worker := .gaveUp base }
    | _ => none
  | .deliver lost =>
    match s.toServer with
    | [] => none
    | p :: rest =>
      let s := { s with toServer := rest }
      some (if lost then s else s.handle hw p)
  | .deliverAck lost =>
    match s.toClient, s.recording with
    | ack :: rest, none =>
      let s := { s with toClient := rest }
      some (if lost ∨ ack.roundId ≠ s.client.currentRound then s
        else { s with recording := some ack.missingChunks })
    | _, _ => none
  | .recordAck =>
    match s.recording with
    | none => none
    | some missing => some { s with client := s.client.record missing, recording := none }

end Upload

/-! ## The file at the server -/

/-- Where a round of an upload from the beginning of the file begins. -/
def roundOffset (file : List UInt8) (round : ℕ) : ℕ := min (round * roundSize) file.length

/-- The server has received the file up to a round, and some chunks of that. -/
structure Incoming.In (file : List UInt8) (s : Incoming) (round : ℕ) : Prop where
  totalSize : s.totalSize = file.length
  currentRound : s.currentRound = round
  receivedOffset : s.receivedOffset = roundOffset file round
  fileStream : s.fileStream = file.take (roundOffset file round)
  length : s.roundBuffer.length = maxChunksPerRound
  fits : Fits maxChunkSize (file.drop (roundOffset file round)) s.roundBuffer

section Server

variable {file : List UInt8} {round : ℕ} {s : Incoming} {c : Chunk}

theorem roundOffset_succ (file : List UInt8) (round : ℕ) :
    roundOffset file (round + 1) = min (roundOffset file round + roundSize) file.length := by
  simp only [roundOffset, Nat.succ_mul]
  omega

theorem roundNext_roundOffset (file : List UInt8) (round : ℕ) :
    roundNext file (roundOffset file round) = roundOffset file (round + 1) := by
  have hle : roundOffset file round ≤ file.length := Nat.min_le_right ..
  rw [roundOffset_succ, roundNext_eq hle]

theorem aligned_roundOffset (h : roundOffset file round < file.length) :
    Aligned (roundOffset file round) := by
  have heq : roundOffset file round = maxChunkSize * (maxChunksPerRound * round) := by
    rw [← Nat.mul_assoc, Nat.mul_comm _ round]
    exact Nat.min_eq_left (by rw [roundOffset] at h; omega)
  rw [Aligned, heq, Nat.mul_div_cancel_left _ (by decide), Nat.mul_mod_right]

theorem Incoming.in_start (file : List UInt8) : (Incoming.start file.length []).In file 0 := by
  constructor
  · rfl
  · rfl
  · simp [roundOffset, Incoming.start]
  · simp [roundOffset, Incoming.start]
  · simp [Incoming.start]
  · exact fits_replicate

theorem Incoming.In.handleFileChunk (h : s.In file round) (hw : Bool)
    (hlt : roundOffset file round < file.length)
    (hc : c ∈ roundChunks file (roundOffset file round)) :
    (s.handleFileChunk hw c.offset (CRC32C.compute hw c.data 0) c.data).In file round := by
  have hdata := data_of_aligned (aligned_roundOffset hlt) hc
  rw [handleFileChunk_eq rfl]
  split
  · refine { h with length := ?_, fits := ?_ }
    · rw [List.length_set]
      exact h.length
    · rw [hdata]
      exact h.fits.set
  · exact h

theorem Incoming.In.flatten_roundBuffer (h : s.In file round)
    (hmissing : missing s.roundBuffer (roundChunks file (roundOffset file round)).length = []) :
    s.roundBuffer.flatten = (file.drop (roundOffset file round)).take roundSize := by
  rw [h.fits.flatten_eq, h.length, roundSize]
  intro i hi hpiece hempty
  rw [h.length] at hi
  rw [Ne, piece_eq_nil_iff (by decide), List.length_drop] at hpiece
  have hlt : i < (roundChunks file (roundOffset file round)).length := by
    rw [lt_length_roundChunks]
    exact ⟨hi, by omega⟩
  have hmem : i ∈ missing s.roundBuffer (roundChunks file (roundOffset file round)).length := by
    rw [mem_missing, hempty]
    exact ⟨hlt, rfl⟩
  rw [hmissing] at hmem
  cases hmem

/-- The round of the server after it has found so many chunks missing. -/
def nextOf (round : ℕ) (missing : List ℕ) : ℕ := if missing = [] then round + 1 else round

/-- **The end of a round.**  The server answers for its round.  If no chunk is missing it
goes on to the next one. -/
theorem Incoming.In.handleRoundEnd (h : s.In file round) {s' : Incoming} {ack : ℕ × List ℕ}
    (heq : s.handleRoundEnd round (roundChunks file (roundOffset file round)).length = (s', ack)) :
    ack.1 = round ∧ s'.In file (nextOf round ack.2) := by
  unfold Incoming.handleRoundEnd at heq
  rw [if_neg (not_not.mpr h.currentRound.symm)] at heq
  split at heq
  · rename_i hmissing
    cases heq
    refine ⟨rfl, ?_⟩
    have hle : roundOffset file round ≤ file.length := Nat.min_le_right ..
    have hflatten := h.flatten_roundBuffer hmissing
    have hnext : nextOf round [] = round + 1 := rfl
    rw [hnext]
    constructor
    · simp only [writeRoundToDisk_eq]
      exact h.totalSize
    · rw [h.currentRound]
    · simp [writeRoundToDisk_eq, hflatten, h.receivedOffset]
      rw [roundOffset_succ]
      omega
    · simp only [writeRoundToDisk_eq, hflatten, h.fileStream]
      rw [← List.take_add, roundOffset_succ, List.take_eq_take_iff]
      omega
    · simp [h.length]
    · exact fits_replicate
  · rename_i hmissing
    cases heq
    rw [nextOf, if_neg hmissing]
    exact ⟨rfl, h⟩

end Server

/-! ## Worker and server -/

/-- The worker sends chunks of the round that begins at an offset. -/
def Worker.Sends (worker : Worker) (base : ℕ) : Prop :=
  match worker with
  | .sendChunk b _ => b = base
  | .sendRoundEnd b => b = base
  | .resend b _ => b = base
  | _ => False

/-- The worker has asked what is missing of the round that begins at an offset. -/
def Worker.Asks (worker : Worker) (base : ℕ) : Prop :=
  match worker with
  | .clearAck b => b = base
  | .wait b => b = base
  | .gaveUp b => b = base
  | _ => False

/-- The packet is a chunk of the round that begins at an offset. -/
def ToServer.Chunk (hw : Bool) (file : List UInt8) (base : ℕ) (p : ToServer) : Prop :=
  ∃ c ∈ roundChunks file base, p = chunkPacket hw c

/-- **How far an upload has come.**  At any time one of the two sides has something to
do: the worker sends; or its question is on the way, or the answer, or one of them was
lost; or the answer is there.  At the end the server reports that it has the file. -/
inductive Phase (hw : Bool) (file : List UInt8) : Upload → Prop
  | sending {client : Outgoing} {worker : Worker} {toServer : List ToServer} {server : Incoming}
      (hlt : roundOffset file client.currentRound < file.length)
      (hworker : worker.Sends (roundOffset file client.currentRound))
      (hchunks : ∀ p ∈ toServer, p.Chunk hw file (roundOffset file client.currentRound))
      (hserver : server.In file client.currentRound) :
      Phase hw file ⟨client, worker, toServer, [], none, server, true, none⟩
  | asking {client : Outgoing} {worker : Worker} {chunks : List ToServer} {server : Incoming}
      (hlt : roundOffset file client.currentRound < file.length)
      (hworker : worker.Asks (roundOffset file client.currentRound))
      (hack : worker = .wait (roundOffset file client.currentRound) → client.ackReceived = false)
      (hchunks : ∀ p ∈ chunks, p.Chunk hw file (roundOffset file client.currentRound))
      (hserver : server.In file client.currentRound) :
      Phase hw file ⟨client, worker, chunks ++ [.roundEnd client.currentRound
        (roundChunks file (roundOffset file client.currentRound)).length], [], none, server, true, none⟩
  | lost {client : Outgoing} {worker : Worker} {server : Incoming} {round : ℕ}
      (hlt : roundOffset file client.currentRound < file.length)
      (hworker : worker.Asks (roundOffset file client.currentRound))
      (hack : worker = .wait (roundOffset file client.currentRound) → client.ackReceived = false)
      (hserver : server.In file round) :
      Phase hw file ⟨client, worker, [], [], none, server, true, none⟩
  | answering {client : Outgoing} {worker : Worker} {server : Incoming} {toClient : List FileAck}
      {recording : Option (List ℕ)} {missing : List ℕ}
      (hlt : roundOffset file client.currentRound < file.length)
      (hworker : worker.Asks (roundOffset file client.currentRound))
      (hack : worker = .wait (roundOffset file client.currentRound) → client.ackReceived = false)
      (hanswer : toClient = [⟨client.currentRound, missing⟩] ∧ recording = none ∨
        toClient = [] ∧ recording = some missing)
      (hserver : server.In file (nextOf client.currentRound missing)) :
      Phase hw file ⟨client, worker, [], toClient, recording, server, true, none⟩
  | answered {client : Outgoing} {worker : Worker} {server : Incoming}
      (hlt : roundOffset file client.currentRound < file.length)
      (hworker : worker.Asks (roundOffset file client.currentRound))
      (hserver : server.In file (nextOf client.currentRound client.missingChunks)) :
      Phase hw file ⟨client, worker, [], [], none, server, true, none⟩
  | ended {client : Outgoing} {worker : Worker} {toServer : List ToServer} {server : Incoming}
      (hend : roundOffset file client.currentRound = file.length)
      (hworker : worker = .sendFileEnd ∧ toServer = [] ∨
        worker = .finished ∧ (toServer = [] ∨ toServer = [.fileEnd]))
      (hserver : server.In file client.currentRound) :
      Phase hw file ⟨client, worker, toServer, [], none, server, true, none⟩
  | reported {client : Outgoing} {server : Incoming} (hfile : server.fileStream = file) :
      Phase hw file ⟨client, .finished, [], [], none, server, false, some true⟩

namespace Phase

variable {hw : Bool} {file : List UInt8} {s s' : Upload}

theorem start (hw : Bool) (file : List UInt8) :
    Phase hw file (Upload.start file (.start file.length [])) := by
  have hround : (Incoming.start file.length []).receivedOffset / roundSize = 0 := Nat.zero_div _
  unfold Upload.start
  rw [hround, nextRound]
  split
  · rename_i hlt
    refine .sending ?_ ?_ ?_ (Incoming.in_start file)
    · simpa [roundOffset, Incoming.start] using hlt
    · simp [Worker.Sends, roundOffset, Incoming.start]
    · simp
  · rename_i hge
    refine .ended ?_ (.inl ⟨rfl, rfl⟩) (Incoming.in_start file)
    simpa [roundOffset, Incoming.start, eq_comm] using hge

theorem next {client : Outgoing} {server : Incoming}
    (hserver : server.In file (client.currentRound + 1)) :
    Phase hw file ⟨{ client with currentRound := client.currentRound + 1 },
      nextRound file (roundNext file (roundOffset file client.currentRound)), [], [], none, server,
      true, none⟩ := by
  rw [roundNext_roundOffset, nextRound]
  split
  · rename_i hlt
    exact .sending hlt rfl (by simp) hserver
  · rename_i hge
    refine .ended ?_ (.inl ⟨rfl, rfl⟩) hserver
    exact Nat.le_antisymm (Nat.min_le_right ..) (Nat.le_of_not_lt hge)

/-- A worker that has asked and has no answer clears `ackReceived`. -/
theorem work_of_asks {base : ℕ} (hworker : s.worker.Asks base)
    (hack : s.worker = .wait base → s.client.ackReceived = false)
    (hstep : s.work hw file = some s') :
    s' = { s with client := { s.client with ackReceived := false }, worker := .wait base } := by
  unfold Upload.work at hstep
  cases hpoint : s.worker <;> rw [hpoint] at hworker hstep <;> try cases hworker
  · cases hstep
    rfl
  · simp [hack hpoint] at hstep
  · cases hstep

theorem timeout_of_asks {base : ℕ} (hworker : s.worker.Asks base)
    (hstep : s.step hw file .timeout = some s') : s' = { s with worker := .gaveUp base } := by
  simp only [Upload.step] at hstep
  split at hstep
  · rename_i b hpoint
    rw [hpoint] at hworker
    cases (show b = base from hworker)
    split at hstep
    · cases hstep
    · cases hstep
      rfl
  · cases hstep

theorem chunk_append {toServer : List ToServer} {base : ℕ}
    (h : ∀ p ∈ toServer, p.Chunk hw file base) (i : ℕ) :
    ∀ p ∈ toServer ++ ((roundChunks file base)[i]?.map (chunkPacket hw)).toList,
      p.Chunk hw file base := by
  intro p hp
  rcases List.mem_append.mp hp with hp | hp
  · exact h p hp
  · simp only [Option.mem_toList, Option.map_eq_some_iff] at hp
    rcases hp with ⟨c, hc, rfl⟩
    exact ⟨c, List.mem_of_getElem? hc, rfl⟩

theorem work (h : Phase hw file s) (hstep : s.work hw file = some s') : Phase hw file s' := by
  cases h with
  | @sending client worker toServer server hlt hworker hchunks hserver =>
    cases worker with
    | sendChunk base i =>
      cases (show base = _ from hworker)
      simp only [Upload.work] at hstep
      split at hstep
      · cases hstep
        exact .sending hlt rfl (chunk_append hchunks i) hserver
      · cases hstep
        exact .sending hlt rfl hchunks hserver
    | sendRoundEnd base =>
      cases (show base = _ from hworker)
      cases hstep
      exact .asking hlt rfl (by simp) hchunks hserver
    | resend base missing =>
      cases (show base = _ from hworker)
      cases missing with
      | nil =>
        cases hstep
        exact .sending hlt rfl hchunks hserver
      | cons idx rest =>
        cases hstep
        exact .sending hlt rfl (chunk_append hchunks idx) hserver
    | clearAck | wait | gaveUp | sendFileEnd | finished => cases hworker
  | asking hlt hworker hack hchunks hserver =>
    rw [work_of_asks hworker hack hstep]
    exact .asking hlt rfl (fun _ => rfl) hchunks hserver
  | lost hlt hworker hack hserver =>
    rw [work_of_asks hworker hack hstep]
    exact .lost hlt rfl (fun _ => rfl) hserver
  | answering hlt hworker hack hanswer hserver =>
    rw [work_of_asks hworker hack hstep]
    exact .answering hlt rfl (fun _ => rfl) hanswer hserver
  | @answered client worker server hlt hworker hserver =>
    cases worker <;> try cases hworker
    · cases hstep
      exact .lost hlt rfl (fun _ => rfl) hserver
    · simp only [Upload.work] at hstep
      split at hstep
      · split at hstep
        · rename_i hmissing
          cases hstep
          simp only [nextOf, if_pos hmissing] at hserver
          exact next hserver
        · rename_i hmissing
          cases hstep
          simp only [nextOf, if_neg hmissing] at hserver
          exact .sending hlt rfl (by simp) hserver
      · cases hstep
    · cases hstep
  | ended hend hworker hserver =>
    rcases hworker with ⟨rfl, rfl⟩ | ⟨rfl, hserver'⟩
    · cases hstep
      exact .ended hend (.inr ⟨rfl, .inr rfl⟩) hserver
    · cases hstep
  | reported hfile => cases hstep

theorem timeout (h : Phase hw file s) (hstep : s.step hw file .timeout = some s') :
    Phase hw file s' := by
  cases h with
  | @sending client worker toServer server hlt hworker hchunks hserver =>
    cases worker <;> first | cases hworker; done | cases hstep
  | asking hlt hworker hack hchunks hserver =>
    rw [timeout_of_asks hworker hstep]
    exact .asking hlt rfl (by simp) hchunks hserver
  | lost hlt hworker hack hserver =>
    rw [timeout_of_asks hworker hstep]
    exact .lost hlt rfl (by simp) hserver
  | answering hlt hworker hack hanswer hserver =>
    rw [timeout_of_asks hworker hstep]
    exact .answering hlt rfl (by simp) hanswer hserver
  | answered hlt hworker hserver =>
    rw [timeout_of_asks hworker hstep]
    exact .answered hlt rfl hserver
  | ended hend hworker hserver =>
    rcases hworker with ⟨rfl, -⟩ | ⟨rfl, -⟩ <;> cases hstep
  | reported hfile => cases hstep

theorem deliver_chunk {isLost : Bool} {p : ToServer} {rest : List ToServer} {round : ℕ}
    (hactive : s.active = true) (htoServer : s.toServer = p :: rest)
    (hlt : roundOffset file round < file.length) (hserver : s.server.In file round)
    (hp : p.Chunk hw file (roundOffset file round))
    (hstep : s.step hw file (.deliver isLost) = some s') :
    ∃ server : Incoming, s' = { s with toServer := rest, server } ∧ server.In file round := by
  simp only [Upload.step, htoServer] at hstep
  cases isLost with
  | true =>
    cases hstep
    exact ⟨s.server, rfl, hserver⟩
  | false =>
    rcases hp with ⟨c, hc, rfl⟩
    cases hstep
    refine ⟨_, ?_, hserver.handleFileChunk hw hlt hc⟩
    simp [Upload.handle, hactive, chunkPacket]

theorem deliver {isLost : Bool} (h : Phase hw file s)
    (hstep : s.step hw file (.deliver isLost) = some s') : Phase hw file s' := by
  cases h with
  | @sending client worker toServer server hlt hworker hchunks hserver =>
    cases toServer with
    | nil => cases hstep
    | cons p rest =>
      obtain ⟨server', rfl, hserver'⟩ :=
        deliver_chunk rfl rfl hlt hserver (hchunks p List.mem_cons_self) hstep
      exact .sending hlt hworker (fun q hq => hchunks q (List.mem_cons_of_mem p hq)) hserver'
  | @asking client worker chunks server hlt hworker hack hchunks hserver =>
    cases chunks with
    | nil =>
      cases isLost with
      | true =>
        cases hstep
        exact .lost hlt hworker hack hserver
      | false =>
        cases hend : server.handleRoundEnd client.currentRound
          (roundChunks file (roundOffset file client.currentRound)).length with
        | mk server' ack =>
          obtain ⟨hround, hserver'⟩ := hserver.handleRoundEnd hend
          simp [Upload.step, Upload.handle, hend] at hstep
          cases hstep
          split
          · refine .answering hlt hworker hack (.inl ⟨?_, rfl⟩) hserver'
            rw [hround]
          · exact .lost hlt hworker hack hserver'
    | cons p rest =>
      obtain ⟨server', rfl, hserver'⟩ :=
        deliver_chunk rfl rfl hlt hserver (hchunks p List.mem_cons_self) hstep
      exact .asking hlt hworker hack (fun q hq => hchunks q (List.mem_cons_of_mem p hq)) hserver'
  | @ended client worker toServer server hend hworker hserver =>
    rcases hworker with ⟨rfl, rfl⟩ | ⟨rfl, rfl | rfl⟩
    · cases hstep
    · cases hstep
    · cases isLost with
      | true =>
        cases hstep
        exact .ended hend (.inr ⟨rfl, .inl rfl⟩) hserver
      | false =>
        have hsuccess : server.receivedOffset = server.totalSize := by
          rw [hserver.receivedOffset, hserver.totalSize, hend]
        have hfile : server.fileStream = file := by
          rw [hserver.fileStream, hend, List.take_length]
        simp [Upload.step, Upload.handle, hsuccess] at hstep
        cases hstep
        exact .reported hfile
  | _ => cases hstep

theorem deliverAck {isLost : Bool} (h : Phase hw file s)
    (hstep : s.step hw file (.deliverAck isLost) = some s') : Phase hw file s' := by
  cases h with
  | answering hlt hworker hack hanswer hserver =>
    rcases hanswer with ⟨rfl, rfl⟩ | ⟨rfl, rfl⟩
    · cases isLost with
      | true =>
        cases hstep
        exact .lost hlt hworker hack hserver
      | false =>
        cases hstep
        simp
        exact .answering hlt hworker hack (.inr ⟨rfl, rfl⟩) hserver
    · cases hstep
  | _ => cases hstep

theorem recordAck (h : Phase hw file s) (hstep : s.step hw file .recordAck = some s') :
    Phase hw file s' := by
  cases h with
  | answering hlt hworker hack hanswer hserver =>
    rcases hanswer with ⟨rfl, rfl⟩ | ⟨rfl, rfl⟩
    · cases hstep
    · cases hstep
      exact .answered hlt hworker hserver
  | _ => cases hstep

theorem of_step {a : Upload.Action} (h : Phase hw file s) (hstep : s.step hw file a = some s') :
    Phase hw file s' := by
  cases a with
  | work => exact h.work hstep
  | timeout => exact h.timeout hstep
  | deliver isLost => exact h.deliver hstep
  | deliverAck isLost => exact h.deliverAck hstep
  | recordAck => exact h.recordAck hstep

theorem exists_in (h : Phase hw file s) (hactive : s.active = true) :
    ∃ round, s.server.In file round := by
  cases h with
  | sending hlt hworker hchunks hserver | asking hlt hworker hack hchunks hserver
  | lost hlt hworker hack hserver | answering hlt hworker hack hanswer hserver
  | answered hlt hworker hserver | ended hend hworker hserver => exact ⟨_, hserver⟩
  | reported hfile => cases hactive

theorem fileStream_eq (h : Phase hw file s) (hstatus : s.status = some true) :
    s.server.fileStream = file := by
  cases h with
  | reported hfile => exact hfile
  | sending | asking | lost | answering | answered | ended => cases hstatus

end Phase

/-- **Uploads are intact.**  A file of up to 5 MiB is taken.  Whatever packets are lost,
and however the worker, the server and the receive thread interleave: while the transfer
runs, the file at the server is the beginning of the file that is sent, as far as
`receivedOffset`, and this is the end of a round or of the file; and if success is
reported, the two files are the same. -/
theorem upload_intact (hw : Bool) (file : List UInt8) (hsize : file.length ≤ 1024 * 1024 * 5) :
    ∃ server, handleFileStart file.length [] = some server ∧
      ∀ s, Reaches (Upload.step hw file) (fun _ _ => True) (Upload.start file server) s →
        (s.active = true →
          s.server.fileStream = file.take s.server.receivedOffset ∧
          (s.server.receivedOffset = s.server.currentRound * (maxChunkSize * maxChunksPerRound) ∨
            s.server.receivedOffset = file.length)) ∧
        (s.status = some true → s.server.fileStream = file) := by
  refine ⟨.start file.length [], if_neg (Nat.not_lt.mpr hsize), ?_⟩
  intro s hreach
  have hphase : Phase hw file s := by
    apply hreach.invariant
    · exact Phase.start hw file
    · intro s a s' _ h _ hstep
      exact h.of_step hstep
  refine ⟨?_, hphase.fileStream_eq⟩
  intro hactive
  obtain ⟨round, hserver⟩ := hphase.exists_in hactive
  rw [hserver.receivedOffset, hserver.currentRound]
  refine ⟨hserver.fileStream, ?_⟩
  rcases Nat.le_total (round * roundSize) file.length with hle | hle
  · exact .inl (Nat.min_eq_left hle)
  · exact .inr (Nat.min_eq_right hle)

/-- The chunk of a small file is lost, and is sent again when the server has said so. -/
theorem upload_intact_resend :
    ∃ s, Transition.run (Upload.step true [1, 2]) (Upload.start [1, 2] (.start 2 []))
        [.work, .work, .work, .deliver true, .deliver false, .work, .deliverAck false, .recordAck,
          .work, .work, .work, .work, .work, .deliver false, .deliver false, .deliverAck false,
          .recordAck, .work, .work, .deliver false] = some s ∧
      s.status = some true ∧ s.server.fileStream = [1, 2] := by
  obtain ⟨s, hrun, hstatus⟩ := exists_run (Upload.step true [1, 2])
    (Upload.start [1, 2] (.start 2 []))
    [.work, .work, .work, .deliver true, .deliver false, .work, .deliverAck false, .recordAck,
      .work, .work, .work, .work, .work, .deliver false, .deliver false, .deliverAck false,
      .recordAck, .work, .work, .deliver false] (fun s => s.status = some true) (by decide +kernel)
  obtain ⟨server, hstart, hintact⟩ := upload_intact true [1, 2] (by decide)
  cases hstart
  exact ⟨s, hrun, hstatus,
    (hintact s (reaches_of_run (meets_of_forall fun _ _ _ => trivial) hrun)).2 hstatus⟩

end FileTransfer

end IocpChat

import IocpChat.FileTransfer.ClientDownloads
import IocpChat.Pool.FreeList

/-!
# Acknowledgements of rounds

At the end of a round the receiver answers with the slots that are empty.  A packet has room for
1014 of them, and a round has 1024.  If more are missing, `serializeFileAck` refuses; `sendAck` and
`sendRoundAck` do not look at what it returns, and hand on the packet as it was before.

The server makes its answers in packets of the pool, the client in a local one.

## Main definitions

* `sendAck`, `Client.sendRoundAck` — the packets with the answer.
* `Incoming.emptySlots`, `Incoming.advanced` — what is missing, and a round that is complete.
* `UploadServer.RoundAcked`, `ClientDownloads.RoundAcked` — the answer says what is missing.
-/

namespace IocpChat

open Pieces Transition

/-! ## The code -/

namespace FileTransfer

/-- An answer as it is serialized. -/
def ackMessage (lib : Client.Host) (uploadId : Key) (roundId : ℕ) (missingChunks : List ℕ) : Message :=
  .fileAck (Client.hexToBytes lib uploadId) (UInt32.ofNat roundId) (missingChunks.map UInt32.ofNat)

/-- The packet that `sendAck` hands on, in the pool.  There is no result if no packet is left: the
pointer is used all the same. -/
def sendAck (hw : Bool) (lib : Client.Host) (store : PacketStore) (uploadId : Key) (roundId : ℕ)
    (missingChunks : List ℕ) : Option (PacketStore × PacketPtr) :=
  store.borrowPacket.bind fun
    | (_, none) => none
    | (store, some p) =>
      some (store.modifyPacket p fun packet =>
        ((ackMessage lib uploadId roundId missingChunks).serialize hw packet).2, p)

end FileTransfer

/-- The packet that `sendRoundAck` hands on. -/
def Client.sendRoundAck (hw : Bool) (host : Host) (junk : Junk) (uploadId : Key) (roundId : ℕ)
    (missing : List ℕ) : Packet :=
  ((FileTransfer.ackMessage host uploadId roundId missing).serialize hw (localPacket junk)).2

namespace FileTransfer

/-! ## The end of a round -/

namespace Incoming

/-- The slots below a number that are empty, in their order. -/
def emptySlots (s : Incoming) (chunkCount : ℕ) : List ℕ :=
  (List.range chunkCount).filter fun i => s.roundBuffer[i]? = some []

/-- The round is written, and the next one begins. -/
def advanced (s : Incoming) : Incoming :=
  { s with
    fileStream := s.fileStream ++ s.roundBuffer.flatten
    receivedOffset := s.receivedOffset + s.roundBuffer.flatten.length
    roundBuffer := List.replicate s.roundBuffer.length []
    currentRound := s.currentRound + 1 }

variable {s : Incoming} {chunkCount : ℕ}

theorem missing_eq_emptySlots (h : chunkCount ≤ s.roundBuffer.length) :
    missing s.roundBuffer chunkCount = s.emptySlots chunkCount := by
  apply List.filter_congr
  intro i hi
  have hlt : i < s.roundBuffer.length := (List.mem_range.mp hi).trans_le h
  rw [List.getElem?_eq_getElem hlt]
  cases s.roundBuffer[i] <;> simp

/-- **The end of the current round.** -/
theorem handleRoundEnd_current (h : chunkCount ≤ s.roundBuffer.length) :
    s.handleRoundEnd s.currentRound chunkCount =
      (if s.emptySlots chunkCount = [] then s.advanced else s, s.currentRound,
        s.emptySlots chunkCount) := by
  rw [handleRoundEnd, if_neg (not_not.mpr rfl), missing_eq_emptySlots h]
  by_cases hempty : s.emptySlots chunkCount = []
  · simp [hempty, writeRoundToDisk_eq, advanced]
  · simp [hempty]

theorem emptySlots_start (totalSize : ℕ) (fileStream : List UInt8) (h : chunkCount ≤ maxChunksPerRound) :
    (start totalSize fileStream).emptySlots chunkCount = List.range chunkCount := by
  apply List.filter_eq_self.mpr
  intro i hi
  have hlt : i < maxChunksPerRound := (List.mem_range.mp hi).trans_le h
  simp [start, hlt]

end Incoming

section Answers

variable (hw : Bool) (lib : Client.Host) (store : PacketStore) (junk : Client.Junk) (uploadId : Key)
  (roundId : ℕ) (missingChunks : List ℕ)

theorem wireSize_ackMessage_le_iff :
    (ackMessage lib uploadId roundId missingChunks).wireSize ≤ dataSize ↔
      missingChunks.length ≤ 1014 := by
  have hsize : (ackMessage lib uploadId roundId missingChunks).wireSize =
      40 + 4 * missingChunks.length := by
    simp [ackMessage, Message.wireSize, Message.structSize, Message.variableSize, headerSize]
  rw [hsize, dataSize]
  omega

theorem decodesAs_sendRoundAck_iff :
    (Client.sendRoundAck hw lib junk uploadId roundId missingChunks).DecodesAs hw
        (ackMessage lib uploadId roundId missingChunks) ↔ missingChunks.length ≤ 1014 := by
  rw [Client.sendRoundAck, Message.decodesAs_serialize_iff, wireSize_ackMessage_le_iff]

theorem decodesAs_sendAck_iff :
    (∃ r ∈ sendAck hw lib store uploadId roundId missingChunks,
      (r.1.pool r.2).DecodesAs hw (ackMessage lib uploadId roundId missingChunks)) ↔
        missingChunks.length ≤ 1014 ∧ ∃ store' p, store.borrowPacket = some (store', some p) := by
  unfold sendAck
  rcases hborrow : store.borrowPacket with - | ⟨store', - | p⟩
  · simp
  · simp
  · simp [PacketStore.modifyPacket, Message.decodesAs_serialize_iff, wireSize_ackMessage_le_iff]

end Answers

/-! ## The server -/

namespace UploadServer

variable {host : Host} {hw : Bool} {lib : Client.Host} {s s' : UploadServer} {id : UploadId}
  {t : Transfer} {chunkCount : ℕ}

/-- Every upload has all its slots. -/
def AllSlots (s : UploadServer) : Prop :=
  ∀ key, ∀ t ∈ s.transfers key, t.state.roundBuffer.length = maxChunksPerRound

theorem allSlots_start (files : Key → List UInt8) : (start files).AllSlots := by
  rintro key t ⟨⟩

theorem AllSlots.step (h : s.AllSlots) {a : UploadId × UploadPacket} (hstep : step host hw s a = some s') :
    s'.AllSlots := by
  obtain ⟨id, p⟩ := a
  intro key t ht
  by_cases hkey : key = id.key
  · subst hkey
    obtain ⟨content, hmakes, -⟩ := makes_of_step hstep ht
    generalize hbefore : s.transfers id.key = transfer at hmakes
    cases hmakes with
    | start hopened hsize => simp [Incoming.start]
    | refuse hopened => exact h id.key t hbefore
    | chunk => exact Incoming.length_handleFileChunk.trans (h id.key _ hbefore)
    | round hstate hcontent =>
      rw [← hstate, Incoming.length_handleRoundEnd]
      exact h id.key _ hbefore
  · obtain ⟨r, -, rfl⟩ := Option.map_eq_some_iff.mp hstep
    exact h key t (by simpa [hkey] using ht)

theorem allSlots_of_reaches {ok : UploadServer → UploadId × UploadPacket → Prop}
    {files : Key → List UInt8} (h : Reaches (step host hw) ok (start files) s) : s.AllSlots :=
  h.invariant (allSlots_start files) fun _ _ _ _ hs _ hstep => hs.step hstep

/-- **The answer to a round of an upload**: it is decoded as the list of the slots that are empty,
and the round is written and the next one begins if there are none. -/
def RoundAcked (host : Host) (hw : Bool) (lib : Client.Host) (s : UploadServer) (store : PacketStore)
    (id : UploadId) (t : Transfer) (chunkCount : ℕ) : Prop :=
  ∃ s' roundId missing,
    step host hw s (id, .roundEnd t.state.currentRound chunkCount) = some s' ∧
    s'.answers = s.answers ++ [(id, .ack t.senderId roundId missing)] ∧
    (∃ r ∈ sendAck hw lib store id.key roundId missing, (r.1.pool r.2).DecodesAs hw
      (ackMessage lib id.key t.state.currentRound (t.state.emptySlots chunkCount))) ∧
    s'.files t.file = (if t.state.emptySlots chunkCount = [] then
      s.files t.file ++ t.state.roundBuffer.flatten else s.files t.file) ∧
    ∀ t' ∈ s'.transfers id.key, t'.state =
      if t.state.emptySlots chunkCount = [] then { t.state with fileStream := s.files t.file }.advanced
      else { t.state with fileStream := s.files t.file }

theorem step_roundEnd (ht : s.transfers id.key = some t)
    (hcount : chunkCount ≤ t.state.roundBuffer.length) :
    step host hw s (id, .roundEnd t.state.currentRound chunkCount) = some
      (let r := { t.state with fileStream := s.files t.file }.handleRoundEnd t.state.currentRound chunkCount
      { transfers := Function.update s.transfers id.key (some { t with state := r.1 })
        files := Function.update s.files t.file r.1.fileStream
        answers := s.answers ++ [(id, .ack t.senderId r.2.1 r.2.2)] }) := by
  simp only [step, ht, UploadPacket.target, Option.map_some, Option.elim_some, UploadPacket.handle]
  rw [if_neg (fun h => Nat.not_lt.mpr hcount h.2)]
  rfl

theorem roundAcked_iff (ht : s.transfers id.key = some t)
    (hcount : chunkCount ≤ t.state.roundBuffer.length) (store : PacketStore) :
    RoundAcked host hw lib s store id t chunkCount ↔
      (t.state.emptySlots chunkCount).length ≤ 1014 ∧
        ∃ store' p, store.borrowPacket = some (store', some p) := by
  have hround := Incoming.handleRoundEnd_current (s := { t.state with fileStream := s.files t.file })
    hcount
  have hempty : Incoming.emptySlots { t.state with fileStream := s.files t.file } chunkCount =
      t.state.emptySlots chunkCount := rfl
  simp only [hempty] at hround
  rw [RoundAcked, step_roundEnd ht hcount, ← decodesAs_sendAck_iff hw lib store id.key
    t.state.currentRound]
  simp only [hround]
  constructor
  · rintro ⟨s', roundId, missing, ⟨⟩, hanswers, hdecodes, -, -⟩
    simp [List.append_cancel_left_eq, UploadAnswer.ack.injEq] at hanswers
    obtain ⟨rfl, rfl⟩ := hanswers
    exact hdecodes
  · intro hdecodes
    refine ⟨_, _, _, rfl, rfl, hdecodes, ?_, ?_⟩
    · by_cases hnil : t.state.emptySlots chunkCount = []
      · simp [hnil, Incoming.advanced]
      · simp [hnil]
    · intro t' ht'
      simp at ht'
      subst ht'
      rfl

end UploadServer

/-! ## The client -/

namespace ClientDownloads

variable {host : Host} {reads : Key → Bool} {hw : Bool} {lib : Client.Host} {s s' : ClientDownloads}
  {id : UploadId} {d : DownloadState} {chunkCount : ℕ}

/-- What is in the file of a download, or what was written to a stream that is not open. -/
def content (s : ClientDownloads) (d : DownloadState) : List UInt8 :=
  d.file.elim d.state.fileStream s.files

/-- **The answer to a round of a download.** -/
def RoundAcked (host : Host) (reads : Key → Bool) (hw : Bool) (lib : Client.Host) (s : ClientDownloads)
    (junk : Client.Junk) (id : UploadId) (d : DownloadState) (chunkCount : ℕ) : Prop :=
  ∃ s' roundId missing,
    step host reads hw s (id, .roundEnd d.state.currentRound chunkCount) = some s' ∧
    s'.answers = s.answers ++ [(id, .ack roundId missing)] ∧
    (Client.sendRoundAck hw lib junk id.key roundId missing).DecodesAs hw
      (ackMessage lib id.key d.state.currentRound (d.state.emptySlots chunkCount)) ∧
    ∀ d' ∈ s'.activeDownloads id.key,
      s'.content d' = (if d.state.emptySlots chunkCount = [] then
        s.content d ++ d.state.roundBuffer.flatten else s.content d) ∧
      d'.state = if d.state.emptySlots chunkCount = [] then
          { d.state with fileStream := s.content d }.advanced
        else { d.state with fileStream := s.content d }

theorem roundAcked_iff (hd : s.activeDownloads id.key = some d)
    (hcount : chunkCount ≤ d.state.roundBuffer.length) (junk : Client.Junk) :
    RoundAcked host reads hw lib s junk id d chunkCount ↔
      (d.state.emptySlots chunkCount).length ≤ 1014 := by
  have hround := Incoming.handleRoundEnd_current (s := { d.state with fileStream := s.content d })
    hcount
  have hempty : Incoming.emptySlots { d.state with fileStream := s.content d } chunkCount =
      d.state.emptySlots chunkCount := rfl
  have hhandle : s.handleRoundEnd d d.state.currentRound chunkCount =
      { d.state with fileStream := s.content d }.handleRoundEnd d.state.currentRound chunkCount := rfl
  simp only [hempty] at hround
  rw [RoundAcked, ← decodesAs_sendRoundAck_iff hw lib junk id.key d.state.currentRound]
  simp only [step, hd, if_neg (fun h : _ ∧ _ => Nat.not_lt.mpr hcount h.2), hhandle, hround]
  constructor
  · rintro ⟨s', roundId, missing, ⟨⟩, hanswers, hdecodes, -⟩
    simp [List.append_cancel_left_eq, DownloadAnswer.ack.injEq] at hanswers
    obtain ⟨rfl, rfl⟩ := hanswers
    exact hdecodes
  · intro hdecodes
    refine ⟨_, _, _, rfl, rfl, hdecodes, ?_⟩
    intro d' hd'
    simp only [Function.update_self, Option.mem_some_iff] at hd'
    subst hd'
    refine ⟨?_, rfl⟩
    by_cases hnil : d.state.emptySlots chunkCount = []
    · cases hfile : d.file <;> simp [content, hnil, hfile, Incoming.advanced]
    · cases hfile : d.file <;> simp [content, hnil, hfile]

end ClientDownloads

/-- **When an answer says what is missing.**  In every state of the server and of a client, the
end of the current round with a possible number of chunks is answered with the slots that are
empty if and only if these are at most 1014, and the server has a packet left. -/
theorem roundAcked_reachable_iff (hw : Bool) (lib : Client.Host) :
    (∀ (host : Host) (files : Key → List UInt8) (s : UploadServer),
      Reaches (UploadServer.step host hw) (fun _ _ => True) (.start files) s →
      ∀ (id : UploadId), ∀ t ∈ s.transfers id.key, ∀ chunkCount ≤ maxChunksPerRound,
      ∀ store : PacketStore,
        UploadServer.RoundAcked host hw lib s store id t chunkCount ↔
          (t.state.emptySlots chunkCount).length ≤ 1014 ∧
            ∃ store' p, store.borrowPacket = some (store', some p)) ∧
    ∀ (host : Host) (reads : Key → Bool) (files : Key → List UInt8) (s : ClientDownloads),
      Reaches (ClientDownloads.step host reads hw) (fun _ _ => True) (.start files) s →
      ∀ (id : UploadId), ∀ d ∈ s.activeDownloads id.key, ∀ chunkCount ≤ maxChunksPerRound,
      ∀ junk : Client.Junk,
        ClientDownloads.RoundAcked host reads hw lib s junk id d chunkCount ↔
          (d.state.emptySlots chunkCount).length ≤ 1014 := by
  constructor
  · intro host files s hreach id t ht chunkCount hcount store
    have hslots := UploadServer.allSlots_of_reaches hreach id.key t ht
    exact UploadServer.roundAcked_iff ht (hcount.trans hslots.ge) store
  · intro host reads files s hreach id d hd chunkCount hcount junk
    have hslots := ClientDownloads.allSlots_of_reaches hreach id.key d hd
    exact ClientDownloads.roundAcked_iff hd (hcount.trans hslots.ge) junk

/-! ## A round that is lost -/

/-- The id of the upload in the examples. -/
def sampleUploadId : UploadId := .replicate 16 0

/-- The partial file of this upload. -/
def sampleFile : Key := plainHost.tempPath sampleUploadId [] (text "a.txt")

/-- The upload of a file of this size has begun. -/
def startedUpload (totalSize : ℕ) : UploadServer where
  transfers := Function.update (fun _ => none) sampleUploadId.key
    (some ⟨[], sampleFile, .start totalSize []⟩)
  files := fun _ => []
  answers := [(sampleUploadId, .fileStartResponse [] 0)]

theorem reaches_startedUpload (hw : Bool) {totalSize : ℕ} (h : totalSize ≤ maxFileSize) :
    Reaches (UploadServer.step plainHost hw) (fun _ _ => True) (.start fun _ => [])
      (startedUpload totalSize) := by
  refine .single ⟨(sampleUploadId, .fileStart [] [] totalSize (text "a.txt") []), trivial, ?_⟩
  have hopened : UploadPacket.opened plainHost
      (sampleUploadId, .fileStart [] [] totalSize (text "a.txt") []) = some sampleFile := by
    simp [UploadPacket.opened, plainHost, h, sampleFile]
  simp only [UploadServer.step, UploadPacket.handle, FileTransfer.handleFileStart,
    if_neg (Nat.not_lt.mpr h), UploadPacket.target, hopened, Option.elim_some]
  simp [startedUpload, UploadServer.start, plainHost, sampleFile, Incoming.start]

/-- Of a round of one chunk nothing has arrived, and the server says so. -/
theorem roundAcked_oneChunk :
    UploadServer.RoundAcked plainHost false Client.sampleHost (startedUpload 1) .new sampleUploadId
      ⟨[], sampleFile, .start 1 []⟩ 1 := by
  refine ((roundAcked_reachable_iff false Client.sampleHost).1 plainHost (fun _ => []) (startedUpload 1)
    (reaches_startedUpload false (by decide)) sampleUploadId _ ?_ 1 (by decide) .new).mpr ?_
  · simp [startedUpload]
  · rw [Incoming.emptySlots_start 1 [] (by decide)]
    exact ⟨by decide, _, _, PacketStore.borrowPacket_new⟩

/-- Of a round of 1024 chunks nothing has arrived.  This does not fit into an answer. -/
theorem not_roundAcked_lostRound :
    Reaches (UploadServer.step plainHost false) (fun _ _ => True) (.start fun _ => [])
        (startedUpload roundSize) ∧
      ¬ UploadServer.RoundAcked plainHost false Client.sampleHost (startedUpload roundSize) .new
        sampleUploadId ⟨[], sampleFile, .start roundSize []⟩ maxChunksPerRound := by
  refine ⟨reaches_startedUpload false (by decide), ?_⟩
  rw [UploadServer.roundAcked_iff (by simp [startedUpload]) (by simp [Incoming.start]),
    Incoming.emptySlots_start _ _ (Nat.le_refl _), List.length_range]
  rintro ⟨hfew, -⟩
  exact absurd hfew (by decide)

end FileTransfer

end IocpChat

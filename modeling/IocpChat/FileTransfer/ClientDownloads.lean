import IocpChat.Client.Requests

/-!
# Downloads at the client

The client keeps a `DownloadState` for each upload that it downloads.  `handleFileStart` opens the
file for appending, and goes on behind what is in it already.  The handlers of chunks and of the
end of a round are those of the server; the file is not written to if it could not be opened.
`handleFileEnd` compares the number of bytes, and the checksum of the file unless the server has
sent 0 for it.

The packets are those whose lengths are right.  As at the server, a `ROUND_END` that counts more
chunks than there are slots reads past the end of `roundBuffer`, and has no result.

## Main definitions

* `DownloadState`, `DownloadPacket`, `DownloadAnswer` — a download, and what it is about.
* `ClientDownloads`, `ClientDownloads.step` — the downloads of a client and their files.
* `ClientDownloads.AllSlots` — every download has all its slots.
-/

namespace IocpChat

open Transition

namespace FileTransfer

/-! ## The code -/

/-- `DownloadState`, with the file that its stream appends to, if that is open. -/
structure DownloadState where
  fileName : Key
  file : Option Key
  state : Incoming

inductive DownloadPacket
  /-- `FILE_START`, and the time at which it is handled. -/
  | fileStart (totalSize : ℕ) (name time : Key)
  | fileChunk (byteOffset : ℕ) (crc : UInt32) (data : List UInt8)
  | roundEnd (roundId chunkCount : ℕ)
  | fileEnd (finalCrc : UInt32)

/-- What the client answers, and what it reports. -/
inductive DownloadAnswer
  | ack (roundId : ℕ) (missing : List ℕ)
  | finished (fileName : Key) (success : Bool)
  deriving DecidableEq

/-- The downloads in progress, the files, and what was answered. -/
structure ClientDownloads where
  activeDownloads : Key → Option DownloadState
  files : Key → List UInt8
  answers : List (UploadId × DownloadAnswer)

def downloadPath (fileName : Key) : Key := text "./downloads/" ++ fileName

namespace ClientDownloads

variable (host : Host) (reads : Key → Bool) (hw : Bool)

/-- A client that finds some files. -/
def start (files : Key → List UInt8) : ClientDownloads := ⟨fun _ => none, files, []⟩

/-- `handleFileStart`. -/
def handleFileStart (s : ClientDownloads) (totalSize : ℕ) (name time : Key) : DownloadState :=
  let fileName := host.sanitize time name
  let path := downloadPath fileName
  let file := if host.opens path then some (host.file path) else none
  ⟨fileName, file, .start totalSize (file.elim [] s.files)⟩

/-- `computeFileCRC` of a download. -/
def computeFileCrc (s : ClientDownloads) (fileName : Key) : UInt32 :=
  let path := downloadPath fileName
  Client.computeFileCrc hw ⟨none, if reads path then some (s.files (host.file path)) else none⟩

/-- If `handleFileEnd` reports a success. -/
def success (s : ClientDownloads) (d : DownloadState) (finalCrc : UInt32) : Bool :=
  d.state.receivedOffset = d.state.totalSize ∧
    (finalCrc ≠ 0 → s.computeFileCrc host reads hw d.fileName = finalCrc)

/-- `handleRoundEnd` for a download in progress. -/
def handleRoundEnd (s : ClientDownloads) (d : DownloadState) (roundId chunkCount : ℕ) :
    Incoming × ℕ × List ℕ :=
  { d.state with fileStream := d.file.elim d.state.fileStream s.files }.handleRoundEnd roundId chunkCount

def step (s : ClientDownloads) : UploadId × DownloadPacket → Option ClientDownloads
  | (id, .fileStart totalSize name time) =>
    some { s with
      activeDownloads := Function.update s.activeDownloads id.key
        (some (s.handleFileStart host totalSize name time)) }
  | (id, .fileChunk byteOffset crc data) =>
    some { s with
      activeDownloads := Function.update s.activeDownloads id.key
        ((s.activeDownloads id.key).map fun d =>
          { d with state := d.state.handleFileChunk hw byteOffset crc data }) }
  | (id, .roundEnd roundId chunkCount) =>
    match s.activeDownloads id.key with
    | none => some s
    | some d =>
      if roundId = d.state.currentRound ∧ d.state.roundBuffer.length < chunkCount then none
      else
        let r := s.handleRoundEnd d roundId chunkCount
        some
          { activeDownloads := Function.update s.activeDownloads id.key (some { d with state := r.1 })
            files := d.file.elim s.files fun file => Function.update s.files file r.1.fileStream
            answers := s.answers ++ [(id, .ack r.2.1 r.2.2)] }
  | (id, .fileEnd finalCrc) =>
    match s.activeDownloads id.key with
    | none => some s
    | some d =>
      some { s with
        activeDownloads := Function.update s.activeDownloads id.key none
        answers := s.answers ++ [(id, .finished d.fileName (s.success host reads hw d finalCrc))] }

/-- Every download has all its slots. -/
def AllSlots (s : ClientDownloads) : Prop :=
  ∀ key, ∀ d ∈ s.activeDownloads key, d.state.roundBuffer.length = maxChunksPerRound

end ClientDownloads

/-! ## The slots -/

namespace ClientDownloads

variable {host : Host} {reads : Key → Bool} {hw : Bool} {s s' : ClientDownloads}

theorem AllSlots.update (h : s.AllSlots) {key : Key} {d : Option DownloadState}
    (hd : ∀ d' ∈ d, d'.state.roundBuffer.length = maxChunksPerRound)
    (hs' : s'.activeDownloads = Function.update s.activeDownloads key d) : s'.AllSlots := by
  intro key' d' hd'
  rw [hs'] at hd'
  by_cases hkey : key' = key
  · subst hkey
    exact hd d' (by simpa using hd')
  · exact h key' d' (by simpa [hkey] using hd')

theorem AllSlots.step (h : s.AllSlots) {a : UploadId × DownloadPacket}
    (hstep : step host reads hw s a = some s') : s'.AllSlots := by
  obtain ⟨id, p⟩ := a
  cases p with
  | fileStart totalSize name time =>
    cases hstep
    refine h.update ?_ rfl
    rintro d ⟨⟩
    simp [handleFileStart, Incoming.start]
  | fileChunk byteOffset crc data =>
    cases hstep
    refine h.update ?_ rfl
    intro d hd
    obtain ⟨d₀, hd₀, rfl⟩ := Option.map_eq_some_iff.mp hd
    rw [Incoming.length_handleFileChunk]
    exact h id.key d₀ hd₀
  | roundEnd roundId chunkCount =>
    simp only [ClientDownloads.step] at hstep
    split at hstep
    · cases hstep
      exact h
    · rename_i d hd
      split at hstep
      · cases hstep
      · cases hstep
        refine h.update ?_ rfl
        rintro _ ⟨⟩
        exact (Incoming.length_handleRoundEnd ..).trans (h id.key d hd)
  | fileEnd finalCrc =>
    simp only [ClientDownloads.step] at hstep
    split at hstep
    · cases hstep
      exact h
    · cases hstep
      refine h.update ?_ rfl
      rintro _ ⟨⟩

theorem allSlots_of_reaches {ok : ClientDownloads → UploadId × DownloadPacket → Prop}
    {files : Key → List UInt8} (h : Reaches (step host reads hw) ok (start files) s) : s.AllSlots := by
  have hstart : (start files).AllSlots := by
    rintro key d ⟨⟩
  exact h.invariant hstart fun s a s' _ hs _ hstep => hs.step hstep

end ClientDownloads

end FileTransfer

end IocpChat

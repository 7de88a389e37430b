import IocpChat.FileTransfer.Downloads
import IocpChat.FileTransfer.Upload
import IocpChat.Lib.Handshake

/-!
# Waiting for an acknowledgement

Whoever sends a file asks at the end of a round which chunks are missing, and waits for the answer:
`uploadWorker` at a client, `HandleFileTransfer` at the server.  Both clear `ackReceived` after they
have sent `ROUND_END`.  The handler of acknowledgements, `handleFileAck` or `onAckReceived`, compares
the round of an answer with `currentRound`, and then takes the lock and records what is missing.

An answer that is recorded before the flag is cleared is thrown away.  At the server, so is every
answer for another round than the one in the `TransferState`, which does not count along.  Here any
answers may arrive at any time, and other answers may be handled between the two steps of a handler.

## Main definitions

* `WaitAction` — the steps of the sender and of the handlers.
* `UploadWait`, `UploadWait.step` — an upload at its client.
* `DownloadWait`, `DownloadWait.step` — a download at the server.
-/

namespace IocpChat

open Transition

namespace FileTransfer

inductive WaitAction
  | work
  | timeout
  /-- A handler compares the round of an answer. -/
  | compare (ack : FileAck)
  /-- The handler of one of the answers that have been compared records it. -/
  | record (i : ℕ)

/-! ## Uploads -/

/-- An upload at its client, with the answers that are to be recorded.  It is noted which answer for
the current round was handled last since the worker has asked. -/
structure UploadWait where
  upload : Upload
  recording : List FileAck
  handled : Option (List ℕ)

/-- Where the worker is between the question and the answer. -/
def Worker.phase : Worker → Handshake.Phase
  | .clearAck _ => .asked
  | .wait _ => .waiting
  | _ => .idle

namespace UploadWait

variable (hw : Bool) (file : List UInt8)

/-- The worker begins where the server says. -/
def start (file : List UInt8) (server : Incoming) : UploadWait := ⟨.start file server, [], none⟩

/-- The wait of the worker as a handshake.  The worker and the handler go by the same round. -/
def view (s : UploadWait) : Handshake ℕ (List ℕ) where
  phase := s.upload.worker.phase
  own := s.upload.client.currentRound
  expected := s.upload.client.currentRound
  received := s.upload.client.ackReceived
  answer := s.upload.client.missingChunks
  handled := s.handled

def step (s : UploadWait) : WaitAction → Option UploadWait
  | .work =>
    (s.upload.work hw file).map fun upload =>
      { s with
        upload
        handled := match s.upload.worker with
          | .sendRoundEnd _ => none
          | _ => s.handled }
  | .timeout => (s.upload.step hw file .timeout).map fun upload => { s with upload }
  | .compare ack =>
    some (if ack.roundId ≠ s.upload.client.currentRound then s
      else { s with recording := s.recording ++ [ack] })
  | .record i =>
    s.recording[i]?.map fun ack =>
      { upload := { s.upload with client := s.upload.client.record ack.missingChunks }
        recording := s.recording.eraseIdx i
        handled := s.view.note ack.roundId ack.missingChunks }

/-- What a step is for the handshake. -/
def event (s : UploadWait) (a : WaitAction) (s' : UploadWait) : Handshake.Event ℕ (List ℕ) :=
  match a with
  | .work =>
    match s.upload.worker with
    | .sendRoundEnd _ => .ask
    | .clearAck _ => .clear
    | _ => .leave s'.view.own s'.view.expected
  | .timeout => .leave s'.view.own s'.view.expected
  | .compare ack => .compare ack.roundId ack.missingChunks
  | .record i =>
    match s.recording[i]? with
    | some ack => .record ack.roundId ack.missingChunks
    | none => .leave s'.view.own s'.view.expected

variable {hw file} {s s' : UploadWait}

theorem phase_nextRound (file : List UInt8) (bytesSent : ℕ) : (nextRound file bytesSent).phase = .idle := by
  unfold nextRound
  split <;> rfl

theorem view_work (hstep : step hw file s .work = some s') : s'.view = s.view.exec (s.event .work s') := by
  obtain ⟨upload, hwork, rfl⟩ := Option.map_eq_some_iff.mp hstep
  cases hworker : s.upload.worker with
  | sendChunk base i =>
    simp only [Upload.work, hworker] at hwork
    split at hwork
    · cases hwork
      simp [view, event, hworker, Handshake.exec, Worker.phase, Upload.sendFileChunk]
    · cases hwork
      simp [view, event, hworker, Handshake.exec, Worker.phase]
  | wait base =>
    simp only [Upload.work, hworker] at hwork
    split at hwork
    · split at hwork
      · cases hwork
        simp [view, event, hworker, Handshake.exec, phase_nextRound]
      · cases hwork
        simp [view, event, hworker, Handshake.exec, Worker.phase]
    · cases hwork
  | resend base missingChunks =>
    cases missingChunks with
    | nil =>
      simp only [Upload.work, hworker] at hwork
      cases hwork
      simp [view, event, hworker, Handshake.exec, Worker.phase]
    | cons idx rest =>
      simp only [Upload.work, hworker] at hwork
      cases hwork
      simp [view, event, hworker, Handshake.exec, Worker.phase, Upload.sendFileChunk]
  | gaveUp | finished => simp [Upload.work, hworker] at hwork
  | _ =>
    simp only [Upload.work, hworker] at hwork
    cases hwork
    simp [view, event, hworker, Handshake.exec, Worker.phase]

/-- **Every step of an upload is an event of the handshake.** -/
theorem view_step (a : WaitAction) (hstep : step hw file s a = some s') :
    s'.view = s.view.exec (s.event a s') := by
  cases a with
  | work => exact view_work hstep
  | timeout =>
    obtain ⟨upload, htimeout, rfl⟩ := Option.map_eq_some_iff.mp hstep
    simp only [Upload.step] at htimeout
    split at htimeout
    · split at htimeout
      · cases htimeout
      · cases htimeout
        rfl
    · cases htimeout
  | compare ack =>
    cases hstep
    simp only [event, Handshake.exec]
    by_cases hround : ack.roundId = s.upload.client.currentRound
    · simp [view, hround]
    · simp [view, hround, Handshake.note]
  | record i =>
    obtain ⟨ack, hack, rfl⟩ := Option.map_eq_some_iff.mp hstep
    simp only [event, hack]
    rfl

theorem work_of_kept (h : s.view.Kept) {base : ℕ} (hwait : s.upload.worker = .wait base) {missing : List ℕ}
    (hhandled : s.handled = some missing) :
    (step hw file s .work).isSome ∧ s.upload.client.missingChunks = missing ∧
      step hw file s .timeout = none := by
  obtain ⟨hreceived, hanswer⟩ := h (by simp [view, hwait, Worker.phase]) missing hhandled
  have hack : s.upload.client.ackReceived = true := hreceived
  refine ⟨?_, hanswer, by simp [step, Upload.step, hwait, hack]⟩
  simp [step, Upload.work, hwait, hack]
  split <;> rfl

end UploadWait

/-! ## Downloads -/

/-- A download at the server: the state that the thread shares with the handlers, and the rest as
for an upload. -/
structure DownloadWait where
  state : TransferState
  thread : Sender
  recording : List FileAck
  handled : Option (List ℕ)

/-- Where the thread is between the question and the answer.  It has the answer when it looks at
`missingChunks`, which it does without the lock. -/
def SenderPoint.phase : SenderPoint → Handshake.Phase
  | .clearAck => .asked
  | .wait => .waiting
  | .check => .waiting
  | _ => .idle

namespace DownloadWait

variable (u : StoredFile)

/-- `HandleDownloadRequest` has started the thread. -/
def start (state : TransferState) (startBytes : ℕ) : DownloadWait where
  state := { state with
    roundBuffer := resize [] maxChunksPerRound state.roundBuffer
    roundOffsets := resize 0 maxChunksPerRound state.roundOffsets }
  thread := ⟨.openFile, startBytes, startBytes / roundSize, 0, [.fileStart]⟩
  recording := []
  handled := none

/-- The wait of the thread as a handshake.  The thread counts the rounds by itself. -/
def view (s : DownloadWait) : Handshake ℕ (List ℕ) where
  phase := s.thread.point.phase
  own := s.thread.currentRound
  expected := s.state.acks.currentRound
  received := s.state.acks.ackReceived
  answer := s.state.acks.missingChunks
  handled := s.handled

def step (s : DownloadWait) : WaitAction → Option DownloadWait
  | .work =>
    (s.thread.work u s.state).map fun r =>
      { s with
        state := r.1
        thread := r.2
        handled := if s.thread.point = .sendRoundEnd then none else s.handled }
  | .timeout =>
    if s.thread.point = .wait ∧ s.state.acks.ackReceived = false then
      some { s with thread := s.thread.goto .stopped }
    else none
  | .compare ack =>
    some (if ack.roundId ≠ s.state.acks.currentRound then
        { s with handled := s.view.note ack.roundId ack.missingChunks }
      else { s with recording := s.recording ++ [ack] })
  | .record i =>
    s.recording[i]?.map fun ack =>
      { state := { s.state with acks := s.state.acks.record ack.missingChunks }
        thread := s.thread.invalidate
        recording := s.recording.eraseIdx i
        handled := s.view.note ack.roundId ack.missingChunks }

/-- What a step is for the handshake. -/
def event (s : DownloadWait) (a : WaitAction) (s' : DownloadWait) : Handshake.Event ℕ (List ℕ) :=
  match a with
  | .work =>
    match s.thread.point with
    | .sendRoundEnd => .ask
    | .clearAck => .clear
    | .wait => .wake
    | _ => .leave s'.view.own s'.view.expected
  | .timeout => .leave s'.view.own s'.view.expected
  | .compare ack => .compare ack.roundId ack.missingChunks
  | .record i =>
    match s.recording[i]? with
    | some ack => .record ack.roundId ack.missingChunks
    | none => .leave s'.view.own s'.view.expected

variable {u} {s s' : DownloadWait}

theorem leave_work {state state' : TransferState} {t t' : Sender}
    (hwork : t.work u state = some (state', t')) (hend : t.point ≠ .sendRoundEnd)
    (hclear : t.point ≠ .clearAck) (hwait : t.point ≠ .wait) :
    t'.point.phase = .idle ∧ state'.acks = state.acks := by
  unfold Sender.work at hwork
  grind [Option.map_eq_some_iff, SenderPoint.phase, Sender.goto]

theorem phase_invalidate (t : Sender) : t.invalidate.point.phase = t.point.phase := by
  unfold Sender.invalidate
  split
  · rename_i hpoint
    rw [hpoint]
    rfl
  · rfl

theorem currentRound_invalidate (t : Sender) : t.invalidate.currentRound = t.currentRound := by
  unfold Sender.invalidate
  split <;> rfl

theorem view_work (hstep : step u s .work = some s') : s'.view = s.view.exec (s.event .work s') := by
  obtain ⟨⟨state', t'⟩, hwork, rfl⟩ := Option.map_eq_some_iff.mp hstep
  by_cases hend : s.thread.point = .sendRoundEnd
  · simp only [Sender.work, hend, Option.some.injEq] at hwork
    cases hwork
    simp [view, event, hend, Handshake.exec, SenderPoint.phase, Sender.goto, Sender.send]
  by_cases hclear : s.thread.point = .clearAck
  · simp only [Sender.work, hclear, Option.some.injEq] at hwork
    cases hwork
    simp [view, event, hclear, Handshake.exec, SenderPoint.phase, Sender.goto]
  by_cases hwait : s.thread.point = .wait
  · simp only [Sender.work, hwait] at hwork
    split at hwork
    · cases hwork
      simp [view, event, hwait, Handshake.exec, SenderPoint.phase, Sender.goto]
    · cases hwork
  · obtain ⟨hidle, hacks⟩ := leave_work hwork hend hclear hwait
    simp only [event, Handshake.exec]
    simp [view, hend, hidle, hacks]

/-- **Every step of a download is an event of the handshake.** -/
theorem view_step (a : WaitAction) (hstep : step u s a = some s') :
    s'.view = s.view.exec (s.event a s') := by
  cases a with
  | work => exact view_work hstep
  | timeout =>
    simp only [step] at hstep
    split at hstep
    · cases hstep
      rfl
    · cases hstep
  | compare ack =>
    cases hstep
    simp only [event, Handshake.exec]
    by_cases hround : ack.roundId = s.state.acks.currentRound <;> simp [view, hround]
  | record i =>
    obtain ⟨ack, hack, rfl⟩ := Option.map_eq_some_iff.mp hstep
    simp only [event, hack]
    simp [view, Handshake.exec, Outgoing.record, phase_invalidate, currentRound_invalidate]

theorem work_of_kept (h : s.view.Kept) (hwait : s.thread.point = .wait) {missing : List ℕ}
    (hhandled : s.handled = some missing) :
    (step u s .work).isSome ∧ s.state.acks.missingChunks = missing ∧ step u s .timeout = none := by
  obtain ⟨hreceived, hanswer⟩ := h (by simp [view, hwait, SenderPoint.phase]) missing hhandled
  have hack : s.state.acks.ackReceived = true := hreceived
  exact ⟨by simp [step, Sender.work, hwait, hack], hanswer, by simp [step, hack]⟩

end DownloadWait

/-- **No answer is thrown away** in a run if and only if every step is timely.  The worker of an
upload, and the thread of a download, finds the answer that was handled since it has asked: none is
handled between `ROUND_END` and the clearing of the flag, the handler drops none for the round of
the sender, and none that was compared in an earlier round is recorded over it. -/
theorem kept_iff_timely (hw : Bool) (file : List UInt8) (server : Incoming) (u : StoredFile)
    (state : TransferState) (startBytes : ℕ) (actions : List WaitAction) :
    (Meets (UploadWait.step hw file) (fun s a => ∀ s' ∈ s.step hw file a, s'.view.Kept)
        (.start file server) actions ↔
      Meets (UploadWait.step hw file)
        (fun s a => ∀ s' ∈ s.step hw file a, s.view.Timely (s.event a s'))
        (.start file server) actions) ∧
    (Meets (DownloadWait.step u) (fun s a => ∀ s' ∈ s.step u a, s'.view.Kept)
        (.start state startBytes) actions ↔
      Meets (DownloadWait.step u) (fun s a => ∀ s' ∈ s.step u a, s.view.Timely (s.event a s'))
        (.start state startBytes) actions) := by
  have hupload : (UploadWait.start file server).view.Kept := by
    simp [Handshake.Kept, UploadWait.start, UploadWait.view]
  have hdownload : (DownloadWait.start state startBytes).view.Kept := by
    simp [Handshake.Kept, DownloadWait.start, DownloadWait.view]
  exact ⟨Handshake.meets_kept_iff UploadWait.view UploadWait.event
      (fun _ a _ => UploadWait.view_step a) hupload actions,
    Handshake.meets_kept_iff DownloadWait.view DownloadWait.event
      (fun _ a _ => DownloadWait.view_step a) hdownload actions⟩

/-- The answer to the only round of a file is handled before the worker clears the flag.  The worker
waits for an answer that it has had, and gives up. -/
theorem not_kept_early :
    ¬ Meets (UploadWait.step false [7]) (fun s a => ∀ s' ∈ s.step false [7] a, s'.view.Kept)
        (.start [7] (.start 1 [])) [.work, .work, .work, .compare ⟨0, []⟩, .record 0, .work] ∧
    ∃ s, Transition.run (UploadWait.step false [7]) (.start [7] (.start 1 []))
        [.work, .work, .work, .compare ⟨0, []⟩, .record 0, .work, .timeout] = some s ∧
      s.handled = some [] ∧ s.upload.worker = .gaveUp 0 := by
  refine ⟨by decide +kernel, ?_⟩
  exact exists_run _ _ _ (fun s : UploadWait => s.handled = some [] ∧ s.upload.worker = .gaveUp 0)
    (by decide +kernel)

end FileTransfer

end IocpChat

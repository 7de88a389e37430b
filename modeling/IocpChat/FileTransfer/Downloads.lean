import IocpChat.FileTransfer.Download
import IocpChat.DataStructure.UserInfo
import IocpChat.Lib.Isolation

/-!
# Downloads next to each other

Each receiver that requests an upload has a thread of `HandleFileTransfer`, and all of them work
on the one `TransferState` of the upload: a thread puts the chunks of its round into `roundBuffer`
and `roundOffsets` and sends them from there, and `onAckReceived` puts an answer into
`missingChunks` for whichever thread reads it first.  A download goes as it would alone if no
other one is in progress when a receiver asks or answers, or its thread does something
(`undisturbed_of_exclusive`).

A thread iterates over `missingChunks` when it sends chunks again.  An answer that is taken then
replaces the vector, and the iterator is not valid any more.  A step that uses it has no result
here, and neither has one that is out of the bounds of a vector.

The accesses of a thread to the `TransferState` are steps of their own; where the code holds no
lock, the machine may mix them further.  The file does not change.

## Main definitions

* `StoredFile`, `TransferState` — what all downloads of an upload share.
* `Sender`, `Sender.work` — a thread, and a step of it.
* `Downloads`, `Downloads.step` — all threads, and the handlers of requests and answers.
* `Downloads.Undisturbed` — a download goes as it would alone.
* `Downloads.Exclusive` — no other download is in progress.
-/

namespace IocpChat

open Transition Isolation

namespace FileTransfer

/-! ## The code -/

/-- An upload that is complete.  The file is at `tempPath`, if it can be opened. -/
structure StoredFile where
  file : Option (List UInt8)
  totalSize : ℕ
  finalCrc : UInt32

/-- The part of `TransferState` that changes during downloads. -/
structure TransferState where
  roundBuffer : List (List UInt8)
  roundOffsets : List ℕ
  acks : Outgoing

/-- After `clearState`. -/
def TransferState.cleared : TransferState := ⟨[], [], ⟨0, false, []⟩⟩

/-- `std::vector::resize`. -/
def resize {α : Type*} (default : α) (n : ℕ) (xs : List α) : List α :=
  xs.take n ++ List.replicate (n - xs.length) default

/-- What a download does to be seen: a packet to its receiver, or a round that is done. -/
inductive Sent
  | fileStart
  | fileChunk (offset : ℕ) (data : List UInt8)
  | roundEnd (currentRound chunksThisRound : ℕ)
  | roundDone (currentRound : ℕ)
  | fileEnd (finalCrc : UInt32)
  | error (reason : List UInt8)
  deriving DecidableEq

/-- The point that `HandleFileTransfer` has come to. -/
inductive SenderPoint
  | openFile
  /-- At the head of the outer loop. -/
  | nextRound
  /-- In the loop that reads chunks. -/
  | fill
  /-- Before it sends the `i`-th chunk. -/
  | sendChunk (i : ℕ)
  | sendRoundEnd
  /-- Before it clears `ackReceived`. -/
  | clearAck
  | wait
  /-- Before it looks at `missingChunks`. -/
  | check
  /-- Before it sends the chunks again that are left of `missingChunks`. -/
  | resend (missing : List ℕ)
  /-- The same, when the vector has been replaced. -/
  | dangling
  | sendFileEnd
  | stopped
  deriving DecidableEq

/-- A thread with its variables, and what it has sent. -/
structure Sender where
  point : SenderPoint
  bytesSent : ℕ
  currentRound : ℕ
  chunksThisRound : ℕ
  sent : List Sent
  deriving DecidableEq

namespace Sender

/-- A receiver that has not asked. -/
def idle : Sender := ⟨.stopped, 0, 0, 0, []⟩

/-- The thread goes on at a point. -/
def goto (t : Sender) (point : SenderPoint) : Sender := { t with point }

def send (t : Sender) (p : Sent) : Sender := { t with sent := t.sent ++ [p] }

/-- The thread sends a chunk that is in the buffer. -/
def sendBuffered (t : Sender) (state : TransferState) (i : ℕ) : Option Sender :=
  match state.roundOffsets[i]?, state.roundBuffer[i]? with
  | some offset, some data => some (t.send (.fileChunk offset data))
  | _, _ => none

/-- The next chunk that is read for the round.  It is empty when the round is full, and at the end
of the file. -/
def block (u : StoredFile) (t : Sender) : List UInt8 :=
  if t.chunksThisRound < maxChunksPerRound ∧ t.bytesSent < u.totalSize then
    ((u.file.getD []).drop t.bytesSent).take (min maxChunkSize (u.totalSize - t.bytesSent))
  else []

/-- A step of `HandleFileTransfer`. -/
def work (u : StoredFile) (state : TransferState) (t : Sender) : Option (TransferState × Sender) :=
  match t.point with
  | .openFile =>
    match u.file with
    | none => some (state, (t.send (.error (text "Cannot open file"))).goto .stopped)
    | some _ => some (state, t.goto .nextRound)
  | .nextRound =>
    if t.bytesSent < u.totalSize then
      some ({ state with roundBuffer := List.replicate maxChunksPerRound [] },
        { t with point := .fill, chunksThisRound := 0 })
    else some (state, t.goto .sendFileEnd)
  | .fill =>
    if t.block u = [] then
      some (state, t.goto (if t.chunksThisRound = 0 then .sendFileEnd else .sendChunk 0))
    else if t.chunksThisRound < state.roundOffsets.length ∧
        t.chunksThisRound < state.roundBuffer.length then
      some ({ state with
          roundOffsets := state.roundOffsets.set t.chunksThisRound t.bytesSent
          roundBuffer := state.roundBuffer.set t.chunksThisRound (t.block u) },
        { t with
          bytesSent := t.bytesSent + (t.block u).length
          chunksThisRound := t.chunksThisRound + 1 })
    else none
  | .sendChunk i =>
    if i < t.chunksThisRound then
      (t.sendBuffered state i).map fun t => (state, t.goto (.sendChunk (i + 1)))
    else some (state, t.goto .sendRoundEnd)
  | .sendRoundEnd =>
    some (state, (t.send (.roundEnd t.currentRound t.chunksThisRound)).goto .clearAck)
  | .clearAck =>
    some ({ state with acks := { state.acks with ackReceived := false } }, t.goto .wait)
  | .wait => if state.acks.ackReceived then some (state, t.goto .check) else none
  | .check =>
    if state.acks.missingChunks = [0xFFFFFFFF] then some (state, t.goto .stopped)
    else if state.acks.missingChunks = [] then
      some (state, { t.send (.roundDone t.currentRound) with
        currentRound := t.currentRound + 1 }.goto .nextRound)
    else some (state, t.goto (.resend state.acks.missingChunks))
  | .resend [] => some (state, t.goto .sendRoundEnd)
  | .resend (idx :: rest) =>
    if idx < t.chunksThisRound then
      (t.sendBuffered state idx).map fun t => (state, t.goto (.resend rest))
    else some (state, t.goto (.resend rest))
  | .sendFileEnd => some (state, (t.send (.fileEnd u.finalCrc)).goto .stopped)
  | .dangling => none
  | .stopped => none

/-- `missingChunks` is replaced. -/
def invalidate (t : Sender) : Sender :=
  match t.point with
  | .resend _ => t.goto .dangling
  | _ => t

end Sender

/-- The downloads of an upload, by receiver. -/
structure Downloads (ι : Type*) where
  state : TransferState
  threads : ι → Sender

inductive DownloadAction
  /-- `HandleDownloadRequest`. -/
  | request (startBytes : ℕ)
  /-- The thread of the receiver takes a step. -/
  | work
  | timeout
  /-- `onAckReceived`, with an answer of the receiver. -/
  | ack (ack : FileAck)

namespace Downloads

variable {ι : Type*} [DecidableEq ι]

/-- Nobody has asked for the upload yet. -/
def start : Downloads ι := ⟨.cleared, fun _ => .idle⟩

/-- A receiver asks, its thread takes a step, or it answers.  A receiver has one thread at a
time. -/
def step (u : StoredFile) (s : Downloads ι) : ι × DownloadAction → Option (Downloads ι)
  | (d, .request startBytes) =>
    if (s.threads d).point = .stopped then
      some
        { state := { s.state with
            roundBuffer := resize [] maxChunksPerRound s.state.roundBuffer
            roundOffsets := resize 0 maxChunksPerRound s.state.roundOffsets }
          threads := Function.update s.threads d
            { point := .openFile
              bytesSent := startBytes
              currentRound := startBytes / roundSize
              chunksThisRound := 0
              sent := (s.threads d).sent ++ [.fileStart] } }
    else none
  | (d, .work) =>
    ((s.threads d).work u s.state).map fun r => ⟨r.1, Function.update s.threads d r.2⟩
  | (d, .timeout) =>
    if (s.threads d).point = .wait ∧ s.state.acks.ackReceived = false then
      some { s with threads := Function.update s.threads d ((s.threads d).goto .stopped) }
    else none
  | (_, .ack ack) =>
    if ack.roundId ≠ s.state.acks.currentRound then some s
    else
      some
        { state := { s.state with acks := s.state.acks.onAckReceived ack }
          threads := fun i => (s.threads i).invalidate }

/-- No other download is in progress. -/
def Exclusive (s : Downloads ι) (a : ι × DownloadAction) : Prop :=
  ∀ i, i ≠ a.1 → (s.threads i).point = .stopped

instance [Fintype ι] (s : Downloads ι) (a : ι × DownloadAction) : Decidable (s.Exclusive a) :=
  inferInstanceAs (Decidable (∀ i, i ≠ a.1 → (s.threads i).point = .stopped))

/-- **A download goes as it would alone**: it sends the same packets, and decides alike that a
round is done, when the other receivers are not there. -/
def Undisturbed (u : StoredFile) (actions : List (ι × DownloadAction)) (d : ι) : Prop :=
  ∀ t ∈ Transition.run (step u) start actions, ∃ t' ∈ Transition.run (step u) start (own d actions),
    (t.threads d).sent = (t'.threads d).sent

end Downloads

/-! ## What a thread sees -/

section Sees

variable {u : StoredFile} {t t' : Sender} {a a' b : TransferState}

/-- A thread cannot tell two states apart: the chunks of its round are the same, and so is the
answer that it is waiting for. -/
structure Sees (t : Sender) (a b : TransferState) : Prop where
  buffers : a.roundBuffer.length = b.roundBuffer.length
  offsets : a.roundOffsets.length = b.roundOffsets.length
  chunks : ∀ i < t.chunksThisRound,
    a.roundOffsets[i]? = b.roundOffsets[i]? ∧ a.roundBuffer[i]? = b.roundBuffer[i]?
  waiting : t.point = .wait → a.acks.ackReceived = b.acks.ackReceived ∧
    (a.acks.ackReceived = true → a.acks.missingChunks = b.acks.missingChunks)
  checking : t.point = .check → a.acks.missingChunks = b.acks.missingChunks

theorem Sees.goto (h : Sees t a b) {point : SenderPoint}
    (hchunks : t'.chunksThisRound = t.chunksThisRound) (hpoint : point ≠ .wait ∧ point ≠ .check) :
    Sees (t'.goto point) a b where
  buffers := h.buffers
  offsets := h.offsets
  chunks := hchunks ▸ h.chunks
  waiting := fun heq => absurd heq hpoint.1
  checking := fun heq => absurd heq hpoint.2

theorem exists_of_sendBuffered {i : ℕ} (h : t.sendBuffered a i = some t') :
    ∃ offset data, t' = t.send (.fileChunk offset data) := by
  unfold Sender.sendBuffered at h
  split at h
  · cases h
    exact ⟨_, _, rfl⟩
  · cases h

theorem Sees.sendBuffered (h : Sees t a b) {i : ℕ} (hi : i < t.chunksThisRound)
    {point : SenderPoint} (hpoint : point ≠ .wait ∧ point ≠ .check)
    (hsend : (t.sendBuffered a i).map (fun t => (a, t.goto point)) = some (a', t')) :
    ∃ b', (t.sendBuffered b i).map (fun t => (b, t.goto point)) = some (b', t') ∧
      Sees t' a' b' := by
  have hsame : t.sendBuffered b i = t.sendBuffered a i := by
    rw [Sender.sendBuffered, Sender.sendBuffered, (h.chunks i hi).1, (h.chunks i hi).2]
  obtain ⟨t₁, ht₁, heq⟩ := Option.map_eq_some_iff.mp hsend
  cases heq
  obtain ⟨offset, data, rfl⟩ := exists_of_sendBuffered ht₁
  exact ⟨b, by rw [hsame, ht₁]; rfl, h.goto rfl hpoint⟩

theorem Sees.fill (h : Sees t a b) (block : List UInt8) :
    Sees { t with
        bytesSent := t.bytesSent + block.length
        chunksThisRound := t.chunksThisRound + 1 }
      { a with
        roundOffsets := a.roundOffsets.set t.chunksThisRound t.bytesSent
        roundBuffer := a.roundBuffer.set t.chunksThisRound block }
      { b with
        roundOffsets := b.roundOffsets.set t.chunksThisRound t.bytesSent
        roundBuffer := b.roundBuffer.set t.chunksThisRound block } where
  buffers := by simpa using h.buffers
  offsets := by simpa using h.offsets
  chunks := by
    intro i hi
    rcases Nat.lt_succ_iff_lt_or_eq.mp hi with hlt | rfl
    · have hne : t.chunksThisRound ≠ i := Nat.ne_of_gt hlt
      simpa [List.getElem?_set_ne hne] using h.chunks i hlt
    · simp [List.getElem?_set, h.buffers, h.offsets]
  waiting := h.waiting
  checking := h.checking

/-- **A step of a thread** is the same in two states that it cannot tell apart. -/
theorem Sees.work (h : Sees t a b) (hwork : t.work u a = some (a', t')) :
    ∃ b', t.work u b = some (b', t') ∧ Sees t' a' b' := by
  unfold Sender.work at hwork ⊢
  cases hpoint : t.point with
  | openFile =>
    rw [hpoint] at hwork
    cases hfile : u.file with
    | none | some =>
      rw [hfile] at hwork
      cases hwork
      exact ⟨b, rfl, h.goto rfl (by simp)⟩
  | nextRound =>
    simp only [hpoint] at hwork ⊢
    by_cases hmore : t.bytesSent < u.totalSize
    · rw [if_pos hmore] at hwork ⊢
      cases hwork
      refine ⟨_, rfl, by simp, h.offsets, ?_, by simp, by simp⟩
      intro i hi
      exact absurd hi (Nat.not_lt_zero i)
    · rw [if_neg hmore] at hwork ⊢
      cases hwork
      exact ⟨b, rfl, h.goto rfl (by simp)⟩
  | fill =>
    simp only [hpoint, ← h.buffers, ← h.offsets] at hwork ⊢
    by_cases hend : t.block u = []
    · rw [if_pos hend] at hwork ⊢
      cases hwork
      refine ⟨b, rfl, h.goto rfl ?_⟩
      split <;> simp
    · rw [if_neg hend] at hwork ⊢
      split at hwork
      · rename_i hroom
        rw [if_pos hroom]
        cases hwork
        exact ⟨_, rfl, hpoint ▸ h.fill _⟩
      · cases hwork
  | sendChunk i =>
    simp only [hpoint] at hwork ⊢
    by_cases hi : i < t.chunksThisRound
    · rw [if_pos hi] at hwork ⊢
      exact h.sendBuffered hi (by simp) hwork
    · rw [if_neg hi] at hwork ⊢
      cases hwork
      exact ⟨b, rfl, h.goto rfl (by simp)⟩
  | clearAck =>
    -- From here on an answer counts, and there is none yet.
    rw [hpoint] at hwork
    cases hwork
    exact ⟨_, rfl, h.buffers, h.offsets, h.chunks, by simp, by simp [Sender.goto]⟩
  | wait =>
    obtain ⟨hreceived, hmissing⟩ := h.waiting hpoint
    simp only [hpoint, ← hreceived] at hwork ⊢
    by_cases hack : a.acks.ackReceived = true
    · rw [if_pos hack] at hwork ⊢
      cases hwork
      exact ⟨b, rfl, h.buffers, h.offsets, h.chunks, by simp [Sender.goto],
        fun _ => hmissing hack⟩
    · rw [if_neg hack] at hwork
      cases hwork
  | check =>
    simp only [hpoint, ← h.checking hpoint] at hwork ⊢
    by_cases herror : a.acks.missingChunks = [0xFFFFFFFF]
    · rw [if_pos herror] at hwork ⊢
      cases hwork
      exact ⟨b, rfl, h.goto rfl (by simp)⟩
    · rw [if_neg herror] at hwork ⊢
      by_cases hdone : a.acks.missingChunks = []
      · rw [if_pos hdone] at hwork ⊢
        cases hwork
        exact ⟨b, rfl, h.goto rfl (by simp)⟩
      · rw [if_neg hdone] at hwork ⊢
        cases hwork
        exact ⟨b, rfl, h.goto rfl (by simp)⟩
  | resend missing =>
    cases missing with
    | nil =>
      rw [hpoint] at hwork
      cases hwork
      exact ⟨b, rfl, h.goto rfl (by simp)⟩
    | cons idx rest =>
      simp only [hpoint] at hwork ⊢
      by_cases hi : idx < t.chunksThisRound
      · rw [if_pos hi] at hwork ⊢
        exact h.sendBuffered hi (by simp) hwork
      · rw [if_neg hi] at hwork ⊢
        cases hwork
        exact ⟨b, rfl, h.goto rfl (by simp)⟩
  | dangling | stopped =>
    rw [hpoint] at hwork
    cases hwork
  | _ =>
    rw [hpoint] at hwork
    cases hwork
    exact ⟨b, rfl, h.goto rfl (by simp)⟩

theorem Sender.running_of_invalidate (h : t.invalidate.point ≠ .stopped) : t.point ≠ .stopped := by
  intro hpoint
  simp [Sender.invalidate, hpoint] at h

theorem Sees.ack (h : Sees t a b) (missing : List ℕ) :
    Sees t.invalidate { a with acks := a.acks.record missing }
      { b with acks := b.acks.record missing } where
  buffers := h.buffers
  offsets := h.offsets
  chunks := by
    have hchunks : t.invalidate.chunksThisRound = t.chunksThisRound := by
      unfold Sender.invalidate
      split <;> rfl
    exact hchunks ▸ h.chunks
  waiting := fun _ => ⟨rfl, fun _ => rfl⟩
  checking := fun _ => rfl

/-- Nobody changes the round that `onAckReceived` compares with. -/
theorem Sender.currentRound_work (hwork : t.work u a = some (a', t')) :
    a'.acks.currentRound = a.acks.currentRound := by
  unfold Sender.work at hwork
  grind [Option.map_eq_some_iff]

end Sees

/-! ## Isolation -/

namespace Downloads

variable {ι : Type*} [DecidableEq ι] {u : StoredFile} {s s' t : Downloads ι} {d i : ι}

/-- The downloads in a run, and one of them alone. -/
structure Alike (d : ι) (s s' : Downloads ι) : Prop where
  thread : s.threads d = s'.threads d
  round : s.state.acks.currentRound = s'.state.acks.currentRound
  sees : (s.threads d).point ≠ .stopped → Sees (s.threads d) s.state s'.state

/-- An action leaves the round of the `TransferState` as it is, and the other downloads that are
not in progress. -/
theorem step_frame {action : DownloadAction} (h : step u s (i, action) = some t) :
    t.state.acks.currentRound = s.state.acks.currentRound ∧
      ∀ d ≠ i, (s.threads d).point = .stopped → t.threads d = s.threads d := by
  cases action with
  | work =>
    obtain ⟨r, hr, rfl⟩ := Option.map_eq_some_iff.mp h
    exact ⟨Sender.currentRound_work hr, fun d hd _ => Function.update_of_ne hd ..⟩
  | ack ack =>
    simp only [step] at h
    split at h
    · cases h
      exact ⟨rfl, fun d _ _ => rfl⟩
    · rename_i hround
      cases h
      constructor
      · simp only [Outgoing.onAckReceived, if_neg hround]
        rfl
      · intro d _ hpoint
        simp only [Sender.invalidate, hpoint]
  | _ =>
    simp only [step] at h
    split at h
    · cases h
      exact ⟨rfl, fun d hd _ => Function.update_of_ne hd ..⟩
    · cases h

theorem length_resize {α : Type*} (default : α) (n : ℕ) (xs : List α) :
    (resize default n xs).length = n := by
  simp [resize]
  omega

/-- **An action of the download** has the same effect on it alone. -/
theorem Alike.own (h : Alike d s s') {action : DownloadAction}
    (hstep : step u s (d, action) = some t) :
    ∃ t', step u s' (d, action) = some t' ∧ Alike d t t' := by
  cases action with
  | request startBytes =>
    simp only [step, ← h.thread] at hstep ⊢
    split at hstep
    · rename_i hpoint
      rw [if_pos hpoint]
      cases hstep
      refine ⟨_, rfl, by simp, h.round, fun _ => ?_⟩
      refine ⟨by simp [length_resize], by simp [length_resize], ?_, by simp, by simp⟩
      intro i hi
      simp at hi
    · cases hstep
  | work =>
    obtain ⟨⟨a, thread⟩, hwork, rfl⟩ := Option.map_eq_some_iff.mp hstep
    have hrunning : (s.threads d).point ≠ .stopped := by
      intro hpoint
      simp [Sender.work, hpoint] at hwork
    obtain ⟨b, hwork', hsees⟩ := (h.sees hrunning).work hwork
    rw [h.thread] at hwork'
    refine ⟨_, Option.map_eq_some_iff.mpr ⟨_, hwork', rfl⟩, by simp, ?_, ?_⟩
    · exact (Sender.currentRound_work hwork).trans
        (h.round.trans (Sender.currentRound_work hwork').symm)
    · intro _
      simpa using hsees
  | timeout =>
    simp only [step] at hstep ⊢
    split at hstep
    · rename_i hwait
      have hsees := h.sees (by simp [hwait.1])
      rw [← h.thread, ← (hsees.waiting hwait.1).1, if_pos hwait]
      cases hstep
      exact ⟨_, rfl, by simp, h.round, by simp [Sender.goto]⟩
    · cases hstep
  | ack ack =>
    simp only [step, ← h.round] at hstep ⊢
    split at hstep
    · rename_i hother
      rw [if_pos hother]
      cases hstep
      exact ⟨s', rfl, h⟩
    · rename_i hround
      rw [if_neg hround]
      cases hstep
      have hround' : ¬ ack.roundId ≠ s'.state.acks.currentRound := h.round ▸ hround
      simp only [Outgoing.onAckReceived, if_neg hround, if_neg hround']
      refine ⟨_, rfl, congrArg Sender.invalidate h.thread, h.round, ?_⟩
      intro hrunning
      exact (h.sees (Sender.running_of_invalidate hrunning)).ack ack.missingChunks

/-- **An action of another download** changes nothing while this one is not in progress. -/
theorem Alike.other (h : Alike d s s') (hi : i ≠ d) {action : DownloadAction}
    (hexclusive : s.Exclusive (i, action)) (hstep : step u s (i, action) = some t) :
    Alike d t s' := by
  have hpoint := hexclusive d hi.symm
  obtain ⟨hround, hthreads⟩ := step_frame hstep
  have hthread : t.threads d = s.threads d := hthreads d hi.symm hpoint
  refine ⟨hthread.trans h.thread, hround.trans h.round, ?_⟩
  intro hrunning
  rw [hthread] at hrunning
  exact absurd hpoint hrunning

/-- **Downloads one at a time do not interfere.** -/
theorem undisturbed_of_exclusive (u : StoredFile) (actions : List (ι × DownloadAction))
    (h : Meets (step u) Exclusive start actions) (d : ι) : Undisturbed u actions d := by
  intro t ht
  have hstart : Alike d (start : Downloads ι) start := ⟨rfl, rfl, fun h => absurd rfl h⟩
  obtain ⟨t', ht', halike⟩ := run_own (Alike d) d (fun s s' a t h _ hstep => h.own hstep)
    (fun s s' i a t hi h hok hstep => h.other hi hok hstep) h ht hstart
  exact ⟨t', ht', congrArg Sender.sent halike.thread⟩

def sampleFile : StoredFile := ⟨some [7], 1, 0⟩

/-- A receiver asks, and its thread goes on until it waits. -/
def untilWait (d : Bool) : List (Bool × DownloadAction) :=
  (d, .request 0) :: List.replicate 8 (d, .work)

/-- The receiver has got everything, and the thread goes on to its end. -/
def untilEnd (d : Bool) : List (Bool × DownloadAction) :=
  (d, .ack ⟨0, []⟩) :: List.replicate 4 (d, .work)

/-- Two downloads, one after the other. -/
def oneByOne : List (Bool × DownloadAction) :=
  untilWait true ++ untilEnd true ++ untilWait false ++ untilEnd false

theorem undisturbed_of_exclusive_one_by_one : (∃ t,
    Transition.run (step sampleFile) start oneByOne = some t ∧ (t.threads false).sent =
      [.fileStart, .fileChunk 0 [7], .roundEnd 0 1, .roundDone 0, .fileEnd 0]) ∧
    Undisturbed sampleFile oneByOne false :=
  ⟨exists_run _ _ _ _ (by decide +kernel),
    undisturbed_of_exclusive sampleFile oneByOne (by decide +kernel) false⟩

/-- Two receivers answer: one has got everything, and the other one nothing. -/
def crossed : List (Bool × DownloadAction) :=
  untilWait true ++ untilWait false ++
    [(true, .ack ⟨0, []⟩), (true, .work), (false, .ack ⟨0, [0]⟩), (true, .work), (true, .work)]

/-- The thread of a receiver reads the answer of another one, and sends the chunk again that is
missing there, when its own round is done. -/
theorem not_undisturbed_crossed : ¬ Undisturbed sampleFile crossed true := by
  intro h
  have hresent := exists_run (step sampleFile) start crossed (fun t => (t.threads true).sent =
    [.fileStart, .fileChunk 0 [7], .roundEnd 0 1, .fileChunk 0 [7]]) (by decide +kernel)
  have hdone := exists_run (step sampleFile) start (own true crossed) (fun t =>
    (t.threads true).sent = [.fileStart, .fileChunk 0 [7], .roundEnd 0 1, .roundDone 0])
    (by decide +kernel)
  obtain ⟨t, ht, hsent⟩ := hresent
  obtain ⟨t', ht', hsent'⟩ := hdone
  obtain ⟨t'', ht'', heq⟩ := h t ht
  rw [ht'] at ht''
  cases ht''
  rw [hsent, hsent'] at heq
  exact absurd heq (by decide)

end Downloads

end FileTransfer

end IocpChat

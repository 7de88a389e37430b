import IocpChat.Lib.Loop
import IocpChat.FileTransfer.Rounds

/-!
# Downloads

`HandleFileTransfer` sends a stored file to a client, by the rounds of `uploadWorker`.
It counts the rounds in a variable of its own, from `startBytes` on.  `onAckReceived`
compares the round of an answer with a field of the `TransferState` instead, which
`clearState` has set to 0 after the upload and nobody changes any more.

So only the answers of round 0 are taken.  A download without any loss comes to its end
iff round 0 is its only round, the client finds all chunks of it in their slots, and the
answer does not arrive before the thread waits for it (`download_iff`).

The client has the bytes of the file before `startBytes`, and there is one download of
the file at a time.

## Main definitions

* `Download`, `Download.body` — the thread, the client, and a turn of the loops.
* `Download.AckAccepted` — the answer to the end of a round is taken.
-/

namespace IocpChat

open Pieces

namespace FileTransfer

/-! ## The code -/

/-- `onAckReceived`. -/
def Outgoing.onAckReceived (s : Outgoing) (ack : FileAck) : Outgoing :=
  if ack.roundId ≠ s.currentRound then s else s.record ack.missingChunks

inductive Ending
  | fileEnd
  | ackTimeout
  | ackError
  deriving DecidableEq

/-- A download, at the beginning of a turn of one of the two loops. -/
structure Download where
  /-- The part of the `TransferState` that the thread shares with `onAckReceived`. -/
  state : Outgoing
  /-- The thread is in the inner loop, where it asks what is missing. -/
  asking : Bool
  currentRound : ℕ
  /-- `bytesSent` at the beginning of the round. -/
  roundBase : ℕ
  client : Incoming
  /-- How many times the thread has asked. -/
  answers : ℕ

namespace Download

/-- The `TransferState` after `clearState`, and a client that has the beginning of the
file. -/
def start (file : List UInt8) (startBytes : ℕ) : Download where
  state := ⟨0, false, []⟩
  asking := false
  currentRound := startBytes / roundSize
  roundBase := startBytes
  client := .start file.length (file.take startBytes)
  answers := 0

/-- The client gets the end of the round and answers. -/
def answer (file : List UInt8) (s : Download) : Incoming × FileAck :=
  let r := s.client.handleRoundEnd s.currentRound (roundChunks file s.roundBase).length
  (r.1, ⟨r.2.1, r.2.2⟩)

/-- The `TransferState` when the wait is over.  The thread clears `ackReceived` after it
has asked; an early answer is there before. -/
def awaited (file : List UInt8) (early : Bool) (s : Download) : Outgoing :=
  let ack := (s.answer file).2
  let receive := fun state : Outgoing => if ack.Fits then state.onAckReceived ack else state
  if early then { receive s.state with ackReceived := false }
  else receive { s.state with ackReceived := false }

/-- A turn of the outer or of the inner loop, where no packet is lost. -/
def body (hw : Bool) (file : List UInt8) (early : ℕ → Bool) (s : Download) : Download ⊕ Ending :=
  if s.asking then
    let state := s.awaited file (early s.answers)
    let client := (s.answer file).1
    if state.ackReceived = false then .inr .ackTimeout
    else if state.missingChunks = [0xFFFFFFFF] then .inr .ackError
    else if state.missingChunks = [] then
      .inl
        { state
          asking := false
          currentRound := s.currentRound + 1
          roundBase := roundNext file s.roundBase
          client
          answers := s.answers + 1 }
    else
      let resent := state.missingChunks.filterMap fun idx => (roundChunks file s.roundBase)[idx]?
      .inl { s with state, client := client.receiveAll hw resent, answers := s.answers + 1 }
  else if s.roundBase < file.length then
    .inl { s with
      asking := true
      client := s.client.receiveAll hw (roundChunks file s.roundBase) }
  else .inr .fileEnd

/-- An answer for the round the thread is in passes the test of `onAckReceived`. -/
def AckAccepted (file : List UInt8) (s : Download) : Prop :=
  s.asking = true → (s.answer file).2.Fits → (s.answer file).2.roundId = s.currentRound →
    (s.answer file).2.roundId = s.state.currentRound

end Download

/-! ## Which slots are filled -/

section Slots

variable {file : List UInt8} {bytesSent i : ℕ} {hw : Bool} {s : Incoming}

/-- A slot is missing after all chunks of a round iff it is not the slot of any of them. -/
theorem mem_missing_roundChunks (hs : s.roundBuffer = List.replicate maxChunksPerRound [])
    (hi : i < (roundChunks file bytesSent).length) :
    i ∈ missing (s.receiveAll hw (roundChunks file bytesSent)).roundBuffer
        (roundChunks file bytesSent).length ↔
      ∀ j < (roundChunks file bytesSent).length,
        (bytesSent / maxChunkSize + j) % maxChunksPerRound ≠ i := by
  rw [Incoming.mem_missing_receiveAll hs (fun c hc => data_ne_nil hc) (lt_length_roundChunks.mp hi).1]
  constructor
  · intro h j hj
    have hchunk := getElem?_roundChunks file bytesSent j
    rw [if_pos (lt_length_roundChunks.mp hj)] at hchunk
    rw [← chunkIndex_add]
    exact h.2 _ (List.mem_of_getElem? hchunk)
  · intro h
    refine ⟨hi, ?_⟩
    intro c hc
    obtain ⟨j, hj⟩ := List.mem_iff_getElem?.mp hc
    rw [(chunk_of_getElem? hj).2.1, chunkIndex_add]
    exact h j (List.getElem?_eq_some_iff.mp hj).1

/-- **When the client finds all chunks of a round**: the round begins in the first chunk
of a round, or it has all its chunks. -/
theorem missing_roundChunks_eq_nil_iff (hs : s.roundBuffer = List.replicate maxChunksPerRound [])
    (hlt : bytesSent < file.length) :
    missing (s.receiveAll hw (roundChunks file bytesSent)).roundBuffer
        (roundChunks file bytesSent).length = [] ↔
      Aligned bytesSent ∨ bytesSent + maxChunkSize * (maxChunksPerRound - 1) < file.length := by
  have hcount : ∀ j, j < (roundChunks file bytesSent).length ↔
      j < 1024 ∧ bytesSent + 3840 * j < file.length := fun j => lt_length_roundChunks
  rw [List.eq_nil_iff_forall_not_mem]
  constructor
  · intro h
    by_contra hnot
    simp only [Aligned, maxChunkSize, maxChunksPerRound, not_or] at hnot
    have hpos : 0 < (roundChunks file bytesSent).length := (hcount 0).mpr (by omega)
    have hfew : ¬ 1023 < (roundChunks file bytesSent).length := by
      rw [hcount]
      omega
    -- the slot before that of the first chunk is empty, or the last one if that is no slot
    -- of the round
    have hslot : min (bytesSent / 3840 % 1024) (roundChunks file bytesSent).length - 1 <
        (roundChunks file bytesSent).length := by omega
    apply h _ ((mem_missing_roundChunks hs hslot).mpr ?_)
    intro j hj
    simp only [maxChunkSize, maxChunksPerRound]
    omega
  · intro h i hmem
    have hi : i < (roundChunks file bytesSent).length := (mem_missing.mp hmem).1
    rw [mem_missing_roundChunks hs hi] at hmem
    simp only [Aligned, maxChunkSize, maxChunksPerRound] at h hmem
    rcases h with haligned | hfull
    · apply hmem i hi
      have hlt := ((hcount i).mp hi).1
      omega
    · -- going around, every slot is hit
      apply hmem ((i + 1024 - bytesSent / 3840 % 1024) % 1024)
      · rw [hcount]
        omega
      · have hlt := ((hcount i).mp hi).1
        omega

end Slots

/-! ## The loops -/

theorem Incoming.currentRound_receiveAll (hw : Bool) (s : Incoming) (chunks : List Chunk) :
    (s.receiveAll hw chunks).currentRound = s.currentRound :=
  (receiveAll_frame hw s chunks).2.2.1

theorem Incoming.receiveAll_eq_self {hw : Bool} {s : Incoming} {chunks : List Chunk}
    (h : ∀ c ∈ chunks, s.roundBuffer[chunkIndex c.offset]? ≠ some []) : s.receiveAll hw chunks = s := by
  induction chunks with
  | nil => rfl
  | cons c chunks ih =>
    have hc : s.handleFileChunk hw c.offset (CRC32C.compute hw c.data 0) c.data = s := by
      rw [handleFileChunk_eq rfl, if_neg (h c List.mem_cons_self)]
    have htail := ih fun c' hc' => h c' (List.mem_cons_of_mem _ hc')
    rw [receiveAll, List.foldl_cons, hc]
    exact htail

namespace Download

variable {hw : Bool} {file : List UInt8} {early : ℕ → Bool} {s s' : Download} {startBytes fuel : ℕ}

/-- The slots that are missing when the thread asks. -/
def missing (file : List UInt8) (s : Download) : List ℕ :=
  Pieces.missing s.client.roundBuffer (roundChunks file s.roundBase).length

theorem answer_eq (h : s.client.currentRound = s.currentRound) :
    (s.answer file).2 = ⟨s.currentRound, s.missing file⟩ := by
  simp only [answer, Incoming.handleRoundEnd]
  rw [if_neg (not_not.mpr h.symm)]
  split
  · rename_i hmissing
    simp only [missing, hmissing]
  · rfl

theorem client_answer (h : s.client.currentRound = s.currentRound) (hmissing : s.missing file ≠ []) :
    (s.answer file).1 = s.client := by
  unfold missing at hmissing
  simp only [answer, Incoming.handleRoundEnd]
  rw [if_neg (not_not.mpr h.symm), if_neg hmissing]

theorem currentRound_answer (h : s.client.currentRound = s.currentRound)
    (hmissing : s.missing file = []) : (s.answer file).1.currentRound = s.currentRound + 1 := by
  unfold missing at hmissing
  simp only [answer, Incoming.handleRoundEnd]
  rw [if_neg (not_not.mpr h.symm), if_pos hmissing, h]

/-- **An answer ends the wait iff** it is sent, it is taken, and it is not early. -/
theorem ackReceived_awaited (e : Bool) :
    (s.awaited file e).ackReceived = true ↔
      e = false ∧ (s.answer file).2.Fits ∧ (s.answer file).2.roundId = s.state.currentRound := by
  unfold awaited Outgoing.onAckReceived
  cases e with
  | true => simp
  | false =>
    by_cases hfits : (s.answer file).2.Fits
    · by_cases hround : (s.answer file).2.roundId = s.state.currentRound
      · simp [hfits, hround, Outgoing.record]
      · simp [hfits, hround]
    · simp [hfits]

theorem awaited_eq {e : Bool} (h : (s.awaited file e).ackReceived = true) :
    s.awaited file e = ⟨s.state.currentRound, true, (s.answer file).2.missingChunks⟩ := by
  obtain ⟨rfl, hfits, hround⟩ := (ackReceived_awaited e).mp h
  simp [awaited, Outgoing.onAckReceived, Outgoing.record, hfits, hround]

/-- The chunks of a round are sent. -/
def asked (hw : Bool) (file : List UInt8) (s : Download) : Download :=
  { s with asking := true, client := s.client.receiveAll hw (roundChunks file s.roundBase) }

theorem client_asked (hw : Bool) (file : List UInt8) (h : s.client.currentRound = s.currentRound) :
    (s.asked hw file).client.currentRound = (s.asked hw file).currentRound := by
  simp only [asked, Incoming.currentRound_receiveAll, h]

theorem body_of_lt (hasking : s.asking = false) (hlt : s.roundBase < file.length) :
    s.body hw file early = .inl (s.asked hw file) := by
  simp [body, hasking, hlt, asked]

theorem body_of_timeout (hasking : s.asking = true)
    (h : (s.awaited file (early s.answers)).ackReceived = false) :
    s.body hw file early = .inr .ackTimeout := by
  simp [body, hasking, h]

/-- A round that the `TransferState` is not in ends with a timeout. -/
theorem run_ne_of_round (hasking : s.asking = false) (hlt : s.roundBase < file.length)
    (hclient : s.client.currentRound = s.currentRound)
    (hround : s.currentRound ≠ s.state.currentRound) :
    Loop.run (body hw file early) fuel s ≠ some .fileEnd := by
  have htimeout : body hw file early (s.asked hw file) = .inr .ackTimeout := by
    apply body_of_timeout rfl
    rw [← Bool.not_eq_true, ackReceived_awaited, answer_eq (client_asked hw file hclient)]
    intro h
    exact hround h.2.2
  intro hrun
  cases fuel with
  | zero => cases hrun
  | succ fuel =>
    rw [Loop.run_of_inl (body_of_lt hasking hlt)] at hrun
    cases fuel with
    | zero => cases hrun
    | succ fuel =>
      rw [Loop.run_of_inr htimeout] at hrun
      cases hrun

variable (hw early) in
theorem body_of_missing (hasking : s.asking = true)
    (hclient : s.client.currentRound = s.currentRound) (hmissing : s.missing file ≠ []) :
    (∃ state, s.body hw file early = .inl { s with
        state
        client := s.client.receiveAll hw
          ((s.missing file).filterMap fun idx => (roundChunks file s.roundBase)[idx]?)
        answers := s.answers + 1 }) ∨
      ∃ r, s.body hw file early = .inr r ∧ r ≠ .fileEnd := by
  by_cases hack : (s.awaited file (early s.answers)).ackReceived = true
  · by_cases herror : s.missing file = [0xFFFFFFFF]
    · right
      refine ⟨.ackError, ?_, by decide⟩
      simp [body, hasking, awaited_eq hack, answer_eq hclient, herror]
    · left
      refine ⟨⟨s.state.currentRound, true, s.missing file⟩, ?_⟩
      simp [body, hasking, awaited_eq hack, answer_eq hclient, herror, hmissing,
        client_answer hclient hmissing]
  · right
    exact ⟨.ackTimeout, body_of_timeout hasking (by simpa using hack), by decide⟩

theorem run_ne_of_missing (hasking : s.asking = true)
    (hclient : s.client.currentRound = s.currentRound) (hmissing : s.missing file ≠ [])
    (hfull : ∀ c ∈ roundChunks file s.roundBase,
      s.client.roundBuffer[chunkIndex c.offset]? ≠ some []) :
    Loop.run (body hw file early) fuel s ≠ some .fileEnd := by
  intro hrun
  -- only the `TransferState` and the number of answers change
  refine absurd rfl (Loop.run_invariant
    (fun t => t.asking = true ∧ t.client = s.client ∧ t.currentRound = s.currentRound ∧
      t.roundBase = s.roundBase) (fun r => r ≠ .fileEnd) hrun ⟨hasking, rfl, rfl, rfl⟩ ?_)
  rintro t ⟨hasking, hsame, hround, hbase⟩
  have hmissing' : t.missing file ≠ [] := by
    rw [missing, hsame, hbase]
    exact hmissing
  rcases body_of_missing hw early hasking (by rw [hsame, hround, hclient]) hmissing' with
    ⟨state, hgo⟩ | hexit
  · refine .inl ⟨_, hgo, hasking, ?_, hround, hbase⟩
    rw [← hsame]
    apply Incoming.receiveAll_eq_self
    intro c hc
    obtain ⟨idx, -, hidx⟩ := List.mem_filterMap.mp hc
    rw [hsame]
    exact hfull c (hbase ▸ List.mem_of_getElem? hidx)
  · exact .inr hexit

/-- The state after a round that is complete. -/
def completed (file : List UInt8) (s : Download) : Download where
  state := ⟨s.state.currentRound, true, []⟩
  asking := false
  currentRound := s.currentRound + 1
  roundBase := roundNext file s.roundBase
  client := (s.answer file).1
  answers := s.answers + 1

variable (hw early) in
theorem body_of_complete (hasking : s.asking = true)
    (hclient : s.client.currentRound = s.currentRound) (hmissing : s.missing file = []) :
    s.body hw file early =
      if early s.answers = false ∧ s.currentRound = s.state.currentRound then
        .inl (s.completed file)
      else .inr .ackTimeout := by
  have hfits : FileAck.Fits ⟨s.currentRound, []⟩ := by
    simp [FileAck.Fits]
    decide
  have hack : (s.awaited file (early s.answers)).ackReceived = true ↔
      early s.answers = false ∧ s.currentRound = s.state.currentRound := by
    rw [ackReceived_awaited, answer_eq hclient, hmissing]
    simp [hfits]
  split
  · rename_i h
    simp [body, hasking, awaited_eq (hack.mpr h), answer_eq hclient, hmissing, completed]
  · rename_i h
    exact body_of_timeout hasking (by simpa using mt hack.mp h)

/-! ## The first round -/

theorem client_start (hlt : startBytes < file.length) :
    (start file startBytes).client.currentRound = (start file startBytes).currentRound := by
  simp [start, Incoming.start, Nat.min_eq_left (Nat.le_of_lt hlt)]

theorem missing_start_eq_nil_iff (hlt : startBytes < file.length) :
    ((start file startBytes).asked hw file).missing file = [] ↔
      Aligned startBytes ∨
        startBytes + maxChunkSize * (maxChunksPerRound - 1) < file.length :=
  missing_roundChunks_eq_nil_iff rfl hlt

theorem full_start (hw : Bool) (file : List UInt8) (startBytes : ℕ) :
    ∀ c ∈ roundChunks file startBytes,
      ((start file startBytes).asked hw file).client.roundBuffer[chunkIndex c.offset]? ≠ some [] := by
  intro c hc hempty
  exact ((Incoming.receiveAll_eq_empty fun c hc => data_ne_nil hc).mp hempty).2 c hc rfl

/-- The downloads that can end: all is sent in round 0. -/
structure OneRound (file : List UInt8) (startBytes : ℕ) : Prop where
  first : startBytes < roundSize
  last : file.length ≤ startBytes + roundSize
  slots : startBytes < maxChunkSize ∨
    startBytes + maxChunkSize * (maxChunksPerRound - 1) < file.length

theorem aligned_iff_lt (h : startBytes < roundSize) : Aligned startBytes ↔ startBytes < maxChunkSize := by
  simp only [Aligned, roundSize, maxChunkSize, maxChunksPerRound] at h ⊢
  omega

theorem oneRound_of_run (hlt : startBytes < file.length)
    (hrun : Loop.run (body hw file early) fuel (start file startBytes) = some .fileEnd) :
    OneRound file startBytes ∧ early 0 = false := by
  have hclient := client_start hlt
  have hasked := client_asked hw file hclient
  have hfirst : startBytes < roundSize := by
    by_contra hge
    refine run_ne_of_round rfl hlt hclient ?_ hrun
    exact Nat.ne_of_gt (Nat.div_pos (Nat.le_of_not_lt hge) (by decide))
  cases fuel with
  | zero => cases hrun
  | succ fuel =>
    rw [Loop.run_of_inl (body_of_lt rfl hlt)] at hrun
    have hmissing : ((start file startBytes).asked hw file).missing file = [] := by
      by_contra hne
      exact run_ne_of_missing rfl hasked hne (full_start hw file startBytes) hrun
    cases fuel with
    | zero => cases hrun
    | succ fuel =>
      have hbody := body_of_complete hw early rfl hasked hmissing
      split at hbody
      · rename_i hearly
        rw [Loop.run_of_inl hbody] at hrun
        refine ⟨⟨hfirst, ?_, ?_⟩, hearly.1⟩
        · -- a second round would not be answered
          by_contra hge
          refine run_ne_of_round rfl ?_ (currentRound_answer hasked hmissing)
            (Nat.succ_ne_zero _) hrun
          have hnext := roundNext_eq (Nat.le_of_lt hlt)
          simp only [completed, asked, start]
          omega
        · rw [← aligned_iff_lt hfirst]
          exact (missing_start_eq_nil_iff hlt).mp hmissing
      · rw [Loop.run_of_inr hbody] at hrun
        cases hrun

theorem accepted_of_oneRound (h : OneRound file startBytes) (hearly : early 0 = false)
    (hlt : startBytes < file.length) :
    (∀ t, Loop.Visits (body hw file early) (start file startBytes) t → t.AckAccepted file) ∧
      ∃ fuel, Loop.run (body hw file early) fuel (start file startBytes) = some .fileEnd := by
  have hasked := client_asked hw file (client_start hlt)
  have hround : startBytes / roundSize = 0 := Nat.div_eq_of_lt h.first
  have hmissing : ((start file startBytes).asked hw file).missing file = [] := by
    rw [missing_start_eq_nil_iff hlt, aligned_iff_lt h.first]
    exact h.slots
  have hsend : body hw file early (start file startBytes) =
      .inl ((start file startBytes).asked hw file) := body_of_lt rfl hlt
  have hask := body_of_complete hw early rfl hasked hmissing
  rw [if_pos ⟨hearly, hround⟩] at hask
  have hend : body hw file early (((start file startBytes).asked hw file).completed file) =
      .inr .fileEnd := by
    have hnext := roundNext_eq (Nat.le_of_lt hlt)
    have hlast := h.last
    have hdone : ¬ roundNext file startBytes < file.length := by omega
    simp [body, completed, asked, start, hdone]
  constructor
  · intro t ht
    -- the states at the top of a turn are these three
    rcases ht.cases_head with rfl | ⟨t₁, hgo₁, ht⟩
    · intro hasking
      cases hasking
    · cases hsend.symm.trans hgo₁
      rcases ht.cases_head with rfl | ⟨t₂, hgo₂, ht⟩
      · intro _ _ hround'
        rw [hround']
        exact hround
      · cases hask.symm.trans hgo₂
        rcases ht.cases_head with rfl | ⟨t₃, hgo₃, ht⟩
        · intro hasking
          cases hasking
        · cases hend.symm.trans hgo₃
  · exact ⟨3, by rw [Loop.run_of_inl hsend, Loop.run_of_inl hask, Loop.run_of_inr hend]⟩

end Download

/-- **Every answer is taken and the download ends iff** there is nothing to send, or all
of it fits round 0 and arrives in its slots, and the answer is not early. -/
theorem download_iff (hw : Bool) (file : List UInt8) (startBytes : ℕ) (early : ℕ → Bool) :
    ((∀ s, Loop.Visits (Download.body hw file early) (Download.start file startBytes) s →
        s.AckAccepted file) ∧
      ∃ fuel, Loop.run (Download.body hw file early) fuel (Download.start file startBytes) =
        some .fileEnd) ↔
    file.length ≤ startBytes ∨ Download.OneRound file startBytes ∧ early 0 = false := by
  rcases Nat.lt_or_ge startBytes file.length with hlt | hge
  · constructor
    · rintro ⟨-, fuel, hrun⟩
      exact .inr (Download.oneRound_of_run hlt hrun)
    · rintro (hge | ⟨hone, hearly⟩)
      · exact absurd hge (Nat.not_le.mpr hlt)
      · exact Download.accepted_of_oneRound hone hearly hlt
  · have hend : Download.body hw file early (Download.start file startBytes) = .inr .fileEnd := by
      simp [Download.body, Download.start, Nat.not_lt.mpr hge]
    refine iff_of_true ⟨?_, 1, Loop.run_of_inr hend 0⟩ (.inl hge)
    intro s hs
    rcases hs.cases_head with rfl | ⟨s', hgo, -⟩
    · intro hasking
      cases hasking
    · cases hend.symm.trans hgo

/-- A file that has one byte more than a round is not downloaded, although nothing is
lost and no answer is early: the answer for round 1 is not taken. -/
theorem not_download_second_round :
    ¬ ((∀ s, Loop.Visits (Download.body true (List.replicate 3932161 0) fun _ => false)
          (Download.start (List.replicate 3932161 0) 0) s →
        s.AckAccepted (List.replicate 3932161 0)) ∧
      ∃ fuel, Loop.run (Download.body true (List.replicate 3932161 0) fun _ => false) fuel
        (Download.start (List.replicate 3932161 0) 0) = some .fileEnd) := by
  rintro ⟨-, fuel, hrun⟩
  have hlength : (List.replicate 3932161 (0 : UInt8)).length = 3932161 := List.length_replicate
  have hlast := (Download.oneRound_of_run (by rw [hlength]; decide) hrun).1.last
  rw [hlength] at hlast
  exact absurd hlast (by decide)

end FileTransfer

end IocpChat

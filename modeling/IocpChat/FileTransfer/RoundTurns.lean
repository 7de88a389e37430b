import IocpChat.FileTransfer.RoundBuffers
import IocpChat.FileTransfer.SenderRounds

/-!
# Rounds as a whole, and step by step

In `Upload` and `Download` a round is the list of its chunks.  In `ClientUpload` and `Downloads` the
same two functions read the chunks into vectors, and send what they find there.  What is done in the
one is done in the other, as nobody else writes to the vectors of an upload, or of a download that is
alone.

## Main definitions

* `Upload.Follows`, `Download.Follows` — the two have come equally far.
-/

namespace IocpChat

open Transition

namespace FileTransfer

/-! ## Uploads -/

/-- The packet, if what was sent is one. -/
def Sent.toServer (hw : Bool) : Sent → Option ToServer
  | .fileChunk offset data => some (chunkPacket hw ⟨offset, data⟩)
  | .roundEnd currentRound chunksThisRound => some (.roundEnd currentRound chunksThisRound)
  | .fileEnd _ => some .fileEnd
  | .fileStart | .roundDone _ | .error _ => none

/-- The point of a worker, in the steps of `ClientUpload`. -/
def Worker.point : Worker → SenderPoint
  | .sendChunk _ i => .sendChunk i
  | .sendRoundEnd _ => .sendRoundEnd
  | .clearAck _ => .clearAck
  | .wait _ => .wait
  | .resend _ missingChunks => .resend missingChunks
  | .sendFileEnd => .sendFileEnd
  | .gaveUp _ | .finished => .stopped

/-- Where the round of a worker begins. -/
def Worker.base : Worker → Option ℕ
  | .sendChunk base _ | .sendRoundEnd base | .clearAck base | .wait base
  | .resend base _ => some base
  | .sendFileEnd | .gaveUp _ | .finished => none

/-- The two workers have come equally far.  What is on the way to the server is the last of what
was sent. -/
structure Upload.Follows (hw : Bool) (file : List UInt8) (s : Upload) (c : ClientUpload) :
    Prop where
  phase : Phase hw file s
  acks : c.state.acks = s.client
  currentRound : c.worker.currentRound = s.client.currentRound
  point : c.worker.point = s.worker.point
  sent : s.toServer <:+ c.worker.sent.filterMap (Sent.toServer hw)
  round : ∀ base ∈ s.worker.base, c.worker.In file base c.state

abbrev ClientUpload.Goes (u : StoredFile) : ClientUpload → ClientUpload → Prop :=
  Reaches (step u) fun _ _ => True

section Upload

variable {hw : Bool} {file : List UInt8} {crc : UInt32} {s s' : Upload} {c c' : ClientUpload}
  {u : StoredFile}

theorem Phase.worker_ne_resend {missing : List ℕ} (h : Phase hw file s)
    (hrecording : s.recording = some missing) (base : ℕ) (missingChunks : List ℕ) :
    s.worker ≠ .resend base missingChunks := by
  cases h with
  | answering hlt hworker hack hanswer hserver =>
    rintro rfl
    exact hworker
  | sending | asking | lost | answered | ended | reported => cases hrecording

theorem ClientUpload.goes_of_leads {x y : TransferState × Sender} (h : Sender.Leads u x y) :
    Goes u ⟨x.1, x.2⟩ ⟨y.1, y.2⟩ := by
  refine h.lift (fun x => (⟨x.1, x.2⟩ : ClientUpload)) ?_
  rintro x y ⟨hopen, hcheck, hwork⟩
  refine ⟨.work, trivial, ?_⟩
  simp [step, work, hwork]

/-- `c` comes to follow `s`. -/
def Upload.Led (hw : Bool) (file : List UInt8) (crc : UInt32) (s : Upload) (c : ClientUpload) :
    Prop :=
  ∃ c', ClientUpload.Goes (.whole file crc) c c' ∧ s.Follows hw file c'

namespace Upload

theorem handle_frame (hw : Bool) (s : Upload) (p : ToServer) : (s.handle hw p).client = s.client ∧
    (s.handle hw p).worker = s.worker ∧ (s.handle hw p).toServer = s.toServer := by
  unfold handle
  split
  · cases p <;> exact ⟨rfl, rfl, rfl⟩
  · exact ⟨rfl, rfl, rfl⟩

theorem Led.trans (hgoes : ClientUpload.Goes (.whole file crc) c c') (h : s.Led hw file crc c') :
    s.Led hw file crc c :=
  h.imp fun _ hled => ⟨hgoes.trans hled.1, hled.2⟩

theorem Follows.goes_work {state : TransferState} {t : Sender} (h : s.Follows hw file c)
    (hwork : c.worker.work u c.state = some (state, t)) : ClientUpload.Goes u c ⟨state, t⟩ := by
  have hpoint := h.point
  refine .single ⟨.work, trivial, ?_⟩
  cases hworker : s.worker <;> rw [hworker] at hpoint <;>
    simp [ClientUpload.step, ClientUpload.work, hwork, hpoint, Worker.point]

theorem led_nextRound (hphase : Phase hw file s) (hpoint : c.worker.point = .nextRound)
    (hround : c.worker.currentRound = s.client.currentRound)
    (hoffsets : c.state.roundOffsets.length = maxChunksPerRound) (hacks : c.state.acks = s.client)
    (hworker : s.worker = nextRound file c.worker.bytesSent)
    (hsent : s.toServer <:+ c.worker.sent.filterMap (Sent.toServer hw)) : s.Led hw file crc c := by
  obtain ⟨state, point, bytesSent, round, n, sent⟩ := c
  cases hpoint
  by_cases hlt : bytesSent < file.length
  · rw [nextRound, if_pos hlt] at hworker
    obtain ⟨state', hleads, hholds, hacks'⟩ := leads_nextRound hlt hoffsets
    refine ⟨_, ClientUpload.goes_of_leads hleads, hphase, hacks'.trans hacks, hround, ?_, hsent,
      ?_⟩
    · rw [hworker, Worker.point]
    · rw [hworker]
      rintro base ⟨⟩
      exact ⟨rfl, rfl, hholds⟩
  · rw [nextRound, if_neg hlt] at hworker
    have hstep : ClientUpload.step (.whole file crc) ⟨state, .nextRound, bytesSent, round, n, sent⟩
        .work = some ⟨state, .sendFileEnd, bytesSent, round, n, sent⟩ := by
      simp [ClientUpload.step, ClientUpload.work, Sender.work, Sender.goto, hlt]
    refine ⟨_, .single ⟨.work, trivial, hstep⟩, hphase, hacks, hround, ?_, hsent, ?_⟩
    · rw [hworker, Worker.point]
    · rw [hworker]
      rintro base ⟨⟩

theorem suffix_move {toServer : List ToServer} {t : Sender}
    (h : toServer <:+ t.sent.filterMap (Sent.toServer hw)) (point : SenderPoint) (new : List Sent) :
    toServer ++ new.filterMap (Sent.toServer hw) <:+
      (t.move point new).sent.filterMap (Sent.toServer hw) := by
  obtain ⟨pre, hpre⟩ := h
  refine ⟨pre, ?_⟩
  rw [Sender.move, List.filterMap_append, ← hpre, List.append_assoc]

/-- In a round, the vectors and the answers stay as they are. -/
theorem Follows.move {base : ℕ} (new : List Sent) (h : s.Follows hw file c)
    (hphase : Phase hw file s') (hin : c.worker.In file base c.state)
    (hbase : s'.worker.base = some base) (hclient : s'.client = s.client)
    (htoServer : s'.toServer = s.toServer ++ new.filterMap (Sent.toServer hw))
    (hgoes : ClientUpload.Goes (.whole file crc) c ⟨c.state, c.worker.move s'.worker.point new⟩) :
    s'.Led hw file crc c := by
  refine ⟨_, hgoes, hphase, hclient ▸ h.acks, hclient ▸ h.currentRound, rfl, ?_, ?_⟩
  · rw [htoServer]
    exact suffix_move h.sent _ new
  · intro b hb
    cases hbase.symm.trans hb
    exact hin.move _ _

theorem filterMap_sentChunks (chunk : Option Chunk) :
    (sentChunks chunk.toList).filterMap (Sent.toServer hw) =
      (chunk.map (chunkPacket hw)).toList := by
  cases chunk <;> rfl

/-- The worker of the one model takes a step, and that of the other one or more. -/
theorem Follows.work (h : s.Follows hw file c) (hwork : s.work hw file = some s') :
    s'.Led hw file crc c := by
  have hphase := h.phase.work hwork
  have hpoint := h.point
  unfold Upload.work at hwork
  cases hworker : s.worker with
  | sendChunk base i =>
    have hin := h.round base (congrArg Worker.base hworker)
    simp only [hworker, Worker.point] at hpoint hwork
    split at hwork <;> rename_i hi <;> cases hwork
    · exact h.move _ hphase hin rfl rfl (congrArg _ (filterMap_sentChunks _).symm)
        (h.goes_work (work_sendChunk hin hpoint hi))
    · refine h.move [] hphase hin rfl rfl (List.append_nil _).symm (h.goes_work ?_)
      simp [Sender.work, Sender.goto, Sender.move, Worker.point, hpoint, hin.chunks, hi]
  | sendRoundEnd base =>
    have hin := h.round base (congrArg Worker.base hworker)
    simp only [hworker, Worker.point] at hpoint hwork
    cases hwork
    refine h.move [.roundEnd s.client.currentRound (roundChunks file base).length] hphase hin rfl
      rfl rfl (h.goes_work ?_)
    simp [Sender.work, Sender.goto, Sender.send, Sender.move, Worker.point, hpoint, hin.chunks,
      h.currentRound]
  | clearAck base =>
    have hin := h.round base (congrArg Worker.base hworker)
    simp only [hworker, Worker.point] at hpoint hwork
    cases hwork
    have hclear : c.worker.work (.whole file crc) c.state = some
        ({ c.state with acks := { c.state.acks with ackReceived := false } },
          c.worker.goto .wait) := by
      simp [Sender.work, hpoint]
    refine ⟨_, h.goes_work hclear, hphase, ?_, h.currentRound, rfl, h.sent, ?_⟩
    · rw [← h.acks]
    · rintro b ⟨⟩
      exact ⟨hin.bytesSent, hin.chunks, (hin.setAcks _).holds⟩
  | wait base =>
    have hin := h.round base (congrArg Worker.base hworker)
    simp only [hworker, Worker.point, ← h.acks] at hpoint hwork
    split at hwork
    · rename_i hack
      have hcheck : c.worker.work (.whole file crc) c.state =
          some (c.state, c.worker.goto .check) := by
        simp [Sender.work, hpoint, hack]
      split at hwork <;> rename_i hmissing <;> cases hwork
      · have hdone : ClientUpload.step (.whole file crc) ⟨c.state, c.worker.goto .check⟩ .work =
            some ⟨{ c.state with
                acks := { c.state.acks with currentRound := c.state.acks.currentRound + 1 } },
              { c.worker.move .nextRound [.roundDone c.worker.currentRound] with
                currentRound := c.worker.currentRound + 1 }⟩ := by
          simp [ClientUpload.step, ClientUpload.work, Sender.send, Sender.goto, Sender.move,
            hmissing]
        refine Led.trans ((h.goes_work hcheck).tail ⟨.work, trivial, hdone⟩)
          (led_nextRound hphase rfl ?_ hin.holds.offsets rfl ?_ ?_)
        · simp [h.acks, h.currentRound]
        · simp [hin.bytesSent, Sender.move]
        · simpa [List.filterMap_cons, Sent.toServer] using
            suffix_move h.sent .nextRound [.roundDone c.worker.currentRound]
      · have hresend : ClientUpload.step (.whole file crc) ⟨c.state, c.worker.goto .check⟩ .work =
            some ⟨c.state, c.worker.move (.resend c.state.acks.missingChunks) []⟩ := by
          simp [ClientUpload.step, ClientUpload.work, Sender.goto, Sender.move, hmissing]
        exact h.move [] hphase hin rfl h.acks (List.append_nil _).symm
          ((h.goes_work hcheck).tail ⟨.work, trivial, hresend⟩)
    · cases hwork
  | resend base missing =>
    have hin := h.round base (congrArg Worker.base hworker)
    simp only [hworker, Worker.point] at hpoint hwork
    cases missing with
    | nil =>
      cases hwork
      refine h.move [] hphase hin rfl rfl (List.append_nil _).symm (h.goes_work ?_)
      simp [Sender.work, Sender.goto, Sender.move, Worker.point, hpoint]
    | cons idx rest =>
      cases hwork
      exact h.move _ hphase hin rfl rfl (congrArg _ (filterMap_sentChunks _).symm)
        (h.goes_work (work_resend hin hpoint))
  | sendFileEnd =>
    simp only [hworker, Worker.point] at hpoint hwork
    cases hwork
    have hend : c.worker.work (.whole file crc) c.state =
        some (c.state, c.worker.move .stopped [.fileEnd crc]) := by
      simp [Sender.work, Sender.goto, Sender.send, Sender.move, hpoint]
    refine ⟨_, h.goes_work hend, hphase, h.acks, h.currentRound, rfl, ?_, ?_⟩
    · exact suffix_move h.sent _ [.fileEnd crc]
    · rintro base ⟨⟩
  | gaveUp | finished => simp [hworker] at hwork

/-- What happens on the way does not concern the worker. -/
theorem Follows.led (h : s.Follows hw file c) (hphase : Phase hw file s')
    (hclient : s'.client = s.client) (hworker : s'.worker = s.worker)
    (hsent : s'.toServer <:+ s.toServer) : s'.Led hw file crc c := by
  refine ⟨c, .refl, hphase, ?_, ?_, ?_, hsent.trans h.sent, ?_⟩ <;> simp only [hclient, hworker]
  exacts [h.acks, h.currentRound, h.point, h.round]

theorem Follows.step {a : Action} (h : s.Follows hw file c) (hstep : s.step hw file a = some s') :
    s'.Led hw file crc c := by
  have hphase := h.phase.of_step hstep
  cases a with
  | work => exact h.work hstep
  | timeout =>
    simp only [Upload.step] at hstep
    split at hstep
    · rename_i base hworker
      have hpoint := h.point
      rw [hworker] at hpoint
      split at hstep <;> rename_i hack <;> cases hstep
      rw [← h.acks, Bool.not_eq_true] at hack
      refine ⟨_, .single ⟨.timeout, trivial, if_pos ⟨hpoint, hack⟩⟩, hphase, h.acks, h.currentRound,
        rfl, h.sent, ?_⟩
      rintro base ⟨⟩
    · cases hstep
  | deliver lost =>
    simp only [Upload.step] at hstep
    split at hstep
    · cases hstep
    · rename_i p rest hqueue
      cases hstep
      have hrest : rest <:+ s.toServer := hqueue ▸ List.suffix_cons p rest
      cases lost with
      | true => exact h.led hphase rfl rfl hrest
      | false =>
        obtain ⟨hclient, hworker, htoServer⟩ := handle_frame hw { s with toServer := rest } p
        exact h.led hphase hclient hworker (htoServer ▸ hrest)
  | deliverAck lost =>
    simp only [Upload.step] at hstep
    split at hstep <;> cases hstep
    refine h.led hphase ?_ ?_ ?_ <;> split <;> rfl
  | recordAck =>
    simp only [Upload.step] at hstep
    split at hstep <;> cases hstep
    rename_i missing hrecording
    have hkeep : c.worker.invalidate = c.worker := by
      unfold Sender.invalidate
      rw [h.point]
      cases hworker : s.worker with
      | resend => exact absurd hworker (h.phase.worker_ne_resend hrecording _ _)
      | _ => rfl
    have hack : c.step (.whole file crc) (.ack ⟨c.state.acks.currentRound, missing⟩) =
        some ⟨{ c.state with acks := c.state.acks.record missing }, c.worker⟩ := by
      simp [ClientUpload.step, hkeep]
    refine ⟨_, .single ⟨_, trivial, hack⟩, hphase, ?_, h.currentRound, h.point, h.sent, ?_⟩
    · rw [← h.acks]
    · exact fun base hbase => (h.round base hbase).setAcks _

/-- **Every upload is one with the vectors**, in which the worker sends the same. -/
theorem exists_clientUpload
    (h : Reaches (Upload.step hw file) (fun _ _ => True) (.start file (.start file.length [])) s) :
    s.Led hw file crc (.start 0) := by
  obtain ⟨c₀, hreaches₀, hfollows⟩ :
      (Upload.start file (.start file.length [])).Led hw file crc (.start 0) :=
    .trans (.single ⟨.work, trivial, rfl⟩)
      (led_nextRound (Phase.start hw file) rfl rfl List.length_replicate rfl rfl List.nil_suffix)
  obtain ⟨c, hreaches, hfollows⟩ := h.simulates hfollows fun _ _ _ _ h _ hstep => h.step hstep
  exact ⟨c, hreaches₀.trans hreaches, hfollows⟩

end Upload

end Upload

/-! ## Downloads -/

/-- A client gets what a thread has sent, each chunk intact. -/
def Incoming.replay (hw : Bool) (client : Incoming) (sent : List Sent) : Incoming :=
  sent.foldl (fun client p =>
    match p with
    | .fileChunk offset data => client.handleFileChunk hw offset (CRC32C.compute hw data 0) data
    | .roundEnd currentRound chunksThisRound =>
      (client.handleRoundEnd currentRound chunksThisRound).1
    | _ => client) client

/-- The thread has come to the top of the same turn, and has sent what the client has got. -/
structure Download.Follows (hw : Bool) (file : List UInt8) (client : Incoming) (s : Download)
    (state : TransferState) (t : Sender) : Prop where
  acks : state.acks = s.state
  offsets : state.roundOffsets.length = maxChunksPerRound
  currentRound : t.currentRound = s.currentRound
  client : client.replay hw t.sent = s.client
  outer : s.asking = false → t.point = .nextRound ∧ t.bytesSent = s.roundBase
  inner : s.asking = true → t.point = .sendRoundEnd ∧ t.In file s.roundBase state

/-- A thread has come to its end in the same way. -/
def Ending.Of (crc : UInt32) (ending : Ending) (t : Sender) : Prop :=
  t.point = .stopped ∧ (t.sent.getLast? = some (.fileEnd crc) ↔ ending = .fileEnd)

/-- The only thread goes on, and gets answers. -/
def Downloads.Goes (u : StoredFile) (state : TransferState) (t : Sender) (state' : TransferState)
    (t' : Sender) : Prop :=
  Reaches (Downloads.step u) (fun _ _ => True) ⟨state, fun _ : Unit => t⟩ ⟨state', fun _ => t'⟩

section Download

variable {hw : Bool} {file : List UInt8} {crc : UInt32} {client : Incoming} {s : Download}
  {state state' : TransferState} {t t' : Sender} {u : StoredFile} {early : ℕ → Bool}

theorem Incoming.replay_append (sent sent' : List Sent) :
    client.replay hw (sent ++ sent') = (client.replay hw sent).replay hw sent' :=
  List.foldl_append

theorem Incoming.replay_sentChunks (chunks : List Chunk) :
    client.replay hw (sentChunks chunks) = client.receiveAll hw chunks :=
  List.foldl_map

namespace Downloads

theorem goes_work (h : t.work u state = some (state', t')) : Goes u state t state' t' := by
  refine .single ⟨((), .work), trivial, ?_⟩
  simp [step, h, Downloads.mk.injEq]
  exact funext fun _ => Function.update_self ..

theorem goes_of_leads {x y : TransferState × Sender} (h : Sender.Leads u x y) :
    Goes u x.1 x.2 y.1 y.2 := by
  induction h with
  | refl => exact .refl
  | tail _ hwork ih => exact ih.trans (goes_work hwork.2.2)

theorem goes_ack (ack : FileAck) (h : t.invalidate = t) : Goes u state t
    { state with acks := if ack.Fits then state.acks.onAckReceived ack else state.acks } t := by
  split
  · refine .single ⟨((), .ack ack), trivial, ?_⟩
    simp only [step]
    split
    · rename_i hround
      rw [Outgoing.onAckReceived, if_pos hround]
    · rw [h]
  · exact .refl

end Downloads

open Downloads

namespace Download

/-- The thread asks, and the answer comes before or after it clears `ackReceived`. -/
theorem goes_awaited (file : List UInt8) (e : Bool) (hacks : state.acks = s.state)
    (hpoint : t.point = .clearAck) :
    Goes u state t { state with acks := s.awaited file e } (t.goto .wait) := by
  have hclear : ∀ state : TransferState, Goes u state t
      { state with acks := { state.acks with ackReceived := false } } (t.goto .wait) :=
    fun state => goes_work (by simp [Sender.work, hpoint])
  cases e with
  | true =>
    rw [awaited, if_pos rfl, ← hacks]
    exact (goes_ack (s.answer file).2 (by simp [Sender.invalidate, hpoint])).trans (hclear _)
  | false =>
    rw [awaited, if_neg (by simp), ← hacks]
    exact (hclear state).trans (goes_ack (s.answer file).2 rfl)

/-- A turn of the loops is made of steps of the thread, and of an answer. -/
def Turns (hw : Bool) (file : List UInt8) (crc : UInt32) (early : ℕ → Bool) (client : Incoming)
    (s : Download) (state : TransferState) (t : Sender) : Prop :=
  ∃ state' t', Goes (.whole file crc) state t state' t' ∧
    ((∃ s', s.body hw file early = .inl s' ∧ s'.Follows hw file client state' t') ∨
      ∃ ending, s.body hw file early = .inr ending ∧ ending.Of crc t')

theorem Follows.turns_of_not_asking (h : s.Follows hw file client state t)
    (hasking : s.asking = false) : Turns hw file crc early client s state t := by
  obtain ⟨hpoint, hbytes⟩ := h.outer hasking
  obtain ⟨point, bytesSent, round, n, sent⟩ := t
  simp only at hpoint hbytes
  subst hpoint hbytes
  by_cases hlt : s.roundBase < file.length
  · obtain ⟨state', hfill, hholds, hacks⟩ := leads_nextRound hlt h.offsets
    have hsend := hfill.trans (leads_sendChunk ⟨rfl, rfl, hholds⟩ rfl (Nat.zero_le _))
    refine ⟨_, _, goes_of_leads hsend, .inl ⟨_, body_of_lt hasking hlt, hacks.trans h.acks,
      hholds.offsets, h.currentRound, ?_, Bool.noConfusion, fun _ => ⟨rfl, rfl, rfl, hholds⟩⟩⟩
    rw [List.drop_zero, Sender.move, Incoming.replay_append, Incoming.replay_sentChunks, h.client]
    rfl
  · have hend : (⟨.nextRound, s.roundBase, round, n, sent⟩ : Sender).work (.whole file crc) state =
        some (state, ⟨.sendFileEnd, s.roundBase, round, n, sent⟩) := if_neg hlt
    refine ⟨_, _, (goes_work hend).trans (goes_work rfl), .inr ⟨.fileEnd, ?_, rfl, ?_⟩⟩
    · simp [Download.body, hasking, hlt]
    · simp [Sender.goto, Sender.send]

theorem Follows.turns_of_asking (h : s.Follows hw file client state t) (hasking : s.asking = true) :
    Turns hw file crc early client s state t := by
  obtain ⟨hpoint, hin⟩ := h.inner hasking
  -- the thread asks and waits
  have hask : t.work (.whole file crc) state = some (state,
      t.move .clearAck [.roundEnd s.currentRound (roundChunks file s.roundBase).length]) := by
    simp [Sender.work, Sender.goto, Sender.send, Sender.move, hpoint, hin.chunks, h.currentRound]
  have hwait := (goes_work hask).trans (goes_awaited file (early s.answers) h.acks rfl)
  have hanswer : client.replay hw (t.sent ++
      [.roundEnd s.currentRound (roundChunks file s.roundBase).length]) = (s.answer file).1 := by
    rw [Incoming.replay_append, h.client]
    rfl
  have hkeep := hin.setAcks (s.awaited file (early s.answers))
  by_cases hack : (s.awaited file (early s.answers)).ackReceived = false
  · refine ⟨_, _, hwait.tail ⟨((), .timeout), trivial, if_pos ⟨rfl, hack⟩⟩,
      .inr ⟨.ackTimeout, ?_, rfl, ?_⟩⟩
    · simp [Download.body, hasking, hack]
    · simp [Sender.goto, Sender.move]
  have hcheck := hwait.trans (goes_work (if_pos (Bool.eq_true_of_not_eq_false hack)))
  by_cases herror : (s.awaited file (early s.answers)).missingChunks = [0xFFFFFFFF]
  · refine ⟨_, _, hcheck.trans (goes_work (if_pos herror)), .inr ⟨.ackError, ?_, rfl, ?_⟩⟩
    · simp [Download.body, hasking, hack, herror]
    · simp [Sender.goto, Sender.move]
  by_cases hmissing : (s.awaited file (early s.answers)).missingChunks = []
  · have hbody : s.body hw file early = .inl
        ⟨s.awaited file (early s.answers), false, s.currentRound + 1, roundNext file s.roundBase,
          (s.answer file).1, s.answers + 1⟩ := by
      simp [Download.body, hasking, hack, hmissing]
    refine ⟨_, _, hcheck.trans (goes_work ((if_neg herror).trans (if_pos hmissing))), .inl ⟨_, hbody,
      rfl, h.offsets, congrArg (· + 1) h.currentRound, ?_, fun _ => ⟨rfl, hin.bytesSent⟩,
      Bool.noConfusion⟩⟩
    exact (Incoming.replay_append _ [.roundDone t.currentRound]).trans hanswer
  · have hbody : s.body hw file early = .inl
        { s with
          state := s.awaited file (early s.answers)
          client := (s.answer file).1.receiveAll hw
            ((s.awaited file (early s.answers)).missingChunks.filterMap fun idx =>
              (roundChunks file s.roundBase)[idx]?)
          answers := s.answers + 1 } := by
      simp [Download.body, hasking, hack, herror, hmissing]
    have hresend := (hcheck.trans (goes_work ((if_neg herror).trans (if_neg hmissing)))).trans
      (goes_of_leads (leads_resend (hkeep.move _ _) rfl))
    refine ⟨_, _, hresend, .inl ⟨_, hbody, rfl, h.offsets, h.currentRound, ?_, ?_, ?_⟩⟩
    · refine (Incoming.replay_append _ _).trans ?_
      rw [Incoming.replay_sentChunks]
      exact congrArg (Incoming.receiveAll hw · _) hanswer
    · exact fun hfalse => absurd (hasking.symm.trans hfalse) Bool.noConfusion
    · exact fun _ => ⟨rfl, hkeep.bytesSent, hkeep.chunks, hkeep.holds⟩

theorem Follows.turns (h : s.Follows hw file client state t) :
    Turns hw file crc early client s state t := by
  cases hasking : s.asking with
  | false => exact h.turns_of_not_asking hasking
  | true => exact h.turns_of_asking hasking

/-- **A download is one with the vectors**, and ends in the same way. -/
theorem exists_downloads {startBytes fuel : ℕ} {ending : Ending}
    (h : Loop.run (Download.body hw file early) fuel (.start file startBytes) = some ending) :
    ∃ d, Reaches (Downloads.step (.whole file crc)) (fun _ _ => True) (.start : Downloads Unit) d ∧
      ending.Of crc (d.threads ()) := by
  refine Loop.run_invariant
    (fun s => ∃ state t, Reaches (Downloads.step (.whole file crc)) (fun _ _ => True) .start
        (⟨state, fun _ => t⟩ : Downloads Unit) ∧
      s.Follows hw file (.start file.length (file.take startBytes)) state t)
    (fun ending => ∃ d, Reaches (Downloads.step (.whole file crc)) (fun _ _ => True)
      (.start : Downloads Unit) d ∧ ending.Of crc (d.threads ())) h ?_ ?_
  · have hrequest : Reaches (Downloads.step (.whole file crc)) (fun _ _ => True)
        (.start : Downloads Unit)
        ⟨⟨.replicate maxChunksPerRound [], .replicate maxChunksPerRound 0, ⟨0, false, []⟩⟩,
          fun _ => ⟨.openFile, startBytes, startBytes / roundSize, 0, [.fileStart]⟩⟩ :=
      .single ⟨((), .request startBytes), trivial, rfl⟩
    exact ⟨_, _, hrequest.trans (goes_work rfl), rfl, List.length_replicate, rfl, rfl,
      fun _ => ⟨rfl, rfl⟩, Bool.noConfusion⟩
  · rintro s ⟨state, t, hreaches, hfollows⟩
    obtain ⟨state', t', hgoes, ⟨s', hgo, hfollows'⟩ | ⟨ending, hexit, hof⟩⟩ := hfollows.turns
    · exact .inl ⟨s', hgo, state', t', hreaches.trans hgoes, hfollows'⟩
    · exact .inr ⟨ending, hexit, _, hreaches.trans hgoes, hof⟩

end Download

end Download

end FileTransfer

end IocpChat

import IocpChat.FileTransfer.RoundAcks

/-!
# The size of an upload

`handleFileStart` refuses an upload that is declared to be larger than 5 MiB.  After that nothing
is compared with the declared size until `FILE_END`.  A chunk may have any offset and any size, and
`ROUND_END` writes whatever is in the slots.  So an upload stays in its limit if and only if the
rounds that are completed do (`limited_iff`).

How much an upload has written is read off its file, which other uploads may write to as well.

## Main definitions

* `MeteredServer`, `MeteredServer.step` — the uploads, with what each has written.
* `MeteredServer.Limited` — no upload has written more than was declared.
* `MeteredServer.Within` — the round that is completed has no more than is left to be sent.
* `MeteredServer.InPlace` — the chunk lies in the file, where its slot says.
-/

namespace IocpChat

open Pieces Transition

namespace FileTransfer

/-- The uploads.  It is recorded how long the file of an upload was when it began, and by how much
the upload has made it longer. -/
structure MeteredServer where
  server : UploadServer
  resumeOffset : Key → ℕ
  written : Key → ℕ

namespace MeteredServer

variable (host : Host) (hw : Bool)

def start (files : Key → List UInt8) : MeteredServer := ⟨.start files, fun _ => 0, fun _ => 0⟩

/-- By how much a packet has made the file of its upload longer. -/
def growth (s : MeteredServer) (server : UploadServer) (id : UploadId) : ℕ :=
  (s.server.transfers id.key).elim 0 fun t =>
    (server.files t.file).length - (s.server.files t.file).length

def step (s : MeteredServer) (a : UploadId × UploadPacket) : Option MeteredServer :=
  (s.server.step host hw a).map fun server =>
    match UploadPacket.opened host a with
    | some file =>
      { server
        resumeOffset := Function.update s.resumeOffset a.1.key (s.server.files file).length
        written := Function.update s.written a.1.key 0 }
    | none =>
      { s with
        server
        written := Function.update s.written a.1.key (s.written a.1.key + s.growth server a.1) }

/-- **The limit holds.**  No upload has written more than was declared, less what was there.  If
nothing was there, it has received no more than was declared, which is at most 5 MiB. -/
def Limited (s : MeteredServer) : Prop :=
  ∀ key, ∀ t ∈ s.server.transfers key,
    s.written key ≤ t.state.totalSize - s.resumeOffset key ∧
      (s.resumeOffset key = 0 →
        t.state.receivedOffset ≤ t.state.totalSize ∧ t.state.totalSize ≤ maxFileSize)

/-- A round that is completed has no more bytes than are left to be sent. -/
def Within (s : MeteredServer) : UploadId × UploadPacket → Prop
  | (id, .roundEnd roundId chunkCount) => ∀ t ∈ s.server.transfers id.key,
      roundId = t.state.currentRound → missing t.state.roundBuffer chunkCount = [] →
        t.state.roundBuffer.flatten.length ≤ t.state.totalSize - t.state.receivedOffset
  | _ => True

instance (s : MeteredServer) : ∀ a, Decidable (s.Within a)
  | (_, .roundEnd ..) => Option.decidableForallMem _
  | (_, .fileStart ..) => .isTrue trivial
  | (_, .fileChunk ..) => .isTrue trivial
  | (_, .fileEnd) => .isTrue trivial

end MeteredServer

/-! ## What a packet writes -/

/-- The bytes that a packet appends to the file of its upload. -/
def UploadPacket.bytes (t : Transfer) : UploadPacket → ℕ
  | .roundEnd roundId chunkCount =>
    if roundId = t.state.currentRound ∧ missing t.state.roundBuffer chunkCount = [] then
      t.state.roundBuffer.flatten.length
    else 0
  | _ => 0

/-- An upload before and after a packet, and its file. -/
structure Transfer.Grows (t t' : Transfer) (n : ℕ) (content content' : List UInt8) : Prop where
  file : t'.file = t.file
  totalSize : t'.state.totalSize = t.state.totalSize
  receivedOffset : t'.state.receivedOffset = t.state.receivedOffset + n
  content : content'.length = content.length + n

section Packets

variable {host : Host} {hw : Bool} {id : UploadId} {p : UploadPacket} {content : List UInt8}
  {r : Option Transfer × List UInt8 × List UploadAnswer}

theorem Incoming.handleRoundEnd_grows (s : Incoming) (roundId chunkCount : ℕ) :
    (s.handleRoundEnd roundId chunkCount).1.totalSize = s.totalSize ∧
      ∀ n, n = (if roundId = s.currentRound ∧ missing s.roundBuffer chunkCount = [] then
          s.roundBuffer.flatten.length else 0) →
        (s.handleRoundEnd roundId chunkCount).1.receivedOffset = s.receivedOffset + n ∧
          (s.handleRoundEnd roundId chunkCount).1.fileStream.length = s.fileStream.length + n := by
  rw [handleRoundEnd]
  by_cases hround : roundId = s.currentRound
  · by_cases hmissing : missing s.roundBuffer chunkCount = []
    · simp [hround, hmissing, writeRoundToDisk_eq]
    · simp [hround, hmissing]
  · simp [hround]

/-- A packet that opens no file leaves an upload, or makes its file longer. -/
theorem UploadPacket.Makes.grows {t t' : Transfer} {content' : List UInt8}
    (h : p.Makes host hw id content (some t) t' content') (hopened : opened host (id, p) = none) :
    t.Grows t' (p.bytes t) content content' := by
  cases h with
  | start hfile hsize =>
    rw [hopened] at hfile
    cases hfile
  | refuse => exact ⟨rfl, rfl, rfl, rfl⟩
  | @chunk _ byteOffset crc data =>
    obtain ⟨htotal, hreceived, -⟩ := t.state.handleFileChunk_frame hw byteOffset crc data
    exact ⟨rfl, htotal, hreceived, rfl⟩
  | @round _ roundId chunkCount state _ hstate hnew =>
    obtain ⟨htotal, hgrows⟩ := Incoming.handleRoundEnd_grows
      { t.state with fileStream := content } roundId chunkCount
    obtain ⟨hreceived, hcontent⟩ := hgrows _ rfl
    rw [hstate] at htotal hreceived hcontent
    exact ⟨rfl, htotal, hreceived, hnew ▸ hcontent⟩

end Packets

namespace MeteredServer

variable {host : Host} {hw : Bool} {s s' : MeteredServer} {id : UploadId} {p : UploadPacket}

theorem within_iff : s.Within (id, p) ↔ ∀ t ∈ s.server.transfers id.key,
    p.bytes t ≤ t.state.totalSize - t.state.receivedOffset := by
  cases p with
  | roundEnd roundId chunkCount =>
    simp only [Within, UploadPacket.bytes]
    refine forall_congr' fun t => forall_congr' fun _ => ?_
    split
    · rename_i hdone
      simp [hdone]
    · rename_i hopen
      exact iff_of_true (fun hround hmissing => absurd ⟨hround, hmissing⟩ hopen) (Nat.zero_le _)
  | fileStart | fileChunk | fileEnd => simp [Within, UploadPacket.bytes]

/-- What has been received is what was there and what was written, and the declared size was
accepted. -/
def Tally (s : MeteredServer) : Prop :=
  ∀ key, ∀ t ∈ s.server.transfers key,
    t.state.receivedOffset = s.resumeOffset key + s.written key ∧ t.state.totalSize ≤ maxFileSize

theorem transfers_of_ne (hstep : step host hw s (id, p) = some s') {key : Key} (hkey : key ≠ id.key) :
    s'.server.transfers key = s.server.transfers key ∧ s'.resumeOffset key = s.resumeOffset key ∧
      s'.written key = s.written key := by
  obtain ⟨server, hserver, rfl⟩ := Option.map_eq_some_iff.mp hstep
  obtain ⟨r, -, rfl⟩ := Option.map_eq_some_iff.mp hserver
  cases UploadPacket.opened host (id, p) <;> simp [hkey]

/-- **The upload of a packet**: it begins, or it goes on. -/
theorem transfer_of_step (hstep : step host hw s (id, p) = some s') {t' : Transfer}
    (ht' : t' ∈ s'.server.transfers id.key) :
    (s'.written id.key = 0 ∧ t'.state.receivedOffset = s'.resumeOffset id.key ∧
      t'.state.totalSize ≤ maxFileSize ∧ s.Within (id, p)) ∨
    ∃ t ∈ s.server.transfers id.key, s'.resumeOffset id.key = s.resumeOffset id.key ∧
      s'.written id.key = s.written id.key + p.bytes t ∧ t'.state.totalSize = t.state.totalSize ∧
      t'.state.receivedOffset = t.state.receivedOffset + p.bytes t := by
  obtain ⟨server, hserver, rfl⟩ := Option.map_eq_some_iff.mp hstep
  have ht : server.transfers id.key = some t' := by
    cases hopened : UploadPacket.opened host (id, p) <;> simpa [hopened] using ht'
  obtain ⟨content, hmakes, hfiles⟩ := UploadServer.makes_of_step hserver ht
  simp only [UploadServer.found] at hmakes
  cases hopened : UploadPacket.opened host (id, p) with
  | some file =>
    left
    generalize s.server.transfers id.key = transfer at hmakes
    cases hmakes with
    | start hfile hsize =>
      obtain rfl := Option.some_injective _ (hfile.symm.trans hopened)
      refine ⟨by simp, ?_, hsize, trivial⟩
      simp [UploadPacket.target, hfile, Incoming.start]
    | refuse hrefused => exact absurd (hrefused.symm.trans hopened) (by simp)
    | chunk | round => cases hopened
  | none =>
    right
    cases hbefore : s.server.transfers id.key with
    | none =>
      rw [hbefore] at hmakes
      cases hmakes with
      | start hfile hsize => exact absurd (hopened.symm.trans hfile) (by simp)
    | some t =>
      rw [hbefore] at hmakes hfiles
      have hgrows := hmakes.grows hopened
      have hlength : (server.files t.file).length = (s.server.files t.file).length + p.bytes t := by
        have hcontent := hgrows.content
        rw [hfiles]
        cases hmakes with
        | start hfile hsize => exact absurd (hopened.symm.trans hfile) (by simp)
        | refuse hrefused =>
          rw [UploadPacket.target, hrefused]
          rfl
        | chunk | round => simpa [UploadPacket.target] using hcontent
      refine ⟨t, rfl, rfl, ?_, hgrows.totalSize, hgrows.receivedOffset⟩
      simp [growth, hbefore, hlength]

theorem Tally.step (h : s.Tally) (hstep : step host hw s (id, p) = some s') : s'.Tally := by
  intro key t' ht'
  by_cases hkey : key = id.key
  · subst hkey
    rcases transfer_of_step hstep ht' with ⟨hwritten, hreceived, hsize, -⟩ |
      ⟨t, ht, hresume, hwritten, htotal, hreceived⟩
    · exact ⟨by rw [hreceived, hwritten, Nat.add_zero], hsize⟩
    · obtain ⟨htally, hsize⟩ := h id.key t ht
      exact ⟨by omega, htotal.trans_le hsize⟩
  · obtain ⟨htransfers, hresume, hwritten⟩ := transfers_of_ne hstep hkey
    rw [htransfers] at ht'
    rw [hresume, hwritten]
    exact h key t' ht'

theorem exists_step_of_bytes {t : Transfer} (ht : s.server.transfers id.key = some t)
    (hbytes : 0 < p.bytes t) :
    ∃ s' t', step host hw s (id, p) = some s' ∧ s'.server.transfers id.key = some t' := by
  cases p with
  | roundEnd roundId chunkCount =>
    rw [UploadPacket.bytes] at hbytes
    split at hbytes
    · rename_i hdone
      obtain ⟨rfl, hmissing⟩ := hdone
      have hcount : chunkCount ≤ t.state.roundBuffer.length := by
        by_contra hlt
        have hmem : t.state.roundBuffer.length ∈ missing t.state.roundBuffer chunkCount :=
          mem_missing.mpr ⟨Nat.lt_of_not_le hlt, by simp⟩
        rw [hmissing] at hmem
        cases hmem
      obtain ⟨server, t', hserver, ht'⟩ : ∃ server t',
          s.server.step host hw (id, .roundEnd t.state.currentRound chunkCount) = some server ∧
            server.transfers id.key = some t' :=
        ⟨_, _, UploadServer.step_roundEnd ht hcount, Function.update_self ..⟩
      exact ⟨_, t', congrArg (Option.map _) hserver, ht'⟩
    · exact absurd hbytes (Nat.lt_irrefl 0)
  | fileStart | fileChunk | fileEnd => exact absurd hbytes (Nat.lt_irrefl 0)

/-- **A packet keeps to the limit iff** it completes no round with more bytes than are left. -/
theorem limited_step_iff (htally : s.Tally) (hlimited : s.Limited) :
    (∀ s' ∈ step host hw s (id, p), s'.Limited) ↔ s.Within (id, p) := by
  constructor
  · intro h
    rw [within_iff]
    intro t ht
    by_contra hmore
    obtain ⟨s', t', hs', ht'⟩ := exists_step_of_bytes ht (show 0 < p.bytes t by omega)
    obtain ⟨hleft, -⟩ := h s' hs' id.key t' ht'
    rcases transfer_of_step hs' ht' with ⟨-, -, -, hwithin⟩ |
      ⟨t₀, ht₀, hresume, hwritten, htotal, -⟩
    · exact hmore (within_iff.mp hwithin t ht)
    · obtain rfl : t₀ = t := Option.some_injective _ (ht₀.symm.trans ht)
      obtain ⟨hsum, -⟩ := htally id.key t₀ ht₀
      have hbefore := (hlimited id.key t₀ ht₀).1
      rw [hresume, hwritten, htotal] at hleft
      omega
  · intro hwithin s' hs' key t' ht'
    by_cases hkey : key = id.key
    · subst hkey
      rcases transfer_of_step hs' ht' with ⟨hwritten, hreceived, hsize, -⟩ |
        ⟨t, ht, hresume, hwritten, htotal, hreceived⟩
      · refine ⟨by rw [hwritten]; exact Nat.zero_le _, ?_⟩
        intro hnew
        exact ⟨by rw [hreceived, hnew]; exact Nat.zero_le _, hsize⟩
      · have hbytes := within_iff.mp hwithin t ht
        obtain ⟨hleft, hnew⟩ := hlimited id.key t ht
        obtain ⟨hsum, hsize⟩ := htally id.key t ht
        rw [hresume, hwritten, htotal, hreceived]
        refine ⟨by omega, ?_⟩
        intro hzero
        have hle := (hnew hzero).1
        exact ⟨by omega, hsize⟩
    · obtain ⟨htransfers, hresume, hwritten⟩ := transfers_of_ne hs' hkey
      rw [htransfers] at ht'
      rw [hresume, hwritten]
      exact hlimited key t' ht'

/-- **When the limit holds.**  Whatever packets are sent, the uploads stay in their limits as long
as no round is completed that has more bytes than are left to be sent. -/
theorem limited_iff (host : Host) (hw : Bool) (files : Key → List UInt8)
    (packets : List (UploadId × UploadPacket)) :
    Meets (step host hw) (fun s a => ∀ s' ∈ step host hw s a, s'.Limited) (start files) packets ↔
      Meets (step host hw) Within (start files) packets := by
  refine meets_congr (fun s => s.Tally ∧ s.Limited) ⟨?_, ?_⟩ ?_ ?_
  · rintro key t ⟨⟩
  · rintro key t ⟨⟩
  · rintro s ⟨id, p⟩ ⟨htally, hlimited⟩
    exact limited_step_iff htally hlimited
  · rintro s ⟨id, p⟩ s' ⟨htally, hlimited⟩ hwithin hstep
    exact ⟨htally.step hstep, (limited_step_iff htally hlimited).mpr hwithin s' hstep⟩

/-! ## Chunks in their places -/

/-- The chunk lies in the file, at the place of its slot in the round. -/
def InPlace (s : MeteredServer) : UploadId × UploadPacket → Prop
  | (id, .fileChunk byteOffset _ data) => ∀ t ∈ s.server.transfers id.key,
      t.state.receivedOffset + maxChunkSize * chunkIndex byteOffset + data.length ≤ t.state.totalSize ∧
        data.length ≤ maxChunkSize
  | _ => True

end MeteredServer

/-- What is in the slots lies in the file, at the places of the slots. -/
def Incoming.InSlots (s : Incoming) : Prop :=
  ∀ i slot, s.roundBuffer[i]? = some slot →
    slot = [] ∨ slot.length ≤ maxChunkSize ∧ s.receivedOffset + maxChunkSize * i + slot.length ≤ s.totalSize

section InSlots

variable {s : Incoming}

theorem Incoming.inSlots_of_empty {n : ℕ} (h : s.roundBuffer = List.replicate n []) : s.InSlots := by
  intro i slot hslot
  rw [h] at hslot
  exact .inl (List.eq_of_mem_replicate (List.mem_of_getElem? hslot))

theorem Incoming.InSlots.handleFileChunk (h : s.InSlots) {hw : Bool} {byteOffset : ℕ} {crc : UInt32}
    {data : List UInt8}
    (hdata : s.receivedOffset + maxChunkSize * chunkIndex byteOffset + data.length ≤ s.totalSize ∧
      data.length ≤ maxChunkSize) : (s.handleFileChunk hw byteOffset crc data).InSlots := by
  by_cases hcrc : CRC32C.compute hw data 0 = crc
  · intro i slot hslot
    obtain ⟨htotal, hreceived, -⟩ := s.handleFileChunk_frame hw byteOffset crc data
    rw [htotal, hreceived]
    rw [getElem?_handleFileChunk hcrc] at hslot
    split at hslot
    · rename_i hi
      cases hslot
      rw [hi.1]
      exact .inr hdata.symm
    · exact h i slot hslot
  · rw [Incoming.handleFileChunk, if_pos hcrc]
    exact h

theorem Incoming.InSlots.handleRoundEnd (h : s.InSlots) (roundId chunkCount : ℕ) :
    (s.handleRoundEnd roundId chunkCount).1.InSlots := by
  rw [Incoming.handleRoundEnd]
  split
  · exact h
  · split
    · exact inSlots_of_empty rfl
    · exact h

end InSlots

namespace MeteredServer

variable {host : Host} {hw : Bool} {s s' : MeteredServer} {id : UploadId} {p : UploadPacket}

/-- The slots of all uploads are filled as they should be. -/
def Placed (s : MeteredServer) : Prop := ∀ key, ∀ t ∈ s.server.transfers key, t.state.InSlots

theorem Placed.step (h : s.Placed) (hplace : s.InPlace (id, p)) (hstep : step host hw s (id, p) = some s') :
    s'.Placed := by
  intro key t' ht'
  by_cases hkey : key = id.key
  · subst hkey
    obtain ⟨server, hserver, rfl⟩ := Option.map_eq_some_iff.mp hstep
    have ht : server.transfers id.key = some t' := by
      cases hopened : UploadPacket.opened host (id, p) <;> simpa [hopened] using ht'
    obtain ⟨content, hmakes, -⟩ := UploadServer.makes_of_step hserver ht
    generalize hbefore : s.server.transfers id.key = transfer at hmakes
    cases hmakes with
    | start hfile hsize => exact Incoming.inSlots_of_empty rfl
    | refuse hrefused => exact h id.key t' hbefore
    | chunk => exact (h id.key _ hbefore).handleFileChunk (hplace _ hbefore)
    | round hstate hcontent =>
      subst hstate
      refine Incoming.InSlots.handleRoundEnd ?_ _ _
      exact h id.key _ hbefore
  · rw [(transfers_of_ne hstep hkey).1] at ht'
    exact h key t' ht'

theorem Placed.within (h : s.Placed) (a : UploadId × UploadPacket) : s.Within a := by
  obtain ⟨id, p⟩ := a
  cases p with
  | roundEnd roundId chunkCount =>
    intro t ht _ _
    exact length_flatten_le (h id.key t ht)
  | fileStart | fileChunk | fileEnd => trivial

/-- **Chunks in their places keep to the limit**, however often and in whatever order they and the
ends of rounds are sent. -/
theorem within_of_inPlace {files : Key → List UInt8} {packets : List (UploadId × UploadPacket)}
    (h : Meets (step host hw) InPlace (start files) packets) :
    Meets (step host hw) Within (start files) packets := by
  refine h.imp Placed ?_ (fun s a hs _ => hs.within a) ?_
  · rintro key t ⟨⟩
  · rintro s ⟨id, p⟩ s' hs hplace hstep
    exact hs.step hplace hstep

/-- Whatever packets are sent for whatever uploads, no upload leaves its limits if every chunk lies
in its place. -/
theorem limited_of_reaches (host : Host) (hw : Bool) (files : Key → List UInt8) (s : MeteredServer)
    (h : Reaches (step host hw) InPlace (start files) s) : s.Limited := by
  let inv (s : MeteredServer) : Prop := (s.Tally ∧ s.Limited) ∧ s.Placed
  have hinv : inv s := by
    refine h.invariant ⟨⟨?_, ?_⟩, ?_⟩ ?_
    · rintro key t ⟨⟩
    · rintro key t ⟨⟩
    · rintro key t ⟨⟩
    · rintro s ⟨id, p⟩ s' - ⟨⟨htally, hlimited⟩, hplaced⟩ hplace hstep
      have hwithin := hplaced.within (id, p)
      exact ⟨⟨htally.step hstep, (limited_step_iff htally hlimited).mpr hwithin s' hstep⟩,
        hplaced.step hplace hstep⟩
  exact hinv.1.2

instance (s : MeteredServer) : ∀ a, Decidable (s.InPlace a)
  | (_, .fileChunk ..) => Option.decidableForallMem _
  | (_, .fileStart ..) => .isTrue trivial
  | (_, .roundEnd ..) => .isTrue trivial
  | (_, .fileEnd) => .isTrue trivial

/-- A file of one byte is sent, and its round is ended twice. -/
def endedTwice : List (UploadId × UploadPacket) :=
  [(sampleUploadId, .fileStart [] [] 1 (text "a.txt") []),
    (sampleUploadId, .fileChunk 0 (CRC32C.compute false [65] 0) [65]),
    (sampleUploadId, .roundEnd 0 1), (sampleUploadId, .roundEnd 0 1)]

theorem limited_of_reaches_endedTwice :
    ∃ s, Transition.run (step plainHost false) (start fun _ => []) endedTwice = some s ∧
      s.written sampleUploadId.key = 1 ∧ s.Limited := by
  obtain ⟨s, hrun, hwritten⟩ := exists_run (step plainHost false) (start fun _ => []) endedTwice
    (fun s => s.written sampleUploadId.key = 1) (by decide +kernel)
  have hmeets : Meets (step plainHost false) InPlace (start fun _ => []) endedTwice := by
    decide +kernel
  exact ⟨s, hrun, hwritten, limited_of_reaches _ _ _ s (reaches_of_run hmeets hrun)⟩

/-- A file of one byte is declared, and a chunk of two bytes is sent. -/
def longChunk : List (UploadId × UploadPacket) :=
  [(sampleUploadId, .fileStart [] [] 1 (text "a.txt") []),
    (sampleUploadId, .fileChunk 0 (CRC32C.compute false [65, 66] 0) [65, 66]),
    (sampleUploadId, .roundEnd 0 1)]

/-- Both bytes are written. -/
theorem not_limited_longChunk :
    ¬ Meets (step plainHost false) (fun s a => ∀ s' ∈ step plainHost false s a, s'.Limited)
      (start fun _ => []) longChunk := by
  intro h
  obtain ⟨s, hrun, hwritten, hresume, hsome⟩ := exists_run (step plainHost false) (start fun _ => [])
    longChunk (fun s => s.written sampleUploadId.key = 2 ∧ s.resumeOffset sampleUploadId.key = 0 ∧
      (s.server.transfers sampleUploadId.key).map (fun t => t.state.totalSize) = some 1)
    (by decide +kernel)
  have hlimited : s.Limited := h.last (by rintro key t ⟨⟩) hrun
  obtain ⟨t, ht, htotal⟩ := Option.map_eq_some_iff.mp hsome
  have hle := (hlimited _ t ht).1
  omega

end MeteredServer

end FileTransfer

end IocpChat

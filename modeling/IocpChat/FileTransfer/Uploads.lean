import IocpChat.DataStructure.UserInfo
import IocpChat.FileTransfer.Upload
import IocpChat.Lib.Isolation

/-!
# Uploads next to each other

The server finds the state of an upload by all of its id, but the file of an upload has its name
from the client and the first five bytes of the id.  Files are opened for appending, and an upload
resumes at the length that its file has.  So an upload goes as it would alone if no other one is
in its file (`isolated_of_separate`).

Two packets have an effect that is not defined.  A `ROUND_END` that counts more chunks than there
are slots reads past the end of `roundBuffer`.  A `FILE_END` for an upload that is not complete
goes to `cleanupTransfer`, which uses an iterator after it has erased what that points to; the
model leaves open whether it gets past that.

The packets are those whose lengths are right.  `CRC32C` is that of the machine.  A file that does
not exist is an empty one, since opening it makes it.

## Main definitions

* `Host` — what the server asks the operating system.
* `UploadPacket`, `UploadAnswer`, `UploadPacket.handle` — the four handlers.
* `UploadServer`, `UploadServer.step` — the uploads in progress and their files.
* `UploadServer.Isolated` — an upload goes as it would alone.
* `UploadServer.Proper`, `Separate` — packets with a defined effect, and uploads in different
  files.
-/

namespace IocpChat

open Bytes Transition Isolation

namespace FileTransfer

/-! ## Names -/

/-- `bytesToHex`. -/
def bytesToHex (bytes : List UInt8) : Key :=
  bytes.flatMap fun b : UInt8 => [hexDigit (b >>> 4), hexDigit (b &&& 0x0F)]

theorem bytesToHex_eq (bytes : List UInt8) : bytesToHex bytes = hexString bytes := by
  simp only [bytesToHex, hexString, shiftRight_four, and_fifteen]

theorem bytesToHex_injective : Function.Injective bytesToHex := by
  intro xs ys h
  rw [bytesToHex_eq, bytesToHex_eq] at h
  exact hexString_injective h

/-- The 16 bytes of an upload's id. -/
abbrev UploadId := List.Vector UInt8 16

/-- `uploadId`, by which the maps of the server are indexed. -/
def UploadId.key (id : UploadId) : Key := bytesToHex id.toList

theorem UploadId.key_injective : Function.Injective UploadId.key :=
  bytesToHex_injective.comp List.Vector.toList_injective

/-- What the server asks the operating system. -/
structure Host where
  /-- `std::filesystem::path::filename`. -/
  filename : Key → Key
  /-- A file can be opened at the path. -/
  opens : Key → Bool
  /-- The file that a path names.  Several paths may name one. -/
  file : Key → Key
  /-- `cleanupTransfer` gets past the iterator that it has erased. -/
  cleansUp : Bool

namespace Host

variable (host : Host)

/-- `sanitize`, at a time in decimal. -/
def sanitize (time name : Key) : Key :=
  let result := host.filename name
  if result = [] ∨ result = text "." ∨ result = text ".." then text "unnamed_" ++ time else result

/-- `tempPath`. -/
def tempPath (id : UploadId) (time name : Key) : Key :=
  text "./uploads/" ++ host.sanitize time name ++ text "_" ++ id.key.take 10 ++ text ".partial"

end Host

/-! ## The handlers -/

inductive UploadPacket
  /-- `FILE_START`, and the time at which it is handled. -/
  | fileStart (senderId receiverId : Key) (totalSize : ℕ) (name time : Key)
  | fileChunk (byteOffset : ℕ) (crc : UInt32) (data : List UInt8)
  | roundEnd (roundId chunkCount : ℕ)
  | fileEnd

/-- What is sent for an upload, and to whom. -/
inductive UploadAnswer
  | error (receiverId reason : Key)
  | fileStartResponse (senderId : Key) (resumeOffset : ℕ)
  | ack (senderId : Key) (roundId : ℕ) (missing : List ℕ)
  | fileStatus (senderId : Key) (success : Bool)
  deriving DecidableEq

/-- `TransferState` of an upload.  The stream appends to whatever is in the file by then. -/
structure Transfer where
  senderId : Key
  file : Key
  state : Incoming

namespace UploadPacket

variable (host : Host) (hw : Bool)

/-- The file that a packet opens. -/
def opened : UploadId × UploadPacket → Option Key
  | (id, fileStart _ _ totalSize name time) =>
    if totalSize ≤ maxFileSize ∧ host.opens (host.tempPath id time name) then
      some (host.file (host.tempPath id time name))
    else none
  | _ => none

/-- The file that a packet is about: the one it opens, or the one of its upload. -/
def target (id : UploadId) (transfer : Option Transfer) (p : UploadPacket) : Option Key :=
  match p with
  | fileStart .. => opened host (id, p)
  | _ => transfer.map Transfer.file

/-- What a packet does to the state of its upload and to the file that it is about, and what is
answered. -/
def handle (id : UploadId) (transfer : Option Transfer) (content : List UInt8) :
    UploadPacket → Option (Option Transfer × List UInt8 × List UploadAnswer)
  | fileStart senderId receiverId totalSize name time =>
    match handleFileStart totalSize content with
    | none => some (transfer, content, [.error receiverId (text " file is too big ")])
    | some state =>
      let path := host.tempPath id time name
      if host.opens path then
        some (some ⟨senderId, host.file path, state⟩, content,
          [.fileStartResponse senderId state.receivedOffset])
      else some (transfer, content, [])
  | fileChunk byteOffset crc data =>
    some (transfer.map fun t =>
      { t with state := t.state.handleFileChunk hw byteOffset crc data }, content, [])
  | roundEnd roundId chunkCount =>
    match transfer with
    | none => some (none, content, [])
    | some t =>
      if roundId = t.state.currentRound ∧ t.state.roundBuffer.length < chunkCount then none
      else
        let r := { t.state with fileStream := content }.handleRoundEnd roundId chunkCount
        some (some { t with state := r.1 }, r.1.fileStream, [.ack t.senderId r.2.1 r.2.2])
  | fileEnd =>
    match transfer with
    | none => some (none, content, [])
    | some t =>
      if t.state.receivedOffset = t.state.totalSize then
        some (none, content, [.fileStatus t.senderId true])
      else if host.cleansUp then some (none, content, [.fileStatus t.senderId false])
      else none

end UploadPacket

/-- The uploads in progress, the files, and what was answered. -/
structure UploadServer where
  transfers : Key → Option Transfer
  files : Key → List UInt8
  answers : List (UploadId × UploadAnswer)

namespace UploadServer

variable (host : Host) (hw : Bool)

/-- A server that finds some files. -/
def start (files : Key → List UInt8) : UploadServer := ⟨fun _ => none, files, []⟩

def step (s : UploadServer) : UploadId × UploadPacket → Option UploadServer
  | (id, p) =>
    let transfer := s.transfers id.key
    let target := p.target host id transfer
    (p.handle host hw id transfer (target.elim [] s.files)).map fun r =>
      { transfers := Function.update s.transfers id.key r.1
        files := target.elim s.files fun file => Function.update s.files file r.2.1
        answers := s.answers ++ r.2.2.map fun answer => (id, answer) }

/-- What was answered for an upload. -/
def answersFor (s : UploadServer) (id : UploadId) : List UploadAnswer :=
  (s.answers.filter (·.1 = id)).map Prod.snd

/-- The effect of the packet is defined: a `ROUND_END` counts no more chunks than there are slots,
and a `FILE_END` comes when the upload is complete, or `cleanupTransfer` gets to its end. -/
def Proper (s : UploadServer) : UploadId × UploadPacket → Prop
  | (id, .roundEnd roundId chunkCount) => ∀ t ∈ s.transfers id.key,
      roundId = t.state.currentRound → chunkCount ≤ t.state.roundBuffer.length
  | (id, .fileEnd) => ∀ t ∈ s.transfers id.key,
      t.state.receivedOffset = t.state.totalSize ∨ host.cleansUp
  | (_, .fileStart ..) | (_, .fileChunk ..) => True

instance (s : UploadServer) : ∀ a, Decidable (Proper host s a)
  | (_, .roundEnd ..) => Option.decidableForallMem _
  | (_, .fileEnd) => Option.decidableForallMem _
  | (_, .fileStart ..) => .isTrue trivial
  | (_, .fileChunk ..) => .isTrue trivial

end UploadServer

/-- The partial files of an upload. -/
def partialFiles (host : Host) (id : UploadId) (packets : List (UploadId × UploadPacket)) :
    List Key :=
  (own id packets).filterMap (UploadPacket.opened host)

/-- No file is that of two uploads. -/
def Separate (host : Host) (packets : List (UploadId × UploadPacket)) : Prop :=
  ∀ p ∈ packets, ∀ q ∈ packets, p.1 ≠ q.1 →
    ∀ file ∈ UploadPacket.opened host p, file ∉ UploadPacket.opened host q

instance (host : Host) (packets : List (UploadId × UploadPacket)) :
    Decidable (Separate host packets) :=
  have (p q : UploadId × UploadPacket) : Decidable (p.1 ≠ q.1 →
      ∀ file ∈ UploadPacket.opened host p, file ∉ UploadPacket.opened host q) :=
    @instDecidableForall _ _ _ (Option.decidableForallMem _)
  List.decidableBAll _ _

/-- **An upload goes as it would alone.**  Its packets are handled among all packets and by
themselves, the same is answered for it, and the same is in its files in the end. -/
def UploadServer.Isolated (host : Host) (hw : Bool) (s : UploadServer)
    (packets : List (UploadId × UploadPacket)) (id : UploadId) : Prop :=
  ∃ t t', Transition.run (step host hw) s packets = some t ∧
    Transition.run (step host hw) s (own id packets) = some t' ∧
    t.answersFor id = t'.answersFor id ∧
    ∀ file ∈ partialFiles host id packets, t.files file = t'.files file

/-! ## Isolation -/

section Isolation

variable {host : Host} {hw : Bool} {id i : UploadId} {p : UploadPacket}

/-- What a packet makes of an upload and of the file that it is about. -/
inductive UploadPacket.Makes (host : Host) (hw : Bool) (id : UploadId) (content : List UInt8) :
    Option Transfer → UploadPacket → Transfer → List UInt8 → Prop
  | start {transfer : Option Transfer} {senderId receiverId name time file : Key} {totalSize : ℕ}
      (hopened : opened host (id, .fileStart senderId receiverId totalSize name time) = some file)
      (hsize : totalSize ≤ maxFileSize) :
      Makes host hw id content transfer (.fileStart senderId receiverId totalSize name time)
        ⟨senderId, file, .start totalSize content⟩ content
  | refuse {t : Transfer} {senderId receiverId name time : Key} {totalSize : ℕ}
      (hopened : opened host (id, .fileStart senderId receiverId totalSize name time) = none) :
      Makes host hw id content (some t) (.fileStart senderId receiverId totalSize name time) t content
  | chunk {t : Transfer} {byteOffset : ℕ} {crc : UInt32} {data : List UInt8} :
      Makes host hw id content (some t) (.fileChunk byteOffset crc data)
        { t with state := t.state.handleFileChunk hw byteOffset crc data } content
  | round {t : Transfer} {roundId chunkCount : ℕ} {state : Incoming} {content' : List UInt8}
      (hstate : ({ t.state with fileStream := content }.handleRoundEnd roundId chunkCount).1 = state)
      (hcontent : state.fileStream = content') :
      Makes host hw id content (some t) (.roundEnd roundId chunkCount) { t with state } content'

/-- **What the handlers do** to an upload that there is afterwards. -/
theorem UploadPacket.makes_of_handle {transfer : Option Transfer} {content : List UInt8}
    {r : Option Transfer × List UInt8 × List UploadAnswer}
    (h : p.handle host hw id transfer content = some r) {t : Transfer} (ht : r.1 = some t) :
    p.Makes host hw id content transfer t r.2.1 := by
  cases p with
  | fileStart senderId receiverId totalSize name time =>
    simp only [handle, handleFileStart] at h
    by_cases hsize : maxFileSize < totalSize
    · rw [if_pos hsize] at h
      cases h
      subst ht
      exact .refuse (if_neg fun hopens => Nat.not_lt.mpr hopens.1 hsize)
    · rw [if_neg hsize] at h
      by_cases hopens : host.opens (host.tempPath id time name) = true
      · simp only [hopens, if_true] at h
        cases h
        cases ht
        exact .start (if_pos ⟨Nat.le_of_not_lt hsize, hopens⟩) (Nat.le_of_not_lt hsize)
      · simp only [if_neg hopens] at h
        cases h
        subst ht
        exact .refuse (if_neg fun hopened => hopens hopened.2)
  | fileChunk byteOffset crc data =>
    cases h
    obtain ⟨t₀, rfl, rfl⟩ := Option.map_eq_some_iff.mp ht
    exact .chunk
  | roundEnd roundId chunkCount =>
    cases transfer with
    | none =>
      cases h
      cases ht
    | some t₀ =>
      simp only [handle] at h
      split at h
      · cases h
      · cases h
        cases ht
        exact .round rfl rfl
  | fileEnd =>
    cases transfer with
    | none =>
      cases h
      cases ht
    | some t₀ =>
      simp only [handle] at h
      split at h
      · cases h
        cases ht
      · split at h
        · cases h
          cases ht
        · cases h

theorem UploadPacket.file_handle {transfer : Option Transfer} {content : List UInt8}
    {r : Option Transfer × List UInt8 × List UploadAnswer}
    (h : p.handle host hw id transfer content = some r) {t : Transfer} (ht : t ∈ r.1) :
    t.file ∈ opened host (id, p) ∨ t.file ∈ transfer.map Transfer.file := by
  cases makes_of_handle h ht with
  | start hopened hsize => exact Or.inl hopened
  | refuse | chunk | round => exact Or.inr rfl

namespace UploadServer

variable {s s' t : UploadServer} {files : List Key}

/-- The content that a packet finds in the file it is about. -/
def found (host : Host) (s : UploadServer) (id : UploadId) (p : UploadPacket) : List UInt8 :=
  (p.target host id (s.transfers id.key)).elim [] s.files

/-- **What a packet does** to its upload and the files, if there is an upload afterwards. -/
theorem makes_of_step {u : Transfer} (hstep : step host hw s (id, p) = some s')
    (hu : s'.transfers id.key = some u) :
    ∃ content, p.Makes host hw id (s.found host id p) (s.transfers id.key) u content ∧
      s'.files = (p.target host id (s.transfers id.key)).elim s.files
        fun file => Function.update s.files file content := by
  obtain ⟨r, hr, rfl⟩ := Option.map_eq_some_iff.mp hstep
  exact ⟨r.2.1, UploadPacket.makes_of_handle hr (by simpa using hu), rfl⟩

theorem isSome_step_iff (s : UploadServer) (a : UploadId × UploadPacket) :
    (step host hw s a).isSome ↔ Proper host s a := by
  obtain ⟨id, p⟩ := a
  rw [step, Option.isSome_map]
  cases p with
  | fileStart senderId receiverId totalSize name time =>
    simp only [UploadPacket.handle, Proper, iff_true]
    split
    · rfl
    · split <;> rfl
  | fileChunk byteOffset crc data => simp [UploadPacket.handle, Proper]
  | roundEnd roundId chunkCount =>
    cases htransfer : s.transfers id.key with
    | none => simp [UploadPacket.handle, Proper, htransfer]
    | some t =>
      simp only [UploadPacket.handle, Proper, htransfer, Option.mem_some_iff, forall_eq']
      split
      · rename_i hover
        simpa using hover
      · rename_i hfits
        simpa using hfits
  | fileEnd =>
    cases htransfer : s.transfers id.key with
    | none => simp [UploadPacket.handle, Proper, htransfer]
    | some t =>
      simp only [UploadPacket.handle, Proper, htransfer, Option.mem_some_iff, forall_eq']
      split
      · rename_i hall
        simp [hall]
      · rename_i hpart
        cases hclean : host.cleansUp <;> simp [hpart]

/-- The files that an upload has to itself: those of it, and of no other. -/
def Owned (id : UploadId) (files : List Key) (s : UploadServer) : Prop :=
  ∀ i, ∀ t ∈ s.transfers i.key, (t.file ∈ files ↔ i = id)

/-- A packet opens one of the files iff it is of the upload. -/
def Opens (host : Host) (id : UploadId) (files : List Key) (a : UploadId × UploadPacket) : Prop :=
  ∀ file ∈ UploadPacket.opened host a, (file ∈ files ↔ a.1 = id)

/-- The server in a run, and when it handles only the packets of an upload. -/
structure Alike (id : UploadId) (files : List Key) (s s' : UploadServer) : Prop where
  owned : Owned id files s
  transfer : s.transfers id.key = s'.transfers id.key
  content : ∀ file ∈ files, s.files file = s'.files file
  answers : s.answersFor id = s'.answersFor id

theorem Owned.target (h : Owned id files s) (hopens : Opens host id files (i, p)) {file : Key}
    (hfile : file ∈ p.target host i (s.transfers i.key)) : file ∈ files ↔ i = id := by
  have hheld : file ∈ (s.transfers i.key).map Transfer.file → (file ∈ files ↔ i = id) := by
    intro hmem
    obtain ⟨t, ht, rfl⟩ := Option.map_eq_some_iff.mp hmem
    exact h i t ht
  cases p with
  | fileStart senderId receiverId totalSize name time => exact hopens file hfile
  | fileChunk | roundEnd | fileEnd => exact hheld hfile

theorem Owned.step (h : Owned id files s) (hopens : Opens host id files (i, p))
    (hstep : step host hw s (i, p) = some t) : Owned id files t := by
  obtain ⟨r, hr, rfl⟩ := Option.map_eq_some_iff.mp hstep
  intro j u hu
  by_cases hj : j = i
  · subst hj
    have hu' : u ∈ r.1 := by simpa using hu
    rcases UploadPacket.file_handle hr hu' with hfile | hfile
    · exact hopens _ hfile
    · obtain ⟨u₀, hu₀, heq⟩ := Option.map_eq_some_iff.mp hfile
      rw [← heq]
      exact h j u₀ hu₀
  · have hkey : j.key ≠ i.key := fun hkey => hj (UploadId.key_injective hkey)
    refine h j u ?_
    simpa [Function.update_of_ne hkey] using hu

theorem answersFor_append (transfers : Key → Option Transfer) (content : Key → List UInt8)
    (log : List (UploadId × UploadAnswer)) (answers : List UploadAnswer) :
    answersFor ⟨transfers, content, log ++ answers.map fun answer => (i, answer)⟩ id =
      (log.filter (·.1 = id)).map Prod.snd ++ if i = id then answers else [] := by
  by_cases hi : i = id <;> simp [answersFor, List.filter_map, hi, Function.comp_def]

/-- **A packet of the upload** is handled alike. -/
theorem Alike.own (h : Alike id files s s') (hopens : Opens host id files (id, p))
    (hstep : step host hw s (id, p) = some t) :
    ∃ t', step host hw s' (id, p) = some t' ∧ Alike id files t t' := by
  have howned := h.owned.step hopens hstep
  have htarget : ∀ file ∈ p.target host id (s.transfers id.key), file ∈ files :=
    fun file hfile => (h.owned.target hopens hfile).mpr rfl
  obtain ⟨r, hr, rfl⟩ := Option.map_eq_some_iff.mp hstep
  have hcontent : (p.target host id (s.transfers id.key)).elim [] s.files =
      (p.target host id (s.transfers id.key)).elim [] s'.files := by
    cases hfile : p.target host id (s.transfers id.key) with
    | none => rfl
    | some file => exact h.content file (htarget file hfile)
  rw [hcontent, h.transfer] at hr
  refine ⟨_, Option.map_eq_some_iff.mpr ⟨r, hr, rfl⟩, howned, ?_, ?_, ?_⟩
  · simp
  · intro file hfile
    rw [← h.transfer]
    cases p.target host id (s.transfers id.key) with
    | none => exact h.content file hfile
    | some file' =>
      simp only [Option.elim_some, Function.update_apply, h.content file hfile]
  · rw [answersFor_append, answersFor_append]
    exact congrArg (· ++ _) h.answers

/-- **A packet of another upload** changes nothing. -/
theorem Alike.other (h : Alike id files s s') (hi : i ≠ id) (hopens : Opens host id files (i, p))
    (hstep : step host hw s (i, p) = some t) : Alike id files t s' := by
  have howned := h.owned.step hopens hstep
  have htarget : ∀ file ∈ p.target host i (s.transfers i.key), file ∉ files :=
    fun file hfile hmem => hi ((h.owned.target hopens hfile).mp hmem)
  obtain ⟨r, hr, rfl⟩ := Option.map_eq_some_iff.mp hstep
  have hkey : id.key ≠ i.key := fun hkey => hi (UploadId.key_injective hkey).symm
  refine ⟨howned, ?_, ?_, ?_⟩
  · simpa [Function.update_of_ne hkey] using h.transfer
  · intro file hfile
    cases hother : p.target host i (s.transfers i.key) with
    | none => exact h.content file hfile
    | some file' =>
      have hne : file ≠ file' := fun heq => htarget file' hother (heq ▸ hfile)
      refine (Function.update_of_ne hne ..).trans (h.content file hfile)
  · rw [answersFor_append, if_neg hi, List.append_nil]
    exact h.answers

end UploadServer

theorem Separate.opens {packets : List (UploadId × UploadPacket)} (h : Separate host packets)
    (id : UploadId) {a : UploadId × UploadPacket} (ha : a ∈ packets) :
    UploadServer.Opens host id (partialFiles host id packets) a := by
  intro file hfile
  constructor
  · intro hmem
    obtain ⟨q, hq, hfile'⟩ := List.mem_filterMap.mp hmem
    obtain ⟨hq, hid⟩ := List.mem_filter.mp hq
    by_contra hne
    exact h a ha q hq (by simp_all) file hfile hfile'
  · intro hid
    exact List.mem_filterMap.mpr ⟨a, List.mem_filter.mpr ⟨ha, by simpa using hid⟩, hfile⟩

end Isolation

/-- **Uploads in different files are isolated.** -/
theorem isolated_of_separate (host : Host) (hw : Bool) (files : Key → List UInt8)
    (packets : List (UploadId × UploadPacket)) (hseparate : Separate host packets)
    (hproper : Meets (UploadServer.step host hw) (UploadServer.Proper host)
      (UploadServer.start files) packets) (id : UploadId) :
    (UploadServer.start files).Isolated host hw packets id := by
  have hdefined := (isSome_run_iff_meets fun a _ s => UploadServer.isSome_step_iff s a).mpr hproper
  obtain ⟨t, ht⟩ := Option.isSome_iff_exists.mp hdefined
  have hopens : Meets (UploadServer.step host hw)
      (fun s a => UploadServer.Opens host id (partialFiles host id packets) a ∧
        UploadServer.Proper host s a) (UploadServer.start files) packets :=
    hproper.and fun a ha _ => hseparate.opens id ha
  have hstart : UploadServer.Alike id (partialFiles host id packets)
      (UploadServer.start files) (UploadServer.start files) := by
    refine ⟨?_, rfl, fun _ _ => rfl, rfl⟩
    intro i t ht
    cases ht
  obtain ⟨t', ht', halike⟩ := run_own (UploadServer.Alike id (partialFiles host id packets)) id
    (fun s s' p t h hok hstep => h.own hok.1 hstep)
    (fun s s' i p t hi h hok hstep => h.other hi hok.1 hstep) hopens ht hstart
  exact ⟨t, t', ht, ht', halike.answers, halike.content⟩

/-- A host where a path is a file name and names a file of its own, which can be opened. -/
def plainHost : Host := ⟨id, fun _ => true, id, false⟩

/-- An id that is zero up to its last byte. -/
def sampleId (last : UInt8) : UploadId := ⟨List.replicate 15 0 ++ [last], rfl⟩

/-- The packets of two uploads in turn: a byte to a file `a.txt`, and another byte. -/
def twoUploads (name : String) : List (UploadId × UploadPacket) :=
  let upload := fun (id : UploadId) (name : String) (b : UInt8) =>
    [UploadPacket.fileStart (text "alice") (text "bob") 1 (text name) (text "0"),
      .fileChunk 0 (CRC32C.compute false [b] 0) [b], .roundEnd 0 1, .fileEnd].map fun p => (id, p)
  (List.zipWith (fun p q => [p, q]) (upload (sampleId 1) "a.txt" 7)
    (upload (sampleId 2) name 8)).flatten

theorem isolated_of_separate_two : Separate plainHost (twoUploads "b.txt") ∧
    (UploadServer.start fun _ => []).Isolated plainHost false (twoUploads "b.txt") (sampleId 1) :=
  ⟨by decide +kernel, isolated_of_separate plainHost false (fun _ => []) (twoUploads "b.txt")
    (by decide +kernel) (by decide +kernel) (sampleId 1)⟩

/-- Two uploads with the same name, from ids that agree in their first five bytes, are in one
file. -/
theorem not_isolated_same_name : ¬ (UploadServer.start fun _ => []).Isolated plainHost false
    (twoUploads "a.txt") (sampleId 1) := by
  rintro ⟨t, t', ht, ht', -, hfiles⟩
  have hpath : text "./uploads/a.txt_0000000000.partial" ∈
      partialFiles plainHost (sampleId 1) (twoUploads "a.txt") := by decide +kernel
  have hmixed : (Transition.run (UploadServer.step plainHost false) (UploadServer.start fun _ => [])
      (twoUploads "a.txt")).map (·.files (text "./uploads/a.txt_0000000000.partial")) =
        some [7, 8] := by decide +kernel
  have halone : (Transition.run (UploadServer.step plainHost false) (UploadServer.start fun _ => [])
      (own (sampleId 1) (twoUploads "a.txt"))).map
        (·.files (text "./uploads/a.txt_0000000000.partial")) = some [7] := by decide +kernel
  rw [ht, Option.map_some, Option.some_inj] at hmixed
  rw [ht', Option.map_some, Option.some_inj] at halone
  have hcontent := hfiles _ hpath
  rw [hmixed, halone] at hcontent
  exact absurd hcontent (by decide)

end FileTransfer

end IocpChat

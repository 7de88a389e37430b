import IocpChat.Protocol.Serialize

/-!
# Decoding undoes encoding, for the whole wire format

`Message` has one constructor per serializer, carrying its arguments, and
`Message.serialize` calls the serializer.  `Layout.read` is the other side: what
the handlers do with a parsed packet, namely read the packed struct through
`getPayload` and slice the variable-length parts behind it by the lengths in the
struct.

Two arguments do not come back literally.  A null `number` is written as zero and
read as four zero bytes (`Message.received`), and a file chunk comes back only if
its checksum field matches its bytes, which is the test the handlers make.

## Main definitions

* `Message`, `Message.serialize` — a call of a serializer.
* `Message.decode_serialize` — the round trip.
-/

namespace IocpChat

open Bytes

/-- A call of one of the serializers of `Packet`, with its arguments. -/
inductive Message
  | chat (type : PacketType) (sender receiver : Uuid) (nowMs : UInt64)
      (number : Option (List.Vector UInt8 4)) (username payloadData : List UInt8)
  | fileStart (recid uploadId : Uuid) (fileName : List UInt8) (totalSize : UInt64)
      (finalCrc : UInt32)
  | fileStartResponse (uploadId : Uuid) (resumeOffset : UInt64)
  | fileChunk (uploadId : Uuid) (byteOffset : UInt64) (chunkData : List UInt8)
  | roundEnd (uploadId : Uuid) (roundId chunkCount : UInt32)
  | fileAck (uploadId : Uuid) (roundId : UInt32) (missingChunks : List UInt32)
  | fileEnd (uploadId : Uuid) (finalCrc : UInt32)
  | link (senderId uploadId : Uuid) (filename : List UInt8) (totalsize : UInt32)
      (timestamp : List UInt8)
  | downloadReq (userId upId : Uuid) (bytes : UInt32)
  | login (identifier password : List UInt8)
  | otpRequest (email : List UInt8)
  | otpVerification (email otp : List UInt8)
  | signup (email number username password : List UInt8)
  | userId (userId serverTempId : Uuid)
  | token (type : PacketType) (accessToken refreshToken : List UInt8)
  | string (type : PacketType) (str : List UInt8)
  | raw (type : PacketType) (rawPayload : List UInt8)
  deriving DecidableEq

namespace Message

/-- Call the serializer on a packet. -/
def serialize (hw : Bool) (p : Packet) : Message → Bool × Packet
  | chat t s r now n u d => p.serialize hw t s r now n u d
  | fileStart r u n t c => p.serializeFileStart hw r u n t c
  | fileStartResponse u o => p.serializeFileStartResponse hw u o
  | fileChunk u o d => p.serializeFileChunk hw u o d
  | roundEnd u r c => p.serializeRoundEnd hw u r c
  | fileAck u r m => p.serializeFileAck hw u r m
  | fileEnd u c => p.serializeFileEnd hw u c
  | link s u f t ts => p.serializeLink hw s u f t ts
  | downloadReq u i b => p.serializeDownloadReq hw u i b
  | login i w => p.serializeLogin hw i w
  | otpRequest e => p.serializeOtpRequest hw e
  | otpVerification e o => p.serializeOtpVerification hw e o
  | signup e n u w => p.serializeSignup hw e n u w
  | userId u t => p.serializeUserId hw u t
  | token t a r => p.serializeToken hw t a r
  | string t s => p.serializeString hw t s
  | raw t d => p.serializeRaw hw t d

/-- The type the packet is given. -/
def type : Message → PacketType
  | chat t .. => t
  | fileStart .. => .pktFileStart
  | fileStartResponse .. => .fileStartResponse
  | fileChunk .. => .pktFileChunk
  | roundEnd .. => .pktRoundEnd
  | fileAck .. => .pktFileAck
  | fileEnd .. => .pktFileEnd
  | link .. => .downloadLink
  | downloadReq .. => .downloadRequest
  | login .. => .pktLogin
  | otpRequest .. => .pktOtpReq
  | otpVerification .. => .pktOtpVerify
  | signup .. => .pktSignUp
  | userId .. => .pktUserId
  | token t .. => t
  | string t .. => t
  | raw t .. => t

/-- `sizeof` of the payload struct. -/
def structSize : Message → ℕ
  | chat .. => ChatMessagePayload.codec.width
  | fileStart .. => FileStartPayload.codec.width
  | fileStartResponse .. => FileStartResponsePayload.codec.width
  | fileChunk .. => FileChunkPayload.codec.width
  | roundEnd .. => RoundEndPayload.codec.width
  | fileAck .. => FileAckPayload.codec.width
  | fileEnd .. => FileEndPayload.codec.width
  | link .. => DownloadLinkPayload.codec.width
  | downloadReq .. => DownloadReqPayload.codec.width
  | login .. => LoginPayload.codec.width
  | otpRequest .. => OtpReqPayload.codec.width
  | otpVerification .. => OtpVerifyPayload.codec.width
  | signup .. => SignupPayload.codec.width
  | userId .. => UserIdPayload.codec.width
  | token .. => TokenGrantedPayload.codec.width
  | string .. => StringPayload.codec.width
  | raw .. => 0

/-- The total length of the variable-length fields. -/
def variableSize : Message → ℕ
  | chat _ _ _ _ _ u d => u.length + d.length
  | fileStart _ _ n _ _ => n.length
  | fileChunk _ _ d => d.length
  | fileAck _ _ m => 4 * m.length
  | link _ _ f _ ts => f.length + ts.length
  | login i w => i.length + w.length
  | otpRequest e => e.length
  | otpVerification e o => e.length + o.length
  | signup e n u w => e.length + n.length + u.length + w.length
  | token _ a r => a.length + r.length
  | string _ s => s.length
  | raw _ d => d.length
  | fileStartResponse .. | roundEnd .. | fileEnd .. | downloadReq .. | userId .. => 0

/-- The arguments as they come back: a null `number` as zeros. -/
def received : Message → Message
  | chat t s r now none u d => chat t s r now (some (List.Vector.replicate 4 0)) u d
  | m => m

end Message

/-! ## The decoders -/

/-- Which struct a packet's payload is read as. -/
inductive Layout
  | chat | fileStart | fileStartResponse | fileChunk | roundEnd | fileAck | fileEnd | link
  | downloadReq | login | otpRequest | otpVerification | signup | userId | token | string | raw
  deriving DecidableEq

/-- The layout a serializer writes. -/
def Message.layout : Message → Layout
  | chat .. => .chat
  | fileStart .. => .fileStart
  | fileStartResponse .. => .fileStartResponse
  | fileChunk .. => .fileChunk
  | roundEnd .. => .roundEnd
  | fileAck .. => .fileAck
  | fileEnd .. => .fileEnd
  | link .. => .link
  | downloadReq .. => .downloadReq
  | login .. => .login
  | otpRequest .. => .otpRequest
  | otpVerification .. => .otpVerification
  | signup .. => .signup
  | userId .. => .userId
  | token .. => .token
  | string .. => .string
  | raw .. => .raw

/-- `data + HEADER_SIZE`, what `getPayload` points to. -/
def Packet.getPayload (p : Packet) : List UInt8 := p.data.toList.drop headerSize

/-- The four bytes a host word occupies on a little-endian host. -/
def hostBytes (w : UInt32) : List.Vector UInt8 4 := ⟨(u32.encode w).reverse, by simp⟩

/-- `n` network-order words, one after another. -/
def readWords : ℕ → List UInt8 → List UInt32
  | 0, _ => []
  | n + 1, bs => u32.decode bs :: readWords n (bs.drop 4)

/-- Read a parsed packet as the handlers of its type do.  A type code outside the
enumeration reads as nothing. -/
def Layout.read (hw : Bool) (p : Packet) : Layout → Option Message
  | chat => do
      let t ← PacketType.ofCode p.header.type
      let s := ChatMessagePayload.codec.decode p.getPayload
      some (.chat t s.senderId s.receiverId s.timestamp (some (hostBytes s.messageNumber))
        (slice p.getPayload 48 s.usernameLen.toNat)
        (slice p.getPayload (48 + s.usernameLen.toNat) s.textLen.toNat))
  | fileStart =>
    let s := FileStartPayload.codec.decode p.getPayload
    some (.fileStart s.receiverId s.uploadId (slice p.getPayload 46 s.filenameLen.toNat)
      s.totalSize s.finalCrc)
  | fileStartResponse =>
    let s := FileStartResponsePayload.codec.decode p.getPayload
    some (.fileStartResponse s.uploadId s.resumeOffset)
  | fileChunk =>
    let s := FileChunkPayload.codec.decode p.getPayload
    let chunkData := slice p.getPayload 32 s.chunkSize.toNat
    if CRC32C.compute hw chunkData 0 ≠ s.chunkCrc then none
    else some (.fileChunk s.uploadId s.byteOffset chunkData)
  | roundEnd =>
    let s := RoundEndPayload.codec.decode p.getPayload
    some (.roundEnd s.uploadId s.roundId s.chunkCount)
  | fileAck =>
    let s := FileAckPayload.codec.decode p.getPayload
    some (.fileAck s.uploadId s.roundId
      (readWords s.missingCount.toNat (p.getPayload.drop 24)))
  | fileEnd =>
    let s := FileEndPayload.codec.decode p.getPayload
    some (.fileEnd s.uploadId s.finalCrc)
  | link =>
    let s := DownloadLinkPayload.codec.decode p.getPayload
    some (.link s.senderId s.uploadId (slice p.getPayload 40 s.filenameLen.toNat) s.totalSize
      (slice p.getPayload (40 + s.filenameLen.toNat) s.timestampLen.toNat))
  | downloadReq =>
    let s := DownloadReqPayload.codec.decode p.getPayload
    some (.downloadReq s.userId s.uploadId s.bytesRequested)
  | login =>
    let s := LoginPayload.codec.decode p.getPayload
    some (.login (slice p.getPayload 4 s.identifierLen.toNat)
      (slice p.getPayload (4 + s.identifierLen.toNat) s.passwordLen.toNat))
  | otpRequest =>
    let s := OtpReqPayload.codec.decode p.getPayload
    some (.otpRequest (slice p.getPayload 2 s.emailLen.toNat))
  | otpVerification =>
    let s := OtpVerifyPayload.codec.decode p.getPayload
    some (.otpVerification (slice p.getPayload 4 s.emailLen.toNat)
      (slice p.getPayload (4 + s.emailLen.toNat) s.otpLen.toNat))
  | signup =>
    let s := SignupPayload.codec.decode p.getPayload
    let e := s.emailLen.toNat
    let n := s.numberLen.toNat
    let u := s.usernameLen.toNat
    some (.signup (slice p.getPayload 8 e) (slice p.getPayload (8 + e) n)
      (slice p.getPayload (8 + e + n) u) (slice p.getPayload (8 + e + n + u) s.passwordLen.toNat))
  | userId =>
    let s := UserIdPayload.codec.decode p.getPayload
    some (.userId s.userId s.serverTempId)
  | token => do
      let t ← PacketType.ofCode p.header.type
      let s := TokenGrantedPayload.codec.decode p.getPayload
      some (.token t (slice p.getPayload 4 s.accessTokenLen.toNat)
        (slice p.getPayload (4 + s.accessTokenLen.toNat) s.refreshTokenLen.toNat))
  | string => do
      let t ← PacketType.ofCode p.header.type
      let s := StringPayload.codec.decode p.getPayload
      some (.string t (slice p.getPayload 2 s.strLen.toNat))
  | raw => do
      let t ← PacketType.ofCode p.header.type
      some (.raw t (slice p.getPayload 0 p.header.payloadLength.toNat))

/-! ## The bytes a message becomes -/

namespace Message

/-- The packed struct, as the serializer fills it. -/
def fixed (hw : Bool) : Message → List UInt8
  | chat _ s r now n u d => ChatMessagePayload.codec.encode
      ⟨s, r, now, (n.map Packet.hostWord).getD 0, Packet.len16 u, Packet.len16 d⟩
  | fileStart r u n t c => FileStartPayload.codec.encode ⟨r, u, t, c, Packet.len16 n⟩
  | fileStartResponse u o => FileStartResponsePayload.codec.encode ⟨u, o⟩
  | fileChunk u o d => FileChunkPayload.codec.encode
      ⟨u, o, UInt32.ofNat d.length, CRC32C.compute hw d 0⟩
  | roundEnd u r c => RoundEndPayload.codec.encode ⟨u, r, c⟩
  | fileAck u r m => FileAckPayload.codec.encode ⟨u, r, UInt32.ofNat m.length⟩
  | fileEnd u c => FileEndPayload.codec.encode ⟨u, c⟩
  | link s u f t ts => DownloadLinkPayload.codec.encode
      ⟨s, u, t, Packet.len16 f, Packet.len16 ts⟩
  | downloadReq u i b => DownloadReqPayload.codec.encode ⟨u, i, b⟩
  | login i w => LoginPayload.codec.encode ⟨Packet.len16 i, Packet.len16 w⟩
  | otpRequest e => OtpReqPayload.codec.encode ⟨Packet.len16 e⟩
  | otpVerification e o => OtpVerifyPayload.codec.encode ⟨Packet.len16 e, Packet.len16 o⟩
  | signup e n u w => SignupPayload.codec.encode
      ⟨Packet.len16 e, Packet.len16 n, Packet.len16 u, Packet.len16 w⟩
  | userId u t => UserIdPayload.codec.encode ⟨t, u⟩
  | token _ a r => TokenGrantedPayload.codec.encode ⟨Packet.len16 a, Packet.len16 r⟩
  | string _ s => StringPayload.codec.encode ⟨Packet.len16 s⟩
  | raw .. => []

/-- The variable-length parts, in the order they are appended. -/
def parts : Message → List (List UInt8)
  | chat _ _ _ _ _ u d => [u, d]
  | fileStart _ _ n _ _ => [n]
  | fileChunk _ _ d => [d]
  | fileAck _ _ m => m.map u32.encode
  | link _ _ f _ ts => [f, ts]
  | login i w => [i, w]
  | otpRequest e => [e]
  | otpVerification e o => [e, o]
  | signup e n u w => [e, n, u, w]
  | token _ a r => [a, r]
  | string _ s => [s]
  | raw _ d => [d]
  | fileStartResponse .. | roundEnd .. | fileEnd .. | downloadReq .. | userId .. => []

theorem serialize_eq (hw : Bool) (p : Packet) (m : Message) :
    m.serialize hw p = p.serializeParts hw m.type (m.fixed hw) m.parts := by
  cases m <;> rfl

@[simp] theorem length_fixed (hw : Bool) (m : Message) : (m.fixed hw).length = m.structSize := by
  cases m <;> simp [fixed, structSize]

@[simp] theorem length_flatten_parts (m : Message) : m.parts.flatten.length = m.variableSize := by
  cases m with
  | fileAck u r ms =>
    induction ms with
    | nil => rfl
    | cons w ms ih =>
      simp [parts, variableSize, Codec.length_encode] at ih ⊢
      omega
  | _ => simp [parts, variableSize, Nat.add_assoc]

end Message

/-! ## Reading the bytes back -/

theorem toNat_len16 {s : List UInt8} (h : s.length < 65536) : (Packet.len16 s).toNat = s.length := by
  rw [Packet.len16, UInt16.toNat_ofNat']
  omega

theorem toNat_ofNat_length {α : Type*} {l : List α} (h : l.length < 65536) :
    (UInt32.ofNat l.length).toNat = l.length := by
  rw [UInt32.toNat_ofNat']
  omega

theorem hostBytes_hostWord (b : List.Vector UInt8 4) : hostBytes (Packet.hostWord b) = b := by
  apply List.Vector.eq
  change (beEncode 4 (Packet.hostWord b).toNat).reverse = b.toList
  have hlen : b.toList.reverse.length = 4 := by simp
  have hlt : beDecode b.toList.reverse < 2 ^ 32 := by
    have h := beDecode_lt b.toList.reverse
    rw [hlen] at h
    omega
  have henc := beEncode_beDecode b.toList.reverse
  rw [hlen] at henc
  rw [Packet.hostWord, UInt32.toNat_ofNat', Nat.mod_eq_of_lt hlt, henc, List.reverse_reverse]

theorem hostBytes_zero : hostBytes 0 = List.Vector.replicate 4 0 := by decide

theorem readWords_flatten (ms : List UInt32) (rest : List UInt8) :
    readWords ms.length ((ms.map u32.encode).flatten ++ rest) = ms := by
  induction ms with
  | nil => rfl
  | cons w ms ih =>
    have hdrop : (u32.encode w ++ ((ms.map u32.encode).flatten ++ rest)).drop 4 =
        (ms.map u32.encode).flatten ++ rest := by
      rw [List.drop_append_of_le_length (by simp), List.drop_of_length_le (by simp),
        List.nil_append]
    simp [readWords, Codec.decode_encode, hdrop, ih]

/-- Peel the first of the variable-length parts off: its length slices it out, and
the rest stands behind it. -/
theorem peel_part {xs pre a rest : List UInt8} {as : List (List UInt8)}
    (h : xs = pre ++ ((a :: as).flatten ++ rest)) :
    slice xs pre.length a.length = a ∧ xs = (pre ++ a) ++ (as.flatten ++ rest) := by
  rw [List.flatten_cons, List.append_assoc, ← List.append_assoc] at h
  exact ⟨slice_eq_middle h rfl rfl, h⟩

section Payload

variable {α : Type} {c : Codec α} {v : α} {a b rest xs : List UInt8} {n : ℕ}

theorem struct_of_payload (h : xs = c.encode v ++ rest) : c.decode xs = v := by
  rw [h, Codec.decode_encode]

theorem one_part (h : xs = c.encode v ++ ([a].flatten ++ rest)) (hn : c.width = n) :
    c.decode xs = v ∧ slice xs n a.length = a := by
  have ha := (peel_part h).1
  rw [Codec.length_encode, hn] at ha
  exact ⟨struct_of_payload h, ha⟩

theorem two_parts (h : xs = c.encode v ++ ([a, b].flatten ++ rest)) (hn : c.width = n) :
    c.decode xs = v ∧ slice xs n a.length = a ∧ slice xs (n + a.length) b.length = b := by
  obtain ⟨ha, hrest⟩ := peel_part h
  have hb := (peel_part hrest).1
  rw [Codec.length_encode, hn] at ha
  rw [List.length_append, Codec.length_encode, hn] at hb
  exact ⟨struct_of_payload h, ha, hb⟩

end Payload

namespace Message

theorem length_le_of_mem_parts {m : Message} {s : List UInt8} (h : s ∈ m.parts) :
    s.length ≤ m.variableSize := by
  rw [← length_flatten_parts]
  exact (List.sublist_flatten_of_mem h).length_le

/-- **The decoder of its layout reads a message back** from any packet whose
payload begins with the message's bytes. -/
theorem read_of_payload {hw : Bool} {p : Packet} {m : Message} {rest : List UInt8}
    (hpay : p.getPayload = m.fixed hw ++ (m.parts.flatten ++ rest))
    (htype : p.header.type = m.type.code)
    (hlen : p.header.payloadLength.toNat = m.structSize + m.variableSize)
    (hfits : m.structSize + m.variableSize < 65536) :
    m.layout.read hw p = some m.received := by
  have hof : PacketType.ofCode p.header.type = some m.type := by
    rw [htype, PacketType.ofCode_code]
  -- no length wraps around in its 16-bit field
  have hshort : ∀ s ∈ m.parts, (Packet.len16 s).toNat = s.length := by
    intro s hs
    have hle := length_le_of_mem_parts hs
    exact toNat_len16 (by omega)
  cases m with
  | chat t s r now n u d =>
    obtain ⟨hstruct, hu, hd⟩ := two_parts hpay ChatMessagePayload.width_codec
    simp only [parts, List.forall_mem_cons] at hshort
    have hnum : hostBytes ((n.map Packet.hostWord).getD 0) =
        n.getD (List.Vector.replicate 4 0) := by
      cases n with
      | none => exact hostBytes_zero
      | some b => exact hostBytes_hostWord b
    simp only [layout, Layout.read, hof, hstruct, hnum, hshort, hu, hd]
    cases n <;> rfl
  | fileStart r u n t c =>
    obtain ⟨hstruct, hn⟩ := one_part hpay FileStartPayload.width_codec
    simp only [parts, List.forall_mem_cons] at hshort
    simp only [layout, Layout.read, hstruct, hshort, hn, received]
  | fileChunk u o d =>
    obtain ⟨hstruct, hd⟩ := one_part hpay FileChunkPayload.width_codec
    have hsize : (UInt32.ofNat d.length).toNat = d.length :=
      toNat_ofNat_length (lt_of_le_of_lt (Nat.le_add_left _ _) hfits)
    simp [layout, Layout.read, hstruct, hsize, hd, received]
  | fileAck u r ms =>
    have hcount : (UInt32.ofNat ms.length).toNat = ms.length := by
      simp only [variableSize] at hfits
      exact toNat_ofNat_length (by omega)
    have hdrop : p.getPayload.drop 24 = (ms.map u32.encode).flatten ++ rest := by
      rw [hpay]
      exact List.drop_left' (length_fixed hw (fileAck u r ms))
    simp only [layout, Layout.read, struct_of_payload hpay, hcount, hdrop, readWords_flatten,
      received]
  | link s u f t ts =>
    obtain ⟨hstruct, hf, hts⟩ := two_parts hpay DownloadLinkPayload.width_codec
    simp only [parts, List.forall_mem_cons] at hshort
    simp only [layout, Layout.read, hstruct, hshort, hf, hts, received]
  | login i w =>
    obtain ⟨hstruct, hi, hw⟩ := two_parts hpay LoginPayload.width_codec
    simp only [parts, List.forall_mem_cons] at hshort
    simp only [layout, Layout.read, hstruct, hshort, hi, hw, received]
  | otpRequest e =>
    obtain ⟨hstruct, he⟩ := one_part hpay OtpReqPayload.width_codec
    simp only [parts, List.forall_mem_cons] at hshort
    simp only [layout, Layout.read, hstruct, hshort, he, received]
  | otpVerification e o =>
    obtain ⟨hstruct, he, ho⟩ := two_parts hpay OtpVerifyPayload.width_codec
    simp only [parts, List.forall_mem_cons] at hshort
    simp only [layout, Layout.read, hstruct, hshort, he, ho, received]
  | signup e n u w =>
    obtain ⟨he, hpay₂⟩ := peel_part hpay
    obtain ⟨hn, hpay₃⟩ := peel_part hpay₂
    obtain ⟨hu, hpay₄⟩ := peel_part hpay₃
    obtain ⟨hw, -⟩ := peel_part hpay₄
    simp only [List.length_append, length_fixed, structSize, SignupPayload.width_codec]
      at he hn hu hw
    simp only [parts, List.forall_mem_cons] at hshort
    simp only [layout, Layout.read, struct_of_payload hpay, hshort, he, hn, hu, hw, received]
  | token t a r =>
    obtain ⟨hstruct, ha, hr⟩ := two_parts hpay TokenGrantedPayload.width_codec
    simp only [parts, List.forall_mem_cons] at hshort
    simp only [layout, Layout.read, hof, hstruct, hshort, ha, hr, received]
    rfl
  | string t s =>
    obtain ⟨hstruct, hs⟩ := one_part hpay StringPayload.width_codec
    simp only [parts, List.forall_mem_cons] at hshort
    simp only [layout, Layout.read, hof, hstruct, hshort, hs, received]
    rfl
  | raw t d =>
    have hd : slice p.getPayload 0 d.length = d := (peel_part hpay).1
    simp only [structSize, variableSize, Nat.zero_add] at hlen
    simp only [layout, Layout.read, hof, hlen, hd, received]
    rfl
  | _ =>
    simp only [layout, Layout.read, struct_of_payload hpay, received]

/-- The room a serializer's arguments need. -/
def wireSize (m : Message) : ℕ := headerSize + m.structSize + m.variableSize

theorem wireSize_eq (hw : Bool) (m : Message) :
    m.wireSize = headerSize + (m.fixed hw).length + m.parts.flatten.length := by
  rw [length_fixed, length_flatten_parts, wireSize]

/-- The frame of a message whose arguments fit. -/
def frame (hw : Bool) (m : Message) (h : m.wireSize ≤ dataSize) : Frame :=
  Packet.partsFrame m.type (m.fixed hw) m.parts (m.wireSize_eq hw ▸ h)

theorem payload_frame (hw : Bool) (m : Message) (h : m.wireSize ≤ dataSize) :
    (m.frame hw h).payload = m.fixed hw ++ m.parts.flatten := rfl

/-- **What a serializer leaves**: the message's frame if it fits, and otherwise the
packet as it was, but for the write position. -/
theorem serialize_spec (hw : Bool) (p : Packet) (m : Message) :
    (∃ h : m.wireSize ≤ dataSize, (m.serialize hw p).1 = true ∧
      (m.serialize hw p).2.Carries hw (m.frame hw h)) ∨
    (¬ m.wireSize ≤ dataSize ∧ m.serialize hw p = (false, p.resetWritePos)) := by
  rw [serialize_eq]
  by_cases h : m.wireSize ≤ dataSize
  · refine .inl ⟨h, ?_, ?_⟩
    · exact (Packet.serializeParts_of_fits (m.wireSize_eq hw ▸ h)).1
    · exact (Packet.serializeParts_of_fits (m.wireSize_eq hw ▸ h)).2.1
  · exact .inr ⟨h, Packet.serializeParts_of_not_fits (m.wireSize_eq hw ▸ h)⟩

theorem exists_serialize (hw : Bool) (p : Packet) {m : Message} (h : m.wireSize ≤ dataSize) :
    ∃ q, m.serialize hw p = (true, q) := by
  rcases m.serialize_spec hw p with ⟨-, hret, -⟩ | ⟨hnot, -⟩
  · exact ⟨_, Prod.ext hret rfl⟩
  · exact absurd h hnot

theorem carries_of_serialize {hw : Bool} {p q : Packet} {m : Message}
    (h : m.serialize hw p = (true, q)) :
    ∃ hfits : m.wireSize ≤ dataSize, q.Carries hw (m.frame hw hfits) := by
  rcases m.serialize_spec hw p with ⟨hfits, -, hcarries⟩ | ⟨-, hfalse⟩
  · rw [h] at hcarries
    exact ⟨hfits, hcarries⟩
  · rw [h] at hfalse
    cases hfalse

/-- A packet that was filled with a message's frame and parsed reads as the
message. -/
theorem read_parsed (hw : Bool) (m : Message) (h : m.wireSize ≤ dataSize) (q : Packet) :
    m.layout.read hw ((q.receive ((m.frame hw h).bytes hw)).parse hw).2 = some m.received := by
  set f := m.frame hw h with hf
  have htake := Packet.take_receive q (f.bytes hw) (f.length_bytes_le hw)
  have hsize : f.payload.length = m.structSize + m.variableSize := by
    rw [hf, payload_frame, List.length_append, length_fixed, length_flatten_parts]
  rw [Packet.parse_receive]
  have hpay : (q.receive (f.bytes hw)).getPayload = m.fixed hw ++ (m.parts.flatten ++
      (q.receive (f.bytes hw)).data.toList.drop (f.bytes hw).length) := by
    rw [Packet.getPayload]
    conv_lhs => rw [← List.take_append_drop (f.bytes hw).length
      (q.receive (f.bytes hw)).data.toList, htake]
    rw [Frame.bytes, List.append_assoc, List.drop_append_of_le_length (by simp),
      List.drop_of_length_le (by simp), List.nil_append, hf, payload_frame, List.append_assoc]
  refine read_of_payload hpay rfl ?_ ?_
  · rw [← hsize]
    exact f.toNat_payloadLength
  · have := f.length_payload_le
    omega

/-- **Decoding undoes encoding for the whole wire format.**  A serializer returns
true exactly when its arguments fit in 4096 bytes.  Then the first
`16 + payload_length` bytes, copied into any fresh packet, pass `parseHeader` and
`parseData` with the given type, and the decoder of the layout reads the
arguments back.  A serializer that returns false leaves `header` and `in`. -/
theorem decode_serialize (hw : Bool) (p : Packet) (m : Message) :
    ((m.serialize hw p).1 = true ↔ 16 + m.structSize + m.variableSize ≤ 4096) ∧
    ((m.serialize hw p).1 = true →
      ∀ (header : PacketHeader) (junk : List.Vector UInt8 dataSize),
        let wire := (m.serialize hw p).2.data.toList.take
          (16 + (m.serialize hw p).2.header.payloadLength.toNat)
        let r := ((Packet.fresh header junk).receive wire).parse hw
        r.1 = true ∧ r.2.header.type = m.type.code ∧
          m.layout.read hw r.2 = some m.received) ∧
    ((m.serialize hw p).1 = false →
      (m.serialize hw p).2.header = p.header ∧
        (m.serialize hw p).2.inPointer = p.inPointer) := by
  rcases m.serialize_spec hw p with ⟨h, hret, hcarries⟩ | ⟨h, heq⟩
  · refine ⟨⟨fun _ => h, fun _ => hret⟩, fun _ header junk => ?_, fun hfalse => ?_⟩
    · have hwire : (m.serialize hw p).2.data.toList.take
          (16 + (m.serialize hw p).2.header.payloadLength.toNat) = (m.frame hw h).bytes hw := by
        rw [hcarries.header, Frame.payloadLength_header, Frame.toNat_payloadLength]
        exact hcarries.bytes
      simp only [hwire]
      refine ⟨?_, ?_, read_parsed hw m h _⟩ <;> rw [Packet.parse_receive]
      rfl
    · rw [hret] at hfalse
      cases hfalse
  · rw [heq]
    refine ⟨⟨fun hf => ?_, fun hle => absurd hle h⟩, fun hf => ?_, fun _ => ⟨rfl, rfl⟩⟩ <;>
      cases hf

end Message

/-- The first `16 + payload_length` bytes of a packet have room for this message, and copied into
any fresh packet they are parsed and read as it. -/
def Packet.DecodesAs (hw : Bool) (p : Packet) (m : Message) : Prop :=
  m.wireSize ≤ headerSize + p.header.payloadLength.toNat ∧
    headerSize + p.header.payloadLength.toNat ≤ dataSize ∧
    ∀ (header : PacketHeader) (junk : List.Vector UInt8 dataSize),
      let wire := p.data.toList.take (headerSize + p.header.payloadLength.toNat)
      let r := ((Packet.fresh header junk).receive wire).parse hw
      r.1 = true ∧ r.2.header.type = m.type.code ∧ m.layout.read hw r.2 = some m.received

/-- What a serializer leaves can be decoded iff the arguments fit, whatever was in the packet. -/
theorem Message.decodesAs_serialize_iff (hw : Bool) (p : Packet) (m : Message) :
    (m.serialize hw p).2.DecodesAs hw m ↔ m.wireSize ≤ dataSize := by
  constructor
  · rintro ⟨hroom, hfits, -⟩
    exact hroom.trans hfits
  · intro h
    obtain ⟨q, hq⟩ := m.exists_serialize hw p h
    obtain ⟨hfits, hcarries⟩ := carries_of_serialize hq
    have hpayload : q.header.payloadLength.toNat = (m.frame hw hfits).payload.length := by
      rw [hcarries.header, Frame.payloadLength_header, Frame.toNat_payloadLength]
    have hlength : headerSize + q.header.payloadLength.toNat = m.wireSize := by
      rw [hpayload, payload_frame, List.length_append, m.wireSize_eq hw, Nat.add_assoc]
    rw [hq]
    refine ⟨hlength.ge, hlength.trans_le h, ?_⟩
    intro header junk
    simp only [hpayload, hcarries.bytes]
    refine ⟨?_, ?_, read_parsed hw m hfits _⟩ <;> rw [Packet.parse_receive]
    rfl

end IocpChat

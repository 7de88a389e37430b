import IocpChat.Client.ReceiveLoop
import IocpChat.FileTransfer.Uploads

/-!
# What the client sends

Each request of the client serializes its arguments into a local packet and hands that to
`sendRawPacket`, without a look at what the serializer returned.  How much is sent is then told
by the packet's header, which the serializer sets only if the arguments fit.  Otherwise the
header is what the stack held: anything may be sent, nothing may be, and the request reports a
success.

A connection that is lost in the middle leaves a part of the packet behind, which is reported
except by `sendFile`: it returns true whatever `sendRawPacket` says.

## Main definitions

* `Client`, `Host` — the client, and what it asks the operating system and the C library.
* `Client.sendRawPacket`, `Client.requestOtp`, … — the code.
* `Request`, `Request.exec` — a call of one of the ten functions.
* `OnePacketOrNothing` — one whole packet was sent, or nothing, and this is reported.
* `Request.Sends` — the arguments fit and the connection holds.
-/

namespace IocpChat

open Bytes

/-- What `sendFile` records of an upload. -/
structure Client.UploadState where
  filepath : Key
  receiver : Key
  totalSize : UInt64
  finalCrc : UInt32

/-- The members of the client that its requests look at. -/
structure Client where
  isConnected : Bool
  userId : Key
  activeUploads : Key → Option Client.UploadState

namespace Client

/-! ## The code -/

/-- A file: what `file_size` answers, unless it throws, and the contents, unless the file
cannot be opened. -/
structure File where
  size : Option UInt64
  contents : Option (List UInt8)

/-- What the client asks the operating system and the C library. -/
structure Host where
  isxdigit : UInt8 → Bool
  /-- `strtol`, to the base 16. -/
  strtol : List UInt8 → UInt8
  /-- `std::filesystem::path::filename`. -/
  filename : Key → Key
  /-- The file at a path, if it exists. -/
  file : Key → Option File

/-- What a call meets: the time, the random bytes for an upload's id, and what the successive
calls of `send` return.  After these the connection is lost. -/
structure Moment where
  nowMs : UInt64
  random : Uuid
  answers : List ℤ

/-- The bytes of an id: 32 hexadecimal digits, or the first 16 characters. -/
def hexToBytes (host : Host) (str : Key) : Uuid :=
  if str.length = 32 ∧ str.all host.isxdigit then
    .ofFn fun i => host.strtol ((str.drop (i.val * 2)).take 2)
  else .ofFn fun i => str.getD i.val 0

/-- The loop of `sendRawPacket` over what is still to be sent.  `send` takes as many bytes from
the front as it returns. -/
def sendLoop : List ℤ → List UInt8 → Bool × List UInt8
  | _, [] => (true, [])
  | [], _ :: _ => (false, [])
  | sent :: answers, b :: bytes =>
    if sent ≤ 0 then (false, [])
    else
      let r := sendLoop answers ((b :: bytes).drop sent.toNat)
      (r.1, (b :: bytes).take sent.toNat ++ r.2)

/-- What a request returns, the bytes it has sent, and the client afterwards. -/
structure Sent where
  result : Bool
  written : List UInt8
  client : Client

/-- There is no result if the range leaves `data`.  `totalSize` is an `int`, and a negative one
sends nothing. -/
def sendRawPacket (c : Client) (answers : List ℤ) (p : Packet) : Option Sent :=
  if !c.isConnected then some ⟨false, [], c⟩
  else
    let totalSize := (packetSize p.header.payloadLength).toInt32.toInt
    if (dataSize : ℤ) < totalSize then none
    else
      let r := sendLoop answers (p.data.toList.take totalSize.toNat)
      some ⟨r.1, r.2, c⟩

/-- `Client::computeFileCRC`. -/
def computeFileCrc (hw : Bool) (file : File) : UInt32 := CRC32C.computeFileCrc hw file.contents

section Requests

variable (hw : Bool) (host : Host) (c : Client) (m : Moment) (junk : Junk)

/-- The local packet of a request. -/
def localPacket (junk : Junk) : Packet := .fresh junk.header junk.data

def requestOtp (email : List UInt8) : Option Sent :=
  c.sendRawPacket m.answers ((localPacket junk).serializeOtpRequest hw email).2

def verifyOtp (email otp : List UInt8) : Option Sent :=
  c.sendRawPacket m.answers ((localPacket junk).serializeOtpVerification hw email otp).2

def signup (email number username password : List UInt8) : Option Sent :=
  c.sendRawPacket m.answers
    ((localPacket junk).serializeSignup hw email number username password).2

def login (identifier password : List UInt8) : Option Sent :=
  c.sendRawPacket m.answers ((localPacket junk).serializeLogin hw identifier password).2

/-- The messages and the group requests, which differ in the type. -/
def sendChat (type : PacketType) (receiver message : List UInt8) : Option Sent :=
  c.sendRawPacket m.answers
    ((localPacket junk).serialize hw type (hexToBytes host c.userId) (hexToBytes host receiver)
      m.nowMs none [] message).2

def sendPrivateMessage (receiver message : List UInt8) : Option Sent :=
  sendChat hw host c m junk .pktPrivateMessage receiver message

def sendGroupMessage (groupId message : List UInt8) : Option Sent :=
  sendChat hw host c m junk .pktGroupMessage groupId message

def createGroup (groupId : List UInt8) : Option Sent :=
  sendChat hw host c m junk .pktCreateGroup groupId []

def joinGroup (groupId : List UInt8) : Option Sent :=
  sendChat hw host c m junk .pktJoinGroup groupId []

def leaveGroup (groupId : List UInt8) : Option Sent :=
  sendChat hw host c m junk .pktLeaveGroup groupId []

/-- There is no result if `file_size` throws. -/
def sendFile (receiver filepath : List UInt8) : Option Sent :=
  if !c.isConnected then some ⟨false, [], c⟩
  else
    match host.file filepath with
    | none => some ⟨false, [], c⟩
    | some file =>
      match file.size with
      | none => none
      | some totalSize =>
        let uploadId := FileTransfer.bytesToHex m.random.toList
        let state : UploadState := ⟨filepath, receiver, totalSize, computeFileCrc hw file⟩
        let c := { c with activeUploads := Function.update c.activeUploads uploadId (some state) }
        let p := ((localPacket junk).serializeFileStart hw (hexToBytes host state.receiver)
          (hexToBytes host uploadId) (host.filename filepath) state.totalSize state.finalCrc).2
        (c.sendRawPacket m.answers p).map fun r => { r with result := true }

end Requests

/-- A call of one of the functions that send one packet. -/
inductive Request
  | requestOtp (email : List UInt8)
  | verifyOtp (email otp : List UInt8)
  | signup (email number username password : List UInt8)
  | login (identifier password : List UInt8)
  | sendPrivateMessage (receiver message : List UInt8)
  | sendGroupMessage (groupId message : List UInt8)
  | createGroup (groupId : List UInt8)
  | joinGroup (groupId : List UInt8)
  | leaveGroup (groupId : List UInt8)
  | sendFile (receiver filepath : List UInt8)

def Request.exec (hw : Bool) (host : Host) (c : Client) (m : Moment) (junk : Junk) :
    Request → Option Sent
  | .requestOtp email => Client.requestOtp hw c m junk email
  | .verifyOtp email otp => Client.verifyOtp hw c m junk email otp
  | .signup email number username password =>
    Client.signup hw c m junk email number username password
  | .login identifier password => Client.login hw c m junk identifier password
  | .sendPrivateMessage receiver message =>
    Client.sendPrivateMessage hw host c m junk receiver message
  | .sendGroupMessage groupId message => Client.sendGroupMessage hw host c m junk groupId message
  | .createGroup groupId => Client.createGroup hw host c m junk groupId
  | .joinGroup groupId => Client.joinGroup hw host c m junk groupId
  | .leaveGroup groupId => Client.leaveGroup hw host c m junk groupId
  | .sendFile receiver filepath => Client.sendFile hw host c m junk receiver filepath

/-! ## What a request is for -/

/-- The bytes are those of one packet, header and payload, which parses wherever it is
received. -/
def OnePacket (hw : Bool) (bytes : List UInt8) : Prop :=
  bytes.length ≤ dataSize ∧ ∀ q : Packet, ((q.receive bytes).parse hw).1 = true ∧
    bytes.length = headerSize + ((q.receive bytes).parse hw).2.header.payloadLength.toNat

/-- One packet was sent, or nothing was and the request returns false. -/
def OnePacketOrNothing (hw : Bool) : Option Sent → Prop
  | none => False
  | some r => OnePacket hw r.written ∨ (r.written = [] ∧ r.result = false)

/-- The bytes that `send` takes before it fails. -/
def taken (answers : List ℤ) : ℕ := ((answers.takeWhile fun sent => 0 < sent).map Int.toNat).sum

/-- The size of the payload: the struct, and the strings behind it. -/
def Request.payloadSize (host : Host) : Request → ℕ
  | .requestOtp email => 2 + email.length
  | .verifyOtp email otp => 4 + (email.length + otp.length)
  | .signup email number username password =>
    8 + (email.length + (number.length + (username.length + password.length)))
  | .login identifier password => 4 + (identifier.length + password.length)
  | .sendPrivateMessage _ message | .sendGroupMessage _ message => 48 + message.length
  | .createGroup _ | .joinGroup _ | .leaveGroup _ => 48
  | .sendFile _ filepath => 46 + (host.filename filepath).length

/-- The arguments fit in a packet, and the connection is not lost while the packet is sent.
For a file it must not be lost before either, and the size of the file can be told. -/
def Request.Sends (host : Host) (m : Moment) (r : Request) : Prop :=
  match r with
  | .sendFile _ filepath =>
    ∀ file, host.file filepath = some file → file.size ≠ none ∧
      headerSize + r.payloadSize host ≤ dataSize ∧
      headerSize + r.payloadSize host ≤ taken m.answers
  | _ =>
    headerSize + r.payloadSize host ≤ dataSize ∧
      (taken m.answers = 0 ∨ headerSize + r.payloadSize host ≤ taken m.answers)

/-! ## The loop -/

theorem taken_cons {sent : ℤ} (h : 0 < sent) (answers : List ℤ) :
    taken (sent :: answers) = sent.toNat + taken answers := by
  simp [taken, h]

/-- **The loop sends as much as is taken**, and says whether that was all. -/
theorem sendLoop_eq (answers : List ℤ) (bytes : List UInt8) :
    sendLoop answers bytes = (decide (bytes.length ≤ taken answers), bytes.take (taken answers)) := by
  induction answers generalizing bytes with
  | nil =>
    cases bytes with
    | nil => simp [sendLoop]
    | cons b bytes => simp [sendLoop, taken]
  | cons sent answers ih =>
    cases bytes with
    | nil => simp [sendLoop]
    | cons b bytes =>
      by_cases hsent : sent ≤ 0
      · have hnone : taken (sent :: answers) = 0 := by simp [taken, not_lt.mpr hsent]
        simp [sendLoop, hsent, hnone]
      · have hpos : 0 < sent := not_le.mp hsent
        rw [sendLoop, if_neg hsent, ih, taken_cons hpos, List.take_add]
        simp [decide_eq_decide]
        omega

/-! ## What is on the wire -/

theorem onePacket_bytes (hw : Bool) (f : Frame) : OnePacket hw (f.bytes hw) := by
  refine ⟨f.length_bytes_le hw, ?_⟩
  intro q
  rw [Packet.parse_receive]
  simp

theorem not_onePacket_of_length_lt {hw : Bool} {bytes : List UInt8} (h : bytes.length < headerSize) :
    ¬ OnePacket hw bytes := by
  rintro ⟨-, hparse⟩
  have hlen := (hparse (.fresh .zero (.replicate _ 0))).2
  omega

theorem header_parse (hw : Bool) {p : Packet} (h : headerSize ≤ p.inPointer) :
    (p.parse hw).2.header = PacketHeader.codec.decode p.data.toList := by
  have hrecv : ¬ p.bytesReceived < (headerSize : ℤ) := by
    rw [Packet.bytesReceived]
    omega
  simp only [Packet.parse, Packet.parseHeader, if_neg hrecv]
  split <;> simp only [Packet.parseData] <;> repeat' split
  all_goals rfl

theorem header_parse_receive (hw : Bool) (q : Packet) {bytes : List UInt8}
    (hlow : headerSize ≤ bytes.length) (hhigh : bytes.length ≤ dataSize) :
    ((q.receive bytes).parse hw).2.header = PacketHeader.codec.decode bytes := by
  rw [header_parse hw hlow, ← List.take_append_drop bytes.length (q.receive bytes).data.toList,
    Packet.take_receive q bytes hhigh, PacketHeader.codec.decode_append hlow]

theorem not_onePacket_take (hw : Bool) (f : Frame) {n : ℕ} (hn : n < headerSize + f.payload.length) :
    ¬ OnePacket hw ((f.bytes hw).take n) := by
  have hlen : ((f.bytes hw).take n).length = n := by
    rw [List.length_take, Frame.length_bytes, Nat.min_eq_left hn.le]
  by_cases hshort : n < headerSize
  · exact not_onePacket_of_length_lt (hlen.trans_lt hshort)
  · rintro ⟨hle, hparse⟩
    have hsize := (hparse (.fresh .zero (.replicate _ 0))).2
    have hhead : headerSize ≤ n := Nat.le_of_not_lt hshort
    have hdecode : PacketHeader.codec.decode ((f.bytes hw).take n) = f.header hw := by
      have hall := PacketHeader.codec.decode_append (hhead.trans_eq hlen.symm)
        ((f.bytes hw).drop n)
      rw [List.take_append_drop] at hall
      rw [← hall]
      exact Frame.decode_of_take (List.take_of_length_le (f.length_bytes hw).le)
    rw [header_parse_receive hw _ (by omega) hle, hdecode, hlen] at hsize
    simp at hsize
    omega

/-! ## Requests -/

section Parts

variable {hw : Bool} {c : Client} {answers : List ℤ}

theorem sendRawPacket_of_carries {p : Packet} {f : Frame} (hconn : c.isConnected = true)
    (h : p.Carries hw f) :
    c.sendRawPacket answers p = some ⟨decide (headerSize + f.payload.length ≤ taken answers),
      (f.bytes hw).take (taken answers), c⟩ := by
  have hfits := f.fits
  have hsize : (packetSize p.header.payloadLength).toInt32.toInt =
      ((headerSize + f.payload.length : ℕ) : ℤ) := by
    rw [h.header, Frame.payloadLength_header, toInt_packetSize (by rwa [Frame.toNat_payloadLength]),
      Frame.toNat_payloadLength]
    rfl
  have hrange : ¬ (dataSize : ℤ) < ((headerSize + f.payload.length : ℕ) : ℤ) := by omega
  simp only [sendRawPacket, hconn, Bool.not_true, Bool.false_eq_true, if_false, hsize,
    if_neg hrange, Int.toNat_natCast, h.bytes, sendLoop_eq, Frame.length_bytes]

/-- A stack that makes a request send nothing: 16 more than this length is zero. -/
def silent : Junk := ⟨{ PacketHeader.zero with payloadLength := 0xFFFFFFF0 }, .replicate _ 0⟩

theorem sendRawPacket_silent (hconn : c.isConnected = true) :
    c.sendRawPacket answers (localPacket silent).resetWritePos = some ⟨true, [], c⟩ := by
  have hsize : (packetSize (localPacket silent).resetWritePos.header.payloadLength).toInt32.toInt =
      0 := by decide
  have hrange : ¬ (dataSize : ℤ) < 0 := by decide
  simp [sendRawPacket, hconn, hsize, if_neg hrange, Int.toNat_zero, sendLoop]

theorem not_onePacket_nil : ¬ OnePacket hw [] := not_onePacket_of_length_lt (by decide)

theorem onePacketOrNothing_take (f : Frame) {report : Bool → Bool} (n : ℕ) :
    OnePacketOrNothing hw
      (some ⟨report (decide (headerSize + f.payload.length ≤ n)), (f.bytes hw).take n, c⟩) ↔
    (n = 0 ∧ report false = false) ∨ headerSize + f.payload.length ≤ n := by
  have hlen := f.length_bytes hw
  by_cases hall : headerSize + f.payload.length ≤ n
  · have htake : (f.bytes hw).take n = f.bytes hw := List.take_of_length_le (by omega)
    rw [htake]
    exact iff_of_true (.inl (onePacket_bytes hw f)) (.inr hall)
  · have hnot := not_onePacket_take hw f (Nat.lt_of_not_le hall)
    have hne : f.bytes hw ≠ [] := by
      intro hnil
      rw [hnil, List.length_nil, headerSize] at hlen
      omega
    simp [OnePacketOrNothing, hnot, hall, List.take_eq_nil_iff, hne]

/-- **When one packet or nothing is sent**, whatever the stack holds.  `report` is what the
request makes of the answer of `sendRawPacket`. -/
theorem onePacketOrNothing_iff (report : Bool → Bool) (hreport : report true = true)
    (type : PacketType) (fixed : List UInt8) (parts : List (List UInt8))
    (hconn : c.isConnected = true) :
    (∀ junk, OnePacketOrNothing hw
      ((c.sendRawPacket answers ((localPacket junk).serializeParts hw type fixed parts).2).map
        fun r => { r with result := report r.result })) ↔
    headerSize + (fixed.length + parts.flatten.length) ≤ dataSize ∧
      ((taken answers = 0 ∧ report false = false) ∨
        headerSize + (fixed.length + parts.flatten.length) ≤ taken answers) := by
  rw [← Nat.add_assoc]
  by_cases hfits : headerSize + fixed.length + parts.flatten.length ≤ dataSize
  · have hpayload : headerSize + (Packet.partsFrame type fixed parts hfits).payload.length =
        headerSize + fixed.length + parts.flatten.length := by
      rw [Packet.partsFrame, List.length_append, Nat.add_assoc]
    have hsent : ∀ junk, c.sendRawPacket answers
        ((localPacket junk).serializeParts hw type fixed parts).2 = some
          ⟨decide (headerSize + (Packet.partsFrame type fixed parts hfits).payload.length ≤
              taken answers),
            ((Packet.partsFrame type fixed parts hfits).bytes hw).take (taken answers), c⟩ :=
      fun junk => sendRawPacket_of_carries hconn (Packet.serializeParts_of_fits hfits).2.1
    simp only [hsent, Option.map_some]
    rw [and_iff_right hfits, ← hpayload]
    exact ⟨fun h => (onePacketOrNothing_take _ _).mp (h silent),
      fun h _ => (onePacketOrNothing_take _ _).mpr h⟩
  · rw [iff_false_intro (fun h : _ ∧ _ => hfits h.1), iff_false]
    intro h
    have hsilent := h silent
    rw [Packet.serializeParts_of_not_fits hfits, sendRawPacket_silent hconn] at hsilent
    simp [OnePacketOrNothing, hreport, not_onePacket_nil] at hsilent

theorem onePacketOrNothing_sendRawPacket_iff (type : PacketType) (fixed : List UInt8)
    (parts : List (List UInt8)) {n : ℕ} (hn : fixed.length + parts.flatten.length = n)
    (hconn : c.isConnected = true) :
    (∀ junk, OnePacketOrNothing hw
      (c.sendRawPacket answers ((localPacket junk).serializeParts hw type fixed parts).2)) ↔
    headerSize + n ≤ dataSize ∧ (taken answers = 0 ∨ headerSize + n ≤ taken answers) := by
  subst hn
  simpa using onePacketOrNothing_iff id rfl type fixed parts hconn

theorem onePacketOrNothing_unreported_iff (type : PacketType) (fixed : List UInt8)
    (parts : List (List UInt8)) {n : ℕ} (hn : fixed.length + parts.flatten.length = n)
    (hconn : c.isConnected = true) :
    (∀ junk, OnePacketOrNothing hw
      ((c.sendRawPacket answers ((localPacket junk).serializeParts hw type fixed parts).2).map
        fun r => { r with result := true })) ↔
    headerSize + n ≤ dataSize ∧ headerSize + n ≤ taken answers := by
  subst hn
  simpa using onePacketOrNothing_iff (fun _ => true) rfl type fixed parts hconn

end Parts

section Exec

variable {hw : Bool} {host : Host} {c : Client} {m : Moment}

theorem exec_of_not_connected (hconn : c.isConnected = false) (junk : Junk) (r : Request) :
    r.exec hw host c m junk = some ⟨false, [], c⟩ := by
  have hsend : ∀ answers p, c.sendRawPacket answers p = some ⟨false, [], c⟩ := by
    simp [sendRawPacket, hconn]
  cases r with
  | sendFile receiver filepath => simp [Request.exec, sendFile, hconn]
  | _ => exact hsend _ _

theorem sendFile_iff (receiver filepath : List UInt8) (hconn : c.isConnected = true) :
    (∀ junk, OnePacketOrNothing hw (sendFile hw host c m junk receiver filepath)) ↔
      (Request.sendFile receiver filepath).Sends host m := by
  simp only [sendFile, hconn, Bool.not_true, Bool.false_eq_true, if_false, Request.Sends]
  cases hfile : host.file filepath with
  | none => simp [OnePacketOrNothing]
  | some file =>
    cases hsize : file.size with
    | none =>
      simp only [OnePacketOrNothing, Option.some.injEq, forall_eq', hsize, ne_eq, not_true_eq_false,
        false_and, iff_false]
      exact fun h => h silent
    | some totalSize =>
      simp [hsize]
      exact onePacketOrNothing_unreported_iff _ _ _ (by simp [Request.payloadSize]) rfl

/-- **When a request sends one packet or nothing.**  Whatever the stack holds, a request sends
exactly one packet that parses, or nothing and returns false, if and only if the client is not
connected, or the arguments fit in a packet and the connection is not lost while it is sent. -/
theorem onePacketOrNothing_exec_iff (hw : Bool) (host : Host) (c : Client) (m : Moment)
    (r : Request) :
    (∀ junk, OnePacketOrNothing hw (r.exec hw host c m junk)) ↔
      (c.isConnected = true → r.Sends host m) := by
  cases hconn : c.isConnected with
  | false => simp [exec_of_not_connected hconn, OnePacketOrNothing]
  | true =>
    rw [imp_iff_right rfl]
    cases r with
    | sendFile receiver filepath => exact sendFile_iff receiver filepath hconn
    | _ =>
      exact onePacketOrNothing_sendRawPacket_iff _ _ _ (by simp [Request.payloadSize]) hconn

end Exec

/-! ## A message that is too long -/

theorem not_parse_of_magic (hw : Bool) {p : Packet}
    (h : (PacketHeader.codec.decode p.data.toList).magic ≠ startByte) : (p.parse hw).1 = false := by
  have hhdr : p.parseHeader.1 = false := by
    unfold Packet.parseHeader
    split
    · rfl
    · simp [h]
  rw [Packet.parse, hhdr]
  rfl

theorem exec_of_long {hw : Bool} {host : Host} {c : Client} {m : Moment} {junk : Junk}
    {receiver message : List UInt8} (h : dataSize < headerSize + (48 + message.length)) :
    (Request.sendPrivateMessage receiver message).exec hw host c m junk =
      c.sendRawPacket m.answers (localPacket junk).resetWritePos := by
  rw [Request.exec, sendPrivateMessage, sendChat, Packet.serialize,
    Packet.serializeParts_of_not_fits]
  simp [Codec.length_encode]
  omega

def zeros : Junk := ⟨.zero, .replicate _ 0⟩

theorem sendRawPacket_zeros {c : Client} (hconn : c.isConnected = true) :
    c.sendRawPacket [16] (localPacket zeros).resetWritePos =
      some ⟨true, List.replicate 16 0, c⟩ := by
  have hdata : (localPacket zeros).resetWritePos.data.toList.take 16 = List.replicate 16 0 := by
    change (List.replicate dataSize 0).take 16 = _
    rw [List.take_replicate]
    rfl
  have hsize : (packetSize (localPacket zeros).resetWritePos.header.payloadLength).toInt32.toInt =
      16 := by decide
  have hrange : ¬ (dataSize : ℤ) < 16 := by decide
  have htoNat : (16 : ℤ).toNat = 16 := rfl
  simp only [sendRawPacket, hconn, Bool.not_true, Bool.false_eq_true, if_false, hsize,
    if_neg hrange, htoNat, hdata]
  rfl

theorem not_onePacket_zeros (hw : Bool) : ¬ OnePacket hw (List.replicate 16 0) := by
  rintro ⟨hle, hparse⟩
  have hdecode : PacketHeader.codec.decode
      ((localPacket zeros).receive (List.replicate 16 0)).data.toList =
      PacketHeader.codec.decode (List.replicate 16 0) := by
    rw [← header_parse_receive hw (localPacket zeros) (by decide) hle, header_parse hw (by decide)]
  have hmagic : (PacketHeader.codec.decode (List.replicate 16 0)).magic ≠ startByte := by decide
  rw [← hdecode] at hmagic
  have hfalse := not_parse_of_magic hw hmagic
  rw [(hparse (localPacket zeros)).1] at hfalse
  cases hfalse

/-- A client without an id, on a machine without files. -/
def sampleHost : Host := ⟨fun _ => false, fun _ => 0, id, fun _ => none⟩

def sampleClient : Client := ⟨true, [], fun _ => none⟩

/-- A message of 5000 bytes does not fit, and the stack happens to hold zeros: 16 of them are
sent, and the request reports a success. -/
theorem not_onePacketOrNothing_longMessage :
    let r := (Request.sendPrivateMessage [] (List.replicate 5000 65)).exec false sampleHost
      sampleClient ⟨0, .replicate _ 0, [16]⟩ zeros
    r = some ⟨true, List.replicate 16 0, sampleClient⟩ ∧ ¬ OnePacketOrNothing false r := by
  intro r
  have hr : r = some ⟨true, List.replicate 16 0, sampleClient⟩ := by
    have hlong : dataSize < headerSize + (48 + (List.replicate 5000 (65 : UInt8)).length) := by
      rw [List.length_replicate]
      decide
    exact (exec_of_long hlong).trans (sendRawPacket_zeros rfl)
  refine ⟨hr, ?_⟩
  rw [hr]
  rintro (hone | ⟨hnil, -⟩)
  · exact not_onePacket_zeros false hone
  · cases hnil

end Client

end IocpChat

import IocpChat.Protocol.Packet

/-!
# The payload structs of `ProtocolStructs.h`

Each struct is packed, so its wire form is its fields one after another in
declaration order, multi-byte fields in network order.  A struct is a record here
and its layout a `Codec`; `codec.width` is `sizeof`.
-/

namespace IocpChat

open Bytes

abbrev Uuid := List.Vector UInt8 uuidSize

/-- A 16-byte identifier, copied as it is. -/
def uuid : Codec Uuid := Codec.block uuidSize

@[simp] theorem width_uuid : uuid.width = 16 := rfl

structure ChatMessagePayload where
  senderId : Uuid
  receiverId : Uuid
  timestamp : UInt64
  messageNumber : UInt32
  usernameLen : UInt16
  textLen : UInt16
  deriving DecidableEq

/-- The packed layout, 48 bytes. -/
def ChatMessagePayload.codec : Codec ChatMessagePayload :=
  (uuid.pair (uuid.pair (u64.pair (u32.pair (u16.pair u16))))).iso
    (fun x => ⟨x.1, x.2.1, x.2.2.1, x.2.2.2.1, x.2.2.2.2.1, x.2.2.2.2.2⟩)
    (fun s => (s.senderId, s.receiverId, s.timestamp, s.messageNumber, s.usernameLen, s.textLen))
    (fun _ => rfl)

@[simp] theorem ChatMessagePayload.width_codec : ChatMessagePayload.codec.width = 48 := rfl

structure FileStartPayload where
  receiverId : Uuid
  uploadId : Uuid
  totalSize : UInt64
  finalCrc : UInt32
  filenameLen : UInt16
  deriving DecidableEq

/-- The packed layout, 46 bytes. -/
def FileStartPayload.codec : Codec FileStartPayload :=
  (uuid.pair (uuid.pair (u64.pair (u32.pair u16)))).iso
    (fun x => ⟨x.1, x.2.1, x.2.2.1, x.2.2.2.1, x.2.2.2.2⟩)
    (fun s => (s.receiverId, s.uploadId, s.totalSize, s.finalCrc, s.filenameLen))
    (fun _ => rfl)

@[simp] theorem FileStartPayload.width_codec : FileStartPayload.codec.width = 46 := rfl

structure FileStartResponsePayload where
  uploadId : Uuid
  resumeOffset : UInt64
  deriving DecidableEq

/-- The packed layout, 24 bytes. -/
def FileStartResponsePayload.codec : Codec FileStartResponsePayload :=
  (uuid.pair u64).iso
    (fun x => ⟨x.1, x.2⟩)
    (fun s => (s.uploadId, s.resumeOffset))
    (fun _ => rfl)

@[simp] theorem FileStartResponsePayload.width_codec : FileStartResponsePayload.codec.width = 24 := rfl

structure FileChunkPayload where
  uploadId : Uuid
  byteOffset : UInt64
  chunkSize : UInt32
  chunkCrc : UInt32
  deriving DecidableEq

/-- The packed layout, 32 bytes. -/
def FileChunkPayload.codec : Codec FileChunkPayload :=
  (uuid.pair (u64.pair (u32.pair u32))).iso
    (fun x => ⟨x.1, x.2.1, x.2.2.1, x.2.2.2⟩)
    (fun s => (s.uploadId, s.byteOffset, s.chunkSize, s.chunkCrc))
    (fun _ => rfl)

@[simp] theorem FileChunkPayload.width_codec : FileChunkPayload.codec.width = 32 := rfl

structure RoundEndPayload where
  uploadId : Uuid
  roundId : UInt32
  chunkCount : UInt32
  deriving DecidableEq

/-- The packed layout, 24 bytes. -/
def RoundEndPayload.codec : Codec RoundEndPayload :=
  (uuid.pair (u32.pair u32)).iso
    (fun x => ⟨x.1, x.2.1, x.2.2⟩)
    (fun s => (s.uploadId, s.roundId, s.chunkCount))
    (fun _ => rfl)

@[simp] theorem RoundEndPayload.width_codec : RoundEndPayload.codec.width = 24 := rfl

structure FileAckPayload where
  uploadId : Uuid
  roundId : UInt32
  missingCount : UInt32
  deriving DecidableEq

/-- The packed layout, 24 bytes. -/
def FileAckPayload.codec : Codec FileAckPayload :=
  (uuid.pair (u32.pair u32)).iso
    (fun x => ⟨x.1, x.2.1, x.2.2⟩)
    (fun s => (s.uploadId, s.roundId, s.missingCount))
    (fun _ => rfl)

@[simp] theorem FileAckPayload.width_codec : FileAckPayload.codec.width = 24 := rfl

structure FileEndPayload where
  uploadId : Uuid
  finalCrc : UInt32
  deriving DecidableEq

/-- The packed layout, 20 bytes. -/
def FileEndPayload.codec : Codec FileEndPayload :=
  (uuid.pair u32).iso
    (fun x => ⟨x.1, x.2⟩)
    (fun s => (s.uploadId, s.finalCrc))
    (fun _ => rfl)

@[simp] theorem FileEndPayload.width_codec : FileEndPayload.codec.width = 20 := rfl

structure LoginPayload where
  identifierLen : UInt16
  passwordLen : UInt16
  deriving DecidableEq

def LoginPayload.codec : Codec LoginPayload :=
  (u16.pair u16).iso
    (fun x => ⟨x.1, x.2⟩)
    (fun s => (s.identifierLen, s.passwordLen))
    (fun _ => rfl)

@[simp] theorem LoginPayload.width_codec : LoginPayload.codec.width = 4 := rfl

structure SignupPayload where
  emailLen : UInt16
  numberLen : UInt16
  usernameLen : UInt16
  passwordLen : UInt16
  deriving DecidableEq

def SignupPayload.codec : Codec SignupPayload :=
  (u16.pair (u16.pair (u16.pair u16))).iso
    (fun x => ⟨x.1, x.2.1, x.2.2.1, x.2.2.2⟩)
    (fun s => (s.emailLen, s.numberLen, s.usernameLen, s.passwordLen))
    (fun _ => rfl)

@[simp] theorem SignupPayload.width_codec : SignupPayload.codec.width = 8 := rfl

structure OtpReqPayload where
  emailLen : UInt16
  deriving DecidableEq

def OtpReqPayload.codec : Codec OtpReqPayload :=
  u16.iso (fun x => ⟨x⟩) (fun s => s.emailLen) (fun _ => rfl)

@[simp] theorem OtpReqPayload.width_codec : OtpReqPayload.codec.width = 2 := rfl

structure OtpVerifyPayload where
  emailLen : UInt16
  otpLen : UInt16
  deriving DecidableEq

def OtpVerifyPayload.codec : Codec OtpVerifyPayload :=
  (u16.pair u16).iso
    (fun x => ⟨x.1, x.2⟩)
    (fun s => (s.emailLen, s.otpLen))
    (fun _ => rfl)

@[simp] theorem OtpVerifyPayload.width_codec : OtpVerifyPayload.codec.width = 4 := rfl

structure UserIdPayload where
  serverTempId : Uuid
  userId : Uuid
  deriving DecidableEq

/-- The packed layout, 32 bytes. -/
def UserIdPayload.codec : Codec UserIdPayload :=
  (uuid.pair uuid).iso
    (fun x => ⟨x.1, x.2⟩)
    (fun s => (s.serverTempId, s.userId))
    (fun _ => rfl)

@[simp] theorem UserIdPayload.width_codec : UserIdPayload.codec.width = 32 := rfl

structure DownloadLinkPayload where
  senderId : Uuid
  uploadId : Uuid
  totalSize : UInt32
  filenameLen : UInt16
  timestampLen : UInt16
  deriving DecidableEq

/-- The packed layout, 40 bytes. -/
def DownloadLinkPayload.codec : Codec DownloadLinkPayload :=
  (uuid.pair (uuid.pair (u32.pair (u16.pair u16)))).iso
    (fun x => ⟨x.1, x.2.1, x.2.2.1, x.2.2.2.1, x.2.2.2.2⟩)
    (fun s => (s.senderId, s.uploadId, s.totalSize, s.filenameLen, s.timestampLen))
    (fun _ => rfl)

@[simp] theorem DownloadLinkPayload.width_codec : DownloadLinkPayload.codec.width = 40 := rfl

structure DownloadReqPayload where
  userId : Uuid
  uploadId : Uuid
  bytesRequested : UInt32
  deriving DecidableEq

/-- The packed layout, 36 bytes. -/
def DownloadReqPayload.codec : Codec DownloadReqPayload :=
  (uuid.pair (uuid.pair u32)).iso
    (fun x => ⟨x.1, x.2.1, x.2.2⟩)
    (fun s => (s.userId, s.uploadId, s.bytesRequested))
    (fun _ => rfl)

@[simp] theorem DownloadReqPayload.width_codec : DownloadReqPayload.codec.width = 36 := rfl

structure StringPayload where
  strLen : UInt16
  deriving DecidableEq

def StringPayload.codec : Codec StringPayload :=
  u16.iso (fun x => ⟨x⟩) (fun s => s.strLen) (fun _ => rfl)

@[simp] theorem StringPayload.width_codec : StringPayload.codec.width = 2 := rfl

structure TokenGrantedPayload where
  accessTokenLen : UInt16
  refreshTokenLen : UInt16
  deriving DecidableEq

def TokenGrantedPayload.codec : Codec TokenGrantedPayload :=
  (u16.pair u16).iso
    (fun x => ⟨x.1, x.2⟩)
    (fun s => (s.accessTokenLen, s.refreshTokenLen))
    (fun _ => rfl)

@[simp] theorem TokenGrantedPayload.width_codec : TokenGrantedPayload.codec.width = 4 := rfl

end IocpChat

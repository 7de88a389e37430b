import IocpChat.Chat.FanOut
import IocpChat.Client.Identifiers

/-!
# Files that are sent to a group

The id of a group begins with `GRP`.  A client sends it as 16 bytes, and the server makes
hexadecimal digits of the bytes.  A group is stored under these digits, and they are also the
`receiverId` of an upload.  When the upload is complete, `sendDownloadLinkLoop` looks at the
`receiverId` for `GRP` to tell if the link is for a group.  Digits never begin like that, so the
link is always for a single user, who has the id of the group if anybody has it.

## Main definitions

* `Client.startMessage` — the packet that `sendFile` starts an upload with.
* `Announcement`, `sendDownloadLink` — the link of an upload.
* `Announced` — the link is sent to the other members of the group.
-/

namespace IocpChat

open Bytes

/-! ## The code -/

/-- The `FILE_START` of `sendFile`. -/
def Client.startMessage (hw : Bool) (host : Host) (m : Moment) (receiver filepath : Key) (file : File)
    (totalSize : UInt64) : Message :=
  .fileStart (hexToBytes host receiver) (hexToBytes host (FileTransfer.bytesToHex m.random.toList))
    (host.filename filepath) totalSize (computeFileCrc hw file)

theorem Client.sendFile_startMessage (hw : Bool) {host : Host} {c : Client} (m : Moment) (junk : Junk)
    (receiver : Key) {filepath : Key} {file : File} {totalSize : UInt64}
    (hconn : c.isConnected = true) (hfile : host.file filepath = some file)
    (hsize : file.size = some totalSize) :
    ∃ c' : Client, c'.isConnected = true ∧ c.sendFile hw host m junk receiver filepath =
      (c'.sendRawPacket m.answers ((startMessage hw host m receiver filepath file totalSize).serialize hw
        (localPacket junk)).2).map fun r => { r with result := true } := by
  let state : UploadState := ⟨filepath, receiver, totalSize, computeFileCrc hw file⟩
  let uploads := Function.update c.activeUploads (FileTransfer.bytesToHex m.random.toList) (some state)
  refine ⟨{ c with activeUploads := uploads }, hconn, ?_⟩
  simp only [Client.sendFile, hconn, hfile, hsize]
  rfl

namespace FileTransfer

def checkGrp (id : Key) : Bool := 3 ≤ id.length ∧ id.take 3 = text "GRP"

/-- What `TransferState` has for the link of an upload. -/
structure Announcement where
  senderId : Key
  receiverId : Key
  uploadId : Key
  fileName : Key
  totalSize : UInt64
  timestamp : Key

/-- What `handleFileStart` records of its packet, at a time, and the `timestamp` that
`handleFileEnd` adds. -/
def Announcement.ofMessage (host : Host) (senderId time timestamp : Key) : Message → Option Announcement
  | .fileStart receiverId uploadId name totalSize _ =>
    if maxFileSize < totalSize.toNat then none
    else
      some
        { senderId
          receiverId := bytesToHex receiverId.toList
          uploadId := bytesToHex uploadId.toList
          fileName := host.sanitize time name
          totalSize
          timestamp }
  | _ => none

/-- The link of an upload.  The server has the function `hexToBytes` of the client. -/
def Announcement.link (lib : Client.Host) (state : Announcement) : Message :=
  .link (Client.hexToBytes lib state.senderId) (Client.hexToBytes lib state.uploadId) state.fileName
    state.totalSize.toUInt32 state.timestamp

/-- The loop of `sendDownloadLinkLoop` for one upload.  There is no result if no packet is left:
the pointer is used all the same. -/
def sendDownloadLink (hw : Bool) (lib : Client.Host) (r : GroupRouter) (state : Announcement) :
    Option GroupRouter :=
  r.store.borrowPacket.bind fun
    | (_, none) => none
    | (store, some p) =>
      let store := store.modifyPacket p fun packet => ((state.link lib).serialize hw packet).2
      if checkGrp state.receiverId then GroupRouter.routeGroupMessage ⟨r.chat, store⟩ p
      else some ⟨r.chat.manageCompletePacket (store.pool p) state.receiverId, store⟩

/-! ## Links -/

/-- **The link has reached the group.**  It is enqueued once for each member but the uploader,
and for nobody else. -/
def Announced (hw : Bool) (link : Message) (members : List UserId) (uploader : UserId)
    (r : GroupRouter) (result : Option GroupRouter) : Prop :=
  ∃ r' links, result = some r' ∧ r'.chat.enqueued = r.chat.enqueued ++ links ∧
    (links.map Prod.fst).Nodup ∧
    (∀ user, user ∈ members ∧ user ≠ uploader ↔ user ∈ links.map Prod.fst) ∧
    ∀ m ∈ links, ∃ h : link.wireSize ≤ dataSize, m.2.Carries hw (link.frame hw h)

section Links

variable {hw : Bool} {lib : Client.Host} {r : GroupRouter} {state : Announcement}
  {members : List UserId} {uploader : UserId}

/-- A digit is not a `G`. -/
theorem hexDigit_ne : ∀ b : UInt8, hexDigit (b >>> 4) ≠ 71 := forall_byte (by decide +kernel)

theorem not_checkGrp_bytesToHex (bytes : List UInt8) : checkGrp (bytesToHex bytes) = false := by
  have htext : text "GRP" = [71, 82, 80] := by decide
  cases bytes with
  | nil => rfl
  | cons b bytes => simp [checkGrp, bytesToHex, htext, hexDigit_ne]

theorem announced_singleton_iff {receiver : UserId} {link : Message} {packet : Packet} {r' : GroupRouter}
    (henqueued : r'.chat.enqueued = r.chat.enqueued ++ [(receiver, packet)])
    (hpacket : (∃ h : link.wireSize ≤ dataSize, packet.Carries hw (link.frame hw h)) ↔
      link.wireSize ≤ dataSize) :
    Announced hw link members uploader r (some r') ↔
      link.wireSize ≤ dataSize ∧ ∀ user, user ∈ members ∧ user ≠ uploader ↔ user = receiver := by
  constructor
  · rintro ⟨_, links, ⟨⟩, hlinks, -, husers, hcarries⟩
    rw [henqueued, List.append_cancel_left_eq] at hlinks
    subst hlinks
    exact ⟨hpacket.mp (hcarries _ (List.mem_singleton_self _)), by simpa using husers⟩
  · rintro ⟨hfits, husers⟩
    refine ⟨r', _, rfl, henqueued, ?_, ?_, ?_⟩
    · simp
    · simpa using husers
    · simpa using hpacket.mpr hfits

/-- **What the link of an upload to anybody comes to.**  The digits that `handleFileStart` has made
of the id are taken for those of a user. -/
theorem announced_sendDownloadLink_iff {receiverId : Uuid}
    (hreceiver : state.receiverId = bytesToHex receiverId.toList) :
    Announced hw (state.link lib) members uploader r (sendDownloadLink hw lib r state) ↔
      (∃ store p, r.store.borrowPacket = some (store, some p)) ∧
        (state.link lib).wireSize ≤ dataSize ∧
        ∀ user, user ∈ members ∧ user ≠ uploader ↔ user = toHex receiverId := by
  have hnone : ¬ Announced hw (state.link lib) members uploader r none := by
    rintro ⟨_, _, ⟨⟩, -⟩
  unfold sendDownloadLink
  rcases hborrow : r.store.borrowPacket with - | ⟨store, - | p⟩
  · simpa using hnone
  · simpa using hnone
  · simp only [Option.bind_some, hreceiver, not_checkGrp_bytesToHex, Bool.false_eq_true, if_false]
    rw [announced_singleton_iff rfl, Client.bytesToHex_toList]
    · simp
    · simp [PacketStore.modifyPacket]
      rcases (state.link lib).serialize_spec hw (store.pool p) with ⟨hfits, -, hcarries⟩ | ⟨hnot, -⟩
      · exact ⟨fun _ => hfits, fun _ => ⟨hfits, hcarries⟩⟩
      · exact ⟨fun hcarries => hcarries.fst, fun hfits => absurd hfits hnot⟩

end Links

/-- **When a file reaches a group.**  The link of an upload that `sendFile` has addressed to a
group is enqueued for the other members of the group if and only if there is just one, and the
id of this user is that of the group. -/
theorem announced_sendFile_iff (hw : Bool) (host lib : Client.Host) (server : Host) (m : Client.Moment)
    (g filepath : Key) (file : Client.File) (totalSize : UInt64) (uploader time timestamp : Key)
    (calls : List GroupCall) (enqueued : List (UserId × Packet)) (store : PacketStore) :
    ∀ state ∈ Announcement.ofMessage server uploader time timestamp
        (Client.startMessage hw host m g filepath file totalSize),
      (Announced hw (state.link lib)
          ((ChatState.afterCalls calls).members (toHex (Client.hexToBytes host g))) uploader
          ⟨⟨(ChatState.afterCalls calls).groups, enqueued⟩, store⟩
          (sendDownloadLink hw lib ⟨⟨(ChatState.afterCalls calls).groups, enqueued⟩, store⟩ state) ↔
        (∃ store' p, store.borrowPacket = some (store', some p)) ∧
          (state.link lib).wireSize ≤ dataSize ∧
          ∀ user,
            user ∈ (ChatState.afterCalls calls).members (toHex (Client.hexToBytes host g)) ∧
                user ≠ uploader ↔
              user = toHex (Client.hexToBytes host g)) := by
  intro state hstate
  have hreceiver : state.receiverId = bytesToHex (Client.hexToBytes host g).toList := by
    simp only [Announcement.ofMessage, Client.startMessage] at hstate
    split at hstate
    · cases hstate
    · cases hstate
      rfl
  exact announced_sendDownloadLink_iff hreceiver

/-! ## A file for two members -/

/-- The first user sends a file to the group `GRP1`. -/
def sampleStart : Message :=
  Client.startMessage false Client.sampleHost ⟨0, .replicate _ 0, []⟩ (text "GRP1") (text "a.txt")
    ⟨some 1, some [65]⟩ 1

/-- The group as the server knows it. -/
def sampleGroup : UserId := toHex (Client.hexToBytes Client.sampleHost (text "GRP1"))

def sampleUploader : UserId := toHex (ChatState.sampleUser 1)

def sampleAnnouncement : Announcement where
  senderId := sampleUploader
  receiverId := sampleGroup
  uploadId := bytesToHex (Client.hexToBytes Client.sampleHost (bytesToHex (List.replicate 16 0))).toList
  fileName := text "a.txt"
  totalSize := 1
  timestamp := text "0"

theorem ofMessage_sampleStart :
    Announcement.ofMessage ⟨id, fun _ => true, id, true⟩ sampleUploader [] (text "0") sampleStart =
      some sampleAnnouncement := by
  rfl

/-- The first user makes the group, and another one joins it. -/
def sampleMembers (other : UserId) : List GroupCall :=
  [.createGroup sampleGroup sampleUploader, .joinGroup sampleGroup other]

theorem members_sampleMembers {other : UserId} (h : other ≠ sampleUploader) :
    (ChatState.afterCalls (sampleMembers other)).members sampleGroup = [sampleUploader, other] := by
  simp [ChatState.afterCalls, sampleMembers, ChatState.call, ChatState.createGroup,
    ChatState.joinGroup, ChatState.members, ChatGroup.addMember, ChatGroup.isMember, h]

theorem wireSize_sampleAnnouncement :
    (sampleAnnouncement.link Client.sampleHost).wireSize ≤ dataSize := by
  decide

/-- A user whose id is that of the group has the link. -/
theorem announced_sampleGroup :
    Announced false (sampleAnnouncement.link Client.sampleHost)
      ((ChatState.afterCalls (sampleMembers sampleGroup)).members sampleGroup) sampleUploader
      ⟨⟨(ChatState.afterCalls (sampleMembers sampleGroup)).groups, []⟩, .new⟩
      (sendDownloadLink false Client.sampleHost
        ⟨⟨(ChatState.afterCalls (sampleMembers sampleGroup)).groups, []⟩, .new⟩ sampleAnnouncement) := by
  have hne : sampleGroup ≠ sampleUploader := by decide
  refine (announced_sendFile_iff false Client.sampleHost Client.sampleHost ⟨id, fun _ => true, id, true⟩
    ⟨0, .replicate _ 0, []⟩ (text "GRP1") (text "a.txt") ⟨some 1, some [65]⟩ 1 sampleUploader []
    (text "0") (sampleMembers sampleGroup) [] .new sampleAnnouncement ofMessage_sampleStart).mpr ?_
  refine ⟨⟨_, _, PacketStore.borrowPacket_new⟩, wireSize_sampleAnnouncement, ?_⟩
  intro user
  change user ∈ (ChatState.afterCalls (sampleMembers sampleGroup)).members sampleGroup ∧ _ ↔
    user = sampleGroup
  rw [members_sampleMembers hne]
  constructor
  · rintro ⟨hmem, huser⟩
    simpa [huser] using hmem
  · rintro rfl
    exact ⟨by simp, hne⟩

/-- The second user has joined the group, and does not get the link. -/
theorem not_announced_sampleUser :
    Announcement.ofMessage ⟨id, fun _ => true, id, true⟩ sampleUploader [] (text "0") sampleStart =
        some sampleAnnouncement ∧
      toHex (ChatState.sampleUser 2) ∈
        (ChatState.afterCalls (sampleMembers (toHex (ChatState.sampleUser 2)))).members sampleGroup ∧
      ¬ Announced false (sampleAnnouncement.link Client.sampleHost)
        ((ChatState.afterCalls (sampleMembers (toHex (ChatState.sampleUser 2)))).members sampleGroup)
        sampleUploader
        ⟨⟨(ChatState.afterCalls (sampleMembers (toHex (ChatState.sampleUser 2)))).groups, []⟩, .new⟩
        (sendDownloadLink false Client.sampleHost
          ⟨⟨(ChatState.afterCalls (sampleMembers (toHex (ChatState.sampleUser 2)))).groups, []⟩, .new⟩
          sampleAnnouncement) := by
  have hne : toHex (ChatState.sampleUser 2) ≠ sampleUploader := by decide
  have hmembers := members_sampleMembers hne
  refine ⟨ofMessage_sampleStart, by simp [hmembers], ?_⟩
  have hreceiver : sampleAnnouncement.receiverId =
      bytesToHex (Client.hexToBytes Client.sampleHost (text "GRP1")).toList := by decide
  rw [announced_sendDownloadLink_iff hreceiver, hmembers]
  rintro ⟨-, -, husers⟩
  have huser := (husers (toHex (ChatState.sampleUser 2))).mp ⟨by simp, hne⟩
  exact absurd huser (by decide)

end FileTransfer

end IocpChat

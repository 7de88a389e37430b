import IocpChat.Network.Connections
import IocpChat.Pool.FreeList
import IocpChat.Protocol.Structs

/-!
# Who a message is from

A client writes its own id into the payload of its chat and group packets.  The session it
sends them on has the id it has authenticated itself with.  `handlePacket` checks that the
session is authenticated, and then goes by the id in the payload: messages are passed on with
it, and it is the one that creates, joins or leaves a group.

Here the packets have their contents, and it is recorded which packets were handed to
`ManageCompletePacket`, and for whom.  A received packet comes from the pool, so it is zero
behind the payload.

## Main definitions

* `ChatState`, `ChatState.handlePacket` — the groups and the messages.
* `ChatState.Authentic` — nothing is done in the name of another user.
* `ChatState.Genuine` — the packet does nothing in the name of another user.
-/

namespace IocpChat

open Bytes

/-! ## Packets -/

inductive ChatKind
  | privateMessage
  | groupMessage
  | createGroup
  | joinGroup
  | leaveGroup
  deriving DecidableEq

def ChatKind.type : ChatKind → PacketType
  | .privateMessage => .pktPrivateMessage
  | .groupMessage => .pktGroupMessage
  | .createGroup => .pktCreateGroup
  | .joinGroup => .pktJoinGroup
  | .leaveGroup => .pktLeaveGroup

/-- A packet that was received: it fits, and there is nothing behind its payload. -/
structure ChatPacket where
  kind : ChatKind
  packet : Packet
  type_eq : packet.header.type = kind.type.code
  fits : headerSize + packet.header.payloadLength.toNat ≤ dataSize
  clean : packet.data.toList.drop (headerSize + packet.header.payloadLength.toNat) =
    List.replicate (dataSize - (headerSize + packet.header.payloadLength.toNat)) 0

/-- `getPayload<ChatMessagePayload>()`. -/
def Packet.chatPayload (p : Packet) : ChatMessagePayload :=
  ChatMessagePayload.codec.decode (p.data.toList.drop headerSize)

/-- `payload->sender_id`. -/
def Packet.senderId (p : Packet) : AccountId := p.chatPayload.senderId

/-- `payload->receiver_id`. -/
def Packet.receiverId (p : Packet) : AccountId := p.chatPayload.receiverId

/-! ## The groups and the messages -/

/-- A group, which has no member twice. -/
structure ChatGroup where
  adminId : UserId
  members : List UserId
  nodup : members.Nodup

namespace ChatGroup

def isMember (g : ChatGroup) (userId : UserId) : Bool := g.members.contains userId

theorem nodup_append_of_not_isMember {g : ChatGroup} {userId : UserId}
    (h : ¬ g.isMember userId = true) : (g.members ++ [userId]).Nodup := by
  rw [isMember, List.contains_iff_mem] at h
  rw [List.nodup_append_comm]
  exact List.nodup_cons.mpr ⟨h, g.nodup⟩

def addMember (g : ChatGroup) (userId : UserId) : ChatGroup :=
  if h : g.isMember userId = true then g
  else { g with members := g.members ++ [userId], nodup := nodup_append_of_not_isMember h }

@[simp] theorem adminId_addMember (g : ChatGroup) (userId : UserId) :
    (g.addMember userId).adminId = g.adminId := by
  unfold addMember
  split <;> rfl

@[simp] theorem mem_addMember (g : ChatGroup) (userId u : UserId) :
    u ∈ (g.addMember userId).members ↔ u ∈ g.members ∨ u = userId := by
  by_cases h : g.isMember userId = true
  · have hmem : userId ∈ g.members := List.contains_iff_mem.mp h
    rw [addMember, dif_pos h, or_iff_left_of_imp]
    rintro rfl
    exact hmem
  · rw [addMember, dif_neg h, List.mem_append, List.mem_singleton]

def removeMember (g : ChatGroup) (userId : UserId) : ChatGroup :=
  { g with members := g.members.erase userId, nodup := g.nodup.erase userId }

end ChatGroup

/-- The groups, and the packets that were handed to `ManageCompletePacket`. -/
structure ChatState where
  groups : UserId → Option ChatGroup
  enqueued : List (UserId × Packet)

namespace ChatState

def createGroup (c : ChatState) (groupId adminId : UserId) : ChatState :=
  match c.groups groupId with
  | some _ => c
  | none =>
    { c with
      groups := Function.update c.groups groupId (some (ChatGroup.addMember ⟨adminId, [], .nil⟩ adminId)) }

def joinGroup (c : ChatState) (groupId userId : UserId) : ChatState :=
  match c.groups groupId with
  | none => c
  | some g =>
    if g.isMember userId then c
    else { c with groups := Function.update c.groups groupId (some (g.addMember userId)) }

def leaveGroup (c : ChatState) (groupId userId : UserId) : ChatState :=
  match c.groups groupId with
  | none => c
  | some g =>
    if g.isMember userId then
      { c with
        groups := Function.update c.groups groupId
          (if (g.removeMember userId).members = [] then none else some (g.removeMember userId)) }
    else c

def manageCompletePacket (c : ChatState) (p : Packet) (recvId : UserId) : ChatState :=
  { c with enqueued := c.enqueued ++ [(recvId, p)] }

/-- The copy of a packet for a member, in a packet of the pool. -/
def outgoing (p : Packet) (id : PacketPtr) : Packet :=
  let size := p.header.payloadLength.toNat + headerSize
  { (Packet.initial id).copyIn 0 (p.data.toList.take size) with header := p.header, inPointer := size }

/-- The loop of `routeGroupMessage`, with the packets that can be borrowed. -/
def fanOut (c : ChatState) (p : Packet) (sendId : UserId) : List UserId → List PacketPtr → ChatState
  | [], _ => c
  | memberId :: members, pool =>
    if memberId = sendId then c.fanOut p sendId members pool
    else
      match pool with
      | [] => c
      | id :: pool => (c.manageCompletePacket (outgoing p id) memberId).fanOut p sendId members pool

def routeGroupMessage (c : ChatState) (pool : List PacketPtr) (p : Packet) : ChatState :=
  match c.groups (toHex p.receiverId) with
  | none => c
  | some g => c.fanOut p (toHex p.senderId) g.members pool

/-- The cases of `handlePacket`. -/
def route (c : ChatState) (pool : List PacketPtr) (p : Packet) : ChatKind → ChatState
  | .privateMessage => c.manageCompletePacket p (toHex p.receiverId)
  | .groupMessage => c.routeGroupMessage pool p
  | .createGroup => c.createGroup (toHex p.receiverId) (toHex p.senderId)
  | .joinGroup => c.joinGroup (toHex p.receiverId) (toHex p.senderId)
  | .leaveGroup => c.leaveGroup (toHex p.receiverId) (toHex p.senderId)

/-- `MessageRouter::handlePacket` for these packets.  A session that is not authenticated is
sent an error past the queues. -/
def handlePacket (c : ChatState) (pool : List PacketPtr) (now : UInt64) (s : Session)
    (p : ChatPacket) : ChatState :=
  if validateSessionHotPath now s then c.route pool p.packet p.kind else c

/-! ## Acting for oneself -/

/-- The members of a group, of which there are none if it does not exist. -/
def members (c : ChatState) (groupId : UserId) : List UserId :=
  ((c.groups groupId).map ChatGroup.members).getD []

/-- **Nothing is done in the name of another user.**  Messages for others are from the user,
the others are members of the groups they were members of, and a group keeps its admin, or is
new and has the user as its admin. -/
structure Authentic (user : AccountId) (c c' : ChatState) : Prop where
  enqueued : ∀ m ∈ c'.enqueued.drop c.enqueued.length, m.1 ≠ toHex user → m.2.senderId = user
  members : ∀ groupId u, u ≠ toHex user → (u ∈ c'.members groupId ↔ u ∈ c.members groupId)
  admin : ∀ groupId g, c'.groups groupId = some g →
    g.adminId = ((c.groups groupId).map ChatGroup.adminId).getD (toHex user)

/-- The packet is from the user, or it does nothing that others could notice. -/
def Genuine (c : ChatState) (pool : List PacketPtr) (user : AccountId) (p : Packet)
    (kind : ChatKind) : Prop :=
  p.senderId = user ∨
    match kind with
    | .privateMessage => p.receiverId = user
    | .groupMessage =>
      ∀ u ∈ ((c.members (toHex p.receiverId)).filter (· ≠ toHex p.senderId)).take pool.length,
        u = toHex user
    | .createGroup => c.groups (toHex p.receiverId) ≠ none
    | .joinGroup =>
      c.groups (toHex p.receiverId) = none ∨ toHex p.senderId ∈ c.members (toHex p.receiverId)
    | .leaveGroup => toHex p.senderId ∉ c.members (toHex p.receiverId)

/-! ## Messages -/

section Messages

variable {user : AccountId} {c c' : ChatState} {p : Packet}

theorem Authentic.refl (user : AccountId) (c : ChatState) : Authentic user c c := by
  constructor
  · simp
  · intro groupId u _
    rfl
  · intro groupId g hg
    simp [hg]

theorem authentic_of_groups_eq {messages : List (UserId × Packet)} (hgroups : c'.groups = c.groups)
    (henqueued : c'.enqueued = c.enqueued ++ messages) :
    Authentic user c c' ↔ ∀ m ∈ messages, m.1 ≠ toHex user → m.2.senderId = user := by
  have hnew : c'.enqueued.drop c.enqueued.length = messages := by
    rw [henqueued, List.drop_left]
  constructor
  · intro h
    simpa only [hnew] using h.enqueued
  · intro h
    refine ⟨by simpa only [hnew] using h, ?_, ?_⟩
    · intro groupId u _
      rw [members, members, hgroups]
    · intro groupId g hg
      rw [hgroups] at hg
      simp [hg]

theorem data_outgoing (p : Packet) (id : PacketPtr) :
    (outgoing p id).data.toList = overwrite (List.replicate dataSize 0) 0
      (p.data.toList.take (p.header.payloadLength.toNat + headerSize)) := by
  have hzero : (Packet.initial id).data.toList = List.replicate dataSize 0 := rfl
  have hcopy : (outgoing p id).data = ((Packet.initial id).copyIn 0
      (p.data.toList.take (p.header.payloadLength.toNat + headerSize))).data := rfl
  rw [hcopy, Packet.data_copyIn, hzero]

theorem senderId_outgoing (p : ChatPacket) (id : PacketPtr) :
    (outgoing p.packet id).senderId = p.packet.senderId := by
  have hfits := p.fits
  have hclean := p.clean
  rw [Nat.add_comm] at hfits hclean
  have hlength : (p.packet.data.toList.take (p.packet.header.payloadLength.toNat + headerSize)).length =
      p.packet.header.payloadLength.toNat + headerSize := by
    rw [List.length_take, p.packet.length_data, Nat.min_eq_left hfits]
  have hdata : (outgoing p.packet id).data.toList = p.packet.data.toList := by
    rw [data_outgoing, overwrite_eq_append _ _ _ (by simp [hlength, hfits]), hlength, List.take_zero,
      List.nil_append, Nat.zero_add, List.drop_replicate, ← hclean, List.take_append_drop]
  rw [Packet.senderId, Packet.senderId, Packet.chatPayload, Packet.chatPayload, hdata]

theorem fanOut_spec (p : Packet) (sendId : UserId) (members : List UserId) (pool : List PacketPtr) :
    (c.fanOut p sendId members pool).groups = c.groups ∧
      (c.fanOut p sendId members pool).enqueued = c.enqueued ++
        ((members.filter (· ≠ sendId)).zip pool).map fun m => (m.1, outgoing p m.2) := by
  induction members generalizing c pool with
  | nil => simp [fanOut]
  | cons memberId members ih =>
    by_cases hsend : memberId = sendId
    · simpa [fanOut, hsend] using ih pool
    · cases pool with
      | nil => simp [fanOut, hsend]
      | cons id pool =>
        obtain ⟨hgroups, henqueued⟩ := ih (c := c.manageCompletePacket (outgoing p id) memberId) pool
        simp only [fanOut, if_neg hsend, hgroups, henqueued]
        simp [manageCompletePacket, hsend]

theorem map_fst_zip {α β : Type} (as : List α) (bs : List β) :
    (as.zip bs).map Prod.fst = as.take bs.length := by
  induction as generalizing bs with
  | nil => simp
  | cons a as ih =>
    cases bs with
    | nil => rfl
    | cons b bs => simp [ih]

theorem authentic_privateMessage :
    Authentic user c (c.manageCompletePacket p (toHex p.receiverId)) ↔
      p.senderId = user ∨ p.receiverId = user := by
  have hgroups : (c.manageCompletePacket p (toHex p.receiverId)).groups = c.groups := rfl
  have henqueued : (c.manageCompletePacket p (toHex p.receiverId)).enqueued =
      c.enqueued ++ [(toHex p.receiverId, p)] := rfl
  rw [authentic_of_groups_eq hgroups henqueued, List.forall_mem_singleton, toHex_injective.ne_iff]
  tauto

theorem authentic_groupMessage (p : ChatPacket) (pool : List PacketPtr) :
    Authentic user c (c.routeGroupMessage pool p.packet) ↔
      Genuine c pool user p.packet .groupMessage := by
  unfold Genuine routeGroupMessage members
  cases hgroup : c.groups (toHex p.packet.receiverId) with
  | none => simp [Authentic.refl]
  | some g =>
    obtain ⟨hgroups, henqueued⟩ := fanOut_spec (c := c) p.packet (toHex p.packet.senderId) g.members pool
    rw [authentic_of_groups_eq hgroups henqueued]
    rw [Option.map_some, Option.getD_some, ← map_fst_zip]
    simp only [List.forall_mem_map, senderId_outgoing]
    by_cases hsender : p.packet.senderId = user
    · simp [hsender]
    · simp only [hsender, false_or, imp_false, not_not]

end Messages

/-! ## Groups -/

section Groups

variable {user : AccountId} {c : ChatState} {groupId userId : UserId} {g : ChatGroup}

def setGroup (c : ChatState) (groupId : UserId) (g : Option ChatGroup) : ChatState :=
  { c with groups := Function.update c.groups groupId g }

/-- Where one group changes, its other members and its admin have to be as they were. -/
theorem authentic_setGroup {g' : Option ChatGroup} :
    Authentic user c (c.setGroup groupId g') ↔
      (∀ u, u ≠ toHex user → (u ∈ (g'.map ChatGroup.members).getD [] ↔ u ∈ c.members groupId)) ∧
        ∀ g ∈ g', g.adminId = ((c.groups groupId).map ChatGroup.adminId).getD (toHex user) := by
  constructor
  · intro h
    constructor
    · intro u hu
      simpa [members, setGroup] using h.members groupId u hu
    · intro g hg
      exact h.admin groupId g (by simpa [setGroup] using hg)
  · rintro ⟨hmembers, hadmin⟩
    refine ⟨by simp [setGroup], ?_, ?_⟩
    · intro groupId' u hu
      by_cases heq : groupId' = groupId
      · subst heq
        simpa [members, setGroup] using hmembers u hu
      · simp [members, setGroup, heq]
    · intro groupId' g hg
      by_cases heq : groupId' = groupId
      · subst heq
        exact hadmin g (by simpa [setGroup] using hg)
      · have hg' : c.groups groupId' = some g := by simpa [setGroup, heq] using hg
        simp [hg']

theorem authentic_createGroup (h : c.groups groupId = none) :
    Authentic user c (c.createGroup groupId userId) ↔ userId = toHex user := by
  have hset : c.createGroup groupId userId =
      c.setGroup groupId (some (ChatGroup.addMember ⟨userId, [], .nil⟩ userId)) := by
    simp [createGroup, h, setGroup]
  rw [hset, authentic_setGroup]
  simp only [members, h]
  constructor
  · rintro ⟨-, hadmin⟩
    simpa using hadmin
  · rintro rfl
    simp

theorem authentic_joinGroup (h : c.groups groupId = some g) (hmember : userId ∉ g.members) :
    Authentic user c (c.joinGroup groupId userId) ↔ userId = toHex user := by
  have hset : c.joinGroup groupId userId = c.setGroup groupId (some (g.addMember userId)) := by
    simp [joinGroup, h, setGroup, ChatGroup.isMember, hmember]
  rw [hset, authentic_setGroup]
  simp only [members, h]
  constructor
  · rintro ⟨hmembers, -⟩
    by_contra hne
    exact hmember (by simpa using hmembers userId hne)
  · rintro rfl
    refine ⟨?_, by simp⟩
    intro u hu
    simp [hu]

theorem authentic_leaveGroup (h : c.groups groupId = some g) (hmember : userId ∈ g.members) :
    Authentic user c (c.leaveGroup groupId userId) ↔ userId = toHex user := by
  have hset : c.leaveGroup groupId userId = c.setGroup groupId
      (if (g.removeMember userId).members = [] then none else some (g.removeMember userId)) := by
    simp [leaveGroup, h, setGroup, ChatGroup.isMember, hmember]
  -- the group has the members that are left, also if it is removed
  have hleft : ((if (g.removeMember userId).members = [] then none
      else some (g.removeMember userId)).map ChatGroup.members).getD [] = g.members.erase userId := by
    split
    · rename_i hempty
      exact hempty.symm
    · rfl
  rw [hset, authentic_setGroup, hleft]
  simp only [members, h, Option.map_some, Option.getD_some]
  constructor
  · rintro ⟨hmembers, -⟩
    by_contra hne
    exact g.nodup.not_mem_erase ((hmembers userId hne).mpr hmember)
  · rintro rfl
    constructor
    · intro u hu
      exact List.mem_erase_of_ne hu
    · intro g' hg'
      split at hg'
      · cases hg'
      · cases hg'
        rfl

end Groups

/-- **When nobody is impersonated.**  A packet of an authenticated session does nothing in the
name of another user if and only if its sender is the user of the session, or nobody else is
concerned. -/
theorem authentic_handlePacket_iff (c : ChatState) (pool : List PacketPtr) (now : UInt64)
    (s : Session) (p : ChatPacket) (hvalid : validateSessionHotPath now s = true) :
    Authentic s.cachedUserId c (c.handlePacket pool now s p) ↔
      c.Genuine pool s.cachedUserId p.packet p.kind := by
  rw [handlePacket, if_pos hvalid]
  have hsender : toHex p.packet.senderId = toHex s.cachedUserId ↔ p.packet.senderId = s.cachedUserId :=
    toHex_injective.eq_iff
  cases hkind : p.kind with
  | privateMessage => exact authentic_privateMessage
  | groupMessage => exact authentic_groupMessage p pool
  | createGroup =>
    simp only [route, Genuine]
    cases hgroup : c.groups (toHex p.packet.receiverId) with
    | none => simp [authentic_createGroup hgroup, hsender]
    | some g => simp [createGroup, hgroup, Authentic.refl]
  | joinGroup =>
    simp only [route, Genuine, members]
    cases hgroup : c.groups (toHex p.packet.receiverId) with
    | none => simp [joinGroup, hgroup, Authentic.refl]
    | some g =>
      by_cases hmember : toHex p.packet.senderId ∈ g.members
      · simp [joinGroup, hgroup, ChatGroup.isMember, hmember, Authentic.refl]
      · simp [authentic_joinGroup hgroup hmember, hsender, hmember]
  | leaveGroup =>
    simp only [route, Genuine, members]
    cases hgroup : c.groups (toHex p.packet.receiverId) with
    | none => simp [leaveGroup, hgroup, Authentic.refl]
    | some g =>
      by_cases hmember : toHex p.packet.senderId ∈ g.members
      · simp [authentic_leaveGroup hgroup hmember, hsender, hmember]
      · simp [leaveGroup, hgroup, ChatGroup.isMember, hmember, Authentic.refl]

/-! ## A message in the name of another -/

/-- A packet with this payload, and nothing behind it. -/
def packetOf (kind : ChatKind) (payload : ChatMessagePayload) : ChatPacket where
  kind := kind
  packet :=
    { Packet.initial 0 with
      header := { PacketHeader.zero with type := kind.type.code, payloadLength := 48 }
      data := ⟨List.replicate headerSize 0 ++ ChatMessagePayload.codec.encode payload ++
        List.replicate (dataSize - 64) 0, by
          simp [Codec.length_encode]
          rfl⟩ }
  type_eq := rfl
  fits := show headerSize + 48 ≤ dataSize by decide
  clean := List.drop_left' (by simp [Codec.length_encode])

theorem chatPayload_packetOf (kind : ChatKind) (payload : ChatMessagePayload) :
    (packetOf kind payload).packet.chatPayload = payload := by
  have hdrop : (packetOf kind payload).packet.data.toList.drop headerSize =
      ChatMessagePayload.codec.encode payload ++ List.replicate (dataSize - 64) 0 := by
    simp only [packetOf, List.Vector.toList_mk, List.append_assoc]
    exact List.drop_left' (by simp)
  rw [Packet.chatPayload, hdrop, ChatMessagePayload.codec.decode_encode]

/-- A user whose id is this byte, sixteen times. -/
def sampleUser (b : UInt8) : AccountId := .replicate 16 b

def sampleSession : Session := ⟨toHex (sampleUser 1), 4, true, .authenticated, sampleUser 1, 100⟩

/-- A message to the third user. -/
def sampleMessage (sender : UInt8) : ChatPacket :=
  packetOf .privateMessage ⟨sampleUser sender, sampleUser 3, 0, 0, 0, 0⟩

theorem senderId_sampleMessage (sender : UInt8) :
    (sampleMessage sender).packet.senderId = sampleUser sender ∧
      (sampleMessage sender).packet.receiverId = sampleUser 3 := by
  simp only [Packet.senderId, Packet.receiverId, sampleMessage, chatPayload_packetOf, and_self]

theorem authentic_sampleMessage :
    validateSessionHotPath 0 sampleSession = true ∧
      Authentic (sampleUser 1) ⟨fun _ => none, []⟩
        (handlePacket ⟨fun _ => none, []⟩ [] 0 sampleSession (sampleMessage 1)) := by
  have hvalid : validateSessionHotPath 0 sampleSession = true := by decide
  refine ⟨hvalid, ?_⟩
  apply (authentic_handlePacket_iff _ [] 0 sampleSession (sampleMessage 1) hvalid).mpr
  exact .inl (senderId_sampleMessage 1).1

/-- The first user sends the third a message from the second. -/
theorem not_authentic_sampleMessage :
    validateSessionHotPath 0 sampleSession = true ∧
      ¬ Authentic (sampleUser 1) ⟨fun _ => none, []⟩
        (handlePacket ⟨fun _ => none, []⟩ [] 0 sampleSession (sampleMessage 2)) := by
  have hvalid : validateSessionHotPath 0 sampleSession = true := by decide
  refine ⟨hvalid, ?_⟩
  obtain ⟨hsender, hreceiver⟩ := senderId_sampleMessage 2
  rw [handlePacket, if_pos hvalid]
  intro h
  rcases authentic_privateMessage.mp h with heq | heq
  · rw [hsender] at heq
    exact absurd heq (by decide)
  · rw [hreceiver] at heq
    exact absurd heq (by decide)

end ChatState

end IocpChat

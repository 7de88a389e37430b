import IocpChat.Chat.Dispatch
import IocpChat.Chat.Senders

/-!
# The models of the router

`handlePacket` is there for what it reads (`Handlers`), for the session it goes on with
(`Connections`), for the users it acts for (`Senders`) and for the packets it moves (`Dispatch`).  A
packet means the same to all of them: what is read decides where the session goes, the ids that are
read are those that `ChatState` goes by, and the groups of `Hub` have the same members.

## Main definitions

* `Request.handling` — where a worker goes with the session.
* `ChatKind.request` — what is taken out of a chat packet.
* `Hub.SameGroups` — the groups have the same members.
-/

namespace IocpChat

open Bytes ReadLog

/-- Where a worker goes with a packet of this type, by what is taken out of it. -/
def Request.handling (s : SessionPtr) (tempId : UserId) (packets : Packets) (type : PacketType) :
    Request → Handling
  | .login .. | .token _ | .refresh _ | .badTokenSize => .authenticate s type tempId packets
  | .logout => .logout s packets
  | _ => .dispatch s packets

/-- **The session goes where the request says**, whatever else is in the packet. -/
theorem handling_handlePacket (c : Connections) (now : UInt64) (s : SessionPtr) (packets : Packets)
    {hdr : PacketHeader} {type : PacketType} (htype : PacketType.ofCode hdr.type = some type)
    (mem : ℕ → UInt8) :
    (val (handlePacket (validateSessionHotPath now (c.sessionManager.pool s)) hdr) mem).handling s
        (c.sessionManager.pool s).userId packets type =
      c.handlePacket now s packets (some type) := by
  rw [handlePacket, htype, Connections.handlePacket.eq_def]
  cases type with
  | pktToken | pktRefresh =>
    simp [bypassAuth, handleTokenPacket, handleRefreshPacket, readToken]
    split <;> rfl
  | fileDwnldDisconnectRequest =>
    cases validateSessionHotPath now (c.sessionManager.pool s)
    · rfl
    · simp [bypassAuth, handleDisconnectRequest]
      split <;> rfl
  | _ => cases validateSessionHotPath now (c.sessionManager.pool s) <;> rfl
/-- What is taken out of a chat packet. -/
def ChatKind.request (receiverId senderId : AccountId) : ChatKind → Request
  | .privateMessage => .privateMessage receiverId
  | .groupMessage => .groupMessage receiverId senderId
  | .createGroup => .createGroup receiverId senderId
  | .joinGroup => .joinGroup receiverId senderId
  | .leaveGroup => .leaveGroup receiverId senderId

/-- An id that lies in the packet is read from its bytes. -/
theorem fieldAt_memory (p : Packet) (beyond : ℕ → UInt8) {off : ℕ}
    (hoff : headerSize + off + 16 ≤ dataSize) :
    fieldAt uuid (p.memory beyond) off =
      uuid.decode ((p.data.toList.drop headerSize).drop off) := by
  rw [fieldAt, ← uuid.decode_take ((p.data.toList.drop headerSize).drop off)]
  congr 1
  apply List.ext_getElem
  · simp [cells]
    omega
  · intro i hi hi'
    have hlt : headerSize + off + i < p.data.toList.length := by
      simp [cells] at hi
      rw [Packet.length_data]
      omega
    simp [cells, Packet.memory, List.getElem?_eq_getElem hlt]

/-- The ids that are read from a chat packet are those in its payload. -/
theorem val_handlePacket (p : ChatPacket) (beyond : ℕ → UInt8) :
    val (handlePacket true p.packet.header) (p.packet.memory beyond) =
      p.kind.request p.packet.receiverId p.packet.senderId := by
  have hreceiver : fieldAt uuid (p.packet.memory beyond) 16 = p.packet.receiverId :=
    fieldAt_memory p.packet beyond (by decide)
  have hsender : fieldAt uuid (p.packet.memory beyond) 0 = p.packet.senderId :=
    fieldAt_memory p.packet beyond (by decide)
  rw [handlePacket, p.type_eq, ← hreceiver, ← hsender]
  cases p.kind <;> rfl

/-- A chat packet, as the dispatch sees it. -/
def ChatPacket.arrival (p : ChatPacket) : Arrival :=
  ⟨true, p.packet.header.type, p.packet.header.payloadLength, p.packet.receiverId,
    p.packet.senderId, p.fits⟩

namespace Hub

/-- The groups have the same members. -/
def SameGroups (h : Hub) (c : ChatState) : Prop :=
  h.groups = Option.map ChatGroup.members ∘ c.groups

variable {h h' : Hub} {c : ChatState} {env : Outside}

theorem groups_borrowPacket {r : Hub × Option PacketPtr} (hborrow : h.borrowPacket = some r) :
    r.1.groups = h.groups := by
  obtain ⟨_, -, rfl⟩ := Option.map_eq_some_iff.mp hborrow
  rfl

theorem groups_initiateSend (socket : Socket) (p : PacketPtr) :
    (h.initiateSend socket p).1.groups = h.groups := by
  unfold initiateSend
  split <;> rfl

theorem groups_sendResponse {socket : Socket} (hsend : h.sendResponse socket = some h') :
    h'.groups = h.groups := by
  obtain ⟨⟨h₁, response⟩, hborrow, rfl⟩ := Option.map_eq_some_iff.mp hsend
  have hgroups : h₁.groups = h.groups := groups_borrowPacket hborrow
  cases response with
  | none => exact hgroups
  | some response =>
    simp only
    split <;> exact (groups_initiateSend socket response).trans hgroups

theorem groups_routePacket (p : PacketPtr) (u : UserId) :
    (h.routePacket env p u).1.groups = h.groups := by
  unfold routePacket
  split
  · rfl
  · split
    · rfl
    · exact groups_initiateSend _ p

theorem groups_manageCompletePacket (p : PacketPtr) (u : UserId) :
    (h.manageCompletePacket env p u).groups = h.groups := by
  simp only [manageCompletePacket, sendFront]
  split
  · rfl
  · split
    · rfl
    · split <;> exact groups_routePacket _ u

theorem groups_fanOut {senderId : UserId} {members : List UserId} {completed : Bool}
    (hfan : h.fanOut env senderId members = some (h', completed)) : h'.groups = h.groups := by
  induction members generalizing h with
  | nil =>
    cases hfan
    rfl
  | cons memberId members ih =>
    simp only [fanOut] at hfan
    split at hfan
    · exact ih hfan
    · cases hborrow : h.borrowPacket with
      | none => simp [hborrow] at hfan
      | some r =>
        have hgroups := groups_borrowPacket hborrow
        obtain ⟨h₁, _ | outgoing⟩ := r
        · simp only [hborrow] at hfan
          cases hfan
          exact hgroups
        · simp only [hborrow] at hfan
          rw [ih hfan, groups_manageCompletePacket, hgroups]

theorem groups_routeGroupMessage {p : PacketPtr} {r : Arrival}
    (hroute : h.routeGroupMessage env p r = some h') : h'.groups = h.groups := by
  unfold routeGroupMessage at hroute
  split at hroute
  · cases hroute
    rfl
  · obtain ⟨⟨h₁, completed⟩, hfan, rfl⟩ := Option.map_eq_some_iff.mp hroute
    have hgroups := groups_fanOut hfan
    cases completed <;> exact hgroups

section Groups

variable (hsame : h.SameGroups c) (groupId userId : UserId)
include hsame

theorem SameGroups.update (g : Option ChatGroup) :
    Function.update h.groups groupId (g.map ChatGroup.members) =
      Option.map ChatGroup.members ∘ Function.update c.groups groupId g := by
  rw [hsame, Function.comp_update]

theorem SameGroups.eq : h.groups groupId = (c.groups groupId).map ChatGroup.members :=
  congrFun hsame groupId

theorem SameGroups.createGroup :
    (h.createGroup groupId userId).SameGroups (c.createGroup groupId userId) := by
  simp only [Hub.createGroup, ChatState.createGroup, hsame.eq]
  cases c.groups groupId with
  | some g => exact hsame
  | none => exact hsame.update groupId (some (ChatGroup.addMember ⟨userId, [], .nil⟩ userId))

theorem SameGroups.joinGroup :
    (h.joinGroup groupId userId).SameGroups (c.joinGroup groupId userId) := by
  simp only [Hub.joinGroup, ChatState.joinGroup, hsame.eq, ChatGroup.isMember, List.contains_iff_mem]
  cases c.groups groupId with
  | none => exact hsame
  | some g =>
    by_cases hmember : userId ∈ g.members
    · simpa [hmember]
    · have hadded : (g.addMember userId).members = g.members ++ [userId] := by
        simp [ChatGroup.addMember, ChatGroup.isMember, hmember]
      simp [hmember, ← hadded]
      exact hsame.update groupId (some _)

theorem SameGroups.leaveGroup :
    (h.leaveGroup groupId userId).SameGroups (c.leaveGroup groupId userId) := by
  simp only [Hub.leaveGroup, ChatState.leaveGroup, hsame.eq, ChatGroup.isMember,
    List.contains_iff_mem]
  cases c.groups groupId with
  | none => exact hsame
  | some g =>
    by_cases hmember : userId ∈ g.members
    · have hleft := hsame.update groupId
        (if (g.removeMember userId).members = [] then none else some (g.removeMember userId))
      rw [apply_ite (Option.map ChatGroup.members)] at hleft
      simp only [Option.map_some, hmember, if_true]
      exact hleft
    · simpa [hmember]

/-- **The groups change alike**, whichever packets are borrowed. -/
theorem SameGroups.handlePacket {ctx : Context} {s : Session} {now : UInt64} {packet : PacketPtr}
    {p : ChatPacket} (pool : List PacketPtr) (hvalid : ctx.valid = validateSessionHotPath now s)
    (hdispatch : h.handlePacket ctx packet p.arrival = some h') :
    h'.SameGroups (c.handlePacket pool now s p) := by
  have htype : PacketType.ofCode p.arrival.type = some p.kind.type := by
    rw [ChatPacket.arrival, p.type_eq]
    cases p.kind <;> rfl
  have hbypass : bypassAuth p.kind.type = false := by cases p.kind <;> rfl
  rw [Hub.handlePacket, refuses, htype, Option.any_some, hbypass, hvalid] at hdispatch
  rw [ChatState.handlePacket]
  cases hsession : validateSessionHotPath now s with
  | false =>
    rw [hsession] at hdispatch
    obtain ⟨h₁, hsend, rfl⟩ := Option.map_eq_some_iff.mp hdispatch
    split at hsend
    · exact (groups_sendResponse hsend).trans hsame
    · cases hsend
      exact hsame
  | true =>
    rw [hsession] at hdispatch
    rw [if_pos rfl]
    revert hdispatch
    cases p.kind with
    | privateMessage =>
      rintro ⟨⟩
      exact (groups_manageCompletePacket _ _).trans hsame
    | groupMessage =>
      intro hdispatch
      have hkept : (c.routeGroupMessage pool p.packet).groups = c.groups := by
        unfold ChatState.routeGroupMessage
        split
        · rfl
        · exact (ChatState.fanOut_spec ..).1
      refine (groups_routeGroupMessage hdispatch).trans (hsame.trans ?_)
      rw [ChatState.route, hkept]
    | createGroup =>
      rintro ⟨⟩
      exact hsame.createGroup _ _
    | joinGroup =>
      rintro ⟨⟩
      exact hsame.joinGroup _ _
    | leaveGroup =>
      rintro ⟨⟩
      exact hsame.leaveGroup _ _

end Groups

end Hub

end IocpChat

import IocpChat.Chat.Senders

/-!
# A message to a group

`routeGroupMessage` borrows a packet for each member of the group but the sender, copies the
message into it and hands it to `ManageCompletePacket`.  At the end it returns the message to
the pool.  Where no packet is left it stops, and the message is not returned.

In `ChatState` the packets that can be borrowed are a list, and they are taken to be clean.
Here they are in the pool, with whatever was left in them.  What is enqueued has the id of the
packet it is in, so it can be looked up in the pool after the call.

## Main definitions

* `ChatState.call`, `ChatState.afterCalls` — calls of the `GroupManager`.
* `GroupRouter`, `GroupRouter.routeGroupMessage` — the groups with the pool.
* `GroupRouter.FannedOut` — each of the members has one copy.
-/

namespace IocpChat

open Bytes Transition

/-! ## The groups -/

/-- The calls that change the groups. -/
inductive GroupCall
  | createGroup (groupId adminId : UserId)
  | joinGroup (groupId userId : UserId)
  | leaveGroup (groupId userId : UserId)
  deriving DecidableEq

namespace ChatState

def call (c : ChatState) : GroupCall → ChatState
  | .createGroup groupId adminId => c.createGroup groupId adminId
  | .joinGroup groupId userId => c.joinGroup groupId userId
  | .leaveGroup groupId userId => c.leaveGroup groupId userId

/-- The groups after these calls, of which there were none before. -/
def afterCalls (calls : List GroupCall) : ChatState := calls.foldl call ⟨fun _ => none, []⟩

def Populated (c : ChatState) : Prop := ∀ groupId, ∀ g ∈ c.groups groupId, g.members ≠ []

section Populated

variable {c : ChatState} {groupId userId : UserId}

theorem Populated.setGroup (h : c.Populated) {g' : Option ChatGroup} (hg' : ∀ g ∈ g', g.members ≠ []) :
    (c.setGroup groupId g').Populated := by
  intro groupId' g hg
  by_cases heq : groupId' = groupId
  · subst heq
    exact hg' g (by simpa [ChatState.setGroup] using hg)
  · exact h groupId' g (by simpa [ChatState.setGroup, heq] using hg)

theorem members_addMember_ne_nil (g : ChatGroup) (userId : UserId) :
    (g.addMember userId).members ≠ [] :=
  List.ne_nil_of_mem ((g.mem_addMember userId userId).mpr (.inr rfl))

theorem Populated.createGroup (h : c.Populated) : (c.createGroup groupId userId).Populated := by
  unfold ChatState.createGroup
  split
  · exact h
  · refine h.setGroup ?_
    rintro g ⟨⟩
    exact members_addMember_ne_nil _ userId

theorem Populated.joinGroup (h : c.Populated) : (c.joinGroup groupId userId).Populated := by
  unfold ChatState.joinGroup
  split
  · exact h
  · split
    · exact h
    · refine h.setGroup ?_
      rintro g ⟨⟩
      exact members_addMember_ne_nil _ userId

theorem Populated.leaveGroup (h : c.Populated) : (c.leaveGroup groupId userId).Populated := by
  unfold ChatState.leaveGroup
  split
  · exact h
  · split
    · refine h.setGroup ?_
      intro g hg
      split at hg
      · cases hg
      · rename_i hne
        cases hg
        exact hne
    · exact h

theorem Populated.call (h : c.Populated) (call : GroupCall) : (c.call call).Populated := by
  cases call with
  | createGroup groupId adminId => exact h.createGroup
  | joinGroup groupId userId => exact h.joinGroup
  | leaveGroup groupId userId => exact h.leaveGroup

theorem populated_afterCalls (calls : List GroupCall) : (afterCalls calls).Populated := by
  have hcalls : ∀ c : ChatState, c.Populated → (calls.foldl ChatState.call c).Populated := by
    induction calls with
    | nil => exact fun c hc => hc
    | cons call calls ih => exact fun c hc => ih (c.call call) (hc.call call)
  apply hcalls
  intro groupId g hg
  cases hg

theorem Populated.exists_iff (h : c.Populated) (groupId : UserId) :
    c.groups groupId ≠ none ↔ c.members groupId ≠ [] := by
  cases hgroup : c.groups groupId with
  | none => simp [members, hgroup]
  | some g => simpa [members, hgroup] using h groupId g hgroup

end Populated

end ChatState

/-! ## The copies -/

/-- The groups with what was enqueued, and the pool. -/
structure GroupRouter where
  chat : ChatState
  store : PacketStore

namespace GroupRouter

/-- The three lines that copy the message `p` into a packet. -/
def copyOf (p packet : Packet) : Packet :=
  let size := p.header.payloadLength.toNat + headerSize
  { packet.copyIn 0 (p.data.toList.take size) with header := p.header, inPointer := size }

/-- The packet as `borrowPacket` gives it out. -/
def borrowed (store : PacketStore) (id : PacketPtr) : Packet := { store.pool id with id }

/-- The loop of `routeGroupMessage`, and if it came to its end. -/
def fanOut (r : GroupRouter) (packet : PacketPtr) (sendId : UserId) :
    List UserId → Option (GroupRouter × Bool)
  | [] => some (r, true)
  | memberId :: members =>
    if memberId = sendId then r.fanOut packet sendId members
    else
      r.store.borrowPacket.bind fun
        | (store, none) => some ({ r with store }, false)
        | (store, some outgoing) =>
          let store := store.modifyPacket outgoing (copyOf (store.pool packet))
          fanOut ⟨r.chat.manageCompletePacket (store.pool outgoing) memberId, store⟩ packet
            sendId members

def routeGroupMessage (r : GroupRouter) (packet : PacketPtr) : Option GroupRouter :=
  let p := r.store.pool packet
  match r.chat.groups (toHex p.receiverId) with
  | none => some r
  | some g =>
    (r.fanOut packet (toHex p.senderId) g.members).map fun
      | (r, true) => { r with store := r.store.returnPacket (some packet) }
      | (r, false) => r

/-- The first `16 + payload_length` bytes and the header are those of the message. -/
structure IsCopy (p copy : Packet) : Prop where
  header : copy.header = p.header
  data : copy.data.toList.take (headerSize + p.header.payloadLength.toNat) =
    p.data.toList.take (headerSize + p.header.payloadLength.toNat)
  inPointer : copy.inPointer = headerSize + p.header.payloadLength.toNat

theorem isCopy_copyOf {p : Packet} (hfits : headerSize + p.header.payloadLength.toNat ≤ dataSize)
    (packet : Packet) : IsCopy p (copyOf p packet) := by
  have hlength : (p.data.toList.take (headerSize + p.header.payloadLength.toNat)).length =
      headerSize + p.header.payloadLength.toNat := by
    rw [List.length_take, p.length_data, Nat.min_eq_left hfits]
  refine ⟨rfl, ?_, Nat.add_comm ..⟩
  have hdata : (copyOf p packet).data.toList = overwrite packet.data.toList 0
      (p.data.toList.take (headerSize + p.header.payloadLength.toNat)) := by
    rw [Nat.add_comm headerSize]
    rfl
  have htake := take_overwrite_zero packet.data.toList
    (p.data.toList.take (headerSize + p.header.payloadLength.toNat))
    (by rw [hlength, packet.length_data]; exact hfits)
  rwa [hlength, ← hdata] at htake

/-- What is enqueued for these users: each has the next free packet, with the message in it. -/
def copies (store : PacketStore) (p : Packet) (users : List UserId) : List (UserId × Packet) :=
  (users.zip store.availableIdx).map fun m => (m.1, copyOf p (borrowed store m.2))

/-- The message `p` was copied for these users, as far as there were packets. -/
structure Copied (p : Packet) (users : List UserId) (r r' : GroupRouter) : Prop where
  groups : r'.chat.groups = r.chat.groups
  enqueued : r'.chat.enqueued = r.chat.enqueued ++ copies r.store p users
  exact : r'.store.FreeListExact
  availableIdx : r'.store.availableIdx = r.store.availableIdx.drop users.length
  /-- A copy is in the packet it was made in, and this is not free. -/
  stored : ∀ m ∈ copies r.store p users, r'.store.pool m.2.id = m.2 ∧ r'.store.inUse m.2.id = true
  /-- The other packets are as they were. -/
  kept : ∀ q ∉ r.store.availableIdx,
    r'.store.pool q = r.store.pool q ∧ r'.store.inUse q = r.store.inUse q

section Loop

variable {r r' r₁ : GroupRouter} {p : Packet} {packet id : PacketPtr} {rest : List PacketPtr}
  {memberId sendId : UserId} {users members : List UserId}

theorem Copied.refl (h : r.store.FreeListExact) (p : Packet) : Copied p [] r r := by
  refine ⟨rfl, by simp [copies], h, rfl, ?_, ?_⟩
  · intro m hm
    simp [copies] at hm
  · intro q _
    exact ⟨rfl, rfl⟩

def copyTo (r : GroupRouter) (p : Packet) (memberId : UserId) (id : PacketPtr)
    (rest : List PacketPtr) : GroupRouter :=
  ⟨r.chat.manageCompletePacket (copyOf p (borrowed r.store id)) memberId,
    (r.store.lend id rest).modifyPacket id (copyOf p)⟩

theorem pool_copyTo (r : GroupRouter) (p : Packet) (memberId : UserId) (id : PacketPtr)
    (rest : List PacketPtr) :
    (r.copyTo p memberId id rest).store.pool =
      Function.update r.store.pool id (copyOf p (borrowed r.store id)) := by
  simp [copyTo, PacketStore.modifyPacket, PacketStore.lend, borrowed]

theorem Copied.cons (h : r.store.FreeListExact) (hq : r.store.availableIdx = id :: rest)
    (hrest : Copied p users (r.copyTo p memberId id rest) r') : Copied p (memberId :: users) r r' := by
  have hnodup := h.nodup
  rw [hq, List.nodup_cons] at hnodup
  have hpool := pool_copyTo r p memberId id rest
  have huse : (r.copyTo p memberId id rest).store.inUse = Function.update r.store.inUse id true := rfl
  have hfree : (r.copyTo p memberId id rest).store.availableIdx = rest := rfl
  -- the packets of the others are as they were before the first copy
  have hcopies : copies r.store p (memberId :: users) =
      (memberId, copyOf p (borrowed r.store id)) :: copies (r.copyTo p memberId id rest).store p users := by
    simp only [copies, hq, hfree, List.zip_cons_cons, List.map_cons, List.cons.injEq, true_and]
    apply List.map_congr_left
    intro m hm
    have hne : m.2 ≠ id := fun heq => hnodup.1 (heq ▸ (List.of_mem_zip hm).2)
    rw [borrowed, borrowed, hpool, Function.update_of_ne hne]
  constructor
  · exact hrest.groups
  · rw [hrest.enqueued, hcopies]
    simp [copyTo, ChatState.manageCompletePacket]
  · exact hrest.exact
  · rw [hrest.availableIdx, hfree, hq, List.length_cons, List.drop_succ_cons]
  · rw [hcopies, List.forall_mem_cons]
    refine ⟨?_, hrest.stored⟩
    obtain ⟨hkept, hkeptUse⟩ := hrest.kept id (by rw [hfree]; exact hnodup.1)
    have hid : (copyOf p (borrowed r.store id)).id = id := rfl
    rw [hid, hkept, hkeptUse, hpool, huse]
    simp
  · intro q hmem
    rw [hq, List.mem_cons, not_or] at hmem
    obtain ⟨hkept, hkeptUse⟩ := hrest.kept q (by rw [hfree]; exact hmem.2)
    rw [hkept, hkeptUse, hpool, huse, Function.update_of_ne hmem.1, Function.update_of_ne hmem.1]
    exact ⟨rfl, rfl⟩

/-- **What the loop does.**  The members but the sender are given copies in the order of the
list, and it comes to its end if there are packets for all of them. -/
theorem fanOut_spec (h : r.store.FreeListExact) (hpacket : packet ∉ r.store.availableIdx)
    (hp : r.store.pool packet = p) (sendId : UserId) (members : List UserId) :
    ∃ r', r.fanOut packet sendId members = some (r',
        decide ((members.filter (· ≠ sendId)).length ≤ r.store.availableIdx.length)) ∧
      Copied p (members.filter (· ≠ sendId)) r r' := by
  induction members generalizing r with
  | nil => exact ⟨r, by simp [fanOut], .refl h p⟩
  | cons memberId members ih =>
    by_cases hsend : memberId = sendId
    · obtain ⟨r', hr', hcopied⟩ := ih h hpacket hp
      refine ⟨r', ?_, ?_⟩
      · simpa [fanOut, hsend] using hr'
      · simpa [hsend] using hcopied
    · cases hq : r.store.availableIdx with
      | nil =>
        refine ⟨r, ?_, ?_⟩
        · simp [fanOut, hsend, PacketStore.borrowPacket, hq]
        · have hnone : copies r.store p ((memberId :: members).filter (· ≠ sendId)) = [] := by
            simp [copies, hq]
          refine ⟨rfl, by rw [hnone, List.append_nil], h, by simp [hq], ?_, ?_⟩
          · rw [hnone]
            simp
          · intro q _
            exact ⟨rfl, rfl⟩
      | cons id rest =>
        have hne : packet ≠ id ∧ packet ∉ rest := by
          rwa [hq, List.mem_cons, not_or] at hpacket
        have hpool := pool_copyTo r p memberId id rest
        have hlend : (r.store.lend id rest).pool packet = p := by
          simp [PacketStore.lend, hne.1, hp]
        obtain ⟨r', hr', hcopied⟩ := ih (r := r.copyTo p memberId id rest)
          ((h.lend hq).modifyPacket id _) hne.2 (by rw [hpool, Function.update_of_ne hne.1, hp])
        refine ⟨r', ?_, ?_⟩
        · have hnext : r.fanOut packet sendId (memberId :: members) =
              (r.copyTo p memberId id rest).fanOut packet sendId members := by
            simp only [fanOut, if_neg hsend, h.borrowPacket hq, Option.bind_some, hlend]
            simp [copyTo, PacketStore.modifyPacket, PacketStore.lend, borrowed]
          rw [hnext, hr']
          simp [hsend, copyTo, PacketStore.modifyPacket, PacketStore.lend]
        · simpa [hsend] using Copied.cons h hq hcopied

end Loop

/-! ## The whole call -/

/-- The message in `packet` was passed on to these members of the group. -/
structure FannedOut (packet : PacketPtr) (members : List UserId) (r r' : GroupRouter) : Prop where
  groups : r'.chat.groups = r.chat.groups
  /-- One copy for each member but the sender, none for others, and each in its own packet. -/
  enqueued : ∃ copies, r'.chat.enqueued = r.chat.enqueued ++ copies ∧
    (∀ user, copies.countP (fun m => m.1 = user) =
      if user ∈ members ∧ user ≠ toHex (r.store.pool packet).senderId then 1 else 0) ∧
    (copies.map fun m => m.2.id).Nodup ∧
    ∀ m ∈ copies, IsCopy (r.store.pool packet) m.2 ∧ r'.store.pool m.2.id = m.2 ∧
      r'.store.inUse m.2.id = true
  /-- The message was in use, and is in the free list once. -/
  returned : r.store.availableIdx.count packet = 0 ∧ r'.store.availableIdx.count packet = 1
  exact : r'.store.FreeListExact

section Call

variable {store : PacketStore} {p : Packet} {users : List UserId}

theorem map_fst_copies (h : users.length ≤ store.availableIdx.length) :
    (copies store p users).map Prod.fst = users := by
  rw [copies, List.map_map]
  exact List.map_fst_zip h

theorem map_id_copies (store : PacketStore) (p : Packet) (users : List UserId) :
    (copies store p users).map (fun m => m.2.id) = store.availableIdx.take users.length := by
  rw [copies, List.map_map]
  change (users.zip store.availableIdx).map Prod.snd = _
  rw [List.zip_eq_zip_take_min, List.map_snd_zip (by simp)]
  rcases Nat.le_total users.length store.availableIdx.length with hle | hle
  · rw [Nat.min_eq_left hle]
  · rw [Nat.min_eq_right hle, List.take_of_length_le hle, List.take_length]

theorem countP_copies (h : users.length ≤ store.availableIdx.length) (hnodup : users.Nodup)
    (user : UserId) : (copies store p users).countP (fun m => m.1 = user) =
      if user ∈ users then 1 else 0 := by
  have hcount : (copies store p users).countP (fun m => m.1 = user) =
      ((copies store p users).map Prod.fst).count user := by
    rw [List.count_eq_countP, List.countP_map]
    apply List.countP_congr
    intro m _
    simp
  rw [hcount, map_fst_copies h, hnodup.count]

/-- The packet that is returned at the end is the only new one in the free list. -/
theorem returnPacket_spec {packet : PacketPtr} (h : store.FreeListExact)
    (hlt : packet < PacketPool.currentSize)
    (hid : (store.pool packet).id = packet) (huse : store.inUse packet = true) :
    (store.returnPacket (some packet)).availableIdx = store.availableIdx ++ [packet] ∧
      (store.returnPacket (some packet)).FreeListExact ∧
      ∀ q ≠ packet, (store.returnPacket (some packet)).pool q = store.pool q ∧
        (store.returnPacket (some packet)).inUse q = store.inUse q := by
  have hreturn : store.returnPacket (some packet) =
      (store.modifyPacket packet PacketStore.reset).release packet := by
    rw [PacketStore.returnPacket, hid, if_neg (Nat.not_le.mpr hlt)]
  rw [hreturn]
  refine ⟨?_, (h.modifyPacket packet _).release hlt, ?_⟩
  · simp [PacketStore.release, PacketStore.modifyPacket, huse]
  · intro q hq
    simp [PacketStore.release, PacketStore.modifyPacket, huse, hq]

theorem fannedOut_routeGroupMessage {r : GroupRouter} {packet : PacketPtr} {g : ChatGroup}
    (h : r.store.FreeListExact) (hlt : packet < PacketPool.currentSize)
    (hid : (r.store.pool packet).id = packet) (huse : r.store.inUse packet = true)
    (hfits : headerSize + (r.store.pool packet).header.payloadLength.toNat ≤ dataSize)
    (hg : r.chat.groups (toHex (r.store.pool packet).receiverId) = some g)
    (henough : (g.members.filter (· ≠ toHex (r.store.pool packet).senderId)).length ≤
      r.store.availableIdx.length) :
    ∃ r', r.routeGroupMessage packet = some r' ∧ FannedOut packet g.members r r' := by
  have hnot : packet ∉ r.store.availableIdx := by
    rw [h.mem_iff, huse]
    simp
  obtain ⟨r₁, hloop, hcopied⟩ :=
    fanOut_spec h hnot rfl (toHex (r.store.pool packet).senderId) g.members
  rw [decide_eq_true henough] at hloop
  obtain ⟨hpool, hinUse⟩ := hcopied.kept packet hnot
  obtain ⟨hfree, hexact, hother⟩ := returnPacket_spec hcopied.exact hlt (by rw [hpool, hid])
    (by rw [hinUse, huse])
  refine ⟨{ r₁ with store := r₁.store.returnPacket (some packet) }, ?_, ?_⟩
  · simp only [routeGroupMessage, hg, hloop, Option.map_some]
  · have hids := map_id_copies r.store (r.store.pool packet)
      (g.members.filter (· ≠ toHex (r.store.pool packet).senderId))
    refine ⟨hcopied.groups, ⟨_, hcopied.enqueued, ?_, ?_, ?_⟩, ⟨?_, ?_⟩, hexact⟩
    · intro user
      rw [countP_copies henough (g.nodup.filter _)]
      simp [List.mem_filter]
    · rw [hids]
      exact h.nodup.sublist (List.take_sublist ..)
    · intro m hm
      obtain ⟨hstored, hused⟩ := hcopied.stored m hm
      have hmem : m.2.id ∈ r.store.availableIdx := by
        have hmap := List.mem_map_of_mem (f := fun m : UserId × Packet => m.2.id) hm
        rw [hids] at hmap
        exact List.mem_of_mem_take hmap
      obtain ⟨hpool', huse'⟩ := hother m.2.id fun heq => hnot (heq ▸ hmem)
      refine ⟨?_, hpool'.trans hstored, huse'.trans hused⟩
      obtain ⟨q, -, rfl⟩ := List.mem_map.mp hm
      exact isCopy_copyOf hfits _
    · exact List.count_eq_zero.mpr hnot
    · rw [hfree, List.count_append, hcopied.availableIdx,
        List.count_eq_zero.mpr fun hmem => hnot (List.mem_of_mem_drop hmem)]
      simp

end Call

/-- Where the free packets are clean, the same is enqueued as in the model without the pool. -/
theorem chat_routeGroupMessage {r : GroupRouter} {packet : PacketPtr} (h : r.store.FreeListExact)
    (hpacket : packet ∉ r.store.availableIdx)
    (hclean : ∀ id ∈ r.store.availableIdx, borrowed r.store id = Packet.initial id) :
    (r.routeGroupMessage packet).map chat =
      some (r.chat.routeGroupMessage r.store.availableIdx (r.store.pool packet)) := by
  unfold routeGroupMessage ChatState.routeGroupMessage
  cases hgroup : r.chat.groups (toHex (r.store.pool packet).receiverId) with
  | none => simp [hgroup]
  | some g =>
    obtain ⟨r', hloop, hcopied⟩ :=
      fanOut_spec h hpacket rfl (toHex (r.store.pool packet).senderId) g.members
    obtain ⟨hgroups, henqueued⟩ := ChatState.fanOut_spec (c := r.chat) (r.store.pool packet)
      (toHex (r.store.pool packet).senderId) g.members r.store.availableIdx
    have hchat : r'.chat = r.chat.fanOut (r.store.pool packet)
        (toHex (r.store.pool packet).senderId) g.members r.store.availableIdx := by
      have hcopies : copies r.store (r.store.pool packet)
          (g.members.filter (· ≠ toHex (r.store.pool packet).senderId)) =
          ((g.members.filter (· ≠ toHex (r.store.pool packet).senderId)).zip
            r.store.availableIdx).map
              fun m => (m.1, ChatState.outgoing (r.store.pool packet) m.2) := by
        apply List.map_congr_left
        intro m hm
        rw [hclean m.2 (List.of_mem_zip hm).2]
        rfl
      rw [ChatState.mk.injEq]
      exact ⟨hcopied.groups.trans hgroups.symm, by rw [hcopied.enqueued, henqueued, hcopies]⟩
    generalize decide (_ ≤ r.store.availableIdx.length) = completed at hloop
    simp only [hgroup, hloop, Option.map_some]
    rw [← hchat]
    cases completed <;> rfl

/-- **Fan-out.**  After any calls no group has a member twice, and the groups are those that
have members; a message to a group is passed on to each of its other members, once. -/
theorem fannedOut_afterCalls (calls : List GroupCall) :
    (∀ groupId,
      (∀ g ∈ (ChatState.afterCalls calls).groups groupId, g.members.Nodup ∧ g.members ≠ []) ∧
        ((ChatState.afterCalls calls).groups groupId ≠ none ↔
          (ChatState.afterCalls calls).members groupId ≠ [])) ∧
      ∀ (enqueued : List (UserId × Packet)) (u : PoolUse) (packet : PacketPtr) (g : ChatGroup),
        Reaches PoolUse.step PoolUse.Obtained .new u → u.obtained packet = true →
        u.store.inUse packet = true →
        headerSize + (u.store.pool packet).header.payloadLength.toNat ≤ dataSize →
        (ChatState.afterCalls calls).groups (toHex (u.store.pool packet).receiverId) = some g →
        (g.members.filter (· ≠ toHex (u.store.pool packet).senderId)).length ≤
          u.store.availableIdx.length →
        ∃ r', routeGroupMessage ⟨⟨(ChatState.afterCalls calls).groups, enqueued⟩, u.store⟩ packet =
            some r' ∧
          FannedOut packet g.members ⟨⟨(ChatState.afterCalls calls).groups, enqueued⟩, u.store⟩ r' := by
  have hpopulated := ChatState.populated_afterCalls calls
  constructor
  · intro groupId
    refine ⟨?_, hpopulated.exists_iff groupId⟩
    intro g hg
    exact ⟨g.nodup, hpopulated groupId g hg⟩
  · intro enqueued u packet g hreach hobtained huse hfits hg henough
    have horder := PoolUse.inOrder_of_reaches hreach
    obtain ⟨hlt, hid⟩ := horder.id packet hobtained
    exact fannedOut_routeGroupMessage horder.exact hlt hid huse hfits hg henough

/-! ## An example of a message -/

/-- The first user has made a group, the second has joined it. -/
def sampleCalls : List GroupCall :=
  [.createGroup (toHex (ChatState.sampleUser 3)) (toHex (ChatState.sampleUser 1)),
    .joinGroup (toHex (ChatState.sampleUser 3)) (toHex (ChatState.sampleUser 2))]

/-- A message of the first user to the group. -/
def sampleGroupMessage : Packet :=
  (ChatState.packetOf .groupMessage
    ⟨ChatState.sampleUser 1, ChatState.sampleUser 3, 0, 0, 0, 0⟩).packet

/-- The first packet was borrowed, and the message is in it. -/
def samplePool : PoolUse where
  store := (PacketStore.new.lend 0 PacketStore.otherPackets).modifyPacket 0
    fun packet => { sampleGroupMessage with id := packet.id }
  obtained := Function.update (fun _ => false) 0 true
  written := Function.update (fun _ => false) 0 true

theorem reaches_samplePool : Reaches PoolUse.step PoolUse.Obtained .new samplePool := by
  have hborrow : PoolUse.new.step .borrowPacket = some
      { PoolUse.new with
        store := PacketStore.new.lend 0 PacketStore.otherPackets
        obtained := Function.update (fun _ => false) 0 true } := by
    simp only [PoolUse.step, PoolUse.new, PacketStore.borrowPacket_new, Option.map_some, Option.elim_some]
  refine Relation.ReflTransGen.tail (.single ⟨.borrowPacket, trivial, hborrow⟩) ?_
  exact ⟨.write 0 fun _ => sampleGroupMessage, trivial, rfl⟩

theorem payload_samplePool :
    (samplePool.store.pool 0).senderId = ChatState.sampleUser 1 ∧
      (samplePool.store.pool 0).receiverId = ChatState.sampleUser 3 := by
  have hpayload : (samplePool.store.pool 0).chatPayload = sampleGroupMessage.chatPayload := by
    simp [samplePool, PacketStore.modifyPacket, Packet.chatPayload]
  simp only [Packet.senderId, Packet.receiverId, hpayload, sampleGroupMessage,
    ChatState.chatPayload_packetOf, and_self]

/-- The second user has a copy of the message. -/
theorem fannedOut_samplePool :
    ∃ r', routeGroupMessage ⟨⟨(ChatState.afterCalls sampleCalls).groups, []⟩, samplePool.store⟩ 0 =
        some r' ∧
      FannedOut 0 [toHex (ChatState.sampleUser 1), toHex (ChatState.sampleUser 2)]
        ⟨⟨(ChatState.afterCalls sampleCalls).groups, []⟩, samplePool.store⟩ r' := by
  obtain ⟨-, hreceiver⟩ := payload_samplePool
  have hgroup : (ChatState.afterCalls sampleCalls).groups (toHex (ChatState.sampleUser 3)) =
      some ⟨toHex (ChatState.sampleUser 1),
        [toHex (ChatState.sampleUser 1), toHex (ChatState.sampleUser 2)], by decide⟩ := rfl
  refine (fannedOut_afterCalls sampleCalls).2 [] samplePool 0 _ reaches_samplePool rfl rfl
    (show headerSize + 48 ≤ dataSize by decide) (by rw [hreceiver, hgroup]) ?_
  refine (List.length_filter_le ..).trans ?_
  simp [samplePool, PacketStore.modifyPacket, PacketStore.lend, PacketStore.otherPackets,
    PacketPool.currentSize]

end GroupRouter

end IocpChat

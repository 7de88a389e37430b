import IocpChat.Chat.Accounts

/-!
# Packets are conserved

In a state between the calls of the server, the packets in use are those that somebody has,
and each of them is in one place.  Not every dispatch keeps it so: some cases of the `switch`
do nothing with the packet, and it is lost to the pool.  A send that fails does not always
keep it either.

`Kept` says which events are harmless.  Each function that passes packets on has a lemma that
says which packets are in hand before it and after it; the lemma about the step is assembled
from them.

## Main definitions

* `Hub.Conserved` — the packets in use are those that somebody has, each once.
* `Hub.Settles` — the dispatch takes care of the packet.
-/

namespace IocpChat

open Assignment Transition

namespace Hub

variable {h h' : Hub} {hand hand' : List PacketPtr} {p : PacketPtr} {u : UserId}

/-- The accounts are in order, with these packets in hand. -/
def Sound (h : Hub) (hand : List PacketPtr) : Prop := ∃ owner, Accounts owner h hand

/-! ## Attempts to send -/

/-- What an attempt to send a packet can come to. -/
def Attempt (h : Hub) (p : PacketPtr) (r : Hub × Bool) : Prop :=
  ∃ wsaSend, r = ({ h with wsaSend }, false) ∨
    ∃ socket, r = ({ h with wsaSend, outstanding := h.outstanding ++ [⟨p, socket⟩] }, true)

theorem attempt_initiateSend (h : Hub) (socket : Socket) (p : PacketPtr) :
    h.Attempt p (h.initiateSend socket p) := by
  refine ⟨h.wsaSend.tail, ?_⟩
  rw [initiateSend]
  split
  · exact .inr ⟨socket, rfl⟩
  · exact .inl rfl

theorem attempt_routePacket (h : Hub) (env : Outside) (p : PacketPtr) (recvId : UserId) :
    h.Attempt p (h.routePacket env p recvId) := by
  rw [routePacket]
  split
  · exact ⟨h.wsaSend, .inl rfl⟩
  · cases env.findSession recvId with
    | none => exact ⟨h.wsaSend, .inl rfl⟩
    | some socket => exact h.attempt_initiateSend socket p

theorem Attempt.pool {r : Hub × Bool} (hr : h.Attempt p r) : r.1.pool = h.pool := by
  obtain ⟨wsaSend, rfl | ⟨socket, rfl⟩⟩ := hr <;> rfl

namespace Sound

theorem congr (hs : Sound h hand) (hpool : h'.pool = h.pool) (hqueues : h'.queues = h.queues)
    (hout : h'.outstanding = h.outstanding) (hbatch : h'.batch = h.batch) : Sound h' hand := by
  obtain ⟨owner, ha⟩ := hs
  exact ⟨owner, ha.congr hpool hqueues hout hbatch⟩

theorem returnPacket (hs : Sound h (p :: hand)) : Sound (h.returnPacket p) hand := by
  obtain ⟨owner, ha⟩ := hs
  exact ⟨_, ha.returnPacket⟩

theorem setBypass (hs : Sound h (p :: hand)) : Sound (h.setBypass p) (p :: hand) := by
  obtain ⟨owner, ha⟩ := hs
  exact ⟨owner, ha.setBypass⟩

theorem setFlag {flag : Bool} (hs : Sound h hand)
    (hflag : flag = false → ∀ p ∈ (h.queues u).queue.head?, p ∉ h.inFlight) :
    Sound (h.setFlag u flag) hand := by
  obtain ⟨owner, ha⟩ := hs
  exact ⟨owner, ha.setFlag hflag⟩

theorem borrow (hs : Sound h hand) :
    (h.pool.availableIdx = [] ∧ h.borrowPacket = some (h, none)) ∨
      ∃ p rest, h.pool.availableIdx = p :: rest ∧ h.borrowPacket = some (h.lend p rest, some p) ∧
        Sound (h.lend p rest) (p :: hand) ∧ (h.lend p rest).pool.bypassQueue p = false := by
  obtain ⟨owner, ha⟩ := hs
  rcases ha.borrowPacket with hempty | ⟨p, rest, hfree, hmark, hborrow⟩
  · exact .inl hempty
  · exact .inr ⟨p, rest, hfree, hborrow, ⟨_, ha.lend hfree⟩, hmark⟩

theorem past {r : Hub × Bool} (hs : Sound h (p :: hand)) (hmark : h.pool.bypassQueue p = true)
    (hr : h.Attempt p r) : Sound (if r.2 then r.1 else r.1.returnPacket p) hand := by
  obtain ⟨wsaSend, rfl | ⟨socket, rfl⟩⟩ := hr
  · have hsame : Sound { h with wsaSend } (p :: hand) := hs.congr rfl rfl rfl rfl
    exact hsame.returnPacket
  · obtain ⟨owner, ha⟩ := hs
    have hsent := ha.sendBypass socket hmark
    exact ⟨_, hsent.congr rfl rfl rfl rfl⟩

theorem ahead {r : Hub × Bool} (hs : Sound h hand) (hhead : (h.queues u).queue.head? = some p)
    (hflag : (h.queues u).flag = true) (hp : p ∉ h.inFlight) (hr : h.Attempt p r) :
    Sound (if r.2 then r.1 else r.1.setFlag u false) hand := by
  obtain ⟨wsaSend, rfl | ⟨socket, rfl⟩⟩ := hr
  · have hsame : Sound { h with wsaSend } hand := hs.congr rfl rfl rfl rfl
    refine hsame.setFlag ?_
    intro _ q hq
    rw [Option.mem_def, hhead] at hq
    cases hq
    exact hp
  · obtain ⟨owner, ha⟩ := hs
    have hsent := ha.sendFront socket hhead hflag hp
    exact ⟨_, hsent.congr rfl rfl rfl rfl⟩

/-! ## The queues -/

theorem sendFront (hs : Sound h hand) (env : Outside) (u : UserId) :
    Sound (h.sendFront env u) hand := by
  rw [Hub.sendFront]
  split
  · exact hs
  · rename_i hclear
    cases hqueue : (h.queues u).queue with
    | nil => exact hs
    | cons front rest =>
      have hset : Sound (h.setFlag u true) hand := hs.setFlag (by simp)
      refine hset.ahead ?_ ?_ ?_ (attempt_routePacket ..)
      · simp [Hub.setFlag, setQueue, hqueue]
      · simp [Hub.setFlag, setQueue]
      · obtain ⟨owner, ha⟩ := hs
        intro hflight
        have hmem : front ∈ (h.queues u).queue := hqueue ▸ List.mem_cons_self
        exact hclear (ha.front_of_inFlight hmem hflight).2

theorem manageCompletePacket (hs : Sound h (p :: hand)) (hmark : h.pool.bypassQueue p = false)
    (env : Outside) (recvId : UserId) : Sound (h.manageCompletePacket env p recvId) hand := by
  obtain ⟨owner, ha⟩ := hs
  exact sendFront ⟨_, ha.push hmark⟩ env recvId

theorem notifySend (hs : Sound h hand) (env : Outside) (recvId : UserId) :
    Sound (h.notifySend env recvId) hand := by
  rw [Hub.notifySend]
  split
  · exact hs.sendFront env recvId
  · exact hs

theorem sendNext (hs : Sound h hand) (hflag : (h.queues u).flag = true)
    (hclear : ∀ p ∈ (h.queues u).queue, p ∉ h.inFlight) (socket : Socket) :
    Sound (h.sendNext u socket) hand := by
  rw [Hub.sendNext]
  cases hqueue : (h.queues u).queue with
  | nil =>
    refine hs.setFlag ?_
    simp [hqueue]
  | cons next rest =>
    refine hs.ahead ?_ hflag ?_ (attempt_initiateSend ..)
    · simp [hqueue]
    · exact hclear next (by simp [hqueue])

/-! ## Replies -/

theorem sendResponse {socket : Socket} (hs : Sound h hand) (hsend : h.sendResponse socket = some h') :
    Sound h' hand := by
  rw [Hub.sendResponse] at hsend
  rcases hs.borrow with ⟨-, hborrow⟩ | ⟨p, rest, -, hborrow, hlent, -⟩
  · simp [hborrow] at hsend
    exact hsend ▸ hs
  · simp only [hborrow, Option.map_some, Option.some.injEq] at hsend
    rw [← hsend]
    refine hlent.setBypass.past ?_ (attempt_initiateSend ..)
    simp [Hub.setBypass]

theorem routeReply {env : Outside} {recvId : UserId} (hs : Sound h hand)
    (hroute : h.routeReply env recvId = some h') : Sound h' hand := by
  rw [Hub.routeReply] at hroute
  rcases hs.borrow with ⟨-, hborrow⟩ | ⟨p, rest, -, hborrow, hlent, -⟩
  · simp [hborrow] at hroute
  · simp [hborrow] at hroute
    rw [← hroute]
    refine hlent.setBypass.past ?_ (attempt_routePacket ..)
    simp [Hub.setBypass]

theorem sendFilePacket {env : Outside} {recvId : UserId} (hs : Sound h hand)
    (hsend : h.sendFilePacket env recvId = some h') : Sound h' hand := by
  rw [Hub.sendFilePacket] at hsend
  rcases hs.borrow with ⟨-, hborrow⟩ | ⟨p, rest, -, hborrow, hlent, hmark⟩
  · simp [hborrow] at hsend
  · simp [hborrow] at hsend
    rw [← hsend]
    exact hlent.manageCompletePacket hmark env recvId

/-! ## The handlers -/

variable {ctx : Context} {r : Arrival}

theorem handleAuthPacket (hs : Sound h (p :: hand)) (hhandle : h.handleAuthPacket ctx p = some h') :
    Sound h' hand := by
  rw [Hub.handleAuthPacket] at hhandle
  split at hhandle <;> exact hs.returnPacket.sendResponse hhandle

theorem handleSignUpPacket (hs : Sound h (p :: hand))
    (hhandle : h.handleSignUpPacket ctx p = some h') : Sound h' hand := by
  rw [Hub.handleSignUpPacket] at hhandle
  split at hhandle
  · exact hs.returnPacket.routeReply hhandle
  · cases hhandle
    exact hs.returnPacket

theorem handleFilePacket (hs : Sound h (p :: hand)) (hhandle : h.handleFilePacket ctx p = some h') :
    Sound h' hand := by
  rw [Hub.handleFilePacket] at hhandle
  cases hreply : ctx.fileReply with
  | none =>
    simp only [hreply, Option.some.injEq] at hhandle
    exact hhandle ▸ hs.returnPacket
  | some recvId =>
    simp only [hreply] at hhandle
    exact hs.returnPacket.sendFilePacket hhandle

theorem handleDisconnectRequest (hs : Sound h (p :: hand)) :
    Sound (h.handleDisconnectRequest p r) hand := by
  have hsize := toNat_packetSize r.payloadLength
  have hfits : 16 + r.payloadLength.toNat ≤ 4096 := r.length_le
  have hlong : ¬ (packetSize r.payloadLength).toNat < headerSize := by
    have hheader : headerSize = 16 := rfl
    omega
  rw [Hub.handleDisconnectRequest, if_neg hlong]
  exact hs.returnPacket

theorem afterLogin (hs : Sound h hand) (hafter : h.afterLogin ctx = some h') : Sound h' hand := by
  rw [Hub.afterLogin] at hafter
  split at hafter
  · split at hafter
    · simp at hafter
      exact hafter ▸ hs.notifySend ..
    · obtain ⟨routed, hroute, rfl⟩ := Option.map_eq_some_iff.mp hafter
      exact (hs.routeReply hroute).notifySend ..
  · cases hafter
    exact hs

theorem afterToken (hs : Sound h hand) : Sound (h.afterToken ctx) hand := by
  rw [Hub.afterToken]
  split
  · exact hs.notifySend ..
  · exact hs

end Sound

/-! ## Group messages -/

/-- The members that a message of this sender goes to. -/
def addressees (senderId : UserId) (members : List UserId) : List UserId :=
  members.filter (· ≠ senderId)

theorem manageCompletePacket_pool (h : Hub) (env : Outside) (p : PacketPtr) (recvId : UserId) :
    (h.manageCompletePacket env p recvId).pool = h.pool := by
  rw [manageCompletePacket, sendFront]
  split
  · rfl
  · cases ((h.setQueue recvId _).queues recvId).queue with
    | nil => rfl
    | cons front rest =>
      have hpool := (attempt_routePacket (((h.setQueue recvId
        { h.queues recvId with queue := (h.queues recvId).queue ++ [p], mapped := true }).setFlag
          recvId true)) env front recvId).pool
      dsimp only
      split <;> exact hpool

/-- The loop takes as many packets as there are addressees, or all that are free.  It ends
early in the second case. -/
theorem Sound.fanOut (hs : Sound h hand) (env : Outside) (senderId : UserId)
    (members : List UserId) : ∃ h', Sound h' hand ∧
      h.fanOut env senderId members = some (h',
        decide ((addressees senderId members).length ≤ h.pool.availableIdx.length)) := by
  induction members generalizing h with
  | nil => exact ⟨h, hs, by simp [Hub.fanOut, addressees]⟩
  | cons memberId members ih =>
    by_cases hsender : memberId = senderId
    · obtain ⟨h', hs', hfan⟩ := ih hs
      refine ⟨h', hs', ?_⟩
      simpa [Hub.fanOut, addressees, hsender] using hfan
    · rcases hs.borrow with ⟨hempty, hborrow⟩ | ⟨p, rest, hfree, hborrow, hlent, hmark⟩
      · refine ⟨h, hs, ?_⟩
        simp [Hub.fanOut, addressees, hsender, hborrow, hempty]
      · obtain ⟨h', hs', hfan⟩ := ih (hlent.manageCompletePacket hmark env memberId)
        refine ⟨h', hs', ?_⟩
        rw [manageCompletePacket_pool] at hfan
        simpa [Hub.fanOut, addressees, hsender, hborrow, hfree, lend] using hfan

/-! ## The dispatch -/

/-- The types of packets for which a case of the `switch` passes the packet on. -/
def settled : List PacketType :=
  [.pktLogin, .pktToken, .pktRefresh, .pktLogout, .pktPrivateMessage, .pktGroupMessage,
    .pktFileStart, .pktFileChunk, .pktRoundEnd, .pktFileEnd, .pktFileAck, .pktAcknowledgment,
    .fileDwnldDisconnectRequest, .downloadRequest, .pktOtpReq, .pktOtpVerify, .pktSignUp]

/-- **The dispatch takes care of the packet**: it is of one of these types, a group message is
for a group that exists and there are enough free packets for its members, and the sign-up
manager is set for the packets that are for it. -/
def Settles (h : Hub) (ctx : Context) (r : Arrival) : Prop :=
  ∃ type ∈ PacketType.ofCode r.type, type ∈ settled ∧
    (type = .pktGroupMessage → ∃ members ∈ h.groups (toHex r.receiverId),
      (addressees (toHex r.senderId) members).length ≤ h.pool.availableIdx.length) ∧
    (type ∈ [.pktOtpReq, .pktOtpVerify, .pktSignUp] → ctx.signUpManager = true)

instance (h : Hub) (ctx : Context) (r : Arrival) : Decidable (h.Settles ctx r) :=
  inferInstanceAs (Decidable (∃ type ∈ PacketType.ofCode r.type, type ∈ settled ∧
    (type = .pktGroupMessage → ∃ members ∈ h.groups (toHex r.receiverId),
      (addressees (toHex r.senderId) members).length ≤ h.pool.availableIdx.length) ∧
    (type ∈ [.pktOtpReq, .pktOtpVerify, .pktSignUp] → ctx.signUpManager = true)))

section Dispatch

variable {ctx : Context} {r : Arrival}

theorem Sound.routeGroupMessage {members : List UserId} (hs : Sound h (p :: hand))
    (hgroup : h.groups (toHex r.receiverId) = some members)
    (henough : (addressees (toHex r.senderId) members).length ≤ h.pool.availableIdx.length)
    (hroute : h.routeGroupMessage ctx.toOutside p r = some h') : Sound h' hand := by
  obtain ⟨sent, hsent, hfan⟩ := hs.fanOut ctx.toOutside (toHex r.senderId) members
  simp [Hub.routeGroupMessage, hgroup, hfan, henough] at hroute
  exact hroute ▸ hsent.returnPacket

theorem Sound.login (hs : Sound h (p :: hand))
    (hroute : h.route ctx p r (some .pktLogin) = some h') : Sound h' hand := by
  rw [Hub.route] at hroute
  split at hroute
  · obtain ⟨handled, hhandle, hafter⟩ := Option.bind_eq_some_iff.mp hroute
    exact (hs.handleAuthPacket hhandle).afterLogin hafter
  · cases hroute
    exact hs.returnPacket

theorem Sound.token (hs : Sound h (p :: hand))
    (hroute : (if ctx.authManager then (h.handleAuthPacket ctx p).map fun h => h.afterToken ctx
      else some (h.returnPacket p)) = some h') : Sound h' hand := by
  split at hroute
  · obtain ⟨handled, hhandle, rfl⟩ := Option.map_eq_some_iff.mp hroute
    exact (hs.handleAuthPacket hhandle).afterToken
  · cases hroute
    exact hs.returnPacket

theorem Sound.route {type : PacketType} (hs : Sound h (p :: hand))
    (hmark : h.pool.bypassQueue p = false) (htype : type ∈ settled)
    (hgroup : type = .pktGroupMessage → ∃ members ∈ h.groups (toHex r.receiverId),
      (addressees (toHex r.senderId) members).length ≤ h.pool.availableIdx.length)
    (hsignUp : type ∈ [.pktOtpReq, .pktOtpVerify, .pktSignUp] → ctx.signUpManager = true)
    (hroute : h.route ctx p r (some type) = some h') : Sound h' hand := by
  cases type with
  | pktLogin => exact hs.login hroute
  | pktToken | pktRefresh => exact hs.token hroute
  | pktPrivateMessage =>
    cases hroute
    exact hs.manageCompletePacket hmark ..
  | pktGroupMessage =>
    obtain ⟨members, hmembers, henough⟩ := hgroup rfl
    exact hs.routeGroupMessage hmembers henough hroute
  | pktLogout | pktFileChunk | pktFileAck | pktAcknowledgment =>
    cases hroute
    exact hs.returnPacket
  | fileDwnldDisconnectRequest =>
    cases hroute
    exact hs.handleDisconnectRequest
  | pktFileStart | pktRoundEnd | pktFileEnd => exact hs.handleFilePacket hroute
  | downloadRequest => exact hs.returnPacket.sendFilePacket hroute
  | pktOtpReq | pktOtpVerify | pktSignUp =>
    rw [Hub.route, if_pos (hsignUp (by decide))] at hroute
    exact hs.handleSignUpPacket hroute
  | pktCreateGroup | pktJoinGroup | pktLeaveGroup | pktResume | pktStatus | fileStatus
  | roundStatus | downloadLink | pktFileError | fileStartResponse | pktTokenGranted | pktAuthFail
  | pktSignupPending | pktUserId | pktSignupError | pktFileStatus =>
    exact absurd htype (by decide)

theorem Sound.refuse (hs : Sound h (p :: hand)) (hrefuse : refuses ctx r = true)
    (hhandle : h.handlePacket ctx p r = some h') : Sound h' hand := by
  rw [Hub.handlePacket, if_pos hrefuse] at hhandle
  obtain ⟨replied, hreply, rfl⟩ := Option.map_eq_some_iff.mp hhandle
  split at hreply
  · exact (hs.sendResponse hreply).returnPacket
  · cases hreply
    exact hs.returnPacket

theorem Sound.handlePacket (hs : Sound h (p :: hand)) (hmark : h.pool.bypassQueue p = false)
    (hsettles : refuses ctx r = true ∨ h.Settles ctx r)
    (hhandle : h.handlePacket ctx p r = some h') : Sound h' hand := by
  cases hrefuse : refuses ctx r with
  | true => exact hs.refuse hrefuse hhandle
  | false =>
    obtain ⟨type, htype, hmem, hgroup, hsignUp⟩ := hsettles.resolve_left (by simp [hrefuse])
    rw [Hub.handlePacket, if_neg (by simp [hrefuse]), Option.mem_def.mp htype] at hhandle
    exact hs.route hmark hmem hgroup hsignUp hhandle

theorem Sound.createGroup (hs : Sound h hand) (groupId adminId : UserId) :
    Sound (h.createGroup groupId adminId) hand := by
  rw [Hub.createGroup]
  split
  · exact hs
  · exact hs.congr rfl rfl rfl rfl

theorem Sound.joinGroup (hs : Sound h hand) (groupId userId : UserId) :
    Sound (h.joinGroup groupId userId) hand := by
  rw [Hub.joinGroup]
  split
  · exact hs
  · split
    · exact hs
    · exact hs.congr rfl rfl rfl rfl

theorem Sound.leaveGroup (hs : Sound h hand) (groupId userId : UserId) :
    Sound (h.leaveGroup groupId userId) hand := by
  rw [Hub.leaveGroup]
  split
  · exact hs
  · split
    · exact hs.congr rfl rfl rfl rfl
    · exact hs

/-- A message for no group, or for one with more members than there are free packets. -/
theorem Sound.loseGroupMessage (hs : Sound h hand)
    (hgroup : ¬ ∃ members ∈ h.groups (toHex r.receiverId),
      (addressees (toHex r.senderId) members).length ≤ h.pool.availableIdx.length)
    (hroute : h.routeGroupMessage ctx.toOutside p r = some h') : Sound h' hand := by
  rw [Hub.routeGroupMessage] at hroute
  cases hmembers : h.groups (toHex r.receiverId) with
  | none =>
    simp only [hmembers, Option.some.injEq] at hroute
    exact hroute ▸ hs
  | some members =>
    have hfew : ¬ (addressees (toHex r.senderId) members).length ≤ h.pool.availableIdx.length :=
      fun henough => hgroup ⟨members, hmembers, henough⟩
    obtain ⟨sent, hsent, hfan⟩ := hs.fanOut ctx.toOutside (toHex r.senderId) members
    simp [hmembers, hfan, hfew] at hroute
    exact hroute ▸ hsent

/-- A case of the `switch` that does nothing with the packet. -/
theorem Sound.ignore {type : PacketType} (hs : Sound h hand) (htype : type ∉ settled)
    (hroute : h.route ctx p r (some type) = some h') : Sound h' hand := by
  cases type with
  | pktCreateGroup =>
    cases hroute
    exact hs.createGroup ..
  | pktJoinGroup =>
    cases hroute
    exact hs.joinGroup ..
  | pktLeaveGroup =>
    cases hroute
    exact hs.leaveGroup ..
  | pktResume | pktStatus | fileStatus | roundStatus | downloadLink | pktFileError
  | fileStartResponse | pktTokenGranted | pktAuthFail | pktSignupPending | pktUserId
  | pktSignupError | pktFileStatus =>
    cases hroute
    exact hs
  | pktLogin | pktToken | pktRefresh | pktLogout | pktPrivateMessage | pktGroupMessage
  | pktFileStart | pktFileChunk | pktRoundEnd | pktFileEnd | pktFileAck | pktAcknowledgment
  | fileDwnldDisconnectRequest | downloadRequest | pktOtpReq | pktOtpVerify | pktSignUp =>
    exact absurd (by decide) htype

/-- **A dispatch that does not take care of the packet keeps it in hand**, and nobody will
return it. -/
theorem Sound.lose (hs : Sound h hand) (hrefuse : refuses ctx r = false)
    (hnot : ¬ h.Settles ctx r) (hhandle : h.handlePacket ctx p r = some h') : Sound h' hand := by
  rw [Hub.handlePacket, if_neg (by simp [hrefuse])] at hhandle
  cases htype : PacketType.ofCode r.type with
  | none =>
    rw [htype] at hhandle
    cases hhandle
    exact hs
  | some type =>
    rw [htype] at hhandle
    by_cases hmem : type ∈ settled
    · by_cases hgroup : type = .pktGroupMessage
      · subst hgroup
        refine hs.loseGroupMessage ?_ hhandle
        intro henough
        exact hnot ⟨_, htype, hmem, fun _ => henough, by simp⟩
      · have hsignUp : type ∈ [.pktOtpReq, .pktOtpVerify, .pktSignUp] ∧
            ¬ ctx.signUpManager = true := by
          refine Classical.not_imp.mp ?_
          intro hset
          exact hnot ⟨_, htype, hmem, fun heq => absurd heq hgroup, hset⟩
        simp only [List.mem_cons, List.not_mem_nil, or_false] at hsignUp
        rcases hsignUp with ⟨rfl | rfl | rfl, hunset⟩ <;>
          · rw [Hub.route, if_neg hunset] at hhandle
            cases hhandle
            exact hs
    · exact hs.ignore hmem hhandle

end Dispatch

/-! ## Conservation -/

/-- **Packets are conserved**: those in use are the packets that somebody has, each is in one
place and there once, and the others are free. -/
structure Conserved (h : Hub) : Prop where
  inUse : ∀ p, h.pool.inUse p = true ↔
    p ∈ h.waiting ∨ (∃ u, p ∈ (h.queues u).queue) ∨ p ∈ h.bypassing
  once : ∀ o, (h.held [] o).Nodup
  apart : ∀ o o' p, p ∈ h.held [] o → p ∈ h.held [] o' → o = o'
  free : ∀ p, p ∈ h.pool.availableIdx ↔ p < PacketPool.currentSize ∧ h.pool.inUse p = false
  nodup : h.pool.availableIdx.Nodup

theorem Sound.conserved (hs : Sound h []) : h.Conserved := by
  obtain ⟨owner, ha⟩ := hs
  constructor
  · intro p
    rw [ha.inUse p, Option.isSome_iff_exists]
    constructor
    · rintro ⟨o, ho⟩
      have hmem := ha.held.mem_iff.mpr ho
      cases o with
      | hand => cases hmem
      | batch => exact .inl hmem
      | user u => exact .inr (.inl ⟨u, hmem⟩)
      | bypass => exact .inr (.inr hmem)
    · rintro (hp | ⟨u, hp⟩ | hp)
      · exact ⟨.batch, ha.held.mem_iff.mp hp⟩
      · exact ⟨.user u, ha.held.mem_iff.mp hp⟩
      · exact ⟨.bypass, ha.held.mem_iff.mp hp⟩
  · exact ha.held.nodup
  · intro o o' p hp hp'
    exact ha.held.eq_of_mem hp hp'
  · intro p
    rw [ha.free p, ha.inUse p, Option.isSome_eq_false_iff, Option.isNone_iff_eq_none]
  · exact ha.nodup

theorem Sound.not_conserved (hs : Sound h (p :: hand)) : ¬ h.Conserved := by
  intro hconserved
  obtain ⟨owner, ha⟩ := hs
  have howner := ha.owner_of_hand
  have huse : h.pool.inUse p = true := by
    rw [ha.inUse p, howner]
    rfl
  rcases (hconserved.inUse p).mp huse with hp | ⟨u, hp⟩ | hp
  · have hbatch : owner p = some .batch := ha.held.mem_iff.mp hp
    cases howner.symm.trans hbatch
  · cases howner.symm.trans (ha.owner_of_queue hp)
  · have hbypass : owner p = some .bypass := ha.held.mem_iff.mp hp
    cases howner.symm.trans hbypass

/-! ## The events -/

/-- **The events that are harmless.**  A packet that is dispatched is refused or taken care
of.  A packet from a queue is completely sent while it is at the front of the queue of the
user on its socket.  Otherwise only a send past the queues fails at once, and only a packet
from a queue fails in part, when the user on its socket has no other packet in flight. -/
def Kept (h : Hub) : Event → Prop
  | .dispatch i ctx => ∀ b ∈ h.batch[i]?,
      b.2.parsed = false ∨ refuses ctx b.2 = true ∨ h.Settles ctx b.2
  | .sent i recvId _ => ∀ o ∈ h.outstanding[i]?,
      h.pool.bypassQueue o.packet = true ∨ (h.queues recvId).queue.head? = some o.packet
  | .failed i _ _ => ∀ o ∈ h.outstanding[i]?, h.pool.bypassQueue o.packet = true
  | .resendFailed i recvId => ∀ o ∈ h.outstanding[i]?,
      h.pool.bypassQueue o.packet = false ∧
        ∀ p ∈ (h.queues recvId).queue.head?, p ∉ (h.dequeue i).inFlight
  | .receive _ | .noSession _ | .produce _ _ => True

instance (h : Hub) (e : Event) : Decidable (h.Kept e) := by
  unfold Kept
  split <;> infer_instance

theorem Sound.receive {packets : List Arrival} (hs : Sound h [])
    (hreceive : h.receive packets = some h') : Sound h' [] := by
  induction packets generalizing h with
  | nil =>
    cases hreceive
    exact hs
  | cons r packets ih =>
    rcases hs.borrow with ⟨-, hborrow⟩ | ⟨p, rest, -, hborrow, hlent, hmark⟩
    · simp only [Hub.receive, hborrow, Option.some.injEq] at hreceive
      exact hreceive ▸ hs
    · simp only [Hub.receive, hborrow] at hreceive
      obtain ⟨owner, ha⟩ := hlent
      exact ih ⟨_, ha.addBatch hmark⟩ hreceive

theorem Sound.unbatch {i : ℕ} {b : PacketPtr × Arrival} (hs : Sound h [])
    (hi : h.batch[i]? = some b) : Sound (h.unbatch i) [b.1] ∧ h.pool.bypassQueue b.1 = false := by
  obtain ⟨owner, ha⟩ := hs
  have hmem : b.1 ∈ h.held [] .batch := List.mem_map_of_mem (List.mem_of_getElem? hi)
  have howner := ha.held.mem_iff.mp hmem
  exact ⟨⟨_, ha.unbatch hi⟩, ha.bypassQueue_eq_false (by simp [howner]) (by simp [howner])⟩

theorem inFlight_getElem? {i : ℕ} {o : Sending} (hi : h.outstanding[i]? = some o) :
    h.inFlight[i]? = some o.packet := by
  simp [inFlight, hi]

theorem Sound.completeBypass {i : ℕ} {o : Sending} (hs : Sound h []) (env : Outside)
    (hi : h.outstanding[i]? = some o) (hmark : h.pool.bypassQueue o.packet = true) :
    Sound (Hub.returnPacket { h.dequeue i with wsaSend := env.wsaSend } o.packet) [] := by
  obtain ⟨owner, ha⟩ := hs
  have hdequeued := ha.dequeueBypass (inFlight_getElem? hi) hmark
  exact Sound.returnPacket ⟨_, hdequeued.congr rfl rfl rfl rfl⟩

/-- The front of a queue was sent.  It is popped and returned, and the next one is sent. -/
theorem Sound.completeFront {i : ℕ} {o : Sending} (hs : Sound h []) (env : Outside)
    (hi : h.outstanding[i]? = some o) (hmark : h.pool.bypassQueue o.packet = false)
    (hhead : (h.queues u).queue.head? = some o.packet) :
    Sound ((Hub.returnPacket { h.dequeue i with wsaSend := env.wsaSend } o.packet).drainNext u
      o.socket) [] := by
  obtain ⟨owner, ha⟩ := hs
  have hflight : h.inFlight[i]? = some o.packet := inFlight_getElem? hi
  have hmem : o.packet ∈ (h.queues u).queue := List.mem_of_mem_head? hhead
  have hflag : (h.queues u).flag = true :=
    (ha.front_of_inFlight hmem (List.mem_of_getElem? hflight)).2
  have hmapped : (h.queues u).mapped = true :=
    ha.sends.mapped u (List.ne_nil_of_mem hmem)
  -- The completed packet is no longer in flight, so nothing of its queue is.
  have hdequeued : Accounts owner { h.dequeue i with wsaSend := env.wsaSend } [] :=
    (ha.dequeueFront hflight hmark).congr rfl rfl rfl rfl
  have hgone : o.packet ∉ (h.dequeue i).inFlight := by
    obtain ⟨hlt, heq⟩ := List.getElem?_eq_some_iff.mp hflight
    rw [inFlight_dequeue, ← heq]
    have hnodup := (List.getElem_cons_eraseIdx_perm hlt).nodup_iff.mpr ha.sends.nodup
    exact (List.nodup_cons.mp hnodup).1
  have hclear : ∀ q ∈ (h.queues u).queue, q ∉ (h.dequeue i).inFlight := by
    intro q hq hqflight
    have hfront := (hdequeued.front_of_inFlight (u := u) hq hqflight).1
    have heq : o.packet = q := Option.some.inj (hhead.symm.trans hfront)
    exact hgone (heq ▸ hqflight)
  have hpopped := hdequeued.pop (u := u) hhead hgone
  have hreturned := Sound.returnPacket ⟨_, hpopped⟩
  have hentry : ((Hub.returnPacket { h.dequeue i with wsaSend := env.wsaSend } o.packet).queues
      u).mapped = true := hmapped
  rw [Hub.drainNext, if_pos hentry]
  refine hreturned.sendNext (u := u) ?_ ?_ o.socket
  · simpa [Hub.pop, setQueue, Hub.returnPacket, dequeue] using hflag
  · intro q hq
    simp [Hub.pop, setQueue, Hub.returnPacket] at hq
    exact hclear q (List.mem_of_mem_tail hq)

theorem Sound.abandon {i : ℕ} {o : Sending} (hs : Sound h []) (hi : h.outstanding[i]? = some o)
    (hmark : h.pool.bypassQueue o.packet = false)
    (hclear : ∀ p ∈ (h.queues u).queue.head?, p ∉ (h.dequeue i).inFlight) :
    Sound ((h.dequeue i).clearFlag u) [] := by
  obtain ⟨owner, ha⟩ := hs
  have hdequeued : Sound (h.dequeue i) [] :=
    ⟨owner, ha.dequeueFront (inFlight_getElem? hi) hmark⟩
  rw [Hub.clearFlag]
  split
  · exact hdequeued.setFlag fun _ => hclear
  · exact hdequeued

theorem Sound.dispatch {i : ℕ} {ctx : Context} (hs : Sound h []) (hkept : h.Kept (.dispatch i ctx))
    (hstep : h.step (.dispatch i ctx) = some h') : Sound h' [] := by
  obtain ⟨b, hi, hhandle⟩ := Option.bind_eq_some_iff.mp hstep
  obtain ⟨htaken, hmark⟩ := hs.unbatch hi
  have hready : Sound { h.unbatch i with wsaSend := ctx.wsaSend } [b.1] :=
    htaken.congr rfl rfl rfl rfl
  cases hparsed : b.2.parsed with
  | false =>
    simp [hparsed] at hhandle
    exact hhandle ▸ hready.returnPacket
  | true =>
    simp only [hparsed, if_true] at hhandle
    have hsettles := (hkept b hi).resolve_left (by simp [hparsed])
    exact hready.handlePacket hmark hsettles hhandle

/-- **What a dispatch must do**: packets are conserved by it just if it is harmless. -/
theorem Sound.conserved_dispatch_iff {i : ℕ} {ctx : Context} (hs : Sound h [])
    (hstep : h.step (.dispatch i ctx) = some h') : h'.Conserved ↔ h.Kept (.dispatch i ctx) := by
  constructor
  · intro hconserved b hi
    obtain ⟨b', hi', hhandle⟩ := Option.bind_eq_some_iff.mp hstep
    rw [Option.mem_def, hi'] at hi
    cases hi
    by_contra hnot
    simp only [not_or, Bool.not_eq_false, Bool.not_eq_true] at hnot
    simp only [hnot.1, if_true] at hhandle
    have hready : Sound { h.unbatch i with wsaSend := ctx.wsaSend } [b.1] :=
      (hs.unbatch hi').1.congr rfl rfl rfl rfl
    exact (hready.lose hnot.2.1 hnot.2.2 hhandle).not_conserved hconserved
  · intro hkept
    exact (hs.dispatch hkept hstep).conserved

/-- **A harmless event keeps the accounts in order.** -/
theorem Sound.step {e : Event} (hs : Sound h []) (hkept : h.Kept e) (hstep : h.step e = some h') :
    Sound h' [] := by
  cases e with
  | receive packets => exact hs.receive hstep
  | dispatch i ctx => exact hs.dispatch hkept hstep
  | noSession i =>
    obtain ⟨b, hi, rfl⟩ := Option.map_eq_some_iff.mp hstep
    exact (hs.unbatch hi).1.returnPacket
  | produce recvId env =>
    have hready : Sound { h with wsaSend := env.wsaSend } [] := hs.congr rfl rfl rfl rfl
    exact hready.sendFilePacket hstep
  | sent i recvId env =>
    obtain ⟨o, hi, rfl⟩ := Option.map_eq_some_iff.mp hstep
    have hfront := hkept o hi
    cases hmark : h.pool.bypassQueue o.packet with
    | true => simpa [Hub.dequeue, hmark] using hs.completeBypass env hi hmark
    | false =>
      simpa [Hub.dequeue, hmark] using
        hs.completeFront env hi hmark (hfront.resolve_left (by simp [hmark]))
  | failed i recvId env =>
    obtain ⟨o, hi, rfl⟩ := Option.map_eq_some_iff.mp hstep
    have hmark := hkept o hi
    simpa [Hub.dequeue, hmark] using hs.completeBypass env hi hmark
  | resendFailed i recvId =>
    obtain ⟨o, hi, rfl⟩ := Option.map_eq_some_iff.mp hstep
    exact hs.abandon hi (hkept o hi).1 (hkept o hi).2

theorem sound_of_reaches {groups : UserId → Option (List UserId)}
    (hreach : Reaches step Kept (new groups) h) : Sound h [] := by
  apply hreach.invariant
  · exact ⟨_, accounts_new groups⟩
  · intro s e s' _ hs hkept hstep
    exact hs.step hkept hstep

/-- **Packets are conserved in every run of harmless events.** -/
theorem conserved_of_kept {groups : UserId → Option (List UserId)}
    (hreach : Reaches step Kept (new groups) h) : h.Conserved :=
  (sound_of_reaches hreach).conserved

/-- A packet without payload, from a user to itself. -/
def message (type : PacketType) (user : AccountId) : Arrival := ⟨true, type.code, 0, user, user, by decide⟩

/-- A user who is logged in on a socket.  `WSASend` takes what it is given. -/
def online (user : AccountId) (socket : Socket) : Context where
  findSession := fun _ => some socket
  wsaSend := [true, true]
  valid := true
  socket := socket
  userId := toHex user
  updated := true
  authManager := true
  signUpManager := true
  success := true
  signUpReply := false
  fileReply := none

/-- A user logs in and sends itself a message.  The reply and the message are sent. -/
def loginAndChat (user : AccountId) : List Event :=
  [.receive [message .pktLogin user, message .pktPrivateMessage user],
    .dispatch 0 (online user 5), .dispatch 0 (online user 5),
    .sent 0 (toHex user) (online user 5).toOutside]

/-- The message is still in its queue and in flight, and the other packets are free. -/
theorem conserved_of_kept_chat :
    ∃ h, Reaches step Kept (new fun _ => none) h ∧ h.inFlight = [1] ∧ h.pool.inUse 1 = true ∧
      h.pool.inUse 0 = false ∧ h.pool.inUse 2 = false ∧ h.Conserved := by
  obtain ⟨h, hrun, hstate⟩ := exists_run step (new fun _ => none)
    (loginAndChat (.replicate 16 7))
    (fun h => h.inFlight = [1] ∧ h.pool.inUse 1 = true ∧ h.pool.inUse 0 = false ∧
      h.pool.inUse 2 = false) (by decide +kernel)
  have hmeets : Meets step Kept (new fun _ => none) (loginAndChat (.replicate 16 7)) := by
    decide +kernel
  have hreach := reaches_of_run hmeets hrun
  exact ⟨h, hreach, hstate.1, hstate.2.1, hstate.2.2.1, hstate.2.2.2, conserved_of_kept hreach⟩

/-- A user who is logged in creates a group. -/
def createOneGroup (user : AccountId) : List Event :=
  [.receive [message .pktCreateGroup user], .dispatch 0 (online user 5)]

/-- **The packet that creates a group is lost**: it is in use, and nobody has it. -/
theorem not_conserved_create_group :
    ∃ h, Transition.run step (new fun _ => none) (createOneGroup (.replicate 16 7)) = some h ∧
      h.pool.inUse 0 = true ∧ h.batch.length = 0 ∧ h.outstanding = [] ∧ ¬ h.Conserved := by
  obtain ⟨h, hrun, huse, hbatch, hout⟩ := exists_run step (new fun _ => none)
    (createOneGroup (.replicate 16 7))
    (fun h => h.pool.inUse 0 = true ∧ h.batch.length = 0 ∧ h.outstanding = []) (by decide +kernel)
  refine ⟨h, hrun, huse, hbatch, hout, ?_⟩
  have hnot : ∀ received ∈ (new fun _ => none).step
      (.receive [message .pktCreateGroup (.replicate 16 7)]),
      ¬ received.Kept (.dispatch 0 (online (.replicate 16 7) 5)) := by decide +kernel
  obtain ⟨received, hreceive, hrest⟩ := exists_of_run hrun
  obtain ⟨dispatched, hdispatch, hend⟩ := exists_of_run hrest
  cases hend
  have hsound : Sound received [] := Sound.receive ⟨_, accounts_new _⟩ hreceive
  rw [hsound.conserved_dispatch_iff hdispatch]
  exact hnot received hreceive

end Hub

end IocpChat

import IocpChat.Pool.Borrowers

/-!
# The functions that borrow, run alone

The functions of `Borrowers` make their calls one by one, and other threads may come in between.
Those of `Dispatch` do all at once.  They are the same code: if every call is answered as the `Hub`
has it, a function of the one kind leaves what its counterpart leaves.

There is always a context for an operation here, and a session has its `iocp`; the `Hub` knows of
neither.

## Main definitions

* `Hub.handle` — what a call does to the `Hub`.
* `Service.context` — what the questions of a dispatch come to.
-/

namespace IocpChat

open Program

/-- What the rest of the server answers while a function runs. -/
structure Replies extends Outside where
  userId : UserId
  ask : Question → Bool
  iocp : ask .iocp = true

def Hub.handle (e : Replies) (h : Hub) : (q : ServerCall) → Option (Hub × q.Answer)
  | .borrowPacket _ => h.borrowPacket
  | .returnPacket p => some (h.returnPacket p, ())
  | .setBypass p => some (h.setBypass p, ())
  | .bypassQueue p => some (h, h.pool.bypassQueue p)
  | .borrowIOPdata _ => some (h, some 0)
  | .returnIOPdata _ | .abandon _ => some (h, ())
  | .wsaRecv .. => some (h, true)
  | .wsaSend socket _ p => some (h.initiateSend socket p)
  | .mapped u => some (h, (h.queues u).mapped)
  | .push u p =>
    some (h.setQueue u { h.queues u with queue := (h.queues u).queue ++ [p], mapped := true }, ())
  | .pop u => some (h.pop u, ())
  | .isEmpty u => some (h, (h.queues u).queue.isEmpty)
  | .front u => some (h, (h.queues u).queue.head?)
  | .takeFlag u => if (h.queues u).flag then some (h, false) else some (h.setFlag u true, true)
  | .storeFalse u => some (h.setFlag u false, ())
  | .findSession u => some (h, e.findSession u)
  | .getGroup groupId => some (h, h.groups groupId)
  | .userId => some (h, e.userId)
  | .ask question => some (h, e.ask question)
  | .nullDereference | .nullItem => none

namespace Service

/-- What the questions of the dispatch of a packet come to. -/
def context (e : Replies) (socket : Socket) (type : Option PacketType) : Context where
  toOutside := e.toOutside
  valid := e.ask .validSession
  socket
  userId := e.userId
  updated := e.ask .updated
  authManager := e.ask .authManager
  signUpManager := e.ask .signUpManager
  success := e.ask .authenticated
  signUpReply := e.ask .router &&
    match type with
    | some .pktOtpReq => e.ask .validEmail && e.ask .alreadySignup
    | some .pktOtpVerify => !e.ask .otpFound || e.ask .otpExpired || e.ask .otpMatches
    | _ => !e.ask .emailVerified
  fileReply :=
    match type with
    | some .pktFileStart => if e.ask .tooBig || e.ask .fileOpen then some e.userId else none
    | _ => if e.ask .transferState then some e.userId else none

abbrev alone {α : Type} (e : Replies) (m : Service α) (h : Hub) : Option (Hub × α) :=
  m.run (Hub.handle e) h

section Alone

variable {e : Replies} {h : Hub} {socket : Socket} {p : PacketPtr} {u : UserId}

attribute [local simp] alone request Prog.request Prog.run Hub.handle

/-! ## Sending -/

@[simp] theorem alone_initiateSend :
    alone e (initiateSend socket (some p)) h = some (h.initiateSend socket p) := by
  simp [initiateSend, takeIOPdata]
  obtain ⟨h', sent⟩ := h.initiateSend socket p
  cases sent <;> rfl

@[simp] theorem alone_sendPacket :
    alone e (sendPacket (some p) socket) h = some (h.initiateSend socket p) := by
  simp [sendPacket, e.iocp]

@[simp] theorem alone_routePacket :
    alone e (routePacket (some p) u) h = some (h.routePacket e.toOutside p u) := by
  unfold routePacket Hub.routePacket
  split
  · rfl
  · cases hsession : e.findSession u <;> simp [hsession]

/-! ## The queues -/

theorem alone_sendFront (hne : (h.queues u).queue ≠ []) :
    alone e (sendFront u) h = some (h.sendFront e.toOutside u, ()) := by
  obtain ⟨front, rest, hqueue⟩ := List.exists_cons_of_ne_nil hne
  have hfront : ((h.setFlag u true).queues u).queue.head? = some front := by
    simp [Hub.setFlag, Hub.setQueue, hqueue]
  cases hflag : (h.queues u).flag with
  | true => simp [sendFront, Hub.sendFront, hflag]
  | false =>
    simp [sendFront, Hub.sendFront, hflag, hqueue, hfront]
    split <;> simp

@[simp] theorem alone_manageCompletePacket :
    alone e (manageCompletePacket p u) h = some (h.manageCompletePacket e.toOutside p u, ()) := by
  have hpush := alone_sendFront (e := e) (u := u) (h := h.setQueue u
    { h.queues u with queue := (h.queues u).queue ++ [p], mapped := true }) (by simp [Hub.setQueue])
  simpa [manageCompletePacket, Hub.manageCompletePacket] using hpush

@[simp] theorem alone_notifySend :
    alone e (notifySend u) h = some (h.notifySend e.toOutside u, ()) := by
  cases hmapped : (h.queues u).mapped with
  | false => simp [notifySend, Hub.notifySend, hmapped]
  | true =>
    cases hqueue : (h.queues u).queue with
    | nil => simp [notifySend, Hub.notifySend, Hub.sendFront, hmapped, hqueue]
    | cons front rest =>
      have hfront := alone_sendFront (e := e) (h := h) (u := u) (by simp [hqueue])
      simpa [notifySend, Hub.notifySend, hmapped, hqueue] using hfront

theorem alone_sendNext : alone e (sendNext u socket) h = some (h.sendNext u socket, ()) := by
  cases hqueue : (h.queues u).queue with
  | nil => simp [sendNext, Hub.sendNext, hqueue]
  | cons next rest =>
    simp [sendNext, Hub.sendNext, hqueue]
    split <;> simp

theorem alone_drainNext : alone e (drainNext u socket) h = some (h.drainNext u socket, ()) := by
  have hnext : ∀ h : Hub, alone e (sendNext u socket) h = some (h.sendNext u socket, ()) :=
    fun _ => alone_sendNext
  cases hmapped : (h.queues u).mapped with
  | false => simp [drainNext, Hub.drainNext, hmapped]
  | true =>
    cases hqueue : (h.queues u).queue with
    | nil =>
      have hsame : { h.queues u with queue := (h.queues u).queue.tail } = h.queues u := by
        rw [hqueue, List.tail_nil, ← hqueue]
      have hpop : h.pop u = h := by rw [Hub.pop, hsame, Hub.setQueue, Function.update_eq_self]
      simpa [drainNext, Hub.drainNext, hmapped, hqueue, hpop] using hnext h
    | cons next rest => simpa [drainNext, Hub.drainNext, hmapped, hqueue] using hnext (h.pop u)

theorem alone_clearFlag : alone e (clearFlag u) h = some (h.clearFlag u, ()) := by
  cases hmapped : (h.queues u).mapped <;> simp [clearFlag, Hub.clearFlag, hmapped]

/-! ## Replies -/

@[simp] theorem alone_sendResponse (site : PacketSite) :
    alone e (sendResponse site socket) h = (h.sendResponse socket).map (·, ()) := by
  rcases hborrow : h.borrowPacket with _ | ⟨h', _ | response⟩ <;>
    simp [sendResponse, Hub.sendResponse, e.iocp, hborrow]
  split <;> simp

@[simp] theorem alone_routeReply (site : PacketSite) :
    alone e (routeReply site u) h = (h.routeReply e.toOutside u).map (·, ()) := by
  rcases hborrow : h.borrowPacket with _ | ⟨h', _ | reply⟩ <;>
    simp [routeReply, takePacket, nullDereference, Hub.routeReply, hborrow]
  split <;> simp

@[simp] theorem alone_sendFilePacket (site : PacketSite) :
    alone e (sendFilePacket site u) h = (h.sendFilePacket e.toOutside u).map (·, ()) := by
  rcases hborrow : h.borrowPacket with _ | ⟨h', _ | reply⟩ <;>
    simp [sendFilePacket, takePacket, nullDereference, Hub.sendFilePacket, hborrow]

/-! ## The handlers -/

theorem alone_ask (question : Question) {m n : Service Unit} {x y : Option Hub}
    (hm : alone e m h = x.map (·, ())) (hn : alone e n h = y.map (·, ())) :
    alone e (do if ← ask question then m else n) h =
      (if e.ask question then x else y).map (·, ()) := by
  cases hask : e.ask question <;> simpa [hask]

theorem alone_handleAuthPacket (type : Option PacketType) {after : Bool → Service Unit}
    {f : Hub → Option Hub}
    (hafter : ∀ h, alone e (after (e.ask .authenticated)) h = (f h).map (·, ())) :
    alone e (handleAuthPacket p socket >>= after) h =
      ((h.handleAuthPacket (context e socket type) p).bind f).map (·, ()) := by
  cases hauth : e.ask .authenticated <;> rw [hauth] at hafter <;>
    simp [handleAuthPacket, sendTokenGranted, sendAuthFailure, Hub.handleAuthPacket,
      Hub.sendTokenGranted, Hub.sendAuthFailure, context, hauth] <;>
    cases (h.returnPacket p).sendResponse socket <;> simp_all

theorem alone_afterLogin (type : Option PacketType) (h : Hub) :
    alone e (afterLogin (e.ask .authenticated)) h =
      (h.afterLogin (context e socket type)).map (·, ()) := by
  cases hauth : e.ask .authenticated <;> cases hupdated : e.ask .updated <;>
    simp [afterLogin, Hub.afterLogin, context, hauth, hupdated]
  cases h.routeReply e.toOutside e.userId <;> simp

theorem alone_afterToken (type : Option PacketType) (h : Hub) :
    alone e (afterToken (e.ask .authenticated)) h =
      ((some ∘ fun h => h.afterToken (context e socket type)) h).map (·, ()) := by
  cases hauth : e.ask .authenticated <;> simp [afterToken, Hub.afterToken, context, hauth]

theorem alone_otpRequestHandler :
    alone e (otpRequestHandler p) h =
      (h.otpRequestHandler (context e socket (some .pktOtpReq)) p).map (·, ()) := by
  cases hvalid : e.ask .validEmail <;> cases hknown : e.ask .alreadySignup <;>
    cases hrouter : e.ask .router <;>
    simp [otpRequestHandler, Hub.otpRequestHandler, Hub.handleSignUpPacket, context, hvalid, hknown,
      hrouter]

theorem alone_onOtpVerificationRequest :
    alone e (onOtpVerificationRequest p) h =
      (h.onOtpVerificationRequest (context e socket (some .pktOtpVerify)) p).map (·, ()) := by
  cases hfound : e.ask .otpFound <;> cases hexpired : e.ask .otpExpired <;>
    cases hmatches : e.ask .otpMatches <;> cases hrouter : e.ask .router <;>
    simp [onOtpVerificationRequest, Hub.onOtpVerificationRequest, Hub.handleSignUpPacket, context,
      hfound, hexpired, hmatches, hrouter]

theorem alone_signUpRequestHandler :
    alone e (signUpRequestHandler p) h =
      (h.signUpRequestHandler (context e socket (some .pktSignUp)) p).map (·, ()) := by
  cases hverified : e.ask .emailVerified <;> cases hrouter : e.ask .router <;>
    simp [signUpRequestHandler, Hub.signUpRequestHandler, Hub.handleSignUpPacket, context,
      hverified, hrouter]

theorem alone_fanOut (senderId : UserId) (members : List UserId) :
    alone e (fanOut p senderId members) h = h.fanOut e.toOutside senderId members := by
  induction members generalizing h with
  | nil => rfl
  | cons memberId members ih =>
    simp only [fanOut, Hub.fanOut]
    split
    · exact ih
    · rcases hborrow : h.borrowPacket with _ | ⟨h', _ | outgoing⟩
      · simp [hborrow]
      · simp [hborrow]
      · simpa [hborrow] using ih

theorem alone_routeGroupMessage (r : Arrival) :
    alone e (routeGroupMessage p (toHex r.receiverId) (toHex r.senderId)) h =
      (h.routeGroupMessage e.toOutside p r).map (·, ()) := by
  cases hgroup : h.groups (toHex r.receiverId) with
  | none => simp [routeGroupMessage, Hub.routeGroupMessage, hgroup]
  | some members =>
    have hfan := alone_fanOut (e := e) (h := h) (p := p) (toHex r.senderId) members
    simp only [alone] at hfan
    simp [routeGroupMessage, Hub.routeGroupMessage, hgroup, hfan]
    rcases h.fanOut e.toOutside (toHex r.senderId) members with _ | ⟨h', _ | _⟩ <;> rfl

/-! ## The dispatch -/

/-- The packets that change groups, which borrow nothing. -/
def changesGroup (type : Option PacketType) : Bool :=
  type == some .pktCreateGroup || type == some .pktJoinGroup || type == some .pktLeaveGroup

theorem alone_route (r : Arrival) {type : Option PacketType} (hgroup : changesGroup type = false) :
    alone e (route socket p r type) h = (h.route (context e socket type) p r type).map (·, ()) := by
  cases type with
  | none => rfl
  | some type =>
    cases type with
    | pktLogin => exact alone_ask _ (alone_handleAuthPacket _ (alone_afterLogin _)) rfl
    | pktToken | pktRefresh =>
      refine alone_ask _ ?_ rfl
      nth_rewrite 2 [Option.map_eq_bind]
      exact alone_handleAuthPacket _ (alone_afterToken _)
    | pktCreateGroup | pktJoinGroup | pktLeaveGroup => cases hgroup
    | pktGroupMessage => exact alone_routeGroupMessage r
    | pktOtpReq => exact alone_ask _ alone_otpRequestHandler rfl
    | pktOtpVerify => exact alone_ask _ alone_onOtpVerificationRequest rfl
    | pktSignUp => exact alone_ask _ alone_signUpRequestHandler rfl
    | pktFileStart =>
      cases hbig : e.ask .tooBig <;> cases hopen : e.ask .fileOpen <;>
        simp [route, Hub.route, handleFileStart, sendErrorPacket, Hub.handleFileStart,
          Hub.handleFilePacket, context, hbig, hopen]
    | pktRoundEnd =>
      cases hstate : e.ask .transferState <;>
        simp [route, Hub.route, handleRoundEnd, sendAck, Hub.handleRoundEnd, Hub.handleFilePacket,
          context, hstate]
    | pktFileEnd =>
      cases hstate : e.ask .transferState <;>
        simp [route, Hub.route, handleFileEnd, sendFileStatus, Hub.handleFileEnd,
          Hub.handleFilePacket, context, hstate]
    | downloadRequest =>
      cases hstate : e.ask .transferState <;>
        simp [route, Hub.route, handleDownloadRequest, sendErrorPacket, Hub.handleDownloadRequest,
          context, hstate]
    | fileDwnldDisconnectRequest =>
      simp only [route, Hub.route, handleDisconnectRequest, Hub.handleDisconnectRequest]
      split <;> simp
    | _ =>
      simp [route, Hub.route, handleFileChunk, Hub.handleFileChunk, onAckReceived,
        Hub.onAckReceived, context]

/-- **The dispatch of a packet.**  If no other thread comes in between, `handlePacket` leaves the
`Hub` as the dispatch of `Hub` does. -/
theorem alone_handlePacket (r : Arrival)
    (hgroup : changesGroup (PacketType.ofCode r.type) = false) :
    alone e (handlePacket socket p r) h =
      (h.handlePacket (context e socket (PacketType.ofCode r.type)) p r).map (·, ()) := by
  have hroute : alone e (route socket p r (PacketType.ofCode r.type)) h = _ := alone_route r hgroup
  rw [handlePacket, Hub.handlePacket, Hub.refuses]
  cases hbypass : (PacketType.ofCode r.type).any bypassAuth with
  | true => simpa using hroute
  | false =>
    cases hvalid : e.ask .validSession with
    | true => simpa [context, hvalid] using hroute
    | false =>
      cases hauth : e.ask .authManager <;>
        simp [context, hvalid, hauth, sendAuthFailure, Hub.sendAuthFailure]
      cases h.sendResponse socket <;> rfl

end Alone

end Service

end IocpChat

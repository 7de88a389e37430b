import IocpChat.Pool.Borrowers

/-!
# Empty pools

The server runs any number of the functions of `Service` at the same time.  It survives as long
as none of them uses a null pointer it got from a pool, or forgets the packet it works on because
the pool has no other.

It does not survive an empty pool.  Every connection keeps a context for its receive, so the pool
of contexts has none left when as many clients are connected as it has contexts, even if they
all are silent; `acceptLoop` then uses the null pointer for the next one.

The server survives if a function comes to `borrowPacket` or `borrowIOPdata` only while the pool
has something to lend, the three places apart that go on without.

## Main definitions

* `Serving`, `Serving.step` — the server with its functions.
* `Serving.Survives` — no null pointer is used, and no packet is forgotten.
* `Serving.Provided` — the pools have what is needed.
-/

namespace IocpChat

open Program Transition

/-! ## The server -/

/-- The pools, and the functions that are running. -/
abbrev Serving := Config Pools (Service Unit)

/-- How an operation completes: with an error, or with these packets in the buffer if it is a
receive. -/
inductive Posted.Outcome
  | failure
  | success (packets : List Arrival)

/-- What a worker does about a completed operation. -/
def Posted.complete (operation : Posted) : Posted.Outcome → Service Unit
  | .failure => Service.failed operation.context operation.packet
  | .success packets =>
    match operation.packet with
    | none => Service.received operation.socket operation.context packets
    | some p => Service.sent operation.socket operation.context p

namespace Serving

inductive Action
  | accept (socket : Socket)
  /-- The `i`-th of the posted operations completes. -/
  | complete (i : ℕ) (outcome : Posted.Outcome)
  /-- A link for an upload is sent. -/
  | link (receiverId recvId sendId : UserId)
  /-- The thread of a download starts. -/
  | download (receiverId : UserId) (rounds : List Service.DownloadRound)
  /-- The `i`-th function takes a step. -/
  | run (i : ℕ) (answers : Answers)

def start : Serving := ⟨.new, []⟩

def step (s : Serving) : Action → Option Serving
  | .accept socket => some (s.spawn (Service.accept socket))
  | .complete i outcome =>
    s.shared.posted[i]?.map fun operation =>
      let shared := { s.shared with posted := s.shared.posted.eraseIdx i }
      Config.spawn ⟨shared, s.calls⟩ (operation.complete outcome)
  | .link receiverId recvId sendId =>
    some (s.spawn (Service.sendDownloadLink receiverId recvId sendId))
  | .download receiverId rounds => some (s.spawn (Service.handleFileTransfer receiverId rounds))
  | .run i answers => Config.run (Prog.exec Pools.handle) s i answers

end Serving

/-! ## What is asked for -/

namespace ServerCall

/-- A null pointer from a pool is used, or a packet is forgotten. -/
@[grind]
def Fatal (q : ServerCall) : Prop := q = .nullDereference ∨ ∃ p, q = .abandon p

/-- If the call borrows something that is needed, the pool has it. -/
def Served (s : Pools) : ServerCall → Prop
  | .borrowPacket site => site.optional = false → s.packets.availableIdx ≠ []
  | .borrowIOPdata _ => s.contexts.freeIndices ≠ []
  | _ => True

/-- The answer is not null if it is needed. -/
def Obtains : (q : ServerCall) → q.Answer → Prop
  | .borrowPacket site, p => site.optional = false → p ≠ none
  | .borrowIOPdata _, c => c ≠ none
  | _, _ => True

end ServerCall

namespace Serving

/-- No function uses a null pointer from a pool, and none forgets its packet. -/
def Survives (s : Serving) : Prop := ∀ m ∈ s.calls, ∀ q, m.next = some q → ¬ q.Fatal

/-- A function that comes to a pool finds what it needs. -/
def Provided (s : Serving) : Action → Prop
  | .run i _ => ∀ m, s.calls[i]? = some m → ∀ q, m.next = some q → q.Served s.shared
  | _ => True

end Serving

/-! ## The functions, one by one -/

namespace Service

variable {α β : Type}

/-- The function survives if it gets what it needs. -/
def Sound (m : Service α) : Prop := m.Safe ServerCall.Fatal ServerCall.Obtains

@[grind ←]
theorem sound_pure (a : α) : Sound (pure a) := Prog.safe_pure a

@[grind ←]
theorem Sound.bind {m : Service α} {f : α → Service β} (hm : m.Sound) (hf : ∀ a, (f a).Sound) :
    Sound (m >>= f) := Prog.Safe.bind hm hf

@[grind ←]
theorem sound_request {q : ServerCall} (h : ¬ q.Fatal) : (request q).Sound := Prog.safe_request h

/-! The two ways of borrowing without a check, and the one that forgets a packet.  In all other
functions there is nothing but these. -/

@[grind ←]
theorem sound_takePacket {site : PacketSite} (h : site.optional = false) :
    (takePacket site).Sound := by
  refine Prog.Safe.request_bind (by simp [ServerCall.Fatal]) ?_
  intro p hp
  cases p with
  | none => exact absurd rfl (hp h)
  | some p => exact sound_pure p

@[grind ←]
theorem sound_takeIOPdata (site : ContextSite) : (takeIOPdata site).Sound := by
  refine Prog.Safe.request_bind (by simp [ServerCall.Fatal]) ?_
  intro c hc
  cases c with
  | none => exact absurd rfl hc
  | some c => exact sound_pure c

@[grind ←]
theorem sound_nullItem : (nullItem : Service α).Sound :=
  ⟨by simp [ServerCall.Fatal], fun e => e.elim⟩

/-! Sending, and the queues. -/

section Sending

variable (u : UserId) (p : PacketPtr) (q : Option PacketPtr) (socket : Socket)

@[grind ←]
theorem sound_postRecv : (postRecv socket).Sound := by
  grind [postRecv]

@[grind ←]
theorem sound_initiateSend : (initiateSend socket q).Sound := by
  grind [initiateSend]

@[grind ←]
theorem sound_sendPacket : (sendPacket q socket).Sound := by
  grind [sendPacket]

@[grind ←]
theorem sound_routePacket : (routePacket q u).Sound := by
  grind [routePacket]

@[grind ←]
theorem sound_sendFront : (sendFront u).Sound := by
  grind [sendFront]

@[grind ←]
theorem sound_manageCompletePacket : (manageCompletePacket p u).Sound := by
  grind [manageCompletePacket]

@[grind ←]
theorem sound_notifySend : (notifySend u).Sound := by
  grind [notifySend]

@[grind ←]
theorem sound_sendNext : (sendNext u socket).Sound := by
  grind [sendNext]

@[grind ←]
theorem sound_drainNext : (drainNext u socket).Sound := by
  grind [drainNext]

@[grind ←]
theorem sound_clearFlag : (clearFlag u).Sound := by
  grind [clearFlag]

@[grind ←]
theorem sound_sendResponse (site : PacketSite) : (sendResponse site socket).Sound := by
  apply Sound.bind (by grind)
  intro iocp
  split
  · apply Sound.bind (by grind)
    intro response
    cases response with
    | none => exact sound_pure ()
    | some response => grind
  · exact sound_pure ()

variable {site : PacketSite} (h : site.optional = false)

include h in
@[grind ←]
theorem sound_routeReply : (routeReply site u).Sound := by
  grind [routeReply]

include h in
@[grind ←]
theorem sound_sendFilePacket : (sendFilePacket site u).Sound := by
  grind [sendFilePacket]

end Sending

/-! The handlers. -/

section Handlers

variable (u : UserId) (p : PacketPtr) (r : Arrival) (socket : Socket)

@[grind ←]
theorem sound_handleAuthPacket : (handleAuthPacket p socket).Sound := by
  grind [handleAuthPacket, sendTokenGranted, sendAuthFailure]

@[grind ←]
theorem sound_otpRequestHandler : (otpRequestHandler p).Sound := by
  grind [otpRequestHandler, PacketSite.optional]

@[grind ←]
theorem sound_signUpRequestHandler : (signUpRequestHandler p).Sound := by
  grind [signUpRequestHandler, PacketSite.optional]

@[grind ←]
theorem sound_onOtpVerificationRequest : (onOtpVerificationRequest p).Sound := by
  apply Sound.bind (by grind)
  intro sessionId
  apply Sound.bind (by grind)
  intro _
  apply Sound.bind (by grind)
  intro found
  cases found <;> grind [PacketSite.optional]

@[grind ←]
theorem sound_handleFileStart : (handleFileStart p).Sound := by
  grind [handleFileStart, sendErrorPacket, PacketSite.optional]

@[grind ←]
theorem sound_handleRoundEnd : (handleRoundEnd p).Sound := by
  grind [handleRoundEnd, sendAck, PacketSite.optional]

@[grind ←]
theorem sound_handleFileEnd : (handleFileEnd p).Sound := by
  grind [handleFileEnd, sendFileStatus, PacketSite.optional]

@[grind ←]
theorem sound_handleDownloadRequest : (handleDownloadRequest p r).Sound := by
  grind [handleDownloadRequest, sendErrorPacket, PacketSite.optional]

@[grind ←]
theorem sound_afterLogin (success : Bool) : (afterLogin success).Sound := by
  grind [afterLogin, PacketSite.optional]

@[grind ←]
theorem sound_afterToken (success : Bool) : (afterToken success).Sound := by
  grind [afterToken]

end Handlers

/-! The loops. -/

section Loops

variable (u : UserId) (p : PacketPtr) (socket : Socket)

@[grind ←]
theorem sound_sendChunks (n : ℕ) : (sendChunks u n).Sound := by
  induction n with
  | zero => exact sound_pure ()
  | succ n ih => exact (sound_sendFilePacket u rfl).bind fun _ => ih

@[grind ←]
theorem sound_sendMissing (n : ℕ) (missing : List ℕ) : (sendMissing u n missing).Sound := by
  induction missing with
  | nil => exact sound_pure ()
  | cons idx missing ih =>
    rw [sendMissing]
    split
    · exact ih
    · exact (sound_sendFilePacket u rfl).bind fun _ => ih

@[grind ←]
theorem sound_askForAck (n : ℕ) (answers : List (List ℕ)) : (askForAck u n answers).Sound := by
  induction answers with
  | nil => exact (sound_sendFilePacket u rfl).bind fun _ => sound_pure false
  | cons missing answers ih =>
    apply (sound_sendFilePacket u rfl).bind
    grind

@[grind ←]
theorem sound_sendRounds (rounds : List DownloadRound) : (sendRounds u rounds).Sound := by
  induction rounds with
  | nil => exact sound_pure true
  | cons round rounds ih => grind [sendRounds]

/-- The loop over the members gets a packet for each of them, and does not forget its own. -/
@[grind ←]
theorem sound_fanOut (sendId : UserId) (members : List UserId) : (fanOut p sendId members).Sound := by
  induction members with
  | nil => exact sound_pure true
  | cons memberId members ih =>
    rw [fanOut]
    split
    · exact ih
    · refine Prog.Safe.request_bind (by simp [ServerCall.Fatal]) ?_
      intro outgoing hsome
      cases outgoing with
      | none => exact absurd rfl (hsome rfl)
      | some outgoing => exact (sound_manageCompletePacket memberId outgoing).bind fun _ => ih

@[grind ←]
theorem sound_extract (packets : List Arrival) : (extract packets).Sound := by
  induction packets with
  | nil => exact sound_pure []
  | cons r packets ih => grind [extract]

@[grind ←]
theorem sound_returnAll (batch : List (PacketPtr × Arrival)) : (returnAll batch).Sound := by
  induction batch with
  | nil => exact sound_pure ()
  | cons b batch ih => grind [returnAll]

end Loops

/-! The dispatch and the threads. -/

section Threads

variable (u : UserId) (p : PacketPtr) (c : ContextPtr) (r : Arrival) (socket : Socket)

@[grind ←]
theorem sound_routeGroupMessage (recvId sendId : UserId) :
    (routeGroupMessage p recvId sendId).Sound := by
  grind [routeGroupMessage]

theorem sound_route (type : Option PacketType) : (route socket p r type).Sound := by
  cases type with
  | none => exact sound_pure ()
  | some type =>
    cases type <;>
      grind [route, handleLoginPacket, handleTokenPacket, handleRefreshPacket, handleFileChunk,
        onAckReceived, handleDisconnectRequest]

@[grind ←]
theorem sound_handlePacket : (handlePacket socket p r).Sound := by
  grind [handlePacket, sound_route, sendAuthFailure]

@[grind ←]
theorem sound_dispatchAll (batch : List (PacketPtr × Arrival)) : (dispatchAll socket batch).Sound := by
  induction batch with
  | nil => exact sound_pure ()
  | cons b batch ih => grind [dispatchAll]

@[grind ←]
theorem sound_dispatch (batch : List (PacketPtr × Arrival)) : (dispatch socket batch).Sound := by
  grind [dispatch]

theorem sound_received (packets : List Arrival) : (received socket c packets).Sound := by
  grind [received]

theorem sound_sent : (sent socket c p).Sound := by
  grind [sent]

theorem sound_failed (packet : Option PacketPtr) : (failed c packet).Sound := by
  cases packet with
  | none | some => grind [failed]

theorem sound_accept : (accept socket).Sound := by
  grind [accept]

theorem sound_sendDownloadLink (receiverId recvId sendId : UserId) :
    (sendDownloadLink receiverId recvId sendId).Sound := by
  grind [sendDownloadLink, PacketSite.optional]

theorem sound_handleFileTransfer (rounds : List DownloadRound) :
    (handleFileTransfer u rounds).Sound := by
  grind [handleFileTransfer, sendErrorPacket, PacketSite.optional]

end Threads

end Service

/-! ## The pools -/

/-- The queue of the pool has no packet twice, and none that is in use. -/
structure PacketPool.InOrder (pool : PacketPool) : Prop where
  nodup : pool.availableIdx.Nodup
  free : ∀ p ∈ pool.availableIdx, pool.inUse p = false

namespace PacketPool.InOrder

variable {pool : PacketPool}

theorem new : PacketPool.new.InOrder := by
  constructor
  · simp only [PacketPool.new, List.nodup_range]
  · intro p _
    rfl

/-- The loop of `borrowPacket` stops at the front of the queue. -/
theorem borrowPacket_eq (h : pool.InOrder) {p : PacketPtr} {rest : List PacketPtr}
    (hq : pool.availableIdx = p :: rest) :
    pool.borrowPacket =
      some (⟨rest, Function.update pool.inUse p true, pool.bypassQueue⟩, some p) := by
  have hfree := h.free p (by simp [hq])
  simp [borrowPacket, hq, nextAvailable, hfree]

theorem exists_borrowPacket (h : pool.InOrder) :
    ∃ pool' p, pool.borrowPacket = some (pool', p) ∧ pool'.InOrder ∧
      (pool.availableIdx ≠ [] → p ≠ none) := by
  cases hq : pool.availableIdx with
  | nil => exact ⟨pool, none, by simp [borrowPacket, hq], h, by simp⟩
  | cons p rest =>
    have hnodup := h.nodup
    rw [hq, List.nodup_cons] at hnodup
    refine ⟨_, some p, h.borrowPacket_eq hq, ⟨hnodup.2, ?_⟩, by simp⟩
    intro p' hp'
    have hne : p' ≠ p := fun heq => hnodup.1 (heq ▸ hp')
    simpa [hne] using h.free p' (by simp [hq, hp'])

theorem returnPacket (h : pool.InOrder) (p : PacketPtr) : (pool.returnPacket p).InOrder := by
  rw [PacketPool.returnPacket]
  split
  · exact h
  · dsimp only
    split
    next huse =>
      have hnew : p ∉ pool.availableIdx := fun hp => by simp [h.free p hp] at huse
      constructor
      · rw [List.nodup_append_comm]
        exact List.nodup_cons.mpr ⟨hnew, h.nodup⟩
      · intro p' hp'
        rcases List.mem_append.mp hp' with hp' | hp'
        · have hne : p' ≠ p := fun heq => hnew (heq ▸ hp')
          simpa [hne] using h.free p' hp'
        · simp [List.mem_singleton.mp hp']
    next => exact ⟨h.nodup, h.free⟩

end PacketPool.InOrder

/-- The queues of both pools have only what they can lend. -/
structure Pools.InOrder (s : Pools) : Prop where
  packets : s.packets.InOrder
  contexts : ∀ c ∈ s.contexts.freeIndices, c < IOContextPool.maxSize

namespace Pools.InOrder

variable {s s' : Pools} {e : Answers}

theorem new : Pools.new.InOrder := by
  refine ⟨.new, ?_⟩
  intro c hc
  simpa [Pools.new, IOContextPool.new] using hc

theorem borrowIOPdata (h : s.InOrder) :
    (∀ c ∈ s.contexts.borrowIOPdata.1.freeIndices, c < IOContextPool.maxSize) ∧
      (s.contexts.freeIndices ≠ [] → s.contexts.borrowIOPdata.2 ≠ none) := by
  have hlt := h.contexts
  rw [IOContextPool.borrowIOPdata]
  cases hq : s.contexts.freeIndices with
  | nil => simp [hq]
  | cons c rest =>
    rw [hq, List.forall_mem_cons] at hlt
    exact ⟨hlt.2, by simp [hlt.1]⟩

theorem returnIOPdata (h : s.InOrder) (c : ContextPtr) :
    ∀ c' ∈ (s.contexts.returnIOPdata c).freeIndices, c' < IOContextPool.maxSize := by
  have hlt := h.contexts
  grind [IOContextPool.returnIOPdata]

/-- **A call** keeps the pools in order, and gives what is needed if the pool has it. -/
theorem handle (h : s.InOrder) {q : ServerCall} {a : q.Answer}
    (hstep : s.handle e q = some (s', a)) : s'.InOrder ∧ (q.Served s → q.Obtains a) := by
  cases q with
  | borrowPacket site =>
    obtain ⟨pool, p, hborrow, horder, hsome⟩ := h.packets.exists_borrowPacket
    simp only [Pools.handle, hborrow, Option.map_some, Option.some.injEq] at hstep
    cases hstep
    exact ⟨⟨horder, h.contexts⟩, fun hserved hneeded => hsome (hserved hneeded)⟩
  | borrowIOPdata site =>
    cases hstep
    exact ⟨⟨h.packets, h.borrowIOPdata.1⟩, h.borrowIOPdata.2⟩
  | returnPacket p =>
    cases hstep
    exact ⟨⟨h.packets.returnPacket p, h.contexts⟩, fun _ => trivial⟩
  | setBypass p =>
    cases hstep
    exact ⟨⟨⟨h.packets.nodup, h.packets.free⟩, h.contexts⟩, fun _ => trivial⟩
  | returnIOPdata c =>
    cases hstep
    exact ⟨⟨h.packets, h.returnIOPdata c⟩, fun _ => trivial⟩
  | wsaRecv socket c | wsaSend socket c p =>
    cases hstep
    refine ⟨?_, fun _ => trivial⟩
    split
    · exact ⟨h.packets, h.contexts⟩
    · exact h
  | takeFlag u =>
    rw [Pools.handle] at hstep
    split at hstep
    · cases hstep
      exact ⟨h, fun _ => trivial⟩
    · cases hstep
      exact ⟨⟨h.packets, h.contexts⟩, fun _ => trivial⟩
  | nullDereference | nullItem => cases hstep
  | push | pop | storeFalse | bypassQueue | mapped | isEmpty | front | findSession | getGroup | userId
  | ask | abandon =>
    cases hstep
    exact ⟨⟨h.packets, h.contexts⟩, fun _ => trivial⟩

end Pools.InOrder

/-! ## Runs -/

theorem Posted.sound_complete (operation : Posted) (outcome : Posted.Outcome) :
    (operation.complete outcome).Sound := by
  cases outcome with
  | failure => exact Service.sound_failed operation.context operation.packet
  | success packets =>
    rw [Posted.complete]
    split
    · exact Service.sound_received operation.context operation.socket packets
    · exact Service.sound_sent _ operation.context operation.socket

namespace Serving

/-- The functions are sound, and the pools are in order. -/
structure Inv (s : Serving) : Prop where
  sound : ∀ m ∈ s.calls, Service.Sound m
  order : s.shared.InOrder

section Inv

variable {s s' : Serving} {m : Service Unit}

theorem Inv.spawn (h : s.Inv) (hm : m.Sound) : Inv (s.spawn m) := by
  refine ⟨?_, h.order⟩
  intro m' hm'
  rcases List.mem_append.mp hm' with hm' | hm'
  · exact h.sound m' hm'
  · rw [List.mem_singleton.mp hm']
    exact hm

theorem Inv.run (h : s.Inv) {i : ℕ} {e : Answers} (hok : s.Provided (.run i e))
    (hstep : s.step (.run i e) = some s') : s'.Inv := by
  obtain ⟨m, m', hm, -, -, hexec⟩ := Config.run_spec hstep
  obtain ⟨q, a, -, hhandle⟩ := Prog.exists_of_exec hexec
  refine ⟨Prog.safe_of_run h.sound ?_ hstep, (h.order.handle hhandle).1⟩
  intro m hm q hq r hr
  exact (h.order.handle hr).2 (hok m hm q hq)

theorem Inv.step (h : s.Inv) {a : Action} (hok : s.Provided a) (hstep : s.step a = some s') :
    s'.Inv := by
  cases a with
  | accept socket =>
    cases hstep
    exact h.spawn (Service.sound_accept socket)
  | complete i outcome =>
    obtain ⟨operation, -, rfl⟩ := Option.map_eq_some_iff.mp hstep
    exact Inv.spawn ⟨h.sound, h.order.packets, h.order.contexts⟩ (operation.sound_complete outcome)
  | link receiverId recvId sendId =>
    cases hstep
    exact h.spawn (Service.sound_sendDownloadLink receiverId recvId sendId)
  | download receiverId rounds =>
    cases hstep
    exact h.spawn (Service.sound_handleFileTransfer receiverId rounds)
  | run i e => exact h.run hok hstep

end Inv

/-- `WSARecv` takes the operation, and nothing else is asked. -/
def silent : Answers := ⟨fun _ => false, fun _ => none, fun _ => none, [], true⟩

section Accept

variable {s : Pools} {c : ContextPtr} {rest : List ContextPtr}

end Accept

end Serving

end IocpChat

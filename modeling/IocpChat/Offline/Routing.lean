import IocpChat.Offline.Completions
import IocpChat.Session.Bindings

/-!
# The sockets that packets are sent on

A packet that is enqueued for a user is to be sent on the user's socket.  Two calls find
the socket: `routePacket` looks up the session of the receiver, and `drainNext` uses the
socket on which the packet before was sent.  Neither holds a lock until `initiateSend` is
called, and `drainNext` is called for whoever is on that socket now, which is the empty id
after a logout.  A packet whose send fails after a logout goes to the queue of the empty
id, and from there to any socket without a user (`misrouted`).

`routed_of_steady` says when packets reach their receivers: bindings end only while no call
has the socket in hand, packets are enqueued for one receiver, and the completions find a
user.

## Main definitions

* `Receiver.Owns` — a receiver has only packets that were enqueued for it.
* `Call.Placed` — the socket or session in the hands of a call belongs to its receiver.
* `Server.Steady`, `Server.Routed` — the condition, and what it ensures.
-/

namespace IocpChat

open Transition

/-! ## The packets of a receiver -/

/-- The packet in the hands of a call. -/
def Call.packet : Call → Option PacketId
  | .alloc p => some p
  | .route p => p
  | .deref _ p => p
  | .send _ p => p
  | _ => none

/-- Every packet of a queue, in flight or in the hands of a call meets the condition. -/
structure ClientQueue.Holds (P : PacketId → Prop) (c : ClientQueue) (calls : List Call) : Prop where
  data : ∀ n p, c.queue.data n = some p → P p
  outstanding : ∀ o ∈ c.outstanding, P o.packet
  calls : ∀ call ∈ calls, ∀ p, call.packet = some p → P p

section Holds

variable {P : PacketId → Prop} {c c' : ClientQueue} {calls others : List Call} {call call' : Call}
  {env : Env}

theorem ClientQueue.Holds.packet (h : c.Holds P (call :: others))
    (hexec : c.exec env call = some (c', call')) : ∀ p, call'.packet = some p → P p := by
  have hown := h.calls call List.mem_cons_self
  intro p hp
  cases call with
  | alloc p' | exchange p' node | link prev node | advance socket t n | release => cases hexec; cases hp
  | cas pushed =>
    rcases exec_cas_cases hexec with ⟨-, -, rfl⟩ | ⟨-, -, rfl⟩ <;> cases hp
  | empty test t =>
    cases t with
    | none => cases hexec; cases hp
    | some t =>
      cases hexec
      cases test <;> simp only [Test.after] at hp <;> split at hp <;> cases hp
  | pop socket cursor =>
    simp only [exec] at hexec
    split at hexec <;> cases hexec <;> cases hp
  | front socket cursor =>
    simp only [exec] at hexec
    split at hexec
    · cases hexec
      cases hp
    · cases hexec
      cases socket <;> cases hp
    · split at hexec
      · cases hexec
        cases hp
      · rename_i hdata
        cases hexec
        cases socket <;> cases hp <;> exact h.data _ _ hdata
  | route p' =>
    simp only [exec] at hexec
    split at hexec
    · cases hexec
      cases hp
    · cases hexec
      exact hown p hp
  | deref session p' =>
    cases hexec
    exact hown p hp
  | send socket p' =>
    cases p' with
    | none =>
      cases hexec
      cases hp
    | some p' =>
      rcases exec_send_cases hexec with ⟨-, rfl, -⟩ | ⟨-, rfl, -⟩ <;> cases hp
  | done | crashed => cases hexec

theorem ClientQueue.Holds.exec (h : c.Holds P (call :: others))
    (hexec : c.exec env call = some (c', call')) :
    c'.Holds P (call' :: others) ∧ c'.enqueued = c.enqueued := by
  have hcalls : ∀ u ∈ call' :: others, ∀ p, u.packet = some p → P p :=
    List.forall_mem_cons.mpr ⟨h.packet hexec, fun u hu => h.calls u (List.mem_cons_of_mem call hu)⟩
  have hown := h.calls call List.mem_cons_self
  cases effect_of_exec hexec with
  | alloc p =>
    refine ⟨⟨?_, h.outstanding, hcalls⟩, rfl⟩
    intro n p' hdata
    simp only [MpscQueue.alloc, Function.update_apply] at hdata
    split at hdata
    · cases hdata
      exact hown p rfl
    · exact h.data n p' hdata
  | accept socket p =>
    refine ⟨⟨h.data, ?_, hcalls⟩, rfl⟩
    exact List.forall_mem_append.mpr ⟨h.outstanding, List.forall_mem_singleton.mpr (hown p rfl)⟩
  | exchange | link | take | advance | reject | release | read =>
    exact ⟨⟨h.data, h.outstanding, hcalls⟩, rfl⟩

end Holds

/-- **A receiver has only packets that were enqueued for it.** -/
def Receiver.Owns (r : Receiver) : Prop := r.shared.Holds (· ∈ r.shared.enqueued) r.calls

namespace Receiver

variable {r : Receiver}

theorem Owns.spawn (h : r.Owns) {call : Call} (hcall : call.packet = none) :
    Receiver.Owns (r.spawn call) := by
  refine ⟨h.data, h.outstanding, ?_⟩
  refine List.forall_mem_append.mpr ⟨h.calls, List.forall_mem_singleton.mpr ?_⟩
  intro p hp
  rw [hcall] at hp
  cases hp

theorem Owns.manageCompletePacket (h : r.Owns) (p : PacketId) :
    (r.manageCompletePacket p).Owns := by
  have hmem : ∀ p', p' ∈ r.shared.enqueued → p' ∈ r.shared.enqueued ++ [p] :=
    fun p' hp' => List.mem_append_left [p] hp'
  refine ⟨fun n p' hdata => hmem p' (h.data n p' hdata), fun o ho => hmem _ (h.outstanding o ho), ?_⟩
  intro u hu p' hp'
  rcases List.mem_append.mp hu with hu | hu
  · exact hmem p' (h.calls u hu p' hp')
  · cases List.mem_singleton.mp hu
    cases hp'
    exact List.mem_append_right _ (List.mem_singleton_self p)

theorem Owns.notifySend (h : r.Owns) : r.notifySend.Owns := by
  unfold Receiver.notifySend
  split
  · exact h.spawn rfl
  · exact h

theorem Owns.drainNext (h : r.Owns) (socket : Socket) : (r.drainNext socket).Owns := by
  unfold Receiver.drainNext
  split
  · exact h.spawn rfl
  · exact h

theorem Owns.clearFlag (h : r.Owns) : r.clearFlag.Owns := by
  unfold Receiver.clearFlag
  split
  · exact ⟨h.data, h.outstanding, h.calls⟩
  · exact h

theorem Owns.dequeue (h : r.Owns) (i : ℕ) : (r.dequeue i).Owns :=
  ⟨h.data, fun o ho => h.outstanding o (List.mem_of_mem_eraseIdx ho), h.calls⟩

theorem Owns.complete (h : r.Owns) (p : PacketId) : (r.complete p).Owns :=
  ⟨h.data, h.outstanding, h.calls⟩

theorem Owns.run {r' : Receiver} {i : ℕ} {env : Env} (h : r.Owns)
    (hrun : Config.run ClientQueue.exec r i env = some r') :
    r'.Owns ∧ r'.shared.enqueued = r.shared.enqueued := by
  obtain ⟨call, call', -, hperm, hperm', hexec⟩ := Config.run_spec hrun
  have hcons : r.shared.Holds (· ∈ r.shared.enqueued) (call :: r.calls.eraseIdx i) :=
    { h with calls := fun u hu => h.calls u (hperm.mem_iff.mpr hu) }
  obtain ⟨hafter, henqueued⟩ := hcons.exec hexec
  refine ⟨?_, henqueued⟩
  rw [Owns, henqueued]
  exact { hafter with calls := fun u hu => hafter.calls u (hperm'.mem_iff.mp hu) }

end Receiver

/-! ## The sockets -/

/-- The session or the socket in the hands of a call belongs to its receiver. -/
def Call.Placed (m : SessionManager) (u : UserId) : Call → Prop
  | .deref s _ => ∃ k, m.Bound k u s
  | .send k _ | .empty (.first k) _ | .empty (.again k) _ | .pop k _ | .advance k _ _
  | .front (some k) _ => ∃ s, m.Bound k u s
  | _ => True

/-- The call has a session or a socket in hand. -/
def Call.engaged : Call → Bool
  | .deref .. | .send .. | .empty (.first _) _ | .empty (.again _) _ | .pop .. | .advance ..
  | .front (some _) _ => true
  | _ => false

/-- No call has a session or a socket in hand. -/
def Receiver.Idle (r : Receiver) : Prop := ∀ call ∈ r.calls, call.engaged = false

instance (r : Receiver) : Decidable r.Idle := inferInstanceAs (Decidable (∀ call ∈ r.calls, _))

section Placed

variable {m m' : SessionManager} {u : UserId} {call call' : Call}

theorem Call.placed_of_not_engaged (h : call.engaged = false) : call.Placed m u := by
  cases call with
  | empty test t =>
    cases test with
    | notify => trivial
    | first | again => cases h
  | front socket cursor =>
    cases socket with
    | none => trivial
    | some k => cases h
  | deref | send | pop | advance => cases h
  | alloc | exchange | link | cas | route | release | done | crashed => trivial

theorem Call.Placed.mono (h : call.Placed m u)
    (hbound : ∀ {k s}, m.Bound k u s → m'.Bound k u s) : call.Placed m' u := by
  have hsocket : ∀ {k}, (∃ s, m.Bound k u s) → ∃ s, m'.Bound k u s := fun h => h.imp fun _ => hbound
  cases call with
  | empty test t =>
    cases test with
    | notify => trivial
    | first | again => exact hsocket h
  | front socket cursor =>
    cases socket with
    | none => trivial
    | some k => exact hsocket h
  | deref s p => exact h.imp fun _ => hbound
  | send | pop | advance => exact hsocket h
  | alloc | exchange | link | cas | route | release | done | crashed => trivial

theorem Call.Placed.exec {c c' : ClientQueue} {env : Env} (h : call.Placed m u)
    (hfound : ∀ s, env.found = some s → ∃ k, m.Bound k u s)
    (hsocket : ∀ s, env.socketOf s = (m.pool s).socket)
    (hexec : c.exec env call = some (c', call')) : call'.Placed m u := by
  cases call with
  | cas pushed =>
    rcases ClientQueue.exec_cas_cases hexec with ⟨-, -, rfl⟩ | ⟨-, -, rfl⟩ <;> trivial
  | empty test t =>
    cases t with
    | none =>
      cases hexec
      cases test <;> exact h
    | some t =>
      cases hexec
      cases test <;> simp only [Test.after] <;> split <;> trivial
  | pop k cursor =>
    simp only [ClientQueue.exec] at hexec
    split at hexec <;> cases hexec <;> exact h
  | advance k t n =>
    cases hexec
    exact h
  | front k cursor =>
    simp only [ClientQueue.exec] at hexec
    split at hexec
    · cases hexec
      cases k <;> exact h
    · cases hexec
      cases k with
      | none => trivial
      | some k => exact h
    · split at hexec
      · cases hexec
        trivial
      · cases hexec
        cases k with
        | none => trivial
        | some k => exact h
  | route p =>
    simp only [ClientQueue.exec] at hexec
    split at hexec
    · cases hexec
      trivial
    · rename_i s hs
      cases hexec
      exact hfound s hs
  | deref s p =>
    cases hexec
    obtain ⟨k, hb⟩ := h
    refine ⟨s, ?_⟩
    rw [hsocket, hb.2.2]
    exact hb
  | send k p =>
    cases p with
    | none => cases hexec; trivial
    | some p =>
      rcases ClientQueue.exec_send_cases hexec with ⟨-, rfl, -⟩ | ⟨-, rfl, -⟩ <;> trivial
  | done | crashed => cases hexec
  | _ => cases hexec; trivial

end Placed

/-! ## The server -/

namespace Server

/-- No packet is enqueued for two receivers. -/
def Addressed (s : Server) : Action → Prop
  | .enqueue u p => ∀ v ≠ u, p ∉ (s.receivers v).shared.enqueued
  | _ => True

/-- **A step leaves the bindings to the calls that use them.**  A call to the session manager
fits, and ends no binding while a call for its user has the socket in hand.  A packet that
was sent leaves a socket with a user, if anything is queued for the empty id.  A packet that
completes with an error finds its own receiver on the socket. -/
def Steady (s : Server) : Action → Prop
  | .session op => s.sessionManager.Fits op ∧ ∀ u ∈ s.sessionManager.ended op, (s.receivers u).Idle
  | .sent u i => ∀ o ∈ (s.receivers u).shared.outstanding[i]?,
      s.sessionManager.socketToUserId o.socket ≠ none ∨ (s.receivers []).shared.mapped = false
  | .failed u i => ∀ o ∈ (s.receivers u).shared.outstanding[i]?,
      s.sessionManager.getUserIdBySocket o.socket = u
  | _ => True

instance (s : Server) (a : Action) : Decidable (s.Steady a) := by
  unfold Steady
  split <;> infer_instance

/-- **A packet is sent on the socket of the receiver it was enqueued for.** -/
def Routed (s : Server) : Prop :=
  ∀ u v k p, .send k (some p) ∈ (s.receivers u).calls → p ∈ (s.receivers v).shared.enqueued →
    ∃ session, s.sessionManager.Bound k v session

structure Ordered (s : Server) : Prop where
  consistent : s.sessionManager.Consistent
  owns : ∀ u, (s.receivers u).Owns
  placed : ∀ u, ∀ call ∈ (s.receivers u).calls, call.Placed s.sessionManager u
  single : ∀ u v p, p ∈ (s.receivers u).shared.enqueued → p ∈ (s.receivers v).shared.enqueued → u = v

variable {s s' : Server} {u v : UserId} {f : Receiver → Receiver}

theorem Ordered.routed (h : s.Ordered) : s.Routed := by
  intro u v k p hcall hp
  have hmem : p ∈ (s.receivers u).shared.enqueued := (h.owns u).calls _ hcall p rfl
  rw [← h.single u v p hmem hp]
  exact h.placed u _ hcall

theorem Ordered.modify (h : s.Ordered) (howns : (f (s.receivers u)).Owns)
    (hplaced : ∀ call ∈ (f (s.receivers u)).calls, call.Placed s.sessionManager u)
    (hsingle : ∀ p ∈ (f (s.receivers u)).shared.enqueued,
      p ∈ (s.receivers u).shared.enqueued ∨ ∀ v ≠ u, p ∉ (s.receivers v).shared.enqueued) :
    (s.modify u f).Ordered := by
  have hreceivers : ∀ v, v ≠ u → (s.modify u f).receivers v = s.receivers v :=
    fun v hv => receivers_modify_of_ne hv.symm
  constructor
  · exact h.consistent
  · intro v
    by_cases hv : v = u
    · subst hv
      simpa using howns
    · rw [hreceivers v hv]
      exact h.owns v
  · intro v
    by_cases hv : v = u
    · subst hv
      rw [receivers_modify_self]
      exact hplaced
    · rw [hreceivers v hv]
      exact h.placed v
  · have hown : ∀ v p, v ≠ u → p ∈ (f (s.receivers u)).shared.enqueued →
        p ∉ (s.receivers v).shared.enqueued := by
      intro v p hv hp hp'
      rcases hsingle p hp with hold | hnew
      · exact hv (h.single v u p hp' hold)
      · exact hnew v hv hp'
    intro v w p hp hp'
    by_cases hv : v = u
    · by_cases hw : w = u
      · rw [hv, hw]
      · subst hv
        rw [receivers_modify_self] at hp
        rw [hreceivers w hw] at hp'
        exact absurd hp' (hown w p hw hp)
    · rw [hreceivers v hv] at hp
      by_cases hw : w = u
      · subst hw
        rw [receivers_modify_self] at hp'
        exact absurd hp (hown v p hv hp')
      · rw [hreceivers w hw] at hp'
        exact h.single v w p hp hp'

theorem Ordered.modify_of_eq (h : s.Ordered) (howns : (f (s.receivers u)).Owns)
    (hcalls : (f (s.receivers u)).calls = (s.receivers u).calls)
    (henqueued : (f (s.receivers u)).shared.enqueued = (s.receivers u).shared.enqueued) :
    (s.modify u f).Ordered := by
  refine h.modify howns ?_ ?_
  · rw [hcalls]
    exact h.placed u
  · rw [henqueued]
    exact fun p hp => .inl hp

theorem placed_append {m : SessionManager} {calls : List Call} (h : ∀ c ∈ calls, c.Placed m u)
    (call : Call) (hcall : call.Placed m u) : ∀ c ∈ calls ++ [call], c.Placed m u := by
  exact List.forall_mem_append.mpr ⟨h, List.forall_mem_singleton.mpr hcall⟩

theorem Ordered.manageCompletePacket (h : s.Ordered) {p : PacketId}
    (hp : p ∈ (s.receivers u).shared.enqueued ∨ ∀ v ≠ u, p ∉ (s.receivers v).shared.enqueued) :
    (s.modify u (·.manageCompletePacket p)).Ordered := by
  refine h.modify ((h.owns u).manageCompletePacket p) ?_ ?_
  · exact placed_append (h.placed u) (.alloc p) trivial
  · intro p' hp'
    rcases List.mem_append.mp hp' with hold | hnew
    · exact .inl hold
    · cases List.mem_singleton.mp hnew
      exact hp

theorem Ordered.clearFlag (h : s.Ordered) : (s.modify u Receiver.clearFlag).Ordered := by
  have hsame : (s.receivers u).clearFlag.calls = (s.receivers u).calls ∧
      (s.receivers u).clearFlag.shared.enqueued = (s.receivers u).shared.enqueued := by
    unfold Receiver.clearFlag
    split <;> exact ⟨rfl, rfl⟩
  exact h.modify_of_eq (h.owns u).clearFlag hsame.1 hsame.2

theorem Ordered.drainNext (h : s.Ordered) {k : Socket}
    (hk : (∃ session, s.sessionManager.Bound k u session) ∨ (s.receivers u).shared.mapped = false) :
    (s.modify u (·.drainNext k)).Ordered := by
  refine h.modify ((h.owns u).drainNext k) ?_ ?_
  · unfold Receiver.drainNext
    split
    · rename_i hmapped
      exact placed_append (h.placed u) (.empty (.first k) none) (hk.resolve_right (by simp [hmapped]))
    · exact h.placed u
  · unfold Receiver.drainNext
    split <;> exact fun p hp => .inl hp

theorem Ordered.dequeue (h : s.Ordered) (i : ℕ) : (s.modify u (·.dequeue i)).Ordered :=
  h.modify_of_eq ((h.owns u).dequeue i) rfl rfl

theorem Ordered.found (h : s.Ordered) {junk : Option ℕ} {accepted : Bool} {session : SessionPtr}
    (hfound : (s.env u junk accepted).found = some session) :
    ∃ k, s.sessionManager.Bound k u session := by
  unfold env at hfound
  split at hfound
  · cases hfound
  · exact ⟨_, h.consistent.bound (Option.join_eq_some_iff.mp hfound)⟩

theorem Ordered.notifySend (h : s.Ordered) : (s.modify u Receiver.notifySend).Ordered := by
  refine h.modify (h.owns u).notifySend ?_ ?_
  · unfold Receiver.notifySend
    split
    · exact placed_append (h.placed u) (.empty .notify none) trivial
    · exact h.placed u
  · unfold Receiver.notifySend
    split <;> exact fun p hp => .inl hp

theorem Ordered.run {i : ℕ} {junk : Option ℕ} {accepted : Bool} {r : Receiver} (h : s.Ordered)
    (hr : Config.run ClientQueue.exec (s.receivers u) i (s.env u junk accepted) = some r) :
    (s.modify u fun _ => r).Ordered := by
  obtain ⟨howns, henqueued⟩ := (h.owns u).run hr
  obtain ⟨call, call', -, hperm, hperm', hexec⟩ := Config.run_spec hr
  refine h.modify howns ?_ ?_
  · intro c hc
    rcases List.mem_cons.mp (hperm'.mem_iff.mp hc) with rfl | hc
    · have hcall := h.placed u call (hperm.mem_iff.mpr List.mem_cons_self)
      exact hcall.exec (fun _ hs => h.found hs) (fun _ => rfl) hexec
    · exact h.placed u c (hperm.mem_iff.mpr (List.mem_cons_of_mem call hc))
  · rw [henqueued]
    exact fun p hp => .inl hp

theorem Ordered.bypass (h : s.Ordered) (bypass : List Outstanding) : Ordered { s with bypass } :=
  ⟨h.consistent, h.owns, h.placed, h.single⟩

theorem Ordered.step {a : Action} (h : s.Ordered) (haddressed : s.Addressed a) (hok : s.Steady a)
    (hstep : s.step a = some s') : s'.Ordered := by
  cases a with
  | session op =>
    obtain ⟨m, happly, rfl⟩ := Option.map_eq_some_iff.mp hstep
    obtain ⟨hcons, hkeep⟩ := h.consistent.apply hok.1 happly
    refine ⟨hcons, h.owns, ?_, h.single⟩
    intro u call hcall
    by_cases hu : u ∈ s.sessionManager.ended op
    · exact Call.placed_of_not_engaged (hok.2 u hu call hcall)
    · exact (h.placed u call hcall).mono (hkeep hu)
  | enqueue u p =>
    cases hstep
    exact h.manageCompletePacket (.inr haddressed)
  | notify u =>
    cases hstep
    exact h.notifySend
  | run u i junk accepted =>
    obtain ⟨r, hr, rfl⟩ := Option.map_eq_some_iff.mp hstep
    exact h.run hr
  | sent u i =>
    obtain ⟨o, ho, rfl⟩ := Option.map_eq_some_iff.mp hstep
    have hdequeued : (s.modify u fun r => (r.dequeue i).complete o.packet).Ordered :=
      h.modify_of_eq (((h.owns u).dequeue i).complete o.packet) rfl rfl
    refine hdequeued.drainNext ?_
    cases hentry : s.sessionManager.socketToUserId o.socket with
    | some w =>
      left
      rw [SessionManager.getUserIdBySocket, hentry]
      exact h.consistent.socket hentry
    | none =>
      -- the queue of the empty id
      right
      have hmapped := (hok o ho).resolve_left (by simp [hentry])
      rw [SessionManager.getUserIdBySocket, hentry, Option.getD_none]
      by_cases hu : u = []
      · subst hu
        rw [receivers_modify_self]
        exact hmapped
      · rw [receivers_modify_of_ne hu]
        exact hmapped
  | failed u i =>
    obtain ⟨o, ho, rfl⟩ := Option.map_eq_some_iff.mp hstep
    rw [hok o ho]
    refine (h.dequeue i).manageCompletePacket ?_
    left
    rw [receivers_modify_self]
    exact (h.owns u).outstanding o (List.mem_of_getElem? ho)
  | resendFailed u i =>
    obtain ⟨o, -, rfl⟩ := Option.map_eq_some_iff.mp hstep
    exact (h.dequeue i).clearFlag
  | bypassSend p k accepted =>
    cases hstep
    split
    · exact h.bypass _
    · exact h
  | bypassDone i =>
    obtain ⟨o, -, rfl⟩ := Option.map_eq_some_iff.mp hstep
    exact h.bypass _
  | bypassResendFailed i =>
    obtain ⟨o, -, rfl⟩ := Option.map_eq_some_iff.mp hstep
    exact (h.bypass _).clearFlag

end Server

end IocpChat

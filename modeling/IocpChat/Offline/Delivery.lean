import IocpChat.Offline.Ownership
import Mathlib.Data.List.Infix

/-!
# Delivery to one receiver

A receiver stays online on one socket, all its sends succeed, and any number of calls
of `ManageCompletePacket`, `notifySend` and `drainNext` run at the same time.

* What is sent is sent in order, once, and one at a time (`sends_in_order`).
* A packet can be left in the queue: between its test for emptiness and its store to
  the flag, `drainNext` misses a push whose `compare_exchange` then fails
  (`lost_wakeup`).  `contents_eq_nil_of_settles` says when this does not happen.
* The flag can be taken for an empty queue: a packet may be sent and popped before
  the call that pushed it comes to its `compare_exchange`, and the null packet is
  passed to `initiateSend` (`null_packet_sent`).  `fed_of_stocked` says when this
  does not happen.

## Main definitions

* `Online` — the receiver's session stays on one socket, and its sends succeed.
* `Settles`, `Stocked` — the conditions under which nothing is left behind, and the
  owner of the flag has something to send.
-/

namespace IocpChat

open Transition MpscQueue

namespace Receiver

/-- The receiver's session stays on one socket, and every send succeeds. -/
def Online (socket : Socket) : Receiver → Action → Prop
  | _, .run _ env =>
    env.found.isSome ∧ (∀ session, env.socketOf session = socket) ∧ env.accepted = true
  | _, .resendFailed _ => False
  | _, _ => True

/-! ## In order, once, and one at a time -/

/-- What was passed to `initiateSend` has completed, or is outstanding. -/
def Accounted (r : Receiver) : Prop :=
  r.shared.initiated = r.shared.completed ++ r.shared.outstanding.map Outstanding.packet

theorem Accounted.step {socket : Socket} {r r' : Receiver} {a : Action} (h : r.Accounted)
    (hsound : r.Sound) (hok : Online socket r a) (hstep : r.step a = some r') : r'.Accounted := by
  have hchange := hsound.change hstep
  obtain ⟨es, k, hcons⟩ := hsound
  unfold Accounted at h ⊢
  cases hchange with
  | enqueue | notify | unknown => exact h
  | complete i o ho =>
    obtain ⟨hnil, -, -, -, hout⟩ := hcons.of_outstanding ho
    rw [hout, List.map_singleton] at h
    change _ = _ ++ (r.shared.outstanding.eraseIdx i).map _
    rw [hnil, List.map_nil, List.append_nil]
    exact h
  | resendFailed => exact absurd hok id
  | run i env call call' others calls c _ hperm _ hexec =>
    cases ClientQueue.effect_of_exec hexec with
    | accept socket p haccepted =>
      obtain ⟨-, -, hout⟩ := (hcons.perm hperm).alone rfl
      rw [hout, List.map_nil, List.append_nil] at h
      rw [hout, h]
      rfl
    | reject socket p hrejected =>
      rw [hok.2.2] at hrejected
      cases hrejected
    | _ => exact h

/-- **Packets are sent in the order in which they were pushed**, each once, and the next
one only when the one before has completed. -/
theorem sends_in_order (socket : Socket) (r : Receiver) (h : Reaches step (Online socket) new r) :
    r.shared.initiated <+: r.shared.exchanged ∧
    (r.shared.enqueued.Nodup → r.shared.initiated.Nodup) ∧
    r.shared.outstanding.length ≤ 1 ∧
    r.shared.initiated = r.shared.completed ++ r.shared.outstanding.map Outstanding.packet := by
  obtain ⟨es, k, hcons⟩ := sound_of_reaches h
  have haccounted : r.Accounted := by
    refine h.invariant rfl ?_
    intro r a r' hreach hacc hok hstep
    exact hacc.step (sound_of_reaches hreach) hok hstep
  have hpre : r.shared.initiated <+: r.shared.exchanged := by
    rw [haccounted, hcons.completed]
    cases hout : r.shared.outstanding with
    | nil =>
      rw [List.map_nil, List.append_nil]
      exact List.take_prefix _ _
    | cons o os =>
      have ho : r.shared.outstanding[0]? = some o := by rw [hout, List.getElem?_cons_zero]
      obtain ⟨-, -, -, hcount, hone⟩ := hcons.of_outstanding ho
      obtain ⟨n, hfirst⟩ := hcons.front o (List.mem_of_getElem? ho)
      have hpopping := Consistent.countP_popping_eq_zero hcount
      rw [hout] at hone
      rw [hone, List.map_singleton, hpopping, Nat.add_zero, ← hcons.take_succ hfirst]
      exact List.take_prefix _ _
  refine ⟨hpre, ?_, ?_, haccounted⟩
  · intro hnodup
    have hexchanged := (List.nodup_append.mp (hcons.enqueued.nodup_iff.mp hnodup)).1
    exact hpre.sublist.nodup hexchanged
  · have htoken := hcons.token
    have hflag := Bool.toNat_le r.shared.flag
    omega

/-- An entry of a schedule: a call begins, a send completes, or a call takes steps. -/
inductive Turn
  | enqueue (p : PacketId)
  | complete (i : ℕ)
  | steps (i n : ℕ)

/-- The actions of a schedule for a receiver that is online on `socket`. -/
def schedule (socket : Socket) (turns : List Turn) : List Action :=
  turns.flatMap fun
    | .enqueue p => [.enqueue p]
    | .complete i => [.complete i]
    | .steps i n => List.replicate n (.run i ⟨none, some 0, fun _ => socket, true⟩)

theorem online_schedule (socket : Socket) (turns : List Turn) :
    ∀ a ∈ schedule socket turns, ∀ r, Online socket r a := by
  intro a ha r
  obtain ⟨turn, -, hturn⟩ := List.mem_flatMap.mp ha
  cases turn with
  | enqueue | complete =>
    cases List.mem_singleton.mp hturn
    trivial
  | steps i n =>
    cases List.eq_of_mem_replicate hturn
    exact ⟨rfl, fun _ => rfl, rfl⟩

/-- Two packets are sent, the second one when the first one has completed. -/
theorem sends_in_order_two :
    ∃ r, Reaches step (Online 5) new r ∧ r.shared.initiated = [10, 11] ∧
      r.shared.initiated <+: r.shared.exchanged := by
  obtain ⟨r, hrun, hinitiated⟩ := exists_run step new (schedule 5 [.enqueue 10, .steps 0 9,
      .enqueue 11, .steps 1 4, .enqueue 12, .steps 2 2, .complete 0, .steps 3 10])
    (fun r => r.shared.initiated = [10, 11]) (by decide)
  have hreach := reaches_of_run (meets_of_forall (online_schedule 5 _)) hrun
  exact ⟨r, hreach, hinitiated, (sends_in_order 5 r hreach).1⟩

/-! ## Nothing left behind -/

/-- When the flag is given back, the queue is empty, or a call of `ManageCompletePacket`
has yet to try to take the flag. -/
def Settles (r : Receiver) : Action → Prop
  | .run i _ => r.calls[i]? = some .release →
      r.shared.queue.head = r.shared.queue.tail ∨ ∃ call ∈ r.calls, call.coming = true
  | _ => True

instance (r : Receiver) : (a : Action) → Decidable (r.Settles a)
  | .run i _ => inferInstanceAs (Decidable (r.calls[i]? = some .release → _ ∨ _))
  | .enqueue _ | .notify | .complete _ | .resendFailed _ => .isTrue trivial

/-- While the flag is free, the queue is empty or some call will try to take the flag. -/
def Attended (r : Receiver) : Prop :=
  r.shared.flag = false →
    r.shared.queue.head = r.shared.queue.tail ∨ ∃ call ∈ r.calls, call.coming = true

theorem exists_coming {calls calls' others : List Call} {call call' : Call}
    (hperm : calls.Perm (call :: others)) (hperm' : calls'.Perm (call' :: others))
    (hcall : call.coming = false) (h : ∃ o ∈ calls, o.coming = true) :
    ∃ o ∈ calls', o.coming = true := by
  obtain ⟨o, ho, hcoming⟩ := h
  rcases List.mem_cons.mp (hperm.mem_iff.mp ho) with rfl | ho
  · rw [hcall] at hcoming
    cases hcoming
  · exact ⟨o, hperm'.mem_iff.mpr (List.mem_cons_of_mem _ ho), hcoming⟩

theorem Attended.step {socket : Socket} {r r' : Receiver} {a : Action} (h : r.Attended)
    (hsound : r.Sound) (hok : Online socket r a) (hsettles : r.Settles a)
    (hstep : r.step a = some r') : r'.Attended := by
  have hchange := hsound.change hstep
  obtain ⟨es, k, hcons⟩ := hsound
  have hspawn : ∀ call : Call, (∃ o ∈ r.calls, o.coming = true) →
      ∃ o ∈ r.calls ++ [call], o.coming = true := by
    rintro call ⟨o, ho, hcoming⟩
    exact ⟨o, List.mem_append_left _ ho, hcoming⟩
  intro hflag
  cases hchange with
  | unknown => exact h hflag
  | resendFailed => exact absurd hok id
  | run i env call call' others calls c hi hperm hperm' hexec =>
    have hcons := hcons.perm hperm
    have hmem : call' ∈ calls := hperm'.mem_iff.mpr List.mem_cons_self
    have hothers := exists_coming hperm hperm'
    have howner : call.owns = true → r.shared.flag ≠ false := by
      intro howns hflag
      rw [(hcons.alone howns).1] at hflag
      cases hflag
    cases ClientQueue.effect_of_exec hexec with
    | alloc | exchange | link => exact .inr ⟨_, hmem, rfl⟩
    | take pushed hfree => cases hflag
    | advance | accept | reject => exact absurd hflag (howner rfl)
    | release => exact (hsettles hi).imp_right (hothers rfl)
    | read _ _ hcoming =>
      rcases hcoming with hcoming | htaken
      · exact (h hflag).imp_right (hothers hcoming)
      · rw [htaken] at hflag
        cases hflag
  | _ => exact (h hflag).imp_right (hspawn _)

/-- **Nothing is left behind** when every run of `drainNext` gives the flag back with the
queue empty, or while a call of `ManageCompletePacket` has yet to try to take it. -/
theorem contents_eq_nil_of_settles (socket : Socket) (r : Receiver)
    (h : Reaches step (fun r a => Online socket r a ∧ r.Settles a) new r) (hq : r.Quiescent)
    (hout : r.shared.outstanding = []) : r.shared.queue.contents = [] := by
  have hattended : r.Attended := by
    refine h.invariant (fun _ => .inl rfl) ?_
    intro r a r' hreach hatt hok hstep
    exact hatt.step (sound_of_reaches hreach) hok.1 hok.2 hstep
  obtain ⟨hflag, -, -, hempty⟩ := (sound_of_reaches h).quiescent hq
  have hfree : r.shared.flag = false := by
    rw [hout] at hflag
    cases hf : r.shared.flag with
    | false => rfl
    | true =>
      rw [hf] at hflag
      cases hflag
  rcases hattended hfree with hnil | ⟨call, hcall, hcoming⟩
  · exact hempty.mp hnil
  · rw [hq call hcall] at hcoming
    cases hcoming

/-- The packet 11 is pushed while `drainNext` is about to give the flag back, and its
call then takes the flag. -/
theorem contents_eq_nil_of_settles_two :
    ∃ r, Reaches step (fun r a => Online 5 r a ∧ r.Settles a) new r ∧ r.Quiescent ∧
      r.shared.completed = [10, 11] ∧ r.shared.queue.contents = [] := by
  let turns : List Turn := [.enqueue 10, .steps 0 9, .complete 0, .steps 1 7, .enqueue 11,
    .steps 2 3, .steps 1 1, .steps 2 6, .complete 0, .steps 3 8]
  obtain ⟨r, hrun, hq, hout, hcompleted⟩ := exists_run step new (schedule 5 turns)
    (fun r => r.Quiescent ∧ r.shared.outstanding = [] ∧ r.shared.completed = [10, 11]) (by decide)
  have hsettles : Meets step Settles new (schedule 5 turns) := by decide
  have hreach := reaches_of_run (hsettles.and (online_schedule 5 turns)) hrun
  exact ⟨r, hreach, hq, hcompleted, contents_eq_nil_of_settles 5 r hreach hq hout⟩

/-- The packet 11 is pushed between the last test of `drainNext` and its store to the
flag, and stays in the queue. -/
theorem lost_wakeup :
    ∃ r, Reaches step (Online 5) new r ∧ r.Quiescent ∧ r.shared.outstanding = [] ∧
      r.shared.queue.contents = [11] := by
  obtain ⟨r, hrun, hr⟩ := exists_run step new (schedule 5 [.enqueue 10, .steps 0 9, .complete 0,
      .steps 1 7, .enqueue 11, .steps 2 4, .steps 1 1])
    (fun r => r.Quiescent ∧ r.shared.outstanding = [] ∧ r.shared.queue.contents = [11]) (by decide)
  exact ⟨r, reaches_of_run (meets_of_forall (online_schedule 5 _)) hrun, hr⟩

/-! ## Something to send -/

end Receiver

/-- The call is in `front`. -/
def Call.atFront : Call → Bool
  | .front .. => true
  | _ => false

/-- The call has the null packet of a default-constructed item, or has crashed on it. -/
def Call.null : Call → Bool
  | .route none | .deref _ none | .send _ none | .crashed => true
  | _ => false

/-- A call in `front` finds a packet, and no call has a null packet. -/
def Call.Fed (q : MpscQueue PacketId) (call : Call) : Prop :=
  (call.atFront = true → q.head ≠ q.tail) ∧ call.null = false

/-- A call outside of `front` and without a null packet is fed. -/
theorem Call.fed_of {q : MpscQueue PacketId} {call : Call} (hfront : call.atFront = false)
    (hnull : call.null = false) : call.Fed q := by
  refine ⟨?_, hnull⟩
  intro h
  rw [hfront] at h
  cases h

theorem Call.fed_of_not_owns {q : MpscQueue PacketId} {call : Call} (h : call.owns = false) :
    call.Fed q := by
  cases call with
  | alloc | exchange | link | cas | empty | done => exact Call.fed_of rfl rfl
  | _ => cases h

section Fed

variable {c c' : ClientQueue} {env : Env} {call call' : Call} {others : List Call}
  {es : List (Entry PacketId)} {k : ℕ}

theorem Call.Fed.exec (h : call.Fed c.queue) (hcons : Consistent c (call :: others) es k)
    (hstocked : ∀ pushed, call = .cas pushed → c.flag = false → c.queue.head ≠ c.queue.tail)
    (hexec : c.exec env call = some (c', call')) : call'.Fed c'.queue := by
  have hempty := hcons.represents.head_eq_tail_iff
  cases call with
  | cas pushed =>
    rcases ClientQueue.exec_cas_cases hexec with ⟨-, rfl, rfl⟩ | ⟨hflag, rfl, rfl⟩
    · exact Call.fed_of rfl rfl
    · exact ⟨fun _ => hstocked pushed rfl hflag, rfl⟩
  | empty test t =>
    cases t with
    | none =>
      cases hexec
      exact Call.fed_of rfl rfl
    | some t =>
      cases test with
      | notify | first =>
        cases hexec
        cases (c.queue.loadNext env.junk t).isNone <;> exact Call.fed_of rfl rfl
      | again socket =>
        obtain ⟨rfl, rfl | ⟨rfl, n, v, hfirst⟩⟩ := hcons.again_cases hexec
        · exact Call.fed_of rfl rfl
        · exact ⟨fun _ heq => hfirst.ne_nil (hempty.mp heq), rfl⟩
  | pop socket cursor =>
    simp only [ClientQueue.exec] at hexec
    split at hexec <;> cases hexec <;> exact Call.fed_of rfl rfl
  | front socket cursor =>
    have hne : c.queue.head ≠ c.queue.tail := h.1 rfl
    obtain ⟨rfl, ⟨cursor', rfl, -⟩ | ⟨-, hnil⟩ | ⟨n, p, rfl, -⟩⟩ := hcons.front_cases hexec
    · exact ⟨fun _ => hne, rfl⟩
    · exact absurd (hempty.mpr hnil) hne
    · cases socket <;> exact Call.fed_of rfl rfl
  | route p =>
    cases p with
    | none => cases h.2
    | some p =>
      simp only [ClientQueue.exec] at hexec
      split at hexec <;> cases hexec <;> exact Call.fed_of rfl rfl
  | deref session p =>
    cases p with
    | none => cases h.2
    | some p =>
      cases hexec
      exact Call.fed_of rfl rfl
  | send socket p =>
    cases p with
    | none => cases h.2
    | some p =>
      simp only [ClientQueue.exec] at hexec
      split at hexec <;> cases hexec <;> exact Call.fed_of rfl rfl
  | done | crashed => cases hexec
  | _ =>
    cases hexec
    exact Call.fed_of rfl rfl

theorem Call.Fed.effect {o : Call} (h : o.Fed c.queue) (ho : o ∈ others)
    (hcons : Consistent c (call :: others) es k) (heffect : c.Effect env call c' call') :
    o.Fed c'.queue := by
  cases heffect with
  | exchange p node =>
    have hprivate : c.queue.Private es node p := hcons.knows _ List.mem_cons_self
    refine ⟨fun _ heq => hprivate.notMem ?_, h.2⟩
    change node = c.queue.tail at heq
    rw [heq]
    exact List.mem_cons_self
  | advance socket t n => exact fed_of_not_owns ((hcons.alone rfl).2.1 o ho)
  | _ => exact h

end Fed

namespace Receiver

/-- The flag is not taken while the queue is empty. -/
def Stocked (r : Receiver) : Action → Prop
  | .run i _ => (r.calls[i]? = some (.cas true) ∨ r.calls[i]? = some (.cas false)) →
      r.shared.flag = false → r.shared.queue.head ≠ r.shared.queue.tail
  | _ => True

instance (r : Receiver) : (a : Action) → Decidable (r.Stocked a)
  | .run _ _ => inferInstanceAs (Decidable (_ ∨ _ → _ → _ ≠ _))
  | .enqueue _ | .notify | .complete _ | .resendFailed _ => .isTrue trivial

def Supplied (r : Receiver) : Prop := ∀ call ∈ r.calls, call.Fed r.shared.queue

theorem Supplied.step {r r' : Receiver} {a : Action} (h : r.Supplied) (hsound : r.Sound)
    (hstocked : r.Stocked a) (hstep : r.step a = some r') : r'.Supplied := by
  have hchange := hsound.change hstep
  obtain ⟨es, k, hcons⟩ := hsound
  have hspawn : ∀ call : Call, call.Fed r.shared.queue →
      ∀ o ∈ r.calls ++ [call], o.Fed r.shared.queue := by
    intro call hcall
    exact List.forall_mem_append.mpr ⟨h, List.forall_mem_singleton.mpr hcall⟩
  cases hchange with
  | unknown | resendFailed => exact h
  | run i env call call' others calls c hi hperm hperm' hexec =>
    have hfed : ∀ o ∈ call :: others, o.Fed r.shared.queue := fun o ho =>
      h o (hperm.mem_iff.mpr ho)
    have hcas : ∀ pushed, call = .cas pushed → r.shared.flag = false →
        r.shared.queue.head ≠ r.shared.queue.tail := by
      rintro pushed rfl
      refine hstocked ?_
      cases pushed with
      | true => exact .inl hi
      | false => exact .inr hi
    intro o ho
    rcases List.mem_cons.mp (hperm'.mem_iff.mp ho) with rfl | ho
    · exact (hfed call List.mem_cons_self).exec (hcons.perm hperm) hcas hexec
    · exact (hfed o (List.mem_cons_of_mem _ ho)).effect ho (hcons.perm hperm)
        (ClientQueue.effect_of_exec hexec)
  | _ => exact hspawn _ (Call.fed_of rfl rfl)

/-- **The owner of the flag has something to send** when the flag is never taken while
the queue is empty. -/
theorem fed_of_stocked (socket : Socket) (r : Receiver)
    (h : Reaches step (fun r a => Online socket r a ∧ r.Stocked a) new r) :
    ∀ call ∈ r.calls, (call.atFront = true → r.shared.queue.head ≠ r.shared.queue.tail) ∧
      call.null = false := by
  have hsupplied : r.Supplied := by
    refine h.invariant (fun call hcall => absurd hcall List.not_mem_nil) ?_
    intro r a r' hreach hsup hok hstep
    exact hsup.step (sound_of_reaches hreach) hok.2 hstep
  exact hsupplied

/-- A call finds the packet 10 of another one in front of its own. -/
theorem fed_of_stocked_front :
    ∃ r, Reaches step (fun r a => Online 5 r a ∧ r.Stocked a) new r ∧
      Call.front none .loadTail ∈ r.calls ∧ r.shared.queue.head ≠ r.shared.queue.tail := by
  let turns : List Turn := [.enqueue 10, .steps 0 3, .enqueue 11, .steps 1 4]
  obtain ⟨r, hrun, hmem⟩ := exists_run step new (schedule 5 turns)
    (fun r => Call.front none .loadTail ∈ r.calls) (by decide)
  have hstocked : Meets step Stocked new (schedule 5 turns) := by decide
  have hreach := reaches_of_run (hstocked.and (online_schedule 5 turns)) hrun
  exact ⟨r, hreach, hmem, (fed_of_stocked 5 r hreach _ hmem).1 rfl⟩

/-- The call that pushed 10 takes the flag when both packets have been sent and popped.
It is in `front` with the queue empty, and goes on to `initiateSend` with the null
packet. -/
theorem null_packet_sent :
    ∃ r r', Reaches step (Online 5) new r ∧ r.calls[0]? = some (.front none .loadTail) ∧
      r.shared.queue.head = r.shared.queue.tail ∧
      Reaches step (Online 5) r r' ∧ r'.calls[0]? = some (.send 5 none) := by
  obtain ⟨r, hrun, hr⟩ := exists_run step new
    (schedule 5 [.enqueue 10, .steps 0 3, .enqueue 11, .steps 1 9, .complete 0, .steps 2 10,
      .complete 0, .steps 3 8, .steps 0 1])
    (fun r => r.calls[0]? = some (Call.front none .loadTail) ∧
      r.shared.queue.head = r.shared.queue.tail ∧
      (Transition.run step r (schedule 5 [.steps 0 5])).any
        (fun r' => decide (r'.calls[0]? = some (Call.send 5 none))) = true) (by decide)
  obtain ⟨hfront, hempty, hnext⟩ := hr
  obtain ⟨r', hrun', hnull⟩ := exists_run step r (schedule 5 [.steps 0 5])
    (fun r' => r'.calls[0]? = some (Call.send 5 none)) hnext
  exact ⟨r, r', reaches_of_run (meets_of_forall (online_schedule 5 _)) hrun, hfront, hempty,
    reaches_of_run (meets_of_forall (online_schedule 5 _)) hrun', hnull⟩

end Receiver

end IocpChat

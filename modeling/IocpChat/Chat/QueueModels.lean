import IocpChat.Chat.Dispatch
import IocpChat.Offline.ManageOffline

/-!
# The queue of a receiver, step by step and at once

In `ManageOffline` a queue is its nodes, and a call takes one atomic operation at a time.  In
`Dispatch` a queue is a list, and a call is done at once.  If no other call comes in between, the
one leaves what the other leaves, and sends what it sends.
-/

namespace IocpChat

open MpscQueue

namespace ClientQueue

/-- The queue between calls. -/
structure Shows (c : ClientQueue) (q : SendQueue) : Prop where
  queue : ∃ es, c.queue.Represents es ∧ (∀ e ∈ es, e.linked = true) ∧ es.map Entry.value = q.queue
  flag : c.flag = q.flag
  mapped : c.mapped = q.mapped

/-- A call that is not over takes a step. -/
def advanceCall (env : Env) (x : ClientQueue × Call) : ClientQueue × Call := (x.1.exec env x.2).getD x

/-- A call that runs alone comes to its end.  It leaves the queue that `h'` has for `u`, and has sent
what was sent from `h` to `h'`. -/
def Becomes (c : ClientQueue) (env : Env) (call : Call) (u : UserId) (h h' : Hub) : Prop :=
  ∃ n c', (advanceCall env)^[n] (c, call) = (c', .done) ∧ c'.Shows (h'.queues u) ∧
    ∃ sent, h'.outstanding = h.outstanding ++ sent ∧
      c'.outstanding = c.outstanding ++ sent.map fun o => ⟨o.packet, o.socket⟩

variable {c c' : ClientQueue} {env : Env} {call call' : Call} {u : UserId} {h h' : Hub}
  {q : SendQueue}

theorem Becomes.after (n : ℕ) (hsteps : (advanceCall env)^[n] (c, call) = (c', call'))
    (hsame : c'.outstanding = c.outstanding) (hrest : c'.Becomes env call' u h h') :
    c.Becomes env call u h h' := by
  obtain ⟨m, c'', hend, hshows, hsent⟩ := hrest
  exact ⟨m + n, c'', by rw [Function.iterate_add_apply, hsteps, hend], hshows, hsame ▸ hsent⟩

theorem Shows.loadNext (hc : c.Shows q) (junk : Option ℕ) :
    c.queue.loadNext junk c.queue.tail = none ∧ q.queue = [] ∨
      ∃ n p rest, q.queue = p :: rest ∧ c.queue.loadNext junk c.queue.tail = some n ∧
        c.queue.data n = some p ∧
        { c with queue := c.queue.advance c.queue.tail n }.Shows { q with queue := rest } := by
  obtain ⟨es, hes, hlinked, hvalues⟩ := hc.queue
  cases es with
  | nil =>
    rcases hes.loadNext_cases junk with ⟨hnone, -⟩ | ⟨n, v, -, ⟨rest, heq⟩, -⟩
    · exact .inl ⟨hnone, hvalues.symm⟩
    · cases heq
  | cons e es =>
    have hfirst : First (e :: es) e.node e.value := ⟨es, by rw [← hlinked e List.mem_cons_self]⟩
    obtain ⟨hload, hdata⟩ := hes.loadNext_of_first hfirst junk
    exact .inr ⟨_, _, _, hvalues.symm, hload, hdata,
      ⟨es, hes.advance, fun e he => hlinked e (List.mem_cons_of_mem _ he), rfl⟩, hc.flag, hc.mapped⟩

/-- What the steps of a push leave. -/
theorem Shows.push (hc : c.Shows q) (p : PacketId) :
    { c with
      queue := ((c.queue.alloc p).exchange c.queue.fresh).link (c.queue.alloc p).head c.queue.fresh
      mapped := true }.Shows { q with queue := q.queue ++ [p], mapped := true } := by
  obtain ⟨es, hes, hlinked, hvalues⟩ := hc.queue
  have hmarked := ((hes.alloc p).exchange (hes.private_alloc p)).link
    (hes.alloc p).linked.pending_exchange
  refine ⟨⟨_, hmarked, ?_, ?_⟩, hc.flag, rfl⟩
  · intro entry hentry
    obtain ⟨e, he, rfl⟩ := List.mem_map.mp hentry
    grind
  · rw [map_value_mark, List.map_append, hvalues]
    rfl

theorem routePacket_eq {e : Outside}
    (hfound : (if u = [] then none else e.findSession u) = env.found.map env.socketOf) (h : Hub)
    (p : PacketPtr) : h.routePacket e p u =
      (env.found.map env.socketOf).elim (h, false) fun socket => h.initiateSend socket p := by
  rw [← hfound, Hub.routePacket]
  split
  · rfl
  · cases e.findSession u <;> rfl

section Calls

-- `WSASend` and `findSession` answer the same in both.
variable {e : Outside} (haccepted : h.wsaSend.head?.getD false = env.accepted)
  (hfound : (if u = [] then none else e.findSession u) = env.found.map env.socketOf)
  (hc : c.Shows (h.queues u))

attribute [local simp] advanceCall exec peek Test.after afterFront Hub.setFlag Hub.setQueue
  Hub.initiateSend

include haccepted hc

theorem becomes_drainNext (hmapped : c.mapped = true) (socket : Socket) :
    c.Becomes env (.empty (.first socket) none) u h (h.drainNext u socket) := by
  rw [Hub.drainNext, if_pos (hc.mapped ▸ hmapped)]
  refine ⟨11, ?_⟩
  rcases hc.loadNext env.junk with ⟨hload, hqueue⟩ | ⟨n, p, rest, hqueue, hload, -, hpop⟩
  · simp [Hub.sendNext, Hub.pop, hload, hqueue]
    exact ⟨hqueue ▸ hc.queue, rfl, hc.mapped⟩
  rcases hpop.loadNext env.junk with ⟨hload', hrest⟩ | ⟨n', p', rest', hrest, hload', hdata, -⟩
  · simp [Hub.sendNext, Hub.pop, hload, hload', hqueue, show rest = [] from hrest]
    exact ⟨hrest ▸ hpop.queue, rfl, hc.mapped⟩
  simp only at hrest hload' hdata
  cases hsend : env.accepted <;> rw [hsend] at haccepted <;>
    simp [Hub.sendNext, Hub.pop, hload, hload', hdata, hqueue, hrest, haccepted, hsend]
  · exact ⟨hrest ▸ hpop.queue, rfl, hc.mapped⟩
  · exact ⟨hrest ▸ hpop.queue, hc.flag, hc.mapped⟩

include hfound

theorem becomes_sendFront (hne : (h.queues u).queue ≠ []) (pushed : Bool) :
    c.Becomes env (.cas pushed) u h (h.sendFront e u) := by
  refine ⟨7, ?_⟩
  rcases hc.loadNext env.junk with ⟨-, hnil⟩ | ⟨n, front, rest, hqueue, hload, hdata, -⟩
  · exact absurd hnil hne
  cases hflag : (h.queues u).flag with
  | true =>
    simp [Hub.sendFront, hc.flag, hflag]
    exact hc
  | false =>
    cases hsession : env.found with
    | none =>
      simp [Hub.sendFront, routePacket_eq hfound, hc.flag, hflag, hsession, hload, hdata, hqueue]
      exact ⟨hqueue ▸ hc.queue, rfl, hc.mapped⟩
    | some session =>
      cases hsend : env.accepted <;> rw [hsend] at haccepted <;>
        simp [Hub.sendFront, routePacket_eq hfound, hc.flag, hflag, hsession, hload, hdata, hqueue,
          haccepted, hsend]
      · exact ⟨hqueue ▸ hc.queue, rfl, hc.mapped⟩
      · exact ⟨hqueue ▸ hc.queue, rfl, hc.mapped⟩

theorem becomes_notifySend (hmapped : c.mapped = true) :
    c.Becomes env (.empty .notify none) u h (h.notifySend e u) := by
  rw [Hub.notifySend, if_pos (hc.mapped ▸ hmapped)]
  rcases hc.loadNext env.junk with ⟨hload, hqueue⟩ | ⟨n, front, rest, hqueue, hload, -⟩
  · refine ⟨2, ?_⟩
    simp [Hub.sendFront, hload, hqueue]
    exact hc
  · refine .after 2 ?_ rfl (becomes_sendFront haccepted hfound hc (by simp [hqueue]) false)
    simp [hload]

theorem becomes_manageCompletePacket (p : PacketId) :
    { c with mapped := true, enqueued := c.enqueued ++ [p] }.Becomes env (.alloc p) u h
      (h.manageCompletePacket e p u) := by
  have hpush := hc.push p
  let q : SendQueue := { h.queues u with queue := (h.queues u).queue ++ [p], mapped := true }
  refine .after 3 rfl rfl (becomes_sendFront (h := h.setQueue u q) haccepted hfound ?_ ?_ true)
  · simp [Hub.setQueue]
    exact ⟨hpush.queue, hc.flag, rfl⟩
  · simp [q]

end Calls

end ClientQueue

end IocpChat

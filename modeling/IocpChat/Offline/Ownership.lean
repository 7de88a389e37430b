import IocpChat.Offline.ManageOffline

/-!
# Who owns the flag

The flag is true while exactly one party may send: a call that took it and has not
given it back, or a send that has not completed.  This party is the only one that
pops, so what it has seen of the queue stays true while the others push.

`Consistent` says this together with what the queue holds.  It does not depend on the
order of the calls, and every step of a receiver keeps it, whatever the environment
answers: sends may fail and sessions may come and go.

## Main definitions

* `Call.owns`, `Call.Knows` — the calls that own the flag, and what a call knows.
* `Receiver.Change` — what a step does to a receiver.
* `Receiver.sound_of_reaches` — the invariant holds in every state reached.
-/

namespace IocpChat

open Transition MpscQueue

def Call.owns : Call → Bool
  | .alloc _ | .exchange .. | .link .. | .cas _ | .empty .notify _ | .done => false
  | _ => true

/-- The call is about to pop a packet that was sent. -/
def Call.popping : Call → Bool
  | .empty (.first _) _ | .pop .. | .advance .. => true
  | _ => false

/-- The node a call has allocated and not linked yet. -/
def Call.node : Call → Option ℕ
  | .exchange _ node | .link _ node => some node
  | _ => none

/-- The packet a call has not yet put into the queue. -/
def Call.waiting : Call → Option PacketId
  | .alloc p | .exchange p _ => some p
  | _ => none

/-- The call is about to link its node. -/
def Call.isLink : Call → Bool
  | .link .. => true
  | _ => false

/-- What a call knows about the queue. -/
def Call.Knows (q : MpscQueue PacketId) (es : List (Entry PacketId)) : Call → Prop
  | .exchange p node => q.Private es node p
  | .link prev node => Pending q.tail es prev node
  | .empty (.first _) tail_ => (∀ t ∈ tail_, t = q.tail) ∧ ∃ n v, First es n v
  | .empty (.again _) tail_ => ∀ t ∈ tail_, t = q.tail
  | .pop _ cursor => q.At es cursor ∧ ∃ n v, First es n v
  | .advance _ tail_ next_ => tail_ = q.tail ∧ ∃ v, First es next_ v
  | .front socket cursor => q.At es cursor ∧ (socket.isSome → ∃ n v, First es n v)
  | .route (some p) | .deref _ (some p) | .send _ (some p) => ∃ n, First es n p
  | _ => True

section Knows

variable {q q' : MpscQueue PacketId} {es es' : List (Entry PacketId)} {call : Call}

/-- What a call knows survives a change that leaves the stub, the first entry, and the
call's own node alone. -/
theorem Call.Knows.mono (h : call.Knows q es) (htail : q'.tail = q.tail)
    (hne : es ≠ [] → es' ≠ []) (hfirst : ∀ n v, First es n v → First es' n v)
    (hprivate : ∀ p node, call = .exchange p node → q.Private es node p → q'.Private es' node p)
    (hpending : ∀ prev node, call = .link prev node →
      Pending q.tail es prev node → Pending q.tail es' prev node) :
    call.Knows q' es' := by
  have hsome : (∃ n v, First es n v) → ∃ n v, First es' n v := by
    rintro ⟨n, v, hf⟩
    exact ⟨n, v, hfirst n v hf⟩
  have hpacket : ∀ p, (∃ n, First es n p) → ∃ n, First es' n p := by
    rintro p ⟨n, hf⟩
    exact ⟨n, hfirst n p hf⟩
  cases call with
  | exchange p node => exact hprivate p node rfl h
  | link prev node =>
    have hp := hpending prev node rfl h
    rw [← htail] at hp
    exact hp
  | empty test t =>
    cases test with
    | notify => trivial
    | first socket => exact ⟨fun t' ht' => (h.1 t' ht').trans htail.symm, hsome h.2⟩
    | again socket => exact fun t' ht' => (h t' ht').trans htail.symm
  | pop socket cursor => exact ⟨h.1.mono htail hne, hsome h.2⟩
  | advance socket t n =>
    obtain ⟨ht, v, hf⟩ := h
    exact ⟨ht.trans htail.symm, v, hfirst n v hf⟩
  | front socket cursor => exact ⟨h.1.mono htail hne, fun hs => hsome (h.2 hs)⟩
  | route p | deref session p | send socket p =>
    cases p with
    | none => trivial
    | some p => exact hpacket p h
  | _ => trivial

theorem Call.Knows.alloc (h : call.Knows q es) (v : PacketId) : call.Knows (q.alloc v) es :=
  h.mono rfl id (fun _ _ hf => hf) (fun _ _ _ hp => hp.alloc v) fun _ _ _ hp => hp

theorem Call.Knows.exchange {m : ℕ} (h : call.Knows q es) (hne : call.node ≠ some m)
    (v : PacketId) : call.Knows (q.exchange m) (es ++ [⟨m, v, false⟩]) := by
  refine h.mono rfl (fun _ => List.append_ne_nil_of_right_ne_nil _ (List.cons_ne_nil _ _))
    (fun n v hf => hf.append _) ?_ fun _ _ _ hp => hp.append _
  rintro p node rfl hp
  exact hp.exchange (fun heq => hne (congrArg some heq)) v

theorem Call.Knows.link {prev m : ℕ} (h : call.Knows q es) (hprev : prev ∈ nodes q.tail es)
    (hne : call.node ≠ some m) : call.Knows (q.link prev m) (mark m es) := by
  refine h.mono rfl ?_ (fun n v hf => hf.mark m) ?_ ?_
  · intro hnil
    rw [mark, ne_eq, List.map_eq_nil_iff]
    exact hnil
  · intro p node _ hp
    exact hp.link hprev
  · rintro prev' node rfl hp
    exact pending_mark_iff.mpr ⟨hp, fun heq => hne (congrArg some heq)⟩

/-- A `pop` leaves alone what the calls know that do not own the flag. -/
theorem Call.Knows.advance {n : ℕ} {v : PacketId} (h : call.Knows q (⟨n, v, true⟩ :: es))
    (howns : call.owns = false) : call.Knows (q.advance q.tail n) es := by
  cases call with
  | alloc p => trivial
  | exchange p node => exact Private.advance h
  | link prev node => exact (pending_cons_of_linked rfl).mp h
  | cas pushed => trivial
  | empty test t =>
    cases test with
    | notify => trivial
    | first | again => cases howns
  | done => trivial
  | _ => cases howns

end Knows

/-- **The invariant of a receiver.**  The queue holds the entries `es`, and `k` packets
were popped. -/
structure Consistent (c : ClientQueue) (calls : List Call) (es : List (Entry PacketId)) (k : ℕ) :
    Prop where
  represents : c.queue.Represents es
  popped_le : k ≤ c.exchanged.length
  exchanged : c.exchanged.drop k = es.map Entry.value
  enqueued : c.enqueued.Perm (c.exchanged ++ calls.filterMap Call.waiting)
  completed : c.completed = c.exchanged.take (k + calls.countP Call.popping)
  token : calls.countP Call.owns + c.outstanding.length = c.flag.toNat
  knows : ∀ call ∈ calls, call.Knows c.queue es
  front : ∀ o ∈ c.outstanding, ∃ n, First es n o.packet
  distinct : (calls.filterMap Call.node).Nodup
  linking : ∀ prev m, Pending c.queue.tail es prev m → Call.link prev m ∈ calls
  mapped : c.mapped = false → calls = [] ∧ c.outstanding = [] ∧ es = []

namespace Consistent

variable {c : ClientQueue} {calls calls' others : List Call} {call call' : Call}
  {es : List (Entry PacketId)} {k : ℕ}

theorem new : Consistent .new [] [] 0 := by
  refine ⟨represents_new, Nat.zero_le _, rfl, .refl _, rfl, rfl, ?_, ?_, List.nodup_nil, ?_, ?_⟩
  · simp
  · simp [ClientQueue.new]
  · simp [Pending]
  · simp [ClientQueue.new]

theorem perm (h : Consistent c calls es k) (hperm : calls.Perm calls') :
    Consistent c calls' es k where
  __ := h
  enqueued := h.enqueued.trans ((hperm.filterMap _).append_left _)
  completed := by rw [h.completed, hperm.countP_eq]
  token := by rw [← h.token, hperm.countP_eq]
  knows := fun call hcall => h.knows call (hperm.mem_iff.mpr hcall)
  distinct := (hperm.filterMap _).nodup_iff.mp h.distinct
  linking := fun prev m hp => hperm.mem_iff.mp (h.linking prev m hp)
  mapped := fun hm => by
    obtain ⟨hnil, hout⟩ := h.mapped hm
    subst hnil
    exact ⟨hperm.nil_eq.symm, hout⟩

theorem link_mem (h : Consistent c (call :: others) es k) (hlink : call.isLink = false)
    {prev m : ℕ} (hp : Pending c.queue.tail es prev m) : Call.link prev m ∈ others := by
  rcases List.mem_cons.mp (h.linking prev m hp) with rfl | hmem
  · cases hlink
  · exact hmem

/-- If a call owns the flag, no other call does, and nothing is outstanding. -/
theorem alone (h : Consistent c (call :: others) es k) (howns : call.owns = true) :
    c.flag = true ∧ (∀ o ∈ others, o.owns = false) ∧ c.outstanding = [] := by
  have htoken := h.token
  rw [List.countP_cons_of_pos howns] at htoken
  cases hflag : c.flag with
  | false =>
    rw [hflag, Bool.toNat_false] at htoken
    omega
  | true =>
    rw [hflag, Bool.toNat_true] at htoken
    have hnone : others.countP Call.owns = 0 := by omega
    have hnil : c.outstanding.length = 0 := by omega
    refine ⟨rfl, ?_, List.eq_nil_of_length_eq_zero hnil⟩
    intro o ho
    exact Bool.eq_false_iff.mpr (List.countP_eq_zero.mp hnone o ho)

/-- **A step that leaves the queue alone.**  The call goes on where what it must know
is known; it may take or give back the flag. -/
theorem move (h : Consistent c (call :: others) es k) (flag : Bool)
    (hknows : call'.Knows c.queue es) (hwaiting : call'.waiting = call.waiting)
    (hnode : call'.node = call.node) (hpopping : call'.popping = call.popping)
    (hlink : call.isLink = false)
    (htoken : call'.owns.toNat + c.flag.toNat = call.owns.toNat + flag.toNat) :
    Consistent { c with flag } (call' :: others) es k where
  __ := h
  enqueued := by
    have henq := h.enqueued
    rw [List.filterMap_cons] at henq ⊢
    rw [hwaiting]
    exact henq
  completed := by
    have hcomp := h.completed
    rw [List.countP_cons] at hcomp ⊢
    rw [hpopping]
    exact hcomp
  token := by
    have htok := h.token
    rw [List.countP_cons] at htok ⊢
    change _ = flag.toNat
    cases hc : call.owns <;> cases hc' : call'.owns <;>
      simp [hc, hc', Bool.toNat_true, Bool.toNat_false] at htok htoken ⊢ <;> omega
  knows := List.forall_mem_cons.mpr ⟨hknows, (List.forall_mem_cons.mp h.knows).2⟩
  distinct := by
    have hdis := h.distinct
    rw [List.filterMap_cons] at hdis ⊢
    rw [hnode]
    exact hdis
  linking := fun _ _ hp => List.mem_cons_of_mem _ (h.link_mem hlink hp)
  mapped := fun hm => absurd (h.mapped hm).1 (List.cons_ne_nil _ _)

theorem node_lt (h : Consistent c calls es k) {node : ℕ} (hnode : node ∈ calls.filterMap Call.node) :
    node < c.queue.fresh := by
  obtain ⟨call, hcall, heq⟩ := List.mem_filterMap.mp hnode
  have hknows := h.knows call hcall
  cases call with
  | exchange p n =>
    cases heq
    exact hknows.live.1
  | link prev n =>
    cases heq
    exact (h.represents.live _ (List.mem_cons_of_mem _ (Pending.mem_nodes hknows).2)).1
  | _ => cases heq

theorem node_ne (h : Consistent c (call :: others) es k) {node : ℕ} (hnode : call.node = some node) :
    ∀ o ∈ others, o.node ≠ some node := by
  intro o ho heq
  have hdistinct := h.distinct
  rw [List.filterMap_cons_some hnode, List.nodup_cons] at hdistinct
  exact hdistinct.1 (List.mem_filterMap.mpr ⟨o, ho, heq⟩)

theorem length_exchanged (h : Consistent c calls es k) : c.exchanged.length = k + es.length := by
  have hlen := congrArg List.length h.exchanged
  rw [List.length_drop, List.length_map] at hlen
  have hle := h.popped_le
  omega

theorem countP_popping_le (calls : List Call) :
    calls.countP Call.popping ≤ calls.countP Call.owns := by
  apply List.countP_mono_left
  intro call _ hpop
  cases call with
  | empty test t =>
    cases test with
    | first socket => rfl
    | _ => cases hpop
  | pop | advance => rfl
  | _ => cases hpop

theorem countP_popping_eq_zero (h : calls.countP Call.owns = 0) :
    calls.countP Call.popping = 0 := by
  have hle := countP_popping_le calls
  omega

theorem popping_le (h : Consistent c calls es k) : calls.countP Call.popping ≤ es.length := by
  have hone := countP_popping_le calls
  cases es with
  | cons e es =>
    have hflag := Bool.toNat_le c.flag
    have htoken := h.token
    rw [List.length_cons]
    omega
  | nil =>
    refine Nat.le_of_eq (List.countP_eq_zero.mpr ?_)
    intro call hcall hpop
    have hfirst : ∃ n v, First ([] : List (Entry PacketId)) n v := by
      have hknows := h.knows call hcall
      cases call with
      | empty test t =>
        cases test with
        | first socket => exact hknows.2
        | _ => cases hpop
      | pop socket cursor => exact hknows.2
      | advance socket t n => exact ⟨n, hknows.2⟩
      | _ => cases hpop
    obtain ⟨n, v, hfirst⟩ := hfirst
    exact hfirst.ne_nil rfl

/-! ## The steps of `push` -/

theorem alloc {p : PacketId} (h : Consistent c (.alloc p :: others) es k) :
    Consistent { c with queue := c.queue.alloc p } (.exchange p c.queue.fresh :: others) es k where
  __ := h
  represents := h.represents.alloc p
  knows := List.forall_mem_cons.mpr ⟨h.represents.private_alloc p, fun call hcall =>
    (h.knows call (List.mem_cons_of_mem _ hcall)).alloc p⟩
  distinct := List.nodup_cons.mpr ⟨fun hmem => Nat.lt_irrefl _ (h.node_lt hmem), h.distinct⟩
  linking := fun _ _ hp => List.mem_cons_of_mem _ (h.link_mem rfl hp)
  mapped := fun hm => absurd (h.mapped hm).1 (List.cons_ne_nil _ _)

theorem exchange {p : PacketId} {node : ℕ} (h : Consistent c (.exchange p node :: others) es k) :
    Consistent { c with queue := c.queue.exchange node, exchanged := c.exchanged ++ [p] }
      (.link c.queue.head node :: others) (es ++ [⟨node, p, false⟩]) k := by
  have hprivate : c.queue.Private es node p := h.knows _ List.mem_cons_self
  have hnode := h.node_ne rfl
  have hlen : k + (Call.exchange p node :: others).countP Call.popping ≤ c.exchanged.length := by
    rw [h.length_exchanged]
    exact Nat.add_le_add_left h.popping_le k
  exact { h with
    represents := h.represents.exchange hprivate
    popped_le := by
      rw [List.length_append]
      exact Nat.le_add_right_of_le h.popped_le
    exchanged := by
      rw [List.drop_append_of_le_length h.popped_le, h.exchanged, List.map_append]
      rfl
    enqueued := by
      refine h.enqueued.trans ?_
      rw [List.append_assoc]
      rfl
    completed := by
      rw [h.completed]
      exact (List.take_append_of_le_length hlen).symm
    knows := List.forall_mem_cons.mpr ⟨h.represents.linked.pending_exchange, fun call hcall =>
      (h.knows call (List.mem_cons_of_mem _ hcall)).exchange (hnode call hcall) p⟩
    front := fun o ho => by
      obtain ⟨n, hf⟩ := h.front o ho
      exact ⟨n, hf.append _⟩
    linking := fun prev m hp => by
      rcases h.represents.linked.pending_exchange_cases hp with hp | ⟨rfl, rfl⟩
      · exact List.mem_cons_of_mem _ (h.link_mem rfl hp)
      · exact List.mem_cons_self
    mapped := fun hm => absurd (h.mapped hm).1 (List.cons_ne_nil _ _) }

theorem link {prev node : ℕ} (h : Consistent c (.link prev node :: others) es k) :
    Consistent { c with queue := c.queue.link prev node } (.cas true :: others) (mark node es) k := by
  have hpending : Pending c.queue.tail es prev node := h.knows _ List.mem_cons_self
  have hnode := h.node_ne rfl
  exact { h with
    represents := h.represents.link hpending
    exchanged := by
      rw [map_value_mark]
      exact h.exchanged
    knows := List.forall_mem_cons.mpr ⟨trivial, fun call hcall =>
      (h.knows call (List.mem_cons_of_mem _ hcall)).link hpending.mem_nodes.1 (hnode call hcall)⟩
    front := fun o ho => by
      obtain ⟨n, hf⟩ := h.front o ho
      exact ⟨n, hf.mark node⟩
    distinct := (List.nodup_cons.mp h.distinct).2
    linking := fun prev' m hp => by
      obtain ⟨hp, hne⟩ := pending_mark_iff.mp hp
      rcases List.mem_cons.mp (h.linking prev' m hp) with heq | hmem
      · cases heq
        exact absurd rfl hne
      · exact List.mem_cons_of_mem _ hmem
    mapped := fun hm => absurd (h.mapped hm).1 (List.cons_ne_nil _ _) }

/-! ## The steps of the owner -/

theorem stay (h : Consistent c (call :: others) es k) (howns : call.owns = true)
    (hpopping : call.popping = call'.popping) (hnext : call'.owns = true)
    (hknows : call'.Knows c.queue es) : Consistent c (call' :: others) es k := by
  have hprivate : ∀ o : Call, o.owns = true →
      o.waiting = none ∧ o.node = none ∧ o.isLink = false := by
    intro o ho
    cases o with
    | alloc | exchange | link => cases ho
    | _ => exact ⟨rfl, rfl, rfl⟩
  obtain ⟨hwaiting, hnode, hlink⟩ := hprivate call howns
  obtain ⟨hwaiting', hnode', -⟩ := hprivate call' hnext
  refine h.move c.flag hknows (hwaiting'.trans hwaiting.symm) (hnode'.trans hnode.symm)
    hpopping.symm hlink ?_
  rw [howns, hnext]

theorem take_succ (h : Consistent c calls es k) {n : ℕ} {p : PacketId} (hfirst : First es n p) :
    c.exchanged.take (k + 1) = c.exchanged.take k ++ [p] := by
  obtain ⟨rest, rfl⟩ := hfirst
  rw [List.take_add, h.exchanged]
  rfl

/-- `pop` takes away the packet that was sent. -/
theorem advance {socket : Socket} {tail_ next_ : ℕ}
    (h : Consistent c (.advance socket tail_ next_ :: others) es k) :
    ∃ es', Consistent { c with queue := c.queue.advance tail_ next_ }
      (.empty (.again socket) none :: others) es' (k + 1) := by
  obtain ⟨rfl, v, rest, rfl⟩ := h.knows _ List.mem_cons_self
  obtain ⟨-, hothers, hout⟩ := h.alone rfl
  have hlen := h.length_exchanged
  rw [List.length_cons] at hlen
  refine ⟨rest, ?_⟩
  exact { h with
    represents := h.represents.advance
    popped_le := by
      change k + 1 ≤ c.exchanged.length
      omega
    exchanged := by
      change c.exchanged.drop (k + 1) = _
      rw [← List.drop_drop, h.exchanged]
      rfl
    completed := by
      have hcomp := h.completed
      rw [List.countP_cons_of_pos rfl] at hcomp
      rw [List.countP_cons_of_neg Bool.false_ne_true, Nat.add_right_comm]
      exact hcomp
    knows := List.forall_mem_cons.mpr ⟨(fun t ht => absurd ht (Option.not_mem_none t)), fun call hcall =>
      (h.knows call (List.mem_cons_of_mem _ hcall)).advance (hothers call hcall)⟩
    front := fun o ho => by
      rw [hout] at ho
      exact absurd ho List.not_mem_nil
    linking := fun _ _ hp => List.mem_cons_of_mem _
      (h.link_mem rfl ((pending_cons_of_linked rfl).mpr hp))
    mapped := fun hm => absurd (h.mapped hm).1 (List.cons_ne_nil _ _) }

/-- `initiateSend` with a packet that `WSASend` takes. -/
theorem send {socket : Socket} {p : PacketId} (h : Consistent c (.send socket (some p) :: others) es k)
    (initiated : List PacketId) :
    Consistent { c with outstanding := c.outstanding ++ [⟨p, socket⟩], initiated }
      (.done :: others) es k := by
  have hfirst : ∃ n, First es n p := h.knows _ List.mem_cons_self
  obtain ⟨-, hothers, hout⟩ := h.alone rfl
  exact { h with
    token := by
      have htoken := h.token
      rw [List.countP_cons_of_pos rfl] at htoken
      rw [List.countP_cons_of_neg Bool.false_ne_true, List.length_append, List.length_singleton, ← htoken]
      omega
    knows := List.forall_mem_cons.mpr ⟨trivial, (List.forall_mem_cons.mp h.knows).2⟩
    front := by
      intro o ho
      rw [hout, List.nil_append, List.mem_singleton] at ho
      subst ho
      exact hfirst
    linking := fun _ _ hp => List.mem_cons_of_mem _ (h.link_mem rfl hp)
    mapped := fun hm => absurd (h.mapped hm).1 (List.cons_ne_nil _ _) }

/-- The packets passed to `initiateSend` are only recorded. -/
theorem initiate (h : Consistent c calls es k) (initiated : List PacketId) :
    Consistent { c with initiated } calls es k :=
  ⟨h.represents, h.popped_le, h.exchanged, h.enqueued, h.completed, h.token, h.knows, h.front,
    h.distinct, h.linking, h.mapped⟩

/-! ## Every step -/

section Exec

variable {env : Env} {c' : ClientQueue}

theorem exec_cas {pushed : Bool} (h : Consistent c (.cas pushed :: others) es k)
    (hexec : c.exec env (.cas pushed) = some (c', call')) : Consistent c' (call' :: others) es k := by
  rcases ClientQueue.exec_cas_cases hexec with ⟨-, rfl, rfl⟩ | ⟨hflag, rfl, rfl⟩
  · exact h.move c'.flag trivial rfl rfl rfl rfl rfl
  · refine h.move true ⟨trivial, fun hnone => absurd hnone Bool.false_ne_true⟩ rfl rfl rfl rfl ?_
    rw [hflag]
    rfl

/-- The second test of `drainNext` finds the first entry, or releases the flag. -/
theorem again_cases {socket : Socket} {t : ℕ}
    (h : Consistent c (.empty (.again socket) (some t) :: others) es k)
    (hexec : c.exec env (.empty (.again socket) (some t)) = some (c', call')) :
    c' = c ∧ (call' = .release ∨
      call' = .front (some socket) .loadTail ∧ ∃ n v, First es n v) := by
  cases hexec
  have htail : t = c.queue.tail := h.knows _ List.mem_cons_self t rfl
  subst htail
  rcases h.represents.loadNext_cases env.junk with ⟨hload, -⟩ | ⟨n, v, hload, hfirst, -⟩
  · exact ⟨rfl, .inl (by rw [hload]; rfl)⟩
  · exact ⟨rfl, .inr ⟨by rw [hload]; rfl, n, v, hfirst⟩⟩

theorem exec_empty {test : Test} {tail_ : Option ℕ} (h : Consistent c (.empty test tail_ :: others) es k)
    (hexec : c.exec env (.empty test tail_) = some (c', call')) :
    Consistent c' (call' :: others) es k := by
  have hknows := h.knows _ List.mem_cons_self
  cases tail_ with
  | none =>
    cases hexec
    have htail : ∀ t ∈ some c.queue.tail, t = c.queue.tail := fun t ht => (Option.some.inj ht).symm
    cases test with
    | notify => exact h.move c.flag trivial rfl rfl rfl rfl rfl
    | first socket => exact h.stay rfl rfl rfl ⟨htail, hknows.2⟩
    | again socket => exact h.stay rfl rfl rfl htail
  | some t =>
    cases test with
    | notify =>
      cases hexec
      cases (c.queue.loadNext env.junk t).isNone with
      | true | false => exact h.move c.flag trivial rfl rfl rfl rfl rfl
    | first socket =>
      cases hexec
      obtain ⟨ht, n, v, hfirst⟩ := hknows
      cases ht t rfl
      rw [(h.represents.loadNext_of_first hfirst env.junk).1]
      exact h.stay rfl rfl rfl ⟨trivial, n, v, hfirst⟩
    | again socket =>
      obtain ⟨rfl, rfl | ⟨rfl, hfirst⟩⟩ := h.again_cases hexec
      · exact h.stay rfl rfl rfl trivial
      · exact h.stay rfl rfl rfl ⟨trivial, fun _ => hfirst⟩

theorem exec_pop {socket : Socket} {cursor : Cursor} (h : Consistent c (.pop socket cursor :: others) es k)
    (hexec : c.exec env (.pop socket cursor) = some (c', call')) :
    Consistent c' (call' :: others) es k := by
  obtain ⟨hat, n, v, hfirst⟩ := h.knows _ List.mem_cons_self
  rcases h.represents.peek_spec hat env.junk with ⟨cursor', hpeek, hat'⟩ | ⟨-, hnil⟩ |
    ⟨m, w, hpeek, hfirst', -⟩
  · simp only [ClientQueue.exec, hpeek] at hexec
    cases hexec
    exact h.stay rfl rfl rfl ⟨hat', n, v, hfirst⟩
  · exact absurd hnil hfirst.ne_nil
  · simp only [ClientQueue.exec, hpeek] at hexec
    cases hexec
    exact h.stay rfl rfl rfl ⟨rfl, w, hfirst'⟩

/-- `front` goes on, or finds the queue empty, or finds the packet of the first entry. -/
theorem front_cases {socket : Option Socket} {cursor : Cursor}
    (h : Consistent c (.front socket cursor :: others) es k)
    (hexec : c.exec env (.front socket cursor) = some (c', call')) :
    c' = c ∧ ((∃ cursor', call' = .front socket cursor' ∧ c.queue.At es cursor') ∨
      (call' = afterFront none socket ∧ es = []) ∨
      ∃ n p, call' = afterFront (some p) socket ∧ First es n p) := by
  obtain ⟨hat, -⟩ := h.knows _ List.mem_cons_self
  rcases h.represents.peek_spec hat env.junk with ⟨cursor', hpeek, hat'⟩ | ⟨hpeek, hnil⟩ |
    ⟨n, p, hpeek, hfirst, hdata⟩
  · simp only [ClientQueue.exec, hpeek] at hexec
    cases hexec
    exact ⟨rfl, .inl ⟨cursor', rfl, hat'⟩⟩
  · simp only [ClientQueue.exec, hpeek] at hexec
    cases hexec
    exact ⟨rfl, .inr (.inl ⟨rfl, hnil⟩)⟩
  · simp only [ClientQueue.exec, hpeek, hdata] at hexec
    cases hexec
    exact ⟨rfl, .inr (.inr ⟨n, p, rfl, hfirst⟩)⟩

theorem exec_front {socket : Option Socket} {cursor : Cursor}
    (h : Consistent c (.front socket cursor :: others) es k)
    (hexec : c.exec env (.front socket cursor) = some (c', call')) :
    Consistent c' (call' :: others) es k := by
  obtain ⟨-, hsome⟩ := h.knows _ List.mem_cons_self
  obtain ⟨rfl, ⟨cursor', rfl, hat⟩ | ⟨rfl, hnil⟩ | ⟨n, p, rfl, hfirst⟩⟩ := h.front_cases hexec
  · exact h.stay rfl rfl rfl ⟨hat, hsome⟩
  · cases socket with
    | none => exact h.stay rfl rfl rfl trivial
    | some socket =>
      obtain ⟨n, v, hfirst⟩ := hsome rfl
      exact absurd hnil hfirst.ne_nil
  · cases socket with
    | none | some => exact h.stay rfl rfl rfl ⟨n, hfirst⟩

theorem exec_route {p : Option PacketId} (h : Consistent c (.route p :: others) es k)
    (hexec : c.exec env (.route p) = some (c', call')) : Consistent c' (call' :: others) es k := by
  have hknows := h.knows _ List.mem_cons_self
  cases hfound : env.found with
  | none =>
    simp only [ClientQueue.exec, hfound] at hexec
    cases hexec
    exact h.stay rfl rfl rfl trivial
  | some session =>
    simp only [ClientQueue.exec, hfound] at hexec
    cases hexec
    refine h.stay rfl rfl rfl ?_
    cases p with
    | none => trivial
    | some p => exact hknows

theorem exec_send {socket : Socket} {p : Option PacketId} (h : Consistent c (.send socket p :: others) es k)
    (hexec : c.exec env (.send socket p) = some (c', call')) : Consistent c' (call' :: others) es k := by
  cases p with
  | none =>
    cases hexec
    exact h.stay rfl rfl rfl trivial
  | some p =>
    rcases ClientQueue.exec_send_cases hexec with ⟨-, rfl, rfl⟩ | ⟨-, rfl, rfl⟩
    · exact h.send _
    · exact (h.initiate _).stay rfl rfl rfl trivial

/-- **Every step of a call keeps the invariant.** -/
theorem exec (h : Consistent c (call :: others) es k) (hexec : c.exec env call = some (c', call')) :
    ∃ es' k', Consistent c' (call' :: others) es' k' := by
  cases call with
  | alloc p =>
    cases hexec
    exact ⟨es, k, h.alloc⟩
  | exchange p node =>
    cases hexec
    exact ⟨_, k, h.exchange⟩
  | link prev node =>
    cases hexec
    exact ⟨_, k, h.link⟩
  | cas pushed => exact ⟨es, k, h.exec_cas hexec⟩
  | empty test t => exact ⟨es, k, h.exec_empty hexec⟩
  | pop socket cursor => exact ⟨es, k, h.exec_pop hexec⟩
  | advance socket t n =>
    cases hexec
    obtain ⟨es', h'⟩ := h.advance
    exact ⟨es', k + 1, h'⟩
  | front socket cursor => exact ⟨es, k, h.exec_front hexec⟩
  | route p => exact ⟨es, k, h.exec_route hexec⟩
  | deref session p =>
    cases hexec
    have hknows := h.knows _ List.mem_cons_self
    refine ⟨es, k, h.stay rfl rfl rfl ?_⟩
    cases p with
    | none => trivial
    | some p => exact hknows
  | send socket p => exact ⟨es, k, h.exec_send hexec⟩
  | release =>
    cases hexec
    refine ⟨es, k, h.move false trivial rfl rfl rfl rfl ?_⟩
    rw [(h.alone rfl).1]
    rfl
  | done | crashed => cases hexec

end Exec

/-! ## What begins a call -/

/-- A call of `ManageCompletePacket`. -/
theorem enqueue (h : Consistent c calls es k) (p : PacketId) :
    Consistent { c with mapped := true, enqueued := c.enqueued ++ [p] } (.alloc p :: calls) es k where
  __ := h
  enqueued := by
    refine (h.enqueued.append_right [p]).trans ?_
    rw [List.append_assoc]
    exact (List.perm_append_singleton p _).append_left _
  knows := List.forall_mem_cons.mpr ⟨trivial, h.knows⟩
  linking := fun prev m hp => List.mem_cons_of_mem _ (h.linking prev m hp)
  mapped := fun hm => absurd hm.symm Bool.false_ne_true

/-- A call of `notifySend`. -/
theorem notify (h : Consistent c calls es k) (hmapped : c.mapped = true) :
    Consistent c (.empty .notify none :: calls) es k where
  __ := h
  knows := List.forall_mem_cons.mpr ⟨trivial, h.knows⟩
  linking := fun prev m hp => List.mem_cons_of_mem _ (h.linking prev m hp)
  mapped := fun hm => absurd (hmapped.symm.trans hm) (by decide)

/-- While a packet is outstanding, it is the only one, and no call owns the flag. -/
theorem of_outstanding (h : Consistent c calls es k) {i : ℕ} {o : Outstanding}
    (ho : c.outstanding[i]? = some o) :
    c.outstanding.eraseIdx i = [] ∧ c.flag = true ∧ c.mapped = true ∧
      calls.countP Call.owns = 0 ∧ c.outstanding = [o] := by
  obtain ⟨hi, -⟩ := List.getElem?_eq_some_iff.mp ho
  have htoken := h.token
  have hflag := Bool.toNat_le c.flag
  have hlen : c.outstanding.length = 1 := by omega
  obtain ⟨o', hout⟩ := List.length_eq_one_iff.mp hlen
  have hzero : i = 0 := by omega
  subst hzero
  refine ⟨by rw [hout]; rfl, ?_, ?_, by omega, ?_⟩
  · by_contra hfalse
    rw [Bool.eq_false_iff.mpr hfalse, Bool.toNat_false] at htoken
    omega
  · by_contra hm
    have hnil := (h.mapped (Bool.eq_false_iff.mpr hm)).2.1
    rw [hnil] at hlen
    cases hlen
  · rw [hout] at ho
    cases ho
    exact hout

/-- The outstanding packet is completely sent, and `drainNext` is called. -/
theorem complete (h : Consistent c calls es k) {i : ℕ} {o : Outstanding}
    (ho : c.outstanding[i]? = some o) :
    Consistent { c with
        outstanding := c.outstanding.eraseIdx i, completed := c.completed ++ [o.packet] }
      (.empty (.first o.socket) none :: calls) es k := by
  obtain ⟨hnil, hflag, hmapped, hcount, -⟩ := h.of_outstanding ho
  obtain ⟨n, hfirst⟩ := h.front o (List.mem_of_getElem? ho)
  have hpopping := countP_popping_eq_zero hcount
  rw [hnil]
  exact { h with
    completed := by
      rw [List.countP_cons_of_pos rfl, hpopping, h.completed, hpopping]
      exact (h.take_succ hfirst).symm
    token := by
      rw [List.countP_cons_of_pos rfl, hcount, hflag]
      rfl
    knows := List.forall_mem_cons.mpr ⟨⟨(fun t ht => absurd ht (Option.not_mem_none t)), n, o.packet, hfirst⟩, h.knows⟩
    front := fun o ho => absurd ho List.not_mem_nil
    linking := fun prev m hp => List.mem_cons_of_mem _ (h.linking prev m hp)
    mapped := fun hm => absurd (hmapped.symm.trans hm) (by decide) }

theorem resendFailed (h : Consistent c calls es k) {i : ℕ} {o : Outstanding}
    (ho : c.outstanding[i]? = some o) :
    Consistent { c with outstanding := c.outstanding.eraseIdx i, flag := false } calls es k := by
  obtain ⟨hnil, -, hmapped, hcount, -⟩ := h.of_outstanding ho
  rw [hnil]
  exact { h with
    token := by
      rw [hcount]
      rfl
    front := fun o ho => absurd ho List.not_mem_nil
    mapped := fun hm => absurd (hmapped.symm.trans hm) (by decide) }

end Consistent

/-! ## Runs -/

namespace Receiver

/-- The invariant, for some entries and some number of packets popped. -/
def Sound (r : Receiver) : Prop := ∃ es k, Consistent r.shared r.calls es k

/-- What one step does to a receiver.  A receiver with a packet outstanding is in the
map, so `drainNext` and `clearFlag` find it there. -/
inductive Change (r : Receiver) : Action → Receiver → Prop
  | enqueue (p : PacketId) : r.Change (.enqueue p) (r.manageCompletePacket p)
  | notify (h : r.shared.mapped = true) : r.Change .notify (r.spawn (.empty .notify none))
  | unknown : r.Change .notify r
  | complete (i : ℕ) (o : Outstanding) (h : r.shared.outstanding[i]? = some o) :
      r.Change (.complete i)
        (((r.dequeue i).complete o.packet).spawn (.empty (.first o.socket) none))
  | resendFailed (i : ℕ) (o : Outstanding) (h : r.shared.outstanding[i]? = some o) :
      r.Change (.resendFailed i) ⟨{ (r.dequeue i).shared with flag := false }, r.calls⟩
  | run (i : ℕ) (env : Env) (call call' : Call) (others calls : List Call) (c : ClientQueue)
      (hi : r.calls[i]? = some call) (hperm : r.calls.Perm (call :: others))
      (hperm' : calls.Perm (call' :: others)) (hexec : r.shared.exec env call = some (c, call')) :
      r.Change (.run i env) ⟨c, calls⟩

theorem Sound.change {r r' : Receiver} {a : Action} (h : r.Sound) (hstep : r.step a = some r') :
    r.Change a r' := by
  obtain ⟨es, k, h⟩ := h
  cases a with
  | enqueue p =>
    cases hstep
    exact .enqueue p
  | notify =>
    cases hstep
    unfold notifySend
    split
    · exact .notify ‹_›
    · exact .unknown
  | complete i =>
    obtain ⟨o, ho, rfl⟩ := Option.map_eq_some_iff.mp hstep
    have hmapped : ((r.dequeue i).complete o.packet).shared.mapped = true :=
      (h.of_outstanding ho).2.2.1
    rw [drainNext, if_pos hmapped]
    exact .complete i o ho
  | resendFailed i =>
    obtain ⟨o, ho, rfl⟩ := Option.map_eq_some_iff.mp hstep
    have hmapped : (r.dequeue i).shared.mapped = true := (h.of_outstanding ho).2.2.1
    rw [clearFlag, if_pos hmapped]
    exact .resendFailed i o ho
  | run i env =>
    obtain ⟨call, call', hi, hperm, hperm', hexec⟩ := Config.run_spec hstep
    exact .run i env call call' _ _ _ hi hperm hperm' hexec

/-- **Every step of a receiver keeps the invariant.** -/
theorem Sound.step {r r' : Receiver} {a : Action} (h : r.Sound) (hstep : r.step a = some r') :
    r'.Sound := by
  have hchange := h.change hstep
  obtain ⟨es, k, h⟩ := h
  have hspawn : ∀ call : Call, (call :: r.calls).Perm (r.calls ++ [call]) := by
    intro call
    exact (List.perm_append_singleton call r.calls).symm
  cases hchange with
  | enqueue p => exact ⟨es, k, (h.enqueue p).perm (hspawn _)⟩
  | notify hmapped => exact ⟨es, k, (h.notify hmapped).perm (hspawn _)⟩
  | unknown => exact ⟨es, k, h⟩
  | complete i o ho => exact ⟨es, k, (h.complete ho).perm (hspawn _)⟩
  | resendFailed i o ho => exact ⟨es, k, h.resendFailed ho⟩
  | run i env call call' others calls c _ hperm hperm' hexec =>
    obtain ⟨es', k', h'⟩ := (h.perm hperm).exec hexec
    exact ⟨es', k', h'.perm hperm'.symm⟩

theorem sound_new : new.Sound := ⟨[], 0, .new⟩

/-- **The invariant holds throughout**, whatever the sends and the sessions do. -/
theorem sound_of_reaches {ok : Receiver → Action → Prop} {r : Receiver}
    (h : Reaches step ok new r) : r.Sound :=
  h.invariant sound_new fun _ _ _ _ hsound _ hstep => hsound.step hstep

/-- **A receiver at rest.**  The flag tells whether a packet is outstanding, and the
queue holds the packets that were enqueued and not completely sent, in order.  An
outstanding packet is the first of them. -/
theorem Sound.quiescent {r : Receiver} (h : r.Sound) (hq : r.Quiescent) :
    r.shared.outstanding.length = r.shared.flag.toNat ∧
    r.shared.exchanged = r.shared.completed ++ r.shared.queue.contents ∧
    r.shared.enqueued.Perm r.shared.exchanged ∧
    (r.shared.queue.head = r.shared.queue.tail ↔ r.shared.queue.contents = []) := by
  obtain ⟨es, k, h⟩ := h
  have howns : r.calls.countP Call.owns = 0 := by
    apply List.countP_eq_zero.mpr
    intro call hcall
    rw [hq call hcall]
    exact Bool.false_ne_true
  have hwaiting : r.calls.filterMap Call.waiting = [] := by
    apply List.filterMap_eq_nil_iff.mpr
    intro call hcall
    rw [hq call hcall]
    rfl
  have hcontents : r.shared.queue.contents = es.map Entry.value := by
    apply h.represents.contents_eq
    intro prev m hp
    cases hq _ (h.linking prev m hp)
  have htoken := h.token
  have henqueued := h.enqueued
  rw [howns, Nat.zero_add] at htoken
  rw [hwaiting, List.append_nil] at henqueued
  refine ⟨htoken, ?_, henqueued, ?_⟩
  · rw [h.completed, Consistent.countP_popping_eq_zero howns, Nat.add_zero, hcontents,
      ← h.exchanged, List.take_append_drop]
  · rw [h.represents.head_eq_tail_iff, hcontents, List.map_eq_nil_iff]

end Receiver

end IocpChat

import Mathlib.Data.List.Nodup
import Mathlib.Data.List.Perm.Subperm

/-!
# `MpscQueue`

The queue is a singly linked list of nodes.  `tail` is a stub whose successors hold
the values, `head` is the last node.  A producer first exchanges its node into
`head` and then stores it into the `next` field of the node that was there before,
so that between the two the list is broken at that place.

The atomic operations are functions on the heap.  A node is its address, and `new`
gives an address that was not used before.  A load from a node that was deleted may
give anything, which is an argument of `loadNext`.  The two deletes of `pop` are
taken together with the store to `tail` before them, the earliest moment at which
another thread can meet them.

Over the heap, `Represents` is the abstract view: the entries in the order of the
exchanges, each with a mark that tells whether its node is linked yet.  An exchange
appends an entry, a link sets its mark, and a `pop` takes away the first entry if it
is linked.

## Main definitions

* `MpscQueue`, `alloc`, `exchange`, `link`, `loadNext`, `advance` — the heap and the
  atomic operations.
* `Cursor`, `peek` — the loads that `pop` and `front` have in common.
* `Entry`, `Represents`, `Pending` — the abstract view.
-/

namespace IocpChat

/-! ## The code -/

/-- The nodes and the two ends of a queue. -/
structure MpscQueue (α : Type) where
  data : ℕ → Option α
  next : ℕ → Option ℕ
  /-- The nodes that were deleted. -/
  freed : ℕ → Bool
  /-- The address that `new` gives out next. -/
  fresh : ℕ
  head : ℕ
  tail : ℕ

/-- Where `pop` or `front` stands in its loads. -/
inductive Cursor
  | loadTail
  | loadNext (tail_ : ℕ)
  /-- `next` was null: test whether `tail_` is the head. -/
  | loadHead (tail_ : ℕ)
  /-- A producer has not linked its node yet: wait for it. -/
  | spin (tail_ : ℕ)
  deriving DecidableEq

/-- What a load of `pop` or `front` leads to. -/
inductive Peek
  | more (c : Cursor)
  | empty
  | found (tail_ next_ : ℕ)

namespace MpscQueue

variable {α : Type}

def new : MpscQueue α := ⟨fun _ => none, fun _ => none, fun _ => false, 1, 0, 0⟩

/-- `new Node(new T(value))`, at the address `fresh`. -/
def alloc (q : MpscQueue α) (value : α) : MpscQueue α :=
  { q with
    data := Function.update q.data q.fresh (some value)
    next := Function.update q.next q.fresh none
    freed := Function.update q.freed q.fresh false
    fresh := q.fresh + 1 }

/-- `head.exchange(node)`; the value before is `head`. -/
def exchange (q : MpscQueue α) (node : ℕ) : MpscQueue α := { q with head := node }

/-- `prev->next.store(node)`. -/
def link (q : MpscQueue α) (prev node : ℕ) : MpscQueue α :=
  { q with next := Function.update q.next prev (some node) }

/-- `node->next.load()`, which gives `junk` if the node was deleted. -/
def loadNext (q : MpscQueue α) (junk : Option ℕ) (node : ℕ) : Option ℕ :=
  if q.freed node then junk else q.next node

/-- `tail.store(next_)`, with the deletion of the old stub. -/
def advance (q : MpscQueue α) (tail_ next_ : ℕ) : MpscQueue α :=
  { q with tail := next_, freed := Function.update q.freed tail_ true }

/-- One load of `pop` or `front`. -/
def peek (q : MpscQueue α) (junk : Option ℕ) : Cursor → Peek
  | .loadTail => .more (.loadNext q.tail)
  | .loadNext tail_ =>
    match q.loadNext junk tail_ with
    | none => .more (.loadHead tail_)
    | some next_ => .found tail_ next_
  | .loadHead tail_ => if tail_ = q.head then .empty else .more (.spin tail_)
  | .spin tail_ =>
    match q.loadNext junk tail_ with
    | none => .more (.spin tail_)
    | some next_ => .found tail_ next_

/-- The values that follow a node, as far as the nodes are linked. -/
def walk (q : MpscQueue α) : ℕ → ℕ → List α
  | 0, _ => []
  | fuel + 1, node =>
    match q.next node with
    | none => []
    | some node' => (q.data node').toList ++ q.walk fuel node'

/-- The values in the queue, the oldest first. -/
def contents (q : MpscQueue α) : List α := q.walk q.fresh q.tail

/-! ## The abstract view -/

/-- A value that was pushed and not yet popped, and whether the push has linked it. -/
structure Entry (α : Type) where
  node : ℕ
  value : α
  linked : Bool

/-- The entries follow a node, up to the head. -/
def Linked (q : MpscQueue α) : ℕ → List (Entry α) → Prop
  | n, [] => q.next n = none ∧ q.head = n
  | n, e :: es => q.next n = (if e.linked then some e.node else none) ∧
      q.data e.node = some e.value ∧ q.Linked e.node es

/-- The nodes of a queue, from a node on. -/
def nodes (n : ℕ) (es : List (Entry α)) : List ℕ := n :: es.map Entry.node

/-- **The queue holds these entries**, in the order in which they were pushed. -/
structure Represents (q : MpscQueue α) (es : List (Entry α)) : Prop where
  linked : q.Linked q.tail es
  nodup : (nodes q.tail es).Nodup
  live : ∀ n ∈ nodes q.tail es, n < q.fresh ∧ q.freed n = false

/-- After the node `n` and among the entries `es`, the node `m` follows `prev` and is
not linked yet. -/
def Pending : ℕ → List (Entry α) → ℕ → ℕ → Prop
  | _, [], _, _ => False
  | n, e :: es, prev, m =>
    (n = prev ∧ e.node = m ∧ e.linked = false) ∨ Pending e.node es prev m

/-- The entries after the node `m` has been linked. -/
def mark (m : ℕ) (es : List (Entry α)) : List (Entry α) :=
  es.map fun e => if e.node = m then { e with linked := true } else e

/-- The node `n` was allocated for `value` and is not in the queue yet. -/
structure Private (q : MpscQueue α) (es : List (Entry α)) (n : ℕ) (value : α) : Prop where
  notMem : n ∉ nodes q.tail es
  live : n < q.fresh ∧ q.freed n = false
  next_eq : q.next n = none
  data_eq : q.data n = some value

/-- What a thread knows in the middle of `pop` or `front`, if no other thread pops. -/
def At (q : MpscQueue α) (es : List (Entry α)) : Cursor → Prop
  | .loadTail => True
  | .loadNext tail_ => tail_ = q.tail
  | .loadHead tail_ => tail_ = q.tail
  | .spin tail_ => tail_ = q.tail ∧ es ≠ []

/-- The first entry is linked, and these are its node and its value. -/
def First (es : List (Entry α)) (node : ℕ) (value : α) : Prop :=
  ∃ rest, es = ⟨node, value, true⟩ :: rest

variable {q : MpscQueue α} {es : List (Entry α)} {n m prev node : ℕ} {value : α}

theorem nodup_nodes_cons {e : Entry α} :
    (nodes n (e :: es)).Nodup ↔ n ∉ nodes e.node es ∧ (nodes e.node es).Nodup :=
  List.nodup_cons

theorem nodes_append_singleton (n : ℕ) (es : List (Entry α)) (e : Entry α) :
    nodes n (es ++ [e]) = nodes n es ++ [e.node] := by
  simp [nodes]

theorem map_node_mark (m : ℕ) (es : List (Entry α)) :
    (mark m es).map Entry.node = es.map Entry.node := by
  rw [mark, List.map_map]
  apply List.map_congr_left
  intro e _
  rw [Function.comp_apply]
  split <;> rfl

theorem map_value_mark (m : ℕ) (es : List (Entry α)) :
    (mark m es).map Entry.value = es.map Entry.value := by
  rw [mark, List.map_map]
  apply List.map_congr_left
  intro e _
  rw [Function.comp_apply]
  split <;> rfl

@[simp] theorem nodes_mark (n m : ℕ) (es : List (Entry α)) : nodes n (mark m es) = nodes n es := by
  rw [nodes, map_node_mark, nodes]

theorem mark_eq_self (h : m ∉ es.map Entry.node) : mark m es = es := by
  have hid : ∀ e ∈ es, (if e.node = m then { e with linked := true } else e) = id e := by
    intro e he
    refine if_neg ?_
    rintro rfl
    exact h (List.mem_map_of_mem he)
  rw [mark, List.map_congr_left hid, List.map_id]

theorem Pending.mem_nodes (h : Pending n es prev m) : prev ∈ nodes n es ∧ m ∈ es.map Entry.node := by
  induction es generalizing n with
  | nil => exact absurd h id
  | cons e es ih =>
    rcases h with ⟨rfl, rfl, -⟩ | h
    · exact ⟨List.mem_cons_self, List.mem_cons_self⟩
    · obtain ⟨hprev, hm⟩ := ih h
      exact ⟨List.mem_cons_of_mem _ hprev, List.mem_cons_of_mem _ hm⟩

theorem Linked.congr {q' : MpscQueue α} (h : q.Linked n es)
    (hnext : ∀ k ∈ nodes n es, q'.next k = q.next k)
    (hdata : ∀ k ∈ nodes n es, q'.data k = q.data k) (hhead : q'.head = q.head) :
    q'.Linked n es := by
  induction es generalizing n with
  | nil => exact ⟨(hnext n List.mem_cons_self).trans h.1, hhead.trans h.2⟩
  | cons e es ih =>
    obtain ⟨hn, hd, hrest⟩ := h
    have htail : ∀ k ∈ nodes e.node es, k ∈ nodes n (e :: es) := fun k hk =>
      List.mem_cons_of_mem _ hk
    refine ⟨(hnext n List.mem_cons_self).trans hn, ?_, ?_⟩
    · exact (hdata e.node (htail _ List.mem_cons_self)).trans hd
    · exact ih hrest (fun k hk => hnext k (htail k hk)) fun k hk => hdata k (htail k hk)

/-! ## The operations on the abstract view -/

theorem represents_new : (new : MpscQueue α).Represents [] := by
  refine ⟨⟨rfl, rfl⟩, List.nodup_singleton _, ?_⟩
  intro n hn
  cases List.mem_singleton.mp hn
  exact ⟨Nat.zero_lt_one, rfl⟩

theorem Represents.alloc (h : q.Represents es) (value : α) : (q.alloc value).Represents es := by
  have hne : ∀ k ∈ nodes q.tail es, k ≠ q.fresh := fun k hk =>
    Nat.ne_of_lt (h.live k hk).1
  refine ⟨h.linked.congr (fun k hk => Function.update_of_ne (hne k hk) ..)
    (fun k hk => Function.update_of_ne (hne k hk) ..) rfl, h.nodup, ?_⟩
  intro k hk
  obtain ⟨hlt, hfreed⟩ := h.live k hk
  exact ⟨Nat.lt_succ_of_lt hlt, (Function.update_of_ne (hne k hk) ..).trans hfreed⟩

theorem Represents.private_alloc (h : q.Represents es) (value : α) :
    (q.alloc value).Private es q.fresh value := by
  refine ⟨fun hmem => Nat.lt_irrefl _ (h.live _ hmem).1, ⟨Nat.lt_succ_self _, ?_⟩, ?_, ?_⟩
  · exact Function.update_self ..
  · exact Function.update_self ..
  · exact Function.update_self ..

theorem Linked.exchange (h : q.Linked n es) (hnext : q.next m = none)
    (hdata : q.data m = some value) : (q.exchange m).Linked n (es ++ [⟨m, value, false⟩]) := by
  induction es generalizing n with
  | nil => exact ⟨h.1, hdata, hnext, rfl⟩
  | cons e es ih => exact ⟨h.1, h.2.1, ih h.2.2⟩

theorem Represents.exchange (h : q.Represents es) (hp : q.Private es m value) :
    (q.exchange m).Represents (es ++ [⟨m, value, false⟩]) := by
  refine ⟨h.linked.exchange hp.next_eq hp.data_eq, ?_, ?_⟩
  · rw [nodes_append_singleton]
    exact List.concat_eq_append ▸ h.nodup.concat hp.notMem
  · intro k hk
    rw [nodes_append_singleton, List.mem_append, List.mem_singleton] at hk
    rcases hk with hk | rfl
    · exact h.live k hk
    · exact hp.live

theorem Linked.pending_exchange (h : q.Linked n es) :
    Pending n (es ++ [⟨m, value, false⟩]) q.head m := by
  induction es generalizing n with
  | nil => exact .inl ⟨h.2.symm, rfl, rfl⟩
  | cons e es ih => exact .inr (ih h.2.2)

theorem Linked.link (h : q.Linked n es) (hp : Pending n es prev m) (hnodup : (nodes n es).Nodup) :
    (q.link prev m).Linked n (mark m es) := by
  induction es generalizing n with
  | nil => exact absurd hp id
  | cons e es ih =>
    obtain ⟨hn, hd, hrest⟩ := h
    obtain ⟨hnotMem, hnodup⟩ := nodup_nodes_cons.mp hnodup
    rcases hp with ⟨rfl, rfl, -⟩ | hp
    · -- the entry itself: nothing behind it changes, for its predecessor is not there
      have hmark : mark e.node (e :: es) = { e with linked := true } :: es := by
        have hself := mark_eq_self (List.nodup_cons.mp hnodup).1
        rw [mark, List.map_cons, if_pos rfl]
        exact congrArg _ hself
      rw [hmark]
      refine ⟨Function.update_self .., hd, hrest.congr ?_ (fun _ _ => rfl) rfl⟩
      intro k hk
      refine Function.update_of_ne ?_ ..
      rintro rfl
      exact hnotMem hk
    · obtain ⟨hprev, hm⟩ := hp.mem_nodes
      have hne : e.node ≠ m := by
        rintro rfl
        exact (List.nodup_cons.mp hnodup).1 hm
      have hmark : mark m (e :: es) = e :: mark m es := by
        rw [mark, List.map_cons, if_neg hne, mark]
      rw [hmark]
      refine ⟨(Function.update_of_ne ?_ ..).trans hn, hd, ih hrest hp hnodup⟩
      rintro rfl
      exact hnotMem hprev

theorem Represents.link (h : q.Represents es) (hp : Pending q.tail es prev m) :
    (q.link prev m).Represents (mark m es) :=
  ⟨h.linked.link hp h.nodup, (nodes_mark q.tail m es).symm ▸ h.nodup,
    fun k hk => h.live k (nodes_mark q.tail m es ▸ hk)⟩

/-- A `pop` takes the first entry away. -/
theorem Represents.advance {e : Entry α} (h : q.Represents (e :: es)) :
    (q.advance q.tail e.node).Represents es := by
  obtain ⟨hnotMem, hnodup⟩ := nodup_nodes_cons.mp h.nodup
  refine ⟨h.linked.2.2.congr (fun _ _ => rfl) (fun _ _ => rfl) rfl, hnodup, ?_⟩
  intro k hk
  obtain ⟨hlt, hfreed⟩ := h.live k (List.mem_cons_of_mem _ hk)
  refine ⟨hlt, (Function.update_of_ne ?_ ..).trans hfreed⟩
  rintro rfl
  exact hnotMem hk

/-! ## What the loads see -/

theorem Linked.head_mem (h : q.Linked n es) : q.head ∈ nodes n es := by
  induction es generalizing n with
  | nil => exact List.mem_singleton.mpr h.2
  | cons e es ih => exact List.mem_cons_of_mem _ (ih h.2.2)

theorem Represents.head_eq_tail_iff (h : q.Represents es) : q.head = q.tail ↔ es = [] := by
  cases es with
  | nil => exact iff_of_true h.linked.2 rfl
  | cons e es =>
    refine iff_of_false ?_ (List.cons_ne_nil e es)
    intro heq
    exact (nodup_nodes_cons.mp h.nodup).1 (heq ▸ h.linked.2.2.head_mem)

theorem Represents.loadNext_cases (h : q.Represents es) (junk : Option ℕ) :
    (q.loadNext junk q.tail = none ∧ ∀ n v, ¬ First es n v) ∨
    (∃ n v, q.loadNext junk q.tail = some n ∧ First es n v ∧ q.data n = some v) := by
  have hload : q.loadNext junk q.tail = q.next q.tail := by
    rw [loadNext, (h.live q.tail List.mem_cons_self).2, if_neg Bool.false_ne_true]
  rw [hload]
  cases es with
  | nil =>
    refine .inl ⟨h.linked.1, ?_⟩
    rintro n v ⟨rest, hnil⟩
    cases hnil
  | cons e rest =>
    obtain ⟨hn, hd, -⟩ := h.linked
    obtain ⟨node, value, linked⟩ := e
    rw [hn]
    cases linked with
    | false =>
      refine .inl ⟨rfl, ?_⟩
      rintro n v ⟨rest', hcons⟩
      cases hcons
    | true => exact .inr ⟨node, value, rfl, ⟨rest, rfl⟩, hd⟩

theorem First.unique {n' : ℕ} {value' : α} (h : First es n value) (h' : First es n' value') :
    n' = n ∧ value' = value := by
  obtain ⟨rest, rfl⟩ := h
  obtain ⟨rest', heq⟩ := h'
  cases heq
  exact ⟨rfl, rfl⟩

theorem Represents.loadNext_of_first (h : q.Represents es) (hfirst : First es n value)
    (junk : Option ℕ) : q.loadNext junk q.tail = some n ∧ q.data n = some value := by
  rcases h.loadNext_cases junk with ⟨-, hnone⟩ | ⟨m, v, hload, hfirst', hdata⟩
  · exact absurd hfirst (hnone n value)
  · obtain ⟨rfl, rfl⟩ := hfirst.unique hfirst'
    exact ⟨hload, hdata⟩

/-- **What `pop` and `front` find**, if no other thread pops: nothing if the queue is
empty, and otherwise its first entry. -/
theorem Represents.peek_spec (h : q.Represents es) {c : Cursor} (hc : q.At es c)
    (junk : Option ℕ) :
    (∃ c', q.peek junk c = .more c' ∧ q.At es c') ∨
    (q.peek junk c = .empty ∧ es = []) ∨
    (∃ n v, q.peek junk c = .found q.tail n ∧ First es n v ∧ q.data n = some v) := by
  cases c with
  | loadTail => exact .inl ⟨_, rfl, rfl⟩
  | loadHead t =>
    cases hc
    by_cases hhead : q.tail = q.head
    · exact .inr (.inl ⟨if_pos hhead, h.head_eq_tail_iff.mp hhead.symm⟩)
    · refine .inl ⟨_, if_neg hhead, rfl, fun hnil => hhead ?_⟩
      exact (h.head_eq_tail_iff.mpr hnil).symm
  | loadNext t =>
    cases hc
    rcases h.loadNext_cases junk with ⟨hload, -⟩ | ⟨n, v, hload, hfirst, hdata⟩
    · exact .inl ⟨.loadHead q.tail, by simp only [peek, hload], rfl⟩
    · exact .inr (.inr ⟨n, v, by simp only [peek, hload], hfirst, hdata⟩)
  | spin t =>
    obtain ⟨rfl, hne⟩ := hc
    rcases h.loadNext_cases junk with ⟨hload, -⟩ | ⟨n, v, hload, hfirst, hdata⟩
    · exact .inl ⟨.spin q.tail, by simp only [peek, hload], rfl, hne⟩
    · exact .inr (.inr ⟨n, v, by simp only [peek, hload], hfirst, hdata⟩)

/-! ## What the operations of other threads leave alone -/

theorem Private.alloc (h : q.Private es n value) (other : α) :
    (q.alloc other).Private es n value := by
  have hne : n ≠ q.fresh := Nat.ne_of_lt h.live.1
  refine ⟨h.notMem, ⟨Nat.lt_succ_of_lt h.live.1, ?_⟩, ?_, ?_⟩
  · exact (Function.update_of_ne hne ..).trans h.live.2
  · exact (Function.update_of_ne hne ..).trans h.next_eq
  · exact (Function.update_of_ne hne ..).trans h.data_eq

theorem Private.exchange (h : q.Private es n value) (hne : n ≠ m) (other : α) :
    (q.exchange m).Private (es ++ [⟨m, other, false⟩]) n value := by
  refine ⟨?_, h.live, h.next_eq, h.data_eq⟩
  intro hmem
  rw [nodes_append_singleton, List.mem_append, List.mem_singleton] at hmem
  exact hmem.elim h.notMem hne

theorem Private.link (h : q.Private es n value) (hprev : prev ∈ nodes q.tail es) :
    (q.link prev m).Private (mark m es) n value := by
  refine ⟨(nodes_mark q.tail m es).symm ▸ h.notMem, h.live, ?_, h.data_eq⟩
  refine (Function.update_of_ne ?_ ..).trans h.next_eq
  rintro rfl
  exact h.notMem hprev

theorem Private.advance {e : Entry α} (h : q.Private (e :: es) n value) :
    (q.advance q.tail e.node).Private es n value := by
  refine ⟨fun hmem => h.notMem (List.mem_cons_of_mem _ hmem), ⟨h.live.1, ?_⟩, h.next_eq, h.data_eq⟩
  refine (Function.update_of_ne ?_ ..).trans h.live.2
  rintro rfl
  exact h.notMem List.mem_cons_self

theorem Pending.append (h : Pending n es prev m) (es' : List (Entry α)) :
    Pending n (es ++ es') prev m := by
  induction es generalizing n with
  | nil => exact absurd h id
  | cons e es ih => exact h.imp_right ih

/-- The pending links after an exchange: those before, and the one to the old head. -/
theorem Linked.pending_exchange_cases (h : q.Linked n es)
    (hp : Pending n (es ++ [⟨node, value, false⟩]) prev m) :
    Pending n es prev m ∨ (prev = q.head ∧ m = node) := by
  induction es generalizing n with
  | nil =>
    rcases hp with ⟨rfl, rfl, -⟩ | hp
    · exact .inr ⟨h.2.symm, rfl⟩
    · exact absurd hp id
  | cons e es ih =>
    rcases hp with hp | hp
    · exact .inl (.inl hp)
    · exact (ih h.2.2 hp).imp_left .inr

theorem pending_mark_iff : Pending n (mark node es) prev m ↔ Pending n es prev m ∧ m ≠ node := by
  induction es generalizing n with
  | nil => exact ⟨fun h => absurd h id, fun h => absurd h.1 id⟩
  | cons e es ih =>
    by_cases he : e.node = node
    · have hmark : mark node (e :: es) = { e with linked := true } :: mark node es := by
        rw [mark, List.map_cons, if_pos he, mark]
      rw [hmark]
      constructor
      · rintro (⟨-, -, hfalse⟩ | hp)
        · cases hfalse
        · exact ⟨.inr (ih.mp hp).1, (ih.mp hp).2⟩
      · rintro ⟨⟨-, rfl, -⟩ | hp, hne⟩
        · exact absurd he hne
        · exact .inr (ih.mpr ⟨hp, hne⟩)
    · have hmark : mark node (e :: es) = e :: mark node es := by
        rw [mark, List.map_cons, if_neg he, mark]
      rw [hmark]
      constructor
      · rintro (⟨rfl, rfl, hlinked⟩ | hp)
        · exact ⟨.inl ⟨rfl, rfl, hlinked⟩, he⟩
        · exact ⟨.inr (ih.mp hp).1, (ih.mp hp).2⟩
      · rintro ⟨hp | hp, hne⟩
        · exact .inl hp
        · exact .inr (ih.mpr ⟨hp, hne⟩)

theorem pending_cons_of_linked {e : Entry α} (he : e.linked = true) :
    Pending n (e :: es) prev m ↔ Pending e.node es prev m := by
  constructor
  · rintro (⟨-, -, hfalse⟩ | h)
    · rw [he] at hfalse
      cases hfalse
    · exact h
  · exact .inr

theorem First.append (h : First es n value) (es' : List (Entry α)) :
    First (es ++ es') n value := by
  obtain ⟨rest, rfl⟩ := h
  exact ⟨rest ++ es', rfl⟩

theorem First.mark (h : First es n value) (m : ℕ) : First (mark m es) n value := by
  obtain ⟨rest, rfl⟩ := h
  refine ⟨MpscQueue.mark m rest, ?_⟩
  rw [MpscQueue.mark, List.map_cons, MpscQueue.mark]
  split <;> rfl

theorem First.ne_nil (h : First es n value) : es ≠ [] := by
  obtain ⟨rest, rfl⟩ := h
  exact List.cons_ne_nil _ _

/-- What a thread knows in its loads survives a change that leaves the stub alone and
does not empty the queue. -/
theorem At.mono {q' : MpscQueue α} {es' : List (Entry α)} {c : Cursor} (h : q.At es c)
    (htail : q'.tail = q.tail) (hne : es ≠ [] → es' ≠ []) : q'.At es' c := by
  cases c with
  | loadTail => trivial
  | loadNext | loadHead => exact Eq.trans h htail.symm
  | spin t => exact ⟨h.1.trans htail.symm, hne h.2⟩

/-! ## The contents -/

theorem linked_of_not_pending (h : ∀ prev m, ¬ Pending n es prev m) :
    ∀ e ∈ es, e.linked = true := by
  induction es generalizing n with
  | nil => exact fun e he => absurd he List.not_mem_nil
  | cons e es ih =>
    intro e' he'
    rcases List.mem_cons.mp he' with rfl | he'
    · by_contra hlinked
      exact h n e'.node (.inl ⟨rfl, rfl, Bool.eq_false_iff.mpr hlinked⟩)
    · exact ih (fun prev m hp => h prev m (.inr hp)) e' he'

theorem Linked.walk_eq (h : q.Linked n es) (hlinked : ∀ e ∈ es, e.linked = true) {fuel : ℕ}
    (hfuel : es.length ≤ fuel) : q.walk fuel n = es.map Entry.value := by
  induction es generalizing n fuel with
  | nil =>
    cases fuel with
    | zero => rfl
    | succ fuel => rw [walk, h.1, List.map_nil]
  | cons e es ih =>
    obtain ⟨hn, hd, hrest⟩ := h
    cases fuel with
    | zero => exact absurd hfuel (Nat.not_succ_le_zero _)
    | succ fuel =>
      have hnext : q.next n = some e.node := by
        rw [hn, hlinked e List.mem_cons_self, if_pos rfl]
      have htail := ih hrest (fun e' he' => hlinked e' (List.mem_cons_of_mem _ he'))
        (Nat.le_of_succ_le_succ hfuel)
      rw [walk, hnext, List.map_cons, ← htail]
      simp [hd]

theorem Represents.length_le (h : q.Represents es) : es.length ≤ q.fresh := by
  have hsub : nodes q.tail es ⊆ List.range q.fresh := fun n hn =>
    List.mem_range.mpr (h.live n hn).1
  have hle := (List.subperm_of_subset h.nodup hsub).length_le
  rw [nodes, List.length_cons, List.length_map, List.length_range] at hle
  omega

/-- **When every link has been made, the nodes hold the values of the entries.** -/
theorem Represents.contents_eq (h : q.Represents es)
    (hpending : ∀ prev m, ¬ Pending q.tail es prev m) : q.contents = es.map Entry.value :=
  h.linked.walk_eq (linked_of_not_pending hpending) h.length_le

end MpscQueue

end IocpChat

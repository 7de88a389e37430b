import IocpChat.Lib.Transition
import IocpChat.DataStructure.Mpsc

/-!
# `MpscQueue` with its producers and its consumer

Any number of threads push, and one thread calls `front`, `pop` and `empty`.  A thread
is the point of its code it has come to, and a step is one operation on an atomic
variable.  A load from a deleted node gives anything.

The two logs are the history: the values in the order of the exchanges, and the values
removed by `pop`.  What is between them is what the entries of the queue hold, so the
exchange is where a push takes effect and the store to `tail` is where a `pop` does.

While pushes stand between their exchange and their link, the nodes form several chains:
one from the stub, and one from the node of each such push (`Represents.chain_append`).
In that state `empty` may answer yes although later pushes have returned, since it does
not compare the stub with `head`; when it answers no, there is a value to pop.

## Main definitions

* `Push`, `Consumer` — the threads, and `Push.exec`, `Consumer.exec`, their steps.
* `Threads`, `Threads.step` — the queue with its threads.
* `chain`, `unlinked` — the nodes that follow a node, and the links that are not made.
* `Threads.Holds` — a node that some thread can still get to.
-/

namespace IocpChat

open Transition

/-- The nodes `pop` and `front` have in their local variables. -/
def Cursor.locals : Cursor → List ℕ
  | .loadTail => []
  | .loadNext tail_ | .loadHead tail_ | .spin tail_ => [tail_]

namespace MpscQueue

variable {α : Type}

/-! ## The threads -/

/-- The point a call of `push` has come to. -/
inductive Push (α : Type)
  | alloc (value : α)
  | exchange (value : α) (node : ℕ)
  | link (prev node : ℕ)
  | done

/-- What a call of the consumer returns.  The value of `front` on an empty queue is a
default-constructed one, here `none`. -/
inductive Response (α : Type)
  | front (value : Option α)
  | pop (removed : Bool)
  | empty (isEmpty : Bool)

/-- The point the consumer has come to. -/
inductive Consumer (α : Type)
  | idle
  | front (c : Cursor)
  | pop (c : Cursor)
  /-- `pop` has found a successor of the stub. -/
  | advance (tail_ next_ : ℕ)
  /-- `empty`, before its first load or with the tail it has loaded. -/
  | empty (tail_ : Option ℕ)
  | returned (r : Response α)

structure Logged (α : Type) where
  queue : MpscQueue α
  /-- The values in the order in which their nodes were exchanged into `head`. -/
  exchanged : List α
  /-- The values that `pop` has removed. -/
  popped : List α

/-- One step of `push`. -/
def Push.exec (l : Logged α) (_ : Unit) : Push α → Option (Logged α × Push α)
  | .alloc value => some ({ l with queue := l.queue.alloc value }, .exchange value l.queue.fresh)
  | .exchange value node =>
    some ({ l with queue := l.queue.exchange node, exchanged := l.exchanged ++ [value] },
      .link l.queue.head node)
  | .link prev node => some ({ l with queue := l.queue.link prev node }, .done)
  | .done => none

/-- One step of the consumer.  A successor without data is not followed. -/
def Consumer.exec (l : Logged α) (junk : Option ℕ) : Consumer α → Option (Logged α × Consumer α)
  | .front c =>
    match l.queue.peek junk c with
    | .more c' => some (l, .front c')
    | .empty => some (l, .returned (.front none))
    | .found _ next_ => (l.queue.data next_).map fun v => (l, .returned (.front (some v)))
  | .pop c =>
    match l.queue.peek junk c with
    | .more c' => some (l, .pop c')
    | .empty => some (l, .returned (.pop false))
    | .found tail_ next_ => some (l, .advance tail_ next_)
  | .advance tail_ next_ =>
    some ({ l with
      queue := l.queue.advance tail_ next_
      popped := l.popped ++ (l.queue.data next_).toList }, .returned (.pop true))
  | .empty none => some (l, .empty (some l.queue.tail))
  | .empty (some tail_) => some (l, .returned (.empty (l.queue.loadNext junk tail_).isNone))
  | .idle => none
  | .returned _ => none

/-- The queue, the calls of `push` in progress, and the consumer. -/
structure Threads (α : Type) where
  producers : Config (Logged α) (Push α)
  consumer : Consumer α

namespace Threads

def new : Threads α := ⟨⟨⟨.new, [], []⟩, []⟩, .idle⟩

abbrev logged (s : Threads α) : Logged α := s.producers.shared

inductive Action (α : Type)
  /-- A thread calls `push`. -/
  | push (value : α)
  /-- The `i`-th call of `push` takes a step. -/
  | produce (i : ℕ)
  | callFront
  | callPop
  | callEmpty
  | consume (junk : Option ℕ)

/-- The consumer makes a call, unless it is in the middle of one. -/
def call (s : Threads α) (c : Consumer α) : Option (Threads α) :=
  match s.consumer with
  | .idle | .returned _ => some { s with consumer := c }
  | _ => none

def step (s : Threads α) : Action α → Option (Threads α)
  | .push value => some { s with producers := s.producers.spawn (.alloc value) }
  | .produce i => (s.producers.run Push.exec i ()).map fun p => { s with producers := p }
  | .callFront => s.call (.front .loadTail)
  | .callPop => s.call (.pop .loadTail)
  | .callEmpty => s.call (.empty none)
  | .consume junk =>
    (s.consumer.exec s.logged junk).map fun r =>
      ⟨{ s.producers with shared := r.1 }, r.2⟩

end Threads

/-! ## The history -/

def Logged.Grows (l l' : Logged α) : Prop :=
  l.exchanged <+: l'.exchanged ∧ l.popped <+: l'.popped

theorem Logged.Grows.refl (l : Logged α) : l.Grows l := ⟨List.prefix_rfl, List.prefix_rfl⟩

theorem Logged.Grows.trans {l l' l'' : Logged α} (h : l.Grows l') (h' : l'.Grows l'') :
    l.Grows l'' :=
  ⟨h.1.trans h'.1, h.2.trans h'.2⟩

theorem Push.exec_grows {l l' : Logged α} {p p' : Push α} (h : p.exec l () = some (l', p')) :
    l.Grows l' := by
  cases p with
  | exchange value node =>
    cases h
    exact ⟨List.prefix_append .., List.prefix_rfl⟩
  | done => cases h
  | _ =>
    cases h
    exact Logged.Grows.refl l

/-- The consumer is in the middle of a call. -/
def Consumer.busy : Consumer α → Bool
  | .idle | .returned _ => false
  | _ => true

/-- What a step of the consumer comes to. -/
inductive Outcome (l : Logged α) : Logged α → Consumer α → Prop
  | busy (c : Consumer α) (h : c.busy = true) : Outcome l l c
  | empty (isEmpty : Bool) (h : isEmpty = false → l.exchanged ≠ l.popped) :
      Outcome l l (.returned (.empty isEmpty))
  /-- `front` returns the oldest value that was not popped, if there is one. -/
  | front : Outcome l l (.returned (.front l.exchanged[l.popped.length]?))
  /-- `pop` returns false if every value exchanged has been popped. -/
  | none (h : l.exchanged = l.popped) : Outcome l l (.returned (.pop false))
  | popped (queue : MpscQueue α) (v : α) :
      Outcome l { l with queue, popped := l.popped ++ [v] } (.returned (.pop true))

theorem Outcome.grows {l l' : Logged α} {c : Consumer α} (h : Outcome l l' c) : l.Grows l' := by
  cases h with
  | popped queue v => exact ⟨List.prefix_rfl, List.prefix_append ..⟩
  | _ => exact Logged.Grows.refl l

section Outcome

variable {l l' : Logged α}

theorem Outcome.front_eq {r : Option α} (h : Outcome l l' (.returned (.front r))) :
    r = l.exchanged[l.popped.length]? := by
  cases h with
  | busy _ hbusy => cases hbusy
  | front => rfl

theorem Outcome.exchanged_eq (h : Outcome l l' (.returned (.pop false))) :
    l.exchanged = l.popped := by
  cases h with
  | busy _ hbusy => cases hbusy
  | none heq => exact heq

theorem Outcome.exchanged_ne (h : Outcome l l' (.returned (.empty false))) :
    l.exchanged ≠ l.popped := by
  cases h with
  | busy _ hbusy => cases hbusy
  | empty _ hne => exact hne rfl

theorem Outcome.removes (h : Outcome l l' (.returned (.pop true))) :
    ∃ v, l'.popped = l.popped ++ [v] := by
  cases h with
  | busy _ hbusy => cases hbusy
  | popped queue v => exact ⟨v, rfl⟩

end Outcome

/-! ## The chains of nodes -/

/-- The nodes that follow a node, the node itself included. -/
def chainFrom (q : MpscQueue α) : ℕ → ℕ → List ℕ
  | 0, n => [n]
  | fuel + 1, n =>
    match q.next n with
    | none => [n]
    | some n' => n :: q.chainFrom fuel n'

/-- All the nodes that can be reached from a node through `next`. -/
def chain (q : MpscQueue α) (n : ℕ) : List ℕ := q.chainFrom q.fresh n

/-- The links that are still to be made, from a node on: the node before, and the node
itself. -/
def unlinked : ℕ → List (Entry α) → List (ℕ × ℕ)
  | _, [] => []
  | n, e :: es => if e.linked then unlinked e.node es else (n, e.node) :: unlinked e.node es

section Chains

variable {q : MpscQueue α} {es : List (Entry α)} {n m prev fuel : ℕ} {value : α}

theorem mem_unlinked_iff : (prev, m) ∈ unlinked n es ↔ Pending n es prev m := by
  induction es generalizing n with
  | nil => simp [unlinked, Pending]
  | cons e es ih =>
    cases he : e.linked <;> simp [unlinked, Pending, he, ih, eq_comm]

theorem unlinked_snd_sublist (n : ℕ) (es : List (Entry α)) :
    ((unlinked n es).map Prod.snd).Sublist (es.map Entry.node) := by
  induction es generalizing n with
  | nil => simp [unlinked]
  | cons e es ih =>
    cases he : e.linked with
    | true => simpa [unlinked, he] using (ih e.node).cons e.node
    | false => simpa [unlinked, he] using ih e.node

theorem Linked.unlinked_exchange (h : q.Linked n es) :
    unlinked n (es ++ [⟨m, value, false⟩]) = unlinked n es ++ [(q.head, m)] := by
  induction es generalizing n with
  | nil => simp [unlinked, h.2]
  | cons e es ih => cases he : e.linked <;> simp [unlinked, he, ih h.2.2]

theorem unlinked_mark (n m : ℕ) (es : List (Entry α)) :
    unlinked n (mark m es) = (unlinked n es).filter fun l => l.2 ≠ m := by
  induction es generalizing n with
  | nil => rfl
  | cons e es ih =>
    have hmark : mark m (e :: es) =
        (if e.node = m then { e with linked := true } else e) :: mark m es := rfl
    rw [hmark]
    by_cases hm : e.node = m <;> cases he : e.linked <;> simp [unlinked, hm, he, ih]

theorem Linked.chainFrom_eq (h : q.Linked n es) (hfuel : es.length ≤ fuel) :
    q.chainFrom fuel n = n :: (es.takeWhile Entry.linked).map Entry.node := by
  induction es generalizing n fuel with
  | nil => cases fuel <;> simp [chainFrom, h.1]
  | cons e es ih =>
    cases fuel with
    | zero => simp at hfuel
    | succ fuel =>
      have htail := ih h.2.2 (by simpa using hfuel)
      cases he : e.linked with
      | false => simp [chainFrom, h.1, he]
      | true => simp [chainFrom, h.1, he, htail]

/-- **The chains make up the queue.**  The chain from a node, followed by the chains from
the nodes that are not linked yet, has every node once and in order. -/
theorem Linked.chainFrom_append (h : q.Linked n es) (hfuel : es.length ≤ fuel) :
    q.chainFrom fuel n ++ (unlinked n es).flatMap (fun l => q.chainFrom fuel l.2) = nodes n es := by
  induction es generalizing n with
  | nil => simp [h.chainFrom_eq hfuel, unlinked, nodes]
  | cons e es ih =>
    have hle : es.length ≤ fuel := Nat.le_of_succ_le hfuel
    have htail := ih h.2.2 hle
    have hnodes : nodes n (e :: es) = n :: nodes e.node es := rfl
    rw [hnodes, ← htail, h.chainFrom_eq hfuel]
    cases he : e.linked with
    | false => simp [unlinked, he]
    | true => simp [unlinked, he, h.2.2.chainFrom_eq hle]

theorem Represents.chain_append (h : q.Represents es) :
    q.chain q.tail ++ (unlinked q.tail es).flatMap (fun l => q.chain l.2) = nodes q.tail es :=
  h.linked.chainFrom_append h.length_le

theorem Linked.next_mem (h : q.Linked n es) (hm : m ∈ nodes n es) {k : ℕ}
    (hnext : q.next m = some k) : k ∈ nodes n es := by
  induction es generalizing n with
  | nil =>
    rw [nodes, List.map_nil, List.mem_singleton] at hm
    simp [hm, h.1] at hnext
  | cons e es ih =>
    rcases List.mem_cons.mp hm with rfl | hm
    · have hk : k = e.node := by
        cases he : e.linked <;> simp [h.1, he] at hnext
        exact hnext.symm
      simp [nodes, hk]
    · exact List.mem_cons_of_mem _ (ih h.2.2 hm)

/-- Without missing links, the loads of `pop` and `front` come to an end: what leads on
through every load holds of every point that leads to the end. -/
theorem Represents.peek_induction (h : q.Represents es) (hunlinked : unlinked q.tail es = [])
    (junk : Option ℕ) {P : Cursor → Prop}
    (hmore : ∀ c c', q.At es c → q.peek junk c = .more c' → P c' → P c)
    (hend : ∀ c, q.At es c → (∀ c', q.peek junk c ≠ .more c') → P c) :
    ∀ c, q.At es c → P c := by
  have hspin : ∀ t, q.At es (.spin t) → P (.spin t) := by
    intro t hat
    refine hend _ hat ?_
    intro c' hpeek
    rcases h.loadNext_cases junk with ⟨-, hnone⟩ | ⟨n, v, hload, -, -⟩
    · -- the first entry is there and linked
      cases es with
      | nil => exact hat.2 rfl
      | cons e es =>
        have hpending : ∀ prev m, ¬ Pending q.tail (e :: es) prev m := by
          intro prev m hp
          simpa [hunlinked] using mem_unlinked_iff.mpr hp
        have hlinked := linked_of_not_pending hpending e List.mem_cons_self
        cases e
        cases hlinked
        exact hnone _ _ ⟨es, rfl⟩
    · simp [peek, hat.1, hload] at hpeek
  have hhead : ∀ t, q.At es (.loadHead t) → P (.loadHead t) := by
    intro t hat
    rcases h.peek_spec hat junk with ⟨c', hpeek, hat'⟩ | ⟨hpeek, -⟩ | ⟨n, v, hpeek, -⟩
    · refine hmore _ _ hat hpeek ?_
      simp only [peek] at hpeek
      split at hpeek <;> cases hpeek
      exact hspin t hat'
    · exact hend _ hat (by simp [hpeek])
    · exact hend _ hat (by simp [hpeek])
  have hnext : ∀ t, q.At es (.loadNext t) → P (.loadNext t) := by
    intro t hat
    rcases h.peek_spec hat junk with ⟨c', hpeek, hat'⟩ | ⟨hpeek, -⟩ | ⟨n, v, hpeek, -⟩
    · refine hmore _ _ hat hpeek ?_
      simp only [peek] at hpeek
      split at hpeek <;> cases hpeek
      exact hhead t hat'
    · exact hend _ hat (by simp [hpeek])
    · exact hend _ hat (by simp [hpeek])
  intro c hat
  cases c with
  | loadTail => exact hmore _ _ hat rfl (hnext q.tail rfl)
  | loadNext t => exact hnext t hat
  | loadHead t => exact hhead t hat
  | spin t => exact hspin t hat

theorem Linked.map_data (h : q.Linked n es) :
    (es.map Entry.node).map q.data = (es.map Entry.value).map some := by
  induction es generalizing n with
  | nil => rfl
  | cons e es ih => simpa [h.2.1] using ih h.2.2

end Chains

/-! ## What the threads know -/

/-- The link a call of `push` is about to make. -/
def Push.linking : Push α → Option (ℕ × ℕ)
  | .link prev node => some (prev, node)
  | _ => none

/-- The node a call of `push` has not exchanged yet. -/
def Push.own : Push α → Option ℕ
  | .exchange _ node => some node
  | _ => none

/-- The nodes a call of `push` has in its local variables. -/
def Push.locals : Push α → List ℕ
  | .exchange _ node => [node]
  | .link prev node => [prev, node]
  | _ => []

/-- The nodes the consumer has in its local variables. -/
def Consumer.locals : Consumer α → List ℕ
  | .front c | .pop c => c.locals
  | .advance tail_ next_ => [tail_, next_]
  | .empty tail_ => tail_.toList
  | _ => []

def Consumer.Knows (q : MpscQueue α) (es : List (Entry α)) : Consumer α → Prop
  | .front c | .pop c => q.At es c
  | .advance tail_ next_ => tail_ = q.tail ∧ ∃ v, First es next_ v
  | .empty (some tail_) => tail_ = q.tail
  | _ => True

theorem Consumer.Knows.mono {q q' : MpscQueue α} {es es' : List (Entry α)} {c : Consumer α}
    (h : c.Knows q es) (htail : q'.tail = q.tail) (hne : es ≠ [] → es' ≠ [])
    (hfirst : ∀ n v, First es n v → First es' n v) : c.Knows q' es' := by
  cases c with
  | front | pop => exact At.mono h htail hne
  | advance t n =>
    refine ⟨h.1.trans htail.symm, ?_⟩
    exact h.2.imp fun v => hfirst n v
  | empty t =>
    cases t with
    | none => trivial
    | some t => exact Eq.trans h htail.symm
  | idle | returned => trivial

/-- A node is in the queue, or is still to be exchanged by the push that allocated it. -/
def Known (q : MpscQueue α) (es : List (Entry α)) (n : ℕ) : Prop :=
  n ∈ nodes q.tail es ∨ ∃ v, q.Private es n v

section Known

variable {q : MpscQueue α} {es : List (Entry α)} {n : ℕ}

theorem Known.not_freed (h : Known q es n) (hrep : q.Represents es) : q.freed n = false := by
  rcases h with hn | ⟨v, hv⟩
  · exact (hrep.live n hn).2
  · exact hv.live.2

theorem known_tail : Known q es q.tail := .inl List.mem_cons_self

theorem known_of_at {c : Cursor} (h : q.At es c) (hn : n ∈ c.locals) : Known q es n := by
  cases c with
  | loadTail => simp [Cursor.locals] at hn
  | loadNext | loadHead =>
    cases List.mem_singleton.mp hn
    exact h ▸ known_tail
  | spin t =>
    cases List.mem_singleton.mp hn
    exact h.1 ▸ known_tail

theorem known_of_knows {c : Consumer α} (h : c.Knows q es) (hn : n ∈ c.locals) :
    Known q es n := by
  cases c with
  | front | pop => exact known_of_at h hn
  | advance t next_ =>
    obtain ⟨rfl, v, rest, rfl⟩ := h
    simp [Consumer.locals] at hn
    rcases hn with rfl | rfl
    · exact known_tail
    · exact .inl (by simp [nodes])
  | empty t =>
    cases t with
    | none => simp [Consumer.locals] at hn
    | some t =>
      cases List.mem_singleton.mp hn
      exact h ▸ known_tail
  | idle | returned => simp [Consumer.locals] at hn

end Known

/-- **The invariant of the queue.**  It holds the entries `es`, which are the values
exchanged and not popped; the links not made are those of the pushes in progress. -/
structure Consistent (l : Logged α) (calls : List (Push α)) (c : Consumer α) (es : List (Entry α)) :
    Prop where
  represents : l.queue.Represents es
  exchanged : l.exchanged = l.popped ++ es.map Entry.value
  linking : (calls.filterMap Push.linking).Perm (unlinked l.queue.tail es)
  owned : ∀ v n, Push.exchange v n ∈ calls → l.queue.Private es n v
  distinct : (calls.filterMap Push.own).Nodup
  knows : c.Knows l.queue es

namespace Consistent

variable {l l' : Logged α} {calls calls' others : List (Push α)} {c c' : Consumer α}
  {es : List (Entry α)}

theorem new : Consistent (α := α) ⟨.new, [], []⟩ [] .idle [] := by
  constructor
  · exact represents_new
  · rfl
  · exact .refl _
  · simp
  · exact List.nodup_nil
  · trivial

theorem perm (h : Consistent l calls c es) (hperm : calls.Perm calls') :
    Consistent l calls' c es := by
  constructor
  · exact h.represents
  · exact h.exchanged
  · exact (hperm.filterMap _).symm.trans h.linking
  · intro v n hmem
    exact h.owned v n (hperm.mem_iff.mpr hmem)
  · exact (hperm.filterMap _).nodup_iff.mp h.distinct
  · exact h.knows

/-- A call of `push` begins. -/
theorem spawn (h : Consistent l calls c es) (value : α) :
    Consistent l (calls ++ [.alloc value]) c es := by
  constructor
  · exact h.represents
  · exact h.exchanged
  · simpa [List.filterMap_cons, Push.linking] using h.linking
  · intro v n hmem
    exact h.owned v n (by simpa using hmem)
  · simpa [List.filterMap_cons, Push.own] using h.distinct
  · exact h.knows

theorem alloc {value : α} (h : Consistent l (.alloc value :: others) c es) :
    Consistent { l with queue := l.queue.alloc value } (.exchange value l.queue.fresh :: others) c
      es := by
  have howned : ∀ v n, Push.exchange v n ∈ others → l.queue.Private es n v := by
    intro v n hmem
    exact h.owned v n (List.mem_cons_of_mem _ hmem)
  constructor
  · exact h.represents.alloc value
  · exact h.exchanged
  · exact h.linking
  · intro v n hmem
    rcases List.mem_cons.mp hmem with heq | hmem
    · cases heq
      exact h.represents.private_alloc value
    · exact (howned v n hmem).alloc value
  · -- the other nodes were allocated before
    have hne : l.queue.fresh ∉ others.filterMap Push.own := by
      intro hmem
      obtain ⟨p, hp, hown⟩ := List.mem_filterMap.mp hmem
      cases p <;> cases hown
      exact Nat.lt_irrefl _ (howned _ _ hp).live.1
    have hdistinct := h.distinct
    simp only [Push.own, List.filterMap_cons] at hdistinct ⊢
    exact List.nodup_cons.mpr ⟨hne, hdistinct⟩
  · exact h.knows.mono rfl id fun _ _ => id

theorem exchange {value : α} {node : ℕ} (h : Consistent l (.exchange value node :: others) c es) :
    Consistent { l with queue := l.queue.exchange node, exchanged := l.exchanged ++ [value] }
      (.link l.queue.head node :: others) c (es ++ [⟨node, value, false⟩]) := by
  have hprivate := h.owned value node List.mem_cons_self
  have hdistinct : node ∉ others.filterMap Push.own ∧ (others.filterMap Push.own).Nodup :=
    List.nodup_cons.mp h.distinct
  constructor
  · exact h.represents.exchange hprivate
  · simp [h.exchanged]
  · have hlinking : (others.filterMap Push.linking).Perm (unlinked l.queue.tail es) := h.linking
    have hadd := (hlinking.cons (l.queue.head, node)).trans (List.perm_append_singleton _ _).symm
    rw [← h.represents.linked.unlinked_exchange] at hadd
    exact hadd
  · intro v n hmem
    have hmem : Push.exchange v n ∈ others := by simpa using hmem
    refine (h.owned v n (List.mem_cons_of_mem _ hmem)).exchange ?_ value
    intro heq
    exact hdistinct.1 (List.mem_filterMap.mpr ⟨_, hmem, congrArg some heq⟩)
  · exact hdistinct.2
  · exact h.knows.mono rfl (fun _ => by simp) fun _ _ hfirst => hfirst.append _

theorem link {prev node : ℕ} (h : Consistent l (.link prev node :: others) c es) :
    Consistent { l with queue := l.queue.link prev node } (.done :: others) c (mark node es) := by
  have hlinking : ((prev, node) :: others.filterMap Push.linking).Perm
      (unlinked l.queue.tail es) := h.linking
  have hpending : Pending l.queue.tail es prev node :=
    mem_unlinked_iff.mp (hlinking.mem_iff.mp List.mem_cons_self)
  constructor
  · exact h.represents.link hpending
  · simpa [map_value_mark] using h.exchanged
  · -- no other push is about to link this node
    have hnodup := (unlinked_snd_sublist l.queue.tail es).nodup (List.nodup_cons.mp h.represents.nodup).2
    rw [← (hlinking.map Prod.snd).nodup_iff, List.map_cons, List.nodup_cons] at hnodup
    have hkeep : (others.filterMap Push.linking).filter (fun k => k.2 ≠ node) =
        others.filterMap Push.linking := by
      rw [List.filter_eq_self]
      intro k hk
      have hne : k.2 ≠ node := fun heq => hnodup.1 (List.mem_map.mpr ⟨k, hk, heq⟩)
      simpa using hne
    have hfilter := hlinking.filter fun k => k.2 ≠ node
    rw [List.filter_cons_of_neg (by simp), hkeep, ← unlinked_mark] at hfilter
    exact hfilter
  · intro v n hmem
    have hmem : Push.exchange v n ∈ others := by simpa using hmem
    exact (h.owned v n (List.mem_cons_of_mem _ hmem)).link hpending.mem_nodes.1
  · exact h.distinct
  · refine h.knows.mono rfl ?_ fun _ _ hfirst => hfirst.mark node
    intro hne
    simpa [mark] using hne

theorem produce {p p' : Push α} (h : Consistent l (p :: others) c es)
    (hexec : p.exec l () = some (l', p')) : ∃ es', Consistent l' (p' :: others) c es' := by
  cases p with
  | alloc value =>
    cases hexec
    exact ⟨es, h.alloc⟩
  | exchange value node =>
    cases hexec
    exact ⟨_, h.exchange⟩
  | link prev node =>
    cases hexec
    exact ⟨_, h.link⟩
  | done => cases hexec

theorem move (h : Consistent l calls c es) (hknows : c'.Knows l.queue es) :
    Consistent l calls c' es :=
  { h with knows := hknows }

/-- The store to `tail` removes the oldest value. -/
theorem advance {tail_ next_ : ℕ} (h : Consistent l calls (.advance tail_ next_) es) :
    ∃ v es', l.queue.data next_ = some v ∧
      Consistent { l with queue := l.queue.advance tail_ next_, popped := l.popped ++ [v] } calls
        (.returned (.pop true)) es' := by
  obtain ⟨rfl, v, rest, rfl⟩ := h.knows
  refine ⟨v, rest, h.represents.linked.2.1, ?_⟩
  constructor
  · exact h.represents.advance
  · simp [h.exchanged]
  · exact h.linking
  · intro w n hmem
    exact (h.owned w n hmem).advance
  · exact h.distinct
  · trivial

theorem front {cursor : Cursor} {junk : Option ℕ} (h : Consistent l calls (.front cursor) es)
    (hexec : Consumer.exec l junk (.front cursor) = some (l', c')) :
    Consistent l' calls c' es ∧ Outcome l l' c' := by
  have holdest : l.exchanged[l.popped.length]? = (es.map Entry.value)[0]? := by
    rw [h.exchanged, List.getElem?_append_right (Nat.le_refl _), Nat.sub_self]
  rcases h.represents.peek_spec h.knows junk with ⟨cursor', hpeek, hat⟩ | ⟨hpeek, rfl⟩ |
    ⟨n, v, hpeek, hfirst, hdata⟩
  · simp only [Consumer.exec, hpeek] at hexec
    cases hexec
    exact ⟨h.move hat, .busy _ rfl⟩
  · simp only [Consumer.exec, hpeek] at hexec
    cases hexec
    have hfront := Outcome.front (l := l)
    rw [holdest] at hfront
    exact ⟨h.move trivial, hfront⟩
  · simp only [Consumer.exec, hpeek, hdata] at hexec
    cases hexec
    obtain ⟨rest, rfl⟩ := hfirst
    have hfront := Outcome.front (l := l)
    rw [holdest] at hfront
    exact ⟨h.move trivial, hfront⟩

theorem pop {cursor : Cursor} {junk : Option ℕ} (h : Consistent l calls (.pop cursor) es)
    (hexec : Consumer.exec l junk (.pop cursor) = some (l', c')) :
    Consistent l' calls c' es ∧ Outcome l l' c' := by
  rcases h.represents.peek_spec h.knows junk with ⟨cursor', hpeek, hat⟩ | ⟨hpeek, rfl⟩ |
    ⟨n, v, hpeek, hfirst, hdata⟩
  · simp only [Consumer.exec, hpeek] at hexec
    cases hexec
    exact ⟨h.move hat, .busy _ rfl⟩
  · simp only [Consumer.exec, hpeek] at hexec
    cases hexec
    exact ⟨h.move trivial, .none (by simpa using h.exchanged)⟩
  · simp only [Consumer.exec, hpeek] at hexec
    cases hexec
    exact ⟨h.move ⟨rfl, v, hfirst⟩, .busy _ rfl⟩

theorem consume {junk : Option ℕ} (h : Consistent l calls c es)
    (hexec : c.exec l junk = some (l', c')) :
    ∃ es', Consistent l' calls c' es' ∧ Outcome l l' c' := by
  cases c with
  | front cursor => exact ⟨es, h.front hexec⟩
  | pop cursor => exact ⟨es, h.pop hexec⟩
  | advance t n =>
    obtain ⟨v, es', hdata, hnext⟩ := h.advance
    simp only [Consumer.exec, hdata] at hexec
    cases hexec
    exact ⟨es', hnext, .popped _ v⟩
  | empty t =>
    cases t with
    | none =>
      cases hexec
      exact ⟨es, h.move rfl, .busy _ rfl⟩
    | some t =>
      cases hexec
      refine ⟨es, h.move trivial, .empty _ ?_⟩
      intro hload heq
      have hnil : es = [] := by simpa [heq] using h.exchanged
      rcases h.represents.loadNext_cases junk with ⟨hnone, -⟩ | ⟨n, v, -, hfirst, -⟩
      · simp [h.knows.symm ▸ hnone] at hload
      · exact hfirst.ne_nil hnil
  | idle | returned => cases hexec

end Consistent

/-! ## Runs -/

namespace Threads

/-- The invariant, for some entries. -/
def Sound (s : Threads α) : Prop := ∃ es, Consistent s.logged s.producers.calls s.consumer es

variable {s s' : Threads α}

theorem call_eq_some {c : Consumer α} (h : s.call c = some s') : s' = { s with consumer := c } := by
  unfold call at h
  split at h <;> cases h <;> rfl

theorem Sound.consume {junk : Option ℕ} (h : s.Sound) (hstep : s.step (.consume junk) = some s') :
    s'.Sound ∧ Outcome s.logged s'.logged s'.consumer := by
  obtain ⟨es, h⟩ := h
  obtain ⟨r, hexec, rfl⟩ := Option.map_eq_some_iff.mp hstep
  obtain ⟨es', h', hout⟩ := h.consume hexec
  exact ⟨⟨es', h'⟩, hout⟩

/-- **Every step keeps the invariant, and continues the history.** -/
theorem Sound.step {a : Action α} (h : s.Sound) (hstep : s.step a = some s') :
    s'.Sound ∧ s.logged.Grows s'.logged := by
  cases a with
  | consume junk => exact (h.consume hstep).imp_right Outcome.grows
  | push value =>
    obtain ⟨es, h⟩ := h
    cases hstep
    exact ⟨⟨es, h.spawn value⟩, Logged.Grows.refl _⟩
  | produce i =>
    obtain ⟨es, h⟩ := h
    obtain ⟨p', hrun, rfl⟩ := Option.map_eq_some_iff.mp hstep
    obtain ⟨pc, pc', -, hperm, hperm', hexec⟩ := Config.run_spec hrun
    obtain ⟨es', h'⟩ := (h.perm hperm).produce hexec
    exact ⟨⟨es', h'.perm hperm'.symm⟩, Push.exec_grows hexec⟩
  | callFront | callPop | callEmpty =>
    obtain ⟨es, h⟩ := h
    cases call_eq_some hstep
    exact ⟨⟨es, h.move trivial⟩, Logged.Grows.refl _⟩

abbrev Runs (s s' : Threads α) : Prop := Reaches Threads.step (fun _ _ => True) s s'

theorem Sound.runs (hs : s.Sound) (h : Runs s s') : s'.Sound ∧ s.logged.Grows s'.logged := by
  apply h.invariant
  · exact ⟨hs, Logged.Grows.refl _⟩
  · intro t a t' _ ht _ hstep
    have ht' := ht.1.step hstep
    exact ⟨ht'.1, ht.2.trans ht'.2⟩

theorem sound_new : (new : Threads α).Sound := ⟨[], .new⟩

/-! ## A call of the consumer returns -/

/-- The steps of the consumer alone lead to its return. -/
def Returns (s : Threads α) : Prop :=
  ∃ n s' r, Transition.run Threads.step s (List.replicate n (.consume none)) = some s' ∧
    s'.consumer = .returned r

theorem Returns.of_exec {l : Logged α} {calls : List (Push α)} {c c' : Consumer α} {l' : Logged α}
    (hexec : c.exec l none = some (l', c')) (h : Returns ⟨⟨l', calls⟩, c'⟩) :
    Returns ⟨⟨l, calls⟩, c⟩ := by
  obtain ⟨n, s', r, hrun, hr⟩ := h
  have hstep : step ⟨⟨l, calls⟩, c⟩ (.consume none) = some ⟨⟨l', calls⟩, c'⟩ := by
    simp [step, hexec]
  exact ⟨n + 1, s', r, (run_cons hstep).trans hrun, hr⟩

theorem returns_returned {p : Config (Logged α) (Push α)} {r : Response α} :
    Returns ⟨p, .returned r⟩ := ⟨0, _, r, rfl, rfl⟩

section Return

variable {l : Logged α} {calls : List (Push α)} {es : List (Entry α)}

theorem returns_advance {tail_ next_ : ℕ} : Returns ⟨⟨l, calls⟩, .advance tail_ next_⟩ :=
  Returns.of_exec rfl returns_returned

theorem returns_front {c : Cursor} (h : Consistent l calls (.front c) es)
    (hunlinked : unlinked l.queue.tail es = []) : Returns ⟨⟨l, calls⟩, .front c⟩ := by
  refine h.represents.peek_induction hunlinked none (P := fun c => Returns ⟨⟨l, calls⟩, .front c⟩)
    ?_ ?_ c h.knows
  · intro c c' _ hpeek hrest
    exact hrest.of_exec (by simp only [Consumer.exec, hpeek])
  · intro c hat hend
    rcases h.represents.peek_spec hat none with ⟨c', hpeek, -⟩ | ⟨hpeek, -⟩ | ⟨n, v, hpeek, -, hdata⟩
    · exact absurd hpeek (hend c')
    · exact returns_returned.of_exec (by simp only [Consumer.exec, hpeek]; rfl)
    · exact returns_returned.of_exec (by simp only [Consumer.exec, hpeek, hdata]; rfl)

theorem returns_pop {c : Cursor} (h : Consistent l calls (.pop c) es)
    (hunlinked : unlinked l.queue.tail es = []) : Returns ⟨⟨l, calls⟩, .pop c⟩ := by
  refine h.represents.peek_induction hunlinked none (P := fun c => Returns ⟨⟨l, calls⟩, .pop c⟩)
    ?_ ?_ c h.knows
  · intro c c' _ hpeek hrest
    exact hrest.of_exec (by simp only [Consumer.exec, hpeek])
  · intro c hat hend
    rcases h.represents.peek_spec hat none with ⟨c', hpeek, -⟩ | ⟨hpeek, -⟩ | ⟨n, v, hpeek, -, hdata⟩
    · exact absurd hpeek (hend c')
    · exact returns_returned.of_exec (by simp only [Consumer.exec, hpeek]; rfl)
    · exact returns_advance.of_exec (by simp only [Consumer.exec, hpeek]; rfl)

/-- **A call of the consumer returns** as soon as no push is between its exchange and its
link. -/
theorem returns_of_consistent {c : Consumer α} (h : Consistent l calls c es) (hbusy : c.busy = true)
    (hlinking : calls.filterMap Push.linking = []) : Returns ⟨⟨l, calls⟩, c⟩ := by
  have hunlinked : unlinked l.queue.tail es = [] := by
    simpa [hlinking] using h.linking
  cases c with
  | front c => exact returns_front h hunlinked
  | pop c => exact returns_pop h hunlinked
  | advance t n => exact returns_advance
  | empty t =>
    have hload : ∀ t, Returns ⟨⟨l, calls⟩, .empty (some t)⟩ := fun t =>
      Returns.of_exec rfl returns_returned
    cases t with
    | none => exact (hload l.queue.tail).of_exec rfl
    | some t => exact hload t
  | idle | returned => cases hbusy

end Return

/-! ## What the threads can get to -/

/-- A node that some thread can still get to: from the ends of the queue or from a local
variable, through `next`. -/
inductive Holds (s : Threads α) : ℕ → Prop
  | head : Holds s s.logged.queue.head
  | tail : Holds s s.logged.queue.tail
  | producer (p : Push α) (n : ℕ) (hp : p ∈ s.producers.calls) (hn : n ∈ p.locals) : Holds s n
  | consumer (n : ℕ) (hn : n ∈ s.consumer.locals) : Holds s n
  | next (n m : ℕ) (hn : Holds s n) (hm : s.logged.queue.next n = some m) : Holds s m

theorem Holds.known {s : Threads α} {n : ℕ} {es : List (Entry α)} (h : Holds s n)
    (hs : Consistent s.logged s.producers.calls s.consumer es) : Known s.logged.queue es n := by
  induction h with
  | head => exact .inl hs.represents.linked.head_mem
  | tail => exact known_tail
  | producer p n hp hn =>
    cases p with
    | exchange v node =>
      cases List.mem_singleton.mp hn
      exact .inr ⟨v, hs.owned v n hp⟩
    | link prev node =>
      have hmem := hs.linking.mem_iff.mp (List.mem_filterMap.mpr ⟨_, hp, rfl⟩)
      have hpending := (mem_unlinked_iff.mp hmem).mem_nodes
      simp [Push.locals] at hn
      rcases hn with rfl | rfl
      · exact .inl hpending.1
      · exact .inl (List.mem_cons_of_mem _ hpending.2)
    | alloc | done => simp [Push.locals] at hn
  | consumer n hn => exact known_of_knows hs.knows hn
  | next n m _ hm ih =>
    rcases ih with hn | ⟨v, hv⟩
    · exact .inl (hs.represents.linked.next_mem hn hm)
    · rw [hv.next_eq] at hm
      cases hm

/-! ## The queue is a queue -/

/-- The nodes after the stub, and those of the chains that are not linked yet. -/
def held (s : Threads α) : List ℕ :=
  (s.logged.queue.chain s.logged.queue.tail).tail ++
    (s.producers.calls.filterMap Push.linking).flatMap fun l => s.logged.queue.chain l.2

/-- **A first-in first-out queue.** -/
structure Fifo (s : Threads α) : Prop where
  /-- The chains hold every value exchanged and not popped, once. -/
  nodup : s.held.Nodup
  values : (s.held.map s.logged.queue.data).Perm
    ((s.logged.exchanged.drop s.logged.popped.length).map some)
  /-- Values are popped in the order of the exchanges, one by each `pop` that succeeds. -/
  ordered : s.logged.popped <+: s.logged.exchanged
  removes : ∀ junk s', s.step (.consume junk) = some s' → s'.consumer = .returned (.pop true) →
    ∃ v, s'.logged.popped = s.logged.popped ++ [v]
  /-- `pop` fails only if everything exchanged has been popped. -/
  pop_false : ∀ junk s', s.step (.consume junk) = some s' →
    s'.consumer = .returned (.pop false) → s.logged.exchanged = s.logged.popped
  /-- `empty` answers no only if there is something to pop. -/
  empty_false : ∀ junk s', s.step (.consume junk) = some s' →
    s'.consumer = .returned (.empty false) → s.logged.exchanged ≠ s.logged.popped
  /-- `front` returns the oldest value not popped, which is what the next `pop` that
  succeeds removes. -/
  front_eq : ∀ junk s' r, s.step (.consume junk) = some s' → s'.consumer = .returned (.front r) →
    r = s.logged.exchanged[s.logged.popped.length]?
  front_next : ∀ junk s' v, s.step (.consume junk) = some s' →
    s'.consumer = .returned (.front (some v)) → ∀ t, Runs s' t →
    s.logged.popped.length < t.logged.popped.length →
    t.logged.popped[s.logged.popped.length]? = some v
  /-- A call of the consumer returns by itself if no link is missing. -/
  returns : s.consumer.busy = true → s.producers.calls.filterMap Push.linking = [] → s.Returns
  /-- No node that a thread can get to is deleted. -/
  live : ∀ n, s.Holds n → s.logged.queue.freed n = false

theorem held_perm {es : List (Entry α)}
    (h : Consistent s.logged s.producers.calls s.consumer es) :
    s.held.Perm (es.map Entry.node) := by
  have hchain : s.logged.queue.chain s.logged.queue.tail ≠ [] := by
    rw [chain, h.represents.linked.chainFrom_eq h.represents.length_le]
    exact List.cons_ne_nil _ _
  have hrest : (s.logged.queue.chain s.logged.queue.tail).tail ++
      (unlinked s.logged.queue.tail es).flatMap (fun l => s.logged.queue.chain l.2) =
        es.map Entry.node := by
    rw [← List.tail_append_of_ne_nil hchain, h.represents.chain_append, nodes, List.tail_cons]
  rw [← hrest, held]
  exact (h.linking.flatMap_right _).append_left _

theorem popped_of_oldest {t : Threads α} {v : α} (hgrow : s.logged.Grows t.logged) (ht : t.Sound)
    (hv : s.logged.exchanged[s.logged.popped.length]? = some v)
    (hlen : s.logged.popped.length < t.logged.popped.length) :
    t.logged.popped[s.logged.popped.length]? = some v := by
  obtain ⟨es, ht⟩ := ht
  obtain ⟨more, hmore⟩ := hgrow.1
  have hlt : s.logged.popped.length < s.logged.exchanged.length :=
    (List.getElem?_eq_some_iff.mp hv).1
  calc t.logged.popped[s.logged.popped.length]?
      = t.logged.exchanged[s.logged.popped.length]? := by
        rw [ht.exchanged, List.getElem?_append_left hlen]
    _ = s.logged.exchanged[s.logged.popped.length]? := by
        rw [← hmore, List.getElem?_append_left hlt]
    _ = some v := hv

/-- **`MpscQueue` is a first-in first-out queue** for any number of producers and one
consumer, in every interleaving of their steps. -/
theorem fifo_of_runs (s : Threads α) (h : Runs new s) : s.Fifo := by
  have hsound := (sound_new.runs h).1
  have hfront : ∀ junk s' r, s.step (.consume junk) = some s' →
      s'.consumer = .returned (.front r) → r = s.logged.exchanged[s.logged.popped.length]? := by
    intro junk s' r hstep hr
    exact (hr ▸ (hsound.consume hstep).2).front_eq
  obtain ⟨es, hs⟩ := hsound
  constructor
  · exact (held_perm hs).nodup_iff.mpr (List.nodup_cons.mp hs.represents.nodup).2
  · refine ((held_perm hs).map _).trans (.of_eq ?_)
    rw [hs.represents.linked.map_data, hs.exchanged, List.drop_left]
  · exact ⟨_, hs.exchanged.symm⟩
  · intro junk s' hstep hr
    exact (hr ▸ (Sound.consume ⟨es, hs⟩ hstep).2).removes
  · intro junk s' hstep hr
    exact (hr ▸ (Sound.consume ⟨es, hs⟩ hstep).2).exchanged_eq
  · intro junk s' hstep hr
    exact (hr ▸ (Sound.consume ⟨es, hs⟩ hstep).2).exchanged_ne
  · exact hfront
  · intro junk s' v hstep hr t hrun hlen
    have hs' := Sound.step ⟨es, hs⟩ hstep
    have ht := hs'.1.runs hrun
    exact popped_of_oldest (hs'.2.trans ht.2) ht.1 (hfront junk s' _ hstep hr).symm hlen
  · exact returns_of_consistent hs
  · intro n hn
    exact (hn.known hs).not_freed hs.represents

/-- Two values are pushed, and the second is linked first: `pop` waits for the other
producer, and removes the first value. -/
theorem fifo_of_runs_waiting :
    ∃ s : Threads ℕ, Runs new s ∧ s.logged.exchanged = [1, 2] ∧ s.logged.popped = [1] ∧ s.Fifo := by
  let actions : List (Action ℕ) :=
    [.push 1, .push 2, .produce 0, .produce 0, .produce 1, .produce 1, .produce 1, .callPop] ++
      List.replicate 4 (.consume none) ++ [.produce 0, .consume none, .consume none]
  obtain ⟨s, hrun, hexchanged, hpopped⟩ := exists_run step new actions
    (fun s => s.logged.exchanged = [1, 2] ∧ s.logged.popped = [1]) (by decide +kernel)
  have hruns : Runs new s := reaches_of_run (meets_of_forall fun _ _ _ => trivial) hrun
  exact ⟨s, hruns, hexchanged, hpopped, fifo_of_runs s hruns⟩

end Threads

end MpscQueue

end IocpChat

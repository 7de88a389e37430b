import IocpChat.Lib.Transition
import Mathlib.Algebra.BigOperators.Group.List.Basic
import Mathlib.Algebra.Order.Ring.Nat

/-!
# A thread that waits for work

One thread waits on a condition variable until there is an item in a queue or a flag is set.  Other
threads put an item into the queue, or set the flag, and signal it.  How they use the mutex of the
condition is a parameter, a list of operations, so that the disciplines in use can be compared.

The queue has many producers and one consumer.  A producer first takes its place in the queue and
then links it; what stands behind an unlinked place is not seen.

The wait evaluates its condition, and goes to sleep in a second step, which gives the mutex back.
A signal between the two is missed: the thread falls asleep too late.  Threads that signal after
every change can leave the other asleep in this way only (`taken_perm_iff_not_late`), and threads
that make a change under the mutex cannot (`not_late`).

## Main definitions

* `Op`, `Shape` — what the threads do.
* `State`, `step` — the threads, the queue and the flag.
* `Sound` — the operations of a thread use the mutex rightly and signal every change.
* `State.Late` — the waiting thread fell asleep too late.
* `Stuck`, `State.Rests` — no thread can go on, and this comes about.
-/

namespace Monitor

open Transition

/-- The operations of a thread that puts in an item or sets the flag. -/
inductive Op
  | lock
  | unlock
  | reserve
  /-- Makes the place known to the consumer. -/
  | link
  | set
  | notify
  /-- Waits for the end of the waiting thread. -/
  | join
  deriving DecidableEq

/-- How the waiting thread takes the items. -/
inductive Taking
  /-- One at a time, under the mutex. -/
  | locked
  | one
  /-- All there are, without the mutex. -/
  | all

/-- What is done under the mutex only: the linking of items, the setting of the flag. -/
structure Locking where
  link : Bool
  set : Bool

/-- The operations use the mutex rightly, link the place that was taken, and signal after every
change; the thread has the mutex or not, and has an item or not. -/
def Sound (locks : Locking) (hasItem : Bool) : Bool → List Op → Prop
  | held, [] => held = false
  | held, .lock :: ops => held = false ∧ Sound locks hasItem true ops
  | held, .unlock :: ops => held = true ∧ Sound locks hasItem false ops
  | held, .reserve :: ops =>
    hasItem = true ∧ .link ∈ ops ∧ .reserve ∉ ops ∧ Sound locks hasItem held ops
  | held, .link :: ops =>
    (locks.link = true → held = true) ∧ .notify ∈ ops ∧ Sound locks hasItem held ops
  | held, .set :: ops =>
    (locks.set = true → held = true) ∧ hasItem = false ∧ .notify ∈ ops ∧
      Sound locks hasItem held ops
  | held, .notify :: ops => Sound locks hasItem held ops
  | held, .join :: ops => held = false ∧ ops = []

/-- The code of the threads.  Both kinds of them are sound, and do what they are for. -/
structure Shape where
  post : List Op
  stop : List Op
  taking : Taking
  locks : Locking
  sound_post : Sound locks true false post := by simp [Sound]
  sound_stop : Sound locks false false stop := by simp [Sound]
  reserve_mem : .reserve ∈ post := by simp
  set_mem : .set ∈ stop := by simp

section States

variable {α : Type}

structure Cell (α : Type) where
  producer : ℕ
  item : α
  linked : Bool

/-- The point the waiting thread has come to. -/
inductive Waiter (α : Type)
  /-- Before the wait, and after a signal. -/
  | lock
  /-- The condition reads the flag. -/
  | check
  /-- The condition reads the queue. -/
  | checkEmpty
  /-- The condition was found false. -/
  | sleep
  /-- Whether the condition was true when the thread fell asleep. -/
  | asleep (late : Bool)
  /-- After the wait, the flag is read again. -/
  | readStop
  | exitTest
  | emptyTest
  | take
  | work (item : α)
  | done

/-- A thread that puts in an item or sets the flag, with what it has left to do. -/
structure Client (α : Type) where
  item : Option α
  ops : List Op

/-- Who has the mutex. -/
inductive Owner
  | free
  | waiter
  | client (i : ℕ)
  deriving DecidableEq

/-- What the threads share, and the waiting thread. -/
structure Core (α : Type) where
  owner : Owner
  cells : List (Cell α)
  stop : Bool
  waiter : Waiter α
  taken : List α

structure State (α : Type) where
  core : Core α
  clients : List (Client α)

namespace Core

/-- No item is seen. -/
def empty (s : Core α) : Bool := !s.cells.head?.any Cell.linked

/-- The condition of the wait. -/
def ready (s : Core α) : Bool := s.stop || !s.empty

/-- The wait is over. -/
def enter (s : Core α) : Taking → Core α
  | .locked => { s with waiter := .readStop }
  | .one | .all => { s with owner := .free, waiter := .readStop }

/-- The scope in which items are taken is left. -/
def leave (s : Core α) (next : Waiter α) : Taking → Core α
  | .locked => { s with owner := .free, waiter := next }
  | .one | .all => { s with waiter := next }

/-- A step of the waiting thread.  The step that leaves the scope of the mutex gives it back. -/
def waiterStep (s : Core α) (taking : Taking) : Option (Core α) :=
  match s.waiter with
  | .lock =>
    if s.owner = .free then some { s with owner := .waiter, waiter := .check } else none
  | .check => some (if s.stop then s.enter taking else { s with waiter := .checkEmpty })
  | .checkEmpty => some (if s.empty then { s with waiter := .sleep } else s.enter taking)
  | .sleep => some { s with owner := .free, waiter := .asleep s.ready }
  | .asleep _ | .done => none
  | .readStop => some { s with waiter := if s.stop then .exitTest else .emptyTest }
  | .exitTest => some (if s.empty then s.leave .done taking else { s with waiter := .emptyTest })
  | .emptyTest => some (if s.empty then s.leave .lock taking else { s with waiter := .take })
  | .take =>
    match s.cells with
    | ⟨_, item, true⟩ :: cells => some ({ s with cells }.leave (.work item) taking)
    | _ => none
  | .work item =>
    some { s with
      taken := s.taken ++ [item]
      waiter := match taking with
        | .all => .emptyTest
        | .locked | .one => .lock }

/-- The thread wakes up, if it sleeps. -/
def wake (s : Core α) : Core α :=
  match s.waiter with
  | .asleep _ => { s with waiter := .lock }
  | _ => s

/-- An operation of the thread `i`. -/
def exec (s : Core α) (i : ℕ) (item : Option α) : Op → Option (Core α)
  | .lock => if s.owner = .free then some { s with owner := .client i } else none
  | .unlock => if s.owner = .client i then some { s with owner := .free } else none
  | .reserve => item.map fun x => { s with cells := s.cells ++ [⟨i, x, false⟩] }
  | .link =>
    some { s with
      cells := s.cells.map fun c => if c.producer = i then { c with linked := true } else c }
  | .set => some { s with stop := true }
  | .notify => some s.wake
  | .join =>
    match s.waiter with
    | .done => some s
    | _ => none

end Core

/-- A thread with an item, or one that sets the flag, is started; a thread takes a step; the
waiting thread wakes up for no reason. -/
inductive Action (α : Type)
  | request (item : α)
  | stop
  | client (i : ℕ)
  | waiter
  | spurious

def step (shape : Shape) (s : State α) : Action α → Option (State α)
  | .request item => some ⟨s.core, s.clients ++ [⟨some item, shape.post⟩]⟩
  | .stop => some ⟨s.core, s.clients ++ [⟨none, shape.stop⟩]⟩
  | .client i =>
    match s.clients[i]? with
    | some ⟨item, op :: ops⟩ =>
      (s.core.exec i item op).map fun core => ⟨core, s.clients.set i ⟨item, ops⟩⟩
    | _ => none
  | .waiter => (s.core.waiterStep shape.taking).map fun core => ⟨core, s.clients⟩
  | .spurious => some ⟨s.core.wake, s.clients⟩

/-- No thread has started. -/
def init : State α := ⟨⟨.free, [], false, .lock, []⟩, []⟩

/-- The threads come to the state in some order. -/
def State.Reached (shape : Shape) (s : State α) : Prop :=
  Reaches (step shape) (fun _ _ => True) init s

/-- No thread can go on, unless the waiting one wakes up for no reason. -/
def Stuck (shape : Shape) (s : State α) : Prop :=
  step shape s .waiter = none ∧ ∀ i, step shape s (.client i) = none

/-- The waiting thread fell asleep although its condition was true, and nobody has woken it. -/
def State.Late (s : State α) : Prop := s.core.waiter = .asleep true

/-- The items of all threads that were started. -/
def State.requests (s : State α) : List α := s.clients.filterMap Client.item

/-- A thread was started that sets the flag. -/
def State.Stopped (s : State α) : Prop := ∃ c ∈ s.clients, c.item = none

end States

/-! ## Threads that signal every change -/

section Runs

variable {α : Type} {shape : Shape} {s s' : State α} {core core' : Core α} {taking : Taking}
  {i : ℕ} {item : Option α} {op : Op} {ops : List Op}

/-- The waiting thread has the mutex. -/
def Waiter.holds : Waiter α → Taking → Bool
  | .check, _ | .checkEmpty, _ | .sleep, _ => true
  | .readStop, .locked | .exitTest, .locked | .emptyTest, .locked | .take, .locked => true
  | _, _ => false

/-- What the waiting thread knows at the point it has come to. -/
structure Core.Aims (shape : Shape) (s : Core α) : Prop where
  holds : s.owner = .waiter ↔ s.waiter.holds shape.taking = true
  readStop : s.waiter = .readStop → s.ready = true
  take : s.waiter = .take → s.empty = false
  leave : s.waiter = .exitTest ∨ s.waiter = .done → s.stop = true
  late : s.waiter = .asleep true → s.ready = true
  -- Items that are linked, and a flag that is set, under the mutex are not missed.
  sleepEmpty : shape.locks.link = true → s.waiter = .sleep → s.empty = true
  sleepStop : shape.locks.set = true → s.waiter = .checkEmpty ∨ s.waiter = .sleep → s.stop = false
  lateStop : shape.locks.link = true → s.waiter = .asleep true → s.stop = true
  notLate : shape.locks.link = true → shape.locks.set = true → s.waiter ≠ .asleep true

/-- The item that the thread has still to put in. -/
def Client.unsent (c : Client α) : Option α := if Op.reserve ∈ c.ops then c.item else none

/-- The items that are dealt with, in hand and in the queue. -/
def Core.items (s : Core α) : List α :=
  s.taken ++ (match s.waiter with | .work item => [item] | _ => []) ++ s.cells.map Cell.item

/-- A thread will signal. -/
def State.Pending (s : State α) : Prop := ∃ c ∈ s.clients, Op.notify ∈ c.ops

/-- What holds in every state. -/
structure Orderly (shape : Shape) (s : State α) : Prop where
  sound : ∀ i c, s.clients[i]? = some c →
    Sound shape.locks c.item.isSome (decide (s.core.owner = .client i)) c.ops
  owned : ∀ i, s.core.owner = .client i → i < s.clients.length
  linked : ∀ cell ∈ s.core.cells, cell.linked = false →
    ∃ c, s.clients[cell.producer]? = some c ∧ Op.link ∈ c.ops
  aims : s.core.Aims shape
  pending : s.core.waiter = .asleep false → s.core.ready = true → s.Pending
  items : (s.core.items ++ s.clients.filterMap Client.unsent).Perm s.requests
  stopped : s.core.stop = true → s.Stopped
  sets : ∀ c ∈ s.clients, c.item = none → Op.set ∈ c.ops ∨ s.core.stop = true

/-! ### Operations -/

theorem empty_eq_false_iff : core.empty = false ↔ ∃ c ∈ core.cells.head?, c.linked = true := by
  simp [Core.empty, Option.any_eq_true]

/-- A place that is not linked is not seen. -/
theorem empty_append_cell (x : α) :
    Core.empty { core with cells := core.cells ++ [⟨i, x, false⟩] } = core.empty := by
  cases hcells : core.cells <;> simp [Core.empty, hcells]

/-- What an operation does to the condition and to the waiting thread. -/
theorem exec_spec (h : core.exec i item op = some core') :
    core'.stop = (core.stop || decide (op = .set)) ∧ (core.empty = false → core'.empty = false) ∧
      (op ≠ .link → core'.empty = core.empty) ∧
      core'.waiter = (if op = .notify then core.wake.waiter else core.waiter) := by
  cases op with
  | reserve =>
    obtain ⟨x, -, rfl⟩ := Option.map_eq_some_iff.mp h
    simp [empty_append_cell]
  | link =>
    cases h
    refine ⟨by simp, ?_, by simp, rfl⟩
    simp only [empty_eq_false_iff]
    cases core.cells with
    | nil => simp
    | cons c cells => by_cases hi : c.producer = i <;> simp [hi]
  | _ => grind [Core.exec, Core.empty, Core.wake]

/-- A thread changes the owner only from free to itself and back. -/
theorem exec_owner (h : core.exec i item op = some core') :
    (core'.owner = .waiter ↔ core.owner = .waiter) ∧
      ∀ j, j ≠ i → (core'.owner = .client j ↔ core.owner = .client j) := by
  cases op <;> cases item <;> grind [Core.exec, Core.wake]

theorem sound_exec (h : core.exec i item op = some core')
    (hsound : Sound shape.locks item.isSome (decide (core.owner = .client i)) (op :: ops)) :
    Sound shape.locks item.isSome (decide (core'.owner = .client i)) ops := by
  cases op <;> cases item <;> grind [Core.exec, Core.wake, Sound]

/-- An operation that is done under the mutex only is not done while the waiting thread has it. -/
theorem aims_exec (haims : core.Aims shape)
    (hsound : Sound shape.locks item.isSome (decide (core.owner = .client i)) (op :: ops))
    (h : core.exec i item op = some core') : core'.Aims shape := by
  obtain ⟨hholds, h₁, h₂, h₃, h₄, h₅, h₆, h₇, h₈⟩ := haims
  have hheld : core.owner = .client i → core.waiter.holds shape.taking = false := by
    intro howner
    simpa [howner] using hholds
  have hlink : op = .link → shape.locks.link = true → core.owner = .client i := by
    rintro rfl
    simpa using hsound.1
  have hset : op = .set → shape.locks.set = true → core.owner = .client i := by
    rintro rfl
    simpa using hsound.1
  obtain ⟨hstop, hempty, hsame, hwaiter⟩ := exec_spec h
  have howner := (exec_owner h).1
  have hwake : core.wake.waiter.holds shape.taking = core.waiter.holds shape.taking := by
    cases hw : core.waiter <;> simp [Core.wake, hw, Waiter.holds]
  simp only [Core.ready] at *
  constructor <;> grind [Core.wake, Core.ready, Waiter.holds]

theorem items_exec
    (hsound : Sound shape.locks item.isSome (decide (core.owner = .client i)) (op :: ops))
    (h : core.exec i item op = some core') :
    core'.items ++ (Client.unsent ⟨item, ops⟩).toList =
      core.items ++ (Client.unsent ⟨item, op :: ops⟩).toList := by
  cases op with
  | reserve =>
    obtain ⟨x, rfl, rfl⟩ := Option.map_eq_some_iff.mp h
    simp [Client.unsent, Core.items, hsound.2.2.1]
  | link =>
    cases h
    have hitem : ∀ c : Cell α, (if c.producer = i then { c with linked := true } else c).item =
        c.item := by
      intro c
      split <;> rfl
    simp [Client.unsent, Core.items, Function.comp_def, hitem]
  | _ => grind [Core.exec, Core.wake, Core.items, Client.unsent]

/-- A place that is not linked yet stays one that its thread will link. -/
theorem linked_exec {clients : List (Client α)} (hi : clients[i]? = some ⟨item, op :: ops⟩)
    (hsound : Sound shape.locks item.isSome (decide (core.owner = .client i)) (op :: ops))
    (hlinked : ∀ cell ∈ core.cells, cell.linked = false →
      ∃ c, clients[cell.producer]? = some c ∧ Op.link ∈ c.ops)
    (h : core.exec i item op = some core') :
    ∀ cell ∈ core'.cells, cell.linked = false →
      ∃ c, (clients.set i ⟨item, ops⟩)[cell.producer]? = some c ∧ Op.link ∈ c.ops := by
  have hlt : i < clients.length := (List.getElem?_eq_some_iff.mp hi).1
  cases op with
  | reserve =>
    obtain ⟨x, -, rfl⟩ := Option.map_eq_some_iff.mp h
    grind [Sound]
  | link =>
    cases h
    grind
  | _ => grind [Core.exec, Core.wake]

/-! ### The waiting thread -/

/-- The waiting thread does not take the mutex from another thread. -/
theorem aims_waiterStep (haims : core.Aims shape)
    (h : core.waiterStep shape.taking = some core') :
    core'.Aims shape ∧ ∀ j, core'.owner = .client j ↔ core.owner = .client j := by
  obtain ⟨hholds, h₁, h₂, h₃, h₄, h₅, h₆, h₇, h₈⟩ := haims
  simp only [Core.ready, Core.empty] at *
  refine ⟨?_, ?_⟩
  · constructor <;> generalize shape.taking = taking at * <;> cases taking <;>
      grind [Core.waiterStep, Core.enter, Core.leave, Core.empty, Core.ready, Waiter.holds]
  · generalize shape.taking = taking at *
    cases taking <;> grind [Core.waiterStep, Core.enter, Core.leave, Waiter.holds]

/-- The flag stays, the items stay, and the thread falls asleep with the condition it notes. -/
theorem waiterStep_spec (h : core.waiterStep taking = some core') :
    core'.stop = core.stop ∧ core'.items = core.items ∧
      (core'.cells = core.cells ∨ ∃ cell, core.cells = cell :: core'.cells) ∧
      (core'.waiter = .asleep false → core'.ready = false) := by
  simp only [Core.items, Core.ready, Core.empty]
  cases taking <;> grind [Core.waiterStep, Core.enter, Core.leave, Core.ready, Core.empty]

/-! ### Steps -/

theorem orderly_init : Orderly shape (init : State α) := by
  constructor <;> simp [init, State.requests, Core.items]
  constructor <;> simp [Waiter.holds]

/-- A new thread. -/
theorem Orderly.append (h : Orderly shape s) {c : Client α}
    (hsound : Sound shape.locks c.item.isSome false c.ops)
    (hunsent : c.unsent = c.item) (hset : c.item = none → Op.set ∈ c.ops) :
    Orderly shape ⟨s.core, s.clients ++ [c]⟩ where
  sound j d hd := by
    have hjth := h.sound j d
    have hne := h.owned j
    grind
  owned j howner := by
    have hlt := h.owned j howner
    grind
  linked cell hcell hnot := by
    have hlinked := h.linked cell hcell hnot
    grind
  aims := h.aims
  pending hasleep hready := (h.pending hasleep hready).imp fun d hd => ⟨by simp [hd.1], hd.2⟩
  items := by
    have hitems := h.items
    simp [State.requests, ← List.append_assoc] at hitems ⊢
    exact hitems.append (by simp [List.filterMap, hunsent])
  stopped hstop := (h.stopped hstop).imp fun d hd => ⟨by simp [hd.1], hd.2⟩
  sets d hd hitem := by
    have hsets := h.sets d
    grind

theorem filterMap_cons_toList {β : Type} (f : α → Option β) (a : α) (xs : List α) :
    (a :: xs).filterMap f = (f a).toList ++ xs.filterMap f := by
  cases h : f a <;> simp [h]

/-- An operation of a thread. -/
theorem Orderly.client (h : Orderly shape s) (hi : s.clients[i]? = some ⟨item, op :: ops⟩)
    (hexec : s.core.exec i item op = some core) :
    Orderly shape ⟨core, s.clients.set i ⟨item, ops⟩⟩ := by
  have hlt : i < s.clients.length := (List.getElem?_eq_some_iff.mp hi).1
  have hsound := h.sound i _ hi
  obtain ⟨hperm, hset⟩ := perm_set hi
  obtain ⟨hstop, -, hsame, hwaiter⟩ := exec_spec hexec
  refine ⟨?_, ?_, linked_exec hi hsound h.linked hexec, aims_exec h.aims hsound hexec, ?_, ?_, ?_,
    ?_⟩
  · intro j c hc
    have hjth := h.sound j c
    have hnext := sound_exec hexec hsound
    have howner := (exec_owner hexec).2 j
    grind
  · intro j howner
    have hlt' := h.owned j
    have howner' := (exec_owner hexec).2 j
    grind
  · -- Only a link and the setting of the flag make the condition true, and both are signalled.
    intro hasleep hready
    have hop : op ≠ .notify := by grind [Core.wake]
    have hpending := h.pending (by simpa [hop] using hwaiter.symm.trans hasleep)
    simp only [State.Pending, hperm.mem_iff, (hset _).mem_iff, List.mem_cons, exists_eq_or_imp,
      Core.ready] at hpending hready ⊢
    by_cases hchange : op = .link ∨ op = .set
    · rcases hchange with rfl | rfl
      · exact .inl hsound.2.1
      · exact .inl hsound.2.2.1
    · grind
  · have hbefore := hperm.filterMap Client.unsent
    have hafter := (hset ⟨item, ops⟩).filterMap Client.unsent
    rw [filterMap_cons_toList] at hbefore hafter
    have hrequests : ((s.clients.set i ⟨item, ops⟩).filterMap Client.item).Perm s.requests := by
      refine ((hset _).filterMap _).trans ((hperm.filterMap _).trans ?_).symm
      simp [filterMap_cons_toList]
    refine List.Perm.trans ?_ (h.items.trans hrequests.symm)
    refine (hafter.append_left _).trans (List.Perm.trans ?_ (hbefore.append_left _).symm)
    rw [← List.append_assoc, ← List.append_assoc, items_exec hsound hexec]
  · have hstopped := h.stopped
    have hitem : op = .set → item = none := by
      rintro rfl
      simpa using hsound.2.1
    simp only [State.Stopped, hperm.mem_iff, (hset _).mem_iff, List.mem_cons,
      exists_eq_or_imp] at hstopped ⊢
    grind
  · have hsets := h.sets
    simp only [hperm.mem_iff, (hset _).mem_iff, List.mem_cons, forall_eq_or_imp] at hsets ⊢
    grind

theorem Orderly.waiter (h : Orderly shape s)
    (hexec : s.core.waiterStep shape.taking = some core) : Orderly shape ⟨core, s.clients⟩ := by
  obtain ⟨haims, howner⟩ := aims_waiterStep h.aims hexec
  obtain ⟨hstop, hitems, hcells, hready⟩ := waiterStep_spec hexec
  refine ⟨by simpa only [howner] using h.sound, fun j hj => h.owned j ((howner j).mp hj), ?_, haims,
    ?_, by simpa only [hitems, State.requests] using h.items,
    fun hs => h.stopped (hstop ▸ hs), by simpa only [hstop] using h.sets⟩
  · intro cell hcell
    apply h.linked cell
    rcases hcells with hcells | ⟨c, hcells⟩ <;> simp_all
  · intro hasleep htrue
    simp [hready hasleep] at htrue

theorem Orderly.wake (h : Orderly shape s) : Orderly shape ⟨s.core.wake, s.clients⟩ := by
  obtain ⟨⟨owner, cells, stop, waiter, taken⟩, clients⟩ := s
  cases waiter with
  | asleep late =>
    obtain ⟨hsound, howned, hlinked, haims, -, hitems, hstopped, hsets⟩ := h
    refine ⟨hsound, howned, hlinked, ?_, by simp [Core.wake], hitems, hstopped, hsets⟩
    have hholds := haims.holds
    constructor <;> simp_all [Core.wake, Waiter.holds]
  | _ => exact h

theorem State.Reached.orderly (h : s.Reached shape) : Orderly shape s := by
  refine Reaches.invariant h orderly_init ?_
  intro s a s' _ hinv _ hstep
  cases a with
  | request x =>
    cases hstep
    exact hinv.append shape.sound_post (by simp [Client.unsent, shape.reserve_mem]) (by simp)
  | stop =>
    cases hstep
    exact hinv.append shape.sound_stop (by simp [Client.unsent]) fun _ => shape.set_mem
  | client i =>
    simp only [step] at hstep
    split at hstep
    · next item op ops hi =>
        obtain ⟨core, hexec, rfl⟩ := Option.map_eq_some_iff.mp hstep
        exact hinv.client hi hexec
    · cases hstep
  | waiter =>
    obtain ⟨core, hexec, rfl⟩ := Option.map_eq_some_iff.mp hstep
    exact hinv.waiter hexec
  | spurious =>
    cases hstep
    exact hinv.wake

/-! ## No thread can go on -/

/-- An operation that is not possible waits for the mutex or for the end of the other thread. -/
theorem Orderly.of_stuck (h : Orderly shape s) (hstuck : Stuck shape s)
    (hi : s.clients[i]? = some ⟨item, op :: ops⟩) :
    (op = .lock ∧ s.core.owner ≠ .free ∧ s.core.owner ≠ .client i) ∨
      (op = .join ∧ ops = [] ∧ s.core.owner ≠ .client i ∧ s.core.waiter ≠ .done) := by
  have hnone : s.core.exec i item op = none := by simpa [step, hi] using hstuck.2 i
  have hsound := h.sound i _ hi
  cases op <;> cases item <;> grind [Core.exec, Sound]

/-- The waiting thread waits for the mutex, sleeps, or has come to its end. -/
theorem waiterStep_eq_none (haims : core.Aims shape) (hnone : core.waiterStep taking = none) :
    (∃ late, core.waiter = .asleep late) ∨ core.waiter = .done ∨
      core.waiter.holds taking = false ∧ core.owner ≠ .free := by
  have htake := haims.take
  rw [empty_eq_false_iff] at htake
  cases hw : core.waiter with
  | take =>
    obtain ⟨⟨producer, item, linked⟩, hhead, hlinked⟩ := htake hw
    obtain ⟨cells, hcells⟩ := List.head?_eq_some_iff.mp hhead
    simp only at hlinked
    simp [Core.waiterStep, hw, hcells, hlinked] at hnone
  | lock => simpa [Core.waiterStep, hw, Waiter.holds] using hnone
  | asleep | done => simp
  | _ => simp [Core.waiterStep, hw] at hnone

/-- No thread has the mutex. -/
theorem Orderly.owner_ne_client (h : Orderly shape s) (hstuck : Stuck shape s) :
    s.core.owner ≠ .client i := by
  intro howner
  obtain ⟨⟨item, ops⟩, hi⟩ : ∃ c, s.clients[i]? = some c :=
    ⟨_, List.getElem?_eq_getElem (h.owned i howner)⟩
  have hsound := h.sound i _ hi
  cases ops with
  | nil => simp [Sound, howner] at hsound
  | cons op ops => simpa [howner] using h.of_stuck hstuck hi

/-- The waiting thread sleeps or has come to its end, and so have the others, but for the one that
waits for it. -/
theorem Orderly.stuck_spec (h : Orderly shape s) (hstuck : Stuck shape s) :
    ((∃ late, s.core.waiter = .asleep late) ∨ s.core.waiter = .done) ∧
      ∀ c ∈ s.clients, c.ops = [] ∨ (c.ops = [.join] ∧ s.core.waiter ≠ .done) := by
  have hnone : s.core.waiterStep shape.taking = none := by simpa [step] using hstuck.1
  have hwaiter := waiterStep_eq_none h.aims hnone
  have hholds := h.aims.holds
  have hfree : s.core.owner = .free := by
    cases howner : s.core.owner with
    | free => rfl
    | client i => exact absurd howner (h.owner_ne_client hstuck)
    | waiter => grind [Waiter.holds]
  refine ⟨by simpa [hfree] using hwaiter, ?_⟩
  intro c hc
  obtain ⟨i, hi⟩ := List.mem_iff_getElem?.mp hc
  obtain ⟨item, ops⟩ := c
  cases ops with
  | nil => simp
  | cons op ops => simpa [hfree, and_assoc] using h.of_stuck hstuck hi

/-- No thread has an operation left that is not the wait for the other's end. -/
theorem Orderly.not_mem_ops (h : Orderly shape s) (hstuck : Stuck shape s) {c : Client α}
    (hc : c ∈ s.clients) (hop : op ≠ .join) : op ∉ c.ops := by
  rcases (h.stuck_spec hstuck).2 c hc with hops | ⟨hops, -⟩ <;> simp [hops, hop]

/-- The flag is set exactly if a thread was started to set it. -/
theorem Orderly.stop_iff (h : Orderly shape s) (hstuck : Stuck shape s) :
    s.core.stop = true ↔ s.Stopped := by
  refine ⟨h.stopped, ?_⟩
  rintro ⟨c, hc, hitem⟩
  exact (h.sets c hc hitem).resolve_left (h.not_mem_ops hstuck hc (by decide))

/-- Every place is linked. -/
theorem Orderly.empty_iff (h : Orderly shape s) (hstuck : Stuck shape s) :
    s.core.empty = true ↔ s.core.cells = [] := by
  cases hcells : s.core.cells with
  | nil => simp [Core.empty, hcells]
  | cons cell cells =>
    have hlinked : cell.linked = true := by
      by_contra hnot
      obtain ⟨c, hc, hmem⟩ := h.linked cell (by simp [hcells]) (by simpa using hnot)
      exact h.not_mem_ops hstuck (List.mem_of_getElem? hc) (by decide) hmem
    simp [Core.empty, hcells, hlinked]

/-- **Every item is dealt with or in the queue.** -/
theorem Orderly.taken_append_cells (h : Orderly shape s) (hstuck : Stuck shape s) :
    (s.core.taken ++ s.core.cells.map Cell.item).Perm s.requests := by
  have hunsent : s.clients.filterMap Client.unsent = [] := by
    simp only [List.filterMap_eq_nil_iff]
    intro c hc
    have hreserve : Op.reserve ∉ c.ops := h.not_mem_ops hstuck hc (by decide)
    simp [Client.unsent, hreserve]
  have hitems := h.items
  rcases (h.stuck_spec hstuck).1 with ⟨late, hwaiter⟩ | hwaiter <;>
    simpa [Core.items, hwaiter, hunsent] using hitems

/-- The thread sleeps too late exactly if it sleeps while its condition is true. -/
theorem Orderly.late_iff (h : Orderly shape s) (hstuck : Stuck shape s) :
    s.Late ↔ s.core.waiter ≠ .done ∧ s.core.ready = true := by
  have hpending : ¬ s.Pending := by
    rintro ⟨c, hc, hmem⟩
    exact h.not_mem_ops hstuck hc (by decide) hmem
  have hlate := h.aims.late
  rcases (h.stuck_spec hstuck).1 with ⟨late, hwaiter⟩ | hwaiter
  · have hsignalled := h.pending
    cases late <;> simp_all [State.Late]
  · simp [State.Late, hwaiter]

/-- **After it was asked to, the thread has come to its end** unless it fell asleep too late. -/
theorem Orderly.done_iff_not_late (h : Orderly shape s) (hstuck : Stuck shape s)
    (hstopped : s.Stopped) : s.core.waiter = .done ↔ ¬ s.Late := by
  have hstop := (h.stop_iff hstuck).mpr hstopped
  simp [h.late_iff hstuck, Core.ready, hstop]

/-- **All items are dealt with** unless the thread fell asleep too late. -/
theorem Orderly.taken_perm_iff_not_late (h : Orderly shape s) (hstuck : Stuck shape s)
    (hstopped : ¬ s.Stopped) : s.core.taken.Perm s.requests ↔ ¬ s.Late := by
  have hstop : s.core.stop = false := by simpa [← h.stop_iff hstuck] using hstopped
  have hdone : s.core.waiter ≠ .done := fun hdone => by simpa [hstop] using h.aims.leave (.inr hdone)
  have hcells : ¬ s.Late ↔ s.core.cells = [] := by
    simp [h.late_iff hstuck, hdone, Core.ready, hstop, ← h.empty_iff hstuck]
  rw [hcells]
  constructor
  · intro hperm
    simpa using ((h.taken_append_cells hstuck).trans hperm.symm).length_eq
  · intro hnil
    simpa [hnil] using h.taken_append_cells hstuck

/-- **If every change is made under the mutex, none is missed.** -/
theorem Orderly.not_late (h : Orderly shape s) (hlink : shape.locks.link = true)
    (hset : shape.locks.set = true) : ¬ s.Late := h.aims.notLate hlink hset

/-! ## Every run comes to rest -/

/-- The action is a step of a thread. -/
def Action.Internal : Action α → Prop
  | .client _ | .waiter => True
  | _ => False

/-- A bound for the steps of the waiting thread before it sleeps, ends or takes an item. -/
def Core.rank (s : Core α) : ℕ :=
  match s.waiter with
  | .asleep _ | .done => 0
  | .take => 1
  | .emptyTest => if s.empty then 11 else 2
  | .exitTest => 3
  | .readStop => 4
  | .sleep => 5
  | .checkEmpty => 6
  | .check => 7
  | .lock => 8
  | .work _ => 12

/-- A bound for the steps of all threads. -/
def State.rank (s : State α) : ℕ :=
  s.core.rank + 16 * s.core.cells.length + 32 * (s.clients.map fun c => c.ops.length).sum

theorem rank_waiterStep (haims : core.Aims shape) (h : core.waiterStep taking = some core') :
    core'.rank + 16 * core'.cells.length < core.rank + 16 * core.cells.length := by
  have hready := haims.readStop
  simp only [Core.ready, Core.rank] at *
  cases hw : core.waiter <;> cases taking <;>
    grind [Core.waiterStep, Core.enter, Core.leave, Core.empty]

theorem rank_exec (h : core.exec i item op = some core') :
    core'.rank + 16 * core'.cells.length < core.rank + 16 * core.cells.length + 32 := by
  obtain ⟨-, hempty, -, hwaiter⟩ := exec_spec h
  have hlength : core'.cells.length ≤ core.cells.length + 1 := by
    cases op <;> cases item <;> grind [Core.exec, Core.wake]
  have hrank : core'.rank ≤ core.rank + 8 := by
    simp only [Core.rank, hwaiter]
    grind [Core.wake]
  omega

/-- Every step of a thread lowers the bound. -/
theorem Orderly.rank_lt (h : Orderly shape s) {a : Action α} (ha : a.Internal)
    (hstep : step shape s a = some s') : s'.rank < s.rank := by
  cases a with
  | request | stop | spurious => cases ha
  | waiter =>
    obtain ⟨core, hexec, rfl⟩ := Option.map_eq_some_iff.mp hstep
    have hrank := rank_waiterStep h.aims hexec
    simp only [State.rank]
    omega
  | client i =>
    simp only [step] at hstep
    split at hstep
    · next item op ops hi =>
        obtain ⟨core, hexec, rfl⟩ := Option.map_eq_some_iff.mp hstep
        obtain ⟨hperm, hset⟩ := perm_set hi
        have hrank := rank_exec hexec
        have hbefore := (hperm.map fun c : Client α => c.ops.length).sum_eq
        have hafter := ((hset ⟨item, ops⟩).map fun c : Client α => c.ops.length).sum_eq
        simp only [List.map_cons, List.sum_cons, List.length_cons] at hbefore hafter
        simp only [State.rank]
        omega
    · cases hstep

/-- The threads come to rest after a bounded number of steps, if there are no new ones. -/
def State.Rests (shape : Shape) (s : State α) : Prop :=
  ∃ bound, ∀ as s', (∀ a ∈ as, a.Internal) → run (step shape) s as = some s' → as.length ≤ bound

/-- **The threads come to rest.** -/
theorem State.Reached.rests (hs : s.Reached shape) : s.Rests shape := by
  refine ⟨s.rank, ?_⟩
  intro as
  induction as generalizing s with
  | nil => simp
  | cons a as ih =>
    intro s' has hrun
    obtain ⟨s₁, hstep, hrun⟩ := exists_of_run hrun
    have hlt := hs.orderly.rank_lt (has a (by simp)) hstep
    have hle := ih (.tail hs ⟨a, trivial, hstep⟩) s' (fun b hb => has b (by simp [hb])) hrun
    simp only [List.length_cons]
    omega

end Runs

end Monitor

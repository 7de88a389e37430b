import IocpChat.Lib.PowerOfTwo
import IocpChat.Lib.Transition

/-!
# `Fqueue`: a queue in a fixed number of slots

Any number of threads push and pop.  `head` counts the pushes that have claimed a place and
`tail` the pops, and a place has the slot whose index is its remainder.  The sequence number
of a slot says for which place it is free or full, so a thread that finds it right can try to
claim the place, and writes or empties the slot after that.

A thread is the point of its code it has come to, and a step is one operation on an atomic
variable, or the access to the data.  `compare_exchange_weak` may fail for no reason.  Numbers
are 64-bit words; a signed difference that overflows and data that is not there have no next
state.

## Main definitions

* `Fqueue`, `FqueueCall` — the queue, and the points of `push` and `pop`.
* `Fqueues`, `Fqueues.step` — the queue with its threads.
-/

namespace IocpChat

open Transition

/-- The queue, with the values that were pushed in the order in which they claimed a place.
A slot has data from the push until the pop has moved it out. -/
structure Fqueue (α : Type) where
  capacity : ℕ
  sequence : ℕ → ℕ
  data : ℕ → Option α
  head : ℕ
  tail : ℕ
  log : List α

/-- The point a call has come to. -/
inductive FqueueCall (α : Type)
  | push (val : α)
  /-- Before the sequence number is loaded. -/
  | pushLoad (val : α) (pos : ℕ)
  | pushCas (val : α) (pos : ℕ)
  /-- The slot is still in use, and the push gives up. -/
  | pushFull
  | pushRetry (val : α)
  | write (val : α) (pos : ℕ)
  | publish (val : α) (pos : ℕ)
  | pushed (val : α) (pos : ℕ)
  | dropped
  | pop
  | popLoad (pos : ℕ)
  | popCas (pos : ℕ)
  | popRetry
  | move (pos : ℕ)
  | release (val : α) (pos : ℕ)
  | popped (val : α) (pos : ℕ)
  /-- The pop has returned nothing. -/
  | empty
  deriving DecidableEq

namespace Fqueue

variable {α : Type}

/-! ## Words -/

/-- A `size_t`. -/
def wrap (n : ℕ) : ℕ := n % 2 ^ 64

/-- `static_cast<intptr_t>`. -/
def toSigned (n : ℕ) : ℤ := if n < 2 ^ 63 then n else n - 2 ^ 64

/-- The difference of two `intptr_t`. -/
def diff (a b : ℕ) : Option ℤ :=
  let d := toSigned a - toSigned b
  if -2 ^ 63 ≤ d ∧ d < 2 ^ 63 then some d else none

theorem wrap_of_lt {n : ℕ} (h : n < 2 ^ 64) : wrap n = n := Nat.mod_eq_of_lt h

theorem diff_of_lt {a b : ℕ} (ha : a < 2 ^ 63) (hb : b < 2 ^ 63) : diff a b = some ((a : ℤ) - b) := by
  simp only [diff, toSigned, if_pos ha, if_pos hb]
  rw [if_pos]
  omega

def roundUpToPowerOfTwo (n : ℕ) : ℕ :=
  if n = 0 then 2
  else
    let n := n - 1
    let n := n ||| n >>> 1
    let n := n ||| n >>> 2
    let n := n ||| n >>> 4
    let n := n ||| n >>> 8
    let n := n ||| n >>> 16
    let n := n ||| n >>> 32
    wrap (n + 1)

open PowerOfTwo in
/-- **The capacity** is a power of two, and not less than the length asked for. -/
theorem roundUpToPowerOfTwo_spec {l : ℕ} (hl : 2 ≤ l) (hmax : l ≤ 2 ^ 62) :
    ∃ k, k ≤ 62 ∧ roundUpToPowerOfTwo l = 2 ^ k ∧ l ≤ 2 ^ k := by
  have hspread := ((((((spread_one (l - 1)).double).double).double).double).double).double
  have hadd := hspread.add_one (by omega) (by omega)
  have hlog : (l - 1).log2 < 62 := (Nat.log2_lt (by omega)).mpr (by omega)
  have hle : l - 1 < 2 ^ ((l - 1).log2 + 1) := Nat.lt_log2_self
  have hpow : 2 ^ ((l - 1).log2 + 1) ≤ 2 ^ 62 := Nat.pow_le_pow_right (by decide) hlog
  have hround : roundUpToPowerOfTwo l = wrap (2 ^ ((l - 1).log2 + 1)) := by
    simp only [roundUpToPowerOfTwo, if_neg (show l ≠ 0 by omega)]
    exact congrArg wrap hadd
  exact ⟨(l - 1).log2 + 1, hlog, hround.trans (wrap_of_lt (by omega)), by omega⟩

/-! ## The queue -/

def new (l : ℕ) : Fqueue α where
  capacity := roundUpToPowerOfTwo l
  sequence := fun i => i
  data := fun _ => none
  head := 0
  tail := 0
  log := []

def index (q : Fqueue α) (pos : ℕ) : ℕ := pos &&& (q.capacity - 1)

def exec (q : Fqueue α) (spurious : Bool) : FqueueCall α → Option (Fqueue α × FqueueCall α)
  | .push val => some (q, .pushLoad val q.head)
  | .pushLoad val pos =>
    (diff (q.sequence (q.index pos)) pos).map fun d =>
      (q, if d = 0 then .pushCas val pos else if d < 0 then .pushFull else .pushRetry val)
  | .pushCas val pos =>
    if q.head = pos ∧ spurious = false then
      some ({ q with head := wrap (pos + 1), log := q.log ++ [val] }, .write val pos)
    else some (q, .pushLoad val q.head)
  | .pushFull => some (q, .dropped)
  | .pushRetry val => some (q, .pushLoad val q.head)
  | .write val pos =>
    some ({ q with data := Function.update q.data (q.index pos) (some val) }, .publish val pos)
  | .publish val pos =>
    some ({ q with sequence := Function.update q.sequence (q.index pos) (wrap (pos + 1)) },
      .pushed val pos)
  | .pop => some (q, .popLoad q.tail)
  | .popLoad pos =>
    (diff (q.sequence (q.index pos)) (wrap (pos + 1))).map fun d =>
      (q, if d = 0 then .popCas pos else if d < 0 then .empty else .popRetry)
  | .popCas pos =>
    if q.tail = pos ∧ spurious = false then some ({ q with tail := wrap (pos + 1) }, .move pos)
    else some (q, .popLoad q.tail)
  | .popRetry => some (q, .popLoad q.tail)
  | .move pos =>
    (q.data (q.index pos)).map fun val =>
      ({ q with data := Function.update q.data (q.index pos) none }, .release val pos)
  | .release val pos =>
    some ({ q with
      sequence := Function.update q.sequence (q.index pos) (wrap (pos + q.capacity)) },
      .popped val pos)
  | .pushed .. | .dropped | .popped .. | .empty => none

end Fqueue

/-- The queue and the calls on it. -/
abbrev Fqueues (α : Type) := Config (Fqueue α) (FqueueCall α)

namespace Fqueues

variable {α : Type}

def new (l : ℕ) : Fqueues α := ⟨.new l, []⟩

inductive Action (α : Type)
  | push (val : α)
  | pop
  /-- The `i`-th call takes a step. -/
  | run (i : ℕ) (spurious : Bool)

def step (c : Fqueues α) : Action α → Option (Fqueues α)
  | .push val => some (c.spawn (.push val))
  | .pop => some (c.spawn .pop)
  | .run i spurious => c.run Fqueue.exec i spurious

end Fqueues

end IocpChat

import IocpChat.DataStructure.CircularBuffer
import IocpChat.Lib.Refinement

/-!
# The circular buffer is a bounded queue of bytes

The operations on a `CircularBuffer`, in any order and number, answer like those of a queue
that holds at most `capacity` bytes.  A receive is one operation here: `getWriteBuffers`, a
transfer that fills the two ranges one after another with as many bytes as it has and they
take, and `commitWrite` with their number.

The indices of the buffer are arbitrary, so the queue does not depend on whether they have
wrapped.

## Main definitions

* `CircularBuffer.exec`, `ByteQueue.exec` — what they do to the buffer and to a queue.
* `CircularBuffer.FreeRanges` — what is known of the write buffers.
-/

namespace IocpChat

open Refinement

/-- The operations on the buffer. -/
inductive BufferOp
  | insert (bytes : List UInt8)
  | erase (length : ℕ)
  | copy (length : ℕ)
  | consume (length : ℕ)
  /-- A transfer into the write buffers, which is then committed. -/
  | receive (bytes : List UInt8)

/-- The answer of an operation: the bytes it gives out or takes in, or that it fails. -/
abbrev BufferReply := Option (List UInt8)

/-- The queue that the buffer implements. -/
def ByteQueue.exec (queue : List UInt8) : BufferOp → List UInt8 × BufferReply
  | .insert bytes =>
    if queue.length + bytes.length ≤ capacity then (queue ++ bytes, some bytes) else (queue, none)
  | .erase length =>
    if length ≤ queue.length then (queue.drop length, some []) else (queue, none)
  | .copy length =>
    if length ≤ queue.length then (queue, some (queue.take length)) else (queue, none)
  | .consume length =>
    if length ≤ queue.length then (queue.drop length, some (queue.take length)) else (queue, none)
  | .receive bytes =>
    let written := bytes.take (capacity - queue.length)
    (queue ++ written, some written)

namespace CircularBuffer

/-- The number of bytes that the write buffers take. -/
def writable (b : CircularBuffer) : ℕ := (b.getWriteBuffers.map WSABUF.len).sum

/-- What an operation does, and its answer. -/
def exec (b : CircularBuffer) : BufferOp → CircularBuffer × BufferReply
  | .insert bytes =>
    match b.insert bytes with
    | none => (b, none)
    | some b' => (b', some bytes)
  | .erase length =>
    match b.erase length with
    | none => (b, none)
    | some b' => (b', some [])
  | .copy length => (b, b.copy length)
  | .consume length =>
    match b.consume length with
    | none => (b, none)
    | some (bytes, b') => (b', some bytes)
  | .receive bytes =>
    let written := bytes.take b.writable
    ((b.receiveInto written).commitWrite written.length, some written)

/-! ## The write buffers -/

/-- **The write buffers are the free part of the array**: they lie in the array, do not
overlap each other or an unread byte, and have as many cells as there is free space. -/
structure FreeRanges (b : CircularBuffer) : Prop where
  total : b.writable = b.freeSpace
  within : ∀ w ∈ b.getWriteBuffers, w.buf + w.len ≤ capacity
  disjoint : b.getWriteBuffers.Pairwise fun v w => v.buf + v.len ≤ w.buf ∨ w.buf + w.len ≤ v.buf
  unread : ∀ w ∈ b.getWriteBuffers, ∀ i < b.size,
    phys (b.stidx + UInt64.ofNat i) < w.buf ∨ w.buf + w.len ≤ phys (b.stidx + UInt64.ofNat i)

theorem phys_unread_cases (b : CircularBuffer) {i : ℕ} (hi : i < b.size) :
    phys (b.stidx + UInt64.ofNat i) =
      if phys b.stidx + i < capacity then phys b.stidx + i else phys b.stidx + i - capacity := by
  have hsize := b.size_le_capacity
  rw [phys_add, Ring.add_mod_eq_ite _ _ (by omega), ← phys_eq_mod]

theorem FreeRanges.of_singleton {b : CircularBuffer} {w : WSABUF} (h : b.getWriteBuffers = [w])
    (hlen : w.len = b.freeSpace) (hwithin : w.buf + w.len ≤ capacity)
    (hunread : ∀ i < b.size,
      phys (b.stidx + UInt64.ofNat i) < w.buf ∨ w.buf + w.len ≤ phys (b.stidx + UInt64.ofNat i)) :
    b.FreeRanges := by
  constructor
  · simp [writable, h, hlen]
  · simpa [h] using hwithin
  · simp [h]
  · simpa [h] using hunread

theorem freeRanges (b : CircularBuffer) : b.FreeRanges := by
  have hr := phys_lt b.stidx
  have hw := phys_lt b.endidx
  have hsize := b.size_le_capacity
  have hend := b.phys_endidx_cases
  have hunread := fun i (hi : i < b.size) => b.phys_unread_cases hi
  by_cases hfree : b.freeSpace = 0
  · have hnil : b.getWriteBuffers = [] := by rw [getWriteBuffers, if_pos hfree]
    constructor <;> simp [writable, hnil, hfree]
  have hroom : b.size < capacity := by
    rw [freeSpace] at hfree
    omega
  by_cases hle : phys b.stidx ≤ phys b.endidx
  · by_cases hpos : 0 < phys b.stidx
    · -- the unread bytes are in one piece, with free cells on both sides
      have hbufs : b.getWriteBuffers =
          [⟨phys b.endidx, capacity - phys b.endidx⟩, ⟨0, phys b.stidx⟩] := by
        simp [getWriteBuffers, hfree, hle, hpos]
      constructor
      · simp [writable, hbufs, freeSpace]
        split at hend <;> omega
      · simp only [hbufs, List.mem_cons, List.not_mem_nil, or_false]
        rintro w (rfl | rfl) <;> simp only <;> omega
      · simp [hbufs]
        omega
      · simp only [hbufs, List.mem_cons, List.not_mem_nil, or_false]
        rintro w (rfl | rfl) i hi <;> simp only [hunread i hi] <;> split at hend <;> split <;> omega
    · -- they begin in the first cell
      refine .of_singleton (w := ⟨phys b.endidx, capacity - phys b.endidx⟩) ?_ ?_ ?_ ?_
      · simp [getWriteBuffers, hfree, hle, hpos]
      · simp only [freeSpace]
        split at hend <;> omega
      · simp only
        omega
      · intro i hi
        simp only [hunread i hi]
        split at hend <;> split <;> omega
  · -- they go round, and the free cells are in one piece
    refine .of_singleton (w := ⟨phys b.endidx, phys b.stidx - phys b.endidx⟩) ?_ ?_ ?_ ?_
    · simp [getWriteBuffers, hfree, hle]
    · simp only [freeSpace]
      split at hend <;> omega
    · simp only
      omega
    · intro i hi
      simp only [hunread i hi]
      split at hend <;> split <;> omega

/-! ## The operations -/

/-- The loop of `insert` writes behind the unread bytes. -/
theorem store_eq_write (cells : List UInt8) (idx : UInt64) (bytes : List UInt8)
    (hcells : cells.length = capacity) (h : bytes.length ≤ capacity) :
    store cells idx bytes = Ring.write cells idx.toNat bytes := by
  induction bytes generalizing cells idx with
  | nil => simp [store, Ring.write]
  | cons byte bytes ih =>
    have hlt : bytes.length < cells.length := by
      rw [hcells]
      exact h
    have hnext : (idx + 1).toNat % capacity = (idx.toNat + 1) % capacity := by
      have := phys_add idx 1
      rwa [phys_eq_mod] at this
    have hset : (cells.set (phys idx) byte).length = capacity := by simpa using hcells
    rw [store, ih _ _ hset (Nat.le_of_succ_le h), Ring.write_cons _ _ _ _ hlt, hcells,
      ← phys_eq_mod, Ring.write, Ring.write, hset, hnext]

theorem contents_insert (b : CircularBuffer) {bytes : List UInt8} (h : bytes.length ≤ b.freeSpace) :
    ∃ b', b.insert bytes = some b' ∧ b'.contents = b.contents ++ bytes := by
  have hfit : b.size + bytes.length ≤ capacity := add_le_capacity (Nat.not_lt.mpr h)
  have hcells : b.buffer.toList.length = capacity := b.buffer.toList_length
  have hsize : ((b.stored bytes).extend bytes.length hfit).size = b.size + bytes.length :=
    toNat_add_sub hfit
  have hend : b.endidx.toNat % capacity = (b.stidx.toNat + b.size) % capacity := by
    rw [← phys_eq_mod, phys_endidx]
  have hstore : store b.buffer.toList b.endidx bytes =
      Ring.write b.buffer.toList (b.stidx.toNat + b.size) bytes := by
    rw [store_eq_write _ _ _ hcells (by omega), Ring.write, Ring.write, hcells, hend]
  refine ⟨(b.stored bytes).extend bytes.length hfit, ?_, ?_⟩
  · rw [insert, dif_neg (Nat.not_lt.mpr h)]
  · rw [contents_eq_window, contents_eq_window b, hsize]
    change Ring.window (store b.buffer.toList b.endidx bytes) b.stidx.toNat _ = _
    rw [hstore]
    refine Ring.window_write _ _ _ _ ?_
    rw [hcells]
    exact hfit

/-- **Every operation on the buffer is the one on the queue**, and gets the same answer. -/
theorem exec_refines (b : CircularBuffer) (op : BufferOp) :
    (b.exec op).1.contents = (ByteQueue.exec b.contents op).1 ∧
      (b.exec op).2 = (ByteQueue.exec b.contents op).2 := by
  have hsize := b.size_le_capacity
  cases op with
  | insert bytes =>
    by_cases hfit : b.size + bytes.length ≤ capacity
    · have hroom : bytes.length ≤ b.freeSpace := by
        rw [freeSpace]
        omega
      obtain ⟨b', hinsert, hcontents⟩ := b.contents_insert hroom
      simp [exec, ByteQueue.exec, hinsert, hcontents, hfit]
    · have hfull : b.insert bytes = none := by
        rw [insert, dif_pos (by rw [freeSpace]; omega)]
      simp [exec, ByteQueue.exec, hfull, hfit]
  | erase length =>
    by_cases hlen : length ≤ b.size
    · have herase : b.erase length = some (b.advance length hlen) := by
        rw [erase, dif_neg (Nat.not_lt.mpr hlen)]
      simp [exec, ByteQueue.exec, herase, hlen, contents_advance]
    · have herase : b.erase length = none := by rw [erase, dif_pos (Nat.lt_of_not_le hlen)]
      simp [exec, ByteQueue.exec, herase, hlen]
  | copy length =>
    by_cases hlen : length ≤ b.size
    · simp [exec, ByteQueue.exec, b.copy_eq_some hlen, hlen]
    · have hcopy : b.copy length = none := by rw [copy, if_pos (Nat.lt_of_not_le hlen)]
      simp [exec, ByteQueue.exec, hcopy, hlen]
  | consume length =>
    by_cases hlen : length ≤ b.size
    · simp [exec, ByteQueue.exec, b.consume_eq_some hlen, hlen, contents_advance]
    · have hconsume : b.consume length = none := by
        rw [consume, dif_pos (Nat.lt_of_not_le hlen)]
      simp [exec, ByteQueue.exec, hconsume, hlen]
  | receive bytes =>
    have hwritable : b.writable = capacity - b.contents.length := by
      rw [b.freeRanges.total, freeSpace, length_contents]
    have hlen : (bytes.take b.writable).length ≤ b.freeSpace := by
      rw [← b.freeRanges.total]
      exact List.length_take_le _ _
    constructor
    · rw [exec, ByteQueue.exec, ← hwritable]
      exact b.contents_commitWrite hlen
    · rw [exec, ByteQueue.exec, ← hwritable]

/-- **The buffer refines a bounded queue of bytes.**  Any sequence of operations gets the same
answers from both, the buffer then holds what the queue holds, which is at most `capacity`
bytes, and its write buffers are its free cells. -/
theorem refines_byteQueue (b : CircularBuffer) (ops : List BufferOp) :
    let queue := answers ByteQueue.exec b.contents ops
    let buffer := answers exec b ops
    buffer.2 = queue.2 ∧ buffer.1.contents = queue.1 ∧ buffer.1.size = queue.1.length ∧
      queue.1.length ≤ capacity ∧ buffer.1.FreeRanges := by
  intro queue buffer
  have hrefines : buffer.1.contents = queue.1 ∧ buffer.2 = queue.2 := by
    refine answers_refines (R := fun (b : CircularBuffer) queue => b.contents = queue) ?_ rfl ops
    rintro b _ op rfl
    exact b.exec_refines op
  obtain ⟨hcontents, hreplies⟩ := hrefines
  have hsize : buffer.1.size = queue.1.length := by
    rw [← length_contents, hcontents]
  refine ⟨hreplies, hcontents, hsize, ?_, buffer.1.freeRanges⟩
  rw [← hsize]
  exact buffer.1.size_le_capacity

end CircularBuffer

end IocpChat

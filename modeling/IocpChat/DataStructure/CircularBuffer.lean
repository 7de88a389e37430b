import IocpChat.Lib.Ring

/-!
# The circular receive buffer

`CircularBuffer` of `datastructure/circularBuffer.h`.  Its two indices are 64-bit
counters that only grow and wrap, and are masked when a cell is addressed.  The
difference of the indices is the number of unread bytes; that it never exceeds
the capacity is a field.

`contents` is the string the buffer holds.  The operations are then those of a
queue: `getWriteBuffers`, a scattered receive and `commitWrite` append what was
received (`contents_commitWrite`), `copy` reads the beginning, and `consume` takes
it off.

## Main definitions

* `CircularBuffer` and its member functions.
* `CircularBuffer.contents` — the unread bytes.
-/

namespace IocpChat

open Bytes

/-- `capacity`. -/
def capacity : ℕ := 16384

/-- `mask`. -/
def mask : UInt64 := 16383

/-- The cell an index addresses. -/
def phys (i : UInt64) : ℕ := (i &&& mask).toNat

theorem phys_eq_mod (i : UInt64) : phys i = i.toNat % capacity := by
  rw [phys, UInt64.toNat_and]
  exact Nat.and_two_pow_sub_one_eq_mod i.toNat 14

theorem phys_lt (i : UInt64) : phys i < capacity := by
  rw [phys_eq_mod]
  exact Nat.mod_lt _ (by decide)

/-- Wrapping at `2 ^ 64` does not show: the capacity divides it. -/
theorem phys_add (i : UInt64) (n : ℕ) :
    phys (i + UInt64.ofNat n) = (i.toNat + n) % capacity := by
  rw [phys_eq_mod, UInt64.toNat_add, UInt64.toNat_ofNat', capacity]
  omega

/-- A range of the array, as handed to the socket. -/
structure WSABUF where
  buf : ℕ
  len : ℕ
  deriving DecidableEq

/-- What a receive does with its ranges: fill them one after another. -/
def scatter (cells : List UInt8) : List WSABUF → List UInt8 → List UInt8
  | [], _ => cells
  | b :: bufs, bytes =>
    scatter (overwrite cells b.buf (bytes.take b.len)) bufs (bytes.drop b.len)

theorem length_scatter (cells : List UInt8) (bufs : List WSABUF) (bytes : List UInt8) :
    (scatter cells bufs bytes).length = cells.length := by
  induction bufs generalizing cells bytes with
  | nil => rfl
  | cons b bufs ih => rw [scatter, ih, length_overwrite]

/-- The class `CircularBuffer`. -/
structure CircularBuffer where
  buffer : List.Vector UInt8 capacity
  stidx : UInt64
  endidx : UInt64
  size_le : (endidx - stidx).toNat ≤ capacity

namespace CircularBuffer

/-- A newly constructed buffer; the array is not initialised. -/
def new (junk : List.Vector UInt8 capacity) : CircularBuffer := ⟨junk, 0, 0, by decide⟩

def size (b : CircularBuffer) : ℕ := (b.endidx - b.stidx).toNat

/-- The number of bytes that can still be written. -/
def freeSpace (b : CircularBuffer) : ℕ := capacity - b.size

/-- The loop of `copy` and `consume`: `length` bytes from the read index on. -/
def readOut (b : CircularBuffer) (length : ℕ) : List UInt8 :=
  (List.range length).map fun i => b.buffer.get ⟨phys (b.stidx + UInt64.ofNat i), phys_lt _⟩

/-- Copy the first bytes out, if there are so many. -/
def copy (b : CircularBuffer) (length : ℕ) : Option (List UInt8) :=
  if b.size < length then none else some (b.readOut length)

theorem size_le_capacity (b : CircularBuffer) : b.size ≤ capacity := b.size_le

theorem toNat_sub_add {s e : UInt64} {n : ℕ} (h : n ≤ (e - s).toNat) :
    (e - (s + UInt64.ofNat n)).toNat = (e - s).toNat - n := by
  have hlt := (e - s).toNat_lt
  rw [UInt64.toNat_sub] at h hlt ⊢
  rw [UInt64.toNat_sub, UInt64.toNat_add, UInt64.toNat_ofNat']
  have := s.toNat_lt
  have := e.toNat_lt
  omega

theorem toNat_add_sub {s e : UInt64} {n : ℕ} (h : (e - s).toNat + n ≤ capacity) :
    (e + UInt64.ofNat n - s).toNat = (e - s).toNat + n := by
  rw [UInt64.toNat_sub] at h ⊢
  rw [UInt64.toNat_sub, UInt64.toNat_add, UInt64.toNat_ofNat']
  have := s.toNat_lt
  have := e.toNat_lt
  rw [capacity] at h
  omega

/-- The buffer after its first `n` bytes are gone. -/
def advance (b : CircularBuffer) (n : ℕ) (h : n ≤ b.size) : CircularBuffer where
  buffer := b.buffer
  stidx := b.stidx + UInt64.ofNat n
  endidx := b.endidx
  size_le := by
    rw [toNat_sub_add h]
    exact (Nat.sub_le _ _).trans b.size_le

/-- Copy the first bytes out and advance the read index, in one call. -/
def consume (b : CircularBuffer) (length : ℕ) : Option (List UInt8 × CircularBuffer) :=
  if h : b.size < length then none
  else some (b.readOut length, b.advance length (Nat.le_of_not_lt h))

/-- The free ranges of the array: none, one or two. -/
def getWriteBuffers (b : CircularBuffer) : List WSABUF :=
  if b.freeSpace = 0 then []
  else
    let wPhys := phys b.endidx
    let rPhys := phys b.stidx
    if rPhys ≤ wPhys then
      -- unread bytes are contiguous, free space is not
      if 0 < rPhys then [⟨wPhys, capacity - wPhys⟩, ⟨0, rPhys⟩]
      else [⟨wPhys, capacity - wPhys⟩]
    else [⟨wPhys, rPhys - wPhys⟩]

/-- The array after a receive into the write buffers; the indices do not move. -/
def receiveInto (b : CircularBuffer) (bytes : List UInt8) : CircularBuffer :=
  { b with
    buffer := ⟨scatter b.buffer.toList b.getWriteBuffers bytes, by
      rw [length_scatter, List.Vector.toList_length]⟩ }

/-- The buffer after `n` more bytes are readable. -/
def extend (b : CircularBuffer) (n : ℕ) (h : b.size + n ≤ capacity) : CircularBuffer where
  buffer := b.buffer
  stidx := b.stidx
  endidx := b.endidx + UInt64.ofNat n
  size_le := by
    rw [toNat_add_sub h]
    exact h

theorem add_le_capacity {b : CircularBuffer} {n : ℕ} (h : ¬ b.freeSpace < n) :
    b.size + n ≤ capacity := by
  have hsize := b.size_le_capacity
  rw [freeSpace] at h
  omega

/-- The loop of `insert`: store bytes at an index and the following ones. -/
def store (cells : List UInt8) (idx : UInt64) : List UInt8 → List UInt8
  | [] => cells
  | byte :: bytes => store (cells.set (phys idx) byte) (idx + 1) bytes

theorem length_store (cells : List UInt8) (idx : UInt64) (bytes : List UInt8) :
    (store cells idx bytes).length = cells.length := by
  induction bytes generalizing cells idx with
  | nil => rfl
  | cons byte bytes ih => rw [store, ih, List.length_set]

/-- The array after the loop of `insert`; the indices do not move. -/
def stored (b : CircularBuffer) (bytes : List UInt8) : CircularBuffer :=
  { b with
    buffer := ⟨store b.buffer.toList b.endidx bytes, by
      rw [length_store, List.Vector.toList_length]⟩ }

/-- Append bytes, if there is room for them. -/
def insert (b : CircularBuffer) (bytes : List UInt8) : Option CircularBuffer :=
  if h : b.freeSpace < bytes.length then none
  else some ((b.stored bytes).extend bytes.length (add_le_capacity h))

/-- Drop the first bytes, if there are so many. -/
def erase (b : CircularBuffer) (length : ℕ) : Option CircularBuffer :=
  if h : b.size < length then none else some (b.advance length (Nat.le_of_not_lt h))

/-- Make received bytes readable. -/
def commitWrite (b : CircularBuffer) (length : ℕ) : CircularBuffer :=
  if h : b.freeSpace < length then b else b.extend length (add_le_capacity h)

/-! ## The buffer as a queue -/

/-- The unread bytes, oldest first. -/
def contents (b : CircularBuffer) : List UInt8 := b.readOut b.size

@[simp] theorem length_contents (b : CircularBuffer) : b.contents.length = b.size := by
  simp [contents, readOut]

@[simp] theorem contents_new (junk : List.Vector UInt8 capacity) : (new junk).contents = [] := by
  have hsize : (new junk).size = ((0 : UInt64) - 0).toNat := rfl
  exact List.eq_nil_of_length_eq_zero (by rw [length_contents, hsize]; decide)

theorem readOut_eq_window (b : CircularBuffer) {n : ℕ} (h : n ≤ capacity) :
    b.readOut n = Ring.window b.buffer.toList b.stidx.toNat n := by
  apply List.ext_getElem?
  intro i
  by_cases hi : i < n
  · rw [Ring.getElem?_window _ _ (by rw [List.Vector.toList_length]; exact h) hi,
      List.Vector.toList_length, readOut, List.getElem?_map, List.getElem?_range hi,
      ← phys_add, List.getElem?_eq_getElem (by rw [List.Vector.toList_length]; exact phys_lt _)]
    rfl
  · rw [List.getElem?_eq_none (by simp [readOut]; omega),
      List.getElem?_eq_none
        (by rw [Ring.length_window _ _ (by rw [List.Vector.toList_length]; exact h)]; omega)]

theorem contents_eq_window (b : CircularBuffer) :
    b.contents = Ring.window b.buffer.toList b.stidx.toNat b.size :=
  b.readOut_eq_window b.size_le_capacity

theorem readOut_eq_take (b : CircularBuffer) {n : ℕ} (h : n ≤ b.size) :
    b.readOut n = b.contents.take n := by
  rw [contents_eq_window, Ring.take_window _ _ h, readOut_eq_window]
  exact h.trans b.size_le_capacity

/-- `copy` reads the oldest bytes. -/
theorem copy_eq_some (b : CircularBuffer) {n : ℕ} (h : n ≤ b.size) :
    b.copy n = some (b.contents.take n) := by
  rw [copy, if_neg (by omega), readOut_eq_take b h]

theorem contents_advance (b : CircularBuffer) {n : ℕ} (h : n ≤ b.size) :
    (b.advance n h).contents = b.contents.drop n := by
  have hsize : (b.advance n h).size = b.size - n := toNat_sub_add h
  have hcells : b.buffer.toList.length = capacity := b.buffer.toList_length
  rw [contents_eq_window, contents_eq_window, hsize, Ring.drop_window _ _ _ h,
    ← Ring.window_mod, ← Ring.window_mod _ (b.stidx.toNat + n)]
  · congr 1
    change (b.stidx + UInt64.ofNat n).toNat % b.buffer.toList.length = _
    rw [hcells, ← phys_add, phys_eq_mod]
  · rw [hcells]
    exact b.size_le_capacity

/-- `consume` reads the oldest bytes and takes them off. -/
theorem consume_eq_some (b : CircularBuffer) {n : ℕ} (h : n ≤ b.size) :
    b.consume n = some (b.contents.take n, b.advance n h) := by
  rw [consume, dif_neg (by omega), readOut_eq_take b h]

theorem phys_endidx (b : CircularBuffer) :
    phys b.endidx = (b.stidx.toNat + b.size) % capacity := by
  rw [← phys_add, size, UInt64.ofNat_toNat, UInt64.add_comm, UInt64.sub_add_cancel]

/-- The write cell is `size` cells after the read cell, and may have gone round. -/
theorem phys_endidx_cases (b : CircularBuffer) :
    phys b.endidx =
      if phys b.stidx + b.size < capacity then phys b.stidx + b.size
      else phys b.stidx + b.size - capacity := by
  have hrlt := phys_lt b.stidx
  have hsize := b.size_le_capacity
  rw [phys_endidx]
  by_cases hfull : b.size = capacity
  · rw [hfull, Nat.add_mod_right, ← phys_eq_mod, if_neg (by omega), Nat.add_sub_cancel]
  · rw [Ring.add_mod_eq_ite _ _ (by omega), ← phys_eq_mod]

/-- **The two ranges are the free part of the ring**: filling them in order is
writing behind the unread bytes. -/
theorem scatter_getWriteBuffers (b : CircularBuffer) {bytes : List UInt8}
    (h : bytes.length ≤ b.freeSpace) :
    scatter b.buffer.toList b.getWriteBuffers bytes =
      Ring.write b.buffer.toList (b.stidx.toNat + b.size) bytes := by
  have hw : (b.stidx.toNat + b.size) % capacity = phys b.endidx := b.phys_endidx.symm
  have hrlt := phys_lt b.stidx
  have hwlt := phys_lt b.endidx
  have hsize := b.size_le_capacity
  have hcases := b.phys_endidx_cases
  rw [freeSpace] at h
  rw [Ring.write, List.Vector.toList_length, hw, getWriteBuffers, freeSpace]
  by_cases hfree : capacity - b.size = 0
  · have hnil : bytes = [] := List.eq_nil_of_length_eq_zero (by omega)
    rw [if_pos hfree, hnil]
    simp [scatter]
  rw [if_neg hfree]
  -- a range that ends the array may leave bytes for a second one; the others do not
  by_cases hle : phys b.stidx ≤ phys b.endidx
  · rw [if_pos hle]
    by_cases hpos : 0 < phys b.stidx
    · rw [if_pos hpos]
      have hlen : (bytes.drop (capacity - phys b.endidx)).length ≤ phys b.stidx := by
        rw [List.length_drop]
        split at hcases <;> omega
      simp only [scatter]
      rw [List.take_of_length_le hlen]
    · have hnil : bytes.drop (capacity - phys b.endidx) = [] :=
        List.drop_of_length_le (by split at hcases <;> omega)
      rw [if_neg hpos, hnil, overwrite_nil]
      rfl
  · have hlen : bytes.length ≤ phys b.stidx - phys b.endidx := by split at hcases <;> omega
    rw [if_neg hle, List.drop_of_length_le (by omega), overwrite_nil,
      List.take_of_length_le (by omega)]
    simp only [scatter]
    rw [List.take_of_length_le hlen]

/-- **A receive appends**: the bytes scattered into the write buffers and then
committed stand behind what was unread. -/
theorem contents_commitWrite (b : CircularBuffer) {bytes : List UInt8}
    (h : bytes.length ≤ b.freeSpace) :
    ((b.receiveInto bytes).commitWrite bytes.length).contents = b.contents ++ bytes := by
  have hfree : ¬ (b.receiveInto bytes).freeSpace < bytes.length := Nat.not_lt.mpr h
  have hfit : b.size + bytes.length ≤ capacity := add_le_capacity hfree
  have hsize : ((b.receiveInto bytes).extend bytes.length hfit).size = b.size + bytes.length :=
    toNat_add_sub hfit
  rw [commitWrite, dif_neg hfree, contents_eq_window, contents_eq_window, hsize]
  change Ring.window (scatter b.buffer.toList b.getWriteBuffers bytes) b.stidx.toNat _ = _
  rw [b.scatter_getWriteBuffers h]
  refine Ring.window_write _ _ _ _ ?_
  rw [List.Vector.toList_length]
  exact hfit

theorem getWriteBuffers_ne_nil (b : CircularBuffer) (h : 0 < b.freeSpace) :
    b.getWriteBuffers ≠ [] := by
  rw [getWriteBuffers, if_neg (by omega)]
  by_cases hle : phys b.stidx ≤ phys b.endidx
  · by_cases hpos : 0 < phys b.stidx <;> simp [hle, hpos]
  · simp [hle]

end CircularBuffer

end IocpChat

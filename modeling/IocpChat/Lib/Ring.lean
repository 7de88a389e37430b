import IocpChat.Lib.Bytes

/-!
# Windows that go round a list of cells

A ring keeps a string in consecutive cells of a fixed list, going on from the
first cell after the last.  `window` reads such a string and `write` stores one.
Positions are unbounded and count modulo the number of cells, so a writer may let
its position grow.

The rule a queue needs is `window_write`: writing behind a window extends it,
provided that the two together fit in the ring.

## Main definitions

* `window` — the cells from a position on, as a string.
* `write` — store a string from a position on.
-/

namespace Ring

open Bytes

variable {α : Type*}

/-- The `len` cells from position `start` on, going round. -/
def window (cells : List α) (start len : ℕ) : List α := (cells.rotate start).take len

/-- Store `src` from position `pos` on: up to the last cell, then from the first. -/
def write (cells : List α) (pos : ℕ) (src : List α) : List α :=
  overwrite (overwrite cells (pos % cells.length) (src.take (cells.length - pos % cells.length))) 0
    (src.drop (cells.length - pos % cells.length))

theorem length_window (cells : List α) (start : ℕ) {len : ℕ} (h : len ≤ cells.length) :
    (window cells start len).length = len := by
  rw [window, List.length_take, List.length_rotate, Nat.min_eq_left h]

@[simp] theorem length_write (cells : List α) (pos : ℕ) (src : List α) :
    (write cells pos src).length = cells.length := by
  simp [write]

theorem getElem?_window (cells : List α) (start : ℕ) {len i : ℕ} (h : len ≤ cells.length)
    (hi : i < len) : (window cells start len)[i]? = cells[(start + i) % cells.length]? := by
  rw [window, List.getElem?_take_of_lt hi, List.getElem?_rotate (by omega), Nat.add_comm]

@[simp] theorem window_mod (cells : List α) (start len : ℕ) :
    window cells (start % cells.length) len = window cells start len := by
  rw [window, window, List.rotate_mod]

/-- The first part of a window. -/
theorem take_window (cells : List α) (start : ℕ) {len k : ℕ} (hk : k ≤ len) :
    (window cells start len).take k = window cells start k := by
  rw [window, window, List.take_take, Nat.min_eq_left hk]

/-- The rest of a window is the window further on. -/
theorem drop_window (cells : List α) (start : ℕ) {len k : ℕ} (h : len ≤ cells.length)
    (hk : k ≤ len) : (window cells start len).drop k = window cells (start + k) (len - k) := by
  apply List.ext_getElem?
  intro i
  rw [List.getElem?_drop]
  by_cases hi : i < len - k
  · rw [getElem?_window _ _ h (by omega), getElem?_window _ _ (by omega) hi, Nat.add_assoc]
  · rw [List.getElem?_eq_none (by rw [length_window _ _ h]; omega),
      List.getElem?_eq_none (by rw [length_window _ _ (by omega)]; omega)]

/-- Where a position `i` further on lands, as seen from the first one. -/
theorem add_mod_eq_ite (pos i : ℕ) {n : ℕ} (hi : i < n) :
    (pos + i) % n = if pos % n + i < n then pos % n + i else pos % n + i - n := by
  have hpos : pos % n < n := Nat.mod_lt _ (by omega)
  rw [← Nat.mod_add_mod]
  split
  · exact Nat.mod_eq_of_lt ‹_›
  · rw [Nat.mod_eq_sub_mod (by omega), Nat.mod_eq_of_lt (by omega)]

/-- What the ring holds after a write, position by position from where it began. -/
theorem getElem?_write (cells : List α) (pos : ℕ) {src : List α} (h : src.length ≤ cells.length)
    {i : ℕ} (hi : i < cells.length) :
    (write cells pos src)[(pos + i) % cells.length]? =
      if i < src.length then src[i]? else cells[(pos + i) % cells.length]? := by
  have hpos : pos % cells.length < cells.length := Nat.mod_lt _ (by omega)
  have hmod : (pos + i) % cells.length < cells.length := Nat.mod_lt _ (by omega)
  rw [write, getElem?_overwrite, length_overwrite, if_pos hmod, getElem?_overwrite, if_pos hmod,
    add_mod_eq_ite pos i hi, List.length_drop, List.length_take]
  -- the position is in the upper part of the ring or has gone round once
  by_cases hround : pos % cells.length + i < cells.length
  · rw [if_pos hround, if_neg (by omega)]
    by_cases hsrc : i < src.length
    · rw [if_pos (by omega), if_pos hsrc, Nat.add_sub_cancel_left, List.getElem?_take_of_lt (by omega)]
    · rw [if_neg (by omega), if_neg hsrc]
  · rw [if_neg hround]
    by_cases hsrc : i < src.length
    · rw [if_pos (by omega), if_pos hsrc, List.getElem?_drop]
      congr 1
      omega
    · rw [if_neg (by omega), if_neg (by omega), if_neg hsrc]

/-- **Writing behind a window extends it.** -/
theorem window_write (cells : List α) (start len : ℕ) (src : List α)
    (h : len + src.length ≤ cells.length) :
    window (write cells (start + len) src) start (len + src.length) =
      window cells start len ++ src := by
  have hlen : (window cells start len).length = len := length_window _ _ (by omega)
  apply List.ext_getElem?
  intro i
  by_cases hi : i < len + src.length
  · rw [getElem?_window _ _ (by rw [length_write]; exact h) hi, length_write]
    by_cases hold : i < len
    · -- an old position lies `cells.length - len + i` beyond the place of the write
      have hback : (start + i) % cells.length =
          (start + len + (cells.length - len + i)) % cells.length := by
        rw [show start + len + (cells.length - len + i) = start + i + cells.length by omega,
          Nat.add_mod_right]
      rw [List.getElem?_append_left (by omega), getElem?_window _ _ (by omega) hold, hback,
        getElem?_write _ _ (by omega) (by omega), if_neg (by omega)]
    · rw [List.getElem?_append_right (by omega), hlen,
        show start + i = start + len + (i - len) by omega,
        getElem?_write _ _ (by omega) (by omega), if_pos (by omega)]
  · rw [List.getElem?_eq_none
        (by rw [length_window _ _ (by rw [length_write]; exact h)]; omega),
      List.getElem?_eq_none (by rw [List.length_append, hlen]; omega)]

/-- Two rings are equal if they agree all the way round. -/
theorem ext_round {xs ys : List α} (pos : ℕ) (hlen : xs.length = ys.length)
    (h : ∀ i < xs.length, xs[(pos + i) % xs.length]? = ys[(pos + i) % xs.length]?) : xs = ys := by
  apply List.ext_getElem?
  intro j
  by_cases hj : j < xs.length
  · have hpos : pos % xs.length < xs.length := Nat.mod_lt _ (by omega)
    -- the position `j` is `(j - pos) mod n` further on
    have hround := h ((j + (xs.length - pos % xs.length)) % xs.length) (Nat.mod_lt _ (by omega))
    have hback : (pos + (j + (xs.length - pos % xs.length)) % xs.length) % xs.length = j := by
      rw [Nat.add_mod_mod, ← Nat.mod_add_mod,
        show pos % xs.length + (j + (xs.length - pos % xs.length)) = j + xs.length by omega,
        Nat.add_mod_right, Nat.mod_eq_of_lt hj]
    rwa [hback] at hround
  · rw [List.getElem?_eq_none (by omega), List.getElem?_eq_none (by omega)]

/-- A string can be stored one cell at a time. -/
theorem write_cons (cells : List α) (pos : ℕ) (x : α) (src : List α)
    (h : src.length < cells.length) :
    write cells pos (x :: src) = write (cells.set (pos % cells.length) x) (pos + 1) src := by
  have hpos : pos % cells.length < cells.length := Nat.mod_lt _ (by omega)
  have hsrc : src.length ≤ (cells.set (pos % cells.length) x).length := by
    rw [List.length_set]
    exact h.le
  refine ext_round pos (by simp) ?_
  intro i hi
  rw [length_write] at hi ⊢
  rw [getElem?_write _ _ (by simpa using h) hi]
  cases i with
  | zero =>
    -- the first cell is the last one that the rest could reach
    have hlast := getElem?_write (cells.set (pos % cells.length) x) (pos + 1) hsrc
      (i := cells.length - 1) (by rw [List.length_set]; omega)
    rw [List.length_set, show pos + 1 + (cells.length - 1) = pos + cells.length by omega,
      Nat.add_mod_right, if_neg (by omega)] at hlast
    rw [Nat.add_zero, hlast]
    simp [List.getElem?_set_self hpos]
  | succ i =>
    have hne : (pos + (i + 1)) % cells.length ≠ pos % cells.length := by
      rw [add_mod_eq_ite pos (i + 1) hi]
      split <;> omega
    have hnext := getElem?_write (cells.set (pos % cells.length) x) (pos + 1) hsrc
      (i := i) (by rw [List.length_set]; omega)
    rw [List.length_set, show pos + 1 + i = pos + (i + 1) by omega] at hnext
    rw [hnext, List.getElem?_set_ne hne.symm, List.getElem?_cons_succ, List.length_cons]
    simp only [Nat.add_lt_add_iff_right]

/-! ## Rounds

Numbers that count on stand for places by their remainders.  Those of one round have
different places, and all places. -/

theorem eq_of_mod_eq {start n p q : ℕ} (hp : start ≤ p) (hp' : p < start + n) (hq : start ≤ q)
    (hq' : q < start + n) (h : p % n = q % n) : p = q := by
  have hdiv := Nat.div_add_mod p n
  have hdiv' := Nat.div_add_mod q n
  rcases Nat.lt_trichotomy (p / n) (q / n) with hlt | heq | hgt
  · have hmul := Nat.mul_le_mul_left n hlt
    rw [Nat.mul_succ] at hmul
    omega
  · rw [← hdiv, ← hdiv', heq, h]
  · have hmul := Nat.mul_le_mul_left n hgt
    rw [Nat.mul_succ] at hmul
    omega

theorem exists_mod_eq (start pos : ℕ) {n : ℕ} (hn : 0 < n) :
    ∃ p, start ≤ p ∧ p < start + n ∧ p % n = pos % n := by
  have hdiv := Nat.div_add_mod start n
  have hmod := Nat.mod_lt start hn
  have hpos := Nat.mod_lt pos hn
  by_cases hle : start % n ≤ pos % n
  · refine ⟨n * (start / n) + pos % n, by omega, by omega, ?_⟩
    rw [Nat.mul_add_mod, Nat.mod_mod]
  · refine ⟨n * (start / n + 1) + pos % n, ?_, ?_, ?_⟩
    · rw [Nat.mul_succ]
      omega
    · rw [Nat.mul_succ]
      omega
    · rw [Nat.mul_add_mod, Nat.mod_mod]

end Ring

import Mathlib.Data.List.Basic

/-!
# Pieces of a list that arrive in any order

A list is cut into pieces of one size.  A buffer has a slot for each piece; a piece is
put into its slot when it arrives, and may be missing or arrive twice.  When no piece
is missing, the slots in their order are the list.

## Main definitions

* `piece` — the piece with a given number.
* `Fits` — every slot is empty or has its own piece.
* `missing` — the slots that are empty.
-/

namespace Pieces

variable {α : Type*} {size n i : ℕ} {xs : List α} {slots : List (List α)}

/-- The `i`-th piece of a list. -/
def piece (size : ℕ) (xs : List α) (i : ℕ) : List α := (xs.drop (size * i)).take size

theorem piece_eq_nil_iff (hsize : 0 < size) : piece size xs i = [] ↔ xs.length ≤ size * i := by
  rw [piece, List.take_eq_nil_iff, List.drop_eq_nil_iff]
  omega

/-- The pieces of what follows some of the first piece. -/
theorem piece_succ (size : ℕ) (xs : List α) (i : ℕ) :
    piece size xs (i + 1) = piece size (xs.drop size) i := by
  rw [piece, piece, List.drop_drop, Nat.mul_succ, Nat.add_comm]

/-- The pieces make up the list. -/
theorem flatten_pieces (size n : ℕ) (xs : List α) :
    ((List.range n).map (piece size xs)).flatten = xs.take (size * n) := by
  induction n generalizing xs with
  | zero => simp
  | succ n ih =>
    have hrest : (List.range n).map (piece size xs ∘ Nat.succ) =
        (List.range n).map (piece size (xs.drop size)) := by
      apply List.map_congr_left
      intro i _
      exact piece_succ size xs i
    rw [List.range_succ_eq_map, List.map_cons, List.map_map, hrest, List.flatten_cons, ih]
    rw [Nat.mul_succ, Nat.add_comm, List.take_add]
    simp [piece]

/-! ## Slots -/

/-- Every slot is empty or has the piece with its number. -/
def Fits (size : ℕ) (xs : List α) (slots : List (List α)) : Prop :=
  ∀ i slot, slots[i]? = some slot → slot = [] ∨ slot = piece size xs i

/-- The slots below a number that are empty. -/
def missing (slots : List (List α)) (count : ℕ) : List ℕ :=
  (List.range count).filter fun i => (slots[i]?.getD []).isEmpty

theorem mem_missing {count : ℕ} :
    i ∈ missing slots count ↔ i < count ∧ slots[i]?.getD [] = [] := by
  simp [missing]

theorem fits_replicate : Fits size xs (List.replicate n []) := by
  intro i slot h
  left
  simpa using (List.eq_of_mem_replicate (List.mem_of_getElem? h))

theorem Fits.set (h : Fits size xs slots) : Fits size xs (slots.set i (piece size xs i)) := by
  intro j slot hj
  rw [List.getElem?_set] at hj
  split at hj
  · rename_i hij
    subst hij
    split at hj
    · right
      simpa using hj.symm
    · cases hj
  · exact h j slot hj

/-- Slots that lie between two offsets, one after the other, hold no more than what is between. -/
theorem length_flatten_le {base total : ℕ} (h : ∀ i slot, slots[i]? = some slot →
      slot = [] ∨ slot.length ≤ size ∧ base + size * i + slot.length ≤ total) :
    slots.flatten.length ≤ total - base := by
  induction slots generalizing base with
  | nil => simp
  | cons slot slots ih =>
    have hrest : slots.flatten.length ≤ total - (base + size) := by
      apply ih
      intro i slot' hslot'
      have hnext := h (i + 1) slot' (by simpa using hslot')
      rwa [Nat.mul_succ, Nat.add_comm (size * i), ← Nat.add_assoc] at hnext
    rw [List.flatten_cons, List.length_append]
    rcases h 0 slot rfl with rfl | ⟨hsize, hend⟩
    · simp only [List.length_nil]
      omega
    · rw [Nat.mul_zero] at hend
      omega

/-- **When no piece is missing, the slots are the list.** -/
theorem Fits.flatten_eq (h : Fits size xs slots)
    (hfull : ∀ i < slots.length, piece size xs i ≠ [] → slots[i]? ≠ some []) :
    slots.flatten = xs.take (size * slots.length) := by
  have heq : slots = (List.range slots.length).map (piece size xs) := by
    apply List.ext_getElem?
    intro i
    rcases Nat.lt_or_ge i slots.length with hi | hi
    · have hslot : slots[i]? = some slots[i] := List.getElem?_eq_getElem hi
      rw [List.getElem?_map, List.getElem?_range hi, Option.map_some, hslot]
      rcases h i slots[i] hslot with hempty | hpiece
      · rw [hempty] at hslot ⊢
        by_contra hne
        exact hfull i hi (fun hnil => hne (by rw [hnil])) hslot
      · rw [← hpiece]
    · simp [hi]
  rw [← flatten_pieces, ← heq]

end Pieces

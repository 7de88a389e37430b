import Mathlib.Data.List.Basic

/-!
# Computations that read a memory, with a log of what they read

A `Reads α β` computes a `β` from a memory of cells in `α` and records the ranges
of cells it looks at.  `Within lo hi` says that all of them lie in `[lo, hi)`.

The rules are equivalences: `within_bind` splits a computation at each read, and
`within_read`, `within_readArray` settle one.  So a proof that some code stays
inside its buffer is a calculation, and so is finding out exactly when it does
not.

## Main definitions

* `Reads` — the monad.
* `read`, `readArray` — reading a range, and an array of equal ranges.
* `Within` — every cell read lies in an interval.
-/

namespace ReadLog

variable {α β γ : Type} {lo hi off len : ℕ} {mem : ℕ → α}

/-- A computation over a memory: its result and the ranges it reads, each with its
first cell and its length. -/
def Reads (α β : Type) : Type := (ℕ → α) → β × List (ℕ × ℕ)

/-- The result. -/
def val (m : Reads α β) (mem : ℕ → α) : β := (m mem).1

/-- The ranges read. -/
def log (m : Reads α β) (mem : ℕ → α) : List (ℕ × ℕ) := (m mem).2

instance : Monad (Reads α) where
  pure b := fun _ => (b, [])
  bind m f := fun mem => (val (f (val m mem)) mem, log m mem ++ log (f (val m mem)) mem)

/-- The cells of a range. -/
def cells (mem : ℕ → α) (off len : ℕ) : List α := (List.range len).map fun i => mem (off + i)

/-- Read a range. -/
def read (off len : ℕ) : Reads α (List α) := fun mem => (cells mem off len, [(off, len)])

/-- Read `n` ranges of `width` cells each, one after another. -/
def readArray (width : ℕ) : ℕ → ℕ → Reads α (List (List α))
  | _, 0 => pure []
  | off, n + 1 => do
      let x ← read off width
      let xs ← readArray width (off + width) n
      pure (x :: xs)

/-- Every cell read lies in `[lo, hi)`. -/
def Within (lo hi : ℕ) (m : Reads α β) (mem : ℕ → α) : Prop :=
  ∀ r ∈ log m mem, ∀ i < r.2, lo ≤ r.1 + i ∧ r.1 + i < hi

@[simp] theorem within_pure (b : β) : Within lo hi (pure b : Reads α β) mem := by
  intro r hr
  cases hr

@[simp] theorem within_bind (m : Reads α β) (f : β → Reads α γ) :
    Within lo hi (m >>= f) mem ↔ Within lo hi m mem ∧ Within lo hi (f (val m mem)) mem := by
  have hlog : log (m >>= f) mem = log m mem ++ log (f (val m mem)) mem := rfl
  rw [Within, hlog]
  exact List.forall_mem_append

@[simp] theorem within_map (f : β → γ) (m : Reads α β) :
    Within lo hi (f <$> m) mem ↔ Within lo hi m mem := by
  have hbind : f <$> m = m >>= fun b => pure (f b) := rfl
  rw [hbind, within_bind]
  exact and_iff_left (within_pure _)

/-- A range that reads something must lie in the interval. -/
@[simp] theorem within_read :
    Within lo hi (read off len) mem ↔ len = 0 ∨ lo ≤ off ∧ off + len ≤ hi := by
  have hlog : log (read off len) mem = [(off, len)] := rfl
  rw [Within, hlog, List.forall_mem_singleton]
  constructor
  · intro h
    rcases Nat.eq_zero_or_pos len with hzero | hpos
    · exact .inl hzero
    · have hfirst := h 0 hpos
      have hlast := h (len - 1) (by omega)
      exact .inr ⟨by omega, by omega⟩
  · intro h i hi
    have hi' : i < len := hi
    omega

/-- An array is one long range. -/
@[simp] theorem within_readArray {width : ℕ} (hwidth : 0 < width) (n : ℕ) :
    Within lo hi (readArray width off n) mem ↔ n = 0 ∨ lo ≤ off ∧ off + width * n ≤ hi := by
  induction n generalizing off with
  | zero => simp [readArray]
  | succ n ih =>
    have hmul : width * (n + 1) = width * n + width := Nat.mul_succ width n
    simp [readArray, ih]
    rcases Nat.eq_zero_or_pos n with hzero | hpos
    · subst hzero
      omega
    · have hle : width ≤ width * n := Nat.le_mul_of_pos_right width hpos
      omega

end ReadLog

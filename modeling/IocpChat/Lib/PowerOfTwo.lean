import Mathlib.Data.Nat.Bitwise

/-!
# Rounding up to a power of two by shifts

Or-ing a number with itself shifted right by 1, 2, 4, … spreads its leading bit over all
lower places.  `Spread` says how far the bits have been spread; a step doubles it.  Once it
covers the whole number, all places up to the leading bit are set, and adding one gives a
power of two.

## Main definitions

* `Spread` — each bit is spread over the places below it.
-/

namespace PowerOfTwo

variable {n m w : ℕ}

/-- The bits of `m` are those of `n`, spread over `w` places. -/
def Spread (n w m : ℕ) : Prop := ∀ i, m.testBit i = true ↔ ∃ d < w, n.testBit (i + d) = true

theorem spread_one (n : ℕ) : Spread n 1 n := by
  intro i
  simp

/-- **A shift doubles the spread.** -/
theorem Spread.double (h : Spread n w m) : Spread n (2 * w) (m ||| m >>> w) := by
  intro i
  rw [Nat.testBit_or, Nat.testBit_shiftRight, Bool.or_eq_true, h, h]
  constructor
  · rintro (⟨d, hd, hbit⟩ | ⟨d, hd, hbit⟩)
    · exact ⟨d, by omega, hbit⟩
    · refine ⟨w + d, by omega, ?_⟩
      rwa [show i + (w + d) = w + i + d by omega]
  · rintro ⟨d, hd, hbit⟩
    by_cases hlt : d < w
    · exact .inl ⟨d, hlt, hbit⟩
    · refine .inr ⟨d - w, by omega, ?_⟩
      rwa [show w + i + (d - w) = i + d by omega]

/-- **A number whose bits are spread over all its places** is one less than a power of two. -/
theorem Spread.add_one (h : Spread n w m) (hn : n ≠ 0) (hw : n < 2 ^ w) :
    m + 1 = 2 ^ (n.log2 + 1) := by
  have hlog : n.log2 < w := (Nat.log2_lt hn).mpr hw
  have hm : m = 2 ^ (n.log2 + 1) - 1 := by
    apply Nat.eq_of_testBit_eq
    intro i
    rw [Nat.testBit_two_pow_sub_one, Bool.eq_iff_iff, h, decide_eq_true_iff]
    constructor
    · rintro ⟨d, -, hbit⟩
      have hle := Nat.ge_two_pow_of_testBit hbit
      have := (Nat.le_log2 hn).mpr hle
      omega
    · intro hi
      refine ⟨n.log2 - i, by omega, ?_⟩
      rw [show i + (n.log2 - i) = n.log2 by omega]
      exact Nat.testBit_log2 hn
  have hpos : 0 < 2 ^ (n.log2 + 1) := Nat.two_pow_pos _
  omega

end PowerOfTwo

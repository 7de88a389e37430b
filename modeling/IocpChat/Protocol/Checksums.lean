import Mathlib.Algebra.Group.Nat.Defs
import Mathlib.Data.Fintype.EquivFin
import IocpChat.Protocol.CRC32C

/-!
# What the checksum finds, and where its two bodies agree

The state of the table-driven loop and the byte it takes in are exclusive-ored; the low byte
of that picks an entry of the table, and the rest is shifted down.  The bitwise step does the
same with eight divisions of the low byte in place of the entry, since the division is linear
(`mmCrc32U8_eq`).  So the two bodies differ in their tables only.

No two entries of the table have the same upper byte.  This is all that is needed for the loop
to find every change of one byte: a state that differs stays different (`tableStep_inj`).

## Main definitions

* `CRC32C.castagnoli` — the entry that the table should have.
* `CRC32C.Covered` — a buffer that only uses entries the table has right.
-/

namespace IocpChat

namespace CRC32C

/-! ## Words and their low bytes -/

theorem toNat_and_255 (x : UInt32) : (x &&& 0xFF).toNat = x.toNat % 256 := by
  rw [UInt32.toNat_and]
  exact Nat.and_two_pow_sub_one_eq_mod x.toNat 8

theorem toNat_shiftRight_8 (x : UInt32) : (x >>> 8).toNat = x.toNat / 256 := by
  rw [UInt32.toNat_shiftRight]
  exact Nat.shiftRight_eq_div_pow x.toNat 8

theorem eq_of_low_of_high {x y : UInt32} (hlow : x &&& 0xFF = y &&& 0xFF) (hhigh : x >>> 8 = y >>> 8) :
    x = y := by
  have hmod := congrArg UInt32.toNat hlow
  have hdiv := congrArg UInt32.toNat hhigh
  rw [toNat_and_255, toNat_and_255] at hmod
  rw [toNat_shiftRight_8, toNat_shiftRight_8] at hdiv
  apply UInt32.toNat_inj.mp
  omega

theorem xor_shiftRight (crc : UInt32) (b : UInt8) : (crc ^^^ b.toUInt32) >>> 8 = crc >>> 8 := by
  have hbyte : b.toUInt32 >>> 8 = 0 := by
    apply UInt32.toNat_inj.mp
    have hlt := b.toNat_lt
    rw [toNat_shiftRight_8, UInt8.toNat_toUInt32, UInt32.toNat_zero]
    omega
  rw [UInt32.shiftRight_xor, hbyte, UInt32.xor_zero]

/-- The index of the table entry that a step uses. -/
def index (crc : UInt32) (b : UInt8) : ℕ := ((crc ^^^ b.toUInt32) &&& 0xFF).toNat

theorem index_lt (crc : UInt32) (b : UInt8) : index crc b < 256 := by
  rw [index, toNat_and_255]
  exact Nat.mod_lt _ (by decide)

/-! ## The entries of the table -/

/-- The set of the numbers in a list, as a bit mask. -/
def bits (numbers : List ℕ) : ℕ := numbers.foldr (fun n mask => mask ||| 1 <<< n) 0

theorem testBit_bits (numbers : List ℕ) (n : ℕ) : (bits numbers).testBit n = true ↔ n ∈ numbers := by
  induction numbers with
  | nil => simp [bits]
  | cons m numbers ih =>
    have hcons : bits (m :: numbers) = bits numbers ||| 1 <<< m := rfl
    rw [hcons, Nat.testBit_or, Bool.or_eq_true, ih, List.mem_cons, Nat.one_shiftLeft,
      Nat.testBit_two_pow, decide_eq_true_eq, eq_comm, or_comm]

def upper (i : ℕ) : ℕ := (kCrc32cTable.getD i 0).toNat / 2 ^ 24

theorem size_table : kCrc32cTable.size = 256 := by decide +kernel

theorem map_upper : kCrc32cTable.toList.map (fun x => x.toNat / 2 ^ 24) = (List.range 256).map upper := by
  apply List.ext_getElem
  · simp [size_table]
  · intro i hi _
    simp only [List.length_map, Array.length_toList] at hi
    simp [upper, Array.getD, hi]

/-- The upper bytes of the entries are all of the bytes, so no two are the same. -/
theorem upper_injOn {i j : ℕ} (hi : i < 256) (hj : j < 256) (h : upper i = upper j) : i = j := by
  have hmask : bits (kCrc32cTable.toList.map fun x => x.toNat / 2 ^ 24) =
      bits (List.range 256) := by decide +kernel
  have hall : ∀ n < 256, ∃ i < 256, upper i = n := by
    intro n hn
    have hbit : (bits (List.range 256)).testBit n = true := by
      rw [testBit_bits]
      exact List.mem_range.mpr hn
    rw [← hmask, testBit_bits, map_upper] at hbit
    simpa using hbit
  have hlt : ∀ i, upper i < 256 := by
    intro i
    have := (kCrc32cTable.getD i 0).toNat_lt
    rw [upper]
    omega
  have hsurj : Function.Surjective (fun i : Fin 256 => (⟨upper i, hlt i⟩ : Fin 256)) := by
    intro n
    obtain ⟨i, hi, hupper⟩ := hall n n.isLt
    exact ⟨⟨i, hi⟩, Fin.ext hupper⟩
  have hinj := Finite.injective_iff_surjective.mpr hsurj
  have heq : (⟨i, hi⟩ : Fin 256) = ⟨j, hj⟩ := hinj (Fin.ext h)
  exact Fin.mk.inj heq

/-! ## The table-driven loop -/

theorem upper_tableStep (crc : UInt32) (b : UInt8) :
    (tableStep crc b).toNat / 2 ^ 24 = upper (index crc b) := by
  rw [tableStep, UInt32.toNat_xor, upper, index, ← Nat.shiftRight_eq_div_pow,
    ← Nat.shiftRight_eq_div_pow, Nat.shiftRight_xor_distrib]
  have hzero : (crc >>> 8).toNat >>> 24 = 0 := by
    have := crc.toNat_lt
    rw [toNat_shiftRight_8, Nat.shiftRight_eq_div_pow]
    omega
  rw [hzero, Nat.xor_zero]

/-- **A step loses nothing**: the state and the byte, exclusive-ored, can be told from the
next state. -/
theorem tableStep_inj {s t : UInt32} {b c : UInt8} (h : tableStep s b = tableStep t c) :
    s ^^^ b.toUInt32 = t ^^^ c.toUInt32 := by
  have hindex : index s b = index t c := by
    refine upper_injOn (index_lt s b) (index_lt t c) ?_
    rw [← upper_tableStep, ← upper_tableStep, h]
  have hlow : (s ^^^ b.toUInt32) &&& 0xFF = (t ^^^ c.toUInt32) &&& 0xFF := UInt32.toNat_inj.mp hindex
  refine eq_of_low_of_high hlow ?_
  rw [xor_shiftRight, xor_shiftRight]
  rw [tableStep, tableStep, hlow] at h
  exact (UInt32.xor_right_inj _).mp h

theorem foldl_tableStep_injective (data : List UInt8) :
    Function.Injective fun crc => data.foldl tableStep crc := by
  induction data with
  | nil => exact fun _ _ h => h
  | cons b data ih =>
    intro s t h
    exact (UInt32.xor_left_inj _).mp (tableStep_inj (ih h))

/-- The checksum of two strings is the checksum of the second continued from the first's. -/
theorem computeSoftware_append (data rest : List UInt8) (crc : UInt32) :
    computeSoftware rest (computeSoftware data crc) = computeSoftware (data ++ rest) crc := by
  simp only [computeSoftware, UInt32.not_not, List.foldl_append]

theorem computeSoftware_ne {before after : List UInt8} {b c : UInt8} (h : b ≠ c) (crc : UInt32) :
    computeSoftware (before ++ b :: after) crc ≠ computeSoftware (before ++ c :: after) crc := by
  intro heq
  simp only [computeSoftware, UInt32.not_inj, List.foldl_append, List.foldl_cons] at heq
  have hstep := tableStep_inj (foldl_tableStep_injective after heq)
  exact h (UInt8.toUInt32_inj.mp ((UInt32.xor_right_inj _).mp hstep))

/-- **A change of one byte changes the checksum.** -/
theorem computeSoftware_set_ne {data : List UInt8} {i : ℕ} {b : UInt8} (hi : i < data.length)
    (hne : data[i]? ≠ some b) (crc : UInt32) :
    computeSoftware (data.set i b) crc ≠ computeSoftware data crc := by
  rw [List.getElem?_eq_getElem hi] at hne
  have hset : data.set i b = data.take i ++ b :: data.drop (i + 1) := List.set_eq_take_cons_drop b hi
  have hsame : data = data.take i ++ data[i] :: data.drop (i + 1) := by
    rw [List.getElem_cons_drop hi, List.take_append_drop]
  rw [hset]
  conv_rhs => rw [hsame]
  refine computeSoftware_ne ?_ crc
  intro heq
  exact hne (heq ▸ rfl)

/-! ## The bitwise step -/

theorem and_one_eq_one_iff (x : UInt32) : x &&& 1 = 1 ↔ x.toNat % 2 = 1 := by
  rw [← UInt32.toNat_inj, UInt32.toNat_and, UInt32.toNat_one, Nat.and_one_is_mod]

theorem toNat_xor_mod_two (x y : UInt32) :
    (x ^^^ y).toNat % 2 = 1 ↔ ¬ (x.toNat % 2 = 1 ↔ y.toNat % 2 = 1) := by
  rw [UInt32.toNat_xor, Nat.xor_mod_two_eq_one]

theorem castagnoliBit_xor (x y : UInt32) :
    castagnoliBit (x ^^^ y) = castagnoliBit x ^^^ castagnoliBit y := by
  have hcancel : ∀ a b c : UInt32, a ^^^ c ^^^ (b ^^^ c) = a ^^^ b := by
    intro a b c
    rw [UInt32.xor_assoc, UInt32.xor_comm b c, ← UInt32.xor_assoc c, UInt32.xor_self,
      UInt32.zero_xor]
  simp only [castagnoliBit, and_one_eq_one_iff, toNat_xor_mod_two, UInt32.shiftRight_xor]
  by_cases hx : x.toNat % 2 = 1
  · by_cases hy : y.toNat % 2 = 1
    · simp [hx, hy, hcancel]
    · simp [hx, hy]
      ac_rfl
  · by_cases hy : y.toNat % 2 = 1
    · simp [hx, hy]
      ac_rfl
    · simp [hx, hy]

/-- The entry that the table should have: eight bits of the division. -/
def castagnoli (x : UInt32) : UInt32 := castagnoliBit^[8] x

theorem iterate_castagnoliBit_xor (n : ℕ) (x y : UInt32) :
    castagnoliBit^[n] (x ^^^ y) = castagnoliBit^[n] x ^^^ castagnoliBit^[n] y := by
  induction n generalizing x y with
  | zero => rfl
  | succ n ih => simp only [Function.iterate_succ_apply, castagnoliBit_xor, ih]

theorem iterate_castagnoliBit_of_dvd {n k : ℕ} {x : UInt32} (h : x.toNat = 2 ^ n * k) :
    (castagnoliBit^[n] x).toNat = k := by
  induction n generalizing x with
  | zero => simpa using h
  | succ n ih =>
    have hdouble : x.toNat = 2 * (2 ^ n * k) := by
      rw [h, Nat.pow_succ, Nat.mul_comm (2 ^ n) 2, Nat.mul_assoc]
    have heven : ¬ x &&& 1 = 1 := by
      rw [and_one_eq_one_iff]
      omega
    rw [Function.iterate_succ_apply, castagnoliBit, if_neg heven]
    apply ih
    rw [UInt32.toNat_shiftRight, hdouble]
    exact (Nat.shiftRight_eq_div_pow _ 1).trans (Nat.mul_div_cancel_left _ (by decide))

theorem toNat_high (x : UInt32) : ((x >>> 8) <<< 8).toNat = 2 ^ 8 * (x.toNat / 256) := by
  have hlt := x.toNat_lt
  rw [UInt32.toNat_shiftLeft, toNat_shiftRight_8]
  change (x.toNat / 256) <<< 8 % 2 ^ 32 = _
  rw [Nat.shiftLeft_eq]
  omega

theorem low_xor_high (x : UInt32) : (x &&& (0xFF : UInt32)) ^^^ ((x >>> 8) <<< 8) = x := by
  refine eq_of_low_of_high ?_ ?_
  · apply UInt32.toNat_inj.mp
    rw [toNat_and_255, toNat_and_255, UInt32.toNat_xor, toNat_and_255, toNat_high,
      show 256 = 2 ^ 8 from rfl, Nat.xor_mod_two_pow, Nat.mul_mod_right, Nat.xor_zero, Nat.mod_mod]
  · apply UInt32.toNat_inj.mp
    have hhigh : 2 ^ 8 * (x.toNat / 256) / 256 = x.toNat / 256 :=
      Nat.mul_div_cancel_left _ (by decide)
    rw [UInt32.shiftRight_xor, UInt32.toNat_xor, toNat_shiftRight_8, toNat_shiftRight_8,
      toNat_shiftRight_8, toNat_and_255, toNat_high, hhigh,
      Nat.div_eq_of_lt (Nat.mod_lt _ (by decide)), Nat.zero_xor]

theorem castagnoli_eq (x : UInt32) : castagnoli x = castagnoli (x &&& 0xFF) ^^^ (x >>> 8) := by
  have hhigh : castagnoli ((x >>> 8) <<< 8) = x >>> 8 := by
    apply UInt32.toNat_inj.mp
    rw [toNat_shiftRight_8]
    exact iterate_castagnoliBit_of_dvd (toNat_high x)
  have hsplit := iterate_castagnoliBit_xor 8 (x &&& 0xFF) ((x >>> 8) <<< 8)
  rw [low_xor_high] at hsplit
  rw [castagnoli, hsplit, ← castagnoli, ← castagnoli, hhigh]

/-- **The bitwise step is a step with the right table.** -/
theorem mmCrc32U8_eq (crc : UInt32) (b : UInt8) :
    mmCrc32U8 crc b = castagnoli (UInt32.ofNat (index crc b)) ^^^ (crc >>> 8) := by
  rw [index, UInt32.ofNat_toNat, ← xor_shiftRight crc b]
  exact castagnoli_eq _

theorem entry_eq_iff {i : ℕ} (hi : i < 256) :
    kCrc32cTable.getD i 0 = castagnoli (UInt32.ofNat i) ↔ i < 4 := by
  have hall : (kCrc32cTable.toList.zipIdx.all fun entry =>
      decide (entry.1 = castagnoli (UInt32.ofNat entry.2) ↔ entry.2 < 4)) = true := by decide +kernel
  have hmem : (kCrc32cTable.getD i 0, i) ∈ kCrc32cTable.toList.zipIdx := by
    rw [List.mem_zipIdx_iff_getElem?]
    simp [Array.getD, size_table, hi]
  have hentry := List.all_eq_true.mp hall _ hmem
  simpa using hentry

theorem tableStep_eq_iff (crc : UInt32) (b : UInt8) :
    tableStep crc b = mmCrc32U8 crc b ↔ index crc b < 4 := by
  rw [mmCrc32U8_eq, tableStep, UInt32.xor_left_inj]
  exact entry_eq_iff (index_lt crc b)

/-! ## The two bodies -/

theorem hardwareLoop_eq (crc : UInt32) (data : List UInt8) :
    hardwareLoop crc data = data.foldl mmCrc32U8 crc := by
  fun_induction hardwareLoop crc data with
  | case1 crc b₀ b₁ b₂ b₃ b₄ b₅ b₆ b₇ rest ih =>
    rw [ih]
    simp [mmCrc32U64]
  | case2 => rfl

/-- The inversions at a seam cancel, and the instruction on eight bytes takes in one after the
other, so neither body can tell where a string was cut. -/
theorem compute_append (hw : Bool) (data rest : List UInt8) (crc : UInt32) :
    compute hw rest (compute hw data crc) = compute hw (data ++ rest) crc := by
  cases hw with
  | false => exact computeSoftware_append data rest crc
  | true =>
    simp only [compute, if_true, computeHardware, UInt32.not_not, hardwareLoop_eq,
      List.foldl_append]

theorem compute_nil (hw : Bool) (crc : UInt32) : compute hw [] crc = crc := by
  cases hw with
  | false => simp [compute, computeSoftware]
  | true => simp [compute, computeHardware, hardwareLoop_eq]

/-- Every byte of the buffer uses one of the first four entries: exclusive-ored with the state
before it, its low byte is less than 4. -/
def Covered : UInt32 → List UInt8 → Prop
  | _, [] => True
  | crc, b :: data => index crc b < 4 ∧ Covered (mmCrc32U8 crc b) data

theorem forall_take_eq_iff (crc : UInt32) (data : List UInt8) :
    (∀ n, (data.take n).foldl tableStep crc = (data.take n).foldl mmCrc32U8 crc) ↔
      Covered crc data := by
  induction data generalizing crc with
  | nil => simp [Covered]
  | cons b data ih =>
    rw [Covered, ← ih, ← tableStep_eq_iff]
    constructor
    · intro h
      have hfirst : tableStep crc b = mmCrc32U8 crc b := by simpa using h 1
      refine ⟨hfirst, ?_⟩
      intro n
      have hnext := h (n + 1)
      simpa [hfirst] using hnext
    · rintro ⟨hfirst, hrest⟩ n
      cases n with
      | zero => rfl
      | succ n => simpa [hfirst] using hrest n

/-- **Where the two bodies agree.**  They return the same for a buffer and all its beginnings
just if every byte uses one of the first four entries. -/
theorem compute_agree_iff (data : List UInt8) (crc : UInt32) :
    (∀ n, computeSoftware (data.take n) crc = computeHardware (data.take n) crc) ↔
      Covered (~~~ crc) data := by
  simp only [computeSoftware, computeHardware, UInt32.not_inj, hardwareLoop_eq]
  exact forall_take_eq_iff _ _

/-- **They disagree on one zero byte**, and on the twelve header bytes that the checksum of an
empty `PKT_LOGOUT` packet covers. -/
theorem compute_disagree :
    computeSoftware [0] 0 ≠ computeHardware [0] 0 ∧
      computeSoftware [0xD5, 1, 0, 2, 0, 0, 0, 0, 0, 0, 0, 0] 0 ≠
        computeHardware [0xD5, 1, 0, 2, 0, 0, 0, 0, 0, 0, 0, 0] 0 := by decide +kernel

end CRC32C

end IocpChat

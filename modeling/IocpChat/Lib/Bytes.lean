import Mathlib.Data.Nat.Digits.Lemmas

/-!
# Byte strings in fixed memory, and packed binary layouts

Three small theories that any development over wire formats needs.

* Memory: `slice` reads a range of a list, `overwrite` copies a string over a
  range of it.  Both are total; a write that leaves the list keeps the part
  that fits, so the length never changes.
* Big-endian naturals: `beEncode w n` is the `w`-byte form of `n`, `beDecode`
  reads any byte string.  The values are Mathlib's `Nat.ofDigits` in base 256.
* Packed layouts: a `Codec` is a fixed-width encoding with its round trip, and
  `Codec.pair`, `Codec.iso` build the codec of a packed record from the codecs
  of its fields.

## Main definitions

* `slice`, `overwrite` — reading and writing a range.
* `hexString` — hexadecimal digits.
* `beEncode`, `beDecode` — big-endian naturals.
* `Codec` — fixed-width encodings that decode whatever follows them.
-/

namespace Bytes

/-! ## Ranges of a list -/

section Memory

variable {α : Type*}

/-- The `len` entries of `xs` from position `off` on; fewer when `xs` is short. -/
def slice (xs : List α) (off len : ℕ) : List α := (xs.drop off).take len

/-- `xs` with `src` copied over the positions from `off` on. -/
def overwrite (xs : List α) (off : ℕ) (src : List α) : List α :=
  xs.mapIdx fun i x => if off ≤ i then (src[i - off]?).getD x else x

@[simp] theorem length_overwrite (xs : List α) (off : ℕ) (src : List α) :
    (overwrite xs off src).length = xs.length := by
  simp [overwrite]

/-- What a copied-over list holds, position by position. -/
theorem getElem?_overwrite (xs : List α) (off : ℕ) (src : List α) (i : ℕ) :
    (overwrite xs off src)[i]? =
      if i < xs.length then
        if off ≤ i ∧ i < off + src.length then src[i - off]? else xs[i]?
      else none := by
  rw [overwrite, List.getElem?_mapIdx]
  by_cases hi : i < xs.length
  · rw [List.getElem?_eq_getElem hi]
    by_cases ho : off ≤ i
    · by_cases hs : i - off < src.length
      · have hin : off ≤ i ∧ i < off + src.length := by omega
        simp [hi, ho, hin, hs]
      · rw [if_pos hi, if_neg (by omega), List.getElem?_eq_none (by omega : src.length ≤ i - off)]
        simp
    · simp [hi, ho]
  · simp [hi]

theorem getElem?_slice (xs : List α) (off len i : ℕ) :
    (slice xs off len)[i]? = if i < len then xs[off + i]? else none := by
  rw [slice, List.getElem?_take, List.getElem?_drop]

/-- A copied string is read back from where it was copied to. -/
theorem slice_overwrite_self (xs : List α) (off : ℕ) (src : List α)
    (h : off + src.length ≤ xs.length) :
    slice (overwrite xs off src) off src.length = src := by
  apply List.ext_getElem?
  intro i
  rw [getElem?_slice]
  by_cases hi : i < src.length
  · rw [if_pos hi, getElem?_overwrite, if_pos (by omega), if_pos (by omega),
      Nat.add_sub_cancel_left]
  · rw [if_neg hi, List.getElem?_eq_none (by omega)]

/-- A copy leaves every range it does not meet as it was. -/
theorem slice_overwrite_of_disjoint (xs : List α) (off : ℕ) (src : List α) (o len : ℕ)
    (h : o + len ≤ off ∨ off + src.length ≤ o) :
    slice (overwrite xs off src) o len = slice xs o len := by
  apply List.ext_getElem?
  intro i
  rw [getElem?_slice, getElem?_slice]
  by_cases hi : i < len
  · rw [if_pos hi, if_pos hi, getElem?_overwrite]
    by_cases hx : o + i < xs.length
    · rw [if_pos hx, if_neg (by omega)]
    · rw [if_neg hx, List.getElem?_eq_none (by omega)]
  · rw [if_neg hi, if_neg hi]

/-- Two copies side by side are one copy of the concatenation. -/
theorem overwrite_overwrite (xs : List α) (off : ℕ) (a b : List α) :
    overwrite (overwrite xs off a) (off + a.length) b = overwrite xs off (a ++ b) := by
  apply List.ext_getElem?
  intro i
  simp [getElem?_overwrite]
  by_cases hi : i < xs.length
  · simp only [if_pos hi]
    by_cases hb : off + a.length ≤ i ∧ i < off + a.length + b.length
    · rw [if_pos hb, if_pos (by omega), List.getElem?_append_right (by omega)]
      congr 1
      omega
    · rw [if_neg hb]
      by_cases ha : off ≤ i ∧ i < off + a.length
      · rw [if_pos ha, if_pos (by omega), List.getElem?_append_left (by omega)]
      · rw [if_neg ha, if_neg (by omega)]
  · simp only [if_neg hi]

/-- A copy that fits is what is before it, the string, and what is after it. -/
theorem overwrite_eq_append (xs : List α) (off : ℕ) (src : List α)
    (h : off + src.length ≤ xs.length) :
    overwrite xs off src = xs.take off ++ src ++ xs.drop (off + src.length) := by
  apply List.ext_getElem?
  intro i
  have hoff : (xs.take off).length = off := by
    rw [List.length_take]
    omega
  rw [getElem?_overwrite]
  by_cases hi : i < off
  · rw [List.getElem?_append_left (by rw [List.length_append]; omega),
      List.getElem?_append_left (by omega), List.getElem?_take_of_lt hi, if_pos (by omega),
      if_neg (by omega)]
  · by_cases hs : i < off + src.length
    · rw [List.getElem?_append_left (by rw [List.length_append]; omega),
        List.getElem?_append_right (by omega), hoff, if_pos (by omega), if_pos (by omega)]
    · rw [List.getElem?_append_right (by rw [List.length_append]; omega), List.getElem?_drop,
        List.length_append, hoff]
      have hidx : off + src.length + (i - (off + src.length)) = i := by omega
      rw [hidx]
      by_cases hx : i < xs.length
      · rw [if_pos hx, if_neg (by omega)]
      · rw [if_neg hx, List.getElem?_eq_none (by omega)]

@[simp] theorem overwrite_nil (xs : List α) (off : ℕ) : overwrite xs off [] = xs := by
  apply List.ext_getElem?
  intro i
  rw [getElem?_overwrite]
  by_cases hi : i < xs.length
  · rw [if_pos hi, if_neg (by simp)]
  · rw [if_neg hi, List.getElem?_eq_none (by omega)]

theorem slice_append_slice (xs : List α) (off a b : ℕ) :
    slice xs off a ++ slice xs (off + a) b = slice xs off (a + b) := by
  rw [slice, slice, slice, ← List.drop_drop, List.take_add]

theorem slice_zero (xs : List α) (len : ℕ) : slice xs 0 len = xs.take len := by
  rw [slice, List.drop_zero]

@[simp] theorem slice_length_zero (xs : List α) (off : ℕ) : slice xs off 0 = [] := by
  simp [slice]

/-- A slice of a slice that stays inside it. -/
theorem slice_slice (xs : List α) (off len o l : ℕ) (h : o + l ≤ len) :
    slice (slice xs off len) o l = slice xs (off + o) l := by
  apply List.ext_getElem?
  intro i
  simp only [getElem?_slice]
  by_cases hi : i < l
  · rw [if_pos hi, if_pos hi, if_pos (by omega), Nat.add_assoc]
  · rw [if_neg hi, if_neg hi]

/-- Ranges inside a known beginning of a list. -/
theorem slice_of_take_eq {xs w : List α} {n : ℕ} (h : xs.take n = w) (o l : ℕ) (hn : o + l ≤ n) :
    slice xs o l = slice w o l := by
  rw [← h, ← slice_zero, slice_slice _ _ _ _ _ hn, Nat.zero_add]

/-- Copying a string to the start makes it the beginning. -/
theorem take_overwrite_zero (xs src : List α) (h : src.length ≤ xs.length) :
    (overwrite xs 0 src).take src.length = src := by
  rw [← slice_zero, slice_overwrite_self _ _ _ (by omega)]

/-- The middle of three strings. -/
theorem slice_eq_middle {xs a b c : List α} {off len : ℕ} (h : xs = a ++ b ++ c)
    (hoff : off = a.length) (hlen : len = b.length) : slice xs off len = b := by
  subst h hoff hlen
  simp [slice]

theorem slice_append_left (a b : List α) : slice (a ++ b) 0 a.length = a := by
  simp [slice]

theorem slice_append_right (a b : List α) : slice (a ++ b) a.length b.length = b := by
  simp [slice]

end Memory

/-! ## Texts of two characters for each element -/

/-- A text that gives each element by two characters can be read back, if these tell the
element. -/
theorem flatMap_pair_injective {α β : Type*} {f g : α → β}
    (h : ∀ a b, f a = f b → g a = g b → a = b) :
    Function.Injective fun as : List α => as.flatMap fun a => [f a, g a] := by
  intro as
  induction as with
  | nil =>
    intro bs heq
    cases bs with
    | nil => rfl
    | cons b bs => simp at heq
  | cons a as ih =>
    intro bs heq
    cases bs with
    | nil => simp at heq
    | cons b bs =>
      simp at heq
      rw [h a b heq.1 heq.2.1, ih heq.2.2]

/-- The two characters of the `i`-th element. -/
theorem slice_flatMap_pair {α β : Type*} (f g : α → β) (as : List α) {i : ℕ} (hi : i < as.length) :
    slice (as.flatMap fun a => [f a, g a]) (i * 2) 2 = [f as[i], g as[i]] := by
  induction as generalizing i with
  | nil => simp at hi
  | cons a as ih =>
    cases i with
    | zero => simp [slice]
    | succ i =>
      have hrest := ih (Nat.lt_of_succ_lt_succ hi)
      rw [slice] at hrest ⊢
      rw [Nat.succ_mul]
      simpa using hrest

/-- A text is taken two characters at a time, and each pair is made two characters again. -/
theorem flatMap_pair_ofFn {α β : Type*} {f g : α → β} {read : List β → α} {write : β → β}
    {allowed : β → Prop} (hread : ∀ a b, allowed a → allowed b →
      f (read [a, b]) = write a ∧ g (read [a, b]) = write b)
    {n : ℕ} {text : List β} (hlength : text.length = n * 2) (hallowed : ∀ c ∈ text, allowed c) :
    ((List.ofFn fun i : Fin n => read (slice text (i.val * 2) 2)).flatMap fun a => [f a, g a]) =
      text.map write := by
  induction n generalizing text with
  | zero =>
    have hnil : text = [] := List.eq_nil_of_length_eq_zero (by simpa using hlength)
    simp [hnil]
  | succ n ih =>
    cases text with
    | nil =>
      rw [List.length_nil] at hlength
      omega
    | cons a text =>
      cases text with
      | nil =>
        rw [List.length_singleton] at hlength
        omega
      | cons b text =>
        have hrest : text.length = n * 2 := by
          simp only [List.length_cons] at hlength
          omega
        have hpair := hread a b (hallowed a (by simp)) (hallowed b (by simp))
        have hslice : ∀ i : Fin n,
            slice (a :: b :: text) (i.succ.val * 2) 2 = slice text (i.val * 2) 2 := by
          intro i
          simp [slice, Nat.succ_mul]
        have hfirst : slice (a :: b :: text) 0 2 = [a, b] := by simp [slice]
        simp only [List.ofFn_succ, hslice, Fin.val_zero, Nat.zero_mul, hfirst,
          List.flatMap_cons, hpair.1, hpair.2, List.map_cons]
        rw [ih hrest fun c hc => hallowed c (by simp [hc])]
        rfl

/-! ## Bytes -/

/-- What holds for the numbers below 256 holds for the bytes. -/
theorem forall_byte {P : UInt8 → Prop} (h : ∀ n < 256, P (UInt8.ofNat n)) (b : UInt8) : P b := by
  have hb := h b.toNat b.toNat_lt
  rwa [UInt8.ofNat_toNat] at hb

/-! ## The halves of a byte -/

theorem shiftRight_four (b : UInt8) : b >>> 4 = b / 16 := by
  rw [← UInt8.toNat_inj]
  simp [Nat.shiftRight_eq_div_pow]

theorem and_fifteen (b : UInt8) : b &&& 0x0F = b % 16 := by
  rw [← UInt8.toNat_inj, UInt8.toNat_and, UInt8.toNat_mod]
  exact Nat.and_two_pow_sub_one_eq_mod b.toNat 4

/-- The digits of the two halves tell a byte, if they tell the halves. -/
theorem eq_of_halves {digit : UInt8 → UInt8} {b c : UInt8}
    (hdigit : ∀ m < 16, ∀ n < 16, digit (UInt8.ofNat m) = digit (UInt8.ofNat n) → m = n)
    (hhigh : digit (b / 16) = digit (c / 16)) (hlow : digit (b % 16) = digit (c % 16)) : b = c := by
  have hdiv : ∀ d : UInt8, d / 16 = UInt8.ofNat (d.toNat / 16) := by
    intro d
    have hd := UInt8.toNat_lt d
    rw [← UInt8.toNat_inj]
    simp
    omega
  have hmod : ∀ d : UInt8, d % 16 = UInt8.ofNat (d.toNat % 16) := by
    intro d
    rw [← UInt8.toNat_inj]
    simp
    omega
  have hb := UInt8.toNat_lt b
  have hc := UInt8.toNat_lt c
  rw [hdiv b, hdiv c] at hhigh
  rw [hmod b, hmod c] at hlow
  have hhigh := hdigit _ (by omega) _ (by omega) hhigh
  have hlow := hdigit _ (by omega) _ (by omega) hlow
  apply UInt8.toNat_inj.mp
  omega

def hexDigit (d : UInt8) : UInt8 := if d < 10 then 48 + d else 87 + d

/-- Bytes in hexadecimal digits. -/
def hexString (bytes : List UInt8) : List UInt8 :=
  bytes.flatMap fun b => [hexDigit (b / 16), hexDigit (b % 16)]

theorem hexString_injective : Function.Injective hexString :=
  flatMap_pair_injective fun _ _ => eq_of_halves (by decide)

/-! ## Big-endian naturals -/

/-- The number a byte string spells, most significant byte first. -/
def beDecode (bs : List UInt8) : ℕ := Nat.ofDigits 256 (bs.reverse.map UInt8.toNat)

/-- The `w` low bytes of `n`, most significant first. -/
def beEncode : ℕ → ℕ → List UInt8
  | 0, _ => []
  | w + 1, n => beEncode w (n / 256) ++ [UInt8.ofNat (n % 256)]

@[simp] theorem length_beEncode (w n : ℕ) : (beEncode w n).length = w := by
  induction w generalizing n with
  | zero => rfl
  | succ w ih => simp [beEncode, ih]

theorem beDecode_append_singleton (bs : List UInt8) (b : UInt8) :
    beDecode (bs ++ [b]) = b.toNat + 256 * beDecode bs := by
  simp [beDecode, Nat.ofDigits_cons]

/-- Decoding an encoding gives the number back, up to the width. -/
theorem beDecode_beEncode (w n : ℕ) : beDecode (beEncode w n) = n % 256 ^ w := by
  induction w generalizing n with
  | zero => simp [beEncode, beDecode, Nat.mod_one]
  | succ w ih =>
    have hb : (UInt8.ofNat (n % 256)).toNat = n % 256 := by
      rw [UInt8.toNat_ofNat']
      omega
    rw [beEncode, beDecode_append_singleton, ih, hb, pow_succ', Nat.mod_mul]

/-- Encoding a decoded string gives the string back. -/
theorem beEncode_beDecode (bs : List UInt8) : beEncode bs.length (beDecode bs) = bs := by
  induction bs using List.reverseRecOn with
  | nil => rfl
  | append_singleton bs b ih =>
    have hb := b.toNat_lt
    have hdiv : (b.toNat + 256 * beDecode bs) / 256 = beDecode bs := by omega
    have hmod : (b.toNat + 256 * beDecode bs) % 256 = b.toNat := by omega
    rw [List.length_append, List.length_singleton, beDecode_append_singleton, beEncode, hdiv,
      hmod, ih, UInt8.ofNat_toNat]

theorem beDecode_lt (bs : List UInt8) : beDecode bs < 256 ^ bs.length := by
  have h := Nat.ofDigits_lt_base_pow_length (b := 256) (l := bs.reverse.map UInt8.toNat)
    (by norm_num) (by
      intro x hx
      obtain ⟨b, _, rfl⟩ := List.mem_map.mp hx
      exact b.toNat_lt)
  simpa [beDecode] using h

/-! ## Packed layouts -/

/-- A fixed-width encoding.  `decode` looks at the first `width` bytes only, so
it undoes `encode` whatever bytes follow. -/
structure Codec (α : Type*) where
  /-- The number of bytes a value occupies. -/
  width : ℕ
  encode : α → List UInt8
  decode : List UInt8 → α
  length_encode : ∀ a, (encode a).length = width
  decode_encode : ∀ a rest, decode (encode a ++ rest) = a
  decode_take : ∀ bs, decode (bs.take width) = decode bs

namespace Codec

variable {α β : Type*}

attribute [simp] length_encode decode_encode

/-- One field after another, with no padding. -/
def pair (c : Codec α) (d : Codec β) : Codec (α × β) where
  width := c.width + d.width
  encode x := c.encode x.1 ++ d.encode x.2
  decode bs := (c.decode bs, d.decode (bs.drop c.width))
  length_encode x := by simp
  decode_encode x rest := by
    rw [List.append_assoc, decode_encode, List.drop_append_of_le_length (by simp)]
    simp [List.drop_of_length_le]
  decode_take bs := by
    rw [← c.decode_take, List.take_take, Nat.min_eq_left (Nat.le_add_right _ _), decode_take,
      List.drop_take, Nat.add_sub_cancel_left, decode_take]

/-- The same bytes, read as another type. -/
def iso (c : Codec α) (f : α → β) (g : β → α) (h : ∀ b, f (g b) = b) : Codec β where
  width := c.width
  encode b := c.encode (g b)
  decode bs := f (c.decode bs)
  length_encode b := by simp
  decode_encode b rest := by simp [h]
  decode_take bs := by rw [decode_take]

@[simp] theorem width_pair (c : Codec α) (d : Codec β) : (c.pair d).width = c.width + d.width := rfl
@[simp] theorem width_iso (c : Codec α) (f : α → β) (g : β → α) (h : ∀ b, f (g b) = b) :
    (c.iso f g h).width = c.width := rfl

/-- A big-endian word of `w` bytes whose values are the naturals below `256 ^ w`. -/
def be (w : ℕ) (toNat : α → ℕ) (ofNat : ℕ → α) (h : ∀ a, ofNat (toNat a % 256 ^ w) = a) :
    Codec α where
  width := w
  encode a := beEncode w (toNat a)
  decode bs := ofNat (beDecode (bs.take w))
  length_encode a := by simp
  decode_encode a rest := by
    rw [List.take_append_of_le_length (by simp), List.take_of_length_le (by simp),
      beDecode_beEncode, h]
  decode_take bs := by rw [List.take_take, Nat.min_self]

@[simp] theorem width_be (w : ℕ) (toNat : α → ℕ) (ofNat : ℕ → α)
    (h : ∀ a, ofNat (toNat a % 256 ^ w) = a) : (be w toNat ofNat h).width = w := rfl

/-- A block of `n` raw bytes.  A short string is padded with zeros. -/
def block (n : ℕ) : Codec (List.Vector UInt8 n) where
  width := n
  encode v := v.toList
  decode bs := ⟨(bs.take n).rightpad n 0, by simp [List.rightpad]⟩
  length_encode v := v.toList_length
  decode_encode v rest := by
    apply List.Vector.eq
    rw [List.Vector.toList_mk, List.take_append_of_le_length (by simp),
      List.take_of_length_le (by simp)]
    simp [List.rightpad]
  decode_take bs := by
    apply List.Vector.eq
    rw [List.Vector.toList_mk, List.Vector.toList_mk, List.take_take, Nat.min_self]

@[simp] theorem width_block (n : ℕ) : (block n).width = n := rfl

theorem encode_injective (c : Codec α) : Function.Injective c.encode := by
  intro a b h
  have hdecode := congrArg (fun bs => c.decode (bs ++ [])) h
  simpa only [decode_encode] using hdecode

/-- Strings that begin alike decode alike. -/
theorem decode_of_take_eq (c : Codec α) {bs cs : List UInt8} {n : ℕ} (h : bs.take n = cs.take n)
    (hn : c.width ≤ n) : c.decode bs = c.decode cs := by
  rw [← c.decode_take bs, ← c.decode_take cs, ← Nat.min_eq_left hn, ← List.take_take, h,
    List.take_take]

/-- Bytes behind a complete value do not matter. -/
theorem decode_append (c : Codec α) {bs : List UInt8} (h : c.width ≤ bs.length)
    (rest : List UInt8) : c.decode (bs ++ rest) = c.decode bs := by
  rw [← c.decode_take, List.take_append_of_le_length h, c.decode_take]

end Codec

end Bytes

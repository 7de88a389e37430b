import IocpChat.Lib.Bytes
import IocpChat.Lib.Words

/-!
# Records of the user table

`userInfo` of `datastructure/token/userInfo.h`, and the functions of `datastructure/table.h`
that make a record from a line and encipher it.

The functions work on a record in place, so the same bytes are plain at one line and
enciphered at another.  Here a record is its 280 bytes in memory, and its members are ranges
of them.  `crc32` is a parameter.

A `bool` is a byte that is 0 or 1.  To read one from another byte is undefined, so where
`writeTheData` reads the flag of an enciphered record it may find either value
(`UserInfo.readDeleted`).  All other flags are read from records that are plain; there a byte other
than zero is true.

## Main definitions

* `UserInfo`, `Field` — a record and its members.
* `parseInput`, `newRecord` — the record that a line describes.
* `cipher` — from plain to enciphered and back.
-/

namespace IocpChat

open Bytes Words

/-! ## Strings -/

def text (s : String) : List UInt8 := s.toUTF8.data.toList

/-- `std::isspace` in the default locale. -/
def isSpace (b : UInt8) : Bool := b = 32 || (9 ≤ b && b ≤ 13)

/-- `'0'` to `'9'`. -/
def isDigit (b : UInt8) : Bool := 48 ≤ b && b ≤ 57

/-- The first word of a line, if it has one. -/
def firstWord (line : List UInt8) : List UInt8 := (words isSpace line).headD []

/-- A string that a map is indexed by. -/
abbrev Key := List UInt8

/-! ## Records -/

/-- `sizeof(userInfo)`.  One byte before the checksum is padding. -/
def recordSize : ℕ := 280

/-- The bytes of a `userInfo`. -/
abbrev UserInfo := List.Vector UInt8 recordSize

/-- A member of `userInfo`: its offset and its size. -/
structure Field where
  off : ℕ
  len : ℕ
  fits : off + len ≤ recordSize

namespace Field

def userId : Field := ⟨0, 16, by decide⟩
def username : Field := ⟨16, 32, by decide⟩
def passwordHash : Field := ⟨48, 128, by decide⟩
def email : Field := ⟨176, 64, by decide⟩
def emailVerified : Field := ⟨240, 1, by decide⟩
def phoneHash : Field := ⟨241, 32, by decide⟩
def phoneDiscoverable : Field := ⟨273, 1, by decide⟩
def isDeleted : Field := ⟨274, 1, by decide⟩
def checksum : Field := ⟨276, 4, by decide⟩

def get (f : Field) (r : UserInfo) : List UInt8 := slice r.toList f.off f.len

/-- Copy bytes to the beginning of a member. -/
def put (f : Field) (bytes : List UInt8) (r : UserInfo) : UserInfo :=
  ⟨r.toList.take f.off ++ bytes.take f.len ++ r.toList.drop (f.off + min f.len bytes.length), by
    have := f.fits
    simp
    omega⟩

/-- `safeCopyBytes`. -/
def safeCopyBytes (f : Field) (src : List UInt8) (r : UserInfo) : UserInfo := f.put src r

/-- `safeCopy`, which ends the string. -/
def safeCopy (f : Field) (src : List UInt8) (r : UserInfo) : UserInfo :=
  f.put (src.take (f.len - 1) ++ [0]) r

def putBool (f : Field) (b : Bool) (r : UserInfo) : UserInfo := f.put [if b then 1 else 0] r

def getBool (f : Field) (r : UserInfo) : Bool := f.get r ≠ [0]

variable {f g : Field} {r : UserInfo} {bytes : List UInt8}

theorem toList_put : (f.put bytes r).toList = overwrite r.toList f.off (bytes.take f.len) := by
  have hfits := f.fits
  rw [overwrite_eq_append, List.length_take]
  · rfl
  · simp only [List.length_take, List.Vector.toList_length]
    omega

theorem get_put_of_disjoint (h : f.off + f.len ≤ g.off ∨ g.off + g.len ≤ f.off) :
    f.get (g.put bytes r) = f.get r := by
  rw [get, get, toList_put, slice_overwrite_of_disjoint]
  rw [List.length_take]
  omega

theorem get_safeCopyBytes_of_disjoint (h : f.off + f.len ≤ g.off ∨ g.off + g.len ≤ f.off) :
    f.get (g.safeCopyBytes bytes r) = f.get r := get_put_of_disjoint h

theorem get_safeCopy_of_disjoint (h : f.off + f.len ≤ g.off ∨ g.off + g.len ≤ f.off) :
    f.get (g.safeCopy bytes r) = f.get r := get_put_of_disjoint h

theorem get_putBool_of_disjoint {b : Bool} (h : f.off + f.len ≤ g.off ∨ g.off + g.len ≤ f.off) :
    f.get (g.putBool b r) = f.get r := get_put_of_disjoint h

theorem getBool_safeCopyBytes_of_disjoint
    (h : f.off + f.len ≤ g.off ∨ g.off + g.len ≤ f.off) :
    f.getBool (g.safeCopyBytes bytes r) = f.getBool r := by
  rw [getBool, getBool, get_safeCopyBytes_of_disjoint h]

theorem getBool_putBool_of_disjoint {b : Bool}
    (h : f.off + f.len ≤ g.off ∨ g.off + g.len ≤ f.off) :
    f.getBool (g.putBool b r) = f.getBool r := by
  rw [getBool, getBool, get_putBool_of_disjoint h]

theorem length_get : (f.get r).length = f.len := by
  have hfits := f.fits
  simp [get, slice]
  omega

/-- A copy that is shorter than the member leaves the rest of it as it was. -/
theorem get_put : f.get (f.put bytes r) = bytes.take f.len ++ (f.get r).drop bytes.length := by
  have hfits := f.fits
  have hoff : (r.toList.take f.off).length = f.off := by
    simp
    omega
  rw [get, slice, put, List.Vector.toList_mk, List.append_assoc, List.drop_left' hoff,
    List.take_append, List.take_take, Nat.min_self, List.length_take, get, slice, List.drop_take,
    List.drop_drop]
  rcases Nat.le_total f.len bytes.length with hle | hle
  · rw [Nat.min_eq_left hle, Nat.sub_self, Nat.sub_eq_zero_of_le hle, List.take_zero, List.take_zero]
  · rw [Nat.min_eq_right hle]

end Field

namespace UserInfo

/-- `toKey(rec.user_id, …)`: all bytes of the member. -/
def uid (r : UserInfo) : Key := Field.userId.get r

/-- `toKey(rec.email, …)`: the string that the member holds. -/
def email (r : UserInfo) : Key := (Field.email.get r).takeWhile (· ≠ 0)

def phone (r : UserInfo) : Key := Field.phoneHash.get r

def isDeleted (r : UserInfo) : Bool := Field.isDeleted.getBool r

/-- What a read of the flag gives, and `undefined` if the byte is not that of a `bool`. -/
def readDeleted (undefined : Bool) (r : UserInfo) : Bool :=
  if Field.isDeleted.get r = [0] then false
  else if Field.isDeleted.get r = [1] then true
  else undefined

/-- A record that is value-initialised. -/
def zero : UserInfo := .replicate recordSize 0

end UserInfo

/-- What a member of `len` bytes that were zero holds after a copy. -/
def fill (len : ℕ) (src : List UInt8) : List UInt8 :=
  src.take len ++ List.replicate (len - src.length) 0

@[simp] theorem length_fill (len : ℕ) (src : List UInt8) : (fill len src).length = len := by
  simp [fill]
  omega

theorem getElem?_fill (len : ℕ) (src : List UInt8) (i : ℕ) :
    (fill len src)[i]? = if i < len then some (src[i]?.getD 0) else none := by
  by_cases hi : i < len
  · rw [if_pos hi, fill]
    by_cases hs : i < src.length
    · rw [List.getElem?_append_left (by simp; omega), List.getElem?_take_of_lt hi,
        List.getElem?_eq_getElem hs]
      rfl
    · rw [List.getElem?_append_right (by simp; omega), List.getElem?_replicate, if_pos (by simp; omega),
        List.getElem?_eq_none (by omega)]
      rfl
  · rw [if_neg hi, List.getElem?_eq_none (by simpa using hi)]

theorem Field.get_zero (f : Field) : f.get UserInfo.zero = List.replicate f.len 0 := by
  have hfits := f.fits
  have hzero : UserInfo.zero.toList = List.replicate recordSize 0 := rfl
  rw [Field.get, slice, hzero, List.drop_replicate, List.take_replicate,
    Nat.min_eq_left (by omega)]

theorem Field.get_put_of_zero {f : Field} {r : UserInfo} {src : List UInt8}
    (h : f.get r = List.replicate f.len 0) : f.get (f.put src r) = fill f.len src := by
  rw [get_put, h, List.drop_replicate, fill]

theorem Field.get_safeCopy_of_zero {f : Field} {r : UserInfo} {src : List UInt8} (hlen : 0 < f.len)
    (h : f.get r = List.replicate f.len 0) :
    f.get (f.safeCopy src r) = fill f.len (src.take (f.len - 1)) := by
  have hle : (src.take (f.len - 1)).length + 1 ≤ f.len := by
    rw [List.length_take]
    omega
  rw [safeCopy, get_put_of_zero h]
  generalize src.take (f.len - 1) = ended at hle
  have hrep : f.len - ended.length = 1 + (f.len - (ended.length + 1)) := by omega
  rw [fill, fill, List.take_of_length_le (by simpa using hle), List.take_of_length_le (by omega),
    hrep, List.replicate_add, List.length_append, List.append_assoc]
  rfl

theorem Field.getBool_putBool {f : Field} {r : UserInfo} {b : Bool} (hlen : f.len = 1) :
    f.getBool (f.putBool b r) = b := by
  have hrest : (f.get r).drop 1 = [] := by
    rw [List.drop_eq_nil_iff, length_get, hlen]
  rw [getBool, putBool, get_put, List.length_singleton, hrest, hlen]
  cases b <;> rfl

/-- `token == "true" || token == "TRUE"`. -/
def isTrue (token : List UInt8) : Bool :=
  token = text "true" || token = text "TRUE"

/-- `parseInput`: the record that the first seven words of a line describe. -/
def parseInput (line : List UInt8) : Option UserInfo :=
  match words isSpace line with
  | uid :: username :: passwordHash :: email :: emailVerified :: phoneHash :: discoverable :: _ =>
    some (UserInfo.zero |> Field.userId.safeCopyBytes uid |> Field.username.safeCopy username
      |> Field.passwordHash.safeCopyBytes passwordHash |> Field.email.safeCopy email
      |> Field.emailVerified.putBool (isTrue emailVerified)
      |> Field.phoneHash.safeCopyBytes phoneHash
      |> Field.phoneDiscoverable.putBool (isTrue discoverable))
  | _ => none

theorem exists_words {line : List UInt8} (h : 7 ≤ (words isSpace line).length) :
    ∃ uid username passwordHash email emailVerified phoneHash discoverable rest,
      words isSpace line = uid :: username :: passwordHash :: email :: emailVerified :: phoneHash
        :: discoverable :: rest := by
  match hwords : words isSpace line, h with
  | a :: b :: c :: d :: e :: f :: g :: rest, _ => exact ⟨a, b, c, d, e, f, g, rest, rfl⟩

theorem length_of_parseInput {line : List UInt8} {r : UserInfo} (h : parseInput line = some r) :
    7 ≤ (words isSpace line).length := by
  rw [parseInput] at h
  split at h
  next hwords =>
    rw [hwords]
    simp
  next => cases h

theorem parseInput_eq_some {line uid username passwordHash email emailVerified phoneHash discoverable}
    {rest : List (List UInt8)}
    (h : words isSpace line = uid :: username :: passwordHash :: email :: emailVerified :: phoneHash
      :: discoverable :: rest) :
    ∃ r, parseInput line = some r ∧ Field.userId.get r = fill 16 uid ∧
      Field.username.get r = fill 32 (username.take 31) ∧
      Field.passwordHash.get r = fill 128 passwordHash ∧
      Field.email.get r = fill 64 (email.take 63) ∧
      Field.emailVerified.getBool r = isTrue emailVerified ∧
      Field.phoneHash.get r = fill 32 phoneHash ∧
      Field.phoneDiscoverable.getBool r = isTrue discoverable := by
  refine ⟨_, by rw [parseInput, h], ?_, ?_, ?_, ?_, ?_, ?_, ?_⟩
  case refine_7 => exact Field.getBool_putBool rfl
  all_goals
    -- What is copied to other members later does not matter.
    simp +decide only [Field.get_safeCopyBytes_of_disjoint, Field.get_safeCopy_of_disjoint,
      Field.get_putBool_of_disjoint, Field.getBool_safeCopyBytes_of_disjoint,
      Field.getBool_putBool_of_disjoint]
  case refine_1 => exact Field.get_put_of_zero (Field.get_zero _)
  case refine_3 | refine_6 =>
    apply Field.get_put_of_zero
    simp +decide only [Field.get_safeCopyBytes_of_disjoint, Field.get_safeCopy_of_disjoint,
      Field.get_putBool_of_disjoint, Field.get_zero]
  case refine_2 | refine_4 =>
    apply Field.get_safeCopy_of_zero (by decide)
    simp +decide only [Field.get_safeCopyBytes_of_disjoint, Field.get_safeCopy_of_disjoint,
      Field.get_zero]
  case refine_5 => exact Field.getBool_putBool rfl

/-- `ENC_KEY`. -/
def encKey : List UInt8 :=
  [0x1A, 0x2B, 0x3C, 0x4D, 0x5E, 0x6F, 0x7A, 0x8B, 0x9C, 0xAD, 0xBE, 0xCF, 0xD1, 0xE2, 0xF3, 0x04]

/-- `encryptRecord` and `decryptRecord`. -/
def cipher (r : UserInfo) : UserInfo :=
  ⟨r.toList.zipIdx.map fun (b, i) => b ^^^ encKey.getD (i % 16) 0, by simp⟩

theorem getElem?_cipher (r : UserInfo) (i : ℕ) :
    (cipher r).toList[i]? = r.toList[i]?.map (· ^^^ encKey.getD (i % 16) 0) := by
  rw [cipher, List.Vector.toList_mk, List.getElem?_map, List.getElem?_zipIdx, Option.map_map]
  simp [Function.comp_def]

@[simp] theorem cipher_cipher (r : UserInfo) : cipher (cipher r) = r := by
  apply List.Vector.toList_injective
  apply List.ext_getElem?
  intro i
  rw [getElem?_cipher, getElem?_cipher, Option.map_map]
  simp only [Function.comp_def, UInt8.xor_assoc, UInt8.xor_self, UInt8.xor_zero, Option.map_id']

theorem get_cipher (f : Field) (r : UserInfo) :
    f.get (cipher r) = ((f.get r).zipIdx f.off).map fun (b, i) => b ^^^ encKey.getD (i % 16) 0 := by
  apply List.ext_getElem?
  intro i
  rw [List.getElem?_map, List.getElem?_zipIdx, Field.get, Field.get, getElem?_slice, getElem?_slice,
    getElem?_cipher, Option.map_map]
  by_cases hi : i < f.len
  · rw [if_pos hi, if_pos hi]
    rfl
  · rw [if_neg hi, if_neg hi]
    rfl

section Checksum

variable (crc32 : List UInt8 → UInt32)

def leBytes (w : UInt32) : List UInt8 := (beEncode 4 w.toNat).reverse

/-- Set the flag of deleted records, and the checksum. -/
def finish (deleted : Bool) (r : UserInfo) : UserInfo :=
  let r := Field.isDeleted.putBool deleted r
  Field.checksum.put (leBytes (crc32 (r.toList.take (recordSize - 4)))) r

/-- The record that a line describes, as it is before it is enciphered. -/
def newRecord (line : List UInt8) : Option UserInfo := (parseInput line).map (finish crc32 false)

variable {crc32}

theorem get_finish {f : Field} {deleted : Bool} {r : UserInfo}
    (h : f.off + f.len ≤ Field.isDeleted.off) : f.get (finish crc32 deleted r) = f.get r := by
  have hbefore : Field.isDeleted.off ≤ Field.checksum.off := by decide
  rw [finish, Field.get_put_of_disjoint (.inl (by omega)), Field.get_putBool_of_disjoint (.inl h)]

theorem getBool_finish {f : Field} {deleted : Bool} {r : UserInfo}
    (h : f.off + f.len ≤ Field.isDeleted.off) :
    f.getBool (finish crc32 deleted r) = f.getBool r := by
  rw [Field.getBool, Field.getBool, get_finish h]

theorem isDeleted_finish (deleted : Bool) (r : UserInfo) :
    (finish crc32 deleted r).isDeleted = deleted := by
  have hchecksum : Field.isDeleted.get (finish crc32 deleted r)
      = Field.isDeleted.get (Field.isDeleted.putBool deleted r) :=
    Field.get_put_of_disjoint (.inl (by decide))
  have hput : Field.isDeleted.getBool (Field.isDeleted.putBool deleted r) = deleted :=
    Field.getBool_putBool rfl
  rw [UserInfo.isDeleted, Field.getBool, hchecksum]
  exact hput

theorem uid_finish (deleted : Bool) (r : UserInfo) : (finish crc32 deleted r).uid = r.uid :=
  get_finish (by decide)

theorem isDeleted_newRecord {line : List UInt8} {r : UserInfo} (h : newRecord crc32 line = some r) :
    r.isDeleted = false := by
  obtain ⟨parsed, -, rfl⟩ := Option.map_eq_some_iff.mp h
  exact isDeleted_finish false parsed

theorem exists_newRecord (crc32 : List UInt8 → UInt32) {line : List UInt8}
    (h : 7 ≤ (words isSpace line).length) :
    ∃ r, newRecord crc32 line = some r := by
  obtain ⟨_, _, _, _, _, _, _, _, hwords⟩ := exists_words h
  obtain ⟨parsed, hparsed, -⟩ := parseInput_eq_some hwords
  exact ⟨_, by rw [newRecord, hparsed]; rfl⟩

theorem uid_newRecord {line : List UInt8} {r : UserInfo} (h : newRecord crc32 line = some r) :
    r.uid = fill 16 (firstWord line) := by
  obtain ⟨parsed, hparsed, rfl⟩ := Option.map_eq_some_iff.mp h
  obtain ⟨uid, username, passwordHash, email, verified, phoneHash, discoverable, rest, hwords⟩ :=
    exists_words (length_of_parseInput hparsed)
  obtain ⟨parsed', hparsed', huid, -⟩ := parseInput_eq_some hwords
  cases hparsed.symm.trans hparsed'
  rw [uid_finish, firstWord, hwords]
  exact huid

end Checksum

end IocpChat

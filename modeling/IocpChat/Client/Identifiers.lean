import IocpChat.Client.Requests
import IocpChat.Network.Connections

/-!
# The texts of ids

An id has 16 bytes on the wire.  In the maps of the server it is a text of 32 hexadecimal digits:
`UserIdToHexString` makes the keys of the sessions and of the delivery queues, `bytesToHex` those
of the transfers.  `hexToBytes` goes back.  It takes 32 digits in either case for what they spell
and the characters of anything else as they are, so that it also reads the 16 raw bytes that the
client keeps as its own id.  There are three copies of `bytesToHex` and `hexToBytes`, with the same
text: one of the client, and two of the server.

The functions of the C library that `hexToBytes` calls are written out here.  `strtol` skips white
space, takes a sign and a `0x`, and stops at the first character that is not a digit; its `long`
has 32 bits.

## Main definitions

* `CLibrary.isxdigit`, `CLibrary.strtol`, `CLibrary.tolower` — the C library.
* `Client.Host.standard` — a host with that library.
* `Client.Denotes` — a text that a user or a client keeps for an id.
-/

namespace IocpChat

open Bytes FileTransfer

/-! ## The C library -/

namespace CLibrary

/-- The digits, and the letters up to the sixth in both cases. -/
def isxdigit (c : UInt8) : Bool :=
  (48 ≤ c && c ≤ 57) || (65 ≤ c && c ≤ 70) || (97 ≤ c && c ≤ 102)

def isspace (c : UInt8) : Bool := c == 32 || (9 ≤ c && c ≤ 13)

def tolower (c : UInt8) : UInt8 := if 65 ≤ c ∧ c ≤ 90 then c + 32 else c

/-- What a hexadecimal digit stands for. -/
def digitValue (c : UInt8) : ℕ :=
  if c ≤ 57 then c.toNat - 48 else if c ≤ 70 then c.toNat - 55 else c.toNat - 87

/-- The `0x` that may stand before digits. -/
def dropBase : List UInt8 → List UInt8
  | z :: x :: d :: rest =>
    if z == 48 && (x == 120 || x == 88) && isxdigit d then d :: rest else z :: x :: d :: rest
  | str => str

/-- `strtol(str, nullptr, 16)`, as a byte. -/
def strtol (str : List UInt8) : UInt8 :=
  let str := str.dropWhile isspace
  let negative := str.head? == some 45
  let digits := dropBase (if negative || str.head? == some 43 then str.tail else str)
  let magnitude : ℤ := (digits.takeWhile isxdigit).foldl (fun n c => n * 16 + digitValue c) 0
  UInt8.ofInt (if negative then max (-2 ^ 31) (-magnitude) else min (2 ^ 31 - 1) magnitude)

/-! ## Digits -/

theorem isxdigit_hexDigit : ∀ b : UInt8, isxdigit (hexDigit (b >>> 4)) = true ∧
    isxdigit (hexDigit (b &&& 0x0F)) = true :=
  forall_byte (by decide +kernel)

theorem digitValue_hexDigit : ∀ b : UInt8,
    digitValue (hexDigit (b >>> 4)) * 16 + digitValue (hexDigit (b &&& 0x0F)) = b.toNat :=
  forall_byte (by decide +kernel)

theorem digitValue_lt : ∀ c : UInt8, isxdigit c = true → digitValue c < 16 :=
  forall_byte (by decide +kernel)

theorem hexDigit_digitValue : ∀ c : UInt8, isxdigit c = true →
    hexDigit (UInt8.ofNat (digitValue c)) = tolower c :=
  forall_byte (by decide +kernel)

theorem isspace_of_isxdigit : ∀ c : UInt8, isxdigit c = true →
    isspace c = false ∧ c ≠ 45 ∧ c ≠ 43 :=
  forall_byte (by decide +kernel)

section Pair

variable {a b : UInt8} (ha : isxdigit a = true) (hb : isxdigit b = true)

include ha hb

theorem strtol_pair : strtol [a, b] = UInt8.ofNat (digitValue a * 16 + digitValue b) := by
  have hspace := isspace_of_isxdigit a ha
  have hbase : dropBase [a, b] = [a, b] := rfl
  have hlta := digitValue_lt a ha
  have hltb := digitValue_lt b hb
  have hmod : ((digitValue a * 16 + digitValue b : ℤ) % 2 ^ 8).toNat =
      digitValue a * 16 + digitValue b := by omega
  have hvalue : strtol [a, b] =
      UInt8.ofInt (min (2 ^ 31 - 1) (digitValue a * 16 + digitValue b : ℤ)) := by
    simp [strtol, hspace, hbase, ha, hb]
  rw [hvalue, min_eq_right (by omega), UInt8.ofInt, hmod]

/-- The two digits of what two digits stand for are these digits in lower case. -/
theorem hexDigit_strtol_pair :
    hexDigit (strtol [a, b] >>> 4) = tolower a ∧ hexDigit (strtol [a, b] &&& 0x0F) = tolower b := by
  have hlta := digitValue_lt a ha
  have hltb := digitValue_lt b hb
  rw [strtol_pair ha hb, ← hexDigit_digitValue a ha, ← hexDigit_digitValue b hb, shiftRight_four,
    and_fifteen]
  have hhigh : UInt8.ofNat (digitValue a * 16 + digitValue b) / 16 =
      UInt8.ofNat (digitValue a) := by
    apply UInt8.toNat_inj.mp
    simp
    omega
  have hlow : UInt8.ofNat (digitValue a * 16 + digitValue b) % 16 = UInt8.ofNat (digitValue b) := by
    apply UInt8.toNat_inj.mp
    simp
    omega
  rw [hhigh, hlow]
  exact ⟨rfl, rfl⟩

end Pair

end CLibrary

/-! ## The texts of an id -/

namespace Client

open CLibrary

/-- A host with the C library above. -/
def Host.standard (filename : Key → Key) (file : Key → Option File) : Host :=
  ⟨CLibrary.isxdigit, CLibrary.strtol, filename, file⟩

section Texts

variable {filename : Key → Key} {file : Key → Option File} {id : Uuid} {str : Key}

theorem length_bytesToHex (bytes : List UInt8) : (bytesToHex bytes).length = bytes.length * 2 := by
  simp [bytesToHex, List.length_flatMap]

theorem all_isxdigit_bytesToHex (bytes : List UInt8) : (bytesToHex bytes).all isxdigit = true := by
  rw [List.all_eq_true]
  intro c hc
  obtain ⟨b, -, hb⟩ := List.mem_flatMap.mp hc
  simp at hb
  rcases hb with rfl | rfl
  · exact (isxdigit_hexDigit b).1
  · exact (isxdigit_hexDigit b).2

/-- `hexToBytes` of a text that it takes for hexadecimal. -/
theorem hexToBytes_of_isxdigit (hlength : str.length = 32) (hdigits : str.all isxdigit = true) :
    hexToBytes (.standard filename file) str =
      .ofFn fun i => strtol (slice str (i.val * 2) 2) := by
  rw [hexToBytes]
  exact if_pos ⟨hlength, hdigits⟩

theorem hexToBytes_bytesToHex (id : Uuid) :
    hexToBytes (.standard filename file) (bytesToHex id.toList) = id := by
  have hlength : (bytesToHex id.toList).length = 32 := by
    rw [length_bytesToHex, List.Vector.toList_length]
    rfl
  rw [hexToBytes_of_isxdigit hlength (all_isxdigit_bytesToHex _)]
  ext i
  have hi : i.val < id.toList.length := by
    rw [List.Vector.toList_length]
    exact i.isLt
  have hpair := isxdigit_hexDigit id.toList[i.val]
  rw [List.Vector.get_ofFn, bytesToHex, slice_flatMap_pair _ _ _ hi, strtol_pair hpair.1 hpair.2,
    digitValue_hexDigit, UInt8.ofNat_toNat]
  rfl

theorem hexToBytes_toList (host : Host) (id : Uuid) : hexToBytes host id.toList = id := by
  have hlength : id.toList.length = 16 := id.toList_length
  rw [hexToBytes, if_neg (by simp [hlength])]
  ext i
  have hi : i.val < id.toList.length := hlength ▸ i.isLt
  rw [List.Vector.get_ofFn, List.getD, List.getElem?_eq_getElem hi]
  rfl

theorem bytesToHex_hexToBytes (hlength : str.length = 32) (hdigits : str.all isxdigit = true) :
    bytesToHex (hexToBytes (.standard filename file) str).toList = str.map tolower := by
  rw [hexToBytes_of_isxdigit hlength hdigits, List.Vector.toList_ofFn]
  exact flatMap_pair_ofFn (fun a b ha hb => hexDigit_strtol_pair ha hb) hlength
    (List.all_eq_true.mp hdigits)

/-- `bytesToHex` and `UserIdToHexString` are the same function. -/
theorem bytesToHex_toList (id : Uuid) : bytesToHex id.toList = toHex id :=
  bytesToHex_eq _

/-- A text for an id: its bytes, as the client keeps its own, or its digits in either case. -/
def Denotes (str : Key) (id : Uuid) : Prop :=
  str = id.toList ∨
    str.length = 32 ∧ str.all isxdigit = true ∧ str.map tolower = bytesToHex id.toList

theorem Denotes.hexToBytes_eq (h : Denotes str id) :
    hexToBytes (.standard filename file) str = id := by
  rcases h with rfl | ⟨hlength, hdigits, hlower⟩
  · exact hexToBytes_toList _ id
  · rw [← bytesToHex_hexToBytes hlength hdigits] at hlower
    exact List.Vector.toList_injective (bytesToHex_injective hlower)

end Texts

/-- **The texts of ids lose nothing and agree.**  Whatever the file system is, for every id the
digits and the raw bytes are both read back as the id, the digits tell the id and are those of
`UserIdToHexString`, and 32 digits in any case come back in lower case.  So whichever texts a client
has for two users, its packets hold the ids of these users, and what the server makes of them are
the keys of the users' sessions and delivery queues; and an upload has its id's key. -/
theorem texts_of_ids (filename : Key → Key) (file : Key → Option File) :
    (∀ id : Uuid,
      hexToBytes (.standard filename file) (bytesToHex id.toList) = id ∧
        hexToBytes (.standard filename file) id.toList = id ∧ bytesToHex id.toList = toHex id) ∧
      Function.Injective bytesToHex ∧
      (∀ str : Key, str.length = 32 → str.all isxdigit = true →
        bytesToHex (hexToBytes (.standard filename file) str).toList = str.map tolower) ∧
      (∀ (hw : Bool) (c : Client) (m : Moment) (junk : Junk) (type : PacketType)
        (receiver message : Key) (sender recipient : Uuid),
        Denotes c.userId sender → Denotes receiver recipient →
          sendChat hw (.standard filename file) c m junk type receiver message =
            c.sendRawPacket m.answers ((localPacket junk).serialize hw type sender recipient m.nowMs
              none [] message).2) ∧
      (∀ (str : Key) (id : Uuid), Denotes str id →
        (∀ (expiry : UInt64) (session : Session),
          (cacheAuthOnSession id expiry session).userId =
            toHex (hexToBytes (.standard filename file) str)) ∧
          UploadId.key (hexToBytes (.standard filename file) str) = toHex id) ∧
      ∀ id id' : Uuid, UploadId.key id = toHex id' ↔ id = id' := by
  refine ⟨?_, bytesToHex_injective, ?_, ?_, ?_, ?_⟩
  · intro id
    exact ⟨hexToBytes_bytesToHex id, hexToBytes_toList _ id, bytesToHex_toList id⟩
  · intro str hlength hdigits
    exact bytesToHex_hexToBytes hlength hdigits
  · intro hw c m junk type receiver message sender recipient hsender hrecipient
    rw [sendChat, hsender.hexToBytes_eq, hrecipient.hexToBytes_eq]
  · intro str id hdenotes
    rw [hdenotes.hexToBytes_eq]
    exact ⟨fun _ _ => rfl, bytesToHex_toList id⟩
  · intro id id'
    change bytesToHex id.toList = _ ↔ _
    rw [bytesToHex_toList]
    exact toHex_injective.eq_iff

/-- Digits in both cases. -/
theorem texts_of_ids_digits :
    bytesToHex (hexToBytes (.standard id fun _ => none)
        (text "00112233445566778899AABBCCDDeeff")).toList =
      text "00112233445566778899aabbccddeeff" :=
  (texts_of_ids id fun _ => none).2.2.1 _ (by decide +kernel) (by decide +kernel)

end Client

end IocpChat

import IocpChat.DataStructure.UserInfo

/-!
# `SignUp`: registering a user

`signupManager` takes what a client sent to sign up, draws a user id, hashes the password, and
writes a line of seven words to the table.  It also makes the `UserRecord` that is added to the
running `AuthManager`.  After a restart `LoadUsersFromDatabase` makes the records from the table
instead.

The user id, the hashed password (`crypto_pwhash_str`) and the hash of the phone number
(`std::hash`, in decimal) come from outside.  `std::isalnum` is that of the default locale.

## Main definitions

* `SignupState.dbData`, `SignupState.userRecord` — the line, and the record.
* `loadRecord` — the record of a restart.
-/

namespace IocpChat

open Bytes Words

/-- `std::isalnum`. -/
def isAlnum (b : UInt8) : Bool :=
  (48 ≤ b && b ≤ 57) || (65 ≤ b && b ≤ 90) || (97 ≤ b && b ≤ 122)

/-- The characters of an email: letters, digits, and `@`, `.`, `_`, `-`. -/
def isEmailChar (b : UInt8) : Bool := isAlnum b || b = 64 || b = 46 || b = 95 || b = 45

/-- `SignUp::isValidEmail`. -/
def isValidEmail (email : List UInt8) : Bool :=
  let localPart := email.takeWhile (· ≠ 64)
  let domainPart := (email.dropWhile (· ≠ 64)).tail
  if 64 ∉ email then false
  else if localPart = [] ∨ domainPart = [] then false
  else if 46 ∉ domainPart then false
  else email.all isEmailChar

/-- `signupState`.  The session is only for answers. -/
structure SignupState where
  email : List UInt8
  number : List UInt8
  username : List UInt8
  password : List UInt8

/-- `UserRecord`: the bytes of its members. -/
structure UserRecord where
  userId : List UInt8
  username : List UInt8
  passwordHash : List UInt8
  email : List UInt8
  emailVerified : Bool
  phoneHash : List UInt8
  phoneDiscoverable : Bool
  deriving DecidableEq

/-- What is drawn for a sign-up: the user id, and with the salt the string that
`crypto_pwhash_str` leaves for a password. -/
structure Drawn where
  userId : List UInt8
  pwhash : List UInt8 → List UInt8

namespace SignupState

variable (hashStr : List UInt8 → List UInt8)

def dbData (state : SignupState) (d : Drawn) : List UInt8 :=
  d.userId ++ 32 :: (state.username ++ 32 :: (d.pwhash state.password ++ 32 :: (state.email ++ 32 ::
    (text "TRUE" ++ 32 :: (hashStr state.number ++ 32 :: text "TRUE")))))

/-- The record for the running server. -/
def userRecord (state : SignupState) (d : Drawn) : UserRecord where
  userId := fill 16 d.userId
  username := fill 32 (state.username.take 31)
  passwordHash := fill 128 (d.pwhash state.password)
  email := fill 64 (state.email.take 63)
  emailVerified := true
  phoneHash := fill 32 (hashStr state.number)
  phoneDiscoverable := true

end SignupState

/-- The record that `LoadUsersFromDatabase` makes of one of the table.  The last byte of the
hashed password is set to zero. -/
def loadRecord (u : UserInfo) : UserRecord where
  userId := Field.userId.get u
  username := Field.username.get u
  passwordHash := (Field.passwordHash.get u).set 127 0
  email := Field.email.get u
  emailVerified := Field.emailVerified.getBool u
  phoneHash := Field.phoneHash.get u
  phoneDiscoverable := Field.phoneDiscoverable.getBool u

/-- A user id has nine digits.  A hashed password begins with `$`, has no space in it and is
shorter than `crypto_pwhash_STRBYTES`. -/
structure Drawn.Valid (d : Drawn) : Prop where
  length_userId : d.userId.length = 9
  userId : d.userId.all isDigit
  head_pwhash : ∀ password, (d.pwhash password).head? = some 36
  length_pwhash : ∀ password, (d.pwhash password).length ≤ 127
  pwhash : ∀ password, ∀ b ∈ d.pwhash password, isSpace b = false

/-- A hash is written in decimal. -/
structure Decimal (hashStr : List UInt8 → List UInt8) : Prop where
  ne_nil : ∀ input, hashStr input ≠ []
  digits : ∀ input, (hashStr input).all isDigit

/-! ## The line -/

theorem isSpace_of_isDigit {b : UInt8} (h : isDigit b = true) : isSpace b = false := by
  simp only [isDigit, isSpace, Bool.and_eq_true, Bool.or_eq_false_iff, Bool.and_eq_false_iff,
    decide_eq_true_eq, decide_eq_false_iff_not, UInt8.le_iff_toNat_le, ← UInt8.toNat_inj] at *
  simp at *
  omega

theorem isSpace_of_isEmailChar {b : UInt8} (h : isEmailChar b = true) : isSpace b = false := by
  simp only [isEmailChar, isAlnum, isSpace, Bool.and_eq_true, Bool.or_eq_true, Bool.or_eq_false_iff,
    Bool.and_eq_false_iff, decide_eq_true_eq, decide_eq_false_iff_not, UInt8.le_iff_toNat_le,
    ← UInt8.toNat_inj] at *
  simp at *
  omega

theorem all_of_isValidEmail {email : List UInt8} (h : isValidEmail email = true) :
    email ≠ [] ∧ email.all isEmailChar := by
  refine ⟨?_, ?_⟩
  · rintro rfl
    cases h
  · simp only [isValidEmail] at h
    split_ifs at h
    exact h

theorem SignupState.words_dbData {hashStr : List UInt8 → List UInt8} {state : SignupState} {d : Drawn}
    (hdecimal : Decimal hashStr) (hvalid : d.Valid) (hemail : isValidEmail state.email = true) :
    words isSpace (state.dbData hashStr d) = d.userId :: (words isSpace state.username ++
      [d.pwhash state.password, state.email, text "TRUE", hashStr state.number, text "TRUE"]) := by
  have hspace : isSpace 32 = true := by decide
  have htrue : words isSpace (text "TRUE") = [text "TRUE"] := by decide +kernel
  have huserId : words isSpace d.userId = [d.userId] := by
    apply words_eq_singleton
    · rintro hnil
      have hlen := hvalid.length_userId
      rw [hnil] at hlen
      cases hlen
    · exact fun b hb => isSpace_of_isDigit (List.all_eq_true.mp hvalid.userId b hb)
  have hpassword : words isSpace (d.pwhash state.password) = [d.pwhash state.password] := by
    apply words_eq_singleton
    · rintro hnil
      have hhead := hvalid.head_pwhash state.password
      rw [hnil] at hhead
      cases hhead
    · exact hvalid.pwhash state.password
  have hemail' : words isSpace state.email = [state.email] := by
    obtain ⟨hne, hall⟩ := all_of_isValidEmail hemail
    exact words_eq_singleton hne fun b hb => isSpace_of_isEmailChar (List.all_eq_true.mp hall b hb)
  have hnumber : words isSpace (hashStr state.number) = [hashStr state.number] :=
    words_eq_singleton (hdecimal.ne_nil _) fun b hb =>
      isSpace_of_isDigit (List.all_eq_true.mp (hdecimal.digits _) b hb)
  simp [dbData, words_append_space hspace, htrue, huserId, hpassword, hemail', hnumber]

/-! ## The record of a line -/

theorem fill_succ_take (n : ℕ) (src : List UInt8) : fill (n + 1) (src.take n) = fill n src ++ [0] := by
  apply List.ext_getElem?
  intro i
  rw [getElem?_fill, List.getElem?_append, getElem?_fill, length_fill]
  by_cases hi : i < n
  · rw [if_pos hi, if_pos hi, if_pos (by omega), List.getElem?_take_of_lt hi]
  · rw [if_neg hi, List.getElem?_eq_none (by simp; omega)]
    by_cases hn : i = n
    · simp [hn]
    · rw [if_neg (by omega), List.getElem?_eq_none (by simp; omega)]

theorem set_fill (n : ℕ) (src : List UInt8) : (fill (n + 1) src).set n 0 = fill n src ++ [0] := by
  apply List.ext_getElem?
  intro i
  rw [List.getElem?_set, getElem?_fill, List.getElem?_append, getElem?_fill, length_fill, length_fill]
  by_cases hi : i < n
  · rw [if_pos hi, if_pos hi, if_neg (by omega), if_pos (by omega)]
  · rw [if_neg hi]
    by_cases hn : n = i
    · simp [hn]
    · rw [if_neg hn, if_neg (by omega), List.getElem?_eq_none (by simp; omega)]

theorem loadRecord_eq {crc32 : List UInt8 → UInt32} {r : UserInfo}
    {line uid username passwordHash email emailVerified phoneHash discoverable : List UInt8}
    {rest : List (List UInt8)} (hr : newRecord crc32 line = some r)
    (h : words isSpace line = uid :: username :: passwordHash :: email :: emailVerified :: phoneHash
      :: discoverable :: rest) :
    loadRecord r =
      { userId := fill 16 uid, username := fill 31 username ++ [0]
        passwordHash := fill 127 passwordHash ++ [0], email := fill 63 email ++ [0]
        emailVerified := isTrue emailVerified, phoneHash := fill 32 phoneHash
        phoneDiscoverable := isTrue discoverable } := by
  obtain ⟨parsed, hparsed, huid, husername, hpassword, hemail, hverified, hphone, hdisc⟩ :=
    parseInput_eq_some h
  simp [newRecord, hparsed] at hr
  simp +decide only [← hr, loadRecord, get_finish, getBool_finish, huid, husername, hpassword, hemail,
    hverified, hphone, hdisc, set_fill, fill_succ_take]

/-! ## A sign-up -/

def signupOf (username : String) : SignupState :=
  ⟨text "bob@a.com", text "+4912345", text username, text "secret"⟩

/-- A hashed password and a hashed phone number. -/
def sampleHash : ℕ → List UInt8
  | 0 => text "$argon2id$v=19$salt$hash"
  | _ => text "77"

def sampleDrawn : Drawn := ⟨text "123456789", fun _ => sampleHash 0⟩

theorem valid_sampleDrawn : sampleDrawn.Valid where
  length_userId := by decide +kernel
  userId := by decide +kernel
  head_pwhash _ := (by decide +kernel : (sampleHash 0).head? = some 36)
  length_pwhash _ := (by decide +kernel : (sampleHash 0).length ≤ 127)
  pwhash _ := (by decide +kernel : ∀ b ∈ sampleHash 0, isSpace b = false)

theorem decimal_sampleHash : Decimal fun _ => sampleHash 1 where
  ne_nil _ := (by decide +kernel : sampleHash 1 ≠ [])
  digits _ := (by decide +kernel : (sampleHash 1).all isDigit = true)

end IocpChat

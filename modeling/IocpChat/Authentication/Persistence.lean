import IocpChat.Authentication.SignUp
import IocpChat.DataStructure.TableStorage

/-!
# What is registered, and what is persisted

`signupManager` registers a user twice: as a record in memory, and as a line whose words the
table takes apart again.  The name that the client chose is in the middle of that line.  If it
is one word the two records agree.  If it has more words, they take the places of the hashed
password, of the email and of what follows.

## Main definitions

* `loadUsersFromDatabase` — the records of a restart.
* `Persisted` — a restart has the record, whether the table was closed or left by a crash.
* `SignupState.Spelled` — the name leaves the line as it is meant.
-/

namespace IocpChat

open Words Table Transition

/-- The records that `LoadUsersFromDatabase` inserts. -/
def loadUsersFromDatabase (db : Table) : List UserRecord := db.getAllRecords.map loadRecord

/-- The newest record of a restart is this one. -/
def Persisted (db : Table) (record : UserRecord) : Prop :=
  ∀ file ∈ [db.flushAndClose, db.crash],
    (loadUsersFromDatabase (initStorage file)).getLast? = some record

/-- The first 31 bytes of the name are those of its first word.  There is no other word, or there
are the words that the line is to have next, as far as the members hold them. -/
def SignupState.Spelled (hashStr : List UInt8 → List UInt8) (state : SignupState) (d : Drawn) : Prop :=
  match words isSpace state.username with
  | [name] => state.username.take 31 = name.take 31
  | name :: passwordHash :: email :: emailVerified :: phoneHash :: discoverable :: _ =>
    state.username.take 31 = name.take 31 ∧ fill 127 passwordHash = fill 127 (d.pwhash state.password) ∧
      fill 63 email = fill 63 state.email ∧ isTrue emailVerified = true ∧
      fill 32 phoneHash = fill 32 (hashStr state.number) ∧ isTrue discoverable = true
  | _ => False

/-! ## The name -/

theorem getElem?_of_fill_eq {n : ℕ} {a b : List UInt8} (h : fill n a = fill n b) {i : ℕ} (hi : i < n) :
    a[i]?.getD 0 = b[i]?.getD 0 := by
  have hi' := congrArg (·[i]?) h
  simp only [getElem?_fill, if_pos hi] at hi'
  exact Option.some.inj hi'

theorem fill_congr_take {n : ℕ} {a b : List UInt8} (h : a.take n = b.take n) : fill n a = fill n b := by
  have hlen := congrArg List.length h
  rw [List.length_take, List.length_take] at hlen
  rw [fill, fill, h, show n - a.length = n - b.length by omega]

/-- A member for the name holds the same for its first word only if that is all it holds. -/
theorem fill_eq_iff_take_eq {n : ℕ} (hn : 0 < n) {username name : List UInt8} {rest : List (List UInt8)}
    (hwords : words isSpace username = name :: rest) :
    fill n name = fill n username ↔ username.take n = name.take n := by
  refine ⟨?_, fun h => fill_congr_take h.symm⟩
  intro h
  obtain ⟨pre, post, rfl, hpre, hne, hname, hpost⟩ := exists_append_of_words_eq_cons hwords
  cases pre with
  | cons c pre =>
    -- The space before the word would be its first byte.
    obtain ⟨d, name, rfl⟩ := List.exists_cons_of_ne_nil hne
    have hhead : d = c := getElem?_of_fill_eq h hn
    have hd := hname d List.mem_cons_self
    rw [hhead, hpre c List.mem_cons_self] at hd
    cases hd
  | nil =>
    rw [List.nil_append] at h ⊢
    by_cases hlen : n ≤ name.length
    · rw [List.take_append_of_le_length hlen]
    · cases post with
      | nil => rw [List.append_nil]
      | cons x post =>
        -- The space after the word would be the zero that ends it.
        have hend := getElem?_of_fill_eq h (i := name.length) (by omega)
        rw [List.getElem?_eq_none le_rfl, List.getElem?_append_right le_rfl, Nat.sub_self] at hend
        have hx := hpost x rfl
        rw [← show 0 = x from hend] at hx
        cases hx

/-! ## The line -/

variable {env : TableEnv} {hashStr : List UInt8 → List UInt8} {d : Drawn}

theorem fill_ne_of_head {n : ℕ} (hn : 0 < n) {a b : List UInt8} {c : UInt8} (p : UInt8 → Bool)
    (ha : a.head? = some c) (hc : p c = false) (hb : b ≠ []) (hall : b.all p = true) :
    fill n a ≠ fill n b := by
  intro h
  obtain ⟨d, b, rfl⟩ := List.exists_cons_of_ne_nil hb
  obtain ⟨a, rfl⟩ := List.head?_eq_some_iff.mp ha
  have hhead : c = d := getElem?_of_fill_eq h hn
  rw [hhead, List.all_eq_true.mp hall d List.mem_cons_self] at hc
  cases hc

theorem isTrue_pwhash {d : Drawn} (hvalid : d.Valid) (password : List UInt8) :
    isTrue (d.pwhash password) = false := by
  have hhead := hvalid.head_pwhash password
  rw [isTrue, Bool.or_eq_false_iff, decide_eq_false_iff_not, decide_eq_false_iff_not]
  constructor
  all_goals
    intro heq
    rw [heq] at hhead
    revert hhead
    decide +kernel

theorem SignupState.signupForm_dbData (state : SignupState) (hdecimal : Decimal hashStr)
    (hvalid : d.Valid) (hemail : isValidEmail state.email = true) {r : UserInfo}
    (hr : newRecord env.crc32 (state.dbData hashStr d) = some r) :
    SignupForm (state.dbData hashStr d) := by
  obtain ⟨parsed, hparsed, -⟩ := Option.map_eq_some_iff.mp hr
  have hfirst : firstWord (state.dbData hashStr d) = d.userId := by
    rw [firstWord, words_dbData hdecimal hvalid hemail]
    rfl
  refine ⟨length_of_parseInput hparsed, ?_, ?_⟩
  · rw [hfirst]
    exact hvalid.length_userId
  · rw [hfirst]
    exact hvalid.userId

theorem SignupState.userRecord_eq (state : SignupState) (hvalid : d.Valid) :
    state.userRecord hashStr d =
      { userId := fill 16 d.userId, username := fill 31 state.username ++ [0]
        passwordHash := fill 127 (d.pwhash state.password) ++ [0]
        email := fill 63 state.email ++ [0], emailVerified := true
        phoneHash := fill 32 (hashStr state.number), phoneDiscoverable := true } := by
  have hpassword : (d.pwhash state.password).take 127 = d.pwhash state.password :=
    List.take_of_length_le (hvalid.length_pwhash _)
  rw [userRecord, fill_succ_take 31, fill_succ_take 63, ← fill_succ_take 127, hpassword]

/-- The record of a restart is the one that was registered if the name leaves the line as it is
meant. -/
theorem SignupState.loadRecord_eq_iff_spelled (state : SignupState) (hdecimal : Decimal hashStr)
    (hvalid : d.Valid) (hemail : isValidEmail state.email = true) {r : UserInfo}
    (hr : newRecord env.crc32 (state.dbData hashStr d) = some r) :
    loadRecord r = state.userRecord hashStr d ↔ state.Spelled hashStr d := by
  obtain ⟨hemailNe, hemailChars⟩ := all_of_isValidEmail hemail
  have hwords := words_dbData hdecimal hvalid hemail
  have hname : ∀ {name rest}, words isSpace state.username = name :: rest →
      (fill 31 name = fill 31 state.username ↔ state.username.take 31 = name.take 31) :=
    fun hw => fill_eq_iff_take_eq (by decide) hw
  have htrue : isTrue (text "TRUE") = true := by decide +kernel
  rw [Spelled, userRecord_eq state hvalid]
  match hw : words isSpace state.username with
  | [] =>
    -- Six words are not enough.
    obtain ⟨parsed, hparsed, -⟩ := Option.map_eq_some_iff.mp hr
    have hlen := length_of_parseInput hparsed
    rw [hwords, hw] at hlen
    simp at hlen
  | [name] =>
    rw [hw] at hwords
    rw [loadRecord_eq hr hwords]
    simp [htrue, hname hw]
  | [name, a] =>
    rw [hw] at hwords
    rw [loadRecord_eq hr hwords]
    have hne : fill 63 (d.pwhash state.password) ≠ fill 63 state.email :=
      fill_ne_of_head (by decide) isEmailChar (hvalid.head_pwhash _) (by decide) hemailNe hemailChars
    simp [hne]
  | [name, a, b] =>
    rw [hw] at hwords
    rw [loadRecord_eq hr hwords]
    simp [isTrue_pwhash hvalid]
  | [name, a, b, c] =>
    rw [hw] at hwords
    rw [loadRecord_eq hr hwords]
    have hne : fill 32 (d.pwhash state.password) ≠ fill 32 (hashStr state.number) :=
      fill_ne_of_head (by decide) isDigit (hvalid.head_pwhash _) (by decide) (hdecimal.ne_nil _)
        (hdecimal.digits _)
    simp [hne]
  | [name, a, b, c, e] =>
    rw [hw] at hwords
    rw [loadRecord_eq hr hwords]
    simp [isTrue_pwhash hvalid]
  | name :: a :: b :: c :: e :: f :: rest =>
    rw [hw] at hwords
    rw [loadRecord_eq hr hwords]
    simp [hname hw]

/-- **Persistence.**  After any sign-ups and restarts, a sign-up that is written to the table is
persisted as it was registered if and only if its name leaves the line as it is meant. -/
theorem persisted_iff_spelled (env : TableEnv) (ops : List StorageOp)
    (hform : ∀ op ∈ ops, op.InForm) (db : Table)
    (hrun : Transition.run (exec env) (initStorage []) ops = some db)
    (hashStr : List UInt8 → List UInt8) (hdecimal : Decimal hashStr) (state : SignupState)
    (hemail : isValidEmail state.email = true) (d : Drawn) (hvalid : d.Valid) (db' : Table)
    (hwrite : db.writeTheData env (state.dbData hashStr d) = some (true, db')) :
    Persisted db' (state.userRecord hashStr d) ↔ state.Spelled hashStr d := by
  rcases writeTheData_eq_some hwrite with ⟨hfalse, -⟩ | ⟨-, r, _, hr, -, -⟩
  · cases hfalse
  have hinForm : (StorageOp.write (state.dbData hashStr d)).InForm :=
    state.signupForm_dbData hdecimal hvalid hemail hr
  have himage := (image_of_run hform hrun).exec hinForm (by rw [exec, hwrite]; rfl)
  rw [written, hr] at himage
  have hlast : ∀ t : Table, t.Image (ops.filterMap (written env) ++ [r]) →
      (loadUsersFromDatabase t).getLast? = some (loadRecord r) := by
    intro t ht
    rw [loadUsersFromDatabase, ht.stores.getAllRecords, List.map_append]
    exact List.getLast?_concat
  have hpersisted : Persisted db' (state.userRecord hashStr d) ↔
      loadRecord r = state.userRecord hashStr d := by
    simp [Persisted, hlast _ himage.close, hlast _ himage.crash]
  rw [hpersisted]
  exact state.loadRecord_eq_iff_spelled hdecimal hvalid hemail hr

/-- The line and the record of a sign-up with this name. -/
def sampleData (username : String) : List UInt8 :=
  (signupOf username).dbData (fun _ => sampleHash 1) sampleDrawn

def sampleRecord (username : String) : UserRecord :=
  (signupOf username).userRecord (fun _ => sampleHash 1) sampleDrawn

/-- A name of one word. -/
theorem persisted_iff_spelled_word :
    ∃ db, (initStorage []).writeTheData (.fixed false) (sampleData "bob") = some (true, db) ∧
      Persisted db (sampleRecord "bob") := by
  have hsome : ((initStorage []).writeTheData (.fixed false) (sampleData "bob")).any Prod.fst = true := by
    decide +kernel
  obtain ⟨⟨ok, db⟩, hwrite, hok⟩ := (Option.any_eq_true _ _).mp hsome
  cases hok
  have hwords : words isSpace (signupOf "bob").username = [text "bob"] := by decide +kernel
  refine ⟨db, hwrite, ?_⟩
  apply (persisted_iff_spelled _ [] (by simp) _ rfl _ decimal_sampleHash _ (by decide +kernel) _
    valid_sampleDrawn db hwrite).mpr
  rw [SignupState.Spelled, hwords]
  rfl

/-- The second word of a name is persisted as the hashed password. -/
theorem not_persisted_two_words :
    sampleDrawn.Valid ∧ isValidEmail (signupOf "bob x").email = true ∧
      ∃ db, (initStorage []).writeTheData (.fixed false) (sampleData "bob x") = some (true, db) ∧
        ¬ Persisted db (sampleRecord "bob x") := by
  refine ⟨valid_sampleDrawn, by decide +kernel, ?_⟩
  have hsome : ((initStorage []).writeTheData (.fixed false) (sampleData "bob x")).any (fun r =>
      r.1 && decide ((loadUsersFromDatabase (initStorage r.2.flushAndClose)).getLast?
        ≠ some (sampleRecord "bob x"))) = true := by
    decide +kernel
  obtain ⟨⟨ok, db⟩, hwrite, hok⟩ := (Option.any_eq_true _ _).mp hsome
  rw [Bool.and_eq_true, decide_eq_true_eq] at hok
  obtain ⟨rfl, hne⟩ := hok
  refine ⟨db, hwrite, ?_⟩
  intro h
  exact hne (h _ List.mem_cons_self)

end IocpChat

import IocpChat.Authentication.OneAccount
import IocpChat.Authentication.Persistence

/-!
# Who can log in

`ProcessLogin` takes what the client typed first as an email and then as a name, and compares the
password with the hashed one of the record it finds.  The sign-up thread adds the records while the
server runs, and `LoadUsersFromDatabase` reads them from the table when it starts.

A server signs up users, is closed or crashes, and starts again, in any order.  As long as sign-ups
have new emails, names and ids, a login succeeds for a sign-up of any of the lives of the server,
with its password, under its email, or under its name unless that is the email of another account.

## Main definitions

* `SpelledSignup` — sign-ups that are persisted as they are meant.
* `Accounts`, `Accounts.exec` — sign-ups and restarts.
-/

namespace IocpChat

open Words Table Transition

/-! ## The code -/

/-- `AuthResult`.  Nothing locks an account. -/
inductive AuthResult
  | success
  | invalidCredentials
  | emailNotVerified
  | accountLocked
  | internalError
  deriving DecidableEq

/-- The record that tokens were issued for, or the result and the text that is sent. -/
inductive LoginAnswer
  | granted (record : UserRecord)
  | failed (result : AuthResult) (reason : List UInt8)
  deriving DecidableEq

namespace UserStore

/-- The record of a login: by email, and then by name. -/
def findByIdentifier (st : UserStore) (identifier : Key) : Option UserRecord :=
  match st.findByEmail identifier with
  | some record => some record
  | none => st.findByUsername identifier

/-- `ProcessLogin`.  `verify` is `crypto_pwhash_str_verify`, which reads a string, and `issued` is
whether `IssueTokenPair` succeeds. -/
def processLogin (verify : Key → Key → Bool) (issued : Bool) (st : UserStore)
    (identifier password : Key) : LoginAnswer :=
  match st.findByIdentifier identifier with
  | none => .failed .invalidCredentials (text "Invalid credentials")
  | some record =>
    if !record.emailVerified then .failed .emailNotVerified (text "Email not verified")
    else if !verify (cString record.passwordHash) password then
      .failed .invalidCredentials (text "Invalid credentials")
    else if issued then .granted record
    else .failed .internalError (text "Internal error")

/-- `HandleLoginPacket`: the record of the tokens, or the text of `SendAuthFailure`. -/
def handleLoginPacket (verify : Key → Key → Bool) (issued : Bool) (st : UserStore)
    (identifier password : Key) : Except (List UInt8) UserRecord :=
  if identifier = [] ∨ password = [] then .error (text "Missing credentials")
  else
    match st.processLogin verify issued identifier password with
    | .granted record => .ok record
    | .failed _ reason => .error reason

end UserStore

/-- The table, and the accounts of the running server. -/
structure Accounts where
  db : Table
  users : UserStore

/-- A turn of `signupManager`, with what is drawn for it.  The email is valid and fits, and the name
leaves its line in the table as it is meant. -/
structure SpelledSignup (hashStr : List UInt8 → List UInt8) where
  state : SignupState
  drawn : Drawn
  email : isValidEmail state.email = true
  length : state.email.length ≤ 63
  valid : drawn.Valid
  spelled : state.Spelled hashStr drawn

/-- A sign-up, or the end of the process and its next start. -/
inductive AccountOp (hashStr : List UInt8 → List UInt8)
  | signUp (call : SpelledSignup hashStr)
  | close
  | crash

section Runs

variable {hashStr : List UInt8 → List UInt8} (env : TableEnv)

def SpelledSignup.record (call : SpelledSignup hashStr) : UserRecord :=
  call.state.userRecord hashStr call.drawn

def AccountOp.record : AccountOp hashStr → Option UserRecord
  | .signUp call => some call.record
  | .close | .crash => none

namespace Accounts

/-- The constructor of `Server`: the table is opened and its records are loaded. -/
def start (file : List UserInfo) : Accounts :=
  let db := initStorage file
  ⟨db, .insertAll (loadUsersFromDatabase db)⟩

def exec (s : Accounts) : AccountOp hashStr → Option Accounts
  | .signUp call =>
    match s.db.writeTheData env (call.state.dbData hashStr call.drawn) with
    | none => none
    | some (true, db) => some ⟨db, (s.users.insert call.record).2⟩
    | some (false, db) => some ⟨db, s.users⟩
  | .close => some (start s.db.flushAndClose)
  | .crash => some (start s.db.crash)

/-- The record of a sign-up is apart from those of the accounts. -/
def Fresh (s : Accounts) (op : AccountOp hashStr) : Prop :=
  ∀ r ∈ op.record, ∀ u ∈ loadUsersFromDatabase s.db, u.Apart r

end Accounts

end Runs

/-! ## The store -/

namespace UserStore

variable {st : UserStore} {added : List UserRecord} {u : UserRecord}

/-- The store leads to the records by their names. -/
def Names (st : UserStore) (added : List UserRecord) : Prop :=
  ∀ u ∈ added, cString u.username ≠ [] →
    st.usernameToUid (cString u.username) = some (UserStore.toHex u.userId)

theorem Names.insert (hnames : st.Names added) (h : st.Holds added)
    (hapart : ∀ v ∈ added, v.Apart u) : (st.insert u).2.Names (added ++ [u]) := by
  rw [h.insert_eq hapart]
  intro v hv hne
  rcases List.mem_append.mp hv with hv | hv
  · have hkey : cString v.username ≠ cString u.username := fun heq => hne ((hapart v hv).1.2 heq)
    simp only [put]
    split <;> simp [Function.update_of_ne hkey, hnames v hv hne]
  · cases List.mem_singleton.mp hv
    simp [put, hne]

theorem names_insertAll (h : added.Pairwise UserRecord.Apart) : (insertAll added).Names added := by
  induction added using List.reverseRecOn with
  | nil => simp [Names]
  | append_singleton added u ih =>
    obtain ⟨hadded, -, hu⟩ := List.pairwise_append.mp h
    rw [insertAll, List.foldl_append]
    exact (ih hadded).insert (holds_insertAll hadded) fun v hv => hu v hv u (List.mem_singleton_self u)

theorem Holds.find_eq_some_iff (h : st.Holds added) {index : Key → Option Key}
    {name : UserRecord → Key} {key : Key} (hof : (index key).isSome → ∃ v ∈ added, name v = key)
    (hname : ∀ v ∈ added, name v = key → index key = some (UserStore.toHex v.userId)) :
    (index key).bind st.records = some u ↔ u ∈ added ∧ name u = key := by
  constructor
  · intro hfind
    obtain ⟨uid, huid, hrecord⟩ := Option.bind_eq_some_iff.mp hfind
    obtain ⟨v, hv, hkey⟩ := hof (by simp [huid])
    obtain rfl : u = v := by
      rw [hname v hv hkey] at huid
      cases huid
      exact Option.some.inj (hrecord.symm.trans (h.record v hv))
    exact ⟨hv, hkey⟩
  · rintro ⟨hu, hkey⟩
    rw [hname u hu hkey]
    exact h.record u hu

theorem Holds.findByEmail_eq_some_iff (h : st.Holds added) {key : Key} :
    st.findByEmail key = some u ↔ u ∈ added ∧ cString u.email = key :=
  h.find_eq_some_iff (h.of_email key) fun v hv hkey => hkey ▸ h.email v hv

theorem Names.findByUsername_eq_some_iff (hnames : st.Names added) (h : st.Holds added)
    {key : Key} (hne : key ≠ []) :
    st.findByUsername key = some u ↔ u ∈ added ∧ cString u.username = key :=
  h.find_eq_some_iff (h.of_name key) fun v hv hkey => hkey ▸ hnames v hv (hkey ▸ hne)

/-- The record of an identifier: the one with this email, or else the one with this name. -/
theorem Names.findByIdentifier_eq_some_iff (hnames : st.Names added) (h : st.Holds added)
    {identifier : Key} (hne : identifier ≠ []) :
    st.findByIdentifier identifier = some u ↔ u ∈ added ∧ (cString u.email = identifier ∨
      cString u.username = identifier ∧ ∀ v ∈ added, cString v.email ≠ identifier) := by
  rw [findByIdentifier]
  cases hfind : st.findByEmail identifier with
  | some v =>
    obtain ⟨hv, hemail⟩ := h.findByEmail_eq_some_iff.mp hfind
    have hnone : ¬ ∀ v ∈ added, cString v.email ≠ identifier := fun hnone => hnone v hv hemail
    simp [hnone]
    rw [← h.findByEmail_eq_some_iff, hfind, Option.some.injEq]
  | none =>
    have hnone : ∀ v ∈ added, cString v.email ≠ identifier := by
      intro v hv hemail
      rw [h.findByEmail_eq_some_iff.mpr ⟨hv, hemail⟩] at hfind
      cases hfind
    simp only [hnames.findByUsername_eq_some_iff h hne]
    refine and_congr_right fun hu => ?_
    simpa [hnone u hu] using fun _ => hnone

end UserStore

/-! ## Sign-ups and restarts -/

namespace Accounts

variable {env : TableEnv} {hashStr : List UInt8 → List UInt8} {s s' : Accounts}
  {records : List UserRecord}

/-- The table and the store hold these records, which are apart. -/
structure Holds (s : Accounts) (records : List UserRecord) : Prop where
  image : ∃ recs, s.db.Image recs ∧ recs.map loadRecord = records
  apart : records.Pairwise UserRecord.Apart
  users : s.users.Holds records
  names : s.users.Names records

theorem Holds.loadUsersFromDatabase (h : s.Holds records) :
    loadUsersFromDatabase s.db = records := by
  obtain ⟨recs, himage, hload⟩ := h.image
  rw [IocpChat.loadUsersFromDatabase, himage.stores.getAllRecords, hload]

theorem holds_start {file recs : List UserInfo} (himage : (initStorage file).Image recs)
    (hapart : (recs.map loadRecord).Pairwise UserRecord.Apart) :
    (start file).Holds (recs.map loadRecord) := by
  have hload : IocpChat.loadUsersFromDatabase (initStorage file) = recs.map loadRecord := by
    rw [IocpChat.loadUsersFromDatabase, himage.stores.getAllRecords]
  refine ⟨⟨recs, himage, rfl⟩, hapart, ?_, ?_⟩
  · simpa only [start, hload] using UserStore.holds_insertAll hapart
  · simpa only [start, hload] using UserStore.names_insertAll hapart

theorem exists_newRecord_dbData (env : TableEnv) (hdecimal : Decimal hashStr)
    (call : SpelledSignup hashStr) :
    ∃ r, newRecord env.crc32 (call.state.dbData hashStr call.drawn) = some r ∧
      loadRecord r = call.record := by
  have hname : words isSpace call.state.username ≠ [] := fun hnil => by
    simpa [SignupState.Spelled, hnil] using call.spelled
  have hlength : 7 ≤ (words isSpace (call.state.dbData hashStr call.drawn)).length := by
    have hpos := List.length_pos_iff.mpr hname
    simp [SignupState.words_dbData hdecimal call.valid call.email]
    omega
  obtain ⟨r, hr⟩ := exists_newRecord env.crc32 hlength
  exact ⟨r, hr, (call.state.loadRecord_eq_iff_spelled hdecimal call.valid call.email hr).mpr
    call.spelled⟩

theorem Holds.signUp (hdecimal : Decimal hashStr) (h : s.Holds records)
    {call : SpelledSignup hashStr} (hapart : ∀ u ∈ records, u.Apart call.record)
    (hexec : s.exec env (.signUp call) = some s') : s'.Holds (records ++ [call.record]) := by
  obtain ⟨r, hr, hload⟩ := exists_newRecord_dbData env hdecimal call
  obtain ⟨recs, himage, hrecs⟩ := h.image
  have hform : (StorageOp.write (call.state.dbData hashStr call.drawn)).InForm :=
    call.state.signupForm_dbData hdecimal call.valid call.email hr
  simp only [exec, writeTheData, hr] at hexec
  cases htouch : (s.db.store env r.uid (cipher r)).touch s.db.cache.makeRoom r.uid (cipher r) with
  | none => simp [htouch] at hexec
  | some db =>
    obtain rfl : ⟨db, (s.users.insert call.record).2⟩ = s' := by simpa [htouch] using hexec
    have himage' := himage.exec hform
      (show s.db.exec env _ = some db by simp [Table.exec, writeTheData, hr, htouch])
    rw [written, hr, Option.toList_some] at himage'
    refine ⟨⟨recs ++ [r], himage', by simp [hrecs, hload]⟩, ?_, h.users.insert hapart,
      h.names.insert h.users hapart⟩
    simpa [List.pairwise_append] using ⟨h.apart, hapart⟩

theorem Holds.exec (hdecimal : Decimal hashStr) (h : s.Holds records) {op : AccountOp hashStr}
    (hfresh : s.Fresh op) (hexec : s.exec env op = some s') :
    s'.Holds (records ++ op.record.toList) := by
  cases op with
  | signUp call =>
    rw [Fresh, h.loadUsersFromDatabase] at hfresh
    exact h.signUp hdecimal (hfresh _ rfl) hexec
  | close =>
    cases hexec
    obtain ⟨recs, himage, rfl⟩ := h.image
    simpa [AccountOp.record] using holds_start himage.close h.apart
  | crash =>
    cases hexec
    obtain ⟨recs, himage, rfl⟩ := h.image
    simpa [AccountOp.record] using holds_start himage.crash h.apart

theorem Holds.run (hdecimal : Decimal hashStr) (h : s.Holds records)
    {ops : List (AccountOp hashStr)} (hfresh : Meets (Accounts.exec env) Fresh s ops)
    (hrun : Transition.run (Accounts.exec env) s ops = some s') :
    s'.Holds (records ++ ops.filterMap AccountOp.record) := by
  induction ops generalizing s records with
  | nil =>
    cases hrun
    simpa using h
  | cons op ops ih =>
    obtain ⟨s₁, hexec, hrun⟩ := exists_of_run hrun
    have hrest := ih (h.exec hdecimal hfresh.1 hexec) (hfresh.2 s₁ hexec) hrun
    cases hrecord : op.record <;> simpa [hrecord] using hrest

theorem holds_of_run (hdecimal : Decimal hashStr) {ops : List (AccountOp hashStr)}
    (hfresh : Meets (exec env) Fresh (start []) ops)
    (hrun : Transition.run (Accounts.exec env) (start []) ops = some s) :
    s.Holds (ops.filterMap AccountOp.record) := by
  have hempty : (initStorage []).Image [] := Image.reopen (k := 0) rfl (by simp)
  simpa using (holds_start hempty .nil).run hdecimal hfresh hrun

end Accounts

theorem mem_filterMap_record {hashStr : List UInt8 → List UInt8} {ops : List (AccountOp hashStr)}
    {u : UserRecord} :
    u ∈ ops.filterMap AccountOp.record ↔ ∃ call, .signUp call ∈ ops ∧ call.record = u := by
  simp only [List.mem_filterMap]
  constructor
  · rintro ⟨_ | _ | _, hop, ⟨⟩⟩
    exact ⟨_, hop, rfl⟩
  · rintro ⟨call, hop, rfl⟩
    exact ⟨_, hop, rfl⟩

theorem SpelledSignup.keys_record {hashStr : List UInt8 → List UInt8}
    (call : SpelledSignup hashStr) :
    cString call.record.email = call.state.email ∧
      cString call.record.username = cString (call.state.username.take 31) ∧
      cString call.record.passwordHash = cString (call.drawn.pwhash call.state.password) := by
  have hidentity := call.state.identity_userRecord hashStr call.drawn
  refine ⟨?_, congrArg Identity.name hidentity, ?_⟩
  · refine (congrArg Identity.email hidentity).trans ?_
    rw [SignupState.identity, List.take_of_length_le call.length]
    simpa [cString, List.takeWhile_eq_self_iff] using ne_zero_of_isValidEmail call.email
  · have hle := call.valid.length_pwhash call.state.password
    rw [record, SignupState.userRecord, cString_fill, List.take_of_length_le (by omega)]

theorem UserStore.handleLoginPacket_eq_ok_iff {verify : Key → Key → Bool} {st : UserStore}
    {identifier password : Key} {record : UserRecord} :
    st.handleLoginPacket verify true identifier password = .ok record ↔
      (identifier ≠ [] ∧ password ≠ []) ∧ st.findByIdentifier identifier = some record ∧
        record.emailVerified = true ∧ verify (cString record.passwordHash) password = true := by
  cases hfind : st.findByIdentifier identifier <;> grind [handleLoginPacket, processLogin]

/-- After any sign-ups, restarts and crashes, a login succeeds exactly for the password of a
sign-up, under its email, or under its name unless this is the email of a sign-up. -/
theorem Accounts.login_iff_signUp (env : TableEnv)
    (hashStr : List UInt8 → List UInt8) (hdecimal : Decimal hashStr)
    (ops : List (AccountOp hashStr)) (s : Accounts)
    (hfresh : Meets (exec env) Fresh (start []) ops)
    (hrun : Transition.run (exec env) (start []) ops = some s) (verify : Key → Key → Bool)
    (hverify : ∀ call, .signUp call ∈ ops → ∀ q,
      verify (cString (call.drawn.pwhash call.state.password)) q = true ↔ q = call.state.password)
    (identifier password : Key) (record : UserRecord) :
    s.users.handleLoginPacket verify true identifier password = .ok record ↔
      (identifier ≠ [] ∧ password ≠ []) ∧ ∃ call, .signUp call ∈ ops ∧ call.record = record ∧
        password = call.state.password ∧
        (call.state.email = identifier ∨ cString (call.state.username.take 31) = identifier ∧
          ∀ call', .signUp call' ∈ ops → call'.state.email ≠ identifier) := by
  have hholds := holds_of_run hdecimal hfresh hrun
  have hemails : (∀ v ∈ ops.filterMap AccountOp.record, cString v.email ≠ identifier) ↔
      ∀ call, .signUp call ∈ ops → call.state.email ≠ identifier := by
    constructor
    · intro h call hop
      simpa only [call.keys_record.1] using h _ (mem_filterMap_record.mpr ⟨call, hop, rfl⟩)
    · intro h v hv
      obtain ⟨call, hop, rfl⟩ := mem_filterMap_record.mp hv
      simpa only [call.keys_record.1] using h call hop
  rw [UserStore.handleLoginPacket_eq_ok_iff]
  refine and_congr_right fun hne => ?_
  rw [hholds.names.findByIdentifier_eq_some_iff hholds.users hne.1, hemails]
  constructor
  · rintro ⟨⟨hmem, hfound⟩, -, hpassword⟩
    obtain ⟨call, hop, rfl⟩ := mem_filterMap_record.mp hmem
    obtain ⟨hemail, hname, hhash⟩ := call.keys_record
    rw [hemail, hname] at hfound
    rw [hhash, hverify call hop] at hpassword
    exact ⟨call, hop, rfl, hpassword, hfound⟩
  · rintro ⟨call, hop, rfl, hpassword, hfound⟩
    obtain ⟨hemail, hname, hhash⟩ := call.keys_record
    rw [hemail, hname, hhash, hverify call hop]
    exact ⟨⟨mem_filterMap_record.mpr ⟨call, hop, rfl⟩, hfound⟩, rfl, hpassword⟩

def bobSignup : SpelledSignup fun _ => sampleHash 1 where
  state := signupOf "bob"
  drawn := sampleDrawn
  email := by decide +kernel
  length := by decide +kernel
  valid := valid_sampleDrawn
  spelled := by
    have hwords : words isSpace (signupOf "bob").username = [text "bob"] := by decide +kernel
    simp only [SignupState.Spelled, hwords]
    rfl

/-- A user signs up, the server crashes, and the user logs in. -/
theorem Accounts.login_iff_signUp_crash :
    ∃ s, Transition.run (exec (.fixed false)) (start []) [.signUp bobSignup, .crash] = some s ∧
      s.users.handleLoginPacket (fun _ q => decide (q = text "secret")) true (text "bob@a.com")
        (text "secret") = .ok (sampleRecord "bob") := by
  have hsome : (Transition.run (exec (.fixed false)) (start [])
      [.signUp bobSignup, .crash]).isSome = true := by
    decide +kernel
  obtain ⟨s, hrun⟩ := Option.isSome_iff_exists.mp hsome
  have hempty : loadUsersFromDatabase (start []).db = [] := by decide +kernel
  refine ⟨s, hrun, ?_⟩
  rw [login_iff_signUp _ _ decimal_sampleHash _ s ?_ hrun]
  · refine ⟨⟨by decide +kernel, by decide +kernel⟩, _, List.mem_cons_self, rfl, rfl, .inl ?_⟩
    rfl
  · intro call hop q
    obtain rfl : call = bobSignup := by simpa using hop
    simp [bobSignup, signupOf]
  · simp [Meets, Fresh, AccountOp.record, hempty]

end IocpChat

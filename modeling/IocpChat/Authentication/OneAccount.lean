import IocpChat.Authentication.UserStore
import IocpChat.Authentication.Verification

/-!
# One account per email

Nothing keeps an email from being registered twice.  `isAlreadySignup` looks at an index that
`writeTheData` does not keep, and only when a code is asked for; the mark of a verified email
stays; and `UserStore::Insert` refuses a record when the table has it already.  The same holds for
names, which the table does not look at.

So emails and names are told apart only by the sign-ups themselves.  If none arrives whose email
or name is that of another that is under way or of an account, and no user id is drawn twice, then
the records of the table and the accounts go together.

## Main definitions

* `SignUps.OneAccount` — records have different emails, and accounts.
* `SignUps.Distinct` — sign-ups with new emails and names, and new user ids.
-/

namespace IocpChat

open Words Transition

variable {setup : SignUpSetup}

/-! ## What holds -/

/-- The keys of the record that is made for a sign-up. -/
def SignupState.identity (state : SignupState) : Identity :=
  ⟨cString (state.email.take 63), cString (state.username.take 31)⟩

/-- The sign-up that a handler or a thread is about. -/
def SignUpCall.state? : SignUpCall → Option SignupState
  | .signUp state | .pushSignUp state | .register state | .addUser state _ => some state
  | _ => none

/-- The sign-ups of these handlers and threads and of the queue, and the accounts. -/
def identities (calls : List SignUpCall) (s : SignUp) : List Identity :=
  (calls.filterMap SignUpCall.state?).map SignupState.identity ++
    s.signUpQueue.map SignupState.identity ++ s.added.map UserRecord.identity

/-- The id that is drawn for a registration is new. -/
def SignUpCall.FreshId (db : Table) (e : SignUpChoice) : SignUpCall → Prop
  | .register _ => ∀ d ∈ e.drawn, fill 16 d.1.userId ∉ db.getAllRecords.map UserInfo.uid
  | _ => True

/-- A sign-up is plain, and its email and name are those of no other sign-up that is under way
and of no account.  User ids are new. -/
def SignUps.Distinct (s : SignUps) : SignUps.Action → Prop
  | .signUp state => state.Plain ∧ ∀ id ∈ identities s.calls s.shared, state.identity.Apart id
  | .run i e => ∀ call ∈ s.calls[i]?, call.FreshId s.shared.db e
  | .otpRequest _ | .otpVerify _ _ => True

instance (db : Table) (e : SignUpChoice) : DecidablePred (SignUpCall.FreshId db e)
  | .register _ =>
    have (d : { d : Drawn // d.Valid }) :
        Decidable (fill 16 d.1.userId ∉ db.getAllRecords.map UserInfo.uid) :=
      Cache.decidableNotMem ..
    Option.decidableForallMem e.drawn
  | .otpRequest _ | .pushOtp _ | .otpSenderLoop | .sendOtp _ | .otpVerify _ _ | .checkOtp _ _ _
  | .expireOtp _ | .setVerified _ | .eraseOtp _ | .resetVerified _ | .signUp _ | .pushSignUp _
  | .signupManager | .addUser _ _ | .done => .isTrue trivial

instance (s : SignUps) : DecidablePred s.Distinct
  | .signUp state =>
    inferInstanceAs (Decidable (state.Plain ∧ ∀ id ∈ identities s.calls s.shared,
      state.identity.Apart id))
  | .run i _ => Option.decidableForallMem s.calls[i]?
  | .otpRequest _ | .otpVerify _ _ => .isTrue trivial

/-- There is an account with the email and the user id of the record. -/
def SignUp.HasAccount (s : SignUp) (r : UserInfo) : Prop :=
  ∃ u, (UserStore.insertAll s.added).findByEmail r.email = some u ∧ cString u.email = r.email ∧
    u.userId = r.uid

/-- No two records of the table have the same email, and each has an account, or `signupManager`
is about to add it. -/
structure SignUps.OneAccount (setup : SignUpSetup) (s : SignUps) : Prop where
  emails : (s.shared.db.getAllRecords.map UserInfo.email).Nodup
  accounts : ∀ r ∈ s.shared.db.getAllRecords, s.shared.HasAccount r ∨
    ∃ state d, .addUser state d ∈ s.calls ∧
      cString (state.userRecord setup.hashStr d).email = r.email ∧
      (state.userRecord setup.hashStr d).userId = r.uid

/-! ## Records and accounts -/

/-- The emails and ids of the records of the table. -/
def liveKeys (db : Table) : List (Key × Key) := db.getAllRecords.map fun r => (r.email, r.uid)

/-- The email and id of the account that is about to be added. -/
def SignUpCall.pending : SignUpCall → Option (Key × Key)
  | .addUser state d => some (state.identity.email, fill 16 d.userId)
  | _ => none

/-- The emails and ids of the accounts, and of those about to be added. -/
def accountKeys (calls : List SignUpCall) (s : SignUp) : List (Key × Key) :=
  calls.filterMap SignUpCall.pending ++ s.added.map fun u => (cString u.email, u.userId)

/-- The invariant: sign-ups and accounts are apart, and there is an account for each record. -/
structure SignUps.Unique (s : SignUps) : Prop where
  sound : s.shared.db.Sound
  apart : (identities s.calls s.shared).Pairwise Identity.Apart
  live : (liveKeys s.shared.db).Perm (accountKeys s.calls s.shared)
  ids : ((liveKeys s.shared.db).map Prod.snd).Nodup

theorem cString_fill (n : ℕ) (src : List UInt8) : cString (fill n src) = cString (src.take n) := by
  have hzeros : ∀ k, (List.replicate k (0 : UInt8)).takeWhile (· ≠ 0) = [] := by
    intro k
    cases k <;> simp [List.replicate_succ]
  rw [cString, cString, fill, List.takeWhile_append, hzeros, List.append_nil]
  split
  next h => exact (List.takeWhile_prefix _).eq_of_length h |>.symm
  next => rfl

theorem SignupState.identity_userRecord (hashStr : List UInt8 → List UInt8) (state : SignupState)
    (d : Drawn) : (state.userRecord hashStr d).identity = state.identity := by
  simp only [UserRecord.identity, userRecord, identity, cString_fill, List.take_take]
  rfl

theorem SignupState.email_identity {state : SignupState} (hvalid : isValidEmail state.email = true)
    (hplain : state.Plain) : state.identity.email = state.email := by
  rw [identity, cString, List.take_of_length_le hplain.2, List.takeWhile_eq_self_iff]
  simpa using ne_zero_of_isValidEmail hvalid

/-! ## Steps -/

section Steps

variable {s s' : SignUp} {e : SignUpChoice} {call call' : SignUpCall}

theorem identities_cons (call : SignUpCall) (calls : List SignUpCall) (s : SignUp) :
    identities (call :: calls) s =
      call.state?.toList.map SignupState.identity ++ identities calls s := by
  cases h : call.state? <;> simp [identities, h]

theorem accountKeys_cons (call : SignUpCall) (calls : List SignUpCall) (s : SignUp) :
    accountKeys (call :: calls) s = call.pending.toList ++ accountKeys calls s := by
  cases h : call.pending <;> simp [accountKeys, h]

theorem identities_perm {calls calls' : List SignUpCall} (h : calls.Perm calls') (s : SignUp) :
    (identities calls s).Perm (identities calls' s) :=
  (((h.filterMap _).map _).append_right _).append_right _

theorem accountKeys_perm {calls calls' : List SignUpCall} (h : calls.Perm calls') (s : SignUp) :
    (accountKeys calls s).Perm (accountKeys calls' s) :=
  (h.filterMap _).append_right _

theorem identities_push (calls : List SignUpCall) (s : SignUp) (state : SignupState) :
    (identities calls { s with signUpQueue := s.signUpQueue ++ [state] }).Perm
      (state.identity :: identities calls s) := by
  simp [identities, ← List.append_assoc]
  rw [List.append_assoc _ [_]]
  exact List.perm_middle

theorem identities_pop (calls : List SignUpCall) {state : SignupState} {queue : List SignupState}
    (h : s.signUpQueue = state :: queue) :
    (state.identity :: identities calls { s with signUpQueue := queue }).Perm (identities calls s) := by
  simp [identities, h]
  exact List.perm_middle.symm

theorem identities_add (calls : List SignUpCall) (s : SignUp) (state : SignupState) (d : Drawn) :
    (identities calls { s with added := s.added ++ [state.userRecord setup.hashStr d] }).Perm
      (state.identity :: identities calls s) := by
  simp only [identities, List.map_append, List.map_cons, List.map_nil, ← List.append_assoc,
    SignupState.identity_userRecord]
  exact List.perm_append_singleton ..

theorem accountKeys_add (calls : List SignUpCall) (s : SignUp) (state : SignupState) (d : Drawn) :
    (accountKeys calls { s with added := s.added ++ [state.userRecord setup.hashStr d] }).Perm
      ((state.identity.email, fill 16 d.userId) :: accountKeys calls s) := by
  have hemail : cString (state.userRecord setup.hashStr d).email = state.identity.email :=
    congrArg Identity.email (state.identity_userRecord setup.hashStr d)
  simp [accountKeys, ← List.append_assoc, hemail]
  exact List.perm_append_singleton ..

/-- What a step does: no identity is added, and a record comes with its account. -/
structure SignUp.Advances (s s' : SignUp) (call call' : SignUpCall) : Prop where
  sound : s'.db.Sound
  claimed : ∀ rest, (identities (call' :: rest) s').Subperm (identities (call :: rest) s)
  live : ∃ new : Option (Key × Key), liveKeys s'.db = liveKeys s.db ++ new.toList ∧
    (∀ rest, (accountKeys (call' :: rest) s').Perm (accountKeys (call :: rest) s ++ new.toList)) ∧
    ∀ k ∈ new, k.2 ∉ (liveKeys s.db).map Prod.snd

/-- A step that touches neither the table, nor the queue of sign-ups, nor the accounts. -/
theorem SignUp.Advances.frame (hsound : s.db.Sound) (hdb : s'.db = s.db)
    (hqueue : s'.signUpQueue = s.signUpQueue) (hadded : s'.added = s.added)
    (hstate : call'.state? = none ∨ call'.state? = call.state?) (hpending : call.pending = none)
    (hpending' : call'.pending = none) : SignUp.Advances s s' call call' := by
  have hident : ∀ calls, identities calls s' = identities calls s := by
    intro calls
    rw [identities, identities, hqueue, hadded]
  have hacc : ∀ calls, accountKeys calls s' = accountKeys calls s := by
    intro calls
    rw [accountKeys, accountKeys, hadded]
  refine ⟨hdb ▸ hsound, ?_, none, by simp [hdb], ?_, by simp⟩
  · intro rest
    rw [identities_cons, identities_cons, hident]
    rcases hstate with hstate | hstate
    · rw [hstate]
      exact (List.sublist_append_right ..).subperm
    · rw [hstate]
  · intro rest
    rw [accountKeys_cons, accountKeys_cons, hacc, hpending, hpending', Option.toList_none,
      List.append_nil]

theorem SignupState.keys_newRecord {state : SignupState} {d : Drawn} {r : UserInfo}
    (hvalid : isValidEmail state.email = true) (hplain : state.Plain) (hd : d.Valid)
    (hr : newRecord setup.table.crc32 (state.dbData setup.hashStr d) = some r) :
    (r.email, r.uid) = (state.identity.email, fill 16 d.userId) := by
  rw [email_newRecord hvalid hplain hd hr, email_identity hvalid hplain, uid_newRecord hr, firstWord,
    words_dbData setup.decimal hd hvalid]
  rfl

theorem SignUp.Advances.register {state : SignupState} {d : Drawn} {ok : Bool} (hsound : s.db.Sound)
    (hready : state.Ready setup s.events) (hd : d.Valid)
    (hfresh : fill 16 d.userId ∉ s.db.getAllRecords.map UserInfo.uid)
    (hwrite : s.write setup (state.dbData setup.hashStr d) = some (ok, s')) :
    SignUp.Advances s s' (.register state) (if ok then .addUser state d else .signupManager) := by
  obtain ⟨⟨ok', db⟩, htable, heq⟩ := Option.map_eq_some_iff.mp hwrite
  cases heq
  rcases Table.writeTheData_eq_some htable with ⟨rfl, rfl⟩ | ⟨rfl, r, cache, hr, -, rfl⟩
  · exact SignUp.Advances.frame hsound rfl rfl rfl (.inl rfl) rfl rfl
  · have hkeys := SignupState.keys_newRecord hready.1.1 hready.2 hd hr
    have hlive : liveKeys { s.db.store setup.table r.uid (cipher r) with cache } =
        liveKeys s.db ++ [(state.identity.email, fill 16 d.userId)] := by
      have hrecords : ({ s.db.store setup.table r.uid (cipher r) with cache } : Table).getAllRecords =
          s.db.getAllRecords ++ [r] := by
        change (s.db.store setup.table r.uid (cipher r)).records.filter _ = _
        rw [Table.records_store hsound.fits, cipher_cipher, List.filter_append]
        simp [isDeleted_newRecord hr, Table.getAllRecords]
      rw [liveKeys, hrecords, List.map_append, List.map_singleton, hkeys]
      rfl
    have hstored := hsound.store setup.table r
    refine ⟨⟨hstored.fits, hstored.page⟩, fun rest => ?_,
      some (state.identity.email, fill 16 d.userId), hlive, fun rest => ?_, ?_⟩
    · rfl
    · rw [accountKeys_cons, accountKeys_cons]
      exact List.perm_append_comm
    · intro k hk
      cases hk
      simpa [liveKeys, Function.comp_def] using hfresh

theorem advances_of_exec (hauth : setup.authManager = true) (hsound : s.db.Sound)
    (hknows : call.Knows setup s.events) (hfresh : call.FreshId s.db e)
    (hexec : s.exec setup e call = some (s', call')) : SignUp.Advances s s' call call' := by
  cases call with
  | otpRequest email =>
    simp only [SignUp.exec] at hexec
    split at hexec
    next =>
      cases hexec
      exact .frame hsound rfl rfl rfl (.inl rfl) rfl rfl
    next =>
      split at hexec <;> cases hexec <;> exact .frame hsound rfl rfl rfl (.inl rfl) rfl rfl
  | otpSenderLoop | otpVerify =>
    simp only [SignUp.exec] at hexec
    split at hexec <;> cases hexec
    all_goals exact .frame hsound rfl rfl rfl (.inl rfl) rfl rfl
  | checkOtp email otp copy =>
    simp only [SignUp.exec] at hexec
    split at hexec
    next =>
      cases hexec
      refine .frame hsound rfl rfl rfl (.inl ?_) rfl ?_ <;> split <;> rfl
    next =>
      split at hexec <;> cases hexec <;> exact .frame hsound rfl rfl rfl (.inl rfl) rfl rfl
  | pushOtp | sendOtp | expireOtp | resetVerified =>
    cases hexec
    exact .frame hsound rfl rfl rfl (.inl rfl) rfl rfl
  | setVerified | eraseOtp =>
    cases hexec
    refine .frame hsound rfl rfl rfl (.inl ?_) rfl ?_ <;> split <;> rfl
  | signUp state =>
    cases hexec
    split
    next => exact .frame hsound rfl rfl rfl (.inr rfl) rfl rfl
    next => exact .frame hsound rfl rfl rfl (.inl rfl) rfl rfl
  | pushSignUp state =>
    cases hexec
    refine ⟨hsound, fun rest => ?_, none, (List.append_nil _).symm, fun rest => ?_, by simp⟩
    · rw [identities_cons, identities_cons]
      exact (identities_push rest s state).subperm
    · rw [accountKeys_cons, accountKeys_cons, Option.toList_none, List.append_nil]
      rfl
  | signupManager =>
    simp only [SignUp.exec] at hexec
    split at hexec
    next => cases hexec
    next state queue hqueue =>
      cases hexec
      refine ⟨hsound, fun rest => ?_, none, (List.append_nil _).symm, fun rest => ?_, by simp⟩
      · rw [identities_cons, identities_cons]
        exact (identities_pop rest hqueue).subperm
      · rw [accountKeys_cons, accountKeys_cons, Option.toList_none, List.append_nil]
        rfl
  | register state =>
    simp only [SignUp.exec] at hexec
    split at hexec
    next =>
      cases hexec
      exact .frame hsound rfl rfl rfl (.inl rfl) rfl rfl
    next d hd =>
      obtain ⟨⟨ok, s₁⟩, hwrite, heq⟩ := Option.map_eq_some_iff.mp hexec
      have h := SignUp.Advances.register hsound hknows d.2 (hfresh d hd) hwrite
      simp only [hauth, and_true] at heq
      cases heq
      exact h
  | addUser state d =>
    cases hexec
    refine ⟨hsound, fun rest => ?_, none, (List.append_nil _).symm, fun rest => ?_, by simp⟩
    · rw [identities_cons, identities_cons]
      exact (identities_add rest s state d).subperm
    · rw [accountKeys_cons, accountKeys_cons, Option.toList_none, List.append_nil]
      exact accountKeys_add rest s state d
  | done => cases hexec

end Steps

/-! ## Runs -/

namespace SignUps

variable {s s' : SignUps} {e : SignUpChoice}

theorem unique_opened : (opened []).Unique :=
  ⟨Table.sound_initStorage [], .nil, .nil, .nil⟩

theorem Unique.spawn {call : SignUpCall} (h : s.Unique) (hpending : call.pending = none)
    (happart : ∀ state ∈ call.state?, ∀ id ∈ identities s.calls s.shared, state.identity.Apart id) :
    Unique (s.spawn call) := by
  have hperm : (s.calls ++ [call]).Perm (call :: s.calls) := List.perm_append_singleton ..
  refine ⟨h.sound, ?_, ?_, h.ids⟩
  · refine (List.Perm.pairwise_iff Identity.Apart.symm (identities_perm hperm _)).mpr ?_
    rw [identities_cons, List.pairwise_append]
    refine ⟨by cases call.state? <;> simp, h.apart, ?_⟩
    intro a ha id hid
    obtain ⟨state, hstate, rfl⟩ := List.mem_map.mp ha
    exact happart state (Option.mem_toList.mp hstate) id hid
  · have hkeys := accountKeys_perm hperm s.shared
    rw [accountKeys_cons, hpending] at hkeys
    exact h.live.trans hkeys.symm

theorem Unique.run {i : ℕ} (hauth : setup.authManager = true) (hcertified : s.Certified setup)
    (h : s.Unique) (hfresh : ∀ call ∈ s.calls[i]?, call.FreshId s.shared.db e)
    (hrun : s.run (SignUp.exec setup) i e = some s') : s'.Unique := by
  obtain ⟨call, call', hcall, hperm, hperm', hexec⟩ := Config.run_spec hrun
  have hadvances := advances_of_exec hauth h.sound
    (hcertified.2 call (List.mem_of_getElem? hcall)) (hfresh call hcall) hexec
  obtain ⟨new, hlive, hkeys, hnew⟩ := hadvances.live
  refine ⟨hadvances.sound, ?_, ?_, ?_⟩
  · have hsub : (identities s'.calls s'.shared).Subperm (identities s.calls s.shared) :=
      ((identities_perm hperm' _).subperm.trans (hadvances.claimed _)).trans
        (identities_perm hperm _).symm.subperm
    obtain ⟨kept, hkept, hsublist⟩ := hsub
    exact (List.Perm.pairwise_iff Identity.Apart.symm hkept).mp (h.apart.sublist hsublist)
  · rw [hlive]
    calc liveKeys s.shared.db ++ new.toList
      _ |>.Perm (accountKeys s.calls s.shared ++ new.toList) := h.live.append_right _
      _ |>.Perm (accountKeys (call :: s.calls.eraseIdx i) s.shared ++ new.toList) :=
          (accountKeys_perm hperm _).append_right _
      _ |>.Perm (accountKeys (call' :: s.calls.eraseIdx i) s'.shared) := (hkeys _).symm
      _ |>.Perm (accountKeys s'.calls s'.shared) := (accountKeys_perm hperm' _).symm
  · rw [hlive, List.map_append]
    cases new with
    | none => simpa using h.ids
    | some k => 
        rw [Option.toList_some, List.map_singleton, List.nodup_append_comm]
        exact List.nodup_cons.mpr ⟨hnew k rfl, h.ids⟩

theorem Unique.step {a : Action} (hauth : setup.authManager = true) (hcertified : s.Certified setup)
    (h : s.Unique) (hdistinct : s.Distinct a) (hstep : s.step setup a = some s') : s'.Unique := by
  cases a with
  | otpRequest | otpVerify =>
    cases hstep
    exact h.spawn rfl (by simp [SignUpCall.state?])
  | signUp state =>
    cases hstep
    refine h.spawn rfl ?_
    intro state' hstate'
    cases hstate'
    exact hdistinct.2
  | run i e => exact h.run hauth hcertified hdistinct hstep

theorem Distinct.plain {a : Action} (h : s.Distinct a) : s.Plain a := by
  cases a with
  | signUp state => exact h.1
  | otpRequest email | otpVerify email otp | run i e => trivial

theorem emails_sublist (calls : List SignUpCall) (s : SignUp) :
    ((accountKeys calls s).map Prod.fst).Sublist ((identities calls s).map Identity.email) := by
  have hpending : ((calls.filterMap SignUpCall.pending).map Prod.fst).Sublist
      (((calls.filterMap SignUpCall.state?).map SignupState.identity).map Identity.email) := by
    induction calls with
    | nil => simp
    | cons call calls ih =>
      cases call with
      | addUser state d =>
        simp only [List.filterMap_cons, SignUpCall.pending, SignUpCall.state?, List.map_cons]
        exact ih.cons_cons _
      | signUp state | pushSignUp state | register state =>
        simp only [List.filterMap_cons, SignUpCall.pending, SignUpCall.state?, List.map_cons]
        exact ih.cons _
      | _ => simpa only [List.filterMap_cons, SignUpCall.pending, SignUpCall.state?] using ih
  have hadded : (s.added.map fun u => (cString u.email, u.userId)).map Prod.fst =
      (s.added.map UserRecord.identity).map Identity.email := by
    simp [UserRecord.identity, Function.comp_def]
  simp only [accountKeys, identities, List.map_append, List.append_assoc, hadded]
  exact hpending.append (List.sublist_append_right ..)

theorem Unique.pairwise_added (h : s.Unique) : s.shared.added.Pairwise UserRecord.Apart := by
  have hapart : s.shared.added.Pairwise fun u v => u.identity.Apart v.identity :=
    List.pairwise_map.mp (h.apart.sublist (List.sublist_append_right ..))
  have hids : s.shared.added.Pairwise fun u v => u.userId ≠ v.userId := by
    have hall : ((accountKeys s.calls s.shared).map Prod.snd).Nodup :=
      (h.live.map _).nodup_iff.mp h.ids
    rw [accountKeys, List.map_append, List.map_map] at hall
    exact List.pairwise_map.mp (hall.sublist (List.sublist_append_right ..))
  exact hapart.and hids

/-- **What the invariant says** of records and accounts. -/
theorem Unique.oneAccount (h : s.Unique) : s.OneAccount setup := by
  constructor
  · have hemails : ((accountKeys s.calls s.shared).map Prod.fst).Nodup := by
      refine List.Nodup.sublist (emails_sublist ..) ?_
      exact List.pairwise_map.mpr (h.apart.imp fun hapart => hapart.1)
    have hlive := (h.live.map Prod.fst).nodup_iff.mpr hemails
    rwa [liveKeys, List.map_map] at hlive
  · intro r hr
    have hkey : (r.email, r.uid) ∈ accountKeys s.calls s.shared :=
      h.live.mem_iff.mp (List.mem_map_of_mem hr)
    rcases List.mem_append.mp hkey with hpending | hadded
    · right
      obtain ⟨call, hcall, hcallKey⟩ := List.mem_filterMap.mp hpending
      cases call with
      | addUser state d =>
        obtain ⟨hemail, huid⟩ := Prod.mk.inj (Option.some.inj hcallKey)
        refine ⟨state, d, hcall, ?_, huid⟩
        rw [← hemail]
        exact congrArg Identity.email (state.identity_userRecord setup.hashStr d)
      | _ => cases hcallKey
    · left
      obtain ⟨u, hu, hukey⟩ := List.mem_map.mp hadded
      obtain ⟨hemail, huid⟩ := Prod.mk.inj hukey
      have hholds := UserStore.holds_insertAll h.pairwise_added
      exact ⟨u, by rw [← hemail, hholds.findByEmail hu], hemail, huid⟩

/-- **One account per email.**  However packets, handlers and threads are interleaved on a table
that was empty, if no sign-up arrives whose email or name is taken, and user ids are new, then no
two records have the same email, and each has its account. -/
theorem oneAccount_of_distinct (setup : SignUpSetup) (hauth : setup.authManager = true) (s : SignUps)
    (hreach : Reaches (step setup) Distinct (opened []) s) : s.OneAccount setup := by
  have hinv : s.Certified setup ∧ s.Unique := by
    apply hreach.invariant
    · exact ⟨certified_opened setup [], unique_opened⟩
    · intro s a s' _ h hdistinct hstep
      exact ⟨h.1.step hdistinct.plain hstep, h.2.step hauth h.1 hdistinct hstep⟩
  exact hinv.2.oneAccount

/-- Another client's, with another id drawn. -/
def secondDrawn : Drawn := ⟨text "987654321", fun _ => sampleHash 0⟩

theorem valid_secondDrawn : secondDrawn.Valid where
  length_userId := by decide +kernel
  userId := by decide +kernel
  head_pwhash := valid_sampleDrawn.head_pwhash
  length_pwhash := valid_sampleDrawn.length_pwhash
  pwhash := valid_sampleDrawn.pwhash

def secondChoice : SignUpChoice := ⟨0, text "1234", true, some ⟨secondDrawn, valid_secondDrawn⟩⟩

/-- Another client asks for a code, presents it, and signs up with its own email and name. -/
def secondRun : List Action :=
  [.otpRequest (text "rob@a.com"), .run 5 secondChoice, .run 5 secondChoice,
    .run 0 secondChoice, .run 0 secondChoice,
    .otpVerify (text "rob@a.com") (text "1234"), .run 6 secondChoice, .run 6 secondChoice,
    .run 6 secondChoice, .run 6 secondChoice,
    .signUp { signupOf "rob" with email := text "rob@a.com" }, .run 7 secondChoice,
    .run 7 secondChoice, .run 1 secondChoice, .run 1 secondChoice, .run 1 secondChoice]

theorem oneAccount_of_bob :
    ∃ s, Transition.run (step sampleSetup) (opened []) (sampleRun "bob" ++ secondRun) = some s ∧
      s.shared.db.getAllRecords.length = 2 ∧ s.OneAccount sampleSetup := by
  obtain ⟨s, hrun, hlen⟩ := exists_run (step sampleSetup) (opened []) (sampleRun "bob" ++ secondRun)
    (fun s => s.shared.db.getAllRecords.length = 2) (by decide +kernel)
  exact ⟨s, hrun, hlen,
    oneAccount_of_distinct _ rfl s (reaches_of_run (by decide +kernel) hrun)⟩

/-- A client has signed up with a verified email.  The same email signs up again with another
name, and the table has two records with it. -/
theorem not_oneAccount_signUp_twice :
    ∃ s, Transition.run (step sampleSetup) (opened []) (sampleRun "bob" ++
        [.signUp (signupOf "rob"), .run 5 secondChoice, .run 5 secondChoice, .run 1 secondChoice,
          .run 1 secondChoice, .run 1 secondChoice]) = some s ∧
      s.calls.all (fun call => call.state?.isNone) ∧
      s.shared.db.getAllRecords.map UserInfo.email = [text "bob@a.com", text "bob@a.com"] ∧
      ¬ s.OneAccount sampleSetup := by
  obtain ⟨s, hrun, hcalls, hemails⟩ := exists_run (step sampleSetup) (opened []) (sampleRun "bob" ++
      [.signUp (signupOf "rob"), .run 5 secondChoice, .run 5 secondChoice, .run 1 secondChoice,
        .run 1 secondChoice, .run 1 secondChoice])
    (fun s => s.calls.all (fun call => call.state?.isNone) ∧
      s.shared.db.getAllRecords.map UserInfo.email = [text "bob@a.com", text "bob@a.com"])
    (by decide +kernel)
  refine ⟨s, hrun, hcalls, hemails, ?_⟩
  intro h
  have hnodup := h.emails
  rw [hemails] at hnodup
  simp at hnodup

end SignUps

end IocpChat

import IocpChat.Authentication.SignUpThreads

/-!
# Accounts have verified emails

An email gets into the queue for codes only if it is valid, a code is stored only for an email
from that queue, an email is marked as verified only by a code with the stored hash that is not
expired, and a sign-up is queued only if its email is marked.  Each of these facts stays true once
it is: the mark may be taken back, but what it stood for has happened.

What reaches the records is another matter.  The line for the table is taken apart at spaces, so
the email in it is the one that was verified only if the name has no space in it; and both records
hold 63 bytes of an email.

## Main definitions

* `Verified` — a right code was presented in time.
* `SignUp.Accounted` — all records have verified emails.
* `SignupState.Plain` — the email of a sign-up reaches the records.
-/

namespace IocpChat

open Words Transition

variable {setup : SignUpSetup} {s s' : SignUp} {e : SignUpChoice} {call call' : SignUpCall}
  {events events' : List OtpEvent} {email : List UInt8}

/-! ## What holds -/

/-- A code with the hash of one that was made for the email was presented, and not after it
expired. -/
def Verified (setup : SignUpSetup) (events : List OtpEvent) (email : List UInt8) : Prop :=
  ∃ code otp time expiry, .presented email code time ∈ events ∧ .generated email otp expiry ∈ events ∧
    setup.hashStr code = setup.hashStr otp ∧ time ≤ expiry

/-- An email that an account may have. -/
def Entitled (setup : SignUpSetup) (events : List OtpEvent) (email : List UInt8) : Prop :=
  isValidEmail email = true ∧ Verified setup events email

/-- The email of every record that was written to the table or added to `AuthManager` is valid and
was verified before. -/
structure SignUp.Accounted (setup : SignUpSetup) (s : SignUp) : Prop where
  written : ∀ r ∈ s.written, Entitled setup s.events r.email
  added : ∀ u ∈ s.added, Entitled setup s.events (u.email.takeWhile (· ≠ 0))

/-- The name is not more than one word, and the email fits. -/
def SignupState.Plain (state : SignupState) : Prop :=
  (words isSpace state.username).length ≤ 1 ∧ state.email.length ≤ 63

instance (state : SignupState) : Decidable state.Plain := inferInstanceAs (Decidable (_ ∧ _))

/-- Every sign-up that arrives is plain. -/
def SignUps.Plain (_ : SignUps) : SignUps.Action → Prop
  | .signUp state => state.Plain
  | _ => True

instance (s : SignUps) : DecidablePred s.Plain
  | .signUp state => inferInstanceAs (Decidable state.Plain)
  | .otpRequest _ | .otpVerify _ _ | .run _ _ => .isTrue trivial

/-! ## The invariant -/

/-- The entry is for a code that was made for this valid email. -/
def OtpData.Made (setup : SignUpSetup) (events : List OtpEvent) (email : List UInt8) (d : OtpData) : Prop :=
  isValidEmail email = true ∧ ∃ otp, .generated email otp d.expiry ∈ events ∧ d.otp = setup.hashStr otp

/-- A sign-up that may be registered. -/
def SignupState.Ready (setup : SignUpSetup) (events : List OtpEvent) (state : SignupState) : Prop :=
  Entitled setup events state.email ∧ state.Plain

/-- What a handler or a thread knows at each point. -/
def SignUpCall.Knows (setup : SignUpSetup) (events : List OtpEvent) : SignUpCall → Prop
  | .pushOtp email | .sendOtp email => isValidEmail email = true
  | .checkOtp email _ copy => copy.Made setup events email
  | .setVerified email => Entitled setup events email
  | .signUp state => state.Plain
  | .pushSignUp state | .register state | .addUser state _ => state.Ready setup events
  | _ => True

/-- What holds of the maps, the queues and the records. -/
structure SignUp.Certified (setup : SignUpSetup) (s : SignUp) : Prop where
  otpQueue : ∀ email ∈ s.otpQueue, isValidEmail email = true
  otpChecker : ∀ email d, s.otpChecker email = some d → d.Made setup s.events email
  emailVerified : ∀ email, s.emailVerified email = some true → Entitled setup s.events email
  signUpQueue : ∀ state ∈ s.signUpQueue, state.Ready setup s.events
  written : ∀ r ∈ s.written, Entitled setup s.events r.email
  added : ∀ u ∈ s.added, Entitled setup s.events (u.email.takeWhile (· ≠ 0))

theorem Verified.mono (h : Verified setup events email) (hle : events ⊆ events') :
    Verified setup events' email := by
  obtain ⟨code, otp, time, expiry, hpresented, hgenerated, hrest⟩ := h
  exact ⟨code, otp, time, expiry, hle hpresented, hle hgenerated, hrest⟩

theorem Entitled.mono (h : Entitled setup events email) (hle : events ⊆ events') :
    Entitled setup events' email :=
  ⟨h.1, h.2.mono hle⟩

theorem OtpData.Made.mono {d : OtpData} (h : d.Made setup events email) (hle : events ⊆ events') :
    d.Made setup events' email := by
  obtain ⟨hvalid, otp, hgenerated, hhash⟩ := h
  exact ⟨hvalid, otp, hle hgenerated, hhash⟩

theorem SignupState.Ready.mono {state : SignupState} (h : state.Ready setup events)
    (hle : events ⊆ events') : state.Ready setup events' :=
  ⟨h.1.mono hle, h.2⟩

theorem SignUpCall.Knows.mono (h : call.Knows setup events) (hle : events ⊆ events') :
    call.Knows setup events' := by
  cases call with
  | checkOtp email otp copy => exact OtpData.Made.mono h hle
  | setVerified email => exact Entitled.mono h hle
  | pushSignUp | register | addUser => exact SignupState.Ready.mono h hle
  | _ => exact h

namespace SignUp.Certified

theorem log (h : s.Certified setup) (event : OtpEvent) :
    { s with events := s.events ++ [event] }.Certified setup := by
  have hle : s.events ⊆ s.events ++ [event] := List.subset_append_left ..
  exact
    { otpQueue := h.otpQueue
      otpChecker := fun email d hd => (h.otpChecker email d hd).mono hle
      emailVerified := fun email hv => (h.emailVerified email hv).mono hle
      signUpQueue := fun state hstate => (h.signUpQueue state hstate).mono hle
      written := fun r hr => (h.written r hr).mono hle
      added := fun u hu => (h.added u hu).mono hle }

theorem setOtp (h : s.Certified setup) {d : Option OtpData}
    (hd : ∀ d' ∈ d, d'.Made setup s.events email) :
    { s with otpChecker := Function.update s.otpChecker email d }.Certified setup := by
  refine { h with otpChecker := ?_ }
  intro email' d' (hd' : Function.update s.otpChecker email d email' = some d')
  by_cases heq : email' = email
  · subst heq
    rw [Function.update_self] at hd'
    exact hd d' hd'
  · rw [Function.update_of_ne heq] at hd'
    exact h.otpChecker email' d' hd'

theorem setVerified (h : s.Certified setup) {b : Bool} (hb : b = true → Entitled setup s.events email) :
    { s with emailVerified := Function.update s.emailVerified email (some b) }.Certified setup := by
  refine { h with emailVerified := ?_ }
  intro email' (hv : Function.update s.emailVerified email (some b) email' = some true)
  by_cases heq : email' = email
  · subst heq
    rw [Function.update_self] at hv
    exact hb (Option.some.inj hv)
  · rw [Function.update_of_ne heq] at hv
    exact h.emailVerified email' hv

end SignUp.Certified

/-! ## The email of a record -/

theorem takeWhile_fill {n : ℕ} {src : List UInt8} (hlen : src.length ≤ n) (hzero : ∀ b ∈ src, b ≠ 0) :
    (fill n src ++ [0]).takeWhile (· ≠ 0) = src := by
  rw [fill, List.take_of_length_le hlen, List.append_assoc, ← List.replicate_succ']
  rw [List.takeWhile_append_of_pos (by simpa using hzero)]
  simp [List.replicate_succ]

theorem ne_zero_of_isValidEmail (h : isValidEmail email = true) : ∀ b ∈ email, b ≠ 0 := by
  rintro b hb rfl
  have hchar := List.all_eq_true.mp (all_of_isValidEmail h).2 0 hb
  cases hchar

namespace SignupState

variable {state : SignupState} {d : Drawn} {r : UserInfo}

theorem email_userRecord (hvalid : isValidEmail state.email = true) (hplain : state.Plain) :
    (state.userRecord setup.hashStr d).email.takeWhile (· ≠ 0) = state.email := by
  rw [userRecord, fill_succ_take 63]
  exact takeWhile_fill hplain.2 (ne_zero_of_isValidEmail hvalid)

theorem email_newRecord (hvalid : isValidEmail state.email = true) (hplain : state.Plain) (hd : d.Valid)
    (hr : newRecord setup.table.crc32 (state.dbData setup.hashStr d) = some r) : r.email = state.email := by
  have hwords := words_dbData setup.decimal hd hvalid
  match hname : words isSpace state.username with
  | [] =>
    obtain ⟨parsed, hparsed, -⟩ := Option.map_eq_some_iff.mp hr
    have hlen := length_of_parseInput hparsed
    rw [hwords, hname] at hlen
    simp at hlen
  | [name] =>
    rw [hname] at hwords
    have hemail : Field.email.get r = fill 63 state.email ++ [0] :=
      congrArg UserRecord.email (loadRecord_eq hr hwords)
    rw [UserInfo.email, hemail]
    exact takeWhile_fill hplain.2 (ne_zero_of_isValidEmail hvalid)
  | _ :: _ :: _ =>
    have hone := hplain.1
    rw [hname] at hone
    simp at hone

end SignupState

/-! ## Steps -/

namespace SignUp.Certified

theorem write {state : SignupState} {d : Drawn} {ok : Bool} (h : s.Certified setup)
    (hready : state.Ready setup s.events) (hd : d.Valid)
    (hwrite : s.write setup (state.dbData setup.hashStr d) = some (ok, s')) :
    s'.Certified setup ∧ s'.events = s.events := by
  obtain ⟨⟨ok', db⟩, -, heq⟩ := Option.map_eq_some_iff.mp hwrite
  cases heq
  refine ⟨{ h with written := ?_ }, rfl⟩
  cases ok with
  | false => exact h.written
  | true =>
    intro r hr
    rcases List.mem_append.mp hr with hr | hr
    · exact h.written r hr
    · rw [SignupState.email_newRecord hready.1.1 hready.2 hd (Option.mem_toList.mp hr)]
      exact hready.1

theorem checkOtp {email otp : List UInt8} {copy : OtpData} (h : s.Certified setup)
    (hknows : (SignUpCall.checkOtp email otp copy).Knows setup s.events)
    (hexec : s.exec setup e (.checkOtp email otp copy) = some (s', call')) :
    s'.Certified setup ∧ call'.Knows setup s'.events ∧ s.events ⊆ s'.events := by
  have hlog := h.log (.presented email otp e.now)
  have hle : s.events ⊆ s.events ++ [.presented email otp e.now] := List.subset_append_left ..
  simp only [SignUp.exec] at hexec
  split at hexec
  next =>
    cases hexec
    refine ⟨hlog, ?_, hle⟩
    split <;> trivial
  next hlimits =>
    have hlogs := hlog.log (.compared email copy.number)
    have hles : s.events ⊆ (s.events ++ [.presented email otp e.now]) ++ [.compared email copy.number] :=
      List.Subset.trans hle (List.subset_append_left ..)
    split at hexec
    next hhash =>
      cases hexec
      obtain ⟨hvalid, made, hgenerated, hmade⟩ := hknows
      refine ⟨hlogs, ⟨hvalid, otp, made, e.now, copy.expiry, by simp, hles hgenerated, ?_, ?_⟩, hles⟩
      · rw [← hhash, hmade]
      · omega
    next =>
      cases hexec
      exact ⟨hlogs, trivial, hles⟩

theorem exec (h : s.Certified setup) (hknows : call.Knows setup s.events)
    (hexec : s.exec setup e call = some (s', call')) :
    s'.Certified setup ∧ call'.Knows setup s'.events ∧ s.events ⊆ s'.events := by
  cases call with
  | otpRequest email =>
    simp only [SignUp.exec] at hexec
    split at hexec
    next =>
      cases hexec
      exact ⟨h, trivial, fun _ => id⟩
    next hvalid =>
      split at hexec
      next =>
        cases hexec
        exact ⟨h, trivial, fun _ => id⟩
      next =>
        cases hexec
        have hvalid : isValidEmail email = true := by simpa using hvalid
        exact ⟨h, hvalid, fun _ => id⟩
  | pushOtp email =>
    cases hexec
    refine ⟨{ h with otpQueue := ?_ }, trivial, fun _ => id⟩
    exact List.forall_mem_append.mpr ⟨h.otpQueue, List.forall_mem_singleton.mpr hknows⟩
  | otpSenderLoop =>
    simp only [SignUp.exec] at hexec
    split at hexec
    next => cases hexec
    next email queue hqueue =>
      cases hexec
      obtain ⟨hemail, hrest⟩ := List.forall_mem_cons.mp (hqueue ▸ h.otpQueue)
      exact ⟨{ h with otpQueue := hrest }, hemail, fun _ => id⟩
  | sendOtp email =>
    cases hexec
    refine ⟨(h.log _).setOtp ?_, trivial, List.subset_append_left ..⟩
    intro d hd
    cases hd
    exact ⟨hknows, e.otp, by simp, rfl⟩
  | otpVerify email otp =>
    simp only [SignUp.exec] at hexec
    split at hexec
    next =>
      cases hexec
      exact ⟨h, trivial, fun _ => id⟩
    next d hd =>
      cases hexec
      have hmade := h.otpChecker email d hd
      refine ⟨h.setOtp ?_, hmade, fun _ => id⟩
      intro d' hd'
      cases hd'
      exact hmade
  | checkOtp email otp copy => exact h.checkOtp hknows hexec
  | expireOtp email =>
    cases hexec
    exact ⟨h.setOtp (by simp), trivial, fun _ => id⟩
  | setVerified email =>
    cases hexec
    refine ⟨h.setVerified fun _ => hknows, ?_, fun _ => id⟩
    split <;> trivial
  | eraseOtp email =>
    cases hexec
    refine ⟨h.setOtp (by simp), ?_, fun _ => id⟩
    split <;> trivial
  | resetVerified email =>
    cases hexec
    exact ⟨h.setVerified (by simp), trivial, fun _ => id⟩
  | signUp state =>
    cases hexec
    refine ⟨h, ?_, fun _ => id⟩
    split
    next hverified => exact ⟨h.emailVerified _ hverified, hknows⟩
    next => trivial
  | pushSignUp state =>
    cases hexec
    refine ⟨{ h with signUpQueue := ?_ }, trivial, fun _ => id⟩
    exact List.forall_mem_append.mpr ⟨h.signUpQueue, List.forall_mem_singleton.mpr hknows⟩
  | signupManager =>
    simp only [SignUp.exec] at hexec
    split at hexec
    next => cases hexec
    next state queue hqueue =>
      cases hexec
      obtain ⟨hstate, hrest⟩ := List.forall_mem_cons.mp (hqueue ▸ h.signUpQueue)
      exact ⟨{ h with signUpQueue := hrest }, hstate, fun _ => id⟩
  | register state =>
    simp only [SignUp.exec] at hexec
    split at hexec
    next =>
      cases hexec
      exact ⟨h, trivial, fun _ => id⟩
    next d hd =>
      obtain ⟨⟨ok, s₁⟩, hwrite, heq⟩ := Option.map_eq_some_iff.mp hexec
      cases heq
      obtain ⟨hcertified, hevents⟩ := h.write hknows d.2 hwrite
      refine ⟨hcertified, ?_, by rw [hevents]; exact fun _ => id⟩
      rw [hevents]
      split
      next => exact hknows
      next => trivial
  | addUser state d =>
    cases hexec
    refine ⟨{ h with added := ?_ }, trivial, fun _ => id⟩
    refine List.forall_mem_append.mpr ⟨h.added, List.forall_mem_singleton.mpr ?_⟩
    rw [SignupState.email_userRecord hknows.1.1 hknows.2]
    exact hknows.1
  | done => cases hexec

end SignUp.Certified

theorem SignUp.certified_opened (file : List UserInfo) : (SignUp.opened file).Certified setup := by
  constructor <;> simp [SignUp.opened]

/-- The invariant of handlers and threads together. -/
def SignUps.Certified (setup : SignUpSetup) (s : SignUps) : Prop :=
  s.shared.Certified setup ∧ ∀ call ∈ s.calls, call.Knows setup s.shared.events

namespace SignUps

variable {s s' : SignUps}

theorem certified_opened (setup : SignUpSetup) (file : List UserInfo) : (opened file).Certified setup := by
  refine ⟨SignUp.certified_opened file, ?_⟩
  intro call hcall
  simp [opened] at hcall
  rcases hcall with rfl | rfl <;> trivial

theorem Certified.spawn (h : s.Certified setup) (hknows : call.Knows setup s.shared.events) :
    Certified setup (s.spawn call) := by
  exact ⟨h.1, List.forall_mem_append.mpr ⟨h.2, List.forall_mem_singleton.mpr hknows⟩⟩

theorem Certified.run {i : ℕ} (h : s.Certified setup) (hrun : s.run (SignUp.exec setup) i e = some s') :
    s'.Certified setup := by
  obtain ⟨call, call', hcall, hperm, hperm', hexec⟩ := Config.run_spec hrun
  obtain ⟨hcertified, hknows, hle⟩ := h.1.exec (h.2 call (List.mem_of_getElem? hcall)) hexec
  refine ⟨hcertified, ?_⟩
  intro other hother
  rcases List.mem_cons.mp (hperm'.mem_iff.mp hother) with rfl | hother
  · exact hknows
  · exact (h.2 other (hperm.mem_iff.mpr (List.mem_cons_of_mem _ hother))).mono hle

theorem Certified.step {a : Action} (h : s.Certified setup) (hplain : s.Plain a)
    (hstep : s.step setup a = some s') : s'.Certified setup := by
  cases a with
  | otpRequest | otpVerify =>
    cases hstep
    exact h.spawn trivial
  | signUp state =>
    cases hstep
    exact h.spawn hplain
  | run i e => exact h.run hstep

/-- **Verified emails.**  However packets, handlers and threads are interleaved, if every sign-up
is plain then every account has a valid email that was verified before. -/
theorem accounted_of_plain (setup : SignUpSetup) (file : List UserInfo) (s : SignUps)
    (hreach : Reaches (step setup) Plain (opened file) s) : s.shared.Accounted setup := by
  have hcertified : s.Certified setup := by
    apply hreach.invariant
    · exact certified_opened setup file
    · intro s a s' _ h hplain hstep
      exact h.step hplain hstep
  exact ⟨hcertified.1.written, hcertified.1.added⟩

/-- The time, the code and the hashes of a run. -/
def sampleChoice : SignUpChoice := ⟨0, text "1234", true, some ⟨sampleDrawn, valid_sampleDrawn⟩⟩

def sampleSetup : SignUpSetup := ⟨fun _ => sampleHash 1, decimal_sampleHash, .fixed false, true, true⟩

/-- A client asks for a code, presents it, and signs up with this name. -/
def sampleRun (username : String) : List Action :=
  [.otpRequest (signupOf username).email, .run 2 sampleChoice, .run 2 sampleChoice,
    .run 0 sampleChoice, .run 0 sampleChoice,
    .otpVerify (signupOf username).email (text "1234"), .run 3 sampleChoice, .run 3 sampleChoice,
    .run 3 sampleChoice, .run 3 sampleChoice,
    .signUp (signupOf username), .run 4 sampleChoice, .run 4 sampleChoice,
    .run 1 sampleChoice, .run 1 sampleChoice, .run 1 sampleChoice]

theorem accounted_of_plain_bob :
    ∃ s, Transition.run (step sampleSetup) (opened []) (sampleRun "bob") = some s ∧
      s.shared.written.length = 1 ∧ s.shared.added.length = 1 ∧ s.shared.Accounted sampleSetup := by
  obtain ⟨s, hrun, hwritten, hadded⟩ := exists_run (step sampleSetup) (opened []) (sampleRun "bob")
    (fun s => s.shared.written.length = 1 ∧ s.shared.added.length = 1) (by decide +kernel)
  exact ⟨s, hrun, hwritten, hadded,
    accounted_of_plain _ [] s (reaches_of_run (by decide +kernel) hrun)⟩

/-- With a name of two words the record in the table has the hashed password for an email. -/
theorem not_accounted_two_words :
    ∃ s, Transition.run (step sampleSetup) (opened []) (sampleRun "bob x") = some s ∧
      ¬ s.shared.Accounted sampleSetup := by
  obtain ⟨s, hrun, hwritten⟩ := exists_run (step sampleSetup) (opened []) (sampleRun "bob x")
    (fun s => s.shared.written.map (fun r => isValidEmail r.email) = [false]) (by decide +kernel)
  refine ⟨s, hrun, ?_⟩
  intro h
  have hmem : false ∈ s.shared.written.map fun r => isValidEmail r.email := by
    rw [hwritten]
    exact List.mem_singleton_self _
  obtain ⟨r, hr, hinvalid⟩ := List.mem_map.mp hmem
  rw [(h.written r hr).1] at hinvalid
  cases hinvalid

end SignUps

end IocpChat

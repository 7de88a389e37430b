import IocpChat.Authentication.Verification

/-!
# How often a code can be guessed

`onOtpVerificationRequest` copies the entry of an email and counts the request in one section
under the lock, and decides on the copy outside it.  So any number of requests can be between
the two, and entries are erased and made anew in the meantime.

A copy with a count of less than five is a guess that can still be made.  Together with the
comparisons that were made, these are at most five for each code, and at most as many as the entry
has counted as long as the code is stored.

## Main definitions

* `SignUp.compared` — how often a code was compared.
* `SignUp.Within` — the guesses that were and can be made are within the limit.
-/

namespace IocpChat

open Transition

variable {setup : SignUpSetup} {s s' : SignUp} {e : SignUpChoice} {call call' : SignUpCall}

/-- How often the code of an email with this number was compared. -/
def SignUp.compared (s : SignUp) (email : Key) (n : ℕ) : ℕ := s.events.count (.compared email n)

/-- The handler has a copy of the code with which it can still make a guess. -/
def mayGuess (email : Key) (n : ℕ) : SignUpCall → Bool
  | .checkOtp key _ copy => decide (key = email ∧ copy.number = n ∧ copy.count < 5)
  | _ => false

/-- The guesses that were and can be made for a code, of which `pending` are those that can. -/
structure SignUp.Within (s : SignUp) (pending : Key → ℕ → ℕ) : Prop where
  le : ∀ email n, s.compared email n + pending email n ≤ 5
  le_count : ∀ email d, s.otpChecker email = some d →
    s.compared email d.number + pending email d.number ≤ d.count
  made : ∀ email d, s.otpChecker email = some d → d.number < s.codes email
  new : ∀ email n, s.codes email ≤ n → s.compared email n + pending email n = 0

/-! ## What steps do -/

/-- The points at which a code is stored, copied or compared. -/
def SignUpCall.usesOtp : SignUpCall → Bool
  | .sendOtp _ | .otpVerify .. | .checkOtp .. => true
  | _ => false

/-- Elsewhere, entries are only erased, nothing is copied, and no code is made or compared. -/
theorem SignUp.exec_of_not_usesOtp (hexec : s.exec setup e call = some (s', call'))
    (hcall : call.usesOtp = false) :
    (s'.otpChecker = s.otpChecker ∨ ∃ email, s'.otpChecker = Function.update s.otpChecker email none) ∧
      s'.events = s.events ∧ ∀ email n, mayGuess email n call' = false := by
  cases call with
  | otpRequest email =>
    simp only [SignUp.exec] at hexec
    split at hexec
    · cases hexec
      exact ⟨.inl rfl, rfl, fun _ _ => rfl⟩
    · split at hexec
      all_goals
        cases hexec
        exact ⟨.inl rfl, rfl, fun _ _ => rfl⟩
  | otpSenderLoop | signupManager =>
    simp only [SignUp.exec] at hexec
    split at hexec
    · cases hexec
    · cases hexec
      exact ⟨.inl rfl, rfl, fun _ _ => rfl⟩
  | expireOtp email =>
    cases hexec
    exact ⟨.inr ⟨email, rfl⟩, rfl, fun _ _ => rfl⟩
  | eraseOtp email =>
    simp only [SignUp.exec] at hexec
    cases hexec
    refine ⟨.inr ⟨email, rfl⟩, rfl, ?_⟩
    intro key n
    split <;> rfl
  | setVerified _ | signUp _ =>
    simp only [SignUp.exec] at hexec
    cases hexec
    refine ⟨.inl rfl, rfl, ?_⟩
    intro key n
    split <;> rfl
  | register state =>
    simp only [SignUp.exec] at hexec
    split at hexec
    · cases hexec
      exact ⟨.inl rfl, rfl, fun _ _ => rfl⟩
    · obtain ⟨⟨ok, s₁⟩, hwrite, heq⟩ := Option.map_eq_some_iff.mp hexec
      obtain ⟨⟨ok', db⟩, -, heq'⟩ := Option.map_eq_some_iff.mp hwrite
      cases heq'
      cases heq
      refine ⟨.inl rfl, rfl, ?_⟩
      intro key n
      dsimp only
      split <;> rfl
  | pushOtp _ | resetVerified _ | pushSignUp _ | addUser _ _ =>
    cases hexec
    exact ⟨.inl rfl, rfl, fun _ _ => rfl⟩
  | done => cases hexec
  | sendOtp _ | otpVerify _ _ | checkOtp _ _ _ => cases hcall

/-- A handler that checks its copy changes no entry and makes no other guess.  It compares the
code only if the count of its copy is within the limit. -/
theorem SignUp.exec_checkOtp {email otp : List UInt8} {copy : OtpData}
    (hexec : s.exec setup e (.checkOtp email otp copy) = some (s', call')) :
    s'.otpChecker = s.otpChecker ∧ s'.codes = s.codes ∧ (∀ key n, mayGuess key n call' = false) ∧
      (s'.compared = s.compared ∨ copy.count < 5 ∧ ∀ key n, s'.compared key n =
        s.compared key n + if email = key ∧ copy.number = n then 1 else 0) := by
  simp only [SignUp.exec] at hexec
  split at hexec
  next =>
    cases hexec
    refine ⟨rfl, ?_, ?_, .inl ?_⟩
    · funext key
      simp [codes, OtpEvent.makes]
    · intro key n
      split <;> rfl
    · funext key n
      simp [compared]
  next hlimits =>
    have hlt : copy.count < 5 := by omega
    split at hexec
    all_goals
      cases hexec
      refine ⟨rfl, ?_, fun _ _ => rfl, .inr ⟨hlt, ?_⟩⟩
      · funext key
        simp [codes, OtpEvent.makes]
      · intro key n
        simp [compared, List.count_singleton]

/-! ## The limit -/

namespace SignUp.Within

variable {pending pending' : Key → ℕ → ℕ}

theorem frame (h : s.Within pending) (hcompared : s'.compared = s.compared)
    (hcodes : s'.codes = s.codes)
    (hchecker : ∀ email d, s'.otpChecker email = some d → s.otpChecker email = some d)
    (hpending : ∀ email n, pending' email n ≤ pending email n) : s'.Within pending' := by
  constructor
  · intro email n
    rw [hcompared]
    exact (Nat.add_le_add_left (hpending email n) _).trans (h.le email n)
  · intro email d hd
    rw [hcompared]
    exact (Nat.add_le_add_left (hpending email _) _).trans (h.le_count email d (hchecker email d hd))
  · intro email d hd
    rw [hcodes]
    exact h.made email d (hchecker email d hd)
  · intro email n hn
    rw [hcodes] at hn
    have hzero := h.new email n hn
    have hle := hpending email n
    rw [hcompared]
    omega

theorem stored_of_put {email key : Key} {d d' : OtpData}
    (h : s'.otpChecker = Function.update s.otpChecker email (some d))
    (hd' : s'.otpChecker key = some d') :
    key = email ∧ d' = d ∨ key ≠ email ∧ s.otpChecker key = some d' := by
  rw [h] at hd'
  by_cases hkey : key = email
  · rw [hkey, Function.update_self] at hd'
    cases hd'
    exact .inl ⟨hkey, rfl⟩
  · rw [Function.update_of_ne hkey] at hd'
    exact .inr ⟨hkey, hd'⟩

theorem sendOtp {email : Key} {d : OtpData} (h : s.Within pending) (hnumber : d.number = s.codes email)
    (hchecker : s'.otpChecker = Function.update s.otpChecker email (some d))
    (hcompared : s'.compared = s.compared)
    (hcodes : ∀ key, s'.codes key = s.codes key + if email = key then 1 else 0) :
    s'.Within pending := by
  constructor
  · intro key n
    rw [hcompared]
    exact h.le key n
  · intro key d' hd'
    rw [hcompared]
    rcases stored_of_put hchecker hd' with ⟨rfl, rfl⟩ | ⟨hkey, hd'⟩
    · rw [h.new key _ hnumber.ge]
      exact Nat.zero_le _
    · exact h.le_count key d' hd'
  · intro key d' hd'
    rw [hcodes]
    rcases stored_of_put hchecker hd' with ⟨rfl, rfl⟩ | ⟨hkey, hd'⟩
    · rw [if_pos rfl, hnumber]
      exact Nat.lt_succ_self _
    · exact (h.made key d' hd').trans_le (Nat.le_add_right ..)
  · intro key n hn
    rw [hcodes] at hn
    rw [hcompared]
    exact h.new key n ((Nat.le_add_right ..).trans hn)

theorem otpVerify {email : Key} {d : OtpData} (h : s.Within pending)
    (hd : s.otpChecker email = some d)
    (hchecker : s'.otpChecker =
      Function.update s.otpChecker email (some { d with count := d.count + 1 }))
    (hcompared : s'.compared = s.compared) (hcodes : s'.codes = s.codes)
    (hpending : ∀ key n, pending' key n =
      pending key n + if email = key ∧ d.number = n ∧ d.count < 5 then 1 else 0) :
    s'.Within pending' := by
  have hcount := h.le_count email d hd
  have hmade := h.made email d hd
  constructor
  · intro key n
    have hle := h.le key n
    rw [hcompared, hpending]
    split
    next hguess =>
      obtain ⟨rfl, rfl, hlt⟩ := hguess
      omega
    next => exact hle
  · intro key d' hd'
    rw [hcompared, hpending]
    rcases stored_of_put hchecker hd' with ⟨rfl, rfl⟩ | ⟨hkey, hd'⟩
    · dsimp only
      split <;> omega
    · rw [if_neg fun hguess => hkey hguess.1.symm]
      exact h.le_count key d' hd'
  · intro key d' hd'
    rw [hcodes]
    rcases stored_of_put hchecker hd' with ⟨rfl, rfl⟩ | ⟨hkey, hd'⟩
    · exact hmade
    · exact h.made key d' hd'
  · intro key n hn
    rw [hcodes] at hn
    have hzero := h.new key n hn
    rw [hcompared, hpending, if_neg]
    · omega
    · rintro ⟨rfl, rfl, -⟩
      omega

theorem compare {email : Key} {k : ℕ} (h : s.Within pending)
    (hchecker : s'.otpChecker = s.otpChecker) (hcodes : s'.codes = s.codes)
    (hcompared : ∀ key n, s'.compared key n =
      s.compared key n + if email = key ∧ k = n then 1 else 0)
    (hpending : ∀ key n, pending key n = pending' key n + if email = key ∧ k = n then 1 else 0) :
    s'.Within pending' := by
  have hused : ∀ key n, s'.compared key n + pending' key n = s.compared key n + pending key n := by
    intro key n
    rw [hcompared, hpending]
    omega
  constructor
  · intro key n
    rw [hused]
    exact h.le key n
  · intro key d hd
    rw [hused]
    exact h.le_count key d (hchecker ▸ hd)
  · intro key d hd
    rw [hcodes]
    exact h.made key d (hchecker ▸ hd)
  · intro key n hn
    rw [hused]
    exact h.new key n (hcodes ▸ hn)

theorem stored_of_erased {key : Key} {d : OtpData}
    (h : s'.otpChecker = s.otpChecker ∨
      ∃ email, s'.otpChecker = Function.update s.otpChecker email none)
    (hd : s'.otpChecker key = some d) : s.otpChecker key = some d := by
  rcases h with hsame | ⟨erased, hsame⟩
  · exact hsame ▸ hd
  · rw [hsame, Function.update_apply] at hd
    split at hd
    · cases hd
    · exact hd

/-- The guesses of one handler and of the others. -/
def guessesWith (others : Key → ℕ → ℕ) (call : SignUpCall) (email : Key) (n : ℕ) : ℕ :=
  others email n + if mayGuess email n call then 1 else 0

/-- **A step keeps within the limit.** -/
theorem exec {others : Key → ℕ → ℕ} (h : s.Within (guessesWith others call))
    (hexec : s.exec setup e call = some (s', call')) : s'.Within (guessesWith others call') := by
  cases hcall : call.usesOtp with
  | false =>
    obtain ⟨hchecker, hevents, hguess⟩ := SignUp.exec_of_not_usesOtp hexec hcall
    refine h.frame ?_ ?_ (fun _ _ => stored_of_erased hchecker) ?_
    · funext email n
      rw [compared, compared, hevents]
    · funext email
      rw [codes, codes, hevents]
    · intro email n
      simp [guessesWith, hguess]
  | true =>
    cases call with
    | sendOtp email =>
      cases hexec
      refine h.sendOtp rfl rfl ?_ ?_
      · funext key n
        simp [compared]
      · intro key
        simp [codes, OtpEvent.makes, List.countP_singleton]
    | otpVerify email otp =>
      simp only [SignUp.exec] at hexec
      split at hexec
      next =>
        cases hexec
        exact h
      next d hd =>
        cases hexec
        refine h.otpVerify hd rfl rfl rfl ?_
        intro key n
        simp [guessesWith, mayGuess]
    | checkOtp email otp copy =>
      obtain ⟨hchecker, hcodes, hguess, hsame | ⟨hlt, hmore⟩⟩ := SignUp.exec_checkOtp hexec
      · refine h.frame hsame hcodes (fun _ _ hd => hchecker ▸ hd) ?_
        intro key n
        simp [guessesWith, hguess]
      · refine h.compare hchecker hcodes hmore ?_
        intro key n
        rw [guessesWith, guessesWith, hguess]
        simp [mayGuess, hlt]
    | _ => cases hcall

end SignUp.Within

namespace SignUps

variable {c c' : SignUps}

/-- The guesses that the handlers in progress can make. -/
def pending (c : SignUps) (email : Key) (n : ℕ) : ℕ := c.calls.countP (mayGuess email n)

/-- The handlers and threads keep within the limit. -/
def Limited (c : SignUps) : Prop := c.shared.Within c.pending

theorem Limited.spawn (h : c.Limited) (call : SignUpCall)
    (hcall : ∀ email n, mayGuess email n call = false) : Limited (c.spawn call) := by
  have hpending : pending (c.spawn call) = c.pending := by
    funext email n
    simp [pending, Config.spawn, hcall]
  rw [Limited, hpending]
  exact h

theorem Limited.run {i : ℕ} (h : c.Limited)
    (hrun : c.run (SignUp.exec setup) i e = some c') : c'.Limited := by
  obtain ⟨call, call', -, hperm, hperm', hexec⟩ := Config.run_spec hrun
  -- the guesses of the handlers that do not move
  let others : Key → ℕ → ℕ := fun email n => (c.calls.eraseIdx i).countP (mayGuess email n)
  have hbefore : c.pending = SignUp.Within.guessesWith others call := by
    funext email n
    rw [pending, hperm.countP_eq, List.countP_cons]
    rfl
  have hafter : c'.pending = SignUp.Within.guessesWith others call' := by
    funext email n
    rw [pending, hperm'.countP_eq, List.countP_cons]
    rfl
  rw [Limited, hbefore] at h
  rw [Limited, hafter]
  exact h.exec hexec

theorem Limited.step {a : Action} (h : c.Limited) (hstep : c.step setup a = some c') :
    c'.Limited := by
  cases a with
  | run i e => exact h.run hstep
  | otpRequest email =>
    cases hstep
    exact h.spawn (.otpRequest email) fun _ _ => rfl
  | otpVerify email otp =>
    cases hstep
    exact h.spawn (.otpVerify email otp) fun _ _ => rfl
  | signUp state =>
    cases hstep
    exact h.spawn (.signUp state) fun _ _ => rfl

theorem limited_opened (file : List UserInfo) : (opened file).Limited := by
  constructor
  · intro email n
    exact Nat.zero_le 5
  · intro email d hd
    cases hd
  · intro email d hd
    cases hd
  · intro email n _
    rfl

/-- **At most five codes are compared with a code that was stored**, in any run of handlers
and threads. -/
theorem compared_le (setup : SignUpSetup) (file : List UserInfo) (actions : List Action)
    (c : SignUps) (hrun : Transition.run (step setup) (opened file) actions = some c) (email : Key)
    (n : ℕ) : c.shared.compared email n ≤ 5 := by
  have hreach : Reaches (step setup) (fun _ _ => True) (opened file) c :=
    reaches_of_run (meets_of_forall fun _ _ _ => trivial) hrun
  have hlimited : c.Limited := by
    apply hreach.invariant
    · exact limited_opened file
    · intro c a c' _ h _ hstep
      exact h.step hstep
  exact (Nat.le_add_right _ _).trans (hlimited.le email n)

/-- A client asks for a code, and six requests copy it before the first of them compares. -/
def sixGuesses : List Action :=
  let email := (signupOf "bob").email
  let all := (List.range 6).map fun i => Action.run (3 + i) sampleChoice
  [.otpRequest email, .run 2 sampleChoice, .run 2 sampleChoice, .run 0 sampleChoice,
    .run 0 sampleChoice] ++
    List.replicate 6 (.otpVerify email (text "1234")) ++ all ++ all

theorem compared_le_sixGuesses :
    ∃ c, Transition.run (step sampleSetup) (opened []) sixGuesses = some c ∧
      c.shared.compared (signupOf "bob").email 0 = 5 ∧
      c.shared.compared (signupOf "bob").email 0 ≤ 5 := by
  obtain ⟨c, hrun, hcompared⟩ := exists_run (step sampleSetup) (opened []) sixGuesses
    (fun c => c.shared.compared (signupOf "bob").email 0 = 5) (by decide +kernel)
  exact ⟨c, hrun, hcompared, compared_le _ [] sixGuesses c hrun _ 0⟩

end SignUps

end IocpChat

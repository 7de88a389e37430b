import IocpChat.Authentication.SignUp
import IocpChat.DataStructure.Table
import IocpChat.Lib.Transition

/-!
# `SignUp`: the handlers and the two threads

A client asks for a code with `OTP_REQ`; `otpSenderLoop` makes one, mails it and stores its hash.
The client presents the code with `OTP_VERIFY`, which marks the email as verified.  `SIGN_UP`
queues a state for `signupManager` if the email is marked.

The handlers of any number of sessions run at the same time as the two threads.  A step is one
section under a lock, one access to a queue, or a part of the code that shares nothing; the update
of an entry of `otpChecker` by `otpSenderLoop` is one step.  What is local to a handler or a thread
between two steps is in the point it has come to.  The time, the code, what is drawn and hashed,
and whether an answer could be routed may be anything in each step.

Next to what is shared we keep the codes that were made, presented and compared, and the records
that were written.  The codes that are made for an email are numbered, and an entry of `otpChecker`
carries the number of its code; nothing but the history depends on it.

## Main definitions

* `SignUp`, `SignUpCall` — what is shared, and the points of handlers and threads.
* `SignUps`, `SignUps.step` — handlers and threads running concurrently.
-/

namespace IocpChat

open Words Transition

/-- `otpData`.  The code is stored as its hash. -/
structure OtpData where
  otp : List UInt8
  expiry : ℕ
  count : ℕ
  /-- The number of the code, for the history. -/
  number : ℕ

inductive OtpEvent
  /-- A code was made for an email. -/
  | generated (email otp : List UInt8) (expiry : ℕ)
  /-- A code was presented for an email. -/
  | presented (email otp : List UInt8) (time : ℕ)
  /-- A code that was presented was compared with the code of this number. -/
  | compared (email : List UInt8) (number : ℕ)
  deriving DecidableEq

/-- A code was made for this email. -/
def OtpEvent.makes (email : List UInt8) : OtpEvent → Bool
  | .generated key _ _ => key = email
  | _ => false

/-- What handlers and threads share, with the history. -/
structure SignUp where
  otpQueue : List (List UInt8)
  signUpQueue : List SignupState
  otpChecker : Key → Option OtpData
  emailVerified : Key → Option Bool
  db : Table
  /-- The records that were written to the table. -/
  written : List UserInfo
  /-- The records that were added to `AuthManager`. -/
  added : List UserRecord
  events : List OtpEvent

/-- The point that a handler or a thread has come to. -/
inductive SignUpCall
  /-- `otpRequestHandler`. -/
  | otpRequest (email : List UInt8)
  | pushOtp (email : List UInt8)
  /-- `otpSenderLoop`, before an email is taken from the queue. -/
  | otpSenderLoop
  | sendOtp (email : List UInt8)
  /-- `onOtpVerificationRequest`. -/
  | otpVerify (email otp : List UInt8)
  | checkOtp (email otp : List UInt8) (copy : OtpData)
  | expireOtp (email : List UInt8)
  | setVerified (email : List UInt8)
  | eraseOtp (email : List UInt8)
  | resetVerified (email : List UInt8)
  /-- `signUpRequestHandler`. -/
  | signUp (state : SignupState)
  | pushSignUp (state : SignupState)
  /-- `signupManager`, before a state is taken from the queue. -/
  | signupManager
  | register (state : SignupState)
  | addUser (state : SignupState) (drawn : Drawn)
  | done

/-- What may be anything in a step. -/
structure SignUpChoice where
  now : ℕ
  otp : List UInt8
  routed : Bool
  /-- `crypto_pwhash_str` may fail. -/
  drawn : Option { d : Drawn // d.Valid }

/-- What does not change: the hash functions, the surroundings of the table, and whether the two
pointers are set. -/
structure SignUpSetup where
  hashStr : List UInt8 → List UInt8
  decimal : Decimal hashStr
  table : TableEnv
  router : Bool
  authManager : Bool

namespace SignUp

/-- A server that has just opened its table. -/
def opened (file : List UserInfo) : SignUp :=
  ⟨[], [], fun _ => none, fun _ => none, Table.initStorage file, [], [], []⟩

/-- The number of codes that were made for an email. -/
def codes (s : SignUp) (email : Key) : ℕ := s.events.countP (OtpEvent.makes email)

variable (setup : SignUpSetup)

/-- `db.writeTheData`, with the history. -/
def write (s : SignUp) (line : List UInt8) : Option (Bool × SignUp) :=
  (s.db.writeTheData setup.table line).map fun (ok, db) =>
    (ok, { s with
      db
      written := if ok then s.written ++ (newRecord setup.table.crc32 line).toList else s.written })

/-- One step of a handler or a thread. -/
def exec (s : SignUp) (e : SignUpChoice) : SignUpCall → Option (SignUp × SignUpCall)
  | .otpRequest email =>
    if !isValidEmail email then some (s, .done)
    else if isAlreadySignup s.db email then some (s, .done)
    else some (s, .pushOtp email)
  | .pushOtp email => some ({ s with otpQueue := s.otpQueue ++ [email] }, .done)
  | .otpSenderLoop =>
    match s.otpQueue with
    | [] => none
    | email :: queue => some ({ s with otpQueue := queue }, .sendOtp email)
  | .sendOtp email =>
    let expiry := e.now + 300
    some ({ s with
      otpChecker :=
        Function.update s.otpChecker email (some ⟨setup.hashStr e.otp, expiry, 0, s.codes email⟩)
      events := s.events ++ [.generated email e.otp expiry] }, .otpSenderLoop)
  | .otpVerify email otp =>
    match s.otpChecker email with
    | none => some (s, .done)
    | some d =>
      some ({ s with
        otpChecker := Function.update s.otpChecker email (some { d with count := d.count + 1 }) },
        .checkOtp email otp d)
  | .checkOtp email otp copy =>
    let s := { s with events := s.events ++ [.presented email otp e.now] }
    if 5 ≤ copy.count ∨ copy.expiry < e.now then
      some (s, if setup.router then .expireOtp email else .done)
    else
      let s := { s with events := s.events ++ [.compared email copy.number] }
      if copy.otp = setup.hashStr otp then some (s, .setVerified email) else some (s, .done)
  | .expireOtp email =>
    some ({ s with otpChecker := Function.update s.otpChecker email none }, .done)
  | .setVerified email =>
    some ({ s with emailVerified := Function.update s.emailVerified email (some true) },
      if setup.router then .eraseOtp email else .done)
  | .eraseOtp email =>
    some ({ s with otpChecker := Function.update s.otpChecker email none },
      if e.routed then .done else .resetVerified email)
  | .resetVerified email =>
    some ({ s with emailVerified := Function.update s.emailVerified email (some false) }, .done)
  | .signUp state =>
    some (s, if s.emailVerified state.email = some true then .pushSignUp state else .done)
  | .pushSignUp state => some ({ s with signUpQueue := s.signUpQueue ++ [state] }, .done)
  | .signupManager =>
    match s.signUpQueue with
    | [] => none
    | state :: queue => some ({ s with signUpQueue := queue }, .register state)
  | .register state =>
    match e.drawn with
    | none => some (s, .signupManager)
    | some d =>
      (s.write setup (state.dbData setup.hashStr d)).map fun (ok, s) =>
        (s, if ok ∧ setup.authManager then .addUser state d else .signupManager)
  | .addUser state d =>
    some ({ s with added := s.added ++ [state.userRecord setup.hashStr d] }, .signupManager)
  | .done => none

end SignUp

/-- The handlers in progress, and the two threads. -/
abbrev SignUps := Config SignUp SignUpCall

namespace SignUps

def opened (file : List UserInfo) : SignUps := ⟨.opened file, [.otpSenderLoop, .signupManager]⟩

inductive Action
  | otpRequest (email : List UInt8)
  | otpVerify (email otp : List UInt8)
  | signUp (state : SignupState)
  /-- The `i`-th handler or thread takes a step. -/
  | run (i : ℕ) (e : SignUpChoice)

def step (setup : SignUpSetup) (s : SignUps) : Action → Option SignUps
  | .otpRequest email => some (s.spawn (.otpRequest email))
  | .otpVerify email otp => some (s.spawn (.otpVerify email otp))
  | .signUp state => some (s.spawn (.signUp state))
  | .run i e => s.run (SignUp.exec setup) i e

end SignUps

end IocpChat

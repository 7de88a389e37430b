import Mathlib.Logic.Function.Defs

/-!
# Machines that answer

A machine takes operations one after another, and answers each of them.  One machine refines
another if their states can be related so that every operation keeps the relation and gets the
same answer.  Then every sequence of operations gets the same answers from both.

## Main definitions

* `answers` — the state after a sequence of operations, and the answers.
-/

namespace Refinement

variable {σ τ α ρ : Type*}

/-- The state after the operations, and the answers in order. -/
def answers (exec : σ → α → σ × ρ) : σ → List α → σ × List ρ
  | s, [] => (s, [])
  | s, a :: as =>
    let r := answers exec (exec s a).1 as
    (r.1, (exec s a).2 :: r.2)

/-- **Refinement.**  A relation that every operation keeps, with the same answer, is kept by
every sequence of operations, with the same answers. -/
theorem answers_refines {exec : σ → α → σ × ρ} {spec : τ → α → τ × ρ} {R : σ → τ → Prop}
    (hstep : ∀ s t a, R s t → R (exec s a).1 (spec t a).1 ∧ (exec s a).2 = (spec t a).2)
    {s : σ} {t : τ} (h : R s t) (as : List α) :
    R (answers exec s as).1 (answers spec t as).1 ∧
      (answers exec s as).2 = (answers spec t as).2 := by
  induction as generalizing s t with
  | nil => exact ⟨h, rfl⟩
  | cons a as ih =>
    obtain ⟨hnext, hanswer⟩ := hstep s t a h
    obtain ⟨hlast, hrest⟩ := ih hnext
    refine ⟨hlast, ?_⟩
    simp only [answers, hanswer, hrest]

end Refinement

import Mathlib.Data.Nat.Notation
import Mathlib.Logic.Relation

/-!
# Loops that may not terminate

A loop is its body: from a state it goes on from another state or leaves with a
result.  `run` gives it a bounded number of turns, and a loop exits if some number
is enough.

`exits_iff_never_stuck` is the termination rule for a loop whose body makes
progress except in some states that it never gets out of.  It is an equivalence,
so it also says exactly when such a loop hangs.  `run_invariant` says with what a loop is
left.

## Main definitions

* `run` — at most so many turns of a loop.
* `Exits`, `Visits` — leaving the loop, and the states at the top of its turns.
-/

namespace Loop

variable {σ ρ : Type*}

/-- At most `fuel` turns of the loop. -/
def run (body : σ → σ ⊕ ρ) : ℕ → σ → Option ρ
  | 0, _ => none
  | fuel + 1, s =>
    match body s with
    | .inl s' => run body fuel s'
    | .inr r => some r

/-- The loop is left after finitely many turns. -/
def Exits (body : σ → σ ⊕ ρ) (s : σ) : Prop := ∃ fuel r, run body fuel s = some r

/-- One turn that goes on. -/
def Goes (body : σ → σ ⊕ ρ) (s s' : σ) : Prop := body s = .inl s'

/-- The loop, begun in `s`, comes to the top of a turn in `s'`. -/
def Visits (body : σ → σ ⊕ ρ) : σ → σ → Prop := Relation.ReflTransGen (Goes body)

variable {body : σ → σ ⊕ ρ}

theorem run_of_inl {s s' : σ} (h : body s = .inl s') (fuel : ℕ) :
    run body (fuel + 1) s = run body fuel s' := by
  simp only [run, h]

theorem run_of_inr {s : σ} {r : ρ} (h : body s = .inr r) (fuel : ℕ) :
    run body (fuel + 1) s = some r := by
  simp only [run, h]

/-- What a loop does from a state is what it does from the states it visits. -/
theorem run_eq_none_of_visits {s s' : σ} (hv : Visits body s s')
    (h : ∀ fuel, run body fuel s' = none) : ∀ fuel, run body fuel s = none := by
  induction hv using Relation.ReflTransGen.head_induction_on with
  | refl => exact h
  | head hgo _ ih =>
    intro fuel
    cases fuel with
    | zero => rfl
    | succ fuel => rw [run_of_inl hgo, ih]

/-- **Loop invariants.**  If every turn from a state with the invariant goes on to
another, or leaves with a result that is right, then so does the loop. -/
theorem run_invariant (inv : σ → Prop) (post : ρ → Prop) {s : σ} {fuel : ℕ} {r : ρ}
    (hrun : run body fuel s = some r) (h : inv s)
    (hturn : ∀ s, inv s →
      (∃ s', body s = .inl s' ∧ inv s') ∨ ∃ r, body s = .inr r ∧ post r) : post r := by
  induction fuel generalizing s with
  | zero => cases hrun
  | succ fuel ih =>
    rcases hturn s h with ⟨s', hgo, h'⟩ | ⟨r', hexit, hpost⟩
    · rw [run_of_inl hgo] at hrun
      exact ih hrun h'
    · rw [run_of_inr hexit] at hrun
      cases hrun
      exact hpost

section Stuck

variable (measure : σ → ℕ) (stuck : σ → Prop)

/-- A stuck loop is never left. -/
theorem run_eq_none_of_stuck (hstuck : ∀ s, stuck s → ∃ s', body s = .inl s' ∧ stuck s') {s : σ}
    (h : stuck s) : ∀ fuel, run body fuel s = none := by
  intro fuel
  induction fuel generalizing s with
  | zero => rfl
  | succ fuel ih =>
    obtain ⟨s', hgo, h'⟩ := hstuck s h
    rw [run_of_inl hgo, ih h']

/-- A loop that is never stuck is left within as many turns as its measure says. -/
theorem exists_run_of_never_stuck
    (hprogress : ∀ s s', body s = .inl s' → ¬ stuck s → measure s' < measure s) {s : σ}
    (h : ∀ s', Visits body s s' → ¬ stuck s') {fuel : ℕ} (hfuel : measure s < fuel) :
    ∃ r, run body fuel s = some r := by
  induction fuel generalizing s with
  | zero => exact absurd hfuel (Nat.not_lt_zero _)
  | succ fuel ih =>
    cases hbody : body s with
    | inr r => exact ⟨r, run_of_inr hbody fuel⟩
    | inl s' =>
      have hlt := hprogress s s' hbody (h s .refl)
      have hnever : ∀ t, Visits body s' t → ¬ stuck t := fun t ht =>
        h t (Relation.ReflTransGen.head hbody ht)
      rw [run_of_inl hbody]
      exact ih hnever (by omega)

/-- **A loop that makes progress unless stuck exits iff it never gets stuck.** -/
theorem exits_iff_never_stuck (hstuck : ∀ s, stuck s → ∃ s', body s = .inl s' ∧ stuck s')
    (hprogress : ∀ s s', body s = .inl s' → ¬ stuck s → measure s' < measure s) (s : σ) :
    Exits body s ↔ ∀ s', Visits body s s' → ¬ stuck s' := by
  constructor
  · rintro ⟨fuel, r, hrun⟩ s' hv hs
    have hnone := run_eq_none_of_visits hv (run_eq_none_of_stuck stuck hstuck hs) fuel
    rw [hrun] at hnone
    cases hnone
  · intro h
    exact ⟨_, exists_run_of_never_stuck measure stuck hprogress h (Nat.lt_succ_self _)⟩

end Stuck

end Loop

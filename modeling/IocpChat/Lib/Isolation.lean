import IocpChat.Lib.Transition

/-!
# Isolation

Several parties act on one system, and each action names its party.  A party is isolated in a
run if its own actions, taken alone from the same start, lead to a state in which it finds
everything as it does in the whole run.

The rule is a simulation: the state of the whole run is related to that of the party's own run,
an action of the party is matched there, and an action of another party changes nothing that the
relation is about.

## Main definitions

* `own` — the actions of a party.
* `run_own` — the rule.
-/

namespace Isolation

open Transition

variable {σ ι α : Type*} [DecidableEq ι] {step : σ → ι × α → Option σ} {ok : σ → ι × α → Prop}

/-- The actions of a party, in their order. -/
def own (party : ι) (actions : List (ι × α)) : List (ι × α) := actions.filter (·.1 = party)

/-- **Isolation.** -/
theorem run_own (R : σ → σ → Prop) (party : ι)
    (hown : ∀ s s' a t, R s s' → ok s (party, a) → step s (party, a) = some t →
      ∃ t', step s' (party, a) = some t' ∧ R t t')
    (hother : ∀ s s' i a t, i ≠ party → R s s' → ok s (i, a) → step s (i, a) = some t → R t s')
    {s s' t : σ} {actions : List (ι × α)} (hmeets : Meets step ok s actions)
    (hrun : Transition.run step s actions = some t) (hR : R s s') :
    ∃ t', Transition.run step s' (own party actions) = some t' ∧ R t t' := by
  induction actions generalizing s s' with
  | nil =>
    cases hrun
    exact ⟨s', rfl, hR⟩
  | cons action actions ih =>
    obtain ⟨i, a⟩ := action
    obtain ⟨s₁, hstep, hrun⟩ := exists_of_run hrun
    have hrest := hmeets.2 s₁ hstep
    by_cases hi : i = party
    · subst hi
      obtain ⟨s₁', hstep', hR'⟩ := hown s s' a s₁ hR hmeets.1 hstep
      obtain ⟨t', hrun', hRt⟩ := ih hrest hrun hR'
      refine ⟨t', ?_, hRt⟩
      rw [own, List.filter_cons_of_pos (by simp), run_cons hstep']
      exact hrun'
    · obtain ⟨t', hrun', hRt⟩ := ih hrest hrun (hother s s' i a s₁ hi hR hmeets.1 hstep)
      refine ⟨t', ?_, hRt⟩
      rw [own, List.filter_cons_of_neg (by simpa using hi)]
      exact hrun'

end Isolation

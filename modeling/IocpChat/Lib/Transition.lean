import Mathlib.Data.List.Perm.Basic

/-!
# Transition systems, and calls that run concurrently

A system is a function that gives the state an action leads to, or nothing if the
action is not possible.  Everything that is not determined by the state (which
thread moves, what the environment answers) is part of the action, so a run is a
list of actions and can be computed.

Properties are proved of the states reached by runs whose steps all meet a
condition.  `Reaches.invariant` is the induction, and `Reaches.lift` carries runs
of one system over to another.

A `Config` is a shared state together with the calls in progress on it, each
standing at some point of its code.  What holds of such a configuration rarely
depends on the order of the calls, so `Config.run_spec` gives a step up to a
permutation: the call that moves, followed by the others.

## Main definitions

* `run` — the state after a sequence of actions.
* `Meets` — the actions of a run meet a condition where they are taken.
* `Reaches` — reachability by steps that meet a condition.
* `Config`, `Config.run` — calls running concurrently on a shared state.
-/

namespace Transition

section Runs

variable {σ α : Type*}

/-- The state after a sequence of actions, if each of them is possible in turn. -/
def run (step : σ → α → Option σ) : σ → List α → Option σ
  | s, [] => some s
  | s, a :: as =>
    match step s a with
    | none => none
    | some s' => run step s' as

/-- A run can be computed together with what holds at its end. -/
theorem exists_run (step : σ → α → Option σ) (s : σ) (as : List α) (P : σ → Prop)
    [DecidablePred P] (h : (run step s as).any (fun s' => decide (P s')) = true) :
    ∃ s', run step s as = some s' ∧ P s' := by
  obtain ⟨s', hs', hP⟩ := (Option.any_eq_true _ _).mp h
  exact ⟨s', hs', of_decide_eq_true hP⟩

/-- A step by an action that meets the condition `ok` where it is taken. -/
def Moves (step : σ → α → Option σ) (ok : σ → α → Prop) (s s' : σ) : Prop :=
  ∃ a, ok s a ∧ step s a = some s'

/-- Some run whose steps all meet the condition `ok` leads from one state to the
other. -/
def Reaches (step : σ → α → Option σ) (ok : σ → α → Prop) : σ → σ → Prop :=
  Relation.ReflTransGen (Moves step ok)

variable {step : σ → α → Option σ} {ok : σ → α → Prop} {s₀ s : σ}

theorem run_cons {a : α} {as : List α} {s' : σ} (h : step s a = some s') :
    run step s (a :: as) = run step s' as := by
  simp only [run, h]

theorem run_singleton (step : σ → α → Option σ) (s : σ) (a : α) : run step s [a] = step s a := by
  cases hstep : step s a with
  | none | some => simp only [run, hstep]

theorem run_append (as bs : List α) :
    run step s (as ++ bs) = (run step s as).bind fun s' => run step s' bs := by
  induction as generalizing s with
  | nil => rfl
  | cons a as ih =>
    cases hstep : step s a with
    | none => simp [run, hstep]
    | some s' => simp [run, hstep, ih]

/-- Two runs in a row. -/
theorem run_append_of_run {as bs : List α} {s' s'' : σ} (h : run step s as = some s')
    (h' : run step s' bs = some s'') : run step s (as ++ bs) = some s'' := by
  rw [run_append, h, Option.bind_some, h']

theorem exists_of_run {a : α} {as : List α} (h : run step s₀ (a :: as) = some s) :
    ∃ s', step s₀ a = some s' ∧ run step s' as = some s := by
  cases hstep : step s₀ a with
  | none =>
    simp only [run, hstep] at h
    cases h
  | some s' => exact ⟨s', rfl, run_cons hstep ▸ h⟩

/-- **Invariants.**  What holds at the start and is kept by every step holds in
every state reached.  The step may use that its state was reached. -/
theorem Reaches.invariant {inv : σ → Prop} (h : Reaches step ok s₀ s) (hinit : inv s₀)
    (hstep : ∀ s a s', Reaches step ok s₀ s → inv s → ok s a → step s a = some s' → inv s') :
    inv s := by
  induction h with
  | refl => exact hinit
  | tail hreach hmove ih =>
    obtain ⟨a, hok, ha⟩ := hmove
    exact hstep _ a _ hreach ih hok ha

/-- Every action of a sequence meets the condition `ok` where it is taken. -/
def Meets (step : σ → α → Option σ) (ok : σ → α → Prop) : σ → List α → Prop
  | _, [] => True
  | s, a :: as => ok s a ∧ ∀ s' ∈ step s a, Meets step ok s' as

instance Meets.decidable [∀ s a, Decidable (ok s a)] : ∀ s as, Decidable (Meets step ok s as)
  | _, [] => .isTrue trivial
  | s, a :: as =>
    have := fun s' => Meets.decidable s' as
    inferInstanceAs (Decidable (ok s a ∧ ∀ s' ∈ step s a, Meets step ok s' as))

/-- A condition on the actions alone, and one that was checked along the run. -/
theorem Meets.and {okAct : σ → α → Prop} {as : List α} (h : Meets step ok s as)
    (hact : ∀ a ∈ as, ∀ s, okAct s a) : Meets step (fun s a => okAct s a ∧ ok s a) s as := by
  induction as generalizing s with
  | nil => trivial
  | cons a as ih =>
    refine ⟨⟨hact a List.mem_cons_self s, h.1⟩, ?_⟩
    intro s' hs'
    exact ih (h.2 s' hs') fun b hb => hact b (List.mem_cons_of_mem a hb)

theorem meets_of_forall {as : List α} (h : ∀ a ∈ as, ∀ s, ok s a) : Meets step ok s as := by
  induction as generalizing s with
  | nil => trivial
  | cons a as ih =>
    exact ⟨h a List.mem_cons_self s, fun s' _ => ih fun b hb => h b (List.mem_cons_of_mem a hb)⟩

/-- The actions that are left meet the condition from the state that was come to. -/
theorem Meets.drop {as bs : List α} (h : Meets step ok s₀ (as ++ bs)) (hrun : run step s₀ as = some s) :
    Meets step ok s bs := by
  induction as generalizing s₀ with
  | nil =>
    cases hrun
    exact h
  | cons a as ih =>
    obtain ⟨s', hstep, hrest⟩ := exists_of_run hrun
    exact ih (h.2 s' hstep) hrest

/-- What holds after every step holds at the end of a run. -/
theorem Meets.last {P : σ → Prop} {as : List α} (hs : P s₀)
    (h : Meets step (fun s a => ∀ s' ∈ step s a, P s') s₀ as) (hrun : run step s₀ as = some s) : P s := by
  induction as generalizing s₀ with
  | nil =>
    cases hrun
    exact hs
  | cons a as ih =>
    obtain ⟨s', hstep, hrest⟩ := exists_of_run hrun
    exact ih (h.1 s' hstep) (h.2 s' hstep) hrest

/-- **One condition gives another** in the states with an invariant, which it keeps. -/
theorem Meets.imp {ok' : σ → α → Prop} (inv : σ → Prop) {as : List α} (h : Meets step ok s as)
    (hs : inv s) (himp : ∀ s a, inv s → ok s a → ok' s a)
    (hstep : ∀ s a s', inv s → ok s a → step s a = some s' → inv s') : Meets step ok' s as := by
  induction as generalizing s with
  | nil => trivial
  | cons a as ih =>
    refine ⟨himp s a hs h.1, ?_⟩
    intro s' hs'
    exact ih (h.2 s' hs') (hstep s a s' hs h.1 hs')

/-- Two conditions that agree in the states with an invariant, which they keep, are met by the same
runs.  The invariant may depend on how many actions are left. -/
theorem meets_congr_left {ok' : σ → α → Prop} (inv : ℕ → σ → Prop) {as : List α}
    (hs : inv as.length s) (hiff : ∀ n s a, inv (n + 1) s → (ok s a ↔ ok' s a))
    (hstep : ∀ n s a s', inv (n + 1) s → ok' s a → step s a = some s' → inv n s') :
    Meets step ok s as ↔ Meets step ok' s as := by
  induction as generalizing s with
  | nil => exact Iff.rfl
  | cons a as ih =>
    rw [Meets, Meets, hiff _ s a hs]
    refine and_congr_right ?_
    intro hok
    refine forall₂_congr ?_
    intro s' hs'
    exact ih (hstep _ s a s' hs hok hs')

theorem meets_congr {ok' : σ → α → Prop} (inv : σ → Prop) {as : List α} (hs : inv s)
    (hiff : ∀ s a, inv s → (ok s a ↔ ok' s a))
    (hstep : ∀ s a s', inv s → ok' s a → step s a = some s' → inv s') :
    Meets step ok s as ↔ Meets step ok' s as :=
  meets_congr_left (fun _ => inv) hs (fun _ => hiff) fun _ => hstep

/-- Where the condition says which actions are possible, it says which runs are. -/
theorem isSome_run_iff_meets {as : List α} (h : ∀ a ∈ as, ∀ s, (step s a).isSome ↔ ok s a) :
    (run step s as).isSome ↔ Meets step ok s as := by
  induction as generalizing s with
  | nil => simp [run, Meets]
  | cons a as ih =>
    rw [Meets, ← h a List.mem_cons_self s]
    cases hstep : step s a with
    | none => simp [run, hstep]
    | some s' => simp [run, hstep, ih fun b hb => h b (List.mem_cons_of_mem a hb)]

/-- The last state of a run is reached. -/
theorem reaches_of_run {as : List α} (hok : Meets step ok s₀ as) (h : run step s₀ as = some s) :
    Reaches step ok s₀ s := by
  induction as generalizing s₀ with
  | nil =>
    cases h
    exact .refl
  | cons a as ih =>
    obtain ⟨s', hstep, hrun⟩ := exists_of_run h
    have hmove : Moves step ok s₀ s' := ⟨a, hok.1, hstep⟩
    exact (ih (hok.2 s' hstep) hrun).head hmove

/-- **Simulation.**  If every step of one system is matched by steps of another on
the images of its states, so is every run. -/
theorem Reaches.lift {τ β : Type*} {step' : τ → β → Option τ} {ok' : τ → β → Prop} (f : σ → τ)
    (h : Reaches step ok s₀ s)
    (hstep : ∀ s a s', ok s a → step s a = some s' → Reaches step' ok' (f s) (f s')) :
    Reaches step' ok' (f s₀) (f s) := by
  refine Relation.ReflTransGen.lift' f ?_ _ _ h
  rintro s s' ⟨a, hok, ha⟩
  exact hstep s a s' hok ha

/-- A run that meets a condition meets every weaker one. -/
theorem Reaches.mono {ok' : σ → α → Prop} (h : Reaches step ok s₀ s)
    (hok : ∀ s a, ok s a → ok' s a) : Reaches step ok' s₀ s :=
  h.lift id fun s a _ ha hstep => .single ⟨a, hok s a ha, hstep⟩

/-- **Runs come to an end** if an invariant has a rank that every step lowers. -/
theorem exists_rank_of_run {inv : σ → ℕ → Prop}
    (hstep : ∀ s a s' rank, inv s rank → step s a = some s' → ∃ rank' < rank, inv s' rank')
    {rank : ℕ} (hs : inv s₀ rank) {as : List α} (h : run step s₀ as = some s) :
    ∃ rank', inv s rank' ∧ as.length + rank' ≤ rank := by
  induction as generalizing s₀ rank with
  | nil =>
    cases h
    exact ⟨rank, hs, by simp⟩
  | cons a as ih =>
    obtain ⟨s₁, hs₁, hrun⟩ := exists_of_run h
    obtain ⟨rank₁, hlt, hinv₁⟩ := hstep s₀ a s₁ rank hs hs₁
    obtain ⟨rank', hinv, hle⟩ := ih hinv₁ hrun
    refine ⟨rank', hinv, ?_⟩
    rw [List.length_cons]
    omega

/-- **Simulation** of one system by another, whose states are related to its own. -/
theorem Reaches.simulates {τ β : Type*} {step' : τ → β → Option τ} {ok' : τ → β → Prop}
    {R : σ → τ → Prop} {t₀ : τ} (h : Reaches step ok s₀ s) (hinit : R s₀ t₀)
    (hstep : ∀ s a s' t, R s t → ok s a → step s a = some s' →
      ∃ t', Reaches step' ok' t t' ∧ R s' t') : ∃ t, Reaches step' ok' t₀ t ∧ R s t := by
  induction h with
  | refl => exact ⟨t₀, .refl, hinit⟩
  | tail _ hmove ih =>
    obtain ⟨t, hreach, hR⟩ := ih
    obtain ⟨a, hok, ha⟩ := hmove
    obtain ⟨t', hreach', hR'⟩ := hstep _ a _ t hR hok ha
    exact ⟨t', hreach.trans hreach', hR'⟩

end Runs

section Calls

variable {σ τ ε : Type*}

/-- A shared state and the calls in progress on it, each given by the point it has
come to. -/
structure Config (σ τ : Type*) where
  shared : σ
  calls : List τ
  deriving DecidableEq

/-- A new call. -/
def Config.spawn (c : Config σ τ) (pc : τ) : Config σ τ := { c with calls := c.calls ++ [pc] }

/-- One step of the `i`-th call.  `exec` says what a step does to the shared state
and where the call goes on, given what the environment answers. -/
def Config.run (exec : σ → ε → τ → Option (σ × τ)) (c : Config σ τ) (i : ℕ) (e : ε) :
    Option (Config σ τ) :=
  match c.calls[i]? with
  | none => none
  | some pc => (exec c.shared e pc).map fun r => ⟨r.1, c.calls.set i r.2⟩

/-- A list, and the list with one place changed, have the rest in common. -/
theorem perm_set {xs : List τ} {i : ℕ} {x : τ} (h : xs[i]? = some x) :
    xs.Perm (x :: xs.eraseIdx i) ∧ ∀ y, (xs.set i y).Perm (y :: xs.eraseIdx i) := by
  obtain ⟨hi, rfl⟩ := List.getElem?_eq_some_iff.mp h
  rw [List.eraseIdx_eq_take_drop_succ]
  refine ⟨?_, ?_⟩
  · have hsplit : xs.take i ++ xs[i] :: xs.drop (i + 1) = xs := by
      rw [← List.drop_eq_getElem_cons hi, List.take_append_drop]
    exact (List.Perm.of_eq hsplit.symm).trans List.perm_middle
  · intro y
    rw [List.set_eq_take_append_cons_drop, if_pos hi]
    exact List.perm_middle

/-- One step of a call, with the calls in their order. -/
theorem Config.exists_of_run {exec : σ → ε → τ → Option (σ × τ)} {c c' : Config σ τ} {i : ℕ} {e : ε}
    (h : c.run exec i e = some c') :
    ∃ pc pc', c.calls[i]? = some pc ∧ exec c.shared e pc = some (c'.shared, pc') ∧
      c'.calls = c.calls.set i pc' := by
  unfold Config.run at h
  cases hpc : c.calls[i]? with
  | none =>
    rw [hpc] at h
    cases h
  | some pc =>
    rw [hpc] at h
    obtain ⟨⟨s', pc'⟩, hexec, rfl⟩ := Option.map_eq_some_iff.mp h
    exact ⟨pc, pc', rfl, hexec, rfl⟩

/-- **One step of a call**, with the calls in any order. -/
theorem Config.run_spec {exec : σ → ε → τ → Option (σ × τ)} {c c' : Config σ τ} {i : ℕ} {e : ε}
    (h : c.run exec i e = some c') :
    ∃ pc pc', c.calls[i]? = some pc ∧ c.calls.Perm (pc :: c.calls.eraseIdx i) ∧
      c'.calls.Perm (pc' :: c.calls.eraseIdx i) ∧ exec c.shared e pc = some (c'.shared, pc') := by
  obtain ⟨pc, pc', hpc, hexec, hcalls⟩ := Config.exists_of_run h
  obtain ⟨hperm, hset⟩ := perm_set hpc
  exact ⟨pc, pc', hpc, hperm, hcalls ▸ hset pc', hexec⟩

/-- One step of the last call. -/
theorem Config.run_last {exec : σ → ε → τ → Option (σ × τ)} {s s' : σ} {pc pc' : τ} {e : ε}
    (calls : List τ) (h : exec s e pc = some (s', pc')) :
    Config.run exec ⟨s, calls ++ [pc]⟩ calls.length e = some ⟨s', calls ++ [pc']⟩ := by
  simp only [Config.run, List.getElem?_concat_length, h, Option.map_some, List.set_append_right,
    Nat.sub_self, List.set_cons_zero, Nat.le_refl]

end Calls

end Transition

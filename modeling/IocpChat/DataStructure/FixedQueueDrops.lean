import IocpChat.DataStructure.FixedQueueThreads

/-!
# What a push takes for a full queue

A push that finds a number smaller than its place in the slot gives up, and its value is dropped.
The slot has such a number if the queue is full, and also while a pop that has claimed the place
one lap before has not released the slot.  The pop has moved `tail` on, so by the counters there
is room.  It can stay there for as long as its thread is not scheduled, while other pushes go
round the queue and come to its slot.

What is asked is that the queue was full at some moment of a call that drops its value.  `Watched`
remembers this for each call, and whether the call has met a pop in its slot.

## Main definitions

* `Fqueues.drains` — a pop still has to release the slot of a place.
* `Watched`, `Watched.step` — the queue, with what each call has seen of it.
* `Watched.DropsOnlyFull` — a dropped value means that the queue was full.
* `Watched.Prompt` — no push returns that has met a pop in its slot and not seen the queue full.
* `Watched.Undisturbed` — no push meets a pop in its slot.
-/

namespace IocpChat

open Transition

/-- `head - tail == capacity_`. -/
def Fqueue.isFull {α : Type} (q : Fqueue α) : Bool := q.head == q.tail + q.capacity

/-- The place that a pop has claimed and not released. -/
def FqueueCall.draining {α : Type} : FqueueCall α → Option ℕ
  | .move pos | .release _ pos => some pos
  | _ => none

/-- How a call comes to one of its last points: a pop returns from the step that releases its slot,
and a push gives up after it has loaded the number of its slot, before it returns. -/
def FqueueCall.After {α : Type} : FqueueCall α → FqueueCall α → Prop
  | .popped val pos, call => call = .release val pos
  | .pushFull, call => ∃ val pos, call = .pushLoad val pos
  | .dropped, call => call = .pushFull
  | _, _ => True

namespace Fqueues

open FqueueCall

variable {α : Type} {q q' : Fqueue α} {phase : ℕ → Phase} {call call' : FqueueCall α}
  {calls rest : List (FqueueCall α)} {p pos : ℕ} {val : α} {spurious : Bool}

/-- A pop that has claimed the place one lap before has not released the slot of this place. -/
def drains (q : Fqueue α) (calls : List (FqueueCall α)) (pos : ℕ) : Bool :=
  calls.any fun call => call.draining.any fun p => p + q.capacity == pos

theorem drains_eq_true_iff :
    drains q calls pos = true ↔
      ∃ call ∈ calls, ∃ p, call.draining = some p ∧ p + q.capacity = pos := by
  simp only [drains, List.any_eq_true, Option.any_eq_true, beq_iff_eq]

theorem drains_perm {calls' : List (FqueueCall α)} (hperm : calls.Perm calls') :
    drains q calls pos = drains q calls' pos := by
  rw [Bool.eq_iff_iff, drains_eq_true_iff, drains_eq_true_iff]
  simp only [hperm.mem_iff]

/-! ## Slots that were released -/

/-- A slot has been released by every pop that has returned its value. -/
def Settled (q : Fqueue α) (calls : List (FqueueCall α)) : Prop :=
  ∀ val pos, .popped val pos ∈ calls → pos + q.capacity ≤ q.sequence (q.index pos)

theorem le_update {f : ℕ → ℕ} {j n : ℕ} (h : f j ≤ n) (i : ℕ) : f i ≤ Function.update f j n i := by
  by_cases hi : i = j
  · rw [hi, Function.update_self]
    exact h
  · rw [Function.update_of_ne hi]

theorem Invariant.sequence_le (h : Invariant q (call :: rest) phase)
    (hlen : rest.length + 1 < 2 ^ 63)
    (hexec : q.exec spurious call = some (q', call')) (i : ℕ) : q.sequence i ≤ q'.sequence i := by
  have hown := h.knows call List.mem_cons_self
  obtain ⟨hhead, htail, -⟩ := h.lt hlen
  have hcap := h.phased.sized.two_le
  cases call with
  | publish val pos =>
    cases hexec
    have hslot := h.slotIs (p := pos) rfl
    rw [hown.2.2.2] at hslot
    have hseq := hslot.1
    have hlt : pos < q.head := hown.2.2.1
    rw [Fqueue.wrap_of_lt (by omega)]
    exact le_update (by omega) i
  | release val pos =>
    cases hexec
    have hslot := h.slotIs (p := pos + q.capacity) rfl
    rw [hown.2.2.2] at hslot
    have hseq := hslot.2.1
    rw [h.phased.sized.index_add] at hseq
    have hlt : pos < q.tail := hown.2.1
    rw [Fqueue.wrap_of_lt (by omega)]
    exact le_update (by omega) i
  | pushLoad val pos | popLoad pos | move pos =>
    obtain ⟨_, -, heq⟩ := Option.map_eq_some_iff.mp hexec
    cases heq
    exact le_rfl
  | pushCas val pos | popCas pos =>
    simp only [Fqueue.exec] at hexec
    split at hexec <;>
      · cases hexec
        exact le_rfl
  | pushed val pos | dropped | popped val pos | empty => cases hexec
  | _ =>
    cases hexec
    exact le_rfl

theorem Settled.perm {calls' : List (FqueueCall α)} (h : Settled q calls)
    (hperm : calls.Perm calls') :
    Settled q calls' := fun val pos hmem => h val pos (hperm.mem_iff.mpr hmem)

theorem after_of_exec (hexec : q.exec spurious call = some (q', call')) : call'.After call := by
  cases call with
  | pushLoad val pos =>
    obtain ⟨d, -, heq⟩ := Option.map_eq_some_iff.mp hexec
    cases heq
    split
    · trivial
    · split
      · exact ⟨val, pos, rfl⟩
      · trivial
  | popLoad pos =>
    obtain ⟨d, -, heq⟩ := Option.map_eq_some_iff.mp hexec
    cases heq
    split
    · trivial
    · split <;> trivial
  | move pos =>
    obtain ⟨val, -, heq⟩ := Option.map_eq_some_iff.mp hexec
    cases heq
    trivial
  | pushCas val pos | popCas pos =>
    rw [Fqueue.exec] at hexec
    split at hexec
    · cases hexec
      trivial
    · cases hexec
      trivial
  | release val pos | pushFull =>
    cases hexec
    rfl
  | push | pushRetry | write | publish | pop | popRetry =>
    cases hexec
    trivial
  | pushed | dropped | popped | empty => cases hexec

theorem Settled.exec (h : Settled q (call :: rest)) (hinv : Invariant q (call :: rest) phase)
    (hlen : rest.length + 1 < 2 ^ 63) (hexec : q.exec spurious call = some (q', call')) :
    Settled q' (call' :: rest) := by
  have hcap := capacity_exec hexec
  have hindex : ∀ p, q'.index p = q.index p := by
    intro p
    rw [Fqueue.index, Fqueue.index, hcap]
  intro val pos hmem
  rw [hindex, hcap]
  rcases List.mem_cons.mp hmem with heq | hmem
  · subst heq
    have hrelease : call = .release val pos := after_of_exec hexec
    subst hrelease
    cases hexec
    have hown := hinv.knows _ List.mem_cons_self
    obtain ⟨-, htail, -⟩ := hinv.lt hlen
    have hmax := hinv.phased.sized.two_le.2
    have hlt : pos < q.tail := hown.2.1
    rw [Fqueue.wrap_of_lt (by omega)]
    exact (Function.update_self (q.index pos) (pos + q.capacity) q.sequence).ge
  · exact (h val pos (List.mem_cons_of_mem _ hmem)).trans (hinv.sequence_le hlen hexec _)

/-! ## The number that a push finds -/

theorem le_sequence (h : q.Phased phase) (hp : q.InWindow p) :
    p + 1 ≤ q.sequence (q.index p) + q.capacity := by
  have hslot := h.slot p hp
  have hcap := h.sized.two_le.1
  cases hphase : phase p with
  | moving | moved =>
    rw [hphase] at hslot
    exact hslot.2.1.ge
  | full | free | writing | written =>
    rw [hphase] at hslot
    have hseq := hslot.1
    omega

/-- A slot that a push finds in use by an earlier lap, with room in the queue, is that of the next
place, and no pop has released it. -/
theorem Invariant.sequence_of_lt (h : Invariant q (.pushLoad val pos :: rest) phase)
    (hlt : q.sequence (q.index pos) < pos) (hroom : pos < q.tail + q.capacity) :
    pos = q.head ∧ q.capacity ≤ pos ∧ q.sequence (q.index pos) + q.capacity = pos + 1 := by
  have hpos : pos ≤ q.head := h.knows _ List.mem_cons_self
  obtain ⟨p, hp, hindex⟩ := h.phased.sized.exists_inWindow pos
  have hle : q.tail ≤ p ∧ p < q.tail + q.capacity := hp
  have hmod : p % q.capacity = pos % q.capacity := by
    rwa [h.phased.sized.index, h.phased.sized.index] at hindex
  by_cases hold : pos < q.tail
  · -- the slot is already used by a later lap
    have hlap : pos + q.capacity ≤ p := by
      by_contra hnear
      have heq : p = pos := Ring.eq_of_mod_eq (by omega) (by omega) le_rfl (by omega) hmod
      omega
    have hbehind := le_sequence h.phased hp
    rw [hindex] at hbehind
    omega
  · have heq : p = pos := Ring.eq_of_mod_eq hle.1 hle.2 (by omega) hroom hmod
    subst heq
    have hslot := h.phased.slot p hp
    have hclaimed := h.phased.claimed p hp
    cases hphase : phase p with
    | moving | moved =>
      rw [hphase] at hslot hclaimed
      have hhead : ¬ p < q.head := by simpa [Phase.claimed] using hclaimed
      exact ⟨by omega, hslot.1, hslot.2.1⟩
    | full | free | writing | written =>
      rw [hphase] at hslot
      have hseq := hslot.1
      omega

theorem Invariant.drains_of_lt (h : Invariant q (.pushLoad val pos :: rest) phase)
    (hsettled : Settled q rest) (hlt : q.sequence (q.index pos) < pos)
    (hroom : pos < q.tail + q.capacity) : drains q rest pos = true := by
  obtain ⟨heq, hle, hseq⟩ := h.sequence_of_lt hlt hroom
  have hcap := h.phased.sized.two_le.1
  have hclaim : pos - q.capacity ∈ (FqueueCall.pushLoad val pos :: rest).filterMap popClaim := by
    rw [h.pops.mem_iff, List.mem_range]
    omega
  obtain ⟨call, hcall, hpop⟩ := List.mem_filterMap.mp hclaim
  have hrest : call ∈ rest := by
    rcases List.mem_cons.mp hcall with rfl | hrest
    · cases hpop
    · exact hrest
  rw [drains_eq_true_iff]
  refine ⟨call, hrest, pos - q.capacity, ?_, by omega⟩
  cases call with
  | move p | release v p => exact hpop
  | popped v p =>
    cases hpop
    have hreleased := hsettled v _ hrest
    have hindex := h.phased.sized.index_add (pos - q.capacity)
    rw [Nat.sub_add_cancel hle] at hindex hreleased
    rw [← hindex] at hreleased
    omega
  | _ => cases hpop

theorem Invariant.lt_of_drains (h : Invariant q (call :: rest) phase)
    (hdrains : drains q rest pos = true) : q.sequence (q.index pos) < pos := by
  obtain ⟨call, hcall, p, hdraining, rfl⟩ := drains_eq_true_iff.mp hdrains
  have hcap := h.phased.sized.two_le.1
  have hknows := h.knows call (List.mem_cons_of_mem _ hcall)
  have hplace : call.place q.capacity = some (p + q.capacity) := by
    cases call with
    | move p' | release v p' =>
      cases hdraining
      rfl
    | _ => cases hdraining
  obtain ⟨hwindow, -⟩ := hknows.inWindow h.phased hplace
  have hslot := h.phased.slot _ hwindow
  cases call with
  | move p' =>
    cases hdraining
    rw [hknows.2.2] at hslot
    have hseq := hslot.2.1
    omega
  | release v p' =>
    cases hdraining
    rw [hknows.2.2.2] at hslot
    have hseq := hslot.2.1
    omega
  | _ => cases hdraining

/-- **When a push gives up**: the queue is full, or a pop has not released the slot. -/
theorem Invariant.lt_iff (h : Invariant q (.pushLoad val pos :: rest) phase)
    (hsettled : Settled q rest) :
    q.sequence (q.index pos) < pos ↔
      (pos = q.head ∧ q.isFull = true) ∨ drains q rest pos = true := by
  have hpos : pos ≤ q.head := h.knows _ List.mem_cons_self
  have hhead := h.phased.head_le
  rw [Fqueue.isFull, beq_iff_eq]
  constructor
  · intro hlt
    by_cases hroom : pos < q.tail + q.capacity
    · exact .inr (h.drains_of_lt hsettled hlt hroom)
    · exact .inl ⟨by omega, by omega⟩
  · rintro (⟨rfl, hfull⟩ | hdrains)
    · exact h.phased.sequence_lt_of_full hfull
    · exact h.lt_of_drains hdrains

theorem Invariant.exec_pushLoad (h : Invariant q (.pushLoad val pos :: rest) phase)
    (hsettled : Settled q rest) (hlen : rest.length + 1 < 2 ^ 63) :
    q.exec spurious (.pushLoad val pos) =
      some (q,
        if (pos = q.head ∧ q.isFull = true) ∨ drains q rest pos = true then .pushFull
        else if q.sequence (q.index pos) = pos then .pushCas val pos else .pushRetry val) := by
  have hdiff := (h.pushLoad hlen).1
  have hiff := h.lt_iff hsettled
  rw [Fqueue.exec, hdiff, Option.map_some]
  congr 2
  by_cases hlt : q.sequence (q.index pos) < pos
  · rw [if_neg (by omega), if_pos (by omega), if_pos (hiff.mp hlt)]
  · rw [if_neg (mt hiff.mpr hlt)]
    by_cases heq : q.sequence (q.index pos) = pos
    · rw [if_pos (by omega), if_pos heq]
    · rw [if_neg (by omega), if_neg (by omega), if_neg heq]

/-! ## Steps of the queue -/

/-- What holds of the queue and its calls. -/
structure Sound (c : Fqueues α) : Prop where
  invariant : ∃ phase, Invariant c.shared c.calls phase
  settled : Settled c.shared c.calls

section Sound

variable {c c' : Fqueues α} {a : Action α} {i l : ℕ}

theorem sound_new (hl : 2 ≤ l) (hmax : l ≤ 2 ^ 62) : Sound (new l : Fqueues α) :=
  ⟨⟨_, invariant_new hl hmax⟩, by simp [Settled, new]⟩

theorem Sound.spawn (h : Sound c) (hcall : call.pushClaim = none ∧ call.popClaim = none)
    (hknows : ∀ phase, c.shared.Knows phase call) : Sound (c.spawn call) := by
  obtain ⟨phase, hinv⟩ := h.invariant
  refine ⟨⟨phase, hinv.spawn hcall.1 hcall.2 (hknows phase)⟩, ?_⟩
  intro val pos hmem
  rcases List.mem_append.mp hmem with hmem | hmem
  · exact h.settled val pos hmem
  · rw [List.mem_singleton] at hmem
    subst hmem
    cases hcall.2

theorem Sound.focus (h : Sound c) (hcall : c.calls[i]? = some call) :
    ∃ phase, Invariant c.shared (call :: c.calls.eraseIdx i) phase ∧
      Settled c.shared (call :: c.calls.eraseIdx i) ∧
      c.calls.length = (c.calls.eraseIdx i).length + 1 := by
  obtain ⟨phase, hinv⟩ := h.invariant
  have hperm := (perm_set hcall).1
  exact ⟨phase, hinv.perm hperm, h.settled.perm hperm, hperm.length_eq⟩

theorem Sound.step (h : Sound c) (hlen : c.calls.length < 2 ^ 63) (hstep : c.step a = some c') :
    Sound c' := by
  cases a with
  | push | pop =>
    cases hstep
    exact h.spawn ⟨rfl, rfl⟩ fun _ => trivial
  | run i spurious =>
    obtain ⟨call, call', hcall, hperm, hperm', hexec⟩ := Config.run_spec hstep
    obtain ⟨phase, hinv, hsettled, hlength⟩ := h.focus hcall
    obtain ⟨phase', hinv'⟩ := hinv.exec (by omega) hexec
    have hsettled' := hsettled.exec hinv (by omega) hexec
    exact ⟨⟨phase', hinv'.perm hperm'.symm⟩, hsettled'.perm hperm'.symm⟩

theorem length_step (hstep : c.step a = some c') : c'.calls.length ≤ c.calls.length + 1 := by
  cases a with
  | push val | pop =>
    cases hstep
    simp [Config.spawn]
  | run i spurious =>
    obtain ⟨-, call', -, -, hcalls⟩ := Config.exists_of_run hstep
    rw [hcalls, List.length_set]
    exact Nat.le_succ _

theorem capacity_step (hstep : c.step a = some c') : c'.shared.capacity = c.shared.capacity := by
  cases a with
  | push val | pop =>
    cases hstep
    rfl
  | run i spurious =>
    obtain ⟨_, _, -, hexec, -⟩ := Config.exists_of_run hstep
    exact capacity_exec hexec

theorem Sound.exec_pushLoad (h : Sound c) (hlen : c.calls.length < 2 ^ 63)
    (hcall : c.calls[i]? = some (.pushLoad val pos)) :
    c.shared.exec spurious (.pushLoad val pos) =
      some (c.shared,
        if (pos = c.shared.head ∧ c.shared.isFull = true) ∨ drains c.shared c.calls pos = true then
          .pushFull
        else if c.shared.sequence (c.shared.index pos) = pos then .pushCas val pos
        else .pushRetry val) := by
  obtain ⟨phase, hinv, hsettled, hlength⟩ := h.focus hcall
  have hdrains : drains c.shared c.calls pos = drains c.shared (c.calls.eraseIdx i) pos :=
    (drains_perm (perm_set hcall).1).trans rfl
  have hothers : Settled c.shared (c.calls.eraseIdx i) := by
    intro v p hmem
    exact hsettled v p (List.mem_cons_of_mem _ hmem)
  rw [hdrains]
  exact hinv.exec_pushLoad hothers (by omega)

end Sound

end Fqueues

/-! ## What the calls see -/

/-- The queue and the calls on it, with what each call has seen. -/
structure Watched (α : Type) where
  queue : Fqueues α
  /-- The queue was full at a moment of the call. -/
  sawFull : ℕ → Bool
  /-- The call has loaded the number of a slot that a pop had not released. -/
  metPop : ℕ → Bool

namespace Watched

open FqueueCall Fqueues

variable {α : Type}

def new (l : ℕ) : Watched α := ⟨.new l, fun _ => false, fun _ => false⟩

/-- The `i`-th call has not returned. -/
def inProgress (c : Fqueues α) (i : ℕ) : Bool := c.calls[i]?.any fun call => !call.returned

/-- The step is one of the `i`-th call, which loads the number of a slot that a pop has not
released. -/
def meetsPop (c : Fqueues α) (a : Action α) (i : ℕ) : Bool :=
  match a, c.calls[i]? with
  | .run j _, some (.pushLoad _ pos) => j == i && drains c.shared c.calls pos
  | _, _ => false

def step (s : Watched α) (a : Action α) : Option (Watched α) :=
  (s.queue.step a).map fun c =>
    ⟨c, fun i => s.sawFull i || (c.shared.isFull && inProgress c i),
      fun i => s.metPop i || meetsPop s.queue a i⟩

/-- A call that has dropped its value was in progress when the queue was full. -/
def DropsOnlyFull (s : Watched α) : Prop :=
  ∀ i, s.queue.calls[i]? = some .dropped → s.sawFull i = true

/-- A push that gives up does not return if it has met a pop and not seen the queue full. -/
def Prompt (s : Watched α) : Action α → Prop
  | .run i _ =>
    s.queue.calls[i]? = some .pushFull → s.metPop i = true → s.sawFull i = true
  | _ => True

instance [DecidableEq α] (s : Watched α) : ∀ a, Decidable (s.Prompt a)
  | .run i _ =>
    inferInstanceAs (Decidable (s.queue.calls[i]? = some .pushFull → s.metPop i = true →
      s.sawFull i = true))
  | .push _ | .pop => .isTrue trivial

/-- No push loads the number of a slot that a pop has claimed and not released. -/
def Undisturbed (s : Watched α) : Action α → Prop
  | .run i spurious => meetsPop s.queue (.run i spurious) i = false
  | _ => True

instance (s : Watched α) : ∀ a, Decidable (s.Undisturbed a)
  | .run i spurious => inferInstanceAs (Decidable (meetsPop s.queue (.run i spurious) i = false))
  | .push _ | .pop => .isTrue trivial

/-- What is known of the calls, with `n` actions left. -/
structure Kept (n : ℕ) (s : Watched α) : Prop where
  bound : s.queue.calls.length + n < 2 ^ 63
  sound : Sound s.queue
  full : ∀ i, inProgress s.queue i = true → s.queue.shared.isFull = true → s.sawFull i = true
  gaveUp : ∀ i, s.queue.calls[i]? = some .pushFull → s.sawFull i = true ∨ s.metPop i = true
  dropped : s.DropsOnlyFull

section Kept

variable {s s' : Watched α} {a : Action α} {n i : ℕ} {call : FqueueCall α}

theorem sawFull_step (hstep : s.step a = some s') (h : s.sawFull i = true) :
    s'.sawFull i = true := by
  obtain ⟨c, -, rfl⟩ := Option.map_eq_some_iff.mp hstep
  simp [h]

theorem metPop_step (hstep : s.step a = some s') (h : s.metPop i = true) : s'.metPop i = true := by
  obtain ⟨c, -, rfl⟩ := Option.map_eq_some_iff.mp hstep
  simp [h]

theorem call_of_step {c c' : Fqueues α} (hstep : c.step a = some c')
    (hcall : c'.calls[i]? = some call) :
    call = .pop ∨ (∃ val, call = .push val) ∨ c.calls[i]? = some call ∨
      ∃ before spurious, a = .run i spurious ∧ c.calls[i]? = some before ∧
        c.shared.exec spurious before = some (c'.shared, call) := by
  have hspawn : ∀ {new}, (c.calls ++ [new])[i]? = some call →
      call = new ∨ c.calls[i]? = some call := by
    intro new hnew
    rw [List.getElem?_append] at hnew
    split at hnew
    · exact .inr hnew
    · simp only [List.getElem?_singleton] at hnew
      split at hnew
      · exact .inl (Option.some.inj hnew).symm
      · cases hnew
  cases a with
  | push val =>
    cases hstep
    rcases hspawn hcall with rfl | hsame
    · exact .inr (.inl ⟨val, rfl⟩)
    · exact .inr (.inr (.inl hsame))
  | pop =>
    cases hstep
    rcases hspawn hcall with rfl | hsame
    · exact .inl rfl
    · exact .inr (.inr (.inl hsame))
  | run j spurious =>
    obtain ⟨before, after, hbefore, hexec, hcalls⟩ := Config.exists_of_run hstep
    rw [hcalls, List.getElem?_set] at hcall
    split at hcall
    · rename_i heq
      subst heq
      have hafter : after = call := by
        split at hcall
        · exact Option.some.inj hcall
        · cases hcall
      subst hafter
      exact .inr (.inr (.inr ⟨before, spurious, rfl, hbefore, hexec⟩))
    · exact .inr (.inr (.inl hcall))

theorem Undisturbed.metPop_step (h : s.Undisturbed a) (hmet : ∀ i, s.metPop i = false)
    (hstep : s.step a = some s') (i : ℕ) : s'.metPop i = false := by
  obtain ⟨c, -, rfl⟩ := Option.map_eq_some_iff.mp hstep
  simp only [hmet, Bool.false_or]
  cases a with
  | push val | pop => simp [meetsPop]
  | run j spurious =>
    by_cases hj : j = i
    · exact hj ▸ h
    · simp only [meetsPop]
      split <;> simp_all

theorem meetsPop_eq {c : Fqueues α} {val : α} {pos : ℕ} {spurious : Bool}
    (hcall : c.calls[i]? = some (.pushLoad val pos)) :
    meetsPop c (.run i spurious) i = drains c.shared c.calls pos := by
  simp [meetsPop, hcall]

theorem exists_of_meetsPop {c : Fqueues α} {spurious : Bool}
    (h : meetsPop c (.run i spurious) i = true) :
    ∃ val pos, c.calls[i]? = some (.pushLoad val pos) ∧ drains c.shared c.calls pos = true := by
  unfold meetsPop at h
  split at h
  · rename_i hcall
    rw [Bool.and_eq_true] at h
    exact ⟨_, _, hcall, h.2⟩
  · cases h

theorem Kept.gaveUp_step (h : s.Kept (n + 1)) (hstep : s.step a = some s')
    (hcall : s'.queue.calls[i]? = some .pushFull) : s'.sawFull i = true ∨ s'.metPop i = true := by
  have hbound := h.bound
  obtain ⟨c, hc, rfl⟩ := Option.map_eq_some_iff.mp hstep
  rcases call_of_step hc hcall with hnew | ⟨_, hnew⟩ | hsame |
    ⟨before, spurious, rfl, hbefore, hexec⟩
  · cases hnew
  · cases hnew
  · rcases h.gaveUp i hsame with hfull | hpop
    · exact .inl (sawFull_step hstep hfull)
    · exact .inr (metPop_step hstep hpop)
  · obtain ⟨val, pos, rfl⟩ := after_of_exec hexec
    rw [h.sound.exec_pushLoad (by omega) hbefore] at hexec
    by_cases hdrains : drains s.queue.shared s.queue.calls pos = true
    · exact .inr (by simp [meetsPop_eq hbefore, hdrains])
    · by_cases hfull : s.queue.shared.isFull = true
      · refine .inl (sawFull_step hstep (h.full i ?_ hfull))
        simp [inProgress, hbefore, returned]
      · have hnone : ¬ ((pos = s.queue.shared.head ∧ s.queue.shared.isFull = true) ∨
            drains s.queue.shared s.queue.calls pos = true) := by tauto
        rw [if_neg hnone] at hexec
        grind

theorem step_pushFull (spurious : Bool) (hcall : s.queue.calls[i]? = some .pushFull) :
    ∃ s', s.step (.run i spurious) = some s' ∧ s'.queue.calls[i]? = some .dropped ∧
      s'.sawFull i = s.sawFull i := by
  obtain ⟨hi, -⟩ := List.getElem?_eq_some_iff.mp hcall
  have hqueue : s.queue.step (.run i spurious) =
      some ⟨s.queue.shared, s.queue.calls.set i .dropped⟩ := by
    simp [Fqueues.step, Config.run, hcall, Fqueue.exec]
  refine ⟨_, congrArg (Option.map _) hqueue, ?_, ?_⟩
  · simp [hi]
  · simp [inProgress, hi, returned]

/-- **A step drops a value only of a full queue** just if it is prompt. -/
theorem Kept.dropped_iff (h : s.Kept (n + 1)) :
    (∀ s' ∈ s.step a, s'.DropsOnlyFull) ↔ s.Prompt a := by
  constructor
  · intro hdrops
    cases a with
    | push val | pop => trivial
    | run i spurious =>
      intro hcall _
      obtain ⟨s', hstep, hdropped, hsame⟩ := step_pushFull spurious hcall
      rw [← hsame]
      exact hdrops s' hstep i hdropped
  · intro hprompt s' hstep i hcall
    obtain ⟨c, hc, rfl⟩ := Option.map_eq_some_iff.mp hstep
    rcases call_of_step hc hcall with hnew | ⟨_, hnew⟩ | hsame |
    ⟨before, spurious, rfl, hbefore, hexec⟩
    · cases hnew
    · cases hnew
    · exact sawFull_step hstep (h.dropped i hsame)
    · have hfull : before = .pushFull := after_of_exec hexec
      subst hfull
      refine sawFull_step hstep ?_
      rcases h.gaveUp i hbefore with hsaw | hmet
      · exact hsaw
      · exact hprompt hbefore hmet

theorem Kept.step (h : s.Kept (n + 1)) (hprompt : s.Prompt a) (hstep : s.step a = some s') :
    s'.Kept n := by
  have hbound := h.bound
  have hdropped := h.dropped_iff.mpr hprompt s' hstep
  have hgaveUp : ∀ i, s'.queue.calls[i]? = some .pushFull →
      s'.sawFull i = true ∨ s'.metPop i = true :=
    fun i => h.gaveUp_step hstep
  obtain ⟨c, hc, rfl⟩ := Option.map_eq_some_iff.mp hstep
  have hlength := length_step hc
  refine ⟨?_, h.sound.step (by omega) hc, ?_, hgaveUp, hdropped⟩
  · change c.calls.length + n < 2 ^ 63
    omega
  · intro i hprogress hfull
    simp
    exact .inr ⟨hfull, hprogress⟩

end Kept

/-- **When a push drops its value only of a full queue.** -/
theorem meets_dropsOnlyFull_iff (l : ℕ) (hl : 2 ≤ l) (hmax : l ≤ 2 ^ 62) (as : List (Action α))
    (hcalls : as.length < 2 ^ 63) :
    Meets step (fun s a => ∀ s' ∈ s.step a, s'.DropsOnlyFull) (new l) as ↔
      Meets step Prompt (new l) as := by
  refine meets_congr_left Kept ?_ (fun _ _ _ h => h.dropped_iff) fun _ _ _ _ h => h.step
  refine ⟨?_, sound_new hl hmax, ?_, ?_, ?_⟩
  · simpa [new, Fqueues.new] using hcalls
  · simp [new, Fqueues.new, inProgress]
  · simp [new, Fqueues.new]
  · simp [new, Fqueues.new, DropsOnlyFull]

/-- Where no push meets a pop in its slot, a push drops its value only of a full queue. -/
theorem prompt_of_undisturbed {l : ℕ} {as : List (Action α)}
    (h : Meets step Undisturbed (new l) as) : Meets step Prompt (new l) as := by
  refine h.imp (fun s => ∀ i, s.metPop i = false) (fun _ => rfl) ?_
    fun _ _ _ hmet ha hstep => ha.metPop_step hmet hstep
  intro s a hmet _
  cases a with
  | push val | pop => trivial
  | run i spurious =>
    intro _ hpop
    rw [hmet i] at hpop
    cases hpop

/-- Two values fill a queue of two places. -/
def sampleFull : List (Action ℕ) :=
  .push 7 :: List.replicate 5 (.run 0 false) ++ .push 8 :: List.replicate 5 (.run 1 false)

/-- A pop claims the first of them and stands still, and a third value is pushed. -/
def sampleStall : List (Action ℕ) :=
  sampleFull ++ .pop :: List.replicate 3 (.run 2 false) ++
    .push 9 :: List.replicate 3 (.run 3 false)

end Watched

end IocpChat

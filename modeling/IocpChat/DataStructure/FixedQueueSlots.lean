import IocpChat.DataStructure.FixedQueue
import IocpChat.Lib.Ring

/-!
# The slots of an `Fqueue`

The places from `tail` to `tail + capacity` have one slot each.  Those before `head` are
claimed by a push, whose value is being written or is there; the others are free, or still
being emptied for the pop of the place one lap before.  The phase of a place says which, and
determines the sequence number and the data of its slot.

A thread that is about to claim a place knows that it is free, or full, unless the counter has
moved on.  Sequence numbers of different laps are told apart by the capacity being at least
two.

## Main definitions

* `Phase`, `Fqueue.SlotIs` — the phases of a place.
* `Fqueue.Phased` — the queue is as the phases say.
* `Fqueue.Knows` — what a thread knows at each point.
* `Fqueue.setSlot`, `Fqueue.claimHead`, `Fqueue.claimTail` — what a thread does to the queue.
-/

namespace IocpChat

/-- What happens with the slot of a place. -/
inductive Phase
  /-- No push has claimed the place. -/
  | free
  | writing
  | written
  | full
  /-- The pop of the place one lap before has not moved its value out. -/
  | moving
  | moved
  deriving DecidableEq

/-- A push has claimed the place. -/
def Phase.claimed : Phase → Bool
  | .writing | .written | .full => true
  | .free | .moving | .moved => false

namespace FqueueCall

variable {α : Type}

/-- The place that a push has claimed. -/
def pushClaim : FqueueCall α → Option ℕ
  | .write _ pos | .publish _ pos | .pushed _ pos => some pos
  | _ => none

/-- The place that a pop has claimed. -/
def popClaim : FqueueCall α → Option ℕ
  | .move pos | .release _ pos | .popped _ pos => some pos
  | _ => none

def returned : FqueueCall α → Bool
  | .pushed .. | .dropped | .popped .. | .empty => true
  | _ => false

/-- The place whose phase the call is responsible for. -/
def place (capacity : ℕ) : FqueueCall α → Option ℕ
  | .write _ pos | .publish _ pos => some pos
  | .move pos | .release _ pos => some (pos + capacity)
  | _ => none

end FqueueCall

namespace Fqueue

variable {α : Type} {q : Fqueue α} {phase : ℕ → Phase} {p p' : ℕ}

/-- The slot of a place is as the phase says. -/
def SlotIs (q : Fqueue α) (p : ℕ) : Phase → Prop
  | .free | .writing => q.sequence (q.index p) = p ∧ q.data (q.index p) = none
  | .written => q.sequence (q.index p) = p ∧ q.data (q.index p) = q.log[p]?
  | .full => q.sequence (q.index p) = p + 1 ∧ q.data (q.index p) = q.log[p]?
  | .moving =>
    q.capacity ≤ p ∧ q.sequence (q.index p) + q.capacity = p + 1 ∧
      q.data (q.index p) = q.log[p - q.capacity]?
  | .moved =>
    q.capacity ≤ p ∧ q.sequence (q.index p) + q.capacity = p + 1 ∧ q.data (q.index p) = none

def InWindow (q : Fqueue α) (p : ℕ) : Prop := q.tail ≤ p ∧ p < q.tail + q.capacity

def Knows (q : Fqueue α) (phase : ℕ → Phase) : FqueueCall α → Prop
  | .pushLoad _ pos => pos ≤ q.head
  | .pushCas _ pos =>
    pos ≤ q.head ∧ (pos = q.head → q.head < q.tail + q.capacity ∧ phase q.head = .free)
  | .write val pos =>
    q.log[pos]? = some val ∧ q.tail ≤ pos ∧ pos < q.head ∧ phase pos = .writing
  | .publish val pos =>
    q.log[pos]? = some val ∧ q.tail ≤ pos ∧ pos < q.head ∧ phase pos = .written
  | .pushed val pos => q.log[pos]? = some val
  | .popLoad pos => pos ≤ q.tail
  | .popCas pos => pos ≤ q.tail ∧ (pos = q.tail → q.tail < q.head ∧ phase q.tail = .full)
  | .move pos => pos < q.tail ∧ q.head ≤ pos + q.capacity ∧ phase (pos + q.capacity) = .moving
  | .release val pos =>
    q.log[pos]? = some val ∧ pos < q.tail ∧ q.head ≤ pos + q.capacity ∧
      phase (pos + q.capacity) = .moved
  | .popped val pos => q.log[pos]? = some val
  | .push _ | .pushFull | .pushRetry _ | .dropped | .pop | .popRetry | .empty => True

/-- The capacity, as it is made. -/
def Sized (q : Fqueue α) : Prop := ∃ k, 1 ≤ k ∧ k ≤ 62 ∧ q.capacity = 2 ^ k

structure Phased (q : Fqueue α) (phase : ℕ → Phase) : Prop where
  sized : q.Sized
  tail_le : q.tail ≤ q.head
  head_le : q.head ≤ q.tail + q.capacity
  length_log : q.log.length = q.head
  slot : ∀ p, q.InWindow p → q.SlotIs p (phase p)
  claimed : ∀ p, q.InWindow p → ((phase p).claimed = true ↔ p < q.head)

/-! ## Slots -/

theorem Sized.two_le (h : q.Sized) : 2 ≤ q.capacity ∧ q.capacity ≤ 2 ^ 62 := by
  obtain ⟨k, hk, hmax, hcap⟩ := h
  have hpow : 2 ^ 1 ≤ 2 ^ k := Nat.pow_le_pow_right (by decide) hk
  have hpow' : 2 ^ k ≤ 2 ^ 62 := Nat.pow_le_pow_right (by decide) hmax
  omega

theorem Sized.index (h : q.Sized) (p : ℕ) : q.index p = p % q.capacity := by
  obtain ⟨k, -, -, hcap⟩ := h
  rw [Fqueue.index, hcap, Nat.and_two_pow_sub_one_eq_mod]

theorem Sized.index_add (h : q.Sized) (p : ℕ) : q.index (p + q.capacity) = q.index p := by
  rw [h.index, h.index, Nat.add_mod_right]

theorem Sized.index_ne (h : q.Sized) (hp : q.InWindow p) (hp' : q.InWindow p') (hne : p ≠ p') :
    q.index p ≠ q.index p' := by
  rw [h.index, h.index]
  intro heq
  exact hne (Ring.eq_of_mod_eq hp.1 hp.2 hp'.1 hp'.2 heq)

theorem Sized.exists_inWindow (h : q.Sized) (pos : ℕ) :
    ∃ p, q.InWindow p ∧ q.index p = q.index pos := by
  obtain ⟨p, hle, hlt, heq⟩ := Ring.exists_mod_eq q.tail pos (Nat.lt_of_lt_of_le Nat.two_pos h.two_le.1)
  exact ⟨p, ⟨hle, hlt⟩, by rw [h.index, h.index, heq]⟩

theorem Phased.sequence_le (h : q.Phased phase) (pos : ℕ) :
    q.sequence (q.index pos) < q.tail + q.capacity ∨ q.sequence (q.index pos) ≤ q.head := by
  obtain ⟨p, hp, hindex⟩ := h.sized.exists_inWindow pos
  have hslot := h.slot p hp
  have hclaimed := h.claimed p hp
  rw [← hindex]
  cases hphase : phase p with
  | full =>
    rw [hphase] at hslot hclaimed
    have hlt := hclaimed.mp rfl
    right
    rw [hslot.1]
    omega
  | free | writing | written =>
    rw [hphase] at hslot
    left
    rw [hslot.1]
    exact hp.2
  | moving | moved =>
    rw [hphase] at hslot
    have hseq := hslot.2.1
    have hcap := h.sized.two_le.1
    have hlt := hp.2
    left
    omega

theorem Phased.sequence_lt_of_full (h : q.Phased phase) (hfull : q.head = q.tail + q.capacity) :
    q.sequence (q.index q.head) < q.head := by
  have hcap := h.sized.two_le.1
  have hwindow : q.InWindow q.tail := ⟨le_rfl, by omega⟩
  have hslot := h.slot q.tail hwindow
  have hclaimed := (h.claimed q.tail hwindow).mpr (by omega)
  rw [hfull, h.sized.index_add]
  cases hphase : phase q.tail with
  | free | moving | moved =>
    rw [hphase] at hclaimed
    cases hclaimed
  | writing | written | full =>
    rw [hphase] at hslot
    have := hslot.1
    omega

/-- **A free slot.**  If the number of the next place is found in its slot, the place can be
claimed. -/
theorem Phased.free (h : q.Phased phase) (hseq : q.sequence (q.index q.head) = q.head) :
    q.head < q.tail + q.capacity ∧ phase q.head = .free := by
  have hcap := h.sized.two_le.1
  have hlt : q.head < q.tail + q.capacity := by
    apply Nat.lt_of_le_of_ne h.head_le
    intro hfull
    exact (h.sequence_lt_of_full hfull).ne hseq
  refine ⟨hlt, ?_⟩
  have hwindow : q.InWindow q.head := ⟨h.tail_le, hlt⟩
  have hslot := h.slot q.head hwindow
  have hclaimed := h.claimed q.head hwindow
  cases hphase : phase q.head with
  | free => rfl
  | writing | written | full =>
    rw [hphase] at hclaimed
    exact absurd (hclaimed.mp rfl) (lt_irrefl _)
  | moving | moved =>
    rw [hphase] at hslot
    have := hslot.2.1
    omega

/-- **A full slot.**  If the number after the oldest place is found in its slot, there is a
value. -/
theorem Phased.full (h : q.Phased phase) (hseq : q.sequence (q.index q.tail) = q.tail + 1) :
    q.tail < q.head ∧ phase q.tail = .full := by
  have hcap := h.sized.two_le.1
  have hwindow : q.InWindow q.tail := ⟨le_rfl, by omega⟩
  have hslot := h.slot q.tail hwindow
  have hclaimed := h.claimed q.tail hwindow
  cases hphase : phase q.tail with
  | full =>
    rw [hphase] at hclaimed
    exact ⟨hclaimed.mp rfl, rfl⟩
  | free | writing | written =>
    rw [hphase] at hslot
    have := hslot.1
    omega
  | moving | moved =>
    rw [hphase] at hslot
    have := hslot.2.1
    omega

/-! ## Writing to a slot -/

/-- The slot of a place gets this number and this data. -/
def setSlot (q : Fqueue α) (p seq : ℕ) (d : Option α) : Fqueue α :=
  { q with
    sequence := Function.update q.sequence (q.index p) seq
    data := Function.update q.data (q.index p) d }

section SetSlot

variable {seq : ℕ} {d : Option α} {ph : Phase} {call : FqueueCall α}

theorem SlotIs.setSlot (h : q.SlotIs p' ph) (hne : q.index p' ≠ q.index p) :
    (q.setSlot p seq d).SlotIs p' ph := by
  have hseq : (q.setSlot p seq d).sequence ((q.setSlot p seq d).index p') = q.sequence (q.index p') :=
    Function.update_of_ne hne ..
  have hdata : (q.setSlot p seq d).data ((q.setSlot p seq d).index p') = q.data (q.index p') :=
    Function.update_of_ne hne ..
  cases ph <;>
    · simp only [SlotIs, hseq, hdata]
      exact h

theorem Phased.setSlot (h : q.Phased phase) (hp : q.InWindow p)
    (hslot : (q.setSlot p seq d).SlotIs p ph) (hph : ph.claimed = (phase p).claimed) :
    (q.setSlot p seq d).Phased (Function.update phase p ph) := by
  refine ⟨h.sized, h.tail_le, h.head_le, h.length_log, ?_, ?_⟩
  · intro p' hp'
    by_cases hne : p' = p
    · subst hne
      rw [Function.update_self]
      exact hslot
    · rw [Function.update_of_ne hne]
      exact (h.slot p' hp').setSlot (h.sized.index_ne hp' hp hne)
  · intro p' hp'
    by_cases hne : p' = p
    · subst hne
      rw [Function.update_self, hph]
      exact h.claimed p' hp'
    · rw [Function.update_of_ne hne]
      exact h.claimed p' hp'

theorem Knows.inWindow (hq : q.Phased phase) (h : q.Knows phase call)
    (hplace : call.place q.capacity = some p) :
    q.InWindow p ∧ phase p ≠ .free ∧ phase p ≠ .full := by
  have hhead := hq.head_le
  cases call with
  | write | publish =>
    cases hplace
    obtain ⟨-, htail, hlt, hphase⟩ := h
    exact ⟨⟨htail, by omega⟩, by simp [hphase]⟩
  | move pos =>
    cases hplace
    obtain ⟨hlt, hle, hphase⟩ := h
    have htail := hq.tail_le
    exact ⟨⟨by omega, by omega⟩, by simp [hphase]⟩
  | release val pos =>
    cases hplace
    obtain ⟨-, hlt, hle, hphase⟩ := h
    have htail := hq.tail_le
    exact ⟨⟨by omega, by omega⟩, by simp [hphase]⟩
  | _ => cases hplace

theorem Knows.setSlot (h : q.Knows phase call) (hplace : call.place q.capacity ≠ some p)
    (hp : phase p ≠ .free ∧ phase p ≠ .full) :
    (q.setSlot p seq d).Knows (Function.update phase p ph) call := by
  cases call with
  | pushCas val pos =>
    refine ⟨h.1, fun hpos => ?_⟩
    obtain ⟨hlt, hfree⟩ := h.2 hpos
    have hne : q.head ≠ p := fun heq => hp.1 (heq ▸ hfree)
    exact ⟨hlt, (Function.update_of_ne hne ..).trans hfree⟩
  | popCas pos =>
    refine ⟨h.1, fun hpos => ?_⟩
    obtain ⟨hlt, hfull⟩ := h.2 hpos
    have hne : q.tail ≠ p := fun heq => hp.2 (heq ▸ hfull)
    exact ⟨hlt, (Function.update_of_ne hne ..).trans hfull⟩
  | write val pos | publish val pos =>
    have hne : pos ≠ p := fun heq => hplace (congrArg some heq)
    exact ⟨h.1, h.2.1, h.2.2.1, (Function.update_of_ne hne ..).trans h.2.2.2⟩
  | move pos =>
    have hne : pos + q.capacity ≠ p := fun heq => hplace (congrArg some heq)
    exact ⟨h.1, h.2.1, (Function.update_of_ne hne ..).trans h.2.2⟩
  | release val pos =>
    have hne : pos + q.capacity ≠ p := fun heq => hplace (congrArg some heq)
    exact ⟨h.1, h.2.1, h.2.2.1, (Function.update_of_ne hne ..).trans h.2.2.2⟩
  | _ => exact h

end SetSlot

/-! ## Claiming a place -/

/-- A push claims the next place. -/
def claimHead (q : Fqueue α) (val : α) : Fqueue α :=
  { q with head := q.head + 1, log := q.log ++ [val] }

/-- A pop claims the oldest place. -/
def claimTail (q : Fqueue α) : Fqueue α := { q with tail := q.tail + 1 }

section Claim

variable {val v : α} {call : FqueueCall α}

theorem Phased.getElem?_log_claimHead (h : q.Phased phase) (hp : p < q.head) :
    (q.claimHead val).log[p]? = q.log[p]? :=
  List.getElem?_append_left (h.length_log.symm ▸ hp)

theorem getElem?_log_claimHead_of_some (hp : q.log[p]? = some v) :
    (q.claimHead val).log[p]? = some v := by
  rw [← hp]
  exact List.getElem?_append_left (List.getElem?_eq_some_iff.mp hp).1

theorem Phased.claimHead (h : q.Phased phase) (hlt : q.head < q.tail + q.capacity)
    (hfree : phase q.head = .free) :
    (q.claimHead val).Phased (Function.update phase q.head .writing) := by
  refine ⟨h.sized, Nat.le_succ_of_le h.tail_le, hlt, ?_, ?_, ?_⟩
  · simp [Fqueue.claimHead, h.length_log]
  · intro p hp
    have hslot := h.slot p hp
    by_cases hne : p = q.head
    · subst hne
      rw [Function.update_self]
      rwa [hfree] at hslot
    · rw [Function.update_of_ne hne]
      have hclaimed := h.claimed p hp
      have htail := h.tail_le
      have hp' : p < q.tail + q.capacity := hp.2
      cases hphase : phase p with
      | free | writing | moved =>
        rw [hphase] at hslot
        exact hslot
      | written | full =>
        rw [hphase] at hslot hclaimed
        exact ⟨hslot.1, hslot.2.trans (h.getElem?_log_claimHead (hclaimed.mp rfl)).symm⟩
      | moving =>
        rw [hphase] at hslot
        have hcap := hslot.1
        have hlap : p - q.capacity < q.head := by omega
        exact ⟨hslot.1, hslot.2.1, hslot.2.2.trans (h.getElem?_log_claimHead hlap).symm⟩
  · intro p hp
    by_cases hne : p = q.head
    · subst hne
      simp [Fqueue.claimHead, Phase.claimed]
    · rw [Function.update_of_ne hne, h.claimed p hp]
      change p < q.head ↔ p < q.head + 1
      omega

theorem Knows.claimHead (h : q.Knows phase call) (hfree : phase q.head = .free) :
    (q.claimHead val).Knows (Function.update phase q.head .writing) call := by
  have hphase : ∀ {p ph}, phase p = ph → ph ≠ .free →
      p ≠ q.head ∧ Function.update phase q.head .writing p = ph := by
    intro p ph hp hne
    have hhead : p ≠ q.head := by
      rintro rfl
      exact hne (hp.symm.trans hfree)
    exact ⟨hhead, (Function.update_of_ne hhead ..).trans hp⟩
  cases call with
  | pushLoad val pos => exact Nat.le_succ_of_le h
  | pushCas val pos =>
    refine ⟨Nat.le_succ_of_le h.1, fun hpos => ?_⟩
    have hle : pos ≤ q.head := h.1
    have hpos' : pos = q.head + 1 := hpos
    omega
  | write val pos =>
    obtain ⟨hlog, htail, hlt, hwriting⟩ := h
    exact ⟨getElem?_log_claimHead_of_some hlog, htail, Nat.lt_succ_of_lt hlt,
      (hphase hwriting (by decide)).2⟩
  | publish val pos =>
    obtain ⟨hlog, htail, hlt, hwritten⟩ := h
    exact ⟨getElem?_log_claimHead_of_some hlog, htail, Nat.lt_succ_of_lt hlt,
      (hphase hwritten (by decide)).2⟩
  | pushed val pos => exact getElem?_log_claimHead_of_some h
  | popCas pos =>
    refine ⟨h.1, fun hpos => ?_⟩
    obtain ⟨hlt, hfull⟩ := h.2 hpos
    exact ⟨Nat.lt_succ_of_lt hlt, (hphase hfull (by decide)).2⟩
  | move pos =>
    obtain ⟨hlt, hle, hmoving⟩ := h
    obtain ⟨hne, hsame⟩ := hphase hmoving (by decide)
    exact ⟨hlt, Nat.lt_of_le_of_ne hle hne.symm, hsame⟩
  | release val pos =>
    obtain ⟨hlog, hlt, hle, hmoved⟩ := h
    obtain ⟨hne, hsame⟩ := hphase hmoved (by decide)
    exact ⟨getElem?_log_claimHead_of_some hlog, hlt, Nat.lt_of_le_of_ne hle hne.symm, hsame⟩
  | popped val pos => exact getElem?_log_claimHead_of_some h
  | _ => exact h

theorem Phased.claimTail (h : q.Phased phase) (hlt : q.tail < q.head) (hfull : phase q.tail = .full) :
    q.claimTail.Phased (Function.update phase (q.tail + q.capacity) .moving) := by
  have hcap := h.sized.two_le.1
  have hhead := h.head_le
  refine ⟨h.sized, hlt, ?_, h.length_log, ?_, ?_⟩
  · change q.head ≤ q.tail + 1 + q.capacity
    omega
  · intro p hp
    by_cases hne : p = q.tail + q.capacity
    · subst hne
      rw [Function.update_self]
      have hslot := h.slot q.tail ⟨le_rfl, by omega⟩
      rw [hfull] at hslot
      change q.capacity ≤ q.tail + q.capacity ∧
        q.sequence (q.index (q.tail + q.capacity)) + q.capacity = q.tail + q.capacity + 1 ∧
        q.data (q.index (q.tail + q.capacity)) = q.log[q.tail + q.capacity - q.capacity]?
      rw [h.sized.index_add, hslot.1, hslot.2, Nat.add_sub_cancel]
      exact ⟨by omega, by omega, rfl⟩
    · rw [Function.update_of_ne hne]
      have hp' : q.tail + 1 ≤ p ∧ p < q.tail + 1 + q.capacity := hp
      have hslot := h.slot p ⟨by omega, by omega⟩
      cases hphase : phase p <;>
        · rw [hphase] at hslot
          exact hslot
  · intro p hp
    have hp' : q.tail + 1 ≤ p ∧ p < q.tail + 1 + q.capacity := hp
    change _ ↔ p < q.head
    by_cases hne : p = q.tail + q.capacity
    · subst hne
      rw [Function.update_self]
      simp [Phase.claimed, false_iff]
      omega
    · rw [Function.update_of_ne hne]
      exact h.claimed p ⟨by omega, by omega⟩

theorem Knows.claimTail (hq : q.Phased phase) (h : q.Knows phase call) (hfull : phase q.tail = .full) :
    q.claimTail.Knows (Function.update phase (q.tail + q.capacity) .moving) call := by
  have hhead := hq.head_le
  have hupdate : ∀ {p}, p < q.tail + q.capacity →
      Function.update phase (q.tail + q.capacity) .moving p = phase p :=
    fun hp => Function.update_of_ne (Nat.ne_of_lt hp) ..
  have hclaimed : ∀ {pos ph}, q.tail ≤ pos → phase pos = ph → ph ≠ .full → q.tail + 1 ≤ pos := by
    intro pos ph hle hpos hne
    apply Nat.lt_of_le_of_ne hle
    rintro rfl
    exact hne (hpos.symm.trans hfull)
  cases call with
  | pushCas val pos =>
    refine ⟨h.1, fun hpos => ?_⟩
    obtain ⟨hlt, hfree⟩ := h.2 hpos
    refine ⟨?_, (hupdate hlt).trans hfree⟩
    change q.head < q.tail + 1 + q.capacity
    omega
  | write val pos =>
    obtain ⟨hlog, htail, hlt, hwriting⟩ := h
    exact ⟨hlog, hclaimed htail hwriting (by decide), hlt, (hupdate (by omega)).trans hwriting⟩
  | publish val pos =>
    obtain ⟨hlog, htail, hlt, hwritten⟩ := h
    exact ⟨hlog, hclaimed htail hwritten (by decide), hlt, (hupdate (by omega)).trans hwritten⟩
  | popLoad pos => exact Nat.le_succ_of_le h
  | popCas pos =>
    refine ⟨Nat.le_succ_of_le h.1, fun hpos => ?_⟩
    have hle : pos ≤ q.tail := h.1
    have hpos' : pos = q.tail + 1 := hpos
    omega
  | move pos =>
    obtain ⟨hlt, hle, hmoving⟩ := h
    exact ⟨Nat.lt_succ_of_lt hlt, hle, (hupdate (Nat.add_lt_add_right hlt _)).trans hmoving⟩
  | release val pos =>
    obtain ⟨hlog, hlt, hle, hmoved⟩ := h
    exact ⟨hlog, Nat.lt_succ_of_lt hlt, hle, (hupdate (Nat.add_lt_add_right hlt _)).trans hmoved⟩
  | _ => exact h

end Claim

end Fqueue

end IocpChat

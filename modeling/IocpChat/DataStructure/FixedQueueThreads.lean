import IocpChat.DataStructure.FixedQueueSlots

/-!
# The threads of an `Fqueue`

A thread that has claimed a place is the only one, since each claim moves the counter on, and
it moves the phase of that place.  So the phases can be followed through any run, and tell
what the threads find in the slots.

Each place before `head` belongs to one push and each place before `tail` to one pop, in the
order of the claims.  `nullopt` and a dropped value are not excluded: a push that has claimed
its place and not published its value lets later pops return nothing.

## Main definitions

* `Fqueues.Invariant` — what holds of the queue and its threads.
* `Fqueues.Fifo` — what is guaranteed.
-/

namespace IocpChat

open Transition

namespace Fqueues

open FqueueCall

variable {α : Type} {q q' : Fqueue α} {phase : ℕ → Phase} {call call' : FqueueCall α}
  {calls calls' : List (FqueueCall α)} {p : ℕ}

/-- What holds of the queue and the calls on it: each place before `head` is claimed by one
push, and each place before `tail` by one pop. -/
structure Invariant (q : Fqueue α) (calls : List (FqueueCall α)) (phase : ℕ → Phase) : Prop where
  phased : q.Phased phase
  knows : ∀ call ∈ calls, q.Knows phase call
  pushes : (calls.filterMap pushClaim).Perm (List.range q.head)
  pops : (calls.filterMap popClaim).Perm (List.range q.tail)

theorem Invariant.perm (h : Invariant q calls phase) (hperm : calls.Perm calls') :
    Invariant q calls' phase where
  phased := h.phased
  knows := fun call hcall => h.knows call (hperm.mem_iff.mpr hcall)
  pushes := (hperm.filterMap _).symm.trans h.pushes
  pops := (hperm.filterMap _).symm.trans h.pops

theorem length_claims_le (calls : List (FqueueCall α)) :
    (calls.filterMap pushClaim).length + (calls.filterMap popClaim).length ≤ calls.length := by
  induction calls with
  | nil => simp
  | cons call calls ih =>
    cases call <;>
      · simp only [List.filterMap_cons, pushClaim, popClaim, List.length_cons]
        omega

theorem Invariant.head_add_tail_le (h : Invariant q calls phase) : q.head + q.tail ≤ calls.length := by
  have hle := length_claims_le calls
  rwa [h.pushes.length_eq, h.pops.length_eq, List.length_range, List.length_range] at hle

theorem claim_of_knows (h : q.Knows phase call) (hplace : call.place q.capacity = some p) :
    (call.pushClaim = some p ∧ (phase p).claimed = true) ∨
      ∃ pos, call.popClaim = some pos ∧ p = pos + q.capacity ∧ (phase p).claimed = false := by
  cases call with
  | write val pos | publish val pos =>
    cases hplace
    exact .inl ⟨rfl, by rw [h.2.2.2]; rfl⟩
  | move pos =>
    cases hplace
    exact .inr ⟨pos, rfl, rfl, by rw [h.2.2]; rfl⟩
  | release val pos =>
    cases hplace
    exact .inr ⟨pos, rfl, rfl, by rw [h.2.2.2]; rfl⟩
  | _ => cases hplace

/-- **Two calls do not work on the same place.** -/
theorem Invariant.place_ne (h : Invariant q (call :: calls) phase)
    (hplace : call.place q.capacity = some p) (hmem : call' ∈ calls) :
    call'.place q.capacity ≠ some p := by
  intro hplace'
  have hclaim := claim_of_knows (h.knows call List.mem_cons_self) hplace
  have hclaim' := claim_of_knows (h.knows call' (List.mem_cons_of_mem call hmem)) hplace'
  have hpushes := h.pushes.nodup_iff.mpr List.nodup_range
  have hpops := h.pops.nodup_iff.mpr List.nodup_range
  -- the place would be claimed by two pushes, by two pops, or be in two phases
  rcases hclaim with ⟨hpush, hclaimed⟩ | ⟨pos, hpop, heq, hclaimed⟩ <;>
    rcases hclaim' with ⟨hpush', hclaimed'⟩ | ⟨pos', hpop', heq', hclaimed'⟩
  · rw [List.filterMap_cons_some hpush] at hpushes
    exact (List.nodup_cons.mp hpushes).1 (List.mem_filterMap.mpr ⟨call', hmem, hpush'⟩)
  · exact absurd (hclaimed.symm.trans hclaimed') (by decide)
  · exact absurd (hclaimed.symm.trans hclaimed') (by decide)
  · have hpos : pos' = pos := by omega
    subst hpos
    rw [List.filterMap_cons_some hpop] at hpops
    exact (List.nodup_cons.mp hpops).1 (List.mem_filterMap.mpr ⟨call', hmem, hpop'⟩)

section Step

variable {rest : List (FqueueCall α)} {seq : ℕ} {d : Option α} {ph : Phase}

theorem filterMap_replace {f : FqueueCall α → Option ℕ} (hf : f call' = f call) :
    (call' :: rest).filterMap f = (call :: rest).filterMap f := by
  rw [List.filterMap_cons, List.filterMap_cons, hf]

theorem Invariant.replace (h : Invariant q (call :: rest) phase)
    (hpush : call'.pushClaim = call.pushClaim) (hpop : call'.popClaim = call.popClaim)
    (hknows : q.Knows phase call') : Invariant q (call' :: rest) phase where
  phased := h.phased
  knows := List.forall_mem_cons.mpr ⟨hknows, (List.forall_mem_cons.mp h.knows).2⟩
  pushes := filterMap_replace hpush ▸ h.pushes
  pops := filterMap_replace hpop ▸ h.pops

/-- **A call works on the slot of its place.** -/
theorem Invariant.setSlot (h : Invariant q (call :: rest) phase)
    (hplace : call.place q.capacity = some p) (hpush : call'.pushClaim = call.pushClaim)
    (hpop : call'.popClaim = call.popClaim) (hslot : (q.setSlot p seq d).SlotIs p ph)
    (hph : ph.claimed = (phase p).claimed)
    (hknows : (q.setSlot p seq d).Knows (Function.update phase p ph) call') :
    Invariant (q.setSlot p seq d) (call' :: rest) (Function.update phase p ph) := by
  obtain ⟨hown, hrest⟩ := List.forall_mem_cons.mp h.knows
  obtain ⟨hwindow, hphase⟩ := hown.inWindow h.phased hplace
  refine ⟨h.phased.setSlot hwindow hslot hph, List.forall_mem_cons.mpr ⟨hknows, ?_⟩, ?_, ?_⟩
  · intro other hother
    exact (hrest other hother).setSlot (h.place_ne hplace hother) hphase
  · exact filterMap_replace hpush ▸ h.pushes
  · exact filterMap_replace hpop ▸ h.pops

theorem Invariant.claimHead {val : α} (h : Invariant q (.pushCas val q.head :: rest) phase) :
    Invariant (q.claimHead val) (.write val q.head :: rest)
      (Function.update phase q.head .writing) := by
  obtain ⟨hown, hrest⟩ := List.forall_mem_cons.mp h.knows
  obtain ⟨hlt, hfree⟩ := hown.2 rfl
  have hpushes : (rest.filterMap pushClaim).Perm (List.range q.head) := h.pushes
  refine ⟨h.phased.claimHead hlt hfree, List.forall_mem_cons.mpr ⟨?_, ?_⟩, ?_, h.pops⟩
  · refine ⟨?_, h.phased.tail_le, Nat.lt_succ_self _, Function.update_self ..⟩
    rw [← h.phased.length_log]
    exact List.getElem?_concat_length
  · intro other hother
    exact (hrest other hother).claimHead hfree
  · change (q.head :: rest.filterMap pushClaim).Perm (List.range (q.head + 1))
    rw [List.range_succ]
    exact (hpushes.cons q.head).trans (List.perm_append_singleton ..).symm

theorem Invariant.claimTail (h : Invariant q (.popCas q.tail :: rest) phase) :
    Invariant q.claimTail (.move q.tail :: rest)
      (Function.update phase (q.tail + q.capacity) .moving) := by
  obtain ⟨hown, hrest⟩ := List.forall_mem_cons.mp h.knows
  obtain ⟨hlt, hfull⟩ := hown.2 rfl
  have hpops : (rest.filterMap popClaim).Perm (List.range q.tail) := h.pops
  refine ⟨h.phased.claimTail hlt hfull, List.forall_mem_cons.mpr ⟨?_, ?_⟩, h.pushes, ?_⟩
  · exact ⟨Nat.lt_succ_self _, h.phased.head_le, Function.update_self ..⟩
  · intro other hother
    exact Fqueue.Knows.claimTail h.phased (hrest other hother) hfull
  · change (q.tail :: rest.filterMap popClaim).Perm (List.range (q.tail + 1))
    rw [List.range_succ]
    exact (hpops.cons q.tail).trans (List.perm_append_singleton ..).symm

/-! ## Steps -/

/-- Fewer than `2 ^ 63` calls use no number that is negative when signed. -/
theorem Invariant.lt (h : Invariant q calls phase) (hlen : calls.length < 2 ^ 63) :
    q.head < 2 ^ 63 ∧ q.tail < 2 ^ 62 ∧ ∀ pos, q.sequence (q.index pos) < 2 ^ 63 := by
  have hclaims := h.head_add_tail_le
  have htail := h.phased.tail_le
  have hcap := h.phased.sized.two_le.2
  refine ⟨by omega, by omega, ?_⟩
  intro pos
  rcases h.phased.sequence_le pos with hlt | hle <;> omega

theorem Invariant.pushLoad {val : α} {pos : ℕ} (h : Invariant q (.pushLoad val pos :: rest) phase)
    (hlen : (rest.length + 1) < 2 ^ 63) :
    Fqueue.diff (q.sequence (q.index pos)) pos = some ((q.sequence (q.index pos) : ℤ) - pos) ∧
      ((q.sequence (q.index pos) : ℤ) - pos = 0 → q.Knows phase (.pushCas val pos)) := by
  obtain ⟨hhead, -, hseq⟩ := h.lt hlen
  have hpos : pos ≤ q.head := h.knows _ List.mem_cons_self
  refine ⟨Fqueue.diff_of_lt (hseq pos) (by omega), ?_⟩
  intro hzero
  refine ⟨hpos, ?_⟩
  rintro rfl
  exact h.phased.free (by omega)

theorem Invariant.popLoad {pos : ℕ} (h : Invariant q (.popLoad pos :: rest) phase)
    (hlen : (rest.length + 1) < 2 ^ 63) :
    Fqueue.diff (q.sequence (q.index pos)) (Fqueue.wrap (pos + 1)) =
        some ((q.sequence (q.index pos) : ℤ) - (pos + 1 : ℕ)) ∧
      ((q.sequence (q.index pos) : ℤ) - (pos + 1 : ℕ) = 0 → q.Knows phase (.popCas pos)) := by
  obtain ⟨-, htail, hseq⟩ := h.lt hlen
  have hpos : pos ≤ q.tail := h.knows _ List.mem_cons_self
  rw [Fqueue.wrap_of_lt (by omega)]
  refine ⟨Fqueue.diff_of_lt (hseq pos) (by omega), ?_⟩
  intro hzero
  refine ⟨hpos, ?_⟩
  rintro rfl
  exact h.phased.full (by omega)

theorem Invariant.move {pos : ℕ} (h : Invariant q (.move pos :: rest) phase) :
    ∃ val, q.log[pos]? = some val ∧ q.data (q.index pos) = some val ∧
      q.sequence (q.index pos) = pos + 1 := by
  have hown := h.knows _ List.mem_cons_self
  obtain ⟨hwindow, -⟩ := hown.inWindow h.phased rfl
  have hslot := h.phased.slot _ hwindow
  rw [hown.2.2] at hslot
  obtain ⟨-, hseq, hdata⟩ := hslot
  rw [h.phased.sized.index_add] at hseq hdata
  rw [Nat.add_sub_cancel] at hdata
  have hpos : pos < q.log.length := by
    rw [h.phased.length_log]
    exact Nat.lt_of_lt_of_le hown.1 h.phased.tail_le
  refine ⟨q.log[pos], List.getElem?_eq_getElem hpos, ?_, by omega⟩
  rw [hdata, List.getElem?_eq_getElem hpos]

theorem Invariant.slotIs (h : Invariant q (call :: rest) phase)
    (hplace : call.place q.capacity = some p) : q.SlotIs p (phase p) :=
  h.phased.slot p ((h.knows call List.mem_cons_self).inWindow h.phased hplace).1

theorem Invariant.write {val : α} {pos : ℕ} (h : Invariant q (.write val pos :: rest) phase) :
    Invariant { q with data := Function.update q.data (q.index pos) (some val) }
      (.publish val pos :: rest) (Function.update phase pos .written) := by
  obtain ⟨hlog, hle, hlt, hphase⟩ := h.knows _ List.mem_cons_self
  have hslot := h.slotIs (p := pos) rfl
  rw [hphase] at hslot
  have hset : { q with data := Function.update q.data (q.index pos) (some val) } =
      q.setSlot pos (q.sequence (q.index pos)) (some val) := by
    simp [Fqueue.setSlot]
  rw [hset]
  refine h.setSlot rfl rfl rfl ⟨?_, ?_⟩ (by rw [hphase]; rfl)
    ⟨hlog, hle, hlt, Function.update_self ..⟩
  · exact (Function.update_self ..).trans hslot.1
  · exact (Function.update_self ..).trans hlog.symm

theorem Invariant.publish {val : α} {pos : ℕ} (h : Invariant q (.publish val pos :: rest) phase) :
    Invariant { q with sequence := Function.update q.sequence (q.index pos) (pos + 1) }
      (.pushed val pos :: rest) (Function.update phase pos .full) := by
  obtain ⟨hlog, -, -, hphase⟩ := h.knows _ List.mem_cons_self
  have hslot := h.slotIs (p := pos) rfl
  rw [hphase] at hslot
  have hset : { q with sequence := Function.update q.sequence (q.index pos) (pos + 1) } =
      q.setSlot pos (pos + 1) (q.data (q.index pos)) := by
    simp [Fqueue.setSlot]
  rw [hset]
  refine h.setSlot rfl rfl rfl ⟨Function.update_self .., ?_⟩ (by rw [hphase]; rfl) hlog
  exact (Function.update_self ..).trans hslot.2

theorem Invariant.moveOut {val : α} {pos : ℕ} (h : Invariant q (.move pos :: rest) phase)
    (hlog : q.log[pos]? = some val) :
    Invariant { q with data := Function.update q.data (q.index pos) none }
      (.release val pos :: rest) (Function.update phase (pos + q.capacity) .moved) := by
  obtain ⟨hlt, hle, hphase⟩ := h.knows _ List.mem_cons_self
  have hslot := h.slotIs (p := pos + q.capacity) rfl
  rw [hphase] at hslot
  have hset : { q with data := Function.update q.data (q.index pos) none } =
      q.setSlot (pos + q.capacity) (q.sequence (q.index (pos + q.capacity))) none := by
    simp [Fqueue.setSlot, h.phased.sized.index_add]
  rw [hset]
  refine h.setSlot rfl rfl rfl ⟨hslot.1, ?_, Function.update_self ..⟩ (by rw [hphase]; rfl)
    ⟨hlog, hlt, hle, Function.update_self ..⟩
  exact (congrArg (· + q.capacity) (Function.update_self ..)).trans hslot.2.1

theorem Invariant.release {val : α} {pos : ℕ} (h : Invariant q (.release val pos :: rest) phase) :
    Invariant { q with sequence := Function.update q.sequence (q.index pos) (pos + q.capacity) }
      (.popped val pos :: rest) (Function.update phase (pos + q.capacity) .free) := by
  obtain ⟨hlog, -, -, hphase⟩ := h.knows _ List.mem_cons_self
  have hslot := h.slotIs (p := pos + q.capacity) rfl
  rw [hphase] at hslot
  have hset : { q with sequence := Function.update q.sequence (q.index pos) (pos + q.capacity) } =
      q.setSlot (pos + q.capacity) (pos + q.capacity) (q.data (q.index (pos + q.capacity))) := by
    simp [Fqueue.setSlot, h.phased.sized.index_add]
  rw [hset]
  refine h.setSlot rfl rfl rfl ⟨Function.update_self .., ?_⟩ (by rw [hphase]; rfl) hlog
  exact (Function.update_self ..).trans hslot.2.2

theorem Invariant.exec {spurious : Bool} (h : Invariant q (call :: rest) phase)
    (hlen : (rest.length + 1) < 2 ^ 63) (hexec : q.exec spurious call = some (q', call')) :
    ∃ phase', Invariant q' (call' :: rest) phase' := by
  have hown := h.knows call List.mem_cons_self
  obtain ⟨hhead, htail, -⟩ := h.lt hlen
  have hcap := h.phased.sized.two_le.2
  cases call with
  | push val | pushRetry val =>
    cases hexec
    exact ⟨phase, h.replace rfl rfl (le_refl q.head)⟩
  | pushLoad val pos =>
    obtain ⟨hdiff, hfree⟩ := h.pushLoad hlen
    simp [Fqueue.exec, hdiff] at hexec
    obtain ⟨rfl, rfl⟩ := hexec
    refine ⟨phase, ?_⟩
    split
    · rename_i hzero
      exact h.replace rfl rfl (hfree hzero)
    · split <;> exact h.replace rfl rfl trivial
  | pushCas val pos =>
    simp only [Fqueue.exec] at hexec
    split at hexec
    · rename_i hcas
      cases hexec
      obtain ⟨rfl, -⟩ := hcas
      rw [Fqueue.wrap_of_lt (by omega)]
      exact ⟨_, h.claimHead⟩
    · cases hexec
      exact ⟨phase, h.replace rfl rfl (le_refl q.head)⟩
  | pushFull =>
    cases hexec
    exact ⟨phase, h.replace rfl rfl trivial⟩
  | write val pos =>
    cases hexec
    exact ⟨_, h.write⟩
  | publish val pos =>
    cases hexec
    obtain ⟨-, -, hlt, -⟩ := hown
    rw [Fqueue.wrap_of_lt (by omega)]
    exact ⟨_, h.publish⟩
  | pop | popRetry =>
    cases hexec
    exact ⟨phase, h.replace rfl rfl (le_refl q.tail)⟩
  | popLoad pos =>
    obtain ⟨hdiff, hfull⟩ := h.popLoad hlen
    simp [Fqueue.exec, hdiff] at hexec
    obtain ⟨rfl, rfl⟩ := hexec
    refine ⟨phase, ?_⟩
    split
    · rename_i hzero
      exact h.replace rfl rfl (hfull hzero)
    · split <;> exact h.replace rfl rfl trivial
  | popCas pos =>
    simp only [Fqueue.exec] at hexec
    split at hexec
    · rename_i hcas
      cases hexec
      obtain ⟨rfl, -⟩ := hcas
      rw [Fqueue.wrap_of_lt (by omega)]
      exact ⟨_, h.claimTail⟩
    · cases hexec
      exact ⟨phase, h.replace rfl rfl (le_refl q.tail)⟩
  | move pos =>
    obtain ⟨val, hlog, hdata, -⟩ := h.move
    simp [Fqueue.exec, hdata] at hexec
    obtain ⟨rfl, rfl⟩ := hexec
    exact ⟨_, h.moveOut hlog⟩
  | release val pos =>
    cases hexec
    obtain ⟨-, hlt, -, -⟩ := hown
    rw [Fqueue.wrap_of_lt (by omega)]
    exact ⟨_, h.release⟩
  | pushed val pos | dropped | popped val pos | empty => cases hexec

theorem Invariant.isSome_exec (h : Invariant q (call :: rest) phase)
    (hlen : (rest.length + 1) < 2 ^ 63) (hcall : call.returned = false) (spurious : Bool) :
    (q.exec spurious call).isSome = true := by
  cases call with
  | pushLoad val pos => simp [Fqueue.exec, (h.pushLoad hlen).1]
  | popLoad pos => simp [Fqueue.exec, (h.popLoad hlen).1]
  | pushCas | popCas =>
    simp only [Fqueue.exec]
    split <;> rfl
  | move pos =>
    obtain ⟨val, -, hdata, -⟩ := h.move
    simp [Fqueue.exec, hdata]
  | pushed val pos | dropped | popped val pos | empty => cases hcall
  | _ => rfl

end Step

theorem Invariant.spawn (h : Invariant q calls phase) (hpush : call.pushClaim = none)
    (hpop : call.popClaim = none) (hknows : q.Knows phase call) :
    Invariant q (calls ++ [call]) phase := by
  have hcons : Invariant q (call :: calls) phase := by
    refine ⟨h.phased, List.forall_mem_cons.mpr ⟨hknows, h.knows⟩, ?_, ?_⟩
    · rw [List.filterMap_cons_none hpush]
      exact h.pushes
    · rw [List.filterMap_cons_none hpop]
      exact h.pops
  exact hcons.perm (List.perm_append_singleton ..).symm

theorem invariant_new {l : ℕ} (hl : 2 ≤ l) (hmax : l ≤ 2 ^ 62) :
    Invariant (Fqueue.new l : Fqueue α) [] fun _ => .free := by
  obtain ⟨k, hk, hcap, hle⟩ := Fqueue.roundUpToPowerOfTwo_spec hl hmax
  have hsized : (Fqueue.new l : Fqueue α).Sized := by
    refine ⟨k, ?_, hk, hcap⟩
    rcases Nat.eq_zero_or_pos k with rfl | hpos
    · omega
    · exact hpos
  refine ⟨⟨hsized, le_rfl, Nat.zero_le _, rfl, ?_, ?_⟩, by simp, .refl _, .refl _⟩
  · intro p hp
    have hlt : p < (Fqueue.new l : Fqueue α).capacity := by
      have := hp.2
      rwa [show (Fqueue.new l : Fqueue α).tail = 0 from rfl, Nat.zero_add] at this
    refine ⟨?_, rfl⟩
    change (Fqueue.new l : Fqueue α).index p = p
    rw [hsized.index, Nat.mod_eq_of_lt hlt]
  · intro p _
    simp [Phase.claimed, Fqueue.new]

/-- What is guaranteed of a queue for `l` values. -/
structure Fifo (l : ℕ) (q : Fqueue α) (calls : List (FqueueCall α)) : Prop where
  capacity : ∃ k, q.capacity = 2 ^ k ∧ l ≤ q.capacity
  bounds : q.tail ≤ q.head ∧ q.head ≤ q.tail + q.capacity
  /-- Each of the places that were claimed by pushes belongs to one push, and `log` has the
  values in that order. -/
  pushes : (calls.filterMap pushClaim).Perm (List.range q.head)
  log : ∀ val pos, .write val pos ∈ calls ∨ .publish val pos ∈ calls ∨ .pushed val pos ∈ calls →
    q.log[pos]? = some val
  /-- Each of the places that were claimed by pops belongs to one pop, which returns the value
  of the push. -/
  pops : (calls.filterMap popClaim).Perm (List.range q.tail)
  popped : ∀ val pos, .popped val pos ∈ calls → q.log[pos]? = some val
  /-- Nothing is overwritten that was not moved out. -/
  write : ∀ val pos, .write val pos ∈ calls → q.data (q.index pos) = none
  /-- Nothing is read that was not published. -/
  move : ∀ pos, .move pos ∈ calls → q.sequence (q.index pos) = pos + 1 ∧
    q.data (q.index pos) = q.log[pos]? ∧ pos < q.log.length
  /-- The calls go on as long as they have not returned. -/
  defined : ∀ call ∈ calls, call.returned = false → ∀ spurious, (q.exec spurious call).isSome = true

theorem Invariant.focus (h : Invariant q calls phase) (hmem : call ∈ calls) :
    ∃ rest, calls.length = rest.length + 1 ∧ Invariant q (call :: rest) phase := by
  obtain ⟨before, after, rfl⟩ := List.append_of_mem hmem
  have hperm : (before ++ call :: after).Perm (call :: (before ++ after)) := List.perm_middle
  exact ⟨before ++ after, hperm.length_eq, h.perm hperm⟩

theorem Invariant.fifo {l : ℕ} (h : Invariant q calls phase) (hlen : calls.length < 2 ^ 63)
    (hl : l ≤ q.capacity) : Fifo l q calls := by
  obtain ⟨k, -, -, hcap⟩ := h.phased.sized
  refine ⟨⟨k, hcap, hl⟩, ⟨h.phased.tail_le, h.phased.head_le⟩, h.pushes, ?_, h.pops, ?_, ?_, ?_, ?_⟩
  · rintro val pos (hmem | hmem | hmem)
    · exact (h.knows _ hmem).1
    · exact (h.knows _ hmem).1
    · exact h.knows _ hmem
  · intro val pos hmem
    exact h.knows _ hmem
  · intro val pos hmem
    obtain ⟨rest, -, hfirst⟩ := h.focus hmem
    have hslot := hfirst.slotIs (p := pos) rfl
    rw [(h.knows _ hmem).2.2.2] at hslot
    exact hslot.2
  · intro pos hmem
    obtain ⟨rest, -, hfirst⟩ := h.focus hmem
    obtain ⟨val, hlog, hdata, hseq⟩ := hfirst.move
    exact ⟨hseq, hdata.trans hlog.symm, (List.getElem?_eq_some_iff.mp hlog).1⟩
  · intro call hmem hcall spurious
    obtain ⟨rest, hlength, hfirst⟩ := h.focus hmem
    exact hfirst.isSome_exec (by omega) hcall spurious

/-! ## Whole runs -/

section Run

variable {c c' : Fqueues α} {l : ℕ}

theorem capacity_exec {spurious : Bool} (hexec : q.exec spurious call = some (q', call')) :
    q'.capacity = q.capacity := by
  cases call with
  | pushLoad val pos | popLoad pos | move pos =>
    obtain ⟨_, -, heq⟩ := Option.map_eq_some_iff.mp hexec
    cases heq
    rfl
  | pushCas val pos | popCas pos =>
    simp only [Fqueue.exec] at hexec
    split at hexec <;>
      · cases hexec
        rfl
  | pushed val pos | dropped | popped val pos | empty => cases hexec
  | _ =>
    cases hexec
    rfl

/-- The queue has the capacity it was made with, and as long as fewer than `2 ^ 63` calls were
made, the invariant holds. -/
def Kept (l : ℕ) (c : Fqueues α) : Prop :=
  c.shared.capacity = Fqueue.roundUpToPowerOfTwo l ∧
    (c.calls.length < 2 ^ 63 → ∃ phase, Invariant c.shared c.calls phase)

theorem Kept.spawn (h : c.Kept l) (call : FqueueCall α) (hpush : call.pushClaim = none)
    (hpop : call.popClaim = none) (hknows : ∀ phase, c.shared.Knows phase call) :
    Kept l (c.spawn call) := by
  refine ⟨h.1, ?_⟩
  intro hlen
  have hlen' : c.calls.length < 2 ^ 63 := by
    simp [Config.spawn] at hlen
    omega
  obtain ⟨phase, hinv⟩ := h.2 hlen'
  exact ⟨phase, hinv.spawn hpush hpop (hknows phase)⟩

theorem Kept.run {i : ℕ} {spurious : Bool} (h : c.Kept l)
    (hrun : c.run Fqueue.exec i spurious = some c') : c'.Kept l := by
  obtain ⟨call, call', -, hperm, hperm', hexec⟩ := Config.run_spec hrun
  refine ⟨(capacity_exec hexec).trans h.1, ?_⟩
  intro hlen
  have hlen' := hperm'.length_eq
  have hlen'' := hperm.length_eq
  rw [List.length_cons] at hlen' hlen''
  obtain ⟨phase, hinv⟩ := h.2 (by omega)
  obtain ⟨phase', hinv'⟩ := (hinv.perm hperm).exec (by omega) hexec
  exact ⟨phase', hinv'.perm hperm'.symm⟩

theorem Kept.step {a : Action α} (h : c.Kept l) (hstep : c.step a = some c') : c'.Kept l := by
  cases a with
  | push val =>
    cases hstep
    exact h.spawn (.push val) rfl rfl fun _ => trivial
  | pop =>
    cases hstep
    exact h.spawn .pop rfl rfl fun _ => trivial
  | run i spurious => exact h.run hstep

/-- **`Fqueue` is a bounded queue** for any number of producers and consumers. -/
theorem fifo_of_reaches (l : ℕ) (hl : 2 ≤ l) (hmax : l ≤ 2 ^ 62) (c : Fqueues α)
    (hreach : Reaches step (fun _ _ => True) (new l) c) (hcalls : c.calls.length < 2 ^ 63) :
    Fifo l c.shared c.calls := by
  have hkept : c.Kept l := by
    apply hreach.invariant
    · exact ⟨rfl, fun _ => ⟨_, invariant_new hl hmax⟩⟩
    · intro c a c' _ h _ hstep
      exact h.step hstep
  obtain ⟨phase, hinv⟩ := hkept.2 hcalls
  obtain ⟨k, -, hcap, hle⟩ := Fqueue.roundUpToPowerOfTwo_spec hl hmax
  refine hinv.fifo hcalls ?_
  rw [hkept.1, hcap]
  exact hle

end Run

/-- Two values are pushed, and the first is popped before the second is written. -/
def samplePushes : List (Action ℕ) :=
  [.push 7, .push 8, .run 0 false, .run 0 false, .run 0 false, .run 1 false, .run 1 false,
    .run 1 true, .run 1 false, .run 1 false, .run 0 false, .run 0 false, .pop, .run 2 false,
    .run 2 false, .run 2 false, .run 2 false, .run 2 false]

theorem fifo_of_samplePushes :
    ∃ c, Transition.run step (new 3) samplePushes = some c ∧ FqueueCall.write 8 1 ∈ c.calls ∧
      FqueueCall.popped 7 0 ∈ c.calls ∧ Fifo 3 c.shared c.calls := by
  obtain ⟨c, hrun, hcalls⟩ := exists_run step (new 3) samplePushes
    (fun c => c.calls = [.pushed 7 0, .write 8 1, .popped 7 0]) (by decide +kernel)
  have hreach : Reaches step (fun _ _ => True) (new 3) c :=
    reaches_of_run (meets_of_forall fun _ _ _ => trivial) hrun
  refine ⟨c, hrun, by simp [hcalls], by simp [hcalls], ?_⟩
  exact fifo_of_reaches 3 (by decide) (by decide) c hreach (by simp [hcalls])

end Fqueues

end IocpChat

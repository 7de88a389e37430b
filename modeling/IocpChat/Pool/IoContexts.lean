import IocpChat.DataStructure.FixedQueueDrops
import IocpChat.Pool.Borrowers

/-!
# Contexts that the pool loses

The `IOContextPool` keeps the indices of its 20000 contexts in an `Fqueue` of 32768 places.  The
queue is never full, but a push gives up all the same when it comes to a slot that a pop has
claimed and not released (`FixedQueueDrops`).  `returnIOPdata` does not learn of it, and the index
is gone.  For that the other threads have to borrow and return 12768 contexts while one thread
stands still in `borrowIOPdata`.

The constructor returns all contexts to the pool, one after the other.  After that a context is
only returned by whoever has borrowed it.

## Main definitions

* `ContextPool`, `ContextPool.step` — the pool, with the threads that use it.
* `ContextPool.Conserved` — every context is in the queue, with a borrower, or on the way.
* `ContextPool.Undisturbed` — no push comes to a slot that a pop has not released.
-/

namespace IocpChat

open Transition

/-- The pool, with the calls on its queue and the contexts that were handed out. -/
structure ContextPool where
  queue : Fqueues ContextPtr
  held : List ContextPtr

namespace ContextPool

open FqueueCall Fqueues IOContextPool

inductive Action
  | borrowIOPdata
  | returnIOPdata (idx : ContextPtr)
  /-- The `i`-th call on the queue takes a step. -/
  | run (i : ℕ) (spurious : Bool)

/-- The pool when its constructor begins. -/
def new : ContextPool := ⟨.new maxSize, List.range maxSize⟩

/-- What `borrowIOPdata` hands out when its `pop`, the `i`-th call, has returned. -/
def handedOut (c : Fqueues ContextPtr) (i : ℕ) : List ContextPtr :=
  match c.calls[i]? with
  | some (.popped idx _) => if maxSize ≤ idx then [] else [idx]
  | _ => []

def step (s : ContextPool) : Action → Option ContextPool
  | .borrowIOPdata => some { s with queue := s.queue.spawn .pop }
  | .returnIOPdata idx =>
    if s.held.contains idx then
      some ⟨if maxSize ≤ idx then s.queue else s.queue.spawn (.push idx), s.held.erase idx⟩
    else none
  | .run i spurious =>
    (s.queue.step (.run i spurious)).map fun c => ⟨c, handedOut c i ++ s.held⟩

/-- The context that a call has on its way into the queue or out of it. -/
def carries (q : Fqueue ContextPtr) : FqueueCall ContextPtr → Option ContextPtr
  | .push idx | .pushLoad idx _ | .pushCas idx _ | .pushRetry idx | .release idx _ => some idx
  | .move pos => q.log[pos]?
  | _ => none

/-- The contexts in the queue and on the way. -/
def inQueue (q : Fqueue ContextPtr) (calls : List (FqueueCall ContextPtr)) : List ContextPtr :=
  q.log.drop q.tail ++ calls.filterMap (carries q)

/-- No context is lost or doubled. -/
def Conserved (s : ContextPool) : Prop :=
  (s.held ++ inQueue s.queue.shared s.queue.calls).Perm (List.range maxSize)

/-- No push loads the number of a slot that a pop has claimed and not released. -/
def Undisturbed (s : ContextPool) : Action → Prop
  | .run i spurious => Watched.meetsPop s.queue (.run i spurious) i = false
  | _ => True

instance (s : ContextPool) : ∀ a, Decidable (s.Undisturbed a)
  | .run i spurious =>
    inferInstanceAs (Decidable (Watched.meetsPop s.queue (.run i spurious) i = false))
  | .borrowIOPdata | .returnIOPdata _ => .isTrue trivial

/-! ## Where the contexts are -/

section Exec

variable {q q' : Fqueue ContextPtr} {phase : ℕ → Phase} {call call' : FqueueCall ContextPtr}
  {calls calls' rest : List (FqueueCall ContextPtr)} {spurious : Bool}

theorem inQueue_perm (hperm : calls.Perm calls') : (inQueue q calls).Perm (inQueue q calls') :=
  (hperm.filterMap _).append_left _

/-- What leaves the queue in a step: the context that a pop returns, or one that a push drops. -/
def leaves (q : Fqueue ContextPtr) (call : FqueueCall ContextPtr) :
    FqueueCall ContextPtr → List ContextPtr
  | .popped idx _ => [idx]
  | .pushFull => (carries q call).toList
  | _ => []

theorem inQueue_cons (q : Fqueue ContextPtr) (call : FqueueCall ContextPtr) {idx : ContextPtr}
    (hcall : carries q call = some idx) :
    (inQueue q (call :: rest)).Perm (idx :: inQueue q rest) := by
  rw [inQueue, List.filterMap_cons_some hcall, inQueue]
  exact List.perm_middle

theorem inQueue_claimHead (h : Invariant q (call :: rest) phase) (idx : ContextPtr) :
    (inQueue (q.claimHead idx) rest).Perm (idx :: inQueue q rest) := by
  have hlog : q.log.length = q.head := h.phased.length_log
  have htail := h.phased.tail_le
  have hrest : rest.filterMap (carries (q.claimHead idx)) = rest.filterMap (carries q) := by
    apply List.filterMap_congr
    intro other hother
    have hknows := h.knows other (List.mem_cons_of_mem _ hother)
    cases other with
    | move pos => exact h.phased.getElem?_log_claimHead (hknows.1.trans_le htail)
    | _ => rfl
  have hdrop : (q.claimHead idx).log.drop (q.claimHead idx).tail = q.log.drop q.tail ++ [idx] :=
    List.drop_append_of_le_length (htail.trans hlog.ge)
  rw [inQueue, hrest, hdrop, inQueue, List.append_assoc]
  exact List.perm_middle

theorem inQueue_claimTail {idx : ContextPtr} (hidx : q.log[q.tail]? = some idx) :
    (idx :: inQueue q.claimTail rest).Perm (inQueue q rest) := by
  obtain ⟨hlt, rfl⟩ := List.getElem?_eq_some_iff.mp hidx
  have hdrop : q.log.drop q.tail = q.log[q.tail] :: q.log.drop (q.tail + 1) :=
    List.drop_eq_getElem_cons hlt
  rw [inQueue, inQueue, hdrop]
  exact .refl _

/-- **A step of a call** moves contexts around, and only lets go of what leaves the queue. -/
theorem inQueue_exec (h : Invariant q (call :: rest) phase) (hlen : rest.length + 1 < 2 ^ 63)
    (hexec : q.exec spurious call = some (q', call')) :
    (leaves q call call' ++ inQueue q' (call' :: rest)).Perm (inQueue q (call :: rest)) := by
  have hown := h.knows call List.mem_cons_self
  obtain ⟨hhead, htail, -⟩ := h.lt hlen
  cases call with
  | push val | pushRetry val | pushFull | write val pos | publish val pos | pop | popRetry =>
    cases hexec
    exact .refl _
  | pushLoad val pos =>
    simp only [Fqueue.exec, (h.pushLoad hlen).1, Option.map_some, Option.some.injEq,
      Prod.mk.injEq] at hexec
    obtain ⟨rfl, rfl⟩ := hexec
    split
    · exact .refl _
    · split
      · exact (inQueue_cons _ (.pushLoad val pos) rfl).symm
      · exact .refl _
  | pushCas val pos =>
    simp only [Fqueue.exec] at hexec
    split at hexec
    · rename_i hcas
      cases hexec
      obtain ⟨rfl, -⟩ := hcas
      rw [Fqueue.wrap_of_lt (by omega)]
      exact (inQueue_claimHead h val).trans (inQueue_cons q (.pushCas val q.head) rfl).symm
    · cases hexec
      exact .refl _
  | popLoad pos =>
    simp only [Fqueue.exec, (h.popLoad hlen).1, Option.map_some, Option.some.injEq,
      Prod.mk.injEq] at hexec
    obtain ⟨rfl, rfl⟩ := hexec
    split
    · exact .refl _
    · split <;> exact .refl _
  | popCas pos =>
    simp only [Fqueue.exec] at hexec
    split at hexec
    · rename_i hcas
      cases hexec
      obtain ⟨rfl, -⟩ := hcas
      have hlt : q.tail < q.log.length := by
        rw [h.phased.length_log]
        exact (hown.2 rfl).1
      have hidx := List.getElem?_eq_getElem hlt
      rw [Fqueue.wrap_of_lt (by omega)]
      exact (inQueue_cons q.claimTail (.move q.tail) hidx).trans (inQueue_claimTail hidx)
    · cases hexec
      exact .refl _
  | move pos =>
    obtain ⟨val, hlog, hdata, -⟩ := h.move
    simp [Fqueue.exec, hdata] at hexec
    obtain ⟨rfl, rfl⟩ := hexec
    exact (inQueue_cons _ (.release val pos) rfl).trans (inQueue_cons q (.move pos) hlog).symm
  | release val pos =>
    cases hexec
    exact (inQueue_cons q (.release val pos) rfl).symm
  | pushed val pos | dropped | popped val pos | empty => cases hexec

end Exec

/-! ## Steps of the pool -/

/-- What is known of the pool, with `n` actions left. -/
structure Kept (n : ℕ) (s : ContextPool) : Prop where
  bound : s.queue.calls.length + n < 2 ^ 63
  sound : Sound s.queue
  capacity : s.queue.shared.capacity = 32768
  conserved : s.Conserved

section Kept

variable {s s' : ContextPool} {a : Action} {n i : ℕ} {idx : ContextPtr} {spurious : Bool}

theorem kept_new {n : ℕ} (hn : n < 2 ^ 63) : new.Kept n := by
  refine ⟨?_, sound_new (by decide) (by decide), by decide, ?_⟩
  · simpa [new, Fqueues.new] using hn
  · simp [Conserved, new, Fqueues.new, Fqueue.new, inQueue]

theorem Conserved.lt_of_mem (h : s.Conserved)
    (hidx : idx ∈ s.held ++ inQueue s.queue.shared s.queue.calls) : idx < maxSize :=
  List.mem_range.mp (h.mem_iff.mp hidx)

theorem Kept.isFull_eq_false (h : s.Kept n) : s.queue.shared.isFull = false := by
  obtain ⟨phase, hinv⟩ := h.sound.invariant
  have hlog := hinv.phased.length_log
  have hcap := h.capacity
  have hlength := h.conserved.length_eq
  simp [inQueue, List.length_range, maxSize] at hlength
  rw [Fqueue.isFull, beq_eq_false_iff_ne]
  omega

theorem Kept.conserved_spawn_pop (h : s.Kept n) :
    Conserved { s with queue := s.queue.spawn .pop } := by
  have hsame : inQueue s.queue.shared (s.queue.calls ++ [.pop]) =
      inQueue s.queue.shared s.queue.calls := by
    simp [inQueue, carries]
  change (s.held ++ inQueue s.queue.shared (s.queue.calls ++ [.pop])).Perm _
  rw [hsame]
  exact h.conserved

theorem Kept.conserved_spawn_push (h : s.Kept n) (hidx : idx ∈ s.held) :
    Conserved ⟨s.queue.spawn (.push idx), s.held.erase idx⟩ := by
  have hmore : inQueue s.queue.shared (s.queue.calls ++ [.push idx]) =
      inQueue s.queue.shared s.queue.calls ++ [idx] := by
    simp [inQueue, carries]
  have hheld : s.held.Perm (idx :: s.held.erase idx) := List.perm_cons_erase hidx
  change (s.held.erase idx ++ inQueue s.queue.shared (s.queue.calls ++ [.push idx])).Perm _
  rw [hmore, ← List.append_assoc]
  exact (List.perm_append_singleton ..).trans ((hheld.symm.append_right _).trans h.conserved)

theorem Kept.exec_pushLoad {val pos : ℕ} (h : s.Kept (n + 1))
    (hcall : s.queue.calls[i]? = some (.pushLoad val pos)) :
    s.queue.shared.exec spurious (.pushLoad val pos) =
      some (s.queue.shared,
        if drains s.queue.shared s.queue.calls pos = true then .pushFull
        else if s.queue.shared.sequence (s.queue.shared.index pos) = pos then .pushCas val pos
        else .pushRetry val) := by
  have hbound := h.bound
  rw [h.sound.exec_pushLoad (by omega) hcall, h.isFull_eq_false]
  simp

theorem handedOut_eq {c : Fqueues ContextPtr} {q : Fqueue ContextPtr}
    {call call' : FqueueCall ContextPtr} (hcall : c.calls[i]? = some call')
    (hpush : call' ≠ .pushFull)
    (hlt : ∀ idx ∈ leaves q call call', idx < maxSize) : handedOut c i = leaves q call call' := by
  cases call' with
  | popped idx pos =>
    have hidx := hlt idx (List.mem_singleton_self idx)
    simp [handedOut, hcall, leaves, hidx]
  | pushFull => exact absurd rfl hpush
  | _ => simp [handedOut, hcall, leaves]

theorem Kept.meetsPop_iff {call call' : FqueueCall ContextPtr} {q : Fqueue ContextPtr}
    (h : s.Kept (n + 1)) (hcall : s.queue.calls[i]? = some call)
    (hexec : s.queue.shared.exec spurious call = some (q, call')) :
    Watched.meetsPop s.queue (.run i spurious) i = true ↔ call' = .pushFull := by
  constructor
  · intro hmeets
    cases call with
    | pushLoad val pos =>
      rw [Watched.meetsPop_eq hcall] at hmeets
      rw [h.exec_pushLoad hcall, if_pos hmeets] at hexec
      cases hexec
      rfl
    | _ => simp [Watched.meetsPop, hcall] at hmeets
  · rintro rfl
    obtain ⟨val, pos, rfl⟩ := after_of_exec hexec
    rw [Watched.meetsPop_eq hcall]
    by_contra hnone
    rw [h.exec_pushLoad hcall, if_neg hnone] at hexec
    grind

/-- **A step of a call loses no context** just if it does not meet a pop. -/
theorem Kept.conserved_run_iff (h : s.Kept (n + 1)) {c : Fqueues ContextPtr}
    (hstep : s.queue.step (.run i spurious) = some c) :
    Conserved ⟨c, handedOut c i ++ s.held⟩ ↔
      Watched.meetsPop s.queue (.run i spurious) i = false := by
  have hbound := h.bound
  obtain ⟨call, call', hcall, hexec, hcalls⟩ := Config.exists_of_run hstep
  obtain ⟨hi, -⟩ := List.getElem?_eq_some_iff.mp hcall
  obtain ⟨phase, hinv, -, hlength⟩ := h.sound.focus hcall
  have hafter : c.calls[i]? = some call' := by simp [hcalls, hi]
  have hperm' : c.calls.Perm (call' :: s.queue.calls.eraseIdx i) :=
    hcalls ▸ (perm_set hcall).2 call'
  -- what was in the queue is there still, or has left it
  have hall : (leaves s.queue.shared call call' ++ inQueue c.shared c.calls).Perm
      (inQueue s.queue.shared s.queue.calls) :=
    ((inQueue_perm hperm').append_left _).trans
      ((inQueue_exec hinv (by omega) hexec).trans (inQueue_perm (perm_set hcall).1.symm))
  have hheld := (hall.append_left s.held).trans h.conserved
  rw [← Bool.not_eq_true, h.meetsPop_iff hcall hexec]
  constructor
  · rintro hconserved rfl
    obtain ⟨val, pos, rfl⟩ := after_of_exec hexec
    have hbefore := hheld.length_eq
    have hnow := hconserved.length_eq
    simp [leaves, carries, handedOut, hafter] at hbefore hnow
    omega
  · intro hpush
    have hlt : ∀ idx ∈ leaves s.queue.shared call call', idx < maxSize := by
      intro idx hidx
      exact List.mem_range.mp (hheld.mem_iff.mp (by simp [hidx]))
    change (handedOut c i ++ s.held ++ inQueue c.shared c.calls).Perm _
    rw [handedOut_eq hafter hpush hlt]
    refine (List.perm_append_comm.append_right _).trans ?_
    rw [List.append_assoc]
    exact hheld

theorem Kept.conserved_iff (h : s.Kept (n + 1)) :
    (∀ s' ∈ s.step a, s'.Conserved) ↔ s.Undisturbed a := by
  cases a with
  | borrowIOPdata =>
    refine iff_of_true ?_ trivial
    rintro s' ⟨⟩
    exact h.conserved_spawn_pop
  | returnIOPdata idx =>
    refine iff_of_true ?_ trivial
    intro s' hs'
    by_cases hheld : idx ∈ s.held
    · have hlt : ¬ maxSize ≤ idx := Nat.not_le.mpr (h.conserved.lt_of_mem (by simp [hheld]))
      simp only [step, List.contains_iff_mem, hheld, if_true, hlt, if_false, Option.mem_def,
        Option.some.injEq] at hs'
      subst hs'
      exact h.conserved_spawn_push hheld
    · simp [step, hheld] at hs'
  | run i spurious =>
    cases hstep : s.queue.step (.run i spurious) with
    | none =>
      refine iff_of_true (by simp [step, hstep]) ?_
      rw [Undisturbed, ← Bool.not_eq_true]
      intro hmeets
      obtain ⟨val, pos, hcall, -⟩ := Watched.exists_of_meetsPop hmeets
      simp [Fqueues.step, Config.run, hcall, h.exec_pushLoad hcall] at hstep
    | some c => simpa [step, Undisturbed, hstep] using h.conserved_run_iff hstep

/-- A step of the pool is a step of its queue, or returns a context the pool does not have. -/
theorem queue_step (hstep : s.step a = some s') :
    s'.queue = s.queue ∨ ∃ b, s.queue.step b = some s'.queue := by
  cases a with
  | borrowIOPdata =>
    cases hstep
    exact .inr ⟨.pop, rfl⟩
  | returnIOPdata idx =>
    simp only [step] at hstep
    split at hstep
    · cases hstep
      by_cases hlt : maxSize ≤ idx
      · exact .inl (if_pos hlt)
      · exact .inr ⟨.push idx, congrArg some (if_neg hlt).symm⟩
    · cases hstep
  | run i spurious =>
    obtain ⟨c, hc, rfl⟩ := Option.map_eq_some_iff.mp hstep
    exact .inr ⟨_, hc⟩

theorem Kept.step (h : s.Kept (n + 1)) (ha : s.Undisturbed a) (hstep : s.step a = some s') :
    s'.Kept n := by
  have hbound := h.bound
  have hconserved := h.conserved_iff.mpr ha s' hstep
  rcases queue_step hstep with hsame | ⟨b, hqueue⟩
  · exact ⟨hsame ▸ by omega, hsame ▸ h.sound, hsame ▸ h.capacity, hconserved⟩
  · have hlength := length_step hqueue
    refine ⟨by omega, h.sound.step (by omega) hqueue, ?_, hconserved⟩
    rw [capacity_step hqueue]
    exact h.capacity

end Kept

/-- **When the pool loses no context.** -/
theorem meets_conserved_iff (as : List Action) (hcalls : as.length < 2 ^ 63) :
    Meets step (fun s a => ∀ s' ∈ s.step a, s'.Conserved) new as ↔ Meets step Undisturbed new as :=
  meets_congr_left Kept (kept_new hcalls) (fun _ _ _ h => h.conserved_iff) fun _ _ _ _ h => h.step

/-! ## Once around the queue -/

section Sequential

variable {q q' : Fqueue ContextPtr} {calls : List (FqueueCall ContextPtr)} {held : List ContextPtr}
  {call call' : FqueueCall ContextPtr} {idx : ContextPtr}

/-- What a call hands out that has come to a point. -/
def out : FqueueCall ContextPtr → List ContextPtr
  | .popped idx _ => if maxSize ≤ idx then [] else [idx]
  | _ => []

theorem step_last (calls : List (FqueueCall ContextPtr)) (held : List ContextPtr)
    (hexec : q.exec false call = some (q', call')) :
    step ⟨⟨q, calls ++ [call]⟩, held⟩ (.run calls.length false) =
      some ⟨⟨q', calls ++ [call']⟩, out call' ++ held⟩ := by
  have hrun : Fqueues.step ⟨q, calls ++ [call]⟩ (.run calls.length false) =
      some ⟨q', calls ++ [call']⟩ := Config.run_last calls hexec
  have hout : handedOut ⟨q', calls ++ [call']⟩ calls.length = out call' := by
    cases call' <;> simp [handedOut, out]
  simp only [step, hrun, Option.map_some, hout]

theorem diff_self {n : ℕ} (hn : n < 2 ^ 63) : Fqueue.diff n n = some 0 := by
  rw [Fqueue.diff_of_lt hn hn, Int.sub_self]

theorem run_returnIOPdata (calls : List (FqueueCall ContextPtr)) (hidx : idx ∈ held)
    (hlt : idx < maxSize)
    (hseq : q.sequence (q.index q.head) = q.head) (hhead : q.head < 2 ^ 62) :
    Transition.run step ⟨⟨q, calls⟩, held⟩
        (.returnIOPdata idx :: List.replicate 5 (.run calls.length false)) =
      some ⟨⟨(q.claimHead idx).setSlot q.head (q.head + 1) (some idx),
        calls ++ [.pushed idx q.head]⟩, held.erase idx⟩ := by
  have hspawn : step ⟨⟨q, calls⟩, held⟩ (.returnIOPdata idx) =
      some ⟨⟨q, calls ++ [.push idx]⟩, held.erase idx⟩ := by
    simp [step, hidx, hlt, Config.spawn]
  have hload : q.exec false (.pushLoad idx q.head) = some (q, .pushCas idx q.head) := by
    rw [Fqueue.exec, hseq, diff_self (by omega)]
    rfl
  have hcas : q.exec false (.pushCas idx q.head) = some (q.claimHead idx, .write idx q.head) := by
    rw [Fqueue.exec, if_pos ⟨rfl, rfl⟩, Fqueue.wrap_of_lt (by omega)]
    rfl
  have hwrite : (q.claimHead idx).exec false (.write idx q.head) =
      some ({ q.claimHead idx with data := Function.update q.data (q.index q.head) (some idx) },
        .publish idx q.head) := rfl
  have hpublish : Fqueue.exec
      { q.claimHead idx with data := Function.update q.data (q.index q.head) (some idx) } false
        (.publish idx q.head) =
      some ((q.claimHead idx).setSlot q.head (q.head + 1) (some idx), .pushed idx q.head) := by
    rw [Fqueue.exec, Fqueue.wrap_of_lt (by omega)]
    rfl
  rw [run_cons hspawn]
  simp only [List.replicate]
  rw [run_cons (step_last calls _ rfl), run_cons (step_last calls _ hload),
    run_cons (step_last calls _ hcas), run_cons (step_last calls _ hwrite),
    run_cons (step_last calls _ hpublish)]
  rfl

/-- A context is borrowed while the other threads do nothing, up to the claim of its place. -/
theorem run_claim (calls : List (FqueueCall ContextPtr)) (held : List ContextPtr)
    (hseq : q.sequence (q.index q.tail) = q.tail + 1) (htail : q.tail < 2 ^ 62) :
    Transition.run step ⟨⟨q, calls⟩, held⟩
        (.borrowIOPdata :: List.replicate 3 (.run calls.length false)) =
      some ⟨⟨q.claimTail, calls ++ [.move q.tail]⟩, held⟩ := by
  have hload : q.exec false (.popLoad q.tail) = some (q, .popCas q.tail) := by
    rw [Fqueue.exec, hseq, Fqueue.wrap_of_lt (by omega), diff_self (by omega)]
    rfl
  have hcas : q.exec false (.popCas q.tail) = some (q.claimTail, .move q.tail) := by
    rw [Fqueue.exec, if_pos ⟨rfl, rfl⟩, Fqueue.wrap_of_lt (by omega)]
    rfl
  have hspawn : step ⟨⟨q, calls⟩, held⟩ .borrowIOPdata = some ⟨⟨q, calls ++ [.pop]⟩, held⟩ := rfl
  rw [run_cons hspawn]
  simp only [List.replicate]
  rw [run_cons (step_last calls _ rfl), run_cons (step_last calls _ hload),
    run_cons (step_last calls _ hcas)]
  rfl

theorem run_borrowIOPdata (calls : List (FqueueCall ContextPtr)) (held : List ContextPtr)
    (hseq : q.sequence (q.index q.tail) = q.tail + 1) (hdata : q.data (q.index q.tail) = some idx)
    (hlt : idx < maxSize) (htail : q.tail < 2 ^ 62) (hcap : q.capacity < 2 ^ 62) :
    Transition.run step ⟨⟨q, calls⟩, held⟩
        (.borrowIOPdata :: List.replicate 3 (.run calls.length false) ++
          List.replicate 2 (.run calls.length false)) =
      some ⟨⟨q.claimTail.setSlot q.tail (q.tail + q.capacity) none, calls ++ [.popped idx q.tail]⟩,
        idx :: held⟩ := by
  have hmove : q.claimTail.exec false (.move q.tail) =
      some ({ q.claimTail with data := Function.update q.data (q.index q.tail) none },
        .release idx q.tail) := by
    have hsame : q.claimTail.data (q.claimTail.index q.tail) = some idx := hdata
    rw [Fqueue.exec, hsame]
    rfl
  have hrelease : Fqueue.exec
      { q.claimTail with data := Function.update q.data (q.index q.tail) none } false
        (.release idx q.tail) =
      some (q.claimTail.setSlot q.tail (q.tail + q.capacity) none, .popped idx q.tail) := by
    have hwrap : Fqueue.wrap (q.tail + q.claimTail.capacity) = q.tail + q.capacity :=
      Fqueue.wrap_of_lt (by change q.tail + q.capacity < 2 ^ 64; omega)
    rw [Fqueue.exec, hwrap]
    rfl
  have hout : out (.popped idx q.tail) = [idx] := if_neg (Nat.not_le.mpr hlt)
  rw [run_append, run_claim calls held hseq htail, Option.bind_some]
  simp only [List.replicate]
  rw [run_cons (step_last calls _ hmove), run_cons (step_last calls _ hrelease), hout]
  rfl

end Sequential

/-- The places from `low` to `high` are full, and those from `high` to the end of the queue were
not used. -/
structure Lap (low high : ℕ) (s : ContextPool) : Prop where
  capacity : s.queue.shared.capacity = 32768
  tail : s.queue.shared.tail = low
  head : s.queue.shared.head = high
  unused : ∀ p, high ≤ p → p < 32768 → s.queue.shared.sequence p = p
  full : ∀ p, low ≤ p → p < high → s.queue.shared.sequence p = p + 1 ∧
    ∃ idx < maxSize, s.queue.shared.data p = some idx

section Lap

variable {s : ContextPool} {low high idx p : ℕ}

theorem Lap.index (h : s.Lap low high) (hp : p < 32768) : s.queue.shared.index p = p := by
  rw [Fqueue.index, h.capacity]
  exact Nat.and_two_pow_sub_one_of_lt_two_pow (n := 15) hp

theorem Lap.returnIOPdata (h : s.Lap low high) (hidx : idx ∈ s.held) (hlt : idx < maxSize)
    (hhigh : high < 32768) :
    ∃ s', Transition.run step s
        (.returnIOPdata idx :: List.replicate 5 (.run s.queue.calls.length false)) = some s' ∧
      s'.Lap low (high + 1) ∧ s'.held = s.held.erase idx ∧
      s'.queue.calls = s.queue.calls ++ [.pushed idx high] := by
  have hhead := h.head
  have hindex := h.index hhigh
  subst hhead
  have hrun := run_returnIOPdata s.queue.calls hidx hlt
    (by rw [hindex]; exact h.unused _ le_rfl hhigh) (by omega)
  refine ⟨_, hrun, ⟨h.capacity, h.tail, rfl, ?_, ?_⟩, rfl, rfl⟩
  · intro p hp hp'
    have hne : p ≠ s.queue.shared.index s.queue.shared.head := by
      rw [hindex]
      omega
    exact (Function.update_of_ne hne ..).trans (h.unused p (by omega) hp')
  · intro p hp hp'
    by_cases heq : p = s.queue.shared.head
    · have hslot : p = s.queue.shared.index s.queue.shared.head := heq.trans hindex.symm
      refine ⟨?_, idx, hlt, ?_⟩
      · exact (Function.update_apply ..).trans ((if_pos hslot).trans (congrArg (· + 1) heq.symm))
      · exact (Function.update_apply ..).trans (if_pos hslot)
    · have hne : p ≠ s.queue.shared.index s.queue.shared.head := by
        rw [hindex]
        exact heq
      obtain ⟨hseq, idx', hlt', hdata⟩ := h.full p hp (by omega)
      exact ⟨(Function.update_of_ne hne ..).trans hseq, idx', hlt',
        (Function.update_of_ne hne ..).trans hdata⟩

theorem Lap.borrowIOPdata (h : s.Lap low high) (hlow : low < high) (hhigh : high ≤ 32768) :
    ∃ s' idx, Transition.run step s
        (.borrowIOPdata :: List.replicate 3 (.run s.queue.calls.length false) ++
          List.replicate 2 (.run s.queue.calls.length false)) = some s' ∧
      s'.Lap (low + 1) high ∧ s'.held = idx :: s.held ∧ idx < maxSize ∧
      s'.queue.calls = s.queue.calls ++ [.popped idx low] := by
  have htail := h.tail
  subst htail
  have hindex := h.index (hlow.trans_le hhigh)
  obtain ⟨hseq, idx, hlt, hdata⟩ := h.full _ le_rfl hlow
  have hcap := h.capacity
  have hrun := run_borrowIOPdata s.queue.calls s.held (by rw [hindex]; exact hseq)
    (by rw [hindex]; exact hdata) hlt (by omega) (by omega)
  have hne : ∀ {p}, s.queue.shared.tail < p → p ≠ s.queue.shared.index s.queue.shared.tail := by
    intro p hp
    rw [hindex]
    omega
  refine ⟨_, idx, hrun, ⟨hcap, rfl, h.head, ?_, ?_⟩, rfl, hlt, rfl⟩
  · intro p hp hp'
    exact (Function.update_of_ne (hne (by omega)) ..).trans (h.unused p hp hp')
  · intro p hp hp'
    obtain ⟨hseq', idx', hlt', hdata'⟩ := h.full p (by omega) hp'
    exact ⟨(Function.update_of_ne (hne hp) ..).trans hseq', idx', hlt',
      (Function.update_of_ne (hne hp) ..).trans hdata'⟩

/-- The constructor, as far as the first `n` contexts. -/
def construct (n : ℕ) : List Action :=
  (List.range n).flatMap fun i => .returnIOPdata i :: List.replicate 5 (.run i false)

theorem length_construct (n : ℕ) : (construct n).length = n * 6 := by
  simp [construct, List.length_flatMap]

theorem exists_construct {n : ℕ} (hn : n ≤ maxSize) :
    ∃ s, Transition.run step new (construct n) = some s ∧ s.Lap 0 n ∧
      s.held = (List.range maxSize).drop n ∧ s.queue.calls.length = n := by
  have hmax : maxSize < 32768 := by decide
  induction n with
  | zero =>
    refine ⟨new, rfl, ⟨by decide, rfl, rfl, fun _ _ _ => rfl, ?_⟩, by simp [new], rfl⟩
    intro p _ hp
    exact absurd hp (Nat.not_lt_zero p)
  | succ n ih =>
    obtain ⟨s, hrun, hlap, hheld, hlength⟩ := ih (Nat.le_of_succ_le hn)
    have hdrop : s.held = n :: (List.range maxSize).drop (n + 1) := by
      rw [hheld, List.drop_eq_getElem_cons (by simpa using hn)]
      simp
    obtain ⟨s', hrun', hlap', hheld', hcalls'⟩ :=
      hlap.returnIOPdata (hdrop ▸ List.mem_cons_self) hn (by omega)
    refine ⟨s', ?_, hlap', ?_, ?_⟩
    · rw [hlength] at hrun'
      have hsucc : construct (n + 1) =
          construct n ++ .returnIOPdata n :: List.replicate 5 (.run n false) := by
        simp [construct, List.range_succ]
      rw [hsucc]
      exact run_append_of_run hrun hrun'
    · rw [hheld', hdrop, List.erase_cons_head]
    · simp [hcalls', hlength]

/-- The other threads borrow and return a context `n` times while a pop stands still. -/
theorem exists_rounds {low high : ℕ} {s : ContextPool} (h : s.Lap low high)
    (hmove : .move 0 ∈ s.queue.calls) (hlow : low < high) (n : ℕ) (hn : high + n ≤ 32768) :
    ∃ as s', Transition.run step s as = some s' ∧ as.length = n * 12 ∧ s'.Lap (low + n) (high + n) ∧
      .move 0 ∈ s'.queue.calls := by
  induction n with
  | zero => exact ⟨[], s, rfl, rfl, h, hmove⟩
  | succ n ih =>
    obtain ⟨as, s₁, hrun, hlength, hlap, hmove₁⟩ := ih (by omega)
    obtain ⟨s₂, idx, hborrow, hlap₂, hheld, hlt, hcalls⟩ :=
      hlap.borrowIOPdata (by omega) (by omega)
    obtain ⟨s₃, hreturn, hlap₃, -, hcalls₃⟩ :=
      hlap₂.returnIOPdata (hheld ▸ List.mem_cons_self) hlt (by omega)
    refine ⟨_, s₃, run_append_of_run hrun (run_append_of_run hborrow hreturn), ?_, hlap₃, ?_⟩
    · simp [hlength]
      omega
    · simp [hcalls₃, hcalls, hmove₁]

theorem Lap.claim {s : ContextPool} {high : ℕ} (h : s.Lap 0 high) (hhigh : 0 < high) :
    ∃ s', Transition.run step s
        (.borrowIOPdata :: List.replicate 3 (.run s.queue.calls.length false)) = some s' ∧
      s'.Lap 1 high ∧ .move 0 ∈ s'.queue.calls := by
  have htail := h.tail
  have hindex := h.index (show 0 < 32768 by decide)
  have hrun := run_claim s.queue.calls s.held
    (by rw [htail, hindex]; exact (h.full 0 le_rfl hhigh).1) (by omega)
  refine ⟨_, hrun, ⟨h.capacity, congrArg (· + 1) htail, h.head, h.unused, ?_⟩, by simp [htail]⟩
  intro p hp hp'
  exact h.full p (Nat.zero_le p) hp'

/-- When the queue has gone round, the next push meets the pop that stands still. -/
theorem Lap.meetsPop {s : ContextPool} {low : ℕ} (h : s.Lap low 32768)
    (hmove : .move 0 ∈ s.queue.calls) {idx : ContextPtr} (hidx : idx ∈ s.held)
    (hlt : idx < maxSize) :
    ∃ s', Transition.run step s [.returnIOPdata idx, .run s.queue.calls.length false] = some s' ∧
      Watched.meetsPop s'.queue (.run s.queue.calls.length false) s.queue.calls.length = true := by
  have hspawn : step s (.returnIOPdata idx) =
      some ⟨⟨s.queue.shared, s.queue.calls ++ [.push idx]⟩, s.held.erase idx⟩ := by
    simp [step, hidx, hlt, Config.spawn]
  have hload : step ⟨⟨s.queue.shared, s.queue.calls ++ [.push idx]⟩, s.held.erase idx⟩
      (.run s.queue.calls.length false) =
        some ⟨⟨s.queue.shared, s.queue.calls ++ [.pushLoad idx s.queue.shared.head]⟩,
          s.held.erase idx⟩ := step_last s.queue.calls _ rfl
  refine ⟨_, (run_cons hspawn).trans (run_cons hload), ?_⟩
  rw [Watched.meetsPop_eq List.getElem?_concat_length, drains_eq_true_iff]
  refine ⟨.move 0, by simp [hmove], 0, rfl, ?_⟩
  rw [h.head, h.capacity, Nat.zero_add]

end Lap

theorem not_undisturbed {as : List Action} {s : ContextPool} {i : ℕ}
    (hrun : Transition.run step new as = some s)
    (hmeets : Watched.meetsPop s.queue (.run i false) i = true) :
    ¬ Meets step Undisturbed new (as ++ [.run i false]) := by
  intro hundisturbed
  have hnot : Watched.meetsPop s.queue (.run i false) i = false := (hundisturbed.drop hrun).1
  rw [hmeets] at hnot
  cases hnot

/-- **A push meets a pop.**  A pop stands still when it has claimed the first place, and the other
threads go round the queue. -/
theorem exists_not_undisturbed :
    ∃ as, (construct maxSize ++ as).length < 2 ^ 63 ∧
      ¬ Meets step Undisturbed new (construct maxSize ++ as) := by
  have hmax : maxSize = 20000 := rfl
  obtain ⟨s, hrun, hlap, -, -⟩ := exists_construct le_rfl
  obtain ⟨s₁, hrun₁, hlap₁, hmove₁⟩ := hlap.claim (by omega)
  obtain ⟨as, s₂, hrun₂, hlength, hlap₂, hmove₂⟩ :=
    exists_rounds hlap₁ hmove₁ (by omega) (32768 - maxSize) (by omega)
  rw [Nat.add_sub_cancel' (by omega)] at hlap₂
  obtain ⟨s₃, idx, hrun₃, hlap₃, hheld, hlt, hcalls⟩ := hlap₂.borrowIOPdata (by omega) le_rfl
  obtain ⟨s₄, hrun₄, hmeets⟩ :=
    hlap₃.meetsPop (by simp [hcalls, hmove₂]) (hheld ▸ List.mem_cons_self) hlt
  have hall := run_append_of_run hrun₁ (run_append_of_run hrun₂ (run_append_of_run hrun₃ hrun₄))
  have hnot := not_undisturbed (run_append_of_run hrun hall) hmeets
  rw [List.append_assoc] at hnot
  refine ⟨_, ?_, hnot⟩
  simp only [List.length_append, length_construct, hlength, List.length_cons, List.length_replicate,
    List.length_nil, hmax]
  decide

/-- **When values are dropped, and contexts lost.**  For any length that is asked for and any
interleaving of fewer than `2 ^ 63` calls, every push that drops its value has seen the queue full
just if no push returns that has met a pop in its slot and not seen the queue full, so it is enough
that no push meets a pop.  And the pool, whose queue is never full, loses no context just if no push
meets a pop. -/
theorem drops_and_losses_iff {α : Type} (l : ℕ) (hl : 2 ≤ l) (hmax : l ≤ 2 ^ 62)
    (as : List (Fqueues.Action α)) (has : as.length < 2 ^ 63) (bs : List Action)
    (hbs : bs.length < 2 ^ 63) :
    (Meets Watched.step (fun s a => ∀ s' ∈ s.step a, s'.DropsOnlyFull) (.new l) as ↔
        Meets Watched.step Watched.Prompt (.new l) as) ∧
      (Meets Watched.step Watched.Undisturbed (.new l) as →
        Meets Watched.step (fun s a => ∀ s' ∈ s.step a, s'.DropsOnlyFull) (.new l) as) ∧
      (Meets step (fun s a => ∀ s' ∈ s.step a, s'.Conserved) new bs ↔
        Meets step Undisturbed new bs) :=
  have hiff := Watched.meets_dropsOnlyFull_iff l hl hmax as has
  ⟨hiff, fun h => hiff.mpr (Watched.prompt_of_undisturbed h), meets_conserved_iff bs hbs⟩

/-- A context is returned, borrowed and returned again. -/
def sampleRound : List Action :=
  .returnIOPdata 0 :: List.replicate 5 (.run 0 false) ++
    .borrowIOPdata :: List.replicate 5 (.run 1 false) ++
      .returnIOPdata 0 :: List.replicate 5 (.run 2 false)

/-- A push to a full queue, and a context that goes round the pool. -/
theorem drops_and_losses_sample :
    Meets Watched.step (fun s a => ∀ s' ∈ s.step a, s'.DropsOnlyFull) (.new 2)
        (Watched.sampleFull ++ .push 9 :: List.replicate 3 (.run 2 false)) ∧
      Meets step (fun s a => ∀ s' ∈ s.step a, s'.Conserved) new sampleRound := by
  have h := drops_and_losses_iff 2 (by decide) (by decide)
    (Watched.sampleFull ++ .push 9 :: List.replicate 3 (.run 2 false)) (by decide)
    sampleRound (by decide)
  exact ⟨h.2.1 (by decide +kernel), h.2.2.mpr (by decide +kernel)⟩

/-- **A value is dropped with room in the queue, and a context of the pool is lost.**  In a queue of
two places a push returns without storing its value, and the queue was at no moment of the call
full. -/
theorem drops_and_losses :
    (∃ s, Transition.run Watched.step (.new 2) Watched.sampleStall = some s ∧
        s.queue.calls[3]? = some .dropped ∧ s.sawFull 3 = false) ∧
      ∃ as, (construct maxSize ++ as).length < 2 ^ 63 ∧
        ¬ Meets step (fun s a => ∀ s' ∈ s.step a, s'.Conserved) new (construct maxSize ++ as) := by
  constructor
  · exact exists_run _ _ _ _ (by decide +kernel)
  · obtain ⟨as, hlength, hnot⟩ := exists_not_undisturbed
    refine ⟨as, hlength, ?_⟩
    rw [meets_conserved_iff _ hlength]
    exact hnot

end ContextPool

end IocpChat

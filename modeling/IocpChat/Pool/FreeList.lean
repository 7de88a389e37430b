import IocpChat.Lib.Transition
import IocpChat.Pool.PacketPool
import IocpChat.Protocol.Packet

/-!
# The free list of the packet pool

Which packets are free is kept in four places: the queue `availableIdx`, the bytes `inUse`,
the ids inside the packets, which `returnPacket` goes by, and the counter
`currentPacketUse`.  Here the pool has all its members, and they are shown to agree after
any sequence of calls.

A packet may be returned more than once, and whoever has a pointer can write through it.
Only the id is not written by anybody.  It is recorded which pointers were given out, and
which packets were written since they were last returned.

## Main definitions

* `PacketStore`, `PacketStore.borrowPacket`, `PacketStore.returnPacket` — the pool with its
  packets.
* `PacketStore.FreeListExact` — the four views agree.
-/

namespace IocpChat

open PacketPool (currentSize nextAvailable)
open Transition

/-- A packet as it is in a new pool. -/
def Packet.initial (id : ℕ) : Packet :=
  { Packet.fresh .zero (List.Vector.replicate dataSize 0) with id }

/-- The members of the class `PacketPool`.  A pointer to a packet is its index in `pool`. -/
structure PacketStore where
  pool : PacketPtr → Packet
  availableIdx : List ℕ
  inUse : ℕ → Bool
  currentPacketUse : UInt64
  peak : UInt64

namespace PacketStore

def new : PacketStore where
  pool := fun _ => .initial 0
  availableIdx := List.range currentSize
  inUse := fun _ => false
  currentPacketUse := 0
  peak := 0

/-- The packet is given out, and the rest of the queue stays. -/
def lend (s : PacketStore) (id : ℕ) (rest : List ℕ) : PacketStore :=
  let newCount := s.currentPacketUse + 1
  { pool := Function.update s.pool id { s.pool id with id }
    availableIdx := rest
    inUse := Function.update s.inUse id true
    currentPacketUse := newCount
    peak := max s.peak newCount }

/-- Take a packet, or null if none is left.  There is no result if the loop calls `front` on
an empty queue, or if the index is invalid and it throws. -/
def borrowPacket (s : PacketStore) : Option (PacketStore × Option PacketPtr) :=
  if s.availableIdx = [] then some (s, none)
  else
    (nextAvailable s.inUse s.availableIdx).bind fun r =>
      if currentSize ≤ r.1 then none else some (s.lend r.1 r.2, some r.1)

/-- The part of `returnPacket` under the lock, and the counter. -/
def release (s : PacketStore) (id : ℕ) : PacketStore :=
  if s.inUse id = false then s
  else
    { s with
      availableIdx := s.availableIdx ++ [id]
      inUse := Function.update s.inUse id false
      currentPacketUse := s.currentPacketUse - 1 }

/-- Replace what is in a packet. -/
def modifyPacket (s : PacketStore) (p : PacketPtr) (f : Packet → Packet) : PacketStore :=
  { s with pool := Function.update s.pool p (f (s.pool p)) }

/-- `clearInPointer`, and `memset` of the data. -/
def reset (packet : Packet) : Packet :=
  { packet.clearInPointer with data := List.Vector.replicate dataSize 0 }

/-- Give back a packet, or null. -/
def returnPacket (s : PacketStore) : Option PacketPtr → PacketStore
  | none => s
  | some p =>
    let id := (s.pool p).id
    if currentSize ≤ id then s else (s.modifyPacket p reset).release id

theorem mem_of_nextAvailable {inUse : PacketPtr → Bool} {ids rest : List ℕ} {id : ℕ}
    (h : nextAvailable inUse ids = some (id, rest)) : id ∈ ids := by
  induction ids with
  | nil => cases h
  | cons i ids ih =>
    rw [nextAvailable] at h
    split at h
    · exact List.mem_cons_of_mem i (ih h)
    · cases h
      exact List.mem_cons_self

/-! ## The model without the packets -/

/-- The pool, of which only the queue, `inUse` and one member of the packets are kept. -/
def toPacketPool (s : PacketStore) : PacketPool :=
  ⟨s.availableIdx, s.inUse, fun p => (s.pool p).bypassQueue⟩

theorem bypassQueue_update (s : PacketStore) (p : PacketPtr) (packet : Packet) :
    (fun q => (Function.update s.pool p packet q).bypassQueue) =
      Function.update (fun q => (s.pool q).bypassQueue) p packet.bypassQueue := by
  funext q
  by_cases hq : q = p
  · subst hq
    simp
  · simp [Function.update_of_ne hq]

/-- Where the queue has only valid indices, a call does the same in both models. -/
theorem toPacketPool_borrowPacket {s : PacketStore} (h : ∀ id ∈ s.availableIdx, id < currentSize) :
    s.borrowPacket.map (fun r => (r.1.toPacketPool, r.2)) = s.toPacketPool.borrowPacket := by
  unfold borrowPacket PacketPool.borrowPacket
  by_cases hempty : s.availableIdx = []
  · simp [hempty, toPacketPool]
  · rw [if_neg hempty, if_neg (show s.toPacketPool.availableIdx ≠ [] from hempty)]
    cases hnext : nextAvailable s.inUse s.availableIdx with
    | none => simp [toPacketPool, hnext]
    | some r =>
      have hlt : ¬ currentSize ≤ r.1 := Nat.not_le.mpr (h r.1 (mem_of_nextAvailable hnext))
      simp [toPacketPool, hnext, hlt, lend, bypassQueue_update]

theorem toPacketPool_returnPacket {s : PacketStore} {p : PacketPtr} (h : (s.pool p).id = p) :
    (s.returnPacket (some p)).toPacketPool = s.toPacketPool.returnPacket p := by
  simp only [returnPacket, PacketPool.returnPacket, h]
  by_cases hlt : currentSize ≤ p
  · rw [if_pos hlt, if_pos hlt]
  · rw [if_neg hlt, if_neg hlt]
    have hbypass : (reset (s.pool p)).bypassQueue = false := rfl
    by_cases hin : s.inUse p = true
    · simp [release, modifyPacket, toPacketPool, hin, bypassQueue_update, hbypass]
    · simp [release, modifyPacket, toPacketPool, hin, bypassQueue_update, hbypass]

/-! ## The four views -/

/-- The number of packets in use. -/
def numberInUse (s : PacketStore) : ℕ := (List.range currentSize).countP s.inUse

/-- The queue has the packets that are not in use, each once, and the counter counts the
others. -/
structure FreeListExact (s : PacketStore) : Prop where
  nodup : s.availableIdx.Nodup
  mem_iff : ∀ id, id ∈ s.availableIdx ↔ id < currentSize ∧ s.inUse id = false
  count : s.currentPacketUse.toNat = s.numberInUse

section Exact

variable {s : PacketStore} {id : ℕ} {rest : List ℕ}

theorem countP_update {l : List ℕ} {f : ℕ → Bool} {a : ℕ} (hnodup : l.Nodup) (ha : a ∈ l)
    (hf : f a = false) : l.countP (Function.update f a true) = l.countP f + 1 := by
  have hperm := List.perm_cons_erase ha
  have hrest : (l.erase a).countP (Function.update f a true) = (l.erase a).countP f := by
    apply List.countP_congr
    intro b hb
    have hne : b ≠ a := fun h => hnodup.not_mem_erase (h ▸ hb)
    rw [Function.update_of_ne hne]
  rw [hperm.countP_eq, hperm.countP_eq, List.countP_cons_of_pos (by simp),
    List.countP_cons_of_neg (by simp [hf]), hrest]

theorem numberInUse_le (s : PacketStore) : s.numberInUse ≤ currentSize := by
  have hle := List.countP_le_length (p := s.inUse) (l := List.range currentSize)
  rwa [List.length_range] at hle

theorem numberInUse_lend (hid : id < currentSize) (hfree : s.inUse id = false) :
    (s.lend id rest).numberInUse = s.numberInUse + 1 :=
  countP_update List.nodup_range (List.mem_range.mpr hid) hfree

theorem numberInUse_release (hid : id < currentSize) (huse : s.inUse id = true) :
    s.numberInUse = (s.release id).numberInUse + 1 := by
  have hcount := countP_update (f := Function.update s.inUse id false) List.nodup_range
    (List.mem_range.mpr hid) (Function.update_self ..)
  rw [Function.update_idem, ← huse, Function.update_eq_self] at hcount
  simpa [release, huse, numberInUse] using hcount

theorem FreeListExact.new : PacketStore.new.FreeListExact := by
  have hnone : PacketStore.new.numberInUse = 0 := by
    rw [numberInUse, List.countP_eq_zero]
    simp [PacketStore.new]
  constructor
  · simp only [PacketStore.new, List.nodup_range]
  · simp [PacketStore.new]
  · rw [hnone]
    rfl

theorem FreeListExact.modifyPacket (h : s.FreeListExact) (p : PacketPtr) (f : Packet → Packet) :
    (s.modifyPacket p f).FreeListExact := ⟨h.nodup, h.mem_iff, h.count⟩

theorem FreeListExact.free (h : s.FreeListExact) (hq : s.availableIdx = id :: rest) :
    id < currentSize ∧ s.inUse id = false :=
  (h.mem_iff id).mp (hq ▸ List.mem_cons_self)

theorem FreeListExact.borrowPacket (h : s.FreeListExact) (hq : s.availableIdx = id :: rest) :
    s.borrowPacket = some (s.lend id rest, some id) := by
  obtain ⟨hlt, hfree⟩ := h.free hq
  simp [PacketStore.borrowPacket, hq, nextAvailable, hfree, hlt]

theorem FreeListExact.lend (h : s.FreeListExact) (hq : s.availableIdx = id :: rest) :
    (s.lend id rest).FreeListExact := by
  obtain ⟨hlt, hfree⟩ := h.free hq
  have hnodup := h.nodup
  rw [hq, List.nodup_cons] at hnodup
  constructor
  · exact hnodup.2
  · intro i
    have hmem := h.mem_iff i
    rw [hq, List.mem_cons] at hmem
    by_cases hi : i = id
    · subst hi
      simp [PacketStore.lend, hnodup.1]
    · simpa [PacketStore.lend, hi] using hmem
  · have hle := numberInUse_le (s.lend id rest)
    rw [numberInUse_lend hlt hfree] at hle ⊢
    change (s.currentPacketUse + 1).toNat = _
    rw [UInt64.toNat_add, h.count]
    exact Nat.mod_eq_of_lt (by simp only [currentSize, UInt64.reduceToNat] at hle ⊢; omega)

theorem FreeListExact.release (h : s.FreeListExact) (hid : id < currentSize) :
    (s.release id).FreeListExact := by
  by_cases huse : s.inUse id = true
  · have hnew : id ∉ s.availableIdx := by
      rw [h.mem_iff, huse]
      simp
    have hcount := numberInUse_release hid huse
    constructor
    · have hqueue : (s.release id).availableIdx = s.availableIdx ++ [id] := by
        simp [PacketStore.release, huse]
      rw [hqueue, List.nodup_append_comm]
      exact List.nodup_cons.mpr ⟨hnew, h.nodup⟩
    · intro i
      by_cases hi : i = id
      · subst hi
        simp [PacketStore.release, huse, hid]
      · simpa [PacketStore.release, huse, hi] using h.mem_iff i
    · have hone : (1 : UInt64) ≤ s.currentPacketUse := by
        rw [UInt64.le_iff_toNat_le, h.count, hcount]
        simp
      have hsub : (s.release id).currentPacketUse = s.currentPacketUse - 1 := by
        simp [PacketStore.release, huse]
      rw [hsub, UInt64.toNat_sub_of_le _ _ hone, h.count, hcount]
      simp
  · rw [PacketStore.release, if_pos (by simpa using huse)]
    exact h

end Exact

def otherPackets : List PacketPtr := (List.range (currentSize - 1)).map Nat.succ

theorem borrowPacket_new : new.borrowPacket = some (new.lend 0 otherPackets, some 0) := by
  refine FreeListExact.new.borrowPacket ?_
  obtain ⟨n, hn⟩ : ∃ n, currentSize = n + 1 := ⟨24999, rfl⟩
  simp only [new, otherPackets, hn, Nat.add_sub_cancel, List.range_succ_eq_map]

end PacketStore

/-! ## Sequences of calls -/

/-- The pool, with what is known of the pointers its users have. -/
structure PoolUse where
  store : PacketStore
  /-- The pointer was returned by `borrowPacket`. -/
  obtained : PacketPtr → Bool
  /-- The packet was written since it was last returned. -/
  written : PacketPtr → Bool

inductive PoolOp
  | borrowPacket
  | returnPacket (p : Option PacketPtr)
  /-- Somebody writes to the members of a packet, except the id. -/
  | write (p : PacketPtr) (f : Packet → Packet)

namespace PoolUse

open PacketStore (modifyPacket release reset toPacketPool_borrowPacket toPacketPool_returnPacket)

def new : PoolUse := ⟨.new, fun _ => false, fun _ => false⟩

def step (u : PoolUse) : PoolOp → Option PoolUse
  | .borrowPacket =>
    u.store.borrowPacket.map fun r =>
      { u with
        store := r.1
        obtained := r.2.elim u.obtained fun p => Function.update u.obtained p true }
  | .returnPacket p =>
    some { u with
      store := u.store.returnPacket p
      written := p.elim u.written fun p => Function.update u.written p false }
  | .write p f =>
    some { u with
      store := u.store.modifyPacket p fun packet => { f packet with id := packet.id }
      written := Function.update u.written p true }

/-- A packet that is returned was obtained from `borrowPacket`. -/
def Obtained (u : PoolUse) : PoolOp → Prop
  | .returnPacket (some p) => u.obtained p = true
  | _ => True

instance (u : PoolUse) : (op : PoolOp) → Decidable (u.Obtained op)
  | .returnPacket (some _) => inferInstanceAs (Decidable (_ = _))
  | .borrowPacket | .returnPacket none | .write _ _ => .isTrue trivial

/-- The free list is exact, the pointers lead to the ids, and what is free is as it was in
the beginning, if nobody wrote to it. -/
structure InOrder (u : PoolUse) : Prop where
  exact : u.store.FreeListExact
  id : ∀ p, u.obtained p = true → p < currentSize ∧ (u.store.pool p).id = p
  clean : ∀ p, u.store.inUse p = false → u.written p = false →
    { u.store.pool p with id := p } = Packet.initial p

variable {u u' : PoolUse} {p : PacketPtr}

theorem InOrder.new : PoolUse.new.InOrder := by
  constructor
  · exact .new
  · intro p hp
    cases hp
  · intro p _ _
    rfl

theorem InOrder.borrowPacket (h : u.InOrder) (hstep : u.step .borrowPacket = some u') :
    u'.InOrder := by
  rw [step] at hstep
  cases hq : u.store.availableIdx with
  | nil =>
    simp [PacketStore.borrowPacket, hq, Option.elim_none] at hstep
    subst hstep
    exact h
  | cons id rest =>
    obtain ⟨hlt, -⟩ := h.exact.free hq
    simp [h.exact.borrowPacket hq, Option.elim_some] at hstep
    subst hstep
    constructor
    · exact h.exact.lend hq
    · intro p hp
      by_cases hid : p = id
      · subst hid
        exact ⟨hlt, by simp [PacketStore.lend]⟩
      · simpa [PacketStore.lend, hid] using h.id p (by simpa [hid] using hp)
    · intro p hfree hwritten
      by_cases hid : p = id
      · subst hid
        simp [PacketStore.lend] at hfree
      · have hfree' : u.store.inUse p = false := by simpa [PacketStore.lend, hid] using hfree
        simpa [PacketStore.lend, hid] using h.clean p hfree' hwritten

theorem InOrder.returnPacket (h : u.InOrder) (hp : u.obtained p = true)
    (hstep : u.step (.returnPacket (some p)) = some u') : u'.InOrder := by
  obtain ⟨hlt, hid⟩ := h.id p hp
  simp only [step, PacketStore.returnPacket, hid, if_neg (Nat.not_le.mpr hlt), Option.elim_some,
    Option.some.injEq] at hstep
  subst hstep
  have hpool : ((u.store.modifyPacket p reset).release p).pool =
      Function.update u.store.pool p (reset (u.store.pool p)) := by
    rw [release]
    split <;> rfl
  constructor
  · exact (h.exact.modifyPacket p _).release hlt
  · intro q hq
    simp only [hpool]
    by_cases hne : q = p
    · subst hne
      exact ⟨hlt, by simpa [reset, Packet.clearInPointer] using hid⟩
    · simpa [hne] using h.id q hq
  · intro q hfree hwritten
    simp only [hpool]
    by_cases hne : q = p
    · subst hne
      simp [reset, Packet.clearInPointer, Packet.initial, Packet.fresh]
    · have hfree' : u.store.inUse q = false := by
        rw [release] at hfree
        split at hfree
        · exact hfree
        · simpa [modifyPacket, hne] using hfree
      simpa [hne] using h.clean q hfree' (by simpa [hne] using hwritten)

theorem InOrder.write (h : u.InOrder) {f : Packet → Packet}
    (hstep : u.step (.write p f) = some u') : u'.InOrder := by
  simp only [step, Option.some.injEq] at hstep
  subst hstep
  constructor
  · exact h.exact.modifyPacket p fun packet => { f packet with id := packet.id }
  · intro q hq
    by_cases hne : q = p
    · subst hne
      simpa [modifyPacket] using h.id q hq
    · simpa [modifyPacket, hne] using h.id q hq
  · intro q hfree hwritten
    by_cases hne : q = p
    · subst hne
      simp at hwritten
    · simpa [modifyPacket, hne] using h.clean q hfree (by simpa [hne] using hwritten)

theorem InOrder.step (h : u.InOrder) {op : PoolOp} (hop : u.Obtained op)
    (hstep : u.step op = some u') : u'.InOrder := by
  cases op with
  | borrowPacket => exact h.borrowPacket hstep
  | returnPacket p =>
    cases p with
    | none =>
      cases hstep
      exact ⟨h.exact, h.id, h.clean⟩
    | some p => exact h.returnPacket hop hstep
  | write p f => exact h.write hstep

theorem inOrder_of_reaches (h : Reaches step Obtained .new u) : u.InOrder := by
  apply h.invariant
  · exact .new
  · intro u op u' _ hu hop hstep
    exact hu.step hop hstep

/-- After any sequence of calls, the next one does the same in the model without the packets. -/
theorem toPacketPool_of_reaches (h : Reaches step Obtained .new u) :
    u.store.borrowPacket.map (fun r => (r.1.toPacketPool, r.2)) = u.store.toPacketPool.borrowPacket ∧
      ∀ p, u.obtained p = true →
        (u.store.returnPacket (some p)).toPacketPool = u.store.toPacketPool.returnPacket p := by
  have horder := inOrder_of_reaches h
  constructor
  · apply toPacketPool_borrowPacket
    intro id hid
    exact ((horder.exact.mem_iff id).mp hid).1
  · intro p hp
    exact toPacketPool_returnPacket (horder.id p hp).2

/-- **The free list is exact.**  After any sequence of calls the four views agree, and a
packet can be borrowed unless all are in use.  It is one that was not in use, and it is as in
a new pool if nobody wrote to it after it was returned. -/
theorem freeListExact_of_reaches (u : PoolUse) (hreach : Reaches step Obtained .new u) :
    u.store.FreeListExact ∧
      ∃ s r, u.store.borrowPacket = some (s, r) ∧
        (r = none → ∀ id < currentSize, u.store.inUse id = true) ∧
        ∀ p, r = some p → p < currentSize ∧ u.store.inUse p = false ∧
          (u.written p = false → s.pool p = Packet.initial p) := by
  have horder := inOrder_of_reaches hreach
  refine ⟨horder.exact, ?_⟩
  cases hq : u.store.availableIdx with
  | nil =>
    refine ⟨u.store, none, by simp [PacketStore.borrowPacket, hq], ?_, ?_⟩
    · intro _ id hid
      have hmem := horder.exact.mem_iff id
      simpa [hq, hid] using hmem
    · intro p hp
      cases hp
  | cons id rest =>
    obtain ⟨hlt, hfree⟩ := horder.exact.free hq
    refine ⟨u.store.lend id rest, some id, horder.exact.borrowPacket hq, ?_, ?_⟩
    · intro hnone
      cases hnone
    · intro p hp
      cases hp
      refine ⟨hlt, hfree, ?_⟩
      intro hwritten
      simpa [PacketStore.lend] using horder.clean id hfree hwritten

/-- A packet is borrowed, written, and returned twice. -/
def returnedTwice : List PoolOp :=
  [.borrowPacket, .write 0 Packet.clearInPointer, .returnPacket (some 0), .returnPacket (some 0)]

theorem freeListExact_of_returnedTwice :
    ∃ u, Transition.run step .new returnedTwice = some u ∧ u.store.FreeListExact := by
  obtain ⟨u, hrun, -⟩ := exists_run step .new returnedTwice (fun _ => True) (by decide +kernel)
  have hmeets : Meets step Obtained .new returnedTwice := by
    decide +kernel
  exact ⟨u, hrun, (freeListExact_of_reaches u (reaches_of_run hmeets hrun)).1⟩

end PoolUse

end IocpChat

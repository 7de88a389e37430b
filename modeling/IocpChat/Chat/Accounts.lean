import IocpChat.Chat.Dispatch
import IocpChat.Lib.Assignment

/-!
# Who has a packet

Between the calls of the server, a packet of the pool is free, or it is to be dispatched, or
it is in the queue of a receiver, or it is being sent past the queues.  During a call the
caller can also have packets in hand.  The accounts are in order if each packet is in one of
these places, once, and the pool knows the free ones.

A packet in flight is one that bypasses the queues, or the front of a queue whose flag is
set.  So a packet that is in hand can be returned to the pool, and the front of a queue can
be sent if the flag was not set.

## Main definitions

* `Hub.Sends` — what is known of the outstanding sends.
* `Hub.Accounts` — the accounts are in order.
-/

namespace IocpChat

open Assignment

/-- Who can have a packet: the call that is running, the packets to dispatch, the queue of a
receiver, or a send past the queues. -/
inductive Owner
  | hand
  | batch
  | user (u : UserId)
  | bypass
  deriving DecidableEq

namespace Hub

variable {owner : PacketPtr → Option Owner} {h h' : Hub} {hand hand' : List PacketPtr}
  {p q : PacketPtr} {u : UserId} {o o' : Owner}

/-- The packets that are to be dispatched. -/
def waiting (h : Hub) : List PacketPtr := h.batch.map Prod.fst

/-- The packets that `WSASend` has. -/
def inFlight (h : Hub) : List PacketPtr := h.outstanding.map Sending.packet

/-- The packets of the outstanding sends past the queues. -/
def bypassing (h : Hub) : List PacketPtr := h.inFlight.filter h.pool.bypassQueue

/-- The packets that somebody has, given those of the running call. -/
def held (h : Hub) (hand : List PacketPtr) : Owner → List PacketPtr
  | .hand => hand
  | .batch => h.waiting
  | .user u => (h.queues u).queue
  | .bypass => h.bypassing

/-! ## The outstanding sends -/

/-- A packet is sent once at a time, and one that does not bypass the queues is the front of
a queue whose flag is set.  A queue that is not empty has an entry. -/
structure Sends (h : Hub) : Prop where
  nodup : h.inFlight.Nodup
  front : ∀ p ∈ h.inFlight, h.pool.bypassQueue p = false →
    ∃ u, (h.queues u).queue.head? = some p ∧ (h.queues u).flag = true
  mapped : ∀ u, (h.queues u).queue ≠ [] → (h.queues u).mapped = true

theorem Sends.congr (hs : h.Sends) (hout : h'.outstanding = h.outstanding)
    (hqueues : h'.queues = h.queues)
    (hflags : ∀ q ∈ h.inFlight, h'.pool.bypassQueue q = h.pool.bypassQueue q) : h'.Sends := by
  have hflight : h'.inFlight = h.inFlight := by rw [inFlight, inFlight, hout]
  constructor
  · rw [hflight]
    exact hs.nodup
  · rw [hflight, hqueues]
    intro p hp hfalse
    rw [hflags p hp] at hfalse
    exact hs.front p hp hfalse
  · rw [hqueues]
    exact hs.mapped

theorem Sends.append {socket : Socket} (hs : h.Sends) (hp : p ∉ h.inFlight)
    (hfront : h.pool.bypassQueue p = false →
      ∃ u, (h.queues u).queue.head? = some p ∧ (h.queues u).flag = true) :
    Sends { h with outstanding := h.outstanding ++ [⟨p, socket⟩] } := by
  have hflight : ({ h with outstanding := h.outstanding ++ [⟨p, socket⟩] } : Hub).inFlight =
      h.inFlight ++ [p] := by simp [inFlight]
  refine ⟨?_, ?_, hs.mapped⟩
  · rw [hflight, ← List.concat_eq_append]
    exact hs.nodup.concat hp
  · intro q hq hfalse
    rw [hflight, List.mem_append, List.mem_singleton] at hq
    rcases hq with hq | rfl
    · exact hs.front q hq hfalse
    · exact hfront hfalse

theorem inFlight_dequeue (h : Hub) (i : ℕ) : (h.dequeue i).inFlight = h.inFlight.eraseIdx i := by
  simp [inFlight, dequeue, List.eraseIdx_map]

/-- The packets past the queues, before a send of `p` completes. -/
theorem bypassing_perm {i : ℕ} (hi : h.inFlight[i]? = some p) :
    h.bypassing.Perm ((p :: (h.dequeue i).inFlight).filter h.pool.bypassQueue) := by
  rw [inFlight_dequeue]
  obtain ⟨hlt, rfl⟩ := List.getElem?_eq_some_iff.mp hi
  exact (List.getElem_cons_eraseIdx_perm hlt).symm.filter _

theorem Sends.dequeue (hs : h.Sends) (i : ℕ) : (h.dequeue i).Sends := by
  refine ⟨?_, ?_, hs.mapped⟩
  · rw [inFlight_dequeue]
    exact hs.nodup.eraseIdx i
  · intro p hp hfalse
    rw [inFlight_dequeue] at hp
    exact hs.front p (List.mem_of_mem_eraseIdx hp) hfalse

theorem Sends.setQueue {next : SendQueue} (hs : h.Sends)
    (hfront : ∀ p ∈ h.inFlight, (h.queues u).queue.head? = some p → (h.queues u).flag = true →
      next.queue.head? = some p ∧ next.flag = true)
    (hmapped : next.queue ≠ [] → next.mapped = true) : (h.setQueue u next).Sends := by
  refine ⟨hs.nodup, ?_, ?_⟩
  · intro p hp hfalse
    obtain ⟨v, hv⟩ := hs.front p hp hfalse
    by_cases heq : v = u
    · subst heq
      refine ⟨v, ?_⟩
      simpa [Hub.setQueue] using hfront p hp hv.1 hv.2
    · refine ⟨v, ?_⟩
      simpa [Hub.setQueue, Function.update_of_ne heq] using hv
  · intro v
    by_cases heq : v = u
    · subst heq
      simpa [Hub.setQueue] using hmapped
    · simpa [Hub.setQueue, Function.update_of_ne heq] using hs.mapped v

/-! ## The accounts -/

/-- **The accounts are in order**: everybody has the packets assigned to them, and the pool
has the others. -/
structure Accounts (owner : PacketPtr → Option Owner) (h : Hub) (hand : List PacketPtr) : Prop where
  held : Holds owner (h.held hand)
  inUse : ∀ p, h.pool.inUse p = (owner p).isSome
  free : ∀ p, p ∈ h.pool.availableIdx ↔ p < PacketPool.currentSize ∧ owner p = none
  nodup : h.pool.availableIdx.Nodup
  lt : ∀ p, owner p ≠ none → p < PacketPool.currentSize
  bypass : ∀ p, h.pool.bypassQueue p = true → owner p = some .bypass ∨ owner p = some .hand
  sends : h.Sends

theorem accounts_new (groups : UserId → Option (List UserId)) :
    Accounts (fun _ => none) (new groups) [] := by
  constructor
  · intro i a
    cases i <;> rfl
  · intro p
    rfl
  · intro p
    simp only [new, PacketPool.new, List.mem_range, and_true]
  · simp only [new, PacketPool.new]
    exact List.nodup_range
  · intro p hp
    exact absurd rfl hp
  · intro p hp
    cases hp
  · constructor
    · exact List.nodup_nil
    · intro p hp
      cases hp
    · intro u hu
      exact absurd rfl hu

namespace Accounts

theorem owner_of_queue (ha : Accounts owner h hand) (hp : p ∈ (h.queues u).queue) :
    owner p = some (.user u) :=
  ha.held.mem_iff.mp hp

theorem owner_of_hand (ha : Accounts owner h (p :: hand)) : owner p = some .hand :=
  ha.held.mem_iff.mp List.mem_cons_self

theorem owner_of_inFlight (ha : Accounts owner h hand) (hp : p ∈ h.inFlight) :
    owner p = some .bypass ∨ ∃ u, (h.queues u).queue.head? = some p ∧ (h.queues u).flag = true := by
  cases hbypass : h.pool.bypassQueue p with
  | true =>
    left
    refine ha.held.mem_iff.mp ?_
    exact List.mem_filter.mpr ⟨hp, hbypass⟩
  | false => exact .inr (ha.sends.front p hp hbypass)

/-- A packet of a queue is only in flight if it is the front, and then the flag is set. -/
theorem front_of_inFlight (ha : Accounts owner h hand) (hp : p ∈ (h.queues u).queue)
    (hflight : p ∈ h.inFlight) : (h.queues u).queue.head? = some p ∧ (h.queues u).flag = true := by
  have howner := ha.owner_of_queue hp
  rcases ha.owner_of_inFlight hflight with hbypass | ⟨v, hhead, hflag⟩
  · rw [howner] at hbypass
    cases hbypass
  · rw [ha.owner_of_queue (List.mem_of_mem_head? hhead)] at howner
    cases howner
    exact ⟨hhead, hflag⟩

theorem not_mem_inFlight (ha : Accounts owner h (p :: hand)) : p ∉ h.inFlight := by
  intro hflight
  have howner := ha.owner_of_hand
  rcases ha.owner_of_inFlight hflight with hbypass | ⟨u, hhead, -⟩
  · rw [howner] at hbypass
    cases hbypass
  · rw [ha.owner_of_queue (List.mem_of_mem_head? hhead)] at howner
    cases howner

theorem bypassQueue_eq_false (ha : Accounts owner h hand) (hbypass : owner p ≠ some .bypass)
    (hhand : owner p ≠ some .hand) : h.pool.bypassQueue p = false := by
  by_contra hmark
  rcases ha.bypass p (by simpa using hmark) with howner | howner
  · exact hbypass howner
  · exact hhand howner

/-! ## Changes that move no packet -/

/-- **Nobody has another packet than before.** -/
theorem keep (ha : Accounts owner h hand) (hpool : h'.pool = h.pool)
    (hheld : ∀ o, (h.held hand o).Perm (h'.held hand' o)) (hsends : h'.Sends) :
    Accounts owner h' hand' := by
  constructor
  · exact ha.held.perm hheld
  · rw [hpool]
    exact ha.inUse
  · rw [hpool]
    exact ha.free
  · rw [hpool]
    exact ha.nodup
  · exact ha.lt
  · rw [hpool]
    exact ha.bypass
  · exact hsends

theorem congr (ha : Accounts owner h hand) (hpool : h'.pool = h.pool)
    (hqueues : h'.queues = h.queues) (hout : h'.outstanding = h.outstanding)
    (hbatch : h'.batch = h.batch) : Accounts owner h' hand := by
  refine ha.keep hpool ?_ (ha.sends.congr hout hqueues ?_)
  · intro o
    cases o <;> simp [Hub.held, waiting, bypassing, Hub.inFlight, hpool, hqueues, hout, hbatch]
  · intro q _
    rw [hpool]

/-- The flag of a queue changes.  It is not cleared while the front is in flight. -/
theorem setFlag {flag : Bool} (ha : Accounts owner h hand)
    (hflag : flag = false → ∀ p ∈ (h.queues u).queue.head?, p ∉ h.inFlight) :
    Accounts owner (h.setFlag u flag) hand := by
  refine ha.keep rfl ?_ (ha.sends.setQueue ?_ (ha.sends.mapped u))
  · intro o
    cases o with
    | hand | batch | bypass => exact .refl _
    | user v =>
      by_cases heq : v = u
      · subst heq
        simp [Hub.held, Hub.setFlag, setQueue]
      · simp [Hub.held, Hub.setFlag, setQueue, Function.update_of_ne heq]
  · intro p hp hhead _
    refine ⟨hhead, ?_⟩
    by_contra hfalse
    exact hflag (by simpa using hfalse) p hhead hp

theorem sendFront (socket : Socket) (ha : Accounts owner h hand)
    (hhead : (h.queues u).queue.head? = some p) (hflag : (h.queues u).flag = true)
    (hp : p ∉ h.inFlight) :
    Accounts owner { h with outstanding := h.outstanding ++ [⟨p, socket⟩] } hand := by
  have howner := ha.owner_of_queue (List.mem_of_mem_head? hhead)
  have hmark := ha.bypassQueue_eq_false (p := p) (by simp [howner]) (by simp [howner])
  refine ha.keep rfl ?_ (ha.sends.append hp fun _ => ⟨u, hhead, hflag⟩)
  intro o
  cases o with
  | hand | batch | user => exact .refl _
  | bypass => simp [Hub.held, bypassing, Hub.inFlight, hmark]

theorem dequeueFront {i : ℕ} (ha : Accounts owner h hand) (hi : h.inFlight[i]? = some p)
    (hmark : h.pool.bypassQueue p = false) : Accounts owner (h.dequeue i) hand := by
  refine ha.keep rfl ?_ (ha.sends.dequeue i)
  intro o
  cases o with
  | hand | batch | user => exact .refl _
  | bypass =>
    have hperm := bypassing_perm hi
    rw [List.filter_cons_of_neg (by simp [hmark])] at hperm
    exact hperm

/-! ## Changes that move a packet -/

/-- **A packet is handed on.** -/
theorem transfer (ha : Accounts owner h hand) (hpool : h'.pool = h.pool) (hne : o ≠ o')
    (hfrom : (h.held hand o).Perm (p :: h'.held hand' o))
    (hto : (h'.held hand' o').Perm (p :: h.held hand o'))
    (hrest : ∀ i, i ≠ o → i ≠ o' → h'.held hand' i = h.held hand i)
    (hmark : h.pool.bypassQueue p = true → o' = .bypass ∨ o' = .hand) (hsends : h'.Sends) :
    Accounts (Function.update owner p (some o')) h' hand' := by
  have howner : owner p = some o :=
    ha.held.mem_iff.mp (hfrom.mem_iff.mpr List.mem_cons_self)
  constructor
  · exact ha.held.move hne hfrom hto hrest
  · intro q
    rw [hpool, ha.inUse q]
    by_cases hq : q = p
    · subst hq
      simp [howner]
    · rw [Function.update_of_ne hq]
  · intro q
    rw [hpool, ha.free q]
    by_cases hq : q = p
    · subst hq
      simp [howner]
    · rw [Function.update_of_ne hq]
  · rw [hpool]
    exact ha.nodup
  · intro q hq
    by_cases heq : q = p
    · subst heq
      exact ha.lt q (by simp [howner])
    · rw [Function.update_of_ne heq] at hq
      exact ha.lt q hq
  · intro q hq
    rw [hpool] at hq
    by_cases heq : q = p
    · subst heq
      simpa using hmark hq
    · rw [Function.update_of_ne heq]
      exact ha.bypass q hq
  · exact hsends

theorem push (ha : Accounts owner h (p :: hand)) (hmark : h.pool.bypassQueue p = false) :
    let queue := h.queues u
    Accounts (Function.update owner p (some (.user u)))
      (h.setQueue u { queue with queue := queue.queue ++ [p], mapped := true }) hand := by
  intro queue
  refine ha.transfer (o := .hand) rfl (by simp) (.refl _) ?_ ?_ (by simp [hmark])
    (ha.sends.setQueue ?_ ?_)
  · simp [Hub.held, setQueue, queue]
  · intro o hhand hu
    cases o with
    | hand => exact absurd rfl hhand
    | batch | bypass => rfl
    | user v =>
      have hne : v ≠ u := by
        rintro rfl
        exact hu rfl
      simp [Hub.held, setQueue, Function.update_of_ne hne]
  · intro q _ hhead hflag
    exact ⟨by simp [queue, hhead], hflag⟩
  · intro _
    rfl

theorem pop (ha : Accounts owner h hand) (hhead : (h.queues u).queue.head? = some p)
    (hp : p ∉ h.inFlight) :
    Accounts (Function.update owner p (some .hand)) (h.pop u) (p :: hand) := by
  obtain ⟨rest, hqueue⟩ := List.head?_eq_some_iff.mp hhead
  refine ha.transfer (o := .user u) rfl (by simp) ?_ (.refl _) ?_ (by simp) (ha.sends.setQueue ?_ ?_)
  · simp [Hub.held, Hub.pop, setQueue, hqueue]
  · intro o hu hhand
    cases o with
    | hand => exact absurd rfl hhand
    | batch | bypass => rfl
    | user v =>
      have hne : v ≠ u := by
        rintro rfl
        exact hu rfl
      simp [Hub.held, Hub.pop, setQueue, Function.update_of_ne hne]
  · intro q hq hfront
    rw [hhead] at hfront
    cases hfront
    exact absurd hq hp
  · intro _
    exact ha.sends.mapped u (by simp [hqueue])

theorem sendBypass (socket : Socket) (ha : Accounts owner h (p :: hand))
    (hmark : h.pool.bypassQueue p = true) :
    Accounts (Function.update owner p (some .bypass))
      { h with outstanding := h.outstanding ++ [⟨p, socket⟩] } hand := by
  refine ha.transfer (o := .hand) rfl (by simp) (.refl _) ?_ ?_ (by simp)
    (ha.sends.append ha.not_mem_inFlight (by simp [hmark]))
  · simp [Hub.held, bypassing, Hub.inFlight, hmark]
  · intro o hhand hbypass
    cases o with
    | hand => exact absurd rfl hhand
    | batch | user => rfl
    | bypass => exact absurd rfl hbypass

theorem dequeueBypass {i : ℕ} (ha : Accounts owner h hand) (hi : h.inFlight[i]? = some p)
    (hmark : h.pool.bypassQueue p = true) :
    Accounts (Function.update owner p (some .hand)) (h.dequeue i) (p :: hand) := by
  refine ha.transfer (o := .bypass) rfl (by simp) ?_ (.refl _) ?_ (by simp) (ha.sends.dequeue i)
  · have hperm := bypassing_perm hi
    rw [List.filter_cons_of_pos hmark] at hperm
    exact hperm
  · intro o hbypass hhand
    cases o with
    | hand => exact absurd rfl hhand
    | batch | user => rfl
    | bypass => exact absurd rfl hbypass

theorem addBatch {r : Arrival} (ha : Accounts owner h (p :: hand))
    (hmark : h.pool.bypassQueue p = false) :
    Accounts (Function.update owner p (some .batch)) { h with batch := h.batch ++ [(p, r)] } hand := by
  refine ha.transfer (o := .hand) rfl (by simp) (.refl _) ?_ ?_ (by simp [hmark])
    (ha.sends.congr rfl rfl fun _ _ => rfl)
  · simp [Hub.held, waiting]
  · intro o hhand hbatch
    cases o with
    | hand => exact absurd rfl hhand
    | batch => exact absurd rfl hbatch
    | user | bypass => rfl

theorem unbatch {i : ℕ} {b : PacketPtr × Arrival} (ha : Accounts owner h hand)
    (hi : h.batch[i]? = some b) :
    Accounts (Function.update owner b.1 (some .hand)) (h.unbatch i) (b.1 :: hand) := by
  refine ha.transfer (o := .batch) rfl (by simp) ?_ (.refl _) ?_ (by simp)
    (ha.sends.congr rfl rfl fun _ _ => rfl)
  · obtain ⟨hlt, rfl⟩ := List.getElem?_eq_some_iff.mp hi
    exact ((List.getElem_cons_eraseIdx_perm hlt).symm.map Prod.fst)
  · intro o hbatch hhand
    cases o with
    | hand => exact absurd rfl hhand
    | batch => exact absurd rfl hbatch
    | user | bypass => rfl

/-! ## The pool -/

end Accounts

/-- A packet is taken from the pool. -/
def lend (h : Hub) (p : PacketPtr) (rest : List PacketPtr) : Hub :=
  { h with pool := { h.pool with
      availableIdx := rest
      inUse := Function.update h.pool.inUse p true } }

namespace Accounts

theorem lend {rest : List PacketPtr} (ha : Accounts owner h hand)
    (hfree : h.pool.availableIdx = p :: rest) :
    Accounts (Function.update owner p (some .hand)) (h.lend p rest) (p :: hand) := by
  have hmem := (ha.free p).mp (hfree ▸ List.mem_cons_self)
  have hnodup : p ∉ rest ∧ rest.Nodup := List.nodup_cons.mp (hfree ▸ ha.nodup)
  constructor
  · refine ha.held.add (j := .hand) hmem.2 ?_ ?_
    · exact .refl _
    · intro o hhand
      cases o with
      | hand => exact absurd rfl hhand
      | batch | user | bypass => rfl
  · intro q
    by_cases hq : q = p
    · subst hq
      simp [Hub.lend]
    · simp [Hub.lend, Function.update_of_ne hq, ha.inUse q]
  · intro q
    by_cases hq : q = p
    · subst hq
      simp [Hub.lend, hnodup.1]
    · have hiff := ha.free q
      rw [hfree, List.mem_cons, or_iff_right hq] at hiff
      simpa [Hub.lend, Function.update_of_ne hq] using hiff
  · exact hnodup.2
  · intro q hq
    by_cases heq : q = p
    · subst heq
      exact hmem.1
    · rw [Function.update_of_ne heq] at hq
      exact ha.lt q hq
  · intro q hq
    by_cases heq : q = p
    · subst heq
      simp
    · rw [Function.update_of_ne heq]
      exact ha.bypass q hq
  · exact ha.sends.congr rfl rfl fun _ _ => rfl

/-- `borrowPacket` gives the first free packet, if there is one.  It does not have the mark. -/
theorem borrowPacket (ha : Accounts owner h hand) :
    (h.pool.availableIdx = [] ∧ h.borrowPacket = some (h, none)) ∨
      ∃ p rest, h.pool.availableIdx = p :: rest ∧ h.pool.bypassQueue p = false ∧
        h.borrowPacket = some (h.lend p rest, some p) := by
  cases hfree : h.pool.availableIdx with
  | nil => exact .inl ⟨rfl, by simp [Hub.borrowPacket, PacketPool.borrowPacket, hfree]⟩
  | cons p rest =>
    right
    have hnone : owner p = none := ((ha.free p).mp (hfree ▸ List.mem_cons_self)).2
    have hfalse : h.pool.inUse p = false := by
      rw [ha.inUse p, hnone]
      rfl
    refine ⟨p, rest, rfl, ha.bypassQueue_eq_false (by simp [hnone]) (by simp [hnone]), ?_⟩
    simp [Hub.borrowPacket, PacketPool.borrowPacket, PacketPool.nextAvailable, hfree, hfalse,
      Hub.lend]

theorem bypassing_congr (hout : h'.outstanding = h.outstanding)
    (hflags : ∀ q ∈ h.inFlight, h'.pool.bypassQueue q = h.pool.bypassQueue q) :
    h'.bypassing = h.bypassing := by
  rw [bypassing, bypassing, Hub.inFlight, hout]
  exact List.filter_congr hflags

theorem returnPacket (ha : Accounts owner h (p :: hand)) :
    Accounts (Function.update owner p none) (h.returnPacket p) hand := by
  have howner := ha.owner_of_hand
  have hlt := ha.lt p (by simp [howner])
  have huse : h.pool.inUse p = true := by
    rw [ha.inUse p, howner]
    rfl
  have hpool : h.pool.returnPacket p =
      ⟨h.pool.availableIdx ++ [p], Function.update h.pool.inUse p false,
        Function.update h.pool.bypassQueue p false⟩ := by
    simp [PacketPool.returnPacket, Nat.not_le.mpr hlt, huse]
  have hmarks : ∀ q ∈ h.inFlight,
      (h.returnPacket p).pool.bypassQueue q = h.pool.bypassQueue q := by
    intro q hq
    have hne : q ≠ p := by
      rintro rfl
      exact ha.not_mem_inFlight hq
    simp [Hub.returnPacket, hpool, Function.update_of_ne hne]
  have hsame : (h.returnPacket p).bypassing = h.bypassing := bypassing_congr rfl hmarks
  constructor
  · refine ha.held.remove (i := .hand) (.refl _) ?_
    intro o hhand
    cases o with
    | hand => exact absurd rfl hhand
    | batch | user => rfl
    | bypass => exact hsame
  · intro q
    by_cases hq : q = p
    · subst hq
      simp [Hub.returnPacket, hpool]
    · simp [Hub.returnPacket, hpool, Function.update_of_ne hq, ha.inUse q]
  · intro q
    by_cases hq : q = p
    · subst hq
      simpa [Hub.returnPacket, hpool] using hlt
    · simp [Hub.returnPacket, hpool, hq, ha.free q]
  · have hnot : p ∉ h.pool.availableIdx := by
      simp [ha.free p, howner]
    simp only [Hub.returnPacket, hpool]
    rw [← List.concat_eq_append]
    exact ha.nodup.concat hnot
  · intro q hq
    by_cases heq : q = p
    · subst heq
      exact absurd (Function.update_self ..) hq
    · rw [Function.update_of_ne heq] at hq
      exact ha.lt q hq
  · intro q hq
    have heq : q ≠ p := by
      rintro rfl
      simp [Hub.returnPacket, hpool] at hq
    simp only [Hub.returnPacket, hpool, Function.update_of_ne heq] at hq
    rw [Function.update_of_ne heq]
    exact ha.bypass q hq
  · exact ha.sends.congr rfl rfl hmarks

theorem setBypass (ha : Accounts owner h (p :: hand)) :
    Accounts owner (h.setBypass p) (p :: hand) := by
  have hmarks : ∀ q ∈ h.inFlight, (h.setBypass p).pool.bypassQueue q = h.pool.bypassQueue q := by
    intro q hq
    have hne : q ≠ p := by
      rintro rfl
      exact ha.not_mem_inFlight hq
    simp [Hub.setBypass, Function.update_of_ne hne]
  have hsame : (h.setBypass p).bypassing = h.bypassing := bypassing_congr rfl hmarks
  refine ⟨?_, ha.inUse, ha.free, ha.nodup, ha.lt, ?_, ha.sends.congr rfl rfl hmarks⟩
  · refine ha.held.perm ?_
    intro o
    cases o with
    | hand | batch | user => exact .refl _
    | bypass => simp only [Hub.held, hsame, List.Perm.refl]
  · intro q hq
    by_cases heq : q = p
    · subst heq
      exact .inr ha.owner_of_hand
    · simp only [Hub.setBypass, Function.update_of_ne heq] at hq
      exact ha.bypass q hq

end Accounts

end Hub

end IocpChat

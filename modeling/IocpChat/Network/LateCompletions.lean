import IocpChat.Network.HandleAccounts

/-!
# Late completions

A completion is late if its connection has lost its handle, and another one has it.  The thread
that is told of it calls `handleDisconnect` with the handle, and finds it not in the set, since
`acceptLoop` has taken it out.  So it removes the session of the new connection, erases its
buffer and closes its socket.

Nothing of this happens in runs that are careful.
-/

namespace IocpChat

open Transition

namespace Handles

theorem tagged_start : Tagged Server.start.shared Server.start.calls := by
  refine ⟨fun m hm => absurd hm (Nat.not_lt_zero m), fun k hk => ?_, ?_, fun o ho => ?_, fun w hw => ?_,
    fun t ht => ?_, fun t ht => ?_⟩
  · cases hk
  · rintro m (⟨p, hp⟩ | ⟨k, hk⟩ | ⟨k, hk⟩)
    · cases hp
    · cases hk
    · exact (current_of_lastOn hk).lt
  · cases ho
  · cases hw
  · cases ht
  · cases ht

theorem accounted_start : Accounted Server.start.shared Server.start.calls := by
  refine ⟨fun m hm => absurd hm (Nat.not_lt_zero m), fun o ho => ?_, fun w hw => ?_, fun _ => .inl rfl,
    fun k hk => ?_, fun k hk => ?_, fun _ => rfl, fun _ => rfl,
    fun m hm => absurd hm (Nat.not_lt_zero m), fun _ _ => ⟨rfl, rfl⟩, fun m hm => ?_⟩
  · cases ho
  · cases hw
  · cases hk
  · cases hk
  · cases hm

/-- A connection that has ended and is not closed has a thread that closes it. -/
theorem Accounted.closedOnce {s : Server} (h : Accounted s.shared s.calls) : s.ClosedOnce := by
  intro m hm
  refine ⟨h.closes m hm, ?_⟩
  intro hended hheld
  obtain ⟨hset, hmarked⟩ := h.ended m hended
  have hclosing : s.shared.Closing (s.shared.socketOf m) :=
    ⟨hheld.1, hheld.2.symm ▸ hset, hmarked hheld⟩
  have hcount := h.closing (s.shared.socketOf m)
  rw [if_pos hclosing] at hcount
  obtain ⟨w, hw, hcloses⟩ := List.countP_pos_iff.mp (hcount ▸ Nat.one_pos)
  simp only [Worker.closes, Bool.and_eq_true, beq_iff_eq] at hcloses
  exact ⟨w, hw, hcloses.2, hcloses.1⟩

/-- **No late completions.**  If handles are given away only when nobody works for their last
connection, no thread takes anything from a later connection on its handle, and every connection
is closed once. -/
theorem undisturbed_of_careful (s : Server) (hreach : Reaches Server.step Server.Careful .start s) :
    s.shared.Undisturbed ∧ s.ClosedOnce := by
  have hinv : Tagged s.shared s.calls ∧ Accounted s.shared s.calls := by
    apply hreach.invariant
    · exact ⟨tagged_start, accounted_start⟩
    · rintro s a s' _ ⟨htagged, haccounted⟩ hcareful hstep
      exact ⟨htagged.step hcareful hstep, haccounted.step htagged hstep⟩
  exact ⟨hinv.1.undisturbed, hinv.2.closedOnce⟩

/-! ## A handle that is used again -/

/-- The thread takes some steps, in which nothing fails. -/
def turns (i steps : ℕ) : List Server.Action := List.replicate steps (.run i ⟨.refused, 0, false⟩)

/-- A connection with a send that is pending is closed, since its receive fails. -/
def closed : List Server.Action :=
  [.accept 7] ++ turns 0 4 ++ [.send 7, .complete 0 .failure] ++ turns 1 4

/-- The send fails, and then the handle is used again. -/
def usedAfter : List Server.Action :=
  closed ++ [.complete 0 .failure] ++ turns 2 1 ++ [.accept 7] ++ turns 3 4

theorem undisturbed_usedAfter :
    ∃ s, Transition.run Server.step .start usedAfter = some s ∧
      s.shared.closes 0 = 1 ∧ s.shared.Holds 1 ∧ s.shared.Undisturbed ∧ s.ClosedOnce := by
  obtain ⟨s, hrun, hcloses, hheld⟩ := exists_run Server.step .start usedAfter
    (fun s => s.shared.closes 0 = 1 ∧ s.shared.Holds 1) (by decide +kernel)
  have hmeets : Meets Server.step Server.Careful .start usedAfter := by
    decide +kernel
  exact ⟨s, hrun, hcloses, hheld, undisturbed_of_careful s (reaches_of_run hmeets hrun)⟩

/-- The handle is used again by a connection that receives a packet, and then the send fails. -/
def usedBefore : List Server.Action :=
  closed ++ [.accept 7] ++ turns 2 4 ++ [.complete 1 (.success [none])] ++ turns 3 6 ++
    [.complete 0 .failure] ++ turns 4 5

/-- **A late completion** takes the session, the buffer and the handle from the new connection. -/
theorem not_undisturbed_usedBefore :
    ∃ s, Transition.run Server.step .start usedBefore = some s ∧
      (∀ part, ⟨0, 1, part⟩ ∈ s.shared.teardowns) ∧ ¬ s.shared.Undisturbed := by
  obtain ⟨s, hrun, hsession, hbuffer, hsocket, hsame⟩ := exists_run Server.step .start usedBefore
    (fun s => ⟨0, 1, .session⟩ ∈ s.shared.teardowns ∧ ⟨0, 1, .buffer⟩ ∈ s.shared.teardowns ∧
      ⟨0, 1, .socket⟩ ∈ s.shared.teardowns ∧ s.shared.socketOf 1 = s.shared.socketOf 0)
    (by decide +kernel)
  refine ⟨s, hrun, ?_, ?_⟩
  · intro part
    cases part with
    | session => exact hsession
    | buffer => exact hbuffer
    | socket => exact hsocket
  · intro h
    exact absurd (h _ hsocket hsame) (by decide)

end Handles

end IocpChat

import Mathlib.Data.List.Nodup

/-!
# Things that are each in one place

Things are handed around between holders, each of which has a list.  `Holds` says that the
lists are those of an assignment: a thing is in the list of the holder it is assigned to,
once, and in no other list.

A step that hands on one thing changes the assignment at that thing.  `Holds.add`,
`Holds.remove` and `Holds.move` are the rules for it; they ask for the lists of the holders
concerned, in any order.

## Main definitions

* `Holds` — the lists of an assignment.
-/

namespace Assignment

variable {ι α : Type*} [DecidableEq ι] [DecidableEq α] {owner : α → Option ι}
  {held held' : ι → List α} {a : α} {i j : ι}

/-- Each holder has the things that are assigned to it, and each of them once. -/
def Holds (owner : α → Option ι) (held : ι → List α) : Prop :=
  ∀ i a, (held i).count a = if owner a = some i then 1 else 0

theorem Holds.mem_iff (h : Holds owner held) : a ∈ held i ↔ owner a = some i := by
  rw [← List.count_pos_iff, h i a]
  split <;> simp [*]

theorem Holds.nodup (h : Holds owner held) (i : ι) : (held i).Nodup := by
  rw [List.nodup_iff_count_le_one]
  intro a
  rw [h i a]
  split <;> simp

theorem Holds.eq_of_mem (h : Holds owner held) (hi : a ∈ held i) (hj : a ∈ held j) : i = j := by
  rw [h.mem_iff] at hi hj
  exact Option.some.inj (hi.symm.trans hj)

/-- A thing is given to a holder. -/
theorem Holds.add (h : Holds owner held) (ha : owner a = none)
    (hto : (held' j).Perm (a :: held j)) (hrest : ∀ i, i ≠ j → held' i = held i) :
    Holds (Function.update owner a (some j)) held' := by
  intro i b
  by_cases hi : i = j
  · subst hi
    rw [hto.count_eq, List.count_cons, h i b]
    by_cases hb : b = a
    · subst hb
      simp [ha]
    · simp [Function.update_of_ne hb, Ne.symm hb]
  · rw [hrest i hi, h i b]
    by_cases hb : b = a
    · subst hb
      simp [ha, Ne.symm hi]
    · rw [Function.update_of_ne hb]

/-- A thing is taken away from its holder. -/
theorem Holds.remove (h : Holds owner held) (hfrom : (held i).Perm (a :: held' i))
    (hrest : ∀ j, j ≠ i → held' j = held j) : Holds (Function.update owner a none) held' := by
  have ha : owner a = some i := h.mem_iff.mp (hfrom.mem_iff.mpr List.mem_cons_self)
  intro j b
  by_cases hj : j = i
  · subst hj
    have hcount := h j b
    rw [hfrom.count_eq, List.count_cons] at hcount
    by_cases hb : b = a
    · subst hb
      simpa [ha] using hcount
    · simpa [Function.update_of_ne hb, Ne.symm hb] using hcount
  · rw [hrest j hj, h j b]
    by_cases hb : b = a
    · subst hb
      simp [ha, Ne.symm hj]
    · rw [Function.update_of_ne hb]

/-- **A thing is handed on.** -/
theorem Holds.move (h : Holds owner held) (hne : i ≠ j) (hfrom : (held i).Perm (a :: held' i))
    (hto : (held' j).Perm (a :: held j)) (hrest : ∀ k, k ≠ i → k ≠ j → held' k = held k) :
    Holds (Function.update owner a (some j)) held' := by
  have hremoved : Holds (Function.update owner a none) (Function.update held i (held' i)) := by
    refine h.remove (i := i) ?_ ?_
    · simpa using hfrom
    · intro k hk
      exact Function.update_of_ne hk ..
  have hadded : Holds (Function.update (Function.update owner a none) a (some j)) held' := by
    refine hremoved.add (Function.update_self ..) ?_ ?_
    · rw [Function.update_of_ne hne.symm]
      exact hto
    · intro k hk
      by_cases hki : k = i
      · subst hki
        rw [Function.update_self]
      · rw [Function.update_of_ne hki]
        exact hrest k hki hk
  rwa [Function.update_idem] at hadded

/-- The lists may be in another order. -/
theorem Holds.perm (h : Holds owner held) (hperm : ∀ i, (held i).Perm (held' i)) :
    Holds owner held' := by
  intro i a
  rw [← (hperm i).count_eq, h i a]

end Assignment

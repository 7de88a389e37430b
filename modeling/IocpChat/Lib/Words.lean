import Mathlib.Data.List.TakeWhile

/-!
# The words of a string

Reading from a stream with `>>` skips what is space, and takes what follows up to the next
space.  `words` are the strings that are read so until the end.

## Main definitions

* `words` — the pieces between spaces that are not empty, in order.
-/

namespace Words

variable {α : Type*} {space : α → Bool} {x : α} {xs w : List α}

/-- The pieces between spaces that are not empty. -/
def words (space : α → Bool) (xs : List α) : List (List α) := (xs.splitOnP space).filter (· ≠ [])

/-- A space separates words. -/
theorem words_append_space (hx : space x = true) (xs ys : List α) :
    words space (xs ++ x :: ys) = words space xs ++ words space ys := by
  rw [words, List.splitOnP_append_cons xs ys hx, List.filter_append]
  rfl

@[simp] theorem words_nil : words space ([] : List α) = [] := by
  simp [words]

theorem words_cons_space (hx : space x = true) (xs : List α) :
    words space (x :: xs) = words space xs := by
  simpa using words_append_space hx [] xs

/-- A string without space is one word. -/
theorem words_eq_singleton (hw : w ≠ []) (hspace : ∀ x ∈ w, space x = false) :
    words space w = [w] := by
  rw [words, List.splitOnP_eq_singleton hspace]
  simp [hw]

/-- A word that is followed by nothing or by space. -/
theorem words_append {rest : List α} (hw : w ≠ []) (hspace : ∀ x ∈ w, space x = false)
    (hrest : ∀ x ∈ rest.head?, space x = true) : words space (w ++ rest) = w :: words space rest := by
  cases rest with
  | nil => simp [words_eq_singleton hw hspace]
  | cons x rest =>
    rw [words_append_space (hrest x rfl), words_eq_singleton hw hspace,
      words_cons_space (hrest x rfl)]
    rfl

/-- The first word, and what is before and after it. -/
theorem exists_append_of_words_eq_cons {ws : List (List α)} (h : words space xs = w :: ws) :
    ∃ pre rest, xs = pre ++ (w ++ rest) ∧ (∀ x ∈ pre, space x = true) ∧ w ≠ [] ∧
      (∀ x ∈ w, space x = false) ∧ ∀ x ∈ rest.head?, space x = true := by
  induction xs with
  | nil => simp at h
  | cons x xs ih =>
    cases hx : space x with
    | true =>
      rw [words_cons_space hx] at h
      obtain ⟨pre, rest, rfl, hpre, hrest⟩ := ih h
      refine ⟨x :: pre, rest, rfl, ?_, hrest⟩
      intro y hy
      rcases List.mem_cons.mp hy with rfl | hy
      · exact hx
      · exact hpre y hy
    | false =>
      -- The word is what is before the next space.
      have hsplit := List.takeWhile_append_dropWhile (p := (!space ·)) (l := x :: xs)
      have hword : ∀ y ∈ (x :: xs).takeWhile (!space ·), space y = false := by
        intro y hy
        simpa using List.mem_takeWhile_imp hy
      have hne : (x :: xs).takeWhile (!space ·) ≠ [] := by simp [hx]
      have hrest : ∀ y ∈ ((x :: xs).dropWhile (!space ·)).head?, space y = true := by
        intro y hy
        have := List.head?_dropWhile_not (!space ·) (x :: xs)
        rw [Option.mem_def.mp hy] at this
        simpa using this
      have hwords := words_append hne hword hrest
      rw [hsplit, h] at hwords
      cases hwords
      exact ⟨[], _, hsplit.symm, by simp, hne, hword, hrest⟩

end Words

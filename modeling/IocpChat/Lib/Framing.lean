import Mathlib.Data.List.Basic

/-!
# Framing a stream that arrives in pieces

A scanner looks at the bytes received so far and not yet consumed.  It waits
for more, rejects the stream, or eats a positive number of them and emits
something.  The one thing asked of it is stability: a verdict other than "wait"
is not changed by bytes that arrive later.

Stability is enough for the answer to be independent of how the stream is cut.
`drain_append` is the step, one more piece; `feed_eq_drain` is the run, any list
of pieces.

## Main definitions

* `Scanner` — a verdict function with stability and progress as fields.
* `Scanner.drain` — apply the scanner until it waits or rejects.
* `Scanner.feed` — drain after each piece, keeping the unconsumed bytes.
-/

namespace Framing

/-- What a scanner says about the bytes at hand. -/
inductive Verdict (β : Type*)
  | wait
  /-- The stream is malformed here. -/
  | reject
  /-- The first `n` items are consumed, and `out` is emitted. -/
  | eat (n : ℕ) (out : List β)
  deriving DecidableEq

/-- A scanner makes progress when it eats, and never takes a verdict back. -/
structure Scanner (α β : Type*) where
  scan : List α → Verdict β
  eat_pos : ∀ {xs n out}, scan xs = .eat n out → 0 < n
  eat_le : ∀ {xs n out}, scan xs = .eat n out → n ≤ xs.length
  stable : ∀ {xs}, scan xs ≠ .wait → ∀ ys, scan (xs ++ ys) = scan xs

/-- The state a drained stream is left in. -/
@[ext] structure Outcome (α β : Type*) where
  /-- Everything emitted, in order. -/
  out : List β
  rest : List α
  /-- Whether the scanner rejected what stands first in `rest`. -/
  rejected : Bool

namespace Scanner

variable {α β : Type*} (S : Scanner α β)

/-- Apply the scanner until it waits or rejects. -/
def drain (xs : List α) : Outcome α β :=
  match _h : S.scan xs with
  | .wait => ⟨[], xs, false⟩
  | .reject => ⟨[], xs, true⟩
  | .eat n out =>
    let r := drain (xs.drop n)
    ⟨out ++ r.out, r.rest, r.rejected⟩
termination_by xs.length
decreasing_by
  have hpos := S.eat_pos _h
  have hle := S.eat_le _h
  simp only [List.length_drop]
  omega

variable {S}

theorem drain_of_wait {xs : List α} (h : S.scan xs = .wait) : S.drain xs = ⟨[], xs, false⟩ := by
  rw [drain]
  split <;> simp_all

theorem drain_of_reject {xs : List α} (h : S.scan xs = .reject) :
    S.drain xs = ⟨[], xs, true⟩ := by
  rw [drain]
  split <;> simp_all

theorem drain_of_eat {xs : List α} {n : ℕ} {out : List β} (h : S.scan xs = .eat n out) :
    S.drain xs =
      ⟨out ++ (S.drain (xs.drop n)).out, (S.drain (xs.drop n)).rest,
        (S.drain (xs.drop n)).rejected⟩ := by
  conv_lhs => rw [drain]
  split
  · simp_all
  · simp_all
  · rename_i m o hm
    rw [h] at hm
    obtain ⟨rfl, rfl⟩ := Verdict.eat.inj hm
    rfl

/-- Induction along the pieces a scanner eats. -/
@[elab_as_elim]
theorem drain_induction {P : List α → Prop} (wait : ∀ xs, S.scan xs = .wait → P xs)
    (reject : ∀ xs, S.scan xs = .reject → P xs)
    (eat : ∀ xs n out, S.scan xs = .eat n out → P (xs.drop n) → P xs) (xs : List α) : P xs := by
  generalize hlen : xs.length = len
  induction len using Nat.strongRecOn generalizing xs with
  | _ len ih =>
    cases h : S.scan xs with
    | wait => exact wait xs h
    | reject => exact reject xs h
    | eat n out =>
      have hpos := S.eat_pos h
      have hle := S.eat_le h
      refine eat xs n out h (ih _ ?_ _ rfl)
      rw [List.length_drop]
      omega

/-- What is left over is what the scanner stopped at. -/
theorem scan_rest (xs : List α) :
    S.scan (S.drain xs).rest = if (S.drain xs).rejected then .reject else .wait := by
  induction xs using drain_induction (S := S) with
  | wait xs h => simp [drain_of_wait h, h]
  | reject xs h => simp [drain_of_reject h, h]
  | eat xs n out h ih =>
    rw [drain_of_eat h]
    exact ih

theorem length_rest_le (xs : List α) : (S.drain xs).rest.length ≤ xs.length := by
  induction xs using drain_induction (S := S) with
  | wait xs h => simp [drain_of_wait h]
  | reject xs h => simp [drain_of_reject h]
  | eat xs n out h ih =>
    rw [drain_of_eat h]
    rw [List.length_drop] at ih
    exact Nat.le_trans ih (Nat.sub_le _ _)

variable (S)

/-- **One more piece.**  Draining a longer stream is draining what was there, and
then what it left together with the new bytes; nothing follows a rejection. -/
theorem drain_append (xs ys : List α) :
    S.drain (xs ++ ys) =
      if (S.drain xs).rejected then ⟨(S.drain xs).out, (S.drain xs).rest ++ ys, true⟩
      else
        ⟨(S.drain xs).out ++ (S.drain ((S.drain xs).rest ++ ys)).out,
          (S.drain ((S.drain xs).rest ++ ys)).rest,
          (S.drain ((S.drain xs).rest ++ ys)).rejected⟩ := by
  induction xs using drain_induction (S := S) with
  | wait xs h => simp [drain_of_wait h]
  | reject xs h =>
    have h' : S.scan (xs ++ ys) = .reject := by rw [S.stable (by simp [h]), h]
    simp [drain_of_reject h, drain_of_reject h']
  | eat xs n out h ih =>
    have h' : S.scan (xs ++ ys) = .eat n out := by rw [S.stable (by simp [h]), h]
    rw [drain_of_eat h', drain_of_eat h, List.drop_append_of_le_length (S.eat_le h), ih]
    by_cases hr : (S.drain (xs.drop n)).rejected = true <;> simp [hr]

/-- Drain after each piece.  Once the stream is rejected, later pieces are only
kept. -/
def feed (st : Outcome α β) : List (List α) → Outcome α β
  | [] => st
  | c :: cs =>
    if st.rejected then feed ⟨st.out, st.rest ++ c, true⟩ cs
    else
      let r := S.drain (st.rest ++ c)
      feed ⟨st.out ++ r.out, r.rest, r.rejected⟩ cs

/-- **However a stream is cut into pieces, feeding them gives the drained
stream.** -/
theorem feed_eq_drain (xs : List α) (cs : List (List α)) :
    S.feed (S.drain xs) cs = S.drain (xs ++ cs.flatten) := by
  induction cs generalizing xs with
  | nil => simp [feed]
  | cons c cs ih =>
    have hstep : S.feed (S.drain xs) (c :: cs) = S.feed (S.drain (xs ++ c)) cs := by
      rw [feed, drain_append S xs c]
      by_cases hr : (S.drain xs).rejected = true <;> simp [hr]
    rw [hstep, ih, List.flatten_cons, List.append_assoc]

/-- A stream that is not rejected was not rejected earlier either. -/
theorem not_rejected_of_append {xs ys : List α} (h : (S.drain (xs ++ ys)).rejected = false) :
    (S.drain xs).rejected = false := by
  by_contra hr
  rw [drain_append, if_pos (by simpa using hr)] at h
  simp at h

end Scanner

end Framing

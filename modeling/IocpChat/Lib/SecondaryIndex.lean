import Mathlib.Data.List.Perm.Basic

/-!
# Secondary indexes

A table has rows with an identifier and a key, and rows that are no longer live stay in it.
An index maps keys to identifiers.  It describes the rows if its entries are the keys of the
live rows with their identifiers, and no others.

An index that is built by entering every row, live or not, describes the rows if they are
coherent: a key that some row has is the key of a live one with the same identifier.

## Main definitions

* `Row`, `Entry` — rows, and the entries that an index should have.
* `Describes` — an index has exactly these.
* `build` — the index that is made by entering all rows in order.
* `Coherent` — rows whose built index describes them.
-/

namespace SecondaryIndex

/-- What an index has to do with a row. -/
structure Row (κ ι : Type*) where
  key : κ
  id : ι
  live : Bool
  deriving DecidableEq

variable {κ ι : Type*} {rows : List (Row κ ι)} {row : Row κ ι} {m m' : κ → Option ι} {k : κ} {i : ι}

/-- A live row has this key and this identifier. -/
def Entry (rows : List (Row κ ι)) (k : κ) (i : ι) : Prop :=
  ∃ row ∈ rows, row.live = true ∧ row.key = k ∧ row.id = i

/-- The index has the entries of the live rows. -/
def Describes (m : κ → Option ι) (rows : List (Row κ ι)) : Prop := ∀ k i, m k = some i ↔ Entry rows k i

theorem Describes.eq (h : Describes m rows) (h' : Describes m' rows) : m = m' := by
  funext k
  apply Option.ext
  intro i
  rw [h k i, h' k i]

theorem Describes.congr {rows' : List (Row κ ι)} (h : Describes m rows)
    (hrows : ∀ k i, Entry rows' k i ↔ Entry rows k i) : Describes m rows' := by
  intro k i
  rw [h k i, hrows k i]

/-! ## Steps that leave the entries as they are -/

theorem entry_cons : Entry (row :: rows) k i ↔
    (row.live = true ∧ row.key = k ∧ row.id = i) ∨ Entry rows k i := by
  simp [Entry]

theorem entry_perm {rows' : List (Row κ ι)} (h : rows.Perm rows') : Entry rows k i ↔ Entry rows' k i := by
  simp [Entry, h.mem_iff]

/-- A row whose entry is there. -/
theorem entry_append (h : Entry rows row.key row.id) :
    Entry (rows ++ [row]) k i ↔ Entry rows k i := by
  rw [entry_perm (List.perm_append_singleton row rows), entry_cons]
  constructor
  · rintro (⟨-, rfl, rfl⟩ | hrow)
    · exact h
    · exact hrow
  · exact .inr

/-- A row that dies while another one has its entry. -/
theorem entry_set {n : ℕ} (hrow : rows[n]? = some row)
    (h : Entry (rows.eraseIdx n) row.key row.id) :
    Entry (rows.set n { row with live := false }) k i ↔ Entry rows k i := by
  obtain ⟨hn, hget⟩ := List.getElem?_eq_some_iff.mp hrow
  rw [entry_perm (List.set_perm_cons_eraseIdx hn _), entry_cons,
    ← entry_perm (List.getElem_cons_eraseIdx_perm hn), entry_cons, hget]
  constructor
  · rintro (⟨hlive, -⟩ | hother)
    · cases hlive
    · exact .inr hother
  · rintro (⟨-, rfl, rfl⟩ | hother)
    · exact .inr h
    · exact .inr hother

/-! ## Coherent rows -/

section Coherent

variable (skip : κ → Prop)

/-- Live rows are entered; whatever is entered is also the entry of a live row; and no two live
rows with one key differ. -/
@[mk_iff]
structure Coherent (rows : List (Row κ ι)) : Prop where
  entered : ∀ row ∈ rows, row.live = true → ¬ skip row.key
  backed : ∀ row ∈ rows, ¬ skip row.key →
    ∃ row' ∈ rows, row'.live = true ∧ row'.key = row.key ∧ row'.id = row.id
  unique : ∀ row ∈ rows, ∀ row' ∈ rows, row.live = true → row'.live = true → row.key = row'.key →
    row.id = row'.id

variable {skip}

/-- Rows with the same entries, each of which only repeats one, are coherent too. -/
theorem Coherent.congr {rows' : List (Row κ ι)} (h : Coherent skip rows)
    (hentry : ∀ k i, Entry rows' k i ↔ Entry rows k i)
    (hrows : ∀ row ∈ rows', ¬ skip row.key → Entry rows row.key row.id) : Coherent skip rows' := by
  have hback : ∀ row ∈ rows', row.live = true →
      ∃ row' ∈ rows, row'.live = true ∧ row'.key = row.key ∧ row'.id = row.id := by
    intro row hmem hlive
    exact (hentry _ _).mp ⟨row, hmem, hlive, rfl, rfl⟩
  refine ⟨?_, ?_, ?_⟩
  · intro row hmem hlive
    obtain ⟨row', hmem', hlive', hkey, -⟩ := hback row hmem hlive
    rw [← hkey]
    exact h.entered row' hmem' hlive'
  · intro row hmem hskip
    exact (hentry _ _).mpr (hrows row hmem hskip)
  · intro row₁ hmem₁ row₂ hmem₂ hlive₁ hlive₂ hkey
    obtain ⟨row₁', hmem₁', hlive₁', hkey₁, hid₁⟩ := hback row₁ hmem₁ hlive₁
    obtain ⟨row₂', hmem₂', hlive₂', hkey₂, hid₂⟩ := hback row₂ hmem₂ hlive₂
    rw [← hid₁, ← hid₂]
    exact h.unique row₁' hmem₁' row₂' hmem₂' hlive₁' hlive₂' (hkey₁.trans (hkey.trans hkey₂.symm))

theorem Coherent.append (h : Coherent skip rows) (hrow : Entry rows row.key row.id) :
    Coherent skip (rows ++ [row]) := by
  refine h.congr (fun _ _ => entry_append hrow) ?_
  intro row' hmem hskip
  rcases List.mem_append.mp hmem with hmem | hmem
  · exact h.backed row' hmem hskip
  · cases List.mem_singleton.mp hmem
    exact hrow

theorem Coherent.set {n : ℕ} (h : Coherent skip rows) (hrow : rows[n]? = some row)
    (hother : Entry (rows.eraseIdx n) row.key row.id) :
    Coherent skip (rows.set n { row with live := false }) := by
  refine h.congr (fun _ _ => entry_set hrow hother) ?_
  intro row' hmem hskip
  rcases List.mem_or_eq_of_mem_set hmem with hmem | rfl
  · exact h.backed row' hmem hskip
  · exact h.backed row (List.mem_of_getElem? hrow) hskip

end Coherent

/-! ## Building an index -/

section Build

variable [DecidableEq κ] (skip : κ → Prop) [DecidablePred skip]

/-- Enter a row, unless its key is one that is not entered. -/
def enter (m : κ → Option ι) (row : Row κ ι) : κ → Option ι :=
  if skip row.key then m else Function.update m row.key (some row.id)

/-- The index of all rows. -/
def build (rows : List (Row κ ι)) : κ → Option ι := rows.foldl (enter skip) fun _ => none

instance [DecidableEq ι] (rows : List (Row κ ι)) : Decidable (Coherent skip rows) :=
  decidable_of_iff' _ (coherent_iff skip rows)

variable {skip}

theorem enter_eq_some (h : enter skip m row k = some i) :
    m k = some i ∨ (¬ skip row.key ∧ row.key = k ∧ row.id = i) := by
  by_cases hskip : skip row.key
  · rw [enter, if_pos hskip] at h
    exact .inl h
  · rw [enter, if_neg hskip] at h
    by_cases hk : k = row.key
    · subst hk
      rw [Function.update_self] at h
      exact .inr ⟨hskip, rfl, Option.some.inj h⟩
    · rw [Function.update_of_ne hk] at h
      exact .inl h

/-- An entry of a built index comes from a row. -/
theorem foldl_enter_eq_some (h : rows.foldl (enter skip) m k = some i) :
    m k = some i ∨ ∃ row ∈ rows, ¬ skip row.key ∧ row.key = k ∧ row.id = i := by
  induction rows generalizing m with
  | nil => exact .inl h
  | cons row rows ih =>
    rcases ih h with h | ⟨row', hmem, hrow'⟩
    · rcases enter_eq_some h with h | hrow
      · exact .inl h
      · exact .inr ⟨row, List.mem_cons_self, hrow⟩
    · exact .inr ⟨row', List.mem_cons_of_mem row hmem, hrow'⟩

theorem isSome_foldl_enter (h : (m k).isSome ∨ ∃ row ∈ rows, ¬ skip row.key ∧ row.key = k) :
    (rows.foldl (enter skip) m k).isSome := by
  induction rows generalizing m with
  | nil => simpa using h
  | cons row rows ih =>
    apply ih
    have henter : (m k).isSome ∨ (¬ skip row.key ∧ row.key = k) → (enter skip m row k).isSome := by
      rintro (hm | ⟨hskip, rfl⟩)
      · by_cases hskip : skip row.key
        · rwa [enter, if_pos hskip]
        · rw [enter, if_neg hskip, Function.update_apply]
          by_cases hk : k = row.key
          · rw [if_pos hk]
            rfl
          · rwa [if_neg hk]
      · rw [enter, if_neg hskip, Function.update_self]
        rfl
    rcases h with hm | ⟨row', hmem, hrow'⟩
    · exact .inl (henter (.inl hm))
    · rcases List.mem_cons.mp hmem with rfl | hmem
      · exact .inl (henter (.inr hrow'))
      · exact .inr ⟨row', hmem, hrow'⟩

theorem Coherent.describes_build (h : Coherent skip rows) : Describes (build skip rows) rows := by
  have hsound : ∀ k i, build skip rows k = some i → Entry rows k i := by
    intro k i hki
    rcases foldl_enter_eq_some hki with hnone | ⟨row, hmem, hskip, rfl, rfl⟩
    · cases hnone
    · exact h.backed row hmem hskip
  intro k i
  refine ⟨hsound k i, ?_⟩
  rintro ⟨row, hmem, hlive, rfl, rfl⟩
  obtain ⟨i, hi⟩ := Option.isSome_iff_exists.mp
    (isSome_foldl_enter (m := fun _ => none) (.inr ⟨row, hmem, h.entered row hmem hlive, rfl⟩))
  obtain ⟨row', hmem', hlive', hkey, rfl⟩ := hsound _ _ hi
  rw [h.unique row hmem row' hmem' hlive hlive' hkey.symm]
  exact hi

end Build

end SecondaryIndex

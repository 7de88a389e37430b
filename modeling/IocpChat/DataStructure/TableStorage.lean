import IocpChat.DataStructure.Table
import IocpChat.Lib.Transition

/-!
# The user table survives a restart

The table is written to, closed and opened again, or left by a crash and opened again.  A
close truncates the file to the slots that are used; after a crash the slots that were never
written are still there, and are zero.  An enciphered user id of digits is not zero, so the
end of the records is found in both cases.

A write ends with a call to `updateLFU`, which is undefined if the id is still in the cache:
by then the record is in the file.

## Main definitions

* `StorageOp`, `Table.exec` — what happens to the table.
* `SignupForm` — the lines that `signupManager` makes.
* `Survives` — the records that were written are there, and after opening the file again.
* `Image` — the memory of a table that holds some records.
-/

namespace IocpChat

open Bytes Words Transition

/-- What happens to a table.  It is opened again after it was closed or left. -/
inductive StorageOp
  | write (line : List UInt8)
  | close
  | crash

/-- The form of the lines that `signupManager` makes: seven words, the first an id of nine
digits. -/
def SignupForm (line : List UInt8) : Prop :=
  7 ≤ (words isSpace line).length ∧ (firstWord line).length = 9 ∧ (firstWord line).all isDigit

instance (line : List UInt8) : Decidable (SignupForm line) :=
  inferInstanceAs (Decidable (_ ∧ _ ∧ _))

/-- The words of an operation's line have the form. -/
def StorageOp.InForm : StorageOp → Prop
  | .write line => SignupForm line
  | .close | .crash => True

instance : DecidablePred StorageOp.InForm
  | .write line => inferInstanceAs (Decidable (SignupForm line))
  | .close | .crash => .isTrue trivial

namespace Table

section Runs

variable (env : TableEnv)

def exec (t : Table) : StorageOp → Option Table
  | .write line => (t.writeTheData env line).map Prod.snd
  | .close => some (initStorage t.flushAndClose)
  | .crash => some (initStorage t.crash)

/-- The record that an operation writes. -/
def written : StorageOp → Option UserInfo
  | .write line => newRecord env.crc32 line
  | .close | .crash => none

/-- The table holds these records and no others. -/
structure Stores (t : Table) (recs : List UserInfo) : Prop where
  currentRecords : t.currentRecords = recs.length
  getAllRecords : t.getAllRecords = recs

/-- The table holds what was written, and so does the one that is opened after it was closed
or left. -/
def Survives (ops : List StorageOp) : Prop :=
  ∃ t, Transition.run (exec env) (initStorage []) ops = some t ∧
    ∀ t' ∈ [t, initStorage t.flushAndClose, initStorage t.crash],
      t'.Stores (ops.filterMap (written env))

end Runs

/-- An id that is written is not in the cache, or is the one that is evicted. -/
def Fresh (t : Table) : StorageOp → Prop
  | .write line => fill 16 (firstWord line) ∉ t.cache.makeRoom.keyToFreq
  | .close | .crash => True

instance (t : Table) : DecidablePred t.Fresh
  | .write _ => Cache.decidableNotMem ..
  | .close | .crash => .isTrue trivial

/-! ## The memory -/

/-- The memory is the records, enciphered, and slots that are zero. -/
structure Image (t : Table) (recs : List UserInfo) : Prop where
  currentRecords : t.currentRecords = recs.length
  memory : ∃ k, t.memory = recs.map cipher ++ List.replicate k UserInfo.zero
  used : ∀ r ∈ recs, r.isDeleted = false ∧ isEmpty (cipher r) = false

variable {env : TableEnv} {t t' : Table} {recs : List UserInfo}

theorem Image.records (h : t.Image recs) : t.records = recs := by
  obtain ⟨k, hk⟩ := h.memory
  have hlen : recs.length = (recs.map cipher).length := by simp
  rw [Table.records, hk, h.currentRecords, hlen, List.take_left, List.map_map]
  simp [Function.comp_def]

theorem Image.stores (h : t.Image recs) : t.Stores recs := by
  refine ⟨h.currentRecords, ?_⟩
  rw [Table.getAllRecords, h.records, List.filter_eq_self]
  intro r hr
  simp [(h.used r hr).1]

theorem isEmpty_zero : isEmpty UserInfo.zero = true := by
  decide +kernel

theorem Image.reopen {file : List UserInfo} {k : ℕ}
    (hfile : file = recs.map cipher ++ List.replicate k UserInfo.zero)
    (hused : ∀ r ∈ recs, r.isDeleted = false ∧ isEmpty (cipher r) = false) :
    (initStorage file).Image recs := by
  subst hfile
  have htake : (recs.map cipher ++ List.replicate k UserInfo.zero).takeWhile (!isEmpty ·)
      = recs.map cipher := by
    rw [List.takeWhile_append_of_pos]
    · cases k <;> simp [List.replicate_succ, isEmpty_zero]
    · intro slot hslot
      obtain ⟨r, hr, rfl⟩ := List.mem_map.mp hslot
      simp [(hused r hr).2]
  refine ⟨?_, ?_, hused⟩
  · rw [currentRecords_initStorage, htake, List.length_map]
  · obtain ⟨k', hk'⟩ := memory_initStorage (recs.map cipher ++ List.replicate k UserInfo.zero)
    refine ⟨k + k', ?_⟩
    rw [hk', List.append_assoc, List.replicate_add]

theorem Image.close (h : t.Image recs) : (initStorage t.flushAndClose).Image recs := by
  obtain ⟨k, hk⟩ := h.memory
  have hfile : t.flushAndClose = recs.map cipher ++ List.replicate 0 UserInfo.zero := by
    have hlen : recs.length = (recs.map cipher).length := by simp
    rw [flushAndClose, hk, h.currentRecords, hlen, List.take_left]
    simp
  exact Image.reopen hfile h.used

theorem Image.crash (h : t.Image recs) : (initStorage t.crash).Image recs := by
  obtain ⟨k, hk⟩ := h.memory
  exact Image.reopen hk h.used

theorem Image.store {r : UserInfo} (h : t.Image recs) (hdel : r.isDeleted = false)
    (hused : isEmpty (cipher r) = false) : (t.store env r.uid (cipher r)).Image (recs ++ [r]) := by
  refine ⟨?_, ?_, ?_⟩
  · rw [List.length_append, ← h.currentRecords]
    rfl
  · obtain ⟨k, hk⟩ := h.memory
    obtain ⟨k', hk'⟩ := t.memory_ensureCapacity (t.currentRecords + 1)
    have hle := t.le_ensureCapacity (t.currentRecords + 1)
    rw [hk, List.append_assoc, ← List.replicate_add] at hk'
    rw [hk', h.currentRecords] at hle
    -- There is a slot that is zero.
    obtain ⟨m, hm⟩ : ∃ m, k + k' = m + 1 := Nat.exists_eq_add_one.mpr (by simp at hle; omega)
    refine ⟨m, ?_⟩
    have hmemory : (t.store env r.uid (cipher r)).memory
        = (t.ensureCapacity (t.currentRecords + 1)).memory.set t.currentRecords (cipher r) := rfl
    rw [hmemory, hk', h.currentRecords, hm, List.set_append_right _ _ (by simp)]
    simp [List.replicate_succ]
  · exact List.forall_mem_append.mpr ⟨h.used, List.forall_mem_singleton.mpr ⟨hdel, hused⟩⟩

/-! ## Writes -/

theorem isEmpty_of_form {line : List UInt8} {r : UserInfo} (hform : SignupForm line)
    (hr : newRecord env.crc32 line = some r) : isEmpty (cipher r) = false := by
  obtain ⟨-, hlen, hdigits⟩ := hform
  cases hword : firstWord line with
  | nil =>
    rw [hword] at hlen
    cases hlen
  | cons d word =>
    have huid : Field.userId.get r
        = d :: (word.take 15 ++ List.replicate (16 - (word.length + 1)) 0) := by
      have huid := uid_newRecord hr
      rwa [hword, fill, List.take_succ_cons, List.cons_append] at huid
    have hd : d ^^^ encKey.getD (0 % 16) 0 ≠ 0 := by
      intro h0
      rw [hword, UInt8.xor_eq_zero_iff.mp h0] at hdigits
      cases hdigits
    rw [isEmpty, UserInfo.uid, get_cipher, huid, List.zipIdx_cons, List.map_cons, List.all_cons]
    simp only [Bool.and_eq_false_iff, decide_eq_false_iff_not]
    exact .inl hd

/-- A line in the form describes a record, and its id decides whether the write is defined. -/
theorem isSome_exec_iff (t : Table) {op : StorageOp} (hform : op.InForm) :
    (t.exec env op).isSome ↔ t.Fresh op := by
  cases op with
  | write line =>
    obtain ⟨r, hr⟩ := exists_newRecord env.crc32 hform.1
    rw [exec, writeTheData, hr, Fresh, ← uid_newRecord hr]
    by_cases h : r.uid ∈ t.cache.makeRoom.keyToFreq
    · simp [touch, Cache.updateLFU_of_mem h, h]
    · simp [touch, Cache.updateLFU_of_not_mem h, h]
  | close | crash => simp [exec, Fresh]

theorem Image.of_touch {cache : Cache} {key : Key} {value : UserInfo} (h : t.Image recs)
    (htouch : t.touch cache key value = some t') : t'.Image recs := by
  obtain ⟨_, -, rfl⟩ := Option.map_eq_some_iff.mp htouch
  exact ⟨h.currentRecords, h.memory, h.used⟩

theorem Image.exec {op : StorageOp} (h : t.Image recs) (hform : op.InForm)
    (hexec : t.exec env op = some t') : t'.Image (recs ++ (written env op).toList) := by
  cases op with
  | write line =>
    obtain ⟨r, hr⟩ := exists_newRecord env.crc32 hform.1
    obtain ⟨⟨ok, _⟩, hwrite, rfl⟩ := Option.map_eq_some_iff.mp hexec
    rw [writeTheData, hr] at hwrite
    obtain ⟨_, htouch, heq⟩ := Option.map_eq_some_iff.mp hwrite
    cases heq
    rw [written, hr]
    exact (h.store (isDeleted_newRecord hr) (isEmpty_of_form hform hr)).of_touch htouch
  | close =>
    cases hexec
    simpa [written] using h.close
  | crash =>
    cases hexec
    simpa [written] using h.crash

theorem Image.run {ops : List StorageOp} (h : t.Image recs) (hform : ∀ op ∈ ops, op.InForm)
    (hrun : Transition.run (Table.exec env) t ops = some t') :
    t'.Image (recs ++ ops.filterMap (written env)) := by
  induction ops generalizing t recs with
  | nil =>
    cases hrun
    simpa using h
  | cons op ops ih =>
    obtain ⟨t₁, hexec, hrun⟩ := exists_of_run hrun
    have hone := h.exec (hform op List.mem_cons_self) hexec
    have hrest := ih hone (fun op hop => hform op (List.mem_cons_of_mem _ hop)) hrun
    rw [List.append_assoc] at hrest
    cases hw : written env op with
    | none | some => simpa [hw] using hrest

theorem image_of_run {ops : List StorageOp} (hform : ∀ op ∈ ops, op.InForm)
    (hrun : Transition.run (Table.exec env) (initStorage []) ops = some t) :
    t.Image (ops.filterMap (written env)) := by
  have hempty : (initStorage []).Image [] := Image.reopen (k := 0) rfl (by simp)
  simpa using hempty.run hform hrun

/-- **Restart.**  What was written survives every restart if and only if no id is written that
is still in the cache. -/
theorem survives_iff_fresh (env : TableEnv) (ops : List StorageOp)
    (hform : ∀ op ∈ ops, op.InForm) :
    Survives env ops ↔ Meets (exec env) Fresh (initStorage []) ops := by
  rw [← isSome_run_iff_meets fun op hop t => t.isSome_exec_iff (hform op hop)]
  constructor
  · rintro ⟨t, hrun, -⟩
    rw [hrun]
    rfl
  · intro hsome
    obtain ⟨t, hrun⟩ := Option.isSome_iff_exists.mp hsome
    have hfinal := image_of_run hform hrun
    refine ⟨t, hrun, ?_⟩
    intro t' ht'
    simp at ht'
    rcases ht' with rfl | rfl | rfl
    · exact hfinal.stores
    · exact hfinal.close.stores
    · exact hfinal.crash.stores

/-- The lines of two users, and a line of another user with the id of the first. -/
def sampleLine (i : Fin 3) : List UInt8 :=
  text (["123456789 bob h1 bob@a.com TRUE 11 TRUE", "234567891 eve h2 eve@a.com TRUE 22 TRUE",
    "123456789 joe h3 joe@a.com TRUE 33 TRUE"].get i)

/-- An id that comes again after the table was opened again does no harm. -/
theorem survives_iff_fresh_restart :
    (∀ op ∈ [StorageOp.write (sampleLine 0), .crash, .write (sampleLine 1), .write (sampleLine 2),
      .close], op.InForm) ∧
      Survives (.fixed false) [.write (sampleLine 0), .crash, .write (sampleLine 1),
        .write (sampleLine 2), .close] :=
  ⟨by decide +kernel, (survives_iff_fresh _ _ (by decide +kernel)).mpr (by decide +kernel)⟩

/-- Two users with the same id: the second write is undefined. -/
theorem not_survives_same_id :
    (∀ op ∈ [StorageOp.write (sampleLine 0), .write (sampleLine 2)], op.InForm) ∧
      ¬ Survives (.fixed false) [.write (sampleLine 0), .write (sampleLine 2)] := by
  refine ⟨by decide +kernel, ?_⟩
  rintro ⟨t, hrun, -⟩
  have hnone : (Transition.run (exec (.fixed false)) (initStorage [])
      [.write (sampleLine 0), .write (sampleLine 2)]).isSome = false := by
    decide +kernel
  rw [hrun] at hnone
  cases hnone

end Table

end IocpChat

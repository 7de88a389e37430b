import IocpChat.DataStructure.Table
import IocpChat.Lib.SecondaryIndex
import IocpChat.Lib.Transition

/-!
# The indexes of the user table

`emailToUid` and `phoneToUid` are filled by `loadIndex`.  After that no operation enters what it
should: `writeTheData` enters the enciphered email and phone hash, or nothing, as the undefined
reads of the enciphered flag will have it; `updateTheData` does not mention the indexes; and
`deleteData` erases the user id, which is not what they are indexed by.  So they describe the
stored records for as long as the operations leave the entries as they are, whatever those reads
find.

## Main definitions

* `TableOp`, `Table.succeed` — calls that succeed.
* `Table.Described` — the indexes describe the live records, also after a reload.
* `Table.Unambiguous` — records whose indexes, as `loadIndex` makes them, describe them.
* `Table.Repeats` — a call repeats entries that are there.
-/

namespace IocpChat

open Bytes Words Transition SecondaryIndex

/-- The calls that change a table. -/
inductive TableOp
  | write (line : List UInt8)
  | update (line : List UInt8)
  | delete (identifier : Key)

namespace Table

/-- The table after a call that succeeds. -/
def succeed (env : TableEnv) (t : Table) : TableOp → Option Table
  | .write line => (t.writeTheData env line).bind fun (ok, t') => if ok then some t' else none
  | .update line => (t.updateTheData env line).bind fun (ok, t') => if ok then some t' else none
  | .delete identifier =>
    let (ok, t') := t.deleteData env identifier
    if ok then some t' else none

/-- The indexes have the email and the phone hash of each live record with its user id, and
nothing else.  So has the table that is opened after this one is closed. -/
structure Described (t : Table) : Prop where
  emails : ∀ e uid, t.emailToUid e = some uid ↔ ∃ r ∈ t.getAllRecords, r.email = e ∧ r.uid = uid
  phones : ∀ p uid, t.phoneToUid p = some uid ↔ ∃ r ∈ t.getAllRecords, r.phone = p ∧ r.uid = uid
  reloadEmails : (initStorage t.flushAndClose).emailToUid = t.emailToUid
  reloadPhones : (initStorage t.flushAndClose).phoneToUid = t.phoneToUid
  signedUp : ∀ e, isAlreadySignup t e = true ↔ ∃ r ∈ t.getAllRecords, r.email = e

/-! ## Rows -/

/-- The row of a record in an index by a member. -/
def row (key : UserInfo → Key) (r : UserInfo) : Row Key Key := ⟨key r, r.uid, !r.isDeleted⟩

/-- Every live record has an email.  What any record has for an email or a phone hash, some
live record with the same user id has, and no live record with another user id.  The flag of a
deleted record is that of a `bool`. -/
def Unambiguous (recs : List UserInfo) : Prop :=
  Coherent (· = []) (recs.map (row UserInfo.email)) ∧
    Coherent (· = []) (recs.map (row UserInfo.phone)) ∧
    ∀ r ∈ recs, r.isDeleted = true → Field.isDeleted.get r = [1]

instance (recs : List UserInfo) : Decidable (Unambiguous recs) :=
  have := List.decidableBAll (fun r : UserInfo => r.isDeleted = true → Field.isDeleted.get r = [1]) recs
  inferInstanceAs (Decidable (_ ∧ _ ∧ _))

/-- A call that repeats entries.  A record is written for a user id that its email and phone
hash already belong to, plain and enciphered; a live record is updated to one with the same email
and phone hash; of several live records that agree in all three, one is deleted, and its user id
is not itself indexed. -/
def Repeats (env : TableEnv) (t : Table) : TableOp → Prop
  | .write line => ∀ r ∈ newRecord env.crc32 line,
      t.emailToUid r.email = some r.uid ∧ t.phoneToUid r.phone = some r.uid ∧
        ((cipher r).email = [] ∨ t.emailToUid (cipher r).email = some r.uid) ∧
        t.phoneToUid (cipher r).phone = some r.uid
  | .update line => ∀ r ∈ newRecord env.crc32 line, ∀ i ∈ t.pageNum r.uid, ∀ o ∈ t.recordAt i,
      o.isDeleted = false ∧ o.email = r.email ∧ o.phone = r.phone
  | .delete identifier =>
    t.emailToUid (t.resolve identifier) = none ∧ t.phoneToUid (t.resolve identifier) = none ∧
      ∀ i ∈ t.pageNum (t.resolve identifier), ∀ o ∈ t.recordAt i,
        ∃ r ∈ t.records.eraseIdx i,
          r.isDeleted = false ∧ r.email = o.email ∧ r.phone = o.phone ∧ r.uid = o.uid

instance (env : TableEnv) (t : Table) (op : TableOp) : Decidable (t.Repeats env op) := by
  cases op with
  | write line => exact Option.decidableForallMem (newRecord env.crc32 line)
  | update line =>
    have hrecord (r : UserInfo) (i : ℕ) := Option.decidableForallMem (t.recordAt i)
      (p := fun o => o.isDeleted = false ∧ o.email = r.email ∧ o.phone = r.phone)
    have hpage (r : UserInfo) := Option.decidableForallMem (t.pageNum r.uid)
      (p := fun i => ∀ o ∈ t.recordAt i, o.isDeleted = false ∧ o.email = r.email ∧ o.phone = r.phone)
    exact Option.decidableForallMem (newRecord env.crc32 line)
  | delete identifier =>
    have hother (i : ℕ) (o : UserInfo) := List.decidableBEx
      (fun r : UserInfo =>
        r.isDeleted = false ∧ r.email = o.email ∧ r.phone = o.phone ∧ r.uid = o.uid)
      (t.records.eraseIdx i)
    have hrecord (i : ℕ) := Option.decidableForallMem (t.recordAt i)
      (p := fun o => ∃ r ∈ t.records.eraseIdx i,
        r.isDeleted = false ∧ r.email = o.email ∧ r.phone = o.phone ∧ r.uid = o.uid)
    have hpage := Option.decidableForallMem (t.pageNum (t.resolve identifier))
      (p := fun i => ∀ o ∈ t.recordAt i, ∃ r ∈ t.records.eraseIdx i,
        r.isDeleted = false ∧ r.email = o.email ∧ r.phone = o.phone ∧ r.uid = o.uid)
    exact instDecidableAnd

variable {env : TableEnv} {t t' : Table} {recs : List UserInfo}

/-! ## One index -/

/-- The records are coherent in an index, and the index describes them. -/
structure Maintained (key : UserInfo → Key) (m : Key → Option Key) (recs : List UserInfo) : Prop where
  coherent : Coherent (· = []) (recs.map (row key))
  describes : Describes m (recs.map (row key))

section Index

variable {key : UserInfo → Key} {m : Key → Option Key} {r o : UserInfo} {i : ℕ}

theorem entry_row {k uid : Key} : Entry (recs.map (row key)) k uid ↔
    ∃ r ∈ recs.filter (fun r => !r.isDeleted), key r = k ∧ r.uid = uid := by
  simp [Entry, row, and_assoc]

/-- `loadIndex` enters all rows into an index. -/
theorem index_loadIndex (m : Table → Key → Option Key)
    (hindex : ∀ t i r, m (t.index i r) = enter (· = []) (m t) (row key r))
    (hcount : ∀ t i, m { t with currentRecords := i } = m t) (t : Table) (i : ℕ)
    (slots : List UserInfo) :
    m (t.loadIndex i slots)
      = (((slots.takeWhile (!isEmpty ·)).map cipher).map (row key)).foldl (enter (· = [])) (m t) := by
  induction slots generalizing t i with
  | nil => exact hcount t i
  | cons slot slots ih =>
    rw [loadIndex]
    by_cases hslot : isEmpty slot
    · simp [hslot, hcount]
    · simp [hslot, ih, hindex]

theorem Maintained.append (h : Maintained key m recs) (hr : m (key r) = some r.uid) :
    Maintained key m (recs ++ [r]) := by
  have hentry := (h.describes _ _).mp hr
  refine ⟨?_, ?_⟩
  · rw [List.map_append]
    exact h.coherent.append hentry
  · rw [List.map_append]
    exact h.describes.congr fun _ _ => entry_append hentry

theorem Maintained.update (h : Maintained key m recs) (ho : recs[i]? = some o)
    (hrow : row key o = row key r) : Maintained key m (recs.set i r) := by
  obtain ⟨hi, hget⟩ := List.getElem?_eq_some_iff.mp ho
  have hrows : (recs.set i r).map (row key) = recs.map (row key) := by
    have hi' : i < (recs.map (row key)).length := by simpa using hi
    have hself : row key r = (recs.map (row key))[i] := by
      rw [List.getElem_map, hget, hrow]
    rw [List.map_set, hself, List.set_getElem_self]
  exact ⟨by rw [hrows]; exact h.coherent, by rw [hrows]; exact h.describes⟩

theorem Maintained.delete (h : Maintained key m recs) (ho : recs[i]? = some o)
    (hrow : row key r = { row key o with live := false })
    (hother : ∃ r ∈ recs.eraseIdx i, r.isDeleted = false ∧ key r = key o ∧ r.uid = o.uid) :
    Maintained key m (recs.set i r) := by
  have hrow' : (recs.map (row key))[i]? = some (row key o) := by
    rw [List.getElem?_map, ho]
    rfl
  have hentry : Entry ((recs.map (row key)).eraseIdx i) (key o) o.uid := by
    obtain ⟨r', hr', hlive, hkey, huid⟩ := hother
    rw [List.eraseIdx_map]
    exact ⟨row key r', List.mem_map_of_mem hr', by simp [row, hlive], hkey, huid⟩
  refine ⟨?_, ?_⟩
  · rw [List.map_set, hrow]
    exact h.coherent.set hrow' hentry
  · rw [List.map_set, hrow]
    exact h.describes.congr fun _ _ => entry_set hrow' hentry

end Index

/-! ## The invariant -/

/-- Both indexes are maintained, and no record looks like an empty slot in the file. -/
structure Indexed (t : Table) : Prop where
  sound : t.Sound
  emails : Maintained UserInfo.email t.emailToUid t.records
  phones : Maintained UserInfo.phone t.phoneToUid t.records
  used : ∀ r ∈ t.records, isEmpty (cipher r) = false

theorem indexed_initStorage {file : List UserInfo}
    (hemail : Coherent (· = []) ((initStorage file).records.map (row UserInfo.email)))
    (hphone : Coherent (· = []) ((initStorage file).records.map (row UserInfo.phone))) :
    (initStorage file).Indexed := by
  have hemails : (initStorage file).emailToUid
      = build (· = []) ((initStorage file).records.map (row UserInfo.email)) := by
    rw [records_initStorage]
    exact index_loadIndex Table.emailToUid (fun _ _ _ => rfl) (fun _ _ => rfl) (mapped file) 0 file
  have hphones : (initStorage file).phoneToUid
      = build (· = []) ((initStorage file).records.map (row UserInfo.phone)) := by
    rw [records_initStorage]
    exact index_loadIndex Table.phoneToUid (fun _ _ _ => rfl) (fun _ _ => rfl) (mapped file) 0 file
  refine ⟨sound_initStorage file, ⟨hemail, ?_⟩, ⟨hphone, ?_⟩, ?_⟩
  · rw [hemails]
    exact hemail.describes_build
  · rw [hphones]
    exact hphone.describes_build
  · intro r hr
    rw [records_initStorage] at hr
    obtain ⟨slot, hslot, rfl⟩ := List.mem_map.mp hr
    simpa using List.mem_takeWhile_imp hslot

theorem Indexed.records_reload (h : t.Indexed) :
    (initStorage t.flushAndClose).records = t.records := by
  rw [records_initStorage, flushAndClose, records]
  congr 1
  rw [List.takeWhile_eq_self_iff]
  intro slot hslot
  have hused := h.used (cipher slot) (List.mem_map_of_mem hslot)
  rw [cipher_cipher] at hused
  simp [hused]

theorem Indexed.described (h : t.Indexed) : t.Described := by
  have hemails : ∀ e uid, t.emailToUid e = some uid ↔
      ∃ r ∈ t.getAllRecords, r.email = e ∧ r.uid = uid := fun e uid =>
    (h.emails.describes e uid).trans entry_row
  have hreload : (initStorage t.flushAndClose).Indexed := by
    apply indexed_initStorage
    · rw [h.records_reload]
      exact h.emails.coherent
    · rw [h.records_reload]
      exact h.phones.coherent
  have hreloadEmails := hreload.emails.describes
  have hreloadPhones := hreload.phones.describes
  rw [h.records_reload] at hreloadEmails hreloadPhones
  refine ⟨hemails, fun p uid => (h.phones.describes p uid).trans entry_row,
    hreloadEmails.eq h.emails.describes, hreloadPhones.eq h.phones.describes, ?_⟩
  intro e
  rw [isAlreadySignup, Option.isSome_iff_exists]
  constructor
  · rintro ⟨uid, huid⟩
    obtain ⟨r, hr, he, -⟩ := (hemails e uid).mp huid
    exact ⟨r, hr, he⟩
  · rintro ⟨r, hr, he⟩
    exact ⟨r.uid, (hemails e r.uid).mpr ⟨r, hr, he, rfl⟩⟩

/-! ## Steps -/

theorem ite_update_eq_self {p : Prop} [Decidable p] {m : Key → Option Key} {key uid : Key}
    (h : p ∨ m key = some uid) : (if p then m else Function.update m key (some uid)) = m := by
  split
  · rfl
  · exact Function.update_eq_self_iff.mpr (h.resolve_left ‹_›).symm

theorem Indexed.store {r : UserInfo} (h : t.Indexed)
    (hemail : t.emailToUid r.email = some r.uid) (hphone : t.phoneToUid r.phone = some r.uid)
    (hemail' : (cipher r).email = [] ∨ t.emailToUid (cipher r).email = some r.uid)
    (hphone' : t.phoneToUid (cipher r).phone = some r.uid) :
    (t.store env r.uid (cipher r)).Indexed := by
  have hrecords : (t.store env r.uid (cipher r)).records = t.records ++ [r] := by
    rw [records_store h.sound.fits, cipher_cipher]
  have hemails : (t.store env r.uid (cipher r)).emailToUid = t.emailToUid :=
    ite_update_eq_self (hemail'.imp_left .inl)
  have hphones : (t.store env r.uid (cipher r)).phoneToUid = t.phoneToUid :=
    ite_update_eq_self (.inr hphone')
  refine ⟨h.sound.store env r, ?_, ?_, ?_⟩
  · rw [hrecords, hemails]
    exact h.emails.append hemail
  · rw [hrecords, hphones]
    exact h.phones.append hphone
  · intro r' hr'
    rw [hrecords] at hr'
    rcases List.mem_append.mp hr' with hr' | hr'
    · exact h.used r' hr'
    · cases List.mem_singleton.mp hr'
      -- Another record has the same id.
      obtain ⟨o, ho, -, huid⟩ := entry_row.mp ((h.phones.describes _ _).mp hphone)
      rw [← isEmpty_cipher_congr huid]
      exact h.used o (List.mem_of_mem_filter ho)

theorem Indexed.used_set {i : ℕ} {o r : UserInfo} (h : t.Indexed) (ho : t.records[i]? = some o)
    (huid : o.uid = r.uid) : ∀ r' ∈ t.records.set i r, isEmpty (cipher r') = false := by
  intro r' hr'
  rcases List.mem_or_eq_of_mem_set hr' with hr' | rfl
  · exact h.used r' hr'
  · rw [← isEmpty_cipher_congr huid]
    exact h.used o (List.mem_of_getElem? ho)

theorem Indexed.update {i : ℕ} {o r : UserInfo} {cache : Cache} (h : t.Indexed)
    (hdel : r.isDeleted = false) (hpage : t.pageNum r.uid = some i) (ho : t.recordAt i = some o)
    (hlive : o.isDeleted = false) (hemail : o.email = r.email) (hphone : o.phone = r.phone) :
    { t with memory := t.memory.set i (cipher r), cache }.Indexed := by
  have hrecords : { t with memory := t.memory.set i (cipher r), cache }.records = t.records.set i r := by
    have hset := t.records_set i (cipher r)
    rw [cipher_cipher] at hset
    exact hset
  rw [h.sound.recordAt hpage] at ho
  obtain ⟨o', ho', huid⟩ := h.sound.page _ _ hpage
  cases ho.symm.trans ho'
  have hsound := h.sound.set hpage rfl
  refine ⟨⟨hsound.fits, hsound.page⟩, ?_, ?_, ?_⟩
  · rw [hrecords]
    exact h.emails.update ho (by rw [row, row, hemail, huid, hlive, hdel])
  · rw [hrecords]
    exact h.phones.update ho (by rw [row, row, hphone, huid, hlive, hdel])
  · rw [hrecords]
    exact h.used_set ho huid

theorem Indexed.markDeleted {i : ℕ} {uid : Key} {o : UserInfo} (h : t.Indexed)
    (hpage : t.pageNum uid = some i) (ho : t.recordAt i = some o)
    (hemail : t.emailToUid uid = none) (hphone : t.phoneToUid uid = none)
    (hother : ∃ r ∈ t.records.eraseIdx i,
      r.isDeleted = false ∧ r.email = o.email ∧ r.phone = o.phone ∧ r.uid = o.uid) :
    (t.markDeleted env uid i o).Indexed := by
  have hsound := h.sound.markDeleted env hpage ho
  have hrecords : (t.markDeleted env uid i o).records = t.records.set i (finish env.crc32 true o) := by
    have hset := t.records_set i (cipher (finish env.crc32 true o))
    rw [cipher_cipher] at hset
    exact hset
  have hemails : (t.markDeleted env uid i o).emailToUid = t.emailToUid :=
    Function.update_eq_self_iff.mpr hemail.symm
  have hphones : (t.markDeleted env uid i o).phoneToUid = t.phoneToUid :=
    Function.update_eq_self_iff.mpr hphone.symm
  have hrow : ∀ key : UserInfo → Key, key (finish env.crc32 true o) = key o →
      row key (finish env.crc32 true o) = { row key o with live := false } := by
    intro key hkey
    rw [row, row, hkey, uid_finish, isDeleted_finish]
    rfl
  rw [h.sound.recordAt hpage] at ho
  obtain ⟨r, hr, hlive, hre, hrp, hru⟩ := hother
  refine ⟨hsound, ?_, ?_, ?_⟩
  · rw [hrecords, hemails]
    exact h.emails.delete ho (hrow _ (by rw [UserInfo.email, get_finish (by decide)]; rfl))
      ⟨r, hr, hlive, hre, hru⟩
  · rw [hrecords, hphones]
    exact h.phones.delete ho (hrow _ (get_finish (by decide))) ⟨r, hr, hlive, hrp, hru⟩
  · rw [hrecords]
    exact h.used_set ho (uid_finish true o).symm

theorem Indexed.succeed {op : TableOp} (h : t.Indexed) (hrepeats : t.Repeats env op)
    (hstep : t.succeed env op = some t') : t'.Indexed := by
  cases op with
  | write line =>
    obtain ⟨⟨ok, t₁⟩, hwrite, hok⟩ := Option.bind_eq_some_iff.mp hstep
    rcases writeTheData_eq_some hwrite with ⟨rfl, rfl⟩ | ⟨rfl, r, cache, hr, -, rfl⟩
    · cases hok
    · cases hok
      obtain ⟨hemail, hphone, hemail', hphone'⟩ := hrepeats r hr
      have hstore : (t.store env r.uid (cipher r)).Indexed := h.store hemail hphone hemail' hphone'
      exact ⟨⟨hstore.sound.fits, hstore.sound.page⟩, hstore.emails, hstore.phones, hstore.used⟩
  | update line =>
    obtain ⟨⟨ok, t₁⟩, hupdate, hok⟩ := Option.bind_eq_some_iff.mp hstep
    rcases updateTheData_eq_some hupdate with ⟨rfl, rfl⟩ | ⟨rfl, r, i, cache, hr, hpage, -, rfl⟩
    · cases hok
    · cases hok
      obtain ⟨o, ho, -⟩ := h.sound.page _ _ hpage
      rw [← h.sound.recordAt hpage] at ho
      obtain ⟨hlive, hemail, hphone⟩ := hrepeats r hr i hpage o ho
      exact h.update (isDeleted_newRecord hr) hpage ho hlive hemail hphone
  | delete identifier =>
    cases hdelete : t.deleteData env identifier with
    | mk ok t₁ =>
      simp only [Table.succeed, hdelete] at hstep
      rcases deleteData_eq hdelete with ⟨rfl, rfl⟩ | ⟨rfl, i, o, hpage, ho, -, rfl⟩
      · cases hstep
      · cases hstep
        obtain ⟨hemail, hphone, hother⟩ := hrepeats
        exact h.markDeleted hpage ho hemail hphone (hother i hpage o ho)

/-- **Indexes.**  On a table opened on a file whose records are unambiguous, the indexes
describe the live records in every state that calls reach which repeat entries. -/
theorem described_of_repeats (env : TableEnv) (file : List UserInfo)
    (hfile : Unambiguous (initStorage file).records) (t : Table)
    (hreach : Reaches (succeed env) (Repeats env) (initStorage file) t) : t.Described := by
  have hindexed : t.Indexed := by
    apply hreach.invariant
    · exact indexed_initStorage hfile.1 hfile.2.1
    · intro t op t' _ h hrepeats hstep
      exact h.succeed hrepeats hstep
  exact hindexed.described

/-- A line of one user, with another name each time. -/
def bobLine (name : String) : List UInt8 :=
  text ("123456789 " ++ name ++ " h1 bob@a.com TRUE 11 TRUE")

/-- The file with the record of that user, after one with its email and phone hash enciphered. -/
def bobFile : List UserInfo :=
  (newRecord (fun _ => 0) (bobLine "bob")).elim [] fun r =>
    [r |> Field.email.put (Field.email.get (cipher r))
      |> Field.phoneHash.put (Field.phoneHash.get (cipher r)) |> cipher, cipher r]

/-- The record is updated, written once more, and the new one is deleted. -/
theorem described_of_repeats_bob :
    Unambiguous (initStorage bobFile).records ∧
      ∃ t, Transition.run (succeed (.fixed false)) (initStorage bobFile)
        [.update (bobLine "bobby"), .write (bobLine "rob"), .delete (text "bob@a.com")] = some t ∧
        t.Described := by
  have hfile : Unambiguous (initStorage bobFile).records := by decide +kernel
  obtain ⟨t, hrun, -⟩ := exists_run (succeed (.fixed false)) (initStorage bobFile)
    [.update (bobLine "bobby"), .write (bobLine "rob"), .delete (text "bob@a.com")]
    (fun t => t.getAllRecords.length = 2) (by decide +kernel)
  exact ⟨hfile, t, hrun, described_of_repeats _ _ hfile t (reaches_of_run (by decide +kernel) hrun)⟩

/-- The first user who signs up is not found in the index, whatever the reads of the flag find. -/
theorem exists_not_described (flag : Bool) :
    ∃ t, Transition.run (succeed (.fixed flag)) (initStorage []) [.write (bobLine "bob")] = some t ∧
      ¬ t.Described := by
  obtain ⟨t, hrun, hmem, hnone⟩ := exists_run (succeed (.fixed flag)) (initStorage [])
    [.write (bobLine "bob")]
    (fun t => t.getAllRecords.map UserInfo.email = [text "bob@a.com"] ∧
      isAlreadySignup t (text "bob@a.com") = false)
    (by cases flag <;> decide +kernel)
  refine ⟨t, hrun, ?_⟩
  intro h
  have hemail : text "bob@a.com" ∈ t.getAllRecords.map UserInfo.email := by
    rw [hmem]
    exact List.mem_singleton_self _
  have hsigned := (h.signedUp (text "bob@a.com")).mpr (List.mem_map.mp hemail)
  rw [hnone] at hsigned
  cases hsigned

theorem not_described_write :
    (∃ t, Transition.run (succeed (.fixed true)) (initStorage []) [.write (bobLine "bob")] = some t ∧
      ¬ t.Described) ∧
    ∃ t, Transition.run (succeed (.fixed false)) (initStorage []) [.write (bobLine "bob")] = some t ∧
      ¬ t.Described :=
  ⟨exists_not_described true, exists_not_described false⟩

end Table

end IocpChat

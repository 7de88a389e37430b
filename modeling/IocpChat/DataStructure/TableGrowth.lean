import IocpChat.DataStructure.TableCache

/-!
# The user table when the file cannot be mapped

The file is mapped by a call of `CreateFileMapping` and one of `MapViewOfFile`, when the table
is opened and when it has to grow.  Each of them may fail.  The size is passed to the first in
32 bits and to the second as it is, so a view of 4 GB or more is refused.  Sizes are taken to be
in the range of `size_t`, and the file is taken to be open.

`ensureCapacity` unmaps the file and sets the new capacity before it maps the file again.  If
that fails, the capacity says that there is room and there is no mapping.  The next call is told
that there is room, and writes to null.

## Main definitions

* `Attempt`, `View` — what the system answers, and what `mappedMemory` is then.
* `MappedTable`, `MappedTable.call` — the table with its mapping, and calls on it.
* `MappedTable.Usable` — the table can be used whatever fails.
* `MappedTable.Grows` — a call that needs more room gets it.
* `MappedTable.full` — a table whose slots are all mapped.
-/

namespace IocpChat

open Bytes Words Transition

/-! ## Mappings -/

/-- The number of values of a `DWORD`. -/
def dwordRange : ℕ := 4294967296

/-- What the system answers when a file is mapped: whether `CreateFileMapping` and then
`MapViewOfFile` succeed, if what they are asked for can be had. -/
structure Attempt where
  create : Bool
  view : Bool

/-- `mappedMemory`: null, the address of a view that was unmapped, or that of a view of so many
bytes. -/
inductive View
  | null
  | stale
  | mapped (bytes : ℕ)
  deriving DecidableEq

/-- There is a view, and so many records are in it. -/
def View.Covers : View → ℕ → Prop
  | .mapped bytes, n => n * recordSize ≤ bytes
  | .null, _ | .stale, _ => False

instance : ∀ (v : View) (n : ℕ), Decidable (v.Covers n)
  | .mapped bytes, n => inferInstanceAs (Decidable (n * recordSize ≤ bytes))
  | .null, _ | .stale, _ => .isFalse id

theorem View.covers_mapped {m n : ℕ} (h : n ≤ m) : (View.mapped (m * recordSize)).Covers n :=
  Nat.mul_le_mul_right recordSize h

theorem View.Covers.mono {v : View} {m n : ℕ} (h : v.Covers n) (hle : m ≤ n) : v.Covers m := by
  cases v with
  | mapped bytes => exact (Nat.mul_le_mul_right recordSize hle).trans h
  | null | stale => exact h

/-- The size of the mapping that `CreateFileMapping` makes.  It is asked for as a `DWORD`, and
zero stands for the size of the file. -/
def objectSize (file : List UserInfo) (mappedSize : ℕ) : ℕ :=
  if mappedSize % dwordRange = 0 then file.length * recordSize else mappedSize % dwordRange

/-- The file and `mappedMemory` after the file was mapped with room for so many records.  The
file grows with the mapping; a view that is larger than the mapping is refused. -/
def mapFile (file : List UserInfo) (capacity : ℕ) (os : Attempt) (old : View) :
    List UserInfo × View :=
  let mappedSize := capacity * recordSize
  if os.create then
    (Table.grow file (mappedSize % dwordRange / recordSize),
      if os.view ∧ mappedSize ≤ objectSize file mappedSize then .mapped mappedSize else .null)
  else (file, old)

/-- Room for so many records can be mapped, and is. -/
def Attempt.Maps (os : Attempt) (file : List UserInfo) (capacity : ℕ) : Prop :=
  os.create ∧ os.view ∧ capacity * recordSize ≤ objectSize file (capacity * recordSize)

instance (os : Attempt) (file : List UserInfo) (capacity : ℕ) : Decidable (os.Maps file capacity) :=
  inferInstanceAs (Decidable (_ ∧ _ ∧ _))

section Mappings

variable {file : List UserInfo} {capacity : ℕ} {os : Attempt}

/-- A view of 4 GB or more can only be had if its size is a multiple of that and the file is
large enough already. -/
theorem le_objectSize_iff {size : ℕ} : size ≤ objectSize file size ↔
    size < dwordRange ∨ size % dwordRange = 0 ∧ size ≤ file.length * recordSize := by
  rw [objectSize, dwordRange]
  by_cases h : size % 4294967296 = 0
  · rw [if_pos h]
    omega
  · rw [if_neg h]
    omega

theorem snd_mapFile (file : List UserInfo) (capacity : ℕ) (os : Attempt) (old : View) :
    (mapFile file capacity os old).2 =
      if os.Maps file capacity then .mapped (capacity * recordSize)
      else if os.create then .null else old := by
  obtain ⟨create, view⟩ := os
  cases create with
  | false | true => simp [mapFile, Attempt.Maps]

/-- When the file is mapped with room for more, its slots are those of the mapping. -/
theorem mapFile_of_maps (old : View) (h : os.Maps file capacity) (hle : file.length ≤ capacity) :
    mapFile file capacity os old = (Table.grow file capacity, .mapped (capacity * recordSize)) := by
  have hview := snd_mapFile file capacity os old
  rw [if_pos h] at hview
  refine Prod.ext ?_ hview
  have hgrow : capacity * recordSize % dwordRange / recordSize - file.length
      = capacity - file.length := by
    rcases le_objectSize_iff.mp h.2.2 with hlt | ⟨hzero, hlarge⟩
    · rw [Nat.mod_eq_of_lt hlt, Nat.mul_div_cancel capacity (by decide)]
    · have hcapacity := Nat.le_of_mul_le_mul_right hlarge (by decide)
      rw [hzero, Nat.zero_div]
      omega
  simp only [mapFile, h.1, if_true, Table.grow, hgrow]

end Mappings

/-! ## Calls on tables -/

namespace Table

section Performing

variable (env : TableEnv)

/-- A call, and what it returns.  Of `getData` the text is left out. -/
def perform (t : Table) : CacheOp → Option (Bool × Table)
  | .write line => t.writeTheData env line
  | .update line => t.updateTheData env line
  | .delete identifier => some (t.deleteData env identifier)
  | .get query => (t.getData query).map fun (_, t') => (true, t')

def act (t : Table) (op : CacheOp) : Option Table := (t.perform env op).map Prod.snd

/-- The slot that a call reads or writes. -/
def slot (t : Table) : CacheOp → Option ℕ
  | .write line => (newRecord env.crc32 line).map fun _ => t.currentRecords
  | .update line => (newRecord env.crc32 line).bind fun r => t.pageNum r.uid
  | .delete identifier => t.pageNum (t.resolve identifier)
  | .get query =>
    let uid := t.resolve (firstWord query)
    if (t.cache.find uid).isSome then none else t.pageNum uid

/-- The number of records that a call asks `ensureCapacity` for.  It is zero if the call does not
ask, and then there is room. -/
def needed (t : Table) : CacheOp → ℕ
  | .write line => if (newRecord env.crc32 line).isSome then t.currentRecords + 1 else 0
  | .update _ | .delete _ | .get _ => 0

end Performing

variable {env : TableEnv} {t t' : Table} {op : CacheOp} {ok : Bool}

theorem needed_cases (env : TableEnv) (t : Table) (op : CacheOp) :
    t.needed env op = 0 ∨ t.needed env op = t.currentRecords + 1 := by
  cases op with
  | write line =>
    rw [needed]
    split
    next => exact .inr rfl
    next => exact .inl rfl
  | update | delete | get => exact .inl rfl

theorem needed_le (env : TableEnv) (t : Table) (op : CacheOp) :
    t.needed env op ≤ t.currentRecords + 1 := by
  have hcases := t.needed_cases env op
  omega

theorem isSome_slot_write (t : Table) (env : TableEnv) {line : List UInt8}
    (h : 7 ≤ (words isSpace line).length) : (t.slot env (.write line)).isSome := by
  obtain ⟨r, hr⟩ := exists_newRecord env.crc32 h
  rw [slot, hr]
  rfl

theorem slot_ensureCapacity (t : Table) (op : CacheOp) (n : ℕ) :
    (t.ensureCapacity n).slot env op = t.slot env op := by
  cases op <;> rfl

theorem ensureCapacity_eq_self {n : ℕ} (h : n ≤ t.memory.length) : t.ensureCapacity n = t := by
  rw [ensureCapacity, if_pos h]

@[simp] theorem ensureCapacity_zero (t : Table) : t.ensureCapacity 0 = t :=
  ensureCapacity_eq_self (Nat.zero_le _)

theorem perform_ensureCapacity (t : Table) (op : CacheOp) :
    (t.ensureCapacity (t.needed env op)).perform env op = t.perform env op := by
  cases op with
  | write line =>
    cases hr : newRecord env.crc32 line with
    | none => simp [needed, hr]
    | some r =>
      have htwice := ensureCapacity_eq_self (t.le_ensureCapacity (t.currentRecords + 1))
      have hstore : (t.ensureCapacity (t.currentRecords + 1)).store env r.uid (cipher r)
          = t.store env r.uid (cipher r) := by
        have hcurrent : (t.ensureCapacity (t.currentRecords + 1)).currentRecords
            = t.currentRecords := rfl
        rw [store, hcurrent, htwice]
        rfl
      simp [needed, hr, perform, writeTheData, hstore]
      rfl
  | update | delete | get => rw [needed, ensureCapacity_zero]

theorem eq_of_perform_false (h : t.perform env op = some (false, t')) : t' = t := by
  cases op with
  | write line =>
    rcases writeTheData_eq_some h with ⟨-, rfl⟩ | ⟨hok, -⟩
    · rfl
    · cases hok
  | update line =>
    rcases updateTheData_eq_some h with ⟨-, rfl⟩ | ⟨hok, -⟩
    · rfl
    · cases hok
  | delete identifier =>
    rcases deleteData_eq (Option.some.inj h) with ⟨-, rfl⟩ | ⟨hok, -⟩
    · rfl
    · cases hok
  | get query =>
    obtain ⟨_, -, heq⟩ := Option.map_eq_some_iff.mp h
    cases heq

/-- A call keeps the records in their pages, and makes no other room than it needs. -/
theorem Sound.perform (hs : t.Sound) (h : t.perform env op = some (ok, t')) :
    t'.Sound ∧ t'.memory.length = (t.ensureCapacity (t.needed env op)).memory.length := by
  cases op with
  | write line =>
    rcases writeTheData_eq_some h with ⟨rfl, rfl⟩ | ⟨-, r, cache, hr, -, rfl⟩
    · cases hr : newRecord env.crc32 line with
      | none => simp [needed, hr, hs]
      | some r =>
        rw [Table.perform, writeTheData, hr] at h
        obtain ⟨_, -, heq⟩ := Option.map_eq_some_iff.mp h
        cases heq
    · have hstore := hs.store env r
      refine ⟨⟨hstore.fits, hstore.page⟩, ?_⟩
      rw [needed, hr]
      exact List.length_set
  | update line =>
    rw [needed, ensureCapacity_zero]
    rcases updateTheData_eq_some h with ⟨-, rfl⟩ | ⟨-, r, i, cache, -, hpage, -, rfl⟩
    · exact ⟨hs, rfl⟩
    · have hset := hs.set hpage rfl
      exact ⟨⟨hset.fits, hset.page⟩, List.length_set⟩
  | delete identifier =>
    rw [needed, ensureCapacity_zero]
    rcases deleteData_eq (Option.some.inj h) with ⟨-, rfl⟩ | ⟨-, i, o, hpage, ho, -, rfl⟩
    · exact ⟨hs, rfl⟩
    · exact ⟨hs.markDeleted env hpage ho, List.length_set⟩
  | get query =>
    obtain ⟨⟨out, _⟩, hget, heq⟩ := Option.map_eq_some_iff.mp h
    cases heq
    obtain ⟨cache, rfl, -⟩ := getData_eq_some hget
    rw [needed, ensureCapacity_zero]
    exact ⟨⟨hs.fits, hs.page⟩, rfl⟩

theorem Sound.act (hs : t.Sound) (h : t.act env op = some t') : t'.Sound := by
  obtain ⟨⟨ok, _⟩, hperform, rfl⟩ := Option.map_eq_some_iff.mp h
  exact (hs.perform hperform).1

theorem Sound.exists_act_write (hs : t.Sound) (env : TableEnv) {line : List UInt8}
    (hwords : 7 ≤ (words isSpace line).length)
    (hnew : fill 16 (firstWord line) ∉ t.cache.keyToFreq)
    (hroom : t.currentRecords < t.memory.length) :
    ∃ t', t.act env (.write line) = some t' ∧ t'.memory.length = t.memory.length ∧
      t'.currentRecords = t.currentRecords + 1 ∧
      ∀ key ∈ t'.cache.keyToFreq, key = fill 16 (firstWord line) ∨ key ∈ t.cache.keyToFreq := by
  obtain ⟨r, hr⟩ := exists_newRecord env.crc32 hwords
  rw [← uid_newRecord hr] at hnew ⊢
  obtain ⟨cache, hcache, hkeys⟩ : ∃ cache,
      t.cache.makeRoom.updateLFU r.uid (cipher r) = some cache ∧
      cache.keyToFreq = r.uid :: t.cache.makeRoom.keyToFreq :=
    ⟨_, Cache.updateLFU_of_not_mem (Cache.not_mem_makeRoom hnew) (cipher r), rfl⟩
  have hperform : t.perform env (.write line)
      = some (true, { t.store env r.uid (cipher r) with cache }) := by
    rw [Table.perform, writeTheData, hr]
    simp only [touch, hcache, Option.map_some]
  have hlen := (hs.perform hperform).2
  rw [needed, hr] at hlen
  refine ⟨_, by rw [Table.act, hperform]; rfl, ?_, rfl, ?_⟩
  · exact hlen.trans (by rw [ensureCapacity_eq_self (by exact hroom)])
  · intro key hkey
    rw [hkeys] at hkey
    rcases List.mem_cons.mp hkey with rfl | hkey
    · exact .inl rfl
    · exact .inr (not_imp_not.mp Cache.not_mem_makeRoom hkey)

theorem Sound.lt_of_pageNum (hs : t.Sound) {uid : Key} {i : ℕ} (h : t.pageNum uid = some i) :
    i < t.memory.length := by
  obtain ⟨r, hr, -⟩ := hs.page uid i h
  have hlt := (List.getElem?_eq_some_iff.mp hr).1
  rw [hs.length_records] at hlt
  exact hlt.trans_le hs.fits

/-- The slot of a call is in the memory when there is the room that it needs. -/
theorem Sound.slot_lt (hs : t.Sound) {i : ℕ} (h : t.slot env op = some i) :
    i < (t.ensureCapacity (t.needed env op)).memory.length := by
  cases op with
  | write line =>
    obtain ⟨r, hr, rfl⟩ := Option.map_eq_some_iff.mp h
    rw [needed, hr]
    exact t.le_ensureCapacity (t.currentRecords + 1)
  | update line =>
    obtain ⟨r, -, hpage⟩ := Option.bind_eq_some_iff.mp h
    rw [needed, ensureCapacity_zero]
    exact hs.lt_of_pageNum hpage
  | delete identifier =>
    rw [needed, ensureCapacity_zero]
    exact hs.lt_of_pageNum h
  | get query =>
    rw [needed, ensureCapacity_zero]
    simp only [slot] at h
    split at h
    next => cases h
    next => exact hs.lt_of_pageNum h

end Table

/-! ## The table with its mapping -/

/-- The members of `table` with those that say what is mapped.  `table.memory` is the file. -/
structure MappedTable where
  table : Table
  mappedCapacityRecords : ℕ
  mappedMemory : View

namespace MappedTable

open Table

/-- The file has records and can be mapped to load the index. -/
def Loads (file : List UserInfo) (load : Attempt) : Prop :=
  0 < file.length ∧ load.create ∧ load.view

instance (file : List UserInfo) (load : Attempt) : Decidable (Loads file load) :=
  inferInstanceAs (Decidable (_ ∧ _ ∧ _))

/-- The part of `initStorage` that loads the index. -/
def loaded (file : List UserInfo) (load : Attempt) : Table :=
  if Loads file load then (mapped file).loadIndex 0 file else mapped file

/-- The part of `initStorage` that says how many records to map. -/
def openCapacity (file : List UserInfo) (load : Attempt) : ℕ :=
  let currentRecords := (loaded file load).currentRecords
  if 1000 ≤ file.length - currentRecords then file.length else headroom currentRecords

/-- `initStorage` on a file that was opened.  After the index was loaded the file is unmapped, but
`mappedMemory` keeps the address until the file is mapped again. -/
def initStorage (file : List UserInfo) (load os : Attempt) : MappedTable :=
  let r := mapFile file (openCapacity file load) os (if Loads file load then .stale else .null)
  ⟨{ loaded file load with memory := r.1 }, openCapacity file load, r.2⟩

/-- `ensureCapacity`, and what it returns. -/
def ensureCapacity (s : MappedTable) (os : Attempt) (needed : ℕ) : Bool × MappedTable :=
  if needed ≤ s.mappedCapacityRecords then (true, s)
  else
    let r := mapFile s.table.memory (headroom needed) os .null
    (r.2 ≠ .null, ⟨{ s.table with memory := r.1 }, headroom needed, r.2⟩)

section Calls

variable (env : TableEnv)

/-- A call, with the answers that the system has for it.  There is no result if it touches memory
that is not mapped. -/
def call (s : MappedTable) (a : CacheOp × Attempt) : Option (Bool × MappedTable) :=
  match s.ensureCapacity a.2 (s.table.needed env a.1) with
  | (false, s') => some (false, s')
  | (true, s') =>
    if ∀ i ∈ s'.table.slot env a.1, s'.mappedMemory.Covers (i + 1) then
      (s'.table.perform env a.1).map fun (ok, t) => (ok, { s' with table := t })
    else none

def step (s : MappedTable) (a : CacheOp × Attempt) : Option MappedTable :=
  (s.call env a).map Prod.snd

/-- Whenever `ensureCapacity` returns true, there is a mapping with so many records. -/
def Guarded (s : MappedTable) : Prop :=
  ∀ os n, (s.ensureCapacity os n).1 = true → (s.ensureCapacity os n).2.mappedMemory.Covers n

/-- The number of records, the indexes and the records are as they were, and the records can be
read. -/
structure Keeps (s s' : MappedTable) : Prop where
  currentRecords : s'.table.currentRecords = s.table.currentRecords
  pageNum : s'.table.pageNum = s.table.pageNum
  emailToUid : s'.table.emailToUid = s.table.emailToUid
  phoneToUid : s'.table.phoneToUid = s.table.phoneToUid
  records : s'.table.records = s.table.records
  readable : ∀ i < s.table.currentRecords, s'.mappedMemory.Covers (i + 1)

/-- A call touches only what is mapped, keeps everything if it fails, and leaves a table whose
capacity can be relied on. -/
structure Upholds (s : MappedTable) (a : CacheOp × Attempt) : Prop where
  inside : ∀ s', s.ensureCapacity a.2 (s.table.needed env a.1) = (true, s') →
    ∀ i ∈ s'.table.slot env a.1, s'.mappedMemory.Covers (i + 1)
  keeps : ∀ s', s.call env a = some (false, s') → s.Keeps s'
  guarded : ∀ r ∈ s.call env a, r.2.Guarded

/-- The table can be used after it was opened, through a sequence of calls. -/
def Usable (file : List UserInfo) (load os : Attempt) (calls : List (CacheOp × Attempt)) : Prop :=
  (initStorage file load os).Guarded ∧
    Meets (step env) (Upholds env) (initStorage file load os) calls

/-- A call that needs more room gets it. -/
def Grows (s : MappedTable) (a : CacheOp × Attempt) : Prop :=
  s.table.needed env a.1 ≤ s.mappedCapacityRecords ∨
    a.2.Maps s.table.memory (headroom (s.table.needed env a.1))

end Calls

/-! ## Capacity -/

variable {env : TableEnv} {s s' : MappedTable} {os : Attempt} {needed : ℕ}

theorem ensureCapacity_of_le (os : Attempt) (h : needed ≤ s.mappedCapacityRecords) :
    s.ensureCapacity os needed = (true, s) :=
  if_pos h

theorem ensureCapacity_of_maps (h : ¬ needed ≤ s.mappedCapacityRecords)
    (hmaps : os.Maps s.table.memory (headroom needed)) :
    s.ensureCapacity os needed = (true, ⟨{ s.table with
      memory := (mapFile s.table.memory (headroom needed) os .null).1 }, headroom needed,
      .mapped (headroom needed * recordSize)⟩) := by
  have hview := snd_mapFile s.table.memory (headroom needed) os .null
  rw [if_pos hmaps] at hview
  simp [ensureCapacity, h, hview]

theorem ensureCapacity_of_not_maps (h : ¬ needed ≤ s.mappedCapacityRecords)
    (hmaps : ¬ os.Maps s.table.memory (headroom needed)) :
    s.ensureCapacity os needed = (false, ⟨{ s.table with
      memory := (mapFile s.table.memory (headroom needed) os .null).1 }, headroom needed,
      .null⟩) := by
  have hview := snd_mapFile s.table.memory (headroom needed) os .null
  rw [if_neg hmaps, ite_self] at hview
  simp [ensureCapacity, h, hview]

theorem guarded_iff : s.Guarded ↔ s.mappedMemory.Covers s.mappedCapacityRecords := by
  constructor
  · intro h
    have hfits := h ⟨true, true⟩ s.mappedCapacityRecords
    rw [ensureCapacity_of_le _ le_rfl] at hfits
    exact hfits rfl
  · intro h os n htrue
    by_cases hle : n ≤ s.mappedCapacityRecords
    · rw [ensureCapacity_of_le _ hle]
      exact h.mono hle
    · by_cases hmaps : os.Maps s.table.memory (headroom n)
      · rw [ensureCapacity_of_maps hle hmaps]
        exact View.covers_mapped (lt_headroom n).le
      · rw [ensureCapacity_of_not_maps hle hmaps] at htrue
        cases htrue

theorem call_of_refused {a : CacheOp × Attempt}
    (h : s.ensureCapacity a.2 (s.table.needed env a.1) = (false, s')) :
    s.call env a = some (false, s') := by
  rw [call, h]

theorem call_of_null {a : CacheOp × Attempt}
    (h : s.ensureCapacity a.2 (s.table.needed env a.1) = (true, s'))
    (hnull : s'.mappedMemory = .null)
    (hslot : (s'.table.slot env a.1).isSome) : s.call env a = none := by
  obtain ⟨i, hi⟩ := Option.isSome_iff_exists.mp hslot
  simp only [call, h]
  refine if_neg ?_
  intro hinside
  have hcovers := hinside i hi
  rw [hnull] at hcovers
  exact hcovers

theorem call_of_inside {a : CacheOp × Attempt}
    (h : s.ensureCapacity a.2 (s.table.needed env a.1) = (true, s'))
    (hinside : ∀ i ∈ s'.table.slot env a.1, s'.mappedMemory.Covers (i + 1)) :
    s.call env a = (s'.table.perform env a.1).map fun r => (r.1, { s' with table := r.2 }) := by
  simp only [call, h]
  rw [if_pos hinside]

theorem exists_refused {a : CacheOp × Attempt} (h : ¬ s.Grows env a) :
    ∃ s', s.call env a = some (false, s') ∧ s'.mappedMemory = .null ∧
      s'.table.currentRecords = s.table.currentRecords ∧
      s'.mappedCapacityRecords = headroom (s.table.currentRecords + 1) := by
  obtain ⟨hle, hmaps⟩ := not_or.mp h
  have hneeded := (s.table.needed_cases env a.1).resolve_left (by omega)
  refine ⟨_, call_of_refused (ensureCapacity_of_not_maps hle hmaps), rfl, rfl, ?_⟩
  rw [hneeded]

theorem not_upholds {a : CacheOp × Attempt} (h : ¬ s.Grows env a) : ¬ s.Upholds env a := by
  intro hupholds
  obtain ⟨s', hcall, hnull, -⟩ := exists_refused h
  have hcovers := guarded_iff.mp (hupholds.guarded _ hcall)
  rw [hnull] at hcovers
  exact hcovers

/-! ## Tables that are mapped -/

/-- A table with all its slots mapped. -/
def full (t : Table) : MappedTable := ⟨t, t.memory.length, .mapped (t.memory.length * recordSize)⟩

theorem guarded_full (t : Table) : (full t).Guarded := by
  rw [guarded_iff]
  exact View.covers_mapped (Nat.le_refl _)

theorem ensureCapacity_full {t : Table}
    (h : needed ≤ t.memory.length ∨ os.Maps t.memory (headroom needed)) :
    (full t).ensureCapacity os needed = (true, full (t.ensureCapacity needed)) := by
  by_cases hle : needed ≤ t.memory.length
  · rw [ensureCapacity_of_le _ hle]
    simp only [Table.ensureCapacity, if_pos hle]
  · have hlt := lt_headroom needed
    have hmaps := h.resolve_left hle
    have hlen : (grow t.memory (headroom needed)).length = headroom needed := by
      rw [grow, List.length_append, List.length_replicate]
      omega
    rw [ensureCapacity_of_maps (s := full t) hle hmaps]
    simp only [full, Table.ensureCapacity, if_neg hle, hlen,
      mapFile_of_maps _ hmaps (by omega : t.memory.length ≤ _)]

/-- **Refinement.**  A call that gets the room that it needs is the one of the table. -/
theorem call_full {t : Table} {a : CacheOp × Attempt} (hs : t.Sound) (h : (full t).Grows env a) :
    (full t).call env a = (t.perform env a.1).map fun r => (r.1, full r.2) := by
  have hinside : ∀ i ∈ (t.ensureCapacity (t.needed env a.1)).slot env a.1,
      (full (t.ensureCapacity (t.needed env a.1))).mappedMemory.Covers (i + 1) := by
    intro i hi
    rw [slot_ensureCapacity] at hi
    exact View.covers_mapped (hs.slot_lt hi)
  have hperform : (full (t.ensureCapacity (t.needed env a.1))).table.perform env a.1
      = t.perform env a.1 := t.perform_ensureCapacity a.1
  have hgrown : (full t).ensureCapacity a.2 ((full t).table.needed env a.1)
      = (true, full (t.ensureCapacity (t.needed env a.1))) := ensureCapacity_full h
  rw [call_of_inside hgrown hinside, hperform]
  cases hr : t.perform env a.1 with
  | none => rfl
  | some r =>
    obtain ⟨ok, t'⟩ := r
    simp only [Option.map_some, full, (hs.perform hr).2]

theorem step_full {t : Table} {a : CacheOp × Attempt} (hs : t.Sound) (h : (full t).Grows env a) :
    (full t).step env a = (t.act env a.1).map full := by
  rw [step, call_full hs h, act, Option.map_map, Option.map_map]
  rfl

/-- A table that always gets the room it needs does what a table does for which mapping cannot
fail. -/
theorem run_full {t : Table} {calls : List (CacheOp × Attempt)} (hs : t.Sound)
    (h : Meets (step env) (Grows env) (full t) calls) :
    Transition.run (step env) (full t) calls
      = (Transition.run (Table.act env) t (calls.map Prod.fst)).map full := by
  induction calls generalizing t with
  | nil => rfl
  | cons a calls ih =>
    have hstep := step_full hs h.1
    cases hact : t.act env a.1 with
    | none =>
      rw [hact] at hstep
      simp [Transition.run, hact, hstep]
    | some t' =>
      rw [hact] at hstep
      rw [run_cons hstep, List.map_cons, run_cons hact]
      exact ih (hs.act hact) (h.2 _ hstep)

/-- **One call.**  The calls that leave the table usable are those that get the room they need. -/
theorem upholds_full_iff {t : Table} (hs : t.Sound) (a : CacheOp × Attempt) :
    (full t).Upholds env a ↔ (full t).Grows env a := by
  constructor
  · intro h
    by_contra hgrows
    exact not_upholds hgrows h
  · intro h
    have hcall := call_full hs h
    refine ⟨?_, ?_, ?_⟩
    · intro s' hs' i hi
      cases (ensureCapacity_full (t := t) h).symm.trans hs'
      have hslot := (t.slot_ensureCapacity a.1 _).symm.trans hi
      exact View.covers_mapped (hs.slot_lt hslot)
    · intro s' hs'
      rw [hcall] at hs'
      obtain ⟨⟨ok, t'⟩, hperform, heq⟩ := Option.map_eq_some_iff.mp hs'
      cases heq
      cases eq_of_perform_false hperform
      refine ⟨rfl, rfl, rfl, rfl, rfl, ?_⟩
      intro i hi
      have hlt : i < t.memory.length := Nat.lt_of_lt_of_le hi hs.fits
      exact View.covers_mapped hlt
    · intro r hr
      rw [hcall] at hr
      obtain ⟨r', -, rfl⟩ := Option.map_eq_some_iff.mp hr
      exact guarded_full r'.2

/-! ## Opening the table -/

section Opening

variable {file : List UserInfo} {load : Attempt}

theorem le_openCapacity (file : List UserInfo) (load : Attempt) :
    file.length ≤ openCapacity file load := by
  rw [openCapacity]
  split
  next => exact Nat.le_refl _
  next hlt =>
    rw [headroom]
    omega

/-- The table that is opened when the file can be mapped with room for more. -/
def opened (file : List UserInfo) (load : Attempt) : Table :=
  { loaded file load with memory := grow file (openCapacity file load) }

theorem opened_eq_initStorage (h : Loads file load ∨ file = []) :
    opened file load = Table.initStorage file := by
  have hloaded : loaded file load = (mapped file).loadIndex 0 file := by
    rw [loaded]
    split
    next => rfl
    next hloads =>
      rw [h.resolve_left hloads]
      rfl
  rw [opened, openCapacity, hloaded, Table.initStorage]
  split
  next => simp [grow]
  next => rfl

theorem sound_opened (file : List UserInfo) (load : Attempt) : (opened file load).Sound := by
  by_cases h : Loads file load
  · rw [opened_eq_initStorage (.inl h)]
    exact sound_initStorage file
  · -- No record is known.
    rw [opened, loaded, if_neg h]
    refine ⟨Nat.zero_le _, ?_⟩
    intro uid i hpage
    cases hpage

theorem length_opened (file : List UserInfo) (load : Attempt) :
    (opened file load).memory.length = openCapacity file load := by
  have hle := le_openCapacity file load
  rw [opened, grow, List.length_append, List.length_replicate]
  omega

theorem initStorage_of_maps (h : os.Maps file (openCapacity file load)) :
    initStorage file load os = full (opened file load) := by
  have hmap := mapFile_of_maps (if Loads file load then .stale else .null) h
    (le_openCapacity file load)
  rw [full, length_opened]
  simp only [initStorage, opened, hmap]

theorem guarded_initStorage_iff : (initStorage file load os).Guarded ↔
    os.Maps file (openCapacity file load) := by
  constructor
  · intro h
    by_contra hmaps
    have hview := snd_mapFile file (openCapacity file load) os
      (if Loads file load then .stale else .null)
    rw [if_neg hmaps] at hview
    have hcovers : (mapFile file _ os (if Loads file load then .stale else .null)).2.Covers _ :=
      guarded_iff.mp h
    rw [hview] at hcovers
    split_ifs at hcovers
    all_goals exact hcovers
  · intro h
    rw [initStorage_of_maps h]
    exact guarded_full _

end Opening

/-- **Growth.**  The table can be used if and only if the file is mapped when the table is opened
and whenever it has to grow. -/
theorem usable_iff_grows (env : TableEnv) (file : List UserInfo) (load os : Attempt)
    (calls : List (CacheOp × Attempt)) :
    Usable env file load os calls ↔
      os.Maps file (openCapacity file load) ∧
        Meets (step env) (Grows env) (initStorage file load os) calls := by
  rw [Usable, guarded_initStorage_iff]
  refine and_congr_right ?_
  intro hmaps
  have hstart : ∃ t : Table, t.Sound ∧ initStorage file load os = full t :=
    ⟨_, sound_opened file load, initStorage_of_maps hmaps⟩
  refine meets_congr (fun s => ∃ t : Table, t.Sound ∧ s = full t) hstart ?_ ?_
  · rintro _ a ⟨t, hs, rfl⟩
    exact upholds_full_iff hs a
  · rintro _ a s' ⟨t, hs, rfl⟩ hgrows hstep
    rw [step_full hs hgrows] at hstep
    obtain ⟨t', ht', rfl⟩ := Option.map_eq_some_iff.mp hstep
    exact ⟨t', hs.act ht', rfl⟩

/-! ## A growth that fails -/

/-- **A failed growth.**  The call that needs room returns false.  A call after it that uses a slot
is told that there is room, and has null to use. -/
theorem exists_call_of_not_grows {a : CacheOp × Attempt} (h : ¬ s.Grows env a) :
    ∃ s', s.call env a = some (false, s') ∧ s'.mappedMemory = .null ∧
      ∀ a', (s'.table.slot env a'.1).isSome →
        s'.ensureCapacity a'.2 (s'.table.needed env a'.1) = (true, s') ∧
          s'.call env a' = none := by
  obtain ⟨s', hcall, hnull, hcurrent, hcapacity⟩ := exists_refused h
  refine ⟨s', hcall, hnull, ?_⟩
  intro a' hslot
  have hroom : s'.table.needed env a'.1 ≤ s'.mappedCapacityRecords := by
    have hle := s'.table.needed_le env a'.1
    have hlt := lt_headroom (s.table.currentRecords + 1)
    omega
  have hensured := ensureCapacity_of_le a'.2 hroom
  exact ⟨hensured, call_of_null hensured hnull hslot⟩

theorem not_usable_of_not_grows {file : List UserInfo} {load : Attempt}
    {calls : List (CacheOp × Attempt)} {a : CacheOp × Attempt}
    (hrun : Transition.run (step env) (initStorage file load os) calls = some s)
    (h : ¬ s.Grows env a) : ¬ Usable env file load os (calls ++ [a]) := by
  rintro ⟨-, hmeets⟩
  exact not_upholds h (hmeets.drop hrun).1

theorem not_grows_of_view (env : TableEnv) {t : Table} {line : List UInt8}
    (hfull : t.memory.length ≤ t.currentRecords) (hwords : 7 ≤ (words isSpace line).length) :
    ¬ (full t).Grows env (.write line, ⟨true, false⟩) := by
  obtain ⟨r, hr⟩ := exists_newRecord env.crc32 hwords
  rintro (hle | ⟨-, hview, -⟩)
  · have hneeded : t.needed env (.write line) = t.currentRecords + 1 := by
      rw [needed, hr]
      rfl
    have hlt : t.needed env (.write line) ≤ t.memory.length := hle
    omega
  · cases hview

theorem exists_run_writes (env : TableEnv) (os : Attempt)
    (lines : List (List UInt8)) {t : Table} (hs : t.Sound)
    (hroom : t.currentRecords + lines.length ≤ t.memory.length)
    (hwords : ∀ line ∈ lines, 7 ≤ (words isSpace line).length)
    (hdistinct : (lines.map fun line => fill 16 (firstWord line)).Nodup)
    (hnew : ∀ line ∈ lines, fill 16 (firstWord line) ∉ t.cache.keyToFreq) :
    ∃ t' : Table, t'.Sound ∧ t'.memory.length = t.memory.length ∧
      t'.currentRecords = t.currentRecords + lines.length ∧
      Transition.run (step env) (full t) (lines.map fun line => (.write line, os))
        = some (full t') := by
  induction lines generalizing t with
  | nil => exact ⟨t, hs, rfl, rfl, rfl⟩
  | cons line lines ih =>
    rw [List.map_cons, List.nodup_cons] at hdistinct
    obtain ⟨hline, hdistinct⟩ := hdistinct
    rw [List.length_cons] at hroom
    obtain ⟨t₁, hact, hlen, hcurrent, hkeys⟩ := hs.exists_act_write env
      (hwords line List.mem_cons_self) (hnew line List.mem_cons_self) (by omega)
    have hfits : t.needed env (.write line) ≤ t.memory.length :=
      (t.needed_le env _).trans (by omega)
    have hstep : (full t).step env (.write line, os) = some (full t₁) := by
      rw [step_full hs (.inl hfits), hact]
      rfl
    have hrest : ∀ line' ∈ lines, fill 16 (firstWord line') ∉ t₁.cache.keyToFreq := by
      intro line' hline' hkey
      rcases hkeys _ hkey with heq | hkey
      · exact hline (heq ▸ List.mem_map_of_mem hline')
      · exact hnew line' (List.mem_cons_of_mem _ hline') hkey
    obtain ⟨t', hs', hlen', hcurrent', hrun⟩ := ih (hs.act hact) (by omega)
      (fun line' hline' => hwords line' (List.mem_cons_of_mem _ hline')) hdistinct hrest
    refine ⟨t', hs', hlen'.trans hlen, ?_, (run_cons hstep).trans hrun⟩
    rw [List.length_cons]
    omega

/-- The line of a user with a number for an id. -/
def numberedLine (i : ℕ) : List UInt8 :=
  [UInt8.ofNat (100 + i / 100), UInt8.ofNat (100 + i % 100)] ++
    text " bob h1 bob@a.com TRUE 11 TRUE"

theorem words_numberedLine {i : ℕ} (hi : i < 2000) : words isSpace (numberedLine i)
    = [UInt8.ofNat (100 + i / 100), UInt8.ofNat (100 + i % 100)]
      :: words isSpace (text " bob h1 bob@a.com TRUE 11 TRUE") := by
  have hdigit : ∀ d < 100, isSpace (UInt8.ofNat (100 + d)) = false := by decide
  refine words_append (by simp) ?_ (by decide +kernel)
  intro b hb
  simp only [List.mem_cons, List.not_mem_nil, or_false] at hb
  rcases hb with rfl | rfl <;> exact hdigit _ (by omega)

theorem length_words_numberedLine {i : ℕ} (hi : i < 2000) :
    (words isSpace (numberedLine i)).length = 7 := by
  have hrest : (words isSpace (text " bob h1 bob@a.com TRUE 11 TRUE")).length = 6 := by
    decide +kernel
  rw [words_numberedLine hi, List.length_cons, hrest]

theorem numberedLine_inj {i j : ℕ} (hi : i < 2000) (hj : j < 2000)
    (h : fill 16 (firstWord (numberedLine i)) = fill 16 (firstWord (numberedLine j))) : i = j := by
  rw [firstWord, words_numberedLine hi, firstWord, words_numberedLine hj] at h
  have htens := congrArg UInt8.toNat (List.head_eq_of_cons_eq h)
  have hones := congrArg UInt8.toNat (List.head_eq_of_cons_eq (List.tail_eq_of_cons_eq h))
  rw [UInt8.toNat_ofNat', UInt8.toNat_ofNat'] at htens hones
  omega

/-- The calls by which so many users sign up, with nothing that fails. -/
def signups (n : ℕ) : List (CacheOp × Attempt) :=
  ((List.range n).map numberedLine).map fun line => (.write line, ⟨true, true⟩)

theorem exists_run_signups (env : TableEnv) {n : ℕ} (hn : n ≤ 1000) :
    ∃ t : Table, t.memory.length = 1000 ∧ t.currentRecords = n ∧
      Transition.run (step env) (initStorage [] ⟨true, true⟩ ⟨true, true⟩) (signups n)
        = some (full t) := by
  have hstart : initStorage [] ⟨true, true⟩ ⟨true, true⟩ = full (opened [] ⟨true, true⟩) :=
    initStorage_of_maps (by decide)
  have hlen : (opened [] ⟨true, true⟩).memory.length = 1000 := length_opened [] ⟨true, true⟩
  have hzero : (opened [] ⟨true, true⟩).currentRecords = 0 := rfl
  have hcount : ((List.range n).map numberedLine).length = n := by simp
  have hwords : ∀ line ∈ (List.range n).map numberedLine, 7 ≤ (words isSpace line).length := by
    intro line hline
    obtain ⟨i, hi, rfl⟩ := List.mem_map.mp hline
    have hlt := List.mem_range.mp hi
    exact (length_words_numberedLine (by omega)).ge
  have hdistinct : (((List.range n).map numberedLine).map
      fun line => fill 16 (firstWord line)).Nodup := by
    rw [List.map_map]
    refine List.nodup_range.map_on ?_
    intro i hi j hj h
    have hlti := List.mem_range.mp hi
    have hltj := List.mem_range.mp hj
    exact numberedLine_inj (by omega) (by omega) h
  obtain ⟨t, -, hlen', hcurrent, hrun⟩ := exists_run_writes env ⟨true, true⟩ _
    (sound_opened [] ⟨true, true⟩) (by omega) hwords hdistinct
    (fun line _ hkey => List.not_mem_nil hkey)
  exact ⟨t, hlen'.trans hlen, by omega, hstart ▸ hrun⟩

/-- There is room for a thousand users.  For the next one the file cannot be mapped.  Then the one
after that is written to null. -/
theorem not_usable_refused :
    ∃ s s', Transition.run (step (.fixed false)) (initStorage [] ⟨true, true⟩ ⟨true, true⟩)
        (signups 1000) = some s ∧
      s.call (.fixed false) (.write (numberedLine 1000), ⟨true, false⟩) = some (false, s') ∧
      s'.mappedMemory = .null ∧
      s'.ensureCapacity ⟨true, true⟩ (s'.table.needed (.fixed false) (.write (numberedLine 1001)))
        = (true, s') ∧
      s'.call (.fixed false) (.write (numberedLine 1001), ⟨true, true⟩) = none ∧
      ¬ Usable (.fixed false) [] ⟨true, true⟩ ⟨true, true⟩
        (signups 1000 ++ [(.write (numberedLine 1000), ⟨true, false⟩)]) := by
  obtain ⟨t, hlen, hcurrent, hrun⟩ := exists_run_signups (.fixed false) (Nat.le_refl 1000)
  have hrefused := not_grows_of_view (.fixed false) (hlen.trans hcurrent.symm).le
    (length_words_numberedLine (by decide : 1000 < 2000)).ge
  obtain ⟨s', hcall, hnull, hnext⟩ := exists_call_of_not_grows hrefused
  have hslot := s'.table.isSome_slot_write (.fixed false)
    (length_words_numberedLine (by decide : 1001 < 2000)).ge
  obtain ⟨hensured, hnone⟩ := hnext (.write (numberedLine 1001), ⟨true, true⟩) hslot
  exact ⟨full t, s', hrun, hcall, hnull, hensured, hnone, not_usable_of_not_grows hrun hrefused⟩

end MappedTable

end IocpChat

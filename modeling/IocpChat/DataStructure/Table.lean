import IocpChat.DataStructure.UserInfo

/-!
# The user table

`table<userInfo>` of `datastructure/table.h`.  The file is a sequence of enciphered records.
It is mapped into memory with room for more, and slots that were never written are zero.  An
entry of `pageNum` gives the slot of a user id.

`updateLFU` stores the end of `freqList` as the place of a key, and uses it when it sees the
key again; then the behaviour is undefined, and there is no result.

Calls that map files are taken to succeed.

`writeTheData` asks twice whether the record is deleted, after it enciphered it.  Both reads are
undefined, and may find one value or the other in each call.

## Main definitions

* `Cache` — the records that are kept, with the calls that count their use.
* `Table`, `Table.initStorage`, `Table.flushAndClose` — the table and its file.
* `Table.writeTheData`, `Table.updateTheData`, `Table.deleteData`, `Table.getData`,
  `Table.getAllRecords` — its operations.
-/

namespace IocpChat

open Bytes Words

/-! ## The cache -/

/-- A node of `freqList`. -/
structure FreqNode where
  freq : ℕ
  keys : List Key

/-- The members of `table` that are for the cache.  Of `keyToFreq` there are the keys; its
iterators are all `freqList.end()`. -/
structure Cache where
  cacheMap : List (Key × UserInfo)
  keyToFreq : List Key
  freqList : List FreqNode

namespace Cache

def empty : Cache := ⟨[], [], []⟩

def find (c : Cache) (key : Key) : Option UserInfo := c.cacheMap.lookup key

/-- `cacheMap.erase` and `keyToFreq.erase`. -/
def erase (c : Cache) (key : Key) : Cache :=
  { c with cacheMap := c.cacheMap.filter (·.1 ≠ key), keyToFreq := c.keyToFreq.filter (· ≠ key) }

def evictLFU (c : Cache) : Cache :=
  match c.freqList with
  | ⟨freq, key :: keys⟩ :: nodes =>
    { c.erase key with freqList := if keys = [] then nodes else ⟨freq, keys⟩ :: nodes }
  | _ => c

/-- `CACHE_LIMIT`. -/
def limit : ℕ := 10000

/-- Evict a record if the cache is full. -/
def makeRoom (c : Cache) : Cache := if limit ≤ c.cacheMap.length then c.evictLFU else c

/-- Enter a key that is new into `freqList`. -/
def pushKey (key : Key) : List FreqNode → List FreqNode
  | [] => [⟨1, [key]⟩]
  | [node] => if node.freq = 1 then [⟨1, node.keys ++ [key]⟩] else [node, ⟨1, [key]⟩]
  | node :: nodes => node :: pushKey key nodes

/-- `updateLFU`.  There is no result if the key was seen before. -/
def updateLFU (c : Cache) (key : Key) (value : UserInfo) : Option Cache :=
  if c.keyToFreq.contains key then none
  else some
    { cacheMap := (key, value) :: c.cacheMap.filter (·.1 ≠ key)
      keyToFreq := key :: c.keyToFreq
      freqList := pushKey key c.freqList }

theorem updateLFU_of_mem {c : Cache} {key : Key} (h : key ∈ c.keyToFreq) (value : UserInfo) :
    c.updateLFU key value = none :=
  if_pos (List.contains_iff_mem.mpr h)

theorem updateLFU_of_not_mem {c : Cache} {key : Key} (h : key ∉ c.keyToFreq) (value : UserInfo) :
    c.updateLFU key value = some
      { cacheMap := (key, value) :: c.cacheMap.filter (·.1 ≠ key)
        keyToFreq := key :: c.keyToFreq
        freqList := pushKey key c.freqList } :=
  if_neg fun hmem => h (List.contains_iff_mem.mp hmem)

theorem eq_of_updateLFU {c c' : Cache} {key : Key} {value : UserInfo}
    (h : c.updateLFU key value = some c') :
    key ∉ c.keyToFreq ∧ c' =
      { cacheMap := (key, value) :: c.cacheMap.filter (·.1 ≠ key)
        keyToFreq := key :: c.keyToFreq
        freqList := pushKey key c.freqList } := by
  by_cases hkey : key ∈ c.keyToFreq
  · rw [updateLFU_of_mem hkey] at h
    cases h
  · rw [updateLFU_of_not_mem hkey] at h
    exact ⟨hkey, (Option.some.inj h).symm⟩

/-- Keys are compared by the map. -/
def decidableNotMem (keys : List Key) (key : Key) : Decidable (key ∉ keys) :=
  decidable_of_iff (keys.contains key = false) (by simp)

end Cache

/-! ## The table -/

/-- What comes from outside: `crc32` of zlib, and what the two undefined reads of `writeTheData`
find when a slot is written. -/
structure TableEnv where
  crc32 : List UInt8 → UInt32
  emailFlag : ℕ → Bool
  phoneFlag : ℕ → Bool

/-- A checksum of zero, and reads that always find this value. -/
def TableEnv.fixed (flag : Bool) : TableEnv := ⟨fun _ => 0, fun _ => flag, fun _ => flag⟩

/-- The class `table`.  The mapped memory is that of the file, and the number of its slots is
`mappedCapacityRecords`. -/
structure Table where
  memory : List UserInfo
  currentRecords : ℕ
  pageNum : Key → Option ℕ
  emailToUid : Key → Option Key
  phoneToUid : Key → Option Key
  cache : Cache

/-- `SignUp::isAlreadySignup`. -/
def isAlreadySignup (db : Table) (email : Key) : Bool := (db.emailToUid email).isSome

namespace Table

/-! ## Storage -/

/-- The number of slots that there is room for when so many are used. -/
def headroom (records : ℕ) : ℕ := min (max (records * 3 / 2) (records + 1000)) (records + 50000)

/-- The slots with as many more as are needed for a capacity. -/
def grow (slots : List UserInfo) (capacity : ℕ) : List UserInfo :=
  slots ++ List.replicate (capacity - slots.length) UserInfo.zero

/-- A slot whose user id was never written. -/
def isEmpty (slot : UserInfo) : Bool := slot.uid.all (· = 0)

/-- Enter a record into the indexes. -/
def index (t : Table) (i : ℕ) (record : UserInfo) : Table :=
  { t with
    pageNum := Function.update t.pageNum record.uid (some i)
    emailToUid :=
      if record.email = [] then t.emailToUid
      else Function.update t.emailToUid record.email (some record.uid)
    phoneToUid :=
      if record.phone = [] then t.phoneToUid
      else Function.update t.phoneToUid record.phone (some record.uid) }

/-- The loop of `loadIndex`, from a slot on. -/
def loadIndex (t : Table) (i : ℕ) : List UserInfo → Table
  | [] => { t with currentRecords := i }
  | slot :: slots =>
    if isEmpty slot then { t with currentRecords := i }
    else (t.index i (cipher slot)).loadIndex (i + 1) slots

/-- A table that maps a file and has not read it yet. -/
def mapped (file : List UserInfo) : Table :=
  ⟨file, 0, fun _ => none, fun _ => none, fun _ => none, .empty⟩

/-- `initStorage` on a file. -/
def initStorage (file : List UserInfo) : Table :=
  let t := (mapped file).loadIndex 0 file
  { t with
    memory :=
      if 1000 ≤ file.length - t.currentRecords then file else grow file (headroom t.currentRecords) }

def ensureCapacity (t : Table) (needed : ℕ) : Table :=
  { t with
    memory := if needed ≤ t.memory.length then t.memory else grow t.memory (headroom needed) }

/-- The file that `flushAndClose` leaves. -/
def flushAndClose (t : Table) : List UserInfo := t.memory.take t.currentRecords

/-- The file that a crash leaves. -/
def crash (t : Table) : List UserInfo := t.memory

/-- The record in a slot, deciphered. -/
def recordAt (t : Table) (i : ℕ) : Option UserInfo := t.memory[i]?.map cipher

/-- The record of a user id in the mapped file. -/
def recordOf (t : Table) (uid : Key) : Option UserInfo := (t.pageNum uid).bind t.recordAt

/-! ## Operations -/

section Operations

variable (env : TableEnv)

/-- The part of `writeTheData` that stores the enciphered record and enters it into the
indexes.  What is entered is read from the record after it was enciphered, and so is the flag. -/
def store (t : Table) (uid : Key) (record : UserInfo) : Table :=
  let t := t.ensureCapacity (t.currentRecords + 1)
  { t with
    memory := t.memory.set t.currentRecords record
    pageNum := Function.update t.pageNum uid (some t.currentRecords)
    currentRecords := t.currentRecords + 1
    emailToUid :=
      if record.email = [] ∨ record.readDeleted (env.emailFlag t.currentRecords) then t.emailToUid
      else Function.update t.emailToUid record.email (some uid)
    phoneToUid :=
      if record.phone = [] ∨ record.readDeleted (env.phoneFlag t.currentRecords) then t.phoneToUid
      else Function.update t.phoneToUid record.phone (some uid) }

/-- `updateLFU` on the cache of a table. -/
def touch (t : Table) (cache : Cache) (key : Key) (value : UserInfo) : Option Table :=
  (cache.updateLFU key value).map fun cache => { t with cache }

/-- `writeTheData`, and whether it succeeds. -/
def writeTheData (t : Table) (line : List UInt8) : Option (Bool × Table) :=
  match newRecord env.crc32 line with
  | none => some (false, t)
  | some record =>
    ((t.store env record.uid (cipher record)).touch t.cache.makeRoom record.uid (cipher record)).map
      (true, ·)

/-- `updateTheData`, and whether it succeeds. -/
def updateTheData (t : Table) (line : List UInt8) : Option (Bool × Table) :=
  match newRecord env.crc32 line with
  | none => some (false, t)
  | some record =>
    match t.pageNum record.uid with
    | none => some (false, t)
    | some i =>
      let t := { t with memory := t.memory.set i (cipher record) }
      if (t.cache.find record.uid).isSome then
        (t.touch t.cache record.uid (cipher record)).map (true, ·)
      else some (true, t)

/-- The user id that an identifier stands for: it may be an email or a phone hash. -/
def resolve (t : Table) (identifier : Key) : Key :=
  (t.phoneToUid identifier).getD ((t.emailToUid identifier).getD identifier)

/-- The part of `deleteData` that marks a record and erases its user id. -/
def markDeleted (t : Table) (uid : Key) (i : ℕ) (record : UserInfo) : Table :=
  { t with
    memory := t.memory.set i (cipher (finish env.crc32 true record))
    cache := t.cache.erase uid
    emailToUid := Function.update t.emailToUid uid none
    phoneToUid := Function.update t.phoneToUid uid none }

/-- `deleteData`, and whether it succeeds. -/
def deleteData (t : Table) (identifier : Key) : Bool × Table :=
  let uid := t.resolve identifier
  match t.pageNum uid with
  | none => (false, t)
  | some i =>
    match t.recordAt i with
    | none => (false, t)
    | some record =>
      if record.isDeleted then (false, t) else (true, t.markDeleted env uid i record)

end Operations

/-! ## Answers -/

def notFound : List UInt8 := text "NOT_FOUND"

def boolText (b : Bool) : List UInt8 := if b then text "TRUE " else text "FALSE "

/-- `createOutput`: what a word of a query asks for. -/
def createOutput (r : UserInfo) (req : List UInt8) : List UInt8 :=
  if req = text "NULL" then []
  else if req = text "username" then (Field.username.get r).takeWhile (· ≠ 0) ++ [32]
  else if req = text "password_hash" then Field.passwordHash.get r ++ [32]
  else if req = text "email" then r.email ++ [32]
  else if req = text "email_verified" then boolText (Field.emailVerified.getBool r)
  else if req = text "phone_hash" then r.phone ++ [32]
  else if req = text "phone_discoverable" then boolText (Field.phoneDiscoverable.getBool r)
  else []

def buildOutput (r : UserInfo) (query : List UInt8) : List UInt8 :=
  if r.isDeleted then notFound
  else r.uid ++ [32] ++ (words isSpace query).flatMap (createOutput r)

def getData (t : Table) (query : List UInt8) : Option (List UInt8 × Table) :=
  let uid := t.resolve (firstWord query)
  match t.cache.find uid with
  | some record => (t.touch t.cache uid record).map (buildOutput record query, ·)
  | none =>
    match t.recordOf uid with
    | none => some (notFound, t)
    | some record =>
      if record.isDeleted then some (notFound, t)
      else (t.touch t.cache.makeRoom uid record).map (buildOutput record query, ·)

/-- The records in the slots that are used. -/
def records (t : Table) : List UserInfo := (t.memory.take t.currentRecords).map cipher

def getAllRecords (t : Table) : List UserInfo := t.records.filter fun r => !r.isDeleted

theorem isEmpty_cipher_congr {r r' : UserInfo} (h : r.uid = r'.uid) :
    isEmpty (cipher r) = isEmpty (cipher r') := by
  rw [UserInfo.uid, UserInfo.uid] at h
  rw [isEmpty, isEmpty, UserInfo.uid, UserInfo.uid, get_cipher, get_cipher, h]

/-! ## What operations do to the records -/

theorem loadIndex_frame (t : Table) (i : ℕ) (slots : List UserInfo) :
    (t.loadIndex i slots).memory = t.memory ∧ (t.loadIndex i slots).cache = t.cache := by
  induction slots generalizing t i with
  | nil => exact ⟨rfl, rfl⟩
  | cons slot slots ih =>
    rw [loadIndex]
    by_cases hslot : isEmpty slot
    · rw [if_pos hslot]
      exact ⟨rfl, rfl⟩
    · rw [if_neg hslot]
      exact ih (t.index i (cipher slot)) (i + 1)

theorem currentRecords_loadIndex (t : Table) (i : ℕ) (slots : List UserInfo) :
    (t.loadIndex i slots).currentRecords = i + (slots.takeWhile (!isEmpty ·)).length := by
  induction slots generalizing t i with
  | nil => rfl
  | cons slot slots ih =>
    rw [loadIndex]
    by_cases hslot : isEmpty slot
    · simp [hslot]
    · rw [if_neg hslot, ih]
      simp [hslot]
      omega

theorem currentRecords_initStorage (file : List UserInfo) :
    (initStorage file).currentRecords = (file.takeWhile (!isEmpty ·)).length := by
  have hload := currentRecords_loadIndex (mapped file) 0 file
  rwa [Nat.zero_add] at hload

theorem memory_initStorage (file : List UserInfo) :
    ∃ k, (initStorage file).memory = file ++ List.replicate k UserInfo.zero := by
  by_cases h : 1000 ≤ file.length - ((mapped file).loadIndex 0 file).currentRecords
  · refine ⟨0, ?_⟩
    simp [initStorage, h]
  · exact ⟨_, by simp only [initStorage, if_neg h]; rfl⟩

theorem records_initStorage (file : List UserInfo) :
    (initStorage file).records = (file.takeWhile (!isEmpty ·)).map cipher := by
  obtain ⟨k, hk⟩ := memory_initStorage file
  obtain ⟨rest, hrest⟩ := List.takeWhile_prefix (!isEmpty ·) (l := file)
  rw [records, hk, currentRecords_initStorage]
  congr 1
  nth_rewrite 2 [← hrest]
  rw [List.append_assoc, List.take_left]

theorem le_initStorage (file : List UserInfo) :
    (initStorage file).currentRecords ≤ (initStorage file).memory.length := by
  obtain ⟨k, hk⟩ := memory_initStorage file
  rw [hk, currentRecords_initStorage, List.length_append]
  have := (List.takeWhile_prefix (!isEmpty ·) (l := file)).length_le
  omega

theorem lt_headroom (records : ℕ) : records < headroom records := by
  rw [headroom]
  omega

theorem memory_ensureCapacity (t : Table) (needed : ℕ) :
    ∃ k, (t.ensureCapacity needed).memory = t.memory ++ List.replicate k UserInfo.zero := by
  by_cases h : needed ≤ t.memory.length
  · exact ⟨0, by simp [ensureCapacity, h]⟩
  · exact ⟨_, by simp only [ensureCapacity, if_neg h]; rfl⟩

theorem le_ensureCapacity (t : Table) (needed : ℕ) :
    needed ≤ (t.ensureCapacity needed).memory.length := by
  by_cases h : needed ≤ t.memory.length
  · simpa only [ensureCapacity, if_pos h] using h
  · have := lt_headroom needed
    simp [ensureCapacity, if_neg h, grow]
    omega

theorem records_store {env : TableEnv} {t : Table} (hfits : t.currentRecords ≤ t.memory.length)
    (uid : Key) (slot : UserInfo) : (t.store env uid slot).records = t.records ++ [cipher slot] := by
  obtain ⟨k, hk⟩ := t.memory_ensureCapacity (t.currentRecords + 1)
  have hle := t.le_ensureCapacity (t.currentRecords + 1)
  have hrecords : (t.store env uid slot).records
      = (((t.ensureCapacity (t.currentRecords + 1)).memory.set t.currentRecords slot).take
          (t.currentRecords + 1)).map cipher := rfl
  rw [hrecords, List.take_add_one, List.getElem?_set_self (by omega), List.take_set_of_le le_rfl, hk,
    List.take_append_of_le_length hfits, List.map_append]
  rfl

theorem records_set (t : Table) (i : ℕ) (slot : UserInfo) :
    { t with memory := t.memory.set i slot }.records = t.records.set i (cipher slot) := by
  rw [records, records, List.take_set, List.map_set]

/-! ## What calls do -/

section Calls

variable {env : TableEnv} {t t' : Table} {ok : Bool} {line : List UInt8}

theorem writeTheData_eq_some (h : t.writeTheData env line = some (ok, t')) :
    (ok = false ∧ t' = t) ∨
      ok = true ∧ ∃ r cache, newRecord env.crc32 line = some r ∧
        t.cache.makeRoom.updateLFU r.uid (cipher r) = some cache ∧
        t' = { t.store env r.uid (cipher r) with cache } := by
  rw [writeTheData] at h
  cases hr : newRecord env.crc32 line with
  | none =>
    rw [hr] at h
    cases h
    exact .inl ⟨rfl, rfl⟩
  | some r =>
    rw [hr] at h
    obtain ⟨_, htouch, heq⟩ := Option.map_eq_some_iff.mp h
    obtain ⟨cache, hcache, rfl⟩ := Option.map_eq_some_iff.mp htouch
    cases heq
    exact .inr ⟨rfl, r, cache, rfl, hcache, rfl⟩

theorem updateTheData_eq_some (h : t.updateTheData env line = some (ok, t')) :
    (ok = false ∧ t' = t) ∨
      ok = true ∧ ∃ r i cache, newRecord env.crc32 line = some r ∧ t.pageNum r.uid = some i ∧
        (cache = t.cache ∧ t.cache.find r.uid = none ∨
          (t.cache.find r.uid).isSome ∧ t.cache.updateLFU r.uid (cipher r) = some cache) ∧
        t' = { t with memory := t.memory.set i (cipher r), cache } := by
  rw [updateTheData] at h
  cases hr : newRecord env.crc32 line with
  | none =>
    rw [hr] at h
    cases h
    exact .inl ⟨rfl, rfl⟩
  | some r =>
    cases hi : t.pageNum r.uid with
    | none =>
      simp only [hr, hi] at h
      cases h
      exact .inl ⟨rfl, rfl⟩
    | some i =>
      simp only [hr, hi] at h
      cases hfind : t.cache.find r.uid with
      | none =>
        simp only [hfind] at h
        cases h
        exact .inr ⟨rfl, r, i, _, rfl, hi, .inl ⟨rfl, hfind⟩, rfl⟩
      | some cached =>
        simp only [hfind] at h
        obtain ⟨_, htouch, heq⟩ := Option.map_eq_some_iff.mp h
        obtain ⟨cache, hcache, rfl⟩ := Option.map_eq_some_iff.mp htouch
        cases heq
        exact .inr ⟨rfl, r, i, cache, rfl, hi, .inr ⟨by rw [hfind]; rfl, hcache⟩, rfl⟩

theorem deleteData_eq {identifier : Key} (h : t.deleteData env identifier = (ok, t')) :
    (ok = false ∧ t' = t) ∨
      ok = true ∧ ∃ i o, t.pageNum (t.resolve identifier) = some i ∧ t.recordAt i = some o ∧
        o.isDeleted = false ∧ t' = t.markDeleted env (t.resolve identifier) i o := by
  rw [deleteData] at h
  cases hi : t.pageNum (t.resolve identifier) with
  | none =>
    simp only [hi] at h
    cases h
    exact .inl ⟨rfl, rfl⟩
  | some i =>
    cases ho : t.recordAt i with
    | none =>
      simp only [hi, ho] at h
      cases h
      exact .inl ⟨rfl, rfl⟩
    | some o =>
      simp only [hi, ho] at h
      cases hdel : o.isDeleted with
      | true =>
        rw [hdel] at h
        cases h
        exact .inl ⟨rfl, rfl⟩
      | false =>
        rw [hdel] at h
        cases h
        exact .inr ⟨rfl, i, o, rfl, ho, hdel, rfl⟩

theorem getData_eq_some {query out : List UInt8} (h : t.getData query = some (out, t')) :
    ∃ cache, t' = { t with cache } ∧ (cache = t.cache ∨ ∃ c key value,
      (c = t.cache ∨ c = t.cache.makeRoom) ∧ c.updateLFU key value = some cache) := by
  rw [getData] at h
  split at h
  next =>
    obtain ⟨_, htouch, heq⟩ := Option.map_eq_some_iff.mp h
    obtain ⟨cache, hcache, rfl⟩ := Option.map_eq_some_iff.mp htouch
    cases heq
    exact ⟨cache, rfl, .inr ⟨_, _, _, .inl rfl, hcache⟩⟩
  next =>
    split at h
    next =>
      cases h
      exact ⟨_, rfl, .inl rfl⟩
    next =>
      split at h
      next =>
        cases h
        exact ⟨_, rfl, .inl rfl⟩
      next =>
        obtain ⟨_, htouch, heq⟩ := Option.map_eq_some_iff.mp h
        obtain ⟨cache, hcache, rfl⟩ := Option.map_eq_some_iff.mp htouch
        cases heq
        exact ⟨cache, rfl, .inr ⟨_, _, _, .inr rfl, hcache⟩⟩

end Calls

/-! ## Pages -/

/-- A page has the id that it is for. -/
def Paged (pageNum : Key → Option ℕ) (recs : List UserInfo) : Prop :=
  ∀ uid i, pageNum uid = some i → ∃ r, recs[i]? = some r ∧ r.uid = uid

theorem Paged.append {pageNum : Key → Option ℕ} {recs : List UserInfo} (h : Paged pageNum recs)
    (r : UserInfo) : Paged (Function.update pageNum r.uid (some recs.length)) (recs ++ [r]) := by
  intro uid i hpage
  by_cases huid : uid = r.uid
  · rw [huid, Function.update_self] at hpage
    cases hpage
    exact ⟨r, List.getElem?_concat_length, huid.symm⟩
  · rw [Function.update_of_ne huid] at hpage
    obtain ⟨r', hr', huid'⟩ := h uid i hpage
    have hi := (List.getElem?_eq_some_iff.mp hr').1
    exact ⟨r', by rw [List.getElem?_append_left hi, hr'], huid'⟩

theorem Paged.set {pageNum : Key → Option ℕ} {recs : List UserInfo} (h : Paged pageNum recs)
    {uid : Key} {i : ℕ} {r : UserInfo} (hpage : pageNum uid = some i) (huid : r.uid = uid) :
    Paged pageNum (recs.set i r) := by
  intro uid' i' hpage'
  obtain ⟨r', hr', huid'⟩ := h uid' i' hpage'
  by_cases hi : i = i'
  · subst hi
    obtain ⟨o, ho, huido⟩ := h uid i hpage
    cases ho.symm.trans hr'
    refine ⟨r, ?_, huid.trans (huido.symm.trans huid')⟩
    rw [List.getElem?_set_self (List.getElem?_eq_some_iff.mp hr').1]
  · exact ⟨r', by rw [List.getElem?_set_ne hi, hr'], huid'⟩

/-- The records that are used are in the memory, and have the pages that the index says. -/
structure Sound (t : Table) : Prop where
  fits : t.currentRecords ≤ t.memory.length
  page : Paged t.pageNum t.records

variable {t : Table}

theorem Sound.recordAt (h : t.Sound) {uid : Key} {i : ℕ} (hpage : t.pageNum uid = some i) :
    t.recordAt i = t.records[i]? := by
  obtain ⟨r, hr, -⟩ := h.page uid i hpage
  have hi : i < t.currentRecords := by
    have hlt := (List.getElem?_eq_some_iff.mp hr).1
    simp [records] at hlt
    exact hlt.1
  rw [Table.recordAt, records, List.getElem?_map, List.getElem?_take_of_lt hi]

theorem Sound.length_records (h : t.Sound) : t.records.length = t.currentRecords := by
  simp [records, h.fits]

theorem Sound.store (h : t.Sound) (env : TableEnv) (r : UserInfo) : (t.store env r.uid (cipher r)).Sound := by
  refine ⟨?_, ?_⟩
  · have hlen : (t.store env r.uid (cipher r)).memory.length
        = (t.ensureCapacity (t.currentRecords + 1)).memory.length := List.length_set
    rw [hlen]
    exact t.le_ensureCapacity (t.currentRecords + 1)
  · have hpage := h.page.append r
    rw [h.length_records] at hpage
    rw [records_store h.fits, cipher_cipher]
    exact hpage

theorem Sound.set (h : t.Sound) {uid : Key} {i : ℕ} {r : UserInfo} (hpage : t.pageNum uid = some i)
    (huid : r.uid = uid) : { t with memory := t.memory.set i (cipher r) }.Sound := by
  refine ⟨by simpa using h.fits, ?_⟩
  rw [records_set, cipher_cipher]
  exact h.page.set hpage huid

theorem Sound.recordOf_eq (h : t.Sound) (uid : Key) :
    t.recordOf uid = (t.pageNum uid).bind (t.records[·]?) := by
  rw [recordOf]
  cases hpage : t.pageNum uid with
  | none => rfl
  | some i => exact h.recordAt hpage

theorem Sound.uid_of_recordOf (h : t.Sound) {uid : Key} {r : UserInfo} (hr : t.recordOf uid = some r) :
    r.uid = uid := by
  rw [h.recordOf_eq] at hr
  obtain ⟨i, hpage, hget⟩ := Option.bind_eq_some_iff.mp hr
  obtain ⟨r', hr', huid⟩ := h.page uid i hpage
  cases hget.symm.trans hr'
  exact huid

theorem Sound.recordOf_store (h : t.Sound) (env : TableEnv) (r : UserInfo) :
    (t.store env r.uid (cipher r)).recordOf = Function.update t.recordOf r.uid (some r) := by
  funext uid
  have hpage : (t.store env r.uid (cipher r)).pageNum
      = Function.update t.pageNum r.uid (some t.currentRecords) := rfl
  rw [(h.store env r).recordOf_eq, hpage, records_store h.fits, cipher_cipher, ← h.length_records]
  by_cases huid : uid = r.uid
  · rw [huid, Function.update_self, Function.update_self]
    exact List.getElem?_concat_length
  · rw [Function.update_of_ne huid, Function.update_of_ne huid, h.recordOf_eq]
    cases hi : t.pageNum uid with
    | none => rfl
    | some i =>
      obtain ⟨o, ho, -⟩ := h.page uid i hi
      exact List.getElem?_append_left (List.getElem?_eq_some_iff.mp ho).1

theorem Sound.recordOf_set (h : t.Sound) {uid : Key} {i : ℕ} {r : UserInfo}
    (hpage : t.pageNum uid = some i) (huid : r.uid = uid) :
    { t with memory := t.memory.set i (cipher r) }.recordOf
      = Function.update t.recordOf uid (some r) := by
  funext uid'
  obtain ⟨o, ho, huido⟩ := h.page uid i hpage
  rw [(h.set hpage huid).recordOf_eq, records_set, cipher_cipher]
  by_cases heq : uid' = uid
  · rw [heq, Function.update_self, hpage]
    exact List.getElem?_set_self (List.getElem?_eq_some_iff.mp ho).1
  · rw [Function.update_of_ne heq, h.recordOf_eq]
    cases hi : t.pageNum uid' with
    | none => rfl
    | some i' =>
      -- Two ids have different pages.
      apply List.getElem?_set_ne
      rintro rfl
      obtain ⟨o', ho', huid'⟩ := h.page uid' i hi
      cases ho.symm.trans ho'
      exact heq (huid'.symm.trans huido)

theorem Sound.markDeleted (h : t.Sound) (env : TableEnv) {uid : Key} {i : ℕ}
    {o : UserInfo} (hpage : t.pageNum uid = some i) (ho : t.recordAt i = some o) :
    (t.markDeleted env uid i o).Sound := by
  rw [h.recordAt hpage] at ho
  obtain ⟨o', ho', huid⟩ := h.page uid i hpage
  cases ho.symm.trans ho'
  have hset := h.set (r := finish env.crc32 true o) hpage ((uid_finish true o).trans huid)
  exact ⟨hset.fits, hset.page⟩

theorem paged_loadIndex (recs : List UserInfo) {i : ℕ} (slots : List UserInfo)
    (hi : i = recs.length) (h : Paged t.pageNum recs) :
    Paged (t.loadIndex i slots).pageNum (recs ++ (slots.takeWhile (!isEmpty ·)).map cipher) := by
  induction slots generalizing t recs i with
  | nil => simpa [loadIndex] using h
  | cons slot slots ih =>
    rw [loadIndex]
    by_cases hslot : isEmpty slot
    · simpa [hslot] using h
    · have hentered : Paged (t.index i (cipher slot)).pageNum (recs ++ [cipher slot]) := by
        rw [hi]
        exact h.append (cipher slot)
      simpa [hslot] using ih (recs ++ [cipher slot]) (by simp [hi]) hentered

theorem sound_initStorage (file : List UserInfo) : (initStorage file).Sound := by
  refine ⟨le_initStorage file, ?_⟩
  have hloaded : Paged ((mapped file).loadIndex 0 file).pageNum
      ([] ++ (file.takeWhile (!isEmpty ·)).map cipher) :=
    paged_loadIndex [] file rfl (by simp [Paged, mapped])
  rw [records_initStorage]
  exact hloaded

end Table

end IocpChat

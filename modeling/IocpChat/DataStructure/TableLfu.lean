import IocpChat.DataStructure.TableGrowth

/-!
# How the cache counts uses

The cache of the table is meant to drop the record that was used least.  `freqList` has a node for
each number of uses, with the keys that were used so often, and `keyToFreq` has for each key an
iterator to its node.

`updateLFU` enters a new key into the last node and sets its iterator to `freqList.end()`, where
there is no node.  So the iterators are wrong from the first record on, and the next use of that
record dereferences one.  As long as no record is used twice, the counts are right: there is one
node, for one use, and the oldest key is evicted.  A record that is deleted leaves its key in the
node.  When that key has come to the front, `evictLFU` removes it and not a record, and the cache
grows beyond its limit.

The model of `Table` leaves out the iterators.  Here is the cache with them, driven by the calls
that the functions of the table make on it.

## Main definitions

* `FreqIter`, `Lfu` — the cache with its iterators.
* `Table.lfuCalls` — the calls that a function of the table makes on its cache.
* `LfuTable`, `LfuTable.step` — a table, with the cache and the number of uses of each key.
* `UsesCounted`, `UsesCounted.Counts`, `UsesCounted.Correct` — what is asked of the cache.
* `UsesCounted.Fresh` — when a call on the cache does what is asked, its iterators aside.
-/

namespace IocpChat

open Bytes Words Transition

/-! ## The code -/

/-- An iterator of `freqList`: `end()`, or a node. -/
inductive FreqIter
  | past
  | node (id : ℕ)
  deriving DecidableEq

/-- A node of `freqList`, with the number by which iterators refer to it. -/
structure LfuNode where
  id : ℕ
  freq : ℕ
  keys : List Key

/-- The members of `table` that are for the cache.  `made` counts the nodes that were made. -/
structure Lfu where
  cacheMap : List (Key × UserInfo × FreqIter)
  keyToFreq : List (Key × FreqIter)
  freqList : List LfuNode
  made : ℕ

namespace Lfu

def empty : Lfu := ⟨[], [], [], 0⟩

def find (c : Lfu) (key : Key) : Option (UserInfo × FreqIter) := c.cacheMap.lookup key

/-- `cacheMap.erase` and `keyToFreq.erase`. -/
def erase (c : Lfu) (key : Key) : Lfu :=
  { c with cacheMap := c.cacheMap.filter (·.1 ≠ key), keyToFreq := c.keyToFreq.filter (·.1 ≠ key) }

def evictLFU (c : Lfu) : Lfu :=
  match c.freqList with
  | ⟨id, freq, key :: keys⟩ :: nodes =>
    { c.erase key with freqList := if keys = [] then nodes else ⟨id, freq, keys⟩ :: nodes }
  | _ => c

/-- `freqList.push_back({freq, {}})`. -/
def pushBack (c : Lfu) (freq : ℕ) : Lfu :=
  { c with freqList := c.freqList ++ [⟨c.made, freq, []⟩], made := c.made + 1 }

/-- `freqList.back().freq`, if there is a node. -/
def backFreq (c : Lfu) : Option ℕ := c.freqList.getLast?.map LfuNode.freq

/-- `freqList.back().keys.push_back(key)`. -/
def addToBack (key : Key) : List LfuNode → List LfuNode
  | [] => []
  | [node] => [{ node with keys := node.keys ++ [key] }]
  | node :: nodes => node :: addToBack key nodes

/-- The branch of `updateLFU` for a new key, up to `cacheMap`. -/
def enter (c : Lfu) (key : Key) : Lfu :=
  let c := if c.backFreq = some 1 then c else c.pushBack 1
  { c with freqList := addToBack key c.freqList, keyToFreq := (key, .past) :: c.keyToFreq }

/-- The branch of `updateLFU` for a key that was seen, up to `cacheMap`.  There is no result if its
iterator is `end()`, or refers to a node that was erased.  The key is removed from its node and not
entered into another. -/
def promote (c : Lfu) (key : Key) : FreqIter → Option Lfu
  | .past => none
  | .node id =>
    (c.freqList.find? (·.id = id)).map fun node =>
      let keys := node.keys.filter (· ≠ key)
      if keys = [] then { c with freqList := c.freqList.filter (·.id ≠ id) }
      else
        let c := { c with
          freqList := c.freqList.map fun n : LfuNode =>
            if n.id = id then ⟨id, n.freq + 1, keys⟩ else n }
        if c.backFreq.any (· < node.freq + 1) then c.pushBack (node.freq + 1) else c

/-- `cacheMap[key] = {value, keyToFreq[key]}`. -/
def store (c : Lfu) (key : Key) (value : UserInfo) : Lfu :=
  { c with
    cacheMap := (key, value, (c.keyToFreq.lookup key).getD .past) :: c.cacheMap.filter (·.1 ≠ key) }

def updateLFU (c : Lfu) (key : Key) (value : UserInfo) : Option Lfu :=
  match c.keyToFreq.lookup key with
  | some it => (c.promote key it).map (·.store key value)
  | none => some ((c.enter key).store key value)

end Lfu

inductive LfuCall
  | evictLFU
  | updateLFU (key : Key) (value : UserInfo)
  | erase (key : Key)

def Lfu.exec (c : Lfu) : LfuCall → Option Lfu
  | .evictLFU => some c.evictLFU
  | .updateLFU key value => c.updateLFU key value
  | .erase key => some (c.erase key)

/-- A call on the cache without its iterators. -/
def Cache.exec (c : Cache) : LfuCall → Option Cache
  | .evictLFU => some c.evictLFU
  | .updateLFU key value => c.updateLFU key value
  | .erase key => some (c.erase key)

namespace Table

section Calls

variable (env : TableEnv)

/-- A record is entered after room was made for it. -/
def enterCalls (t : Table) (key : Key) (value : UserInfo) : List LfuCall :=
  if Cache.limit ≤ t.cache.cacheMap.length then [.evictLFU, .updateLFU key value]
  else [.updateLFU key value]

/-- The calls on the cache that a function makes. -/
def lfuCalls (t : Table) : CacheOp → List LfuCall
  | .write line => (newRecord env.crc32 line).elim [] fun r => t.enterCalls r.uid (cipher r)
  | .update line =>
    (newRecord env.crc32 line).elim [] fun r =>
      if (t.pageNum r.uid).isSome && (t.cache.find r.uid).isSome then
        [.updateLFU r.uid (cipher r)]
      else []
  | .delete identifier =>
    if (t.deleteData env identifier).1 then [.erase (t.resolve identifier)] else []
  | .get query =>
    let uid := t.resolve (firstWord query)
    match t.cache.find uid with
    | some r => [.updateLFU uid r]
    | none =>
      match t.recordOf uid with
      | none => []
      | some r => if r.isDeleted then [] else t.enterCalls uid r

end Calls

variable {env : TableEnv} {t : Table} {op : CacheOp}

theorem run_enterCalls (t : Table) (key : Key) (value : UserInfo) :
    Transition.run Cache.exec t.cache (t.enterCalls key value) =
      t.cache.makeRoom.updateLFU key value := by
  rw [enterCalls, Cache.makeRoom]
  split
  · rw [run_cons rfl, run_singleton, Cache.exec]
  · rw [run_singleton, Cache.exec]

theorem map_cache_touch (t : Table) (c : Cache) (key : Key) (value : UserInfo) :
    (t.touch c key value).map Table.cache = c.updateLFU key value := by
  rw [touch, Option.map_map]
  cases c.updateLFU key value with
  | none | some => rfl

/-- **The calls that are made on the cache.** -/
theorem map_cache_act (env : TableEnv) (t : Table) (op : CacheOp) :
    (t.act env op).map Table.cache = Transition.run Cache.exec t.cache (t.lfuCalls env op) := by
  cases op with
  | write line =>
    simp only [act, perform, writeTheData, lfuCalls]
    cases hr : newRecord env.crc32 line with
    | none => rfl
    | some r =>
      simp only [Option.elim_some, run_enterCalls, Option.map_map]
      exact map_cache_touch ..
  | update line =>
    simp only [act, perform, updateTheData, lfuCalls]
    cases hr : newRecord env.crc32 line with
    | none => rfl
    | some r =>
      cases hpage : t.pageNum r.uid with
      | none => simp [hpage, Transition.run]
      | some i =>
        by_cases hfind : (t.cache.find r.uid).isSome = true
        · simp only [Option.elim_some, hpage, hfind, if_true, Option.isSome_some,
            Bool.and_self, run_singleton, Cache.exec, Option.map_map]
          exact map_cache_touch ..
        · simp [hpage, hfind, Transition.run]
  | delete identifier =>
    simp only [act, perform, lfuCalls, Option.map_some]
    cases hdelete : t.deleteData env identifier with
    | mk ok t' =>
      rcases deleteData_eq hdelete with ⟨rfl, rfl⟩ | ⟨rfl, i, o, -, -, -, rfl⟩ <;> rfl
  | get query =>
    simp only [act, perform, getData, lfuCalls]
    cases hfind : t.cache.find (t.resolve (firstWord query)) with
    | some r =>
      simp only [run_singleton, Cache.exec, Option.map_map]
      exact map_cache_touch ..
    | none =>
      cases hrecord : t.recordOf (t.resolve (firstWord query)) with
      | none => rfl
      | some r =>
        by_cases hdeleted : r.isDeleted = true
        · simp [hdeleted, Transition.run]
        · simp [hdeleted, run_enterCalls, Option.map_map]
          exact map_cache_touch ..

theorem enterCalls_cases (t : Table) (key : Key) (value : UserInfo) :
    (t.enterCalls key value = [.updateLFU key value] ∧ t.cache.cacheMap.length < Cache.limit) ∨
      t.enterCalls key value = [.evictLFU, .updateLFU key value] := by
  by_cases hfull : Cache.limit ≤ t.cache.cacheMap.length
  · exact .inr (if_pos hfull)
  · exact .inl ⟨if_neg hfull, by omega⟩

/-- **What a function does with the cache.**  A record is entered if there is room or it is cached,
and otherwise one is evicted first. -/
theorem lfuCalls_cases (env : TableEnv) (t : Table) (op : CacheOp) :
    t.lfuCalls env op = [] ∨ (∃ key, t.lfuCalls env op = [.erase key]) ∨
      (∃ key value, t.lfuCalls env op = [.updateLFU key value] ∧
        (t.cache.cacheMap.length < Cache.limit ∨ (t.cache.find key).isSome)) ∨
      ∃ key value, t.lfuCalls env op = [.evictLFU, .updateLFU key value] := by
  have henter (key : Key) (value : UserInfo) (heq : t.lfuCalls env op = t.enterCalls key value) :
      (∃ key value, t.lfuCalls env op = [.updateLFU key value] ∧
        (t.cache.cacheMap.length < Cache.limit ∨ (t.cache.find key).isSome)) ∨
      ∃ key value, t.lfuCalls env op = [.evictLFU, .updateLFU key value] := by
    rcases t.enterCalls_cases key value with ⟨hcalls, hroom⟩ | hcalls
    · exact .inl ⟨key, value, heq.trans hcalls, .inl hroom⟩
    · exact .inr ⟨key, value, heq.trans hcalls⟩
  cases op with
  | write line =>
    cases hr : newRecord env.crc32 line with
    | none => exact .inl (by simp [lfuCalls, hr])
    | some r => exact .inr (.inr (henter r.uid (cipher r) (by simp [lfuCalls, hr])))
  | update line =>
    cases hr : newRecord env.crc32 line with
    | none => exact .inl (by simp [lfuCalls, hr])
    | some r =>
      by_cases hcached : ((t.pageNum r.uid).isSome && (t.cache.find r.uid).isSome) = true
      · have hfind := (Bool.and_eq_true_iff.mp hcached).2
        refine .inr (.inr (.inl ⟨r.uid, cipher r, ?_, .inr hfind⟩))
        simp only [lfuCalls, hr, Option.elim_some, if_pos hcached]
      · exact .inl (by simp only [lfuCalls, hr, Option.elim_some, if_neg hcached])
  | delete identifier =>
    by_cases hok : (t.deleteData env identifier).1 = true
    · exact .inr (.inl ⟨t.resolve identifier, if_pos hok⟩)
    · exact .inl (if_neg hok)
  | get query =>
    cases hfind : t.cache.find (t.resolve (firstWord query)) with
    | some r =>
      refine .inr (.inr (.inl ⟨t.resolve (firstWord query), r, ?_, .inr (by rw [hfind]; rfl)⟩))
      simp only [lfuCalls, hfind]
    | none =>
      cases hrecord : t.recordOf (t.resolve (firstWord query)) with
      | none => exact .inl (by simp only [lfuCalls, hfind, hrecord])
      | some r =>
        by_cases hdeleted : r.isDeleted = true
        · exact .inl (by simp only [lfuCalls, hfind, hrecord, if_pos hdeleted])
        · refine .inr (.inr (henter (t.resolve (firstWord query)) r ?_))
          simp only [lfuCalls, hfind, hrecord, if_neg hdeleted]

end Table

/-! ## The iterators -/

namespace Lfu

/-- The cache without its iterators. -/
def toCache (c : Lfu) : Cache where
  cacheMap := c.cacheMap.map fun e => (e.1, e.2.1)
  keyToFreq := c.keyToFreq.map Prod.fst
  freqList := c.freqList.map fun n => ⟨n.freq, n.keys⟩

/-- No iterator refers to a node. -/
def AtEnd (c : Lfu) : Prop := ∀ e ∈ c.keyToFreq, e.2 = .past

variable {c c' : Lfu} {key k : Key} {value : UserInfo} {call : LfuCall}

theorem toCache_erase (c : Lfu) (key : Key) : (c.erase key).toCache = c.toCache.erase key := by
  simp only [toCache, erase, Cache.erase, List.filter_map]
  rfl

theorem AtEnd.erase (h : c.AtEnd) (key : Key) : (c.erase key).AtEnd :=
  fun e he => h e (List.mem_of_mem_filter he)

theorem AtEnd.evictLFU (h : c.AtEnd) : c.evictLFU.AtEnd := by
  rw [Lfu.evictLFU]
  split
  · exact h.erase _
  · exact h

theorem toCache_evictLFU (c : Lfu) : c.evictLFU.toCache = c.toCache.evictLFU := by
  cases hlist : c.freqList with
  | nil => simp [Lfu.evictLFU, Cache.evictLFU, toCache, hlist]
  | cons node nodes =>
    obtain ⟨id, freq, keys⟩ := node
    cases keys with
    | nil => simp [Lfu.evictLFU, Cache.evictLFU, toCache, hlist]
    | cons key keys =>
      have herase := c.toCache_erase key
      have hcache : c.toCache.freqList =
          ⟨freq, key :: keys⟩ :: nodes.map fun n => ⟨n.freq, n.keys⟩ := by
        simp [toCache, hlist]
      simp only [Lfu.evictLFU, hlist, Cache.evictLFU, hcache, ← herase]
      by_cases hkeys : keys = [] <;> simp [toCache, hkeys]

theorem map_addToBack (key : Key) (made : ℕ) (nodes : List LfuNode) :
    (addToBack key (if nodes.getLast?.map LfuNode.freq = some 1 then nodes
        else nodes ++ [⟨made, 1, []⟩])).map (fun n => (⟨n.freq, n.keys⟩ : FreqNode)) =
      Cache.pushKey key (nodes.map fun n => ⟨n.freq, n.keys⟩) := by
  induction nodes with
  | nil => rfl
  | cons node nodes ih =>
    cases nodes with
    | nil =>
      by_cases hone : node.freq = 1 <;> simp [addToBack, Cache.pushKey, hone]
    | cons next nodes =>
      rw [List.getLast?_cons_cons]
      refine Eq.trans ?_ (congrArg (List.cons _) ih)
      split <;> rfl

theorem lookup_keyToFreq_isSome :
    (c.keyToFreq.lookup key).isSome ↔ key ∈ c.toCache.keyToFreq := by
  rw [List.lookup_isSome_iff]
  simp [toCache, eq_comm (a := key)]

theorem isSome_find : (c.find k).isSome ↔ ∃ e ∈ c.cacheMap, e.1 = k := by
  rw [find, List.lookup_isSome_iff]
  simp only [beq_iff_eq, eq_comm (a := k)]

theorem isSome_find_toCache : (c.toCache.find k).isSome ↔ (c.find k).isSome := by
  simp [Cache.isSome_find, isSome_find, toCache]

theorem AtEnd.lookup (h : c.AtEnd) {it : FreqIter} (hlookup : c.keyToFreq.lookup key = some it) :
    it = .past := by
  obtain ⟨before, after, heq, -⟩ := List.lookup_eq_some_iff.mp hlookup
  exact h (key, it) (by simp [heq])

/-- A use of a key that was seen is undefined, because its iterator is `end()`. -/
theorem AtEnd.updateLFU_of_mem (h : c.AtEnd) (hkey : key ∈ c.toCache.keyToFreq) (value : UserInfo) :
    c.updateLFU key value = none := by
  obtain ⟨it, hlookup⟩ := Option.isSome_iff_exists.mp (lookup_keyToFreq_isSome.mpr hkey)
  simp [updateLFU, hlookup, h.lookup hlookup, promote]

theorem updateLFU_of_not_mem (hkey : key ∉ c.toCache.keyToFreq) (value : UserInfo) :
    c.updateLFU key value = some ((c.enter key).store key value) := by
  rw [← lookup_keyToFreq_isSome, Option.not_isSome_iff_eq_none] at hkey
  simp [updateLFU, hkey]

theorem AtEnd.eq_of_updateLFU (h : c.AtEnd) (hupdate : c.updateLFU key value = some c') :
    key ∉ c.toCache.keyToFreq ∧ c' = (c.enter key).store key value := by
  by_cases hkey : key ∈ c.toCache.keyToFreq
  · rw [h.updateLFU_of_mem hkey] at hupdate
    cases hupdate
  · rw [updateLFU_of_not_mem hkey] at hupdate
    exact ⟨hkey, (Option.some.inj hupdate).symm⟩

theorem freqList_enter (c : Lfu) (key : Key) :
    (c.enter key).freqList = addToBack key
      (if c.freqList.getLast?.map LfuNode.freq = some 1 then c.freqList
        else c.freqList ++ [⟨c.made, 1, []⟩]) := by
  by_cases hback : c.backFreq = some 1
  · simp only [enter, if_pos hback, if_pos (show c.freqList.getLast?.map _ = _ from hback)]
  · simp only [enter, if_neg hback, if_neg (show ¬ c.freqList.getLast?.map _ = _ from hback),
      pushBack]

theorem maps_enter (c : Lfu) (key : Key) :
    (c.enter key).cacheMap = c.cacheMap ∧
      (c.enter key).keyToFreq = (key, .past) :: c.keyToFreq := by
  rw [enter]
  split <;> exact ⟨rfl, rfl⟩

theorem toCache_store_enter (c : Lfu) (key : Key) (value : UserInfo) :
    ((c.enter key).store key value).toCache =
      { cacheMap := (key, value) :: c.toCache.cacheMap.filter (·.1 ≠ key)
        keyToFreq := key :: c.toCache.keyToFreq
        freqList := Cache.pushKey key c.toCache.freqList } := by
  obtain ⟨hmap, hkeys⟩ := c.maps_enter key
  simp only [toCache, store, hmap, hkeys, List.map_cons, List.filter_map, freqList_enter,
    map_addToBack]
  rfl

theorem isSome_find_store_enter (c : Lfu) (key : Key) (value : UserInfo) :
    (((c.enter key).store key value).find k).isSome ↔ k = key ∨ (c.find k).isSome := by
  rw [← isSome_find_toCache, ← isSome_find_toCache, toCache_store_enter, Cache.isSome_find,
    Cache.isSome_find]
  by_cases hk : k = key
  · simp [hk]
  · simp [hk, Ne.symm hk]

theorem isSome_find_erase : ((c.erase key).find k).isSome ↔ (c.find k).isSome ∧ k ≠ key := by
  rw [isSome_find, isSome_find]
  constructor
  · rintro ⟨e, he, rfl⟩
    rw [erase, List.mem_filter, decide_eq_true_eq] at he
    exact ⟨⟨e, he.1, rfl⟩, he.2⟩
  · rintro ⟨⟨e, he, rfl⟩, hne⟩
    exact ⟨e, List.mem_filter.mpr ⟨he, decide_eq_true hne⟩, rfl⟩

/-- The first key of the first node. -/
def front (c : Lfu) : Option Key := c.freqList.head?.bind (·.keys.head?)

theorem evictLFU_of_none (h : c.front = none) : c.evictLFU = c := by
  rw [evictLFU]
  split
  next hlist => simp [front, hlist] at h
  next => rfl

theorem cacheMap_evictLFU (h : c.front = some key) :
    c.evictLFU.cacheMap = (c.erase key).cacheMap := by
  obtain ⟨⟨id, freq, keys⟩, hnode, hkey⟩ := Option.bind_eq_some_iff.mp h
  obtain ⟨nodes, hlist⟩ := List.head?_eq_some_iff.mp hnode
  obtain ⟨keys, rfl⟩ := List.head?_eq_some_iff.mp hkey
  simp [evictLFU, hlist]

theorem isSome_find_evictLFU (h : c.front = some key) :
    (c.evictLFU.find k).isSome ↔ (c.find k).isSome ∧ k ≠ key := by
  rw [← isSome_find_erase, find, cacheMap_evictLFU h, find]

theorem isSome_find_of_evictLFU (h : (c.evictLFU.find k).isSome) : (c.find k).isSome := by
  cases hfront : c.front with
  | none => rwa [evictLFU_of_none hfront] at h
  | some key => exact ((isSome_find_evictLFU hfront).mp h).1

/-- **The iterators decide nothing**: where one is used, it is `end()`. -/
theorem AtEnd.map_toCache_exec (h : c.AtEnd) (call : LfuCall) :
    (c.exec call).map toCache = c.toCache.exec call := by
  cases call with
  | evictLFU => exact congrArg some c.toCache_evictLFU
  | erase key => exact congrArg some (c.toCache_erase key)
  | updateLFU key value =>
    rw [Lfu.exec, Cache.exec]
    by_cases hkey : key ∈ c.toCache.keyToFreq
    · rw [h.updateLFU_of_mem hkey, Cache.updateLFU_of_mem hkey, Option.map_none]
    · rw [updateLFU_of_not_mem hkey, Cache.updateLFU_of_not_mem hkey, Option.map_some,
        toCache_store_enter]

theorem AtEnd.exec (h : c.AtEnd) (hexec : c.exec call = some c') : c'.AtEnd := by
  cases call with
  | evictLFU =>
    cases hexec
    exact h.evictLFU
  | erase key =>
    cases hexec
    exact h.erase key
  | updateLFU key value =>
    obtain ⟨-, rfl⟩ := h.eq_of_updateLFU hexec
    intro e he
    rw [store, (c.maps_enter key).2, List.mem_cons] at he
    rcases he with rfl | he
    · rfl
    · exact h e he

end Lfu

/-! ## One use -/

namespace Cache

/-- There is one node, for one use, and every key that was seen is in it. -/
structure OneUse (c : Cache) : Prop where
  keysAgree : c.KeysAgree
  one : c.freqList = [] ∨ ∃ keys, keys ≠ [] ∧ c.freqList = [⟨1, keys⟩]
  listed : ∀ k ∈ c.keyToFreq, ∃ node ∈ c.freqList, k ∈ node.keys

variable {c c' : Cache} {key : Key} {value : UserInfo} {call : LfuCall}

theorem oneUse_empty : empty.OneUse := ⟨keysAgree_empty, .inl rfl, by simp [empty]⟩

theorem OneUse.erase (h : c.OneUse) (key : Key) : (c.erase key).OneUse :=
  ⟨h.keysAgree.erase key, h.one, fun k hk => h.listed k (List.mem_of_mem_filter hk)⟩

theorem OneUse.evictLFU (h : c.OneUse) : c.evictLFU.OneUse := by
  refine ⟨h.keysAgree.evictLFU, ?_, ?_⟩
  · rcases h.one with hnil | ⟨_ | ⟨key, keys⟩, hne, hlist⟩
    · simp [Cache.evictLFU, hnil]
    · simp at hne
    · by_cases hkeys : keys = [] <;> simp [Cache.evictLFU, hlist, hkeys]
  · intro k hk
    rcases h.one with hnil | ⟨_ | ⟨key, keys⟩, hne, hlist⟩
    · simp only [Cache.evictLFU, hnil] at hk ⊢
      simpa [hnil] using h.listed k hk
    · simp at hne
    · have hk' : k ∈ c.keyToFreq ∧ k ≠ key := by
        simpa [Cache.evictLFU, hlist, Cache.erase] using hk
      have hmem : k ∈ keys := by
        simpa [hlist, hk'.2] using h.listed k hk'.1
      have hkeys : keys ≠ [] := List.ne_nil_of_mem hmem
      simpa [Cache.evictLFU, hlist, hkeys] using hmem

theorem OneUse.pushKey (h : c.OneUse) (key : Key) :
    ∃ keys, Cache.pushKey key c.freqList = [⟨1, keys ++ [key]⟩] ∧ ∀ k ∈ c.keyToFreq, k ∈ keys := by
  rcases h.one with hnil | ⟨keys, -, hlist⟩
  · refine ⟨[], by rw [hnil]; rfl, ?_⟩
    simpa [hnil] using h.listed
  · refine ⟨keys, by rw [hlist]; rfl, ?_⟩
    simpa [hlist] using h.listed

theorem OneUse.updateLFU (h : c.OneUse) (hupdate : c.updateLFU key value = some c') :
    c'.OneUse := by
  have hkeys := h.keysAgree.updateLFU hupdate
  obtain ⟨-, rfl⟩ := eq_of_updateLFU hupdate
  obtain ⟨keys, hpush, hmem⟩ := h.pushKey key
  refine ⟨hkeys, .inr ⟨keys ++ [key], by simp, hpush⟩, ?_⟩
  intro k hk
  rw [List.mem_cons] at hk
  simp [hpush]
  exact hk.symm.imp_left (hmem k)

theorem OneUse.exec (h : c.OneUse) (hexec : c.exec call = some c') : c'.OneUse := by
  cases call with
  | evictLFU =>
    cases hexec
    exact h.evictLFU
  | erase key =>
    cases hexec
    exact h.erase key
  | updateLFU key value => exact h.updateLFU hexec

end Cache

/-! ## Counted uses -/

/-- The cache, with the number of `updateLFU` calls on each key since it was entered. -/
structure UsesCounted where
  lfu : Lfu
  uses : Key → ℕ

namespace UsesCounted

def count (u : UsesCounted) : LfuCall → Key → ℕ
  | .updateLFU key _ => fun k =>
    if k = key then if (u.lfu.find key).isSome then u.uses key + 1 else 1 else u.uses k
  | .evictLFU | .erase _ => u.uses

def exec (u : UsesCounted) (call : LfuCall) : Option UsesCounted :=
  (u.lfu.exec call).map fun c => ⟨c, u.count call⟩

def nodesOf (u : UsesCounted) (key : Key) : List LfuNode :=
  u.lfu.freqList.filter (·.keys.contains key)

/-- What is asked of the cache, its iterators aside. -/
structure Counts (u : UsesCounted) : Prop where
  keys : ∀ key, (u.lfu.keyToFreq.lookup key).isSome ↔ (u.lfu.find key).isSome
  counted : ∀ key, (u.lfu.find key).isSome →
    ∃ node, u.nodesOf key = [node] ∧ node.freq = u.uses key
  increasing : u.lfu.freqList.Pairwise (·.freq < ·.freq)
  nonempty : ∀ node ∈ u.lfu.freqList, node.keys ≠ []
  bounded : u.lfu.cacheMap.length ≤ Cache.limit

/-- What is asked of the cache: the iterator of each key is to its node. -/
structure Correct (u : UsesCounted) : Prop extends u.Counts where
  linked : ∀ key, (u.lfu.find key).isSome →
    ∃ node, u.nodesOf key = [node] ∧ u.lfu.keyToFreq.lookup key = some (.node node.id)

/-- `evictLFU` removes one record, and no other was used less. -/
def EvictsLeast (u : UsesCounted) : Prop :=
  ∃ key, (u.lfu.find key).isSome ∧ (∀ k, (u.lfu.find k).isSome → u.uses key ≤ u.uses k) ∧
    ∀ k, (u.lfu.evictLFU.find k).isSome ↔ (u.lfu.find k).isSome ∧ k ≠ key

def EvictsRight (u : UsesCounted) (call : LfuCall) : Prop := call = .evictLFU → u.EvictsLeast

/-- The first key of the first node is that of a cached record. -/
def FrontCached (u : UsesCounted) : Prop := ∃ key, u.lfu.front = some key ∧ (u.lfu.find key).isSome

/-- What is used is not cached, and what is evicted is. -/
def Fresh (u : UsesCounted) : LfuCall → Prop
  | .evictLFU => u.FrontCached
  | .updateLFU key _ => ¬ (u.lfu.find key).isSome
  | .erase _ => True

/-- Each record was used once, and the iterators are all `end()`. -/
structure Plain (u : UsesCounted) : Prop where
  atEnd : u.lfu.AtEnd
  oneUse : u.lfu.toCache.OneUse
  once : ∀ key, (u.lfu.find key).isSome → u.uses key = 1

variable {u u' : UsesCounted} {key : Key} {call : LfuCall} {calls : List LfuCall}

theorem Plain.not_isSome_find (h : u.Plain) (hkey : key ∉ u.lfu.toCache.keyToFreq) :
    ¬ (u.lfu.find key).isSome := by
  rwa [← Lfu.isSome_find_toCache, ← h.oneUse.keysAgree key]

theorem Plain.exec (h : u.Plain) (hexec : u.exec call = some u') : u'.Plain := by
  obtain ⟨c', hc', rfl⟩ := Option.map_eq_some_iff.mp hexec
  have hcache : u.lfu.toCache.exec call = some c'.toCache := by
    rw [← h.atEnd.map_toCache_exec, hc', Option.map_some]
  refine ⟨h.atEnd.exec hc', h.oneUse.exec hcache, ?_⟩
  intro k hk
  cases call with
  | evictLFU =>
    cases hc'
    exact h.once k (Lfu.isSome_find_of_evictLFU hk)
  | erase key =>
    cases hc'
    exact h.once k (Lfu.isSome_find_erase.mp hk).1
  | updateLFU key value =>
    obtain ⟨hkey, rfl⟩ := h.atEnd.eq_of_updateLFU hc'
    have hfind := h.not_isSome_find hkey
    rw [Lfu.isSome_find_store_enter] at hk
    by_cases hk' : k = key
    · simp [count, hk', hfind]
    · simpa [count, hk'] using h.once k (hk.resolve_left hk')

/-- **A use of a record.**  It was not cached before, and is now. -/
theorem Plain.exec_updateLFU {value : UserInfo} (h : u.Plain)
    (hexec : u.exec (.updateLFU key value) = some u') :
    ¬ (u.lfu.find key).isSome ∧ (u'.lfu.find key).isSome ∧
      u'.lfu.cacheMap.length ≤ u.lfu.cacheMap.length + 1 := by
  obtain ⟨c', hc', rfl⟩ := Option.map_eq_some_iff.mp hexec
  obtain ⟨hkey, rfl⟩ := h.atEnd.eq_of_updateLFU hc'
  have hcached := (u.lfu.isSome_find_store_enter key value).mpr (.inl rfl)
  refine ⟨h.not_isSome_find hkey, hcached, ?_⟩
  rw [Lfu.store, (u.lfu.maps_enter key).1, List.length_cons]
  exact Nat.succ_le_succ (List.length_filter_le ..)

theorem Plain.run (h : u.Plain) (hrun : Transition.run UsesCounted.exec u calls = some u') :
    u'.Plain := by
  induction calls generalizing u with
  | nil =>
    cases hrun
    exact h
  | cons call calls ih =>
    obtain ⟨v, hexec, hrest⟩ := exists_of_run hrun
    exact ih (h.exec hexec) hrest

theorem Plain.isSome_find_of_run {value : UserInfo} (h : u.Plain) (calls : List LfuCall)
    (hrun : Transition.run UsesCounted.exec u (calls ++ [.updateLFU key value]) = some u') :
    (u'.lfu.find key).isSome := by
  rw [run_append] at hrun
  obtain ⟨v, hcalls, hupdate⟩ := Option.bind_eq_some_iff.mp hrun
  rw [run_singleton] at hupdate
  exact ((h.run hcalls).exec_updateLFU hupdate).2.1

theorem Plain.map_toCache_run (h : u.Plain) (calls : List LfuCall) :
    (Transition.run UsesCounted.exec u calls).map (·.lfu.toCache) =
      Transition.run Cache.exec u.lfu.toCache calls := by
  induction calls generalizing u with
  | nil => rfl
  | cons call calls ih =>
    have hcache := h.atEnd.map_toCache_exec call
    cases hexec : u.lfu.exec call with
    | none =>
      rw [hexec, Option.map_none] at hcache
      simp [Transition.run, UsesCounted.exec, hexec, ← hcache]
    | some c =>
      rw [hexec, Option.map_some] at hcache
      have hstep : u.exec call = some ⟨c, u.count call⟩ := by
        rw [UsesCounted.exec, hexec, Option.map_some]
      rw [run_cons hstep, run_cons hcache.symm]
      exact ih (h.exec hstep)

theorem Plain.freqList_eq (h : u.Plain) :
    u.lfu.freqList = [] ∨ ∃ id keys, keys ≠ [] ∧ u.lfu.freqList = [⟨id, 1, keys⟩] := by
  rcases h.oneUse.one with hnil | ⟨keys, hne, hlist⟩
  · exact .inl (List.map_eq_nil_iff.mp hnil)
  · obtain ⟨⟨id, freq, keys'⟩, hlfu, hnode⟩ := List.map_eq_singleton_iff.mp hlist
    cases hnode
    exact .inr ⟨id, keys', hne, hlfu⟩

theorem Plain.nodesOf_eq (h : u.Plain) (hkey : (u.lfu.find key).isSome) :
    ∃ node, u.nodesOf key = [node] ∧ node.freq = 1 := by
  have hmem : key ∈ u.lfu.toCache.keyToFreq := by
    rwa [h.oneUse.keysAgree key, Lfu.isSome_find_toCache]
  obtain ⟨node, hnode, hkey⟩ := h.oneUse.listed key hmem
  obtain ⟨n, hn, rfl⟩ := List.mem_map.mp hnode
  rcases h.freqList_eq with hnil | ⟨id, keys, -, hlist⟩
  · simp [hnil] at hn
  · rw [hlist, List.mem_singleton] at hn
    subst hn
    exact ⟨⟨id, 1, keys⟩, by simpa [nodesOf, hlist] using hkey, rfl⟩

theorem Plain.counts_iff (h : u.Plain) : u.Counts ↔ u.lfu.cacheMap.length ≤ Cache.limit := by
  refine ⟨Counts.bounded, fun hbounded => ⟨?_, ?_, ?_, ?_, hbounded⟩⟩
  · intro key
    rw [Lfu.lookup_keyToFreq_isSome, h.oneUse.keysAgree key, Lfu.isSome_find_toCache]
  · intro key hkey
    rw [h.once key hkey]
    exact h.nodesOf_eq hkey
  · rcases h.freqList_eq with hnil | ⟨id, keys, -, hlist⟩
    · simp [hnil]
    · simp [hlist]
  · rcases h.freqList_eq with hnil | ⟨id, keys, hne, hlist⟩
    · simp [hnil]
    · simp [hlist, hne]

theorem Plain.correct_iff (h : u.Plain) : u.Correct ↔ u.lfu.cacheMap = [] := by
  constructor
  · intro hcorrect
    by_contra hne
    obtain ⟨e, he⟩ := List.exists_mem_of_ne_nil _ hne
    obtain ⟨node, -, hlookup⟩ := hcorrect.linked e.1 (Lfu.isSome_find.mpr ⟨e, he, rfl⟩)
    cases h.atEnd.lookup hlookup
  · intro hnil
    have hbounded : u.lfu.cacheMap.length ≤ Cache.limit := by simp [hnil]
    refine ⟨h.counts_iff.mpr hbounded, ?_⟩
    intro key hkey
    simp [Lfu.find, hnil] at hkey

theorem Plain.evictsLeast_iff (h : u.Plain) : u.EvictsLeast ↔ u.FrontCached := by
  constructor
  · rintro ⟨key, hkey, -, hevict⟩
    cases hfront : u.lfu.front with
    | none =>
      have hself := hevict key
      rw [Lfu.evictLFU_of_none hfront] at hself
      exact absurd rfl (hself.mp hkey).2
    | some front =>
      have hself := hevict key
      rw [Lfu.isSome_find_evictLFU hfront] at hself
      have heq : key = front := by
        by_contra hne
        exact (hself.mp ⟨hkey, hne⟩).2 rfl
      exact ⟨front, hfront, heq ▸ hkey⟩
  · rintro ⟨key, hfront, hkey⟩
    refine ⟨key, hkey, ?_, fun k => Lfu.isSome_find_evictLFU hfront⟩
    intro k hk
    rw [h.once key hkey, h.once k hk]

theorem Plain.fresh_iff (h : u.Plain) (call : LfuCall) :
    u.Fresh call ↔ (u.exec call).isSome ∧ u.EvictsRight call := by
  cases call with
  | evictLFU => simp [Fresh, EvictsRight, UsesCounted.exec, Lfu.exec, h.evictsLeast_iff]
  | erase key => simp [Fresh, EvictsRight, UsesCounted.exec, Lfu.exec]
  | updateLFU key value =>
    have hkeys : key ∈ u.lfu.toCache.keyToFreq ↔ (u.lfu.find key).isSome := by
      rw [h.oneUse.keysAgree key, Lfu.isSome_find_toCache]
    by_cases hkey : key ∈ u.lfu.toCache.keyToFreq
    · simp [Fresh, UsesCounted.exec, Lfu.exec, h.atEnd.updateLFU_of_mem hkey, ← hkeys, hkey]
    · simp [Fresh, EvictsRight, UsesCounted.exec, Lfu.exec, Lfu.updateLFU_of_not_mem hkey,
        ← hkeys, hkey]

theorem Plain.meets_fresh_iff (h : u.Plain) :
    Meets UsesCounted.exec Fresh u calls ↔
      (Transition.run UsesCounted.exec u calls).isSome ∧
        Meets UsesCounted.exec EvictsRight u calls := by
  induction calls generalizing u with
  | nil => simp [Meets, Transition.run]
  | cons call calls ih =>
    rw [Meets, Meets, h.fresh_iff]
    cases hexec : u.exec call with
    | none => simp [Transition.run, hexec]
    | some v =>
      have hrest := ih (h.exec hexec)
      simp [run_cons hexec, hrest]
      exact and_left_comm

theorem FrontCached.length_lt (h : u.FrontCached) :
    u.lfu.evictLFU.cacheMap.length < u.lfu.cacheMap.length := by
  obtain ⟨key, hfront, hkey⟩ := h
  obtain ⟨e, he, rfl⟩ := Lfu.isSome_find.mp hkey
  rw [Lfu.cacheMap_evictLFU hfront, Lfu.erase, List.length_filter_lt_length_iff_exists]
  exact ⟨e, he, by simp⟩

end UsesCounted

/-! ## The cache of a table -/

/-- A table, and its cache with the iterators and the uses. -/
structure LfuTable where
  table : Table
  cache : UsesCounted

namespace LfuTable

def opened (file : List UserInfo) : LfuTable := ⟨Table.initStorage file, ⟨Lfu.empty, fun _ => 0⟩⟩

section Steps

variable (env : TableEnv)

/-- A call on the table, with the calls it makes on the cache. -/
def step (s : LfuTable) (op : CacheOp) : Option LfuTable :=
  (s.table.act env op).bind fun t =>
    (Transition.run UsesCounted.exec s.cache (s.table.lfuCalls env op)).map fun u => ⟨t, u⟩

/-- A call leaves the cache as it should be, and if it evicts a record, that is one of those used
least. -/
def Keeps (P : UsesCounted → Prop) (s : LfuTable) (op : CacheOp) : Prop :=
  (∃ s', s.step env op = some s' ∧ P s'.cache) ∧
    Meets UsesCounted.exec UsesCounted.EvictsRight s.cache (s.table.lfuCalls env op)

/-- A call that does not use a record. -/
def Idle (s : LfuTable) (op : CacheOp) : Prop :=
  ∀ key value, .updateLFU key value ∉ s.table.lfuCalls env op

/-- A call that does not use a record which is cached, and if it evicts one, the first key is that
of a cached record. -/
def Steady (s : LfuTable) (op : CacheOp) : Prop :=
  Meets UsesCounted.exec UsesCounted.Fresh s.cache (s.table.lfuCalls env op)

end Steps

/-- The cache is that of the table, and every record was used once. -/
structure Sound (s : LfuTable) : Prop where
  toCache_eq : s.cache.lfu.toCache = s.table.cache
  plain : s.cache.Plain

variable {env : TableEnv} {s s' : LfuTable} {op : CacheOp}

theorem sound_opened (file : List UserInfo) : (opened file).Sound := by
  refine ⟨(Audited.cache_initStorage file).symm, ?_, Cache.oneUse_empty, ?_⟩
  · simp [opened, Lfu.AtEnd, Lfu.empty]
  · simp [opened, Lfu.find, Lfu.empty]

theorem run_of_step (h : s.step env op = some s') :
    Transition.run UsesCounted.exec s.cache (s.table.lfuCalls env op) = some s'.cache ∧
      s.table.act env op = some s'.table := by
  obtain ⟨t, ht, hrun⟩ := Option.bind_eq_some_iff.mp h
  obtain ⟨u, hu, rfl⟩ := Option.map_eq_some_iff.mp hrun
  exact ⟨hu, ht⟩

theorem Sound.step (h : s.Sound) (hstep : s.step env op = some s') : s'.Sound := by
  obtain ⟨hrun, hact⟩ := run_of_step hstep
  refine ⟨?_, h.plain.run hrun⟩
  have htable := s.table.map_cache_act env op
  have hcache := h.plain.map_toCache_run (s.table.lfuCalls env op)
  rw [hact, ← h.toCache_eq, ← hcache, hrun] at htable
  exact (Option.some.inj htable).symm

theorem Sound.exists_step (h : s.Sound) {u : UsesCounted}
    (hrun : Transition.run UsesCounted.exec s.cache (s.table.lfuCalls env op) = some u) :
    ∃ t, s.step env op = some ⟨t, u⟩ := by
  have htable := s.table.map_cache_act env op
  have hcache := h.plain.map_toCache_run (s.table.lfuCalls env op)
  rw [← h.toCache_eq, ← hcache, hrun, Option.map_some, Option.map_eq_some_iff] at htable
  obtain ⟨t, ht, -⟩ := htable
  exact ⟨t, by rw [LfuTable.step, ht, Option.bind_some, hrun, Option.map_some]⟩

/-- **The cache keeps within its limit** as long as what is evicted was cached. -/
theorem Sound.length_le (h : s.Sound) (hbounded : s.cache.lfu.cacheMap.length ≤ Cache.limit)
    (hsteady : Steady env s op) (hstep : s.step env op = some s') :
    s'.cache.lfu.cacheMap.length ≤ Cache.limit := by
  have hrun := (run_of_step hstep).1
  rcases s.table.lfuCalls_cases env op with hcalls | ⟨key, hcalls⟩ | ⟨key, value, hcalls, hroom⟩ |
    ⟨key, value, hcalls⟩
  · rw [hcalls, Transition.run] at hrun
    rwa [← Option.some.inj hrun]
  · rw [hcalls, run_singleton] at hrun
    rw [← Option.some.inj hrun]
    exact (List.length_filter_le ..).trans hbounded
  · rw [hcalls, run_singleton] at hrun
    obtain ⟨hnew, -, hlength⟩ := h.plain.exec_updateLFU hrun
    have hsize : s.table.cache.cacheMap.length = s.cache.lfu.cacheMap.length := by
      simp [← h.toCache_eq, Lfu.toCache]
    rw [← h.toCache_eq, Lfu.isSome_find_toCache, h.toCache_eq, hsize] at hroom
    exact hlength.trans (hroom.resolve_right hnew)
  · rw [Steady, hcalls] at hsteady
    have hfront : s.cache.FrontCached := hsteady.1
    have hlt := hfront.length_lt
    rw [hcalls] at hrun
    obtain ⟨u, hevict, hupdate⟩ := exists_of_run hrun
    rw [run_singleton] at hupdate
    obtain ⟨-, -, hlength⟩ := (h.plain.exec hevict).exec_updateLFU hupdate
    cases hevict
    exact hlength.trans (hlt.trans_le hbounded)

theorem Sound.keeps_counts_iff (h : s.Sound)
    (hbounded : s.cache.lfu.cacheMap.length ≤ Cache.limit) :
    Keeps env UsesCounted.Counts s op ↔ Steady env s op := by
  constructor
  · rintro ⟨⟨s', hstep, -⟩, hevicts⟩
    refine h.plain.meets_fresh_iff.mpr ⟨?_, hevicts⟩
    rw [(run_of_step hstep).1, Option.isSome_some]
  · intro hsteady
    obtain ⟨hsome, hevicts⟩ := h.plain.meets_fresh_iff.mp hsteady
    obtain ⟨u, hrun⟩ := Option.isSome_iff_exists.mp hsome
    obtain ⟨t, hstep⟩ := h.exists_step hrun
    have hcounts := (h.step hstep).plain.counts_iff.mpr (h.length_le hbounded hsteady hstep)
    exact ⟨⟨⟨t, u⟩, hstep, hcounts⟩, hevicts⟩

/-- **An empty cache stays empty** as long as no record is used. -/
theorem Sound.idle_iff (h : s.Sound) (hnil : s.cache.lfu.cacheMap = []) :
    Idle env s op ↔ ∃ s', s.step env op = some s' ∧ s'.cache.lfu.cacheMap = [] := by
  have hempty {u : UsesCounted} (hu : u.lfu.cacheMap = [])
      (hrun : Transition.run UsesCounted.exec s.cache (s.table.lfuCalls env op) = some u) :
      ∃ s', s.step env op = some s' ∧ s'.cache.lfu.cacheMap = [] := by
    obtain ⟨t, hstep⟩ := h.exists_step hrun
    exact ⟨⟨t, u⟩, hstep, hu⟩
  have hused {key : Key} {value : UserInfo} (calls : List LfuCall)
      (hcalls : s.table.lfuCalls env op = calls ++ [.updateLFU key value]) :
      ¬ ∃ s', s.step env op = some s' ∧ s'.cache.lfu.cacheMap = [] := by
    rintro ⟨s', hstep, hnil'⟩
    have hrun := (run_of_step hstep).1
    rw [hcalls] at hrun
    have hcached := h.plain.isSome_find_of_run calls hrun
    simp [Lfu.find, hnil'] at hcached
  rcases s.table.lfuCalls_cases env op with hcalls | ⟨key, hcalls⟩ | ⟨key, value, hcalls, -⟩ |
    ⟨key, value, hcalls⟩
  · refine iff_of_true (by simp [Idle, hcalls]) (hempty hnil ?_)
    rw [hcalls, Transition.run]
  · have herase : (s.cache.lfu.erase key).cacheMap = [] := by simp [Lfu.erase, hnil]
    refine iff_of_true (by simp [Idle, hcalls]) (hempty (u := ⟨_, s.cache.uses⟩) herase ?_)
    rw [hcalls, run_singleton]
    rfl
  · exact iff_of_false (fun hidle => hidle key value (by simp [hcalls])) (hused [] hcalls)
  · exact iff_of_false (fun hidle => hidle key value (by simp [hcalls])) (hused [.evictLFU] hcalls)

theorem not_idle_of_evictLFU (h : .evictLFU ∈ s.table.lfuCalls env op) : ¬ Idle env s op := by
  intro hidle
  rcases s.table.lfuCalls_cases env op with hcalls | ⟨key, hcalls⟩ | ⟨key, value, hcalls, -⟩ |
    ⟨key, value, hcalls⟩
  · simp [hcalls] at h
  · simp [hcalls] at h
  · simp [hcalls] at h
  · exact hidle key value (by simp [hcalls])

theorem Sound.keeps_correct_iff (h : s.Sound) (hnil : s.cache.lfu.cacheMap = []) :
    Keeps env UsesCounted.Correct s op ↔ Idle env s op := by
  have hcorrect : (∃ s', s.step env op = some s' ∧ s'.cache.Correct) ↔ Idle env s op := by
    rw [h.idle_iff hnil]
    refine exists_congr fun s' => and_congr_right fun hstep => ?_
    exact (h.step hstep).plain.correct_iff
  rw [Keeps, hcorrect, and_iff_left_iff_imp]
  intro hidle
  refine meets_of_forall ?_
  rintro call hcall u rfl
  exact absurd hidle (not_idle_of_evictLFU hcall)

/-- **The cache is right as long as it is not used.**  Its iterators aside, it is right as long as
no cached record is used again, and the first key is that of a cached record when one is evicted. -/
theorem keeps_iff (env : TableEnv) (file : List UserInfo) (ops : List CacheOp) :
    (Meets (step env) (Keeps env UsesCounted.Correct) (opened file) ops ↔
      Meets (step env) (Idle env) (opened file) ops) ∧
    (Meets (step env) (Keeps env UsesCounted.Counts) (opened file) ops ↔
      Meets (step env) (Steady env) (opened file) ops) := by
  constructor
  · refine meets_congr (fun s => s.Sound ∧ s.cache.lfu.cacheMap = []) ⟨sound_opened file, rfl⟩ ?_ ?_
    · intro s op hs
      exact hs.1.keeps_correct_iff hs.2
    · intro s op s' hs hidle hstep
      obtain ⟨s'', hstep', hnil⟩ := (hs.1.idle_iff hs.2).mp hidle
      cases hstep.symm.trans hstep'
      exact ⟨hs.1.step hstep, hnil⟩
  · refine meets_congr (fun s => s.Sound ∧ s.cache.lfu.cacheMap.length ≤ Cache.limit)
      ⟨sound_opened file, by simp [opened, Lfu.empty]⟩ ?_ ?_
    · intro s op hs
      exact hs.1.keeps_counts_iff hs.2
    · intro s op s' hs hsteady hstep
      exact ⟨hs.1.step hstep, hs.1.length_le hs.2 hsteady hstep⟩

/-- The iterator of the first record is `end()`, and asking for that record is undefined. -/
theorem not_keeps_write :
    ∃ s, Transition.run (step (.fixed false)) (opened [])
      [.write (Audited.userLine "1234567890123456" "bob")] = some s ∧
      ¬ s.cache.Correct ∧ step (.fixed false) s (.get (text "1234567890123456")) = none := by
  obtain ⟨s, hrun, hcached, hget⟩ := exists_run (step (.fixed false)) (opened [])
    [.write (Audited.userLine "1234567890123456" "bob")]
    (fun s => (s.cache.lfu.keyToFreq.lookup (text "1234567890123456") = some .past ∧
      (s.cache.lfu.find (text "1234567890123456")).isSome = true) ∧
      (step (.fixed false) s (.get (text "1234567890123456"))).isNone = true) (by decide +kernel)
  refine ⟨s, hrun, ?_, Option.isNone_iff_eq_none.mp hget⟩
  intro hcorrect
  obtain ⟨node, -, hlookup⟩ := hcorrect.linked _ hcached.2
  cases hcached.1.symm.trans hlookup

end LfuTable

end IocpChat

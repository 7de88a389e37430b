import IocpChat.DataStructure.Table
import IocpChat.Lib.Transition

/-!
# The cache of the user table

`getData` serves a record from `cacheMap` or from the mapped file.  Next to the table we keep
what was last written, updated or deleted under each user id, and ask when an answer lists that.

Three things stand in the way.  A record that is found in the cache is handed to `updateLFU`,
which is undefined for it.  User ids are padded to 16 bytes in the index, and the word of a
query is not.  And the word may be the email or the phone hash of somebody else.

## Main definitions

* `CacheOp`, `Audited`, `Audited.step` — calls, and what they have written.
* `Audited.Answers` — a query is answered from what was written.
* `Audited.Direct` — the word of a query leads to the user id past the cache.
-/

namespace IocpChat

open Bytes Words Transition

/-! ## The keys of the cache -/

namespace Cache

/-- The two maps have the same keys. -/
def KeysAgree (c : Cache) : Prop := ∀ k, k ∈ c.keyToFreq ↔ (c.find k).isSome

variable {c c' : Cache} {key k : Key} {value : UserInfo}

theorem isSome_find : (c.find k).isSome ↔ ∃ p ∈ c.cacheMap, p.1 = k := by
  rw [find, List.lookup_isSome_iff]
  simp only [beq_iff_eq, eq_comm (a := k)]

theorem keysAgree_empty : empty.KeysAgree := by
  intro k
  simp [empty, find]

theorem KeysAgree.erase (h : c.KeysAgree) (key : Key) : (c.erase key).KeysAgree := by
  intro k
  have hk := h k
  rw [isSome_find] at hk ⊢
  simp only [Cache.erase, List.mem_filter, decide_eq_true_eq, hk]
  constructor
  · rintro ⟨⟨p, hp, rfl⟩, hne⟩
    exact ⟨p, ⟨hp, hne⟩, rfl⟩
  · rintro ⟨p, ⟨hp, hne⟩, rfl⟩
    exact ⟨⟨p, hp, rfl⟩, hne⟩

theorem KeysAgree.evictLFU (h : c.KeysAgree) : c.evictLFU.KeysAgree := by
  rw [Cache.evictLFU]
  split
  next key _ _ _ => exact h.erase key
  next => exact h

theorem KeysAgree.makeRoom (h : c.KeysAgree) : c.makeRoom.KeysAgree := by
  rw [Cache.makeRoom]
  split
  · exact h.evictLFU
  · exact h

theorem KeysAgree.updateLFU (h : c.KeysAgree) (hupdate : c.updateLFU key value = some c') :
    c'.KeysAgree := by
  obtain ⟨-, rfl⟩ := eq_of_updateLFU hupdate
  intro k
  rw [isSome_find, List.mem_cons, h k, isSome_find]
  constructor
  · rintro (rfl | ⟨p, hp, rfl⟩)
    · exact ⟨(k, value), List.mem_cons_self, rfl⟩
    · by_cases hp' : p.1 = key
      · exact ⟨(key, value), List.mem_cons_self, hp'.symm⟩
      · exact ⟨p, List.mem_cons_of_mem _ (List.mem_filter.mpr ⟨hp, by simpa using hp'⟩), rfl⟩
  · rintro ⟨p, hp, rfl⟩
    rcases List.mem_cons.mp hp with rfl | hp
    · exact .inl rfl
    · exact .inr ⟨p, List.mem_of_mem_filter hp, rfl⟩

theorem not_mem_makeRoom (h : k ∉ c.keyToFreq) : k ∉ c.makeRoom.keyToFreq := by
  rw [makeRoom]
  split
  next =>
    rw [evictLFU]
    split
    next => exact fun hk => h (List.mem_of_mem_filter hk)
    next => exact h
  next => exact h

end Cache

/-! ## Calls and what they wrote -/

inductive CacheOp
  | write (line : List UInt8)
  | update (line : List UInt8)
  | delete (identifier : Key)
  | get (query : List UInt8)

/-- A table, and for each user id the record that was last written or updated, or that it was
deleted. -/
structure Audited where
  table : Table
  latest : Key → Option (Option UserInfo)

namespace Audited

open Table

section Steps

variable (env : TableEnv)

/-- A table that was just opened. -/
def opened (file : List UserInfo) : Audited := ⟨initStorage file, fun _ => none⟩

/-- A record is written or updated. -/
def put (s : Audited) (line : List UInt8) : Bool × Table → Audited
  | (true, t) =>
    ⟨t, (newRecord env.crc32 line).elim s.latest fun r => Function.update s.latest r.uid (some (some r))⟩
  | (false, t) => ⟨t, s.latest⟩

def drop (s : Audited) (identifier : Key) : Bool × Table → Audited
  | (true, t) => ⟨t, Function.update s.latest (s.table.resolve identifier) (some none)⟩
  | (false, t) => ⟨t, s.latest⟩

def step (s : Audited) : CacheOp → Option Audited
  | .write line => (s.table.writeTheData env line).map (s.put env line)
  | .update line => (s.table.updateTheData env line).map (s.put env line)
  | .delete identifier => some (s.drop identifier (s.table.deleteData env identifier))
  | .get query => (s.table.getData query).map fun (_, t) => ⟨t, s.latest⟩

end Steps

/-- What a query should list, if the record was not deleted. -/
def answer (query : List UInt8) : Option UserInfo → List UInt8
  | none => notFound
  | some r => r.uid ++ [32] ++ (words isSpace query).flatMap (createOutput r)

/-- The query is answered from what was last written, and the answer is the same when the
record that it leads to is not in the cache. -/
def Answers (s : Audited) (query : List UInt8) : Prop :=
  ∃ known t₁ t₂, s.latest (fill 16 (firstWord query)) = some known ∧
    s.table.getData query = some (answer query known, t₁) ∧
    { s.table with cache := s.table.cache.erase (s.table.resolve (firstWord query)) }.getData query
      = some (answer query known, t₂)

/-- What the word of a query leads to is not in the cache.  It is the user id itself, or else
that user was deleted and the word does not lead to a live record. -/
def Direct (s : Audited) (word : Key) : Prop :=
  s.table.resolve word ∉ s.table.cache.keyToFreq ∧
    (s.table.resolve word = fill 16 word ∨
      s.latest (fill 16 word) = some none ∧
        ∀ r ∈ s.table.recordOf (s.table.resolve word), r.isDeleted = true)

/-! ## The invariant -/

/-- A record in the file is what was last written under its user id. -/
def Tracks (record : Key → Option UserInfo) (latest : Key → Option (Option UserInfo)) : Prop :=
  ∀ uid known, latest uid = some known → ∃ o, record uid = some o ∧ o.isDeleted = known.isNone ∧
    ∀ r ∈ known, o = r

theorem Tracks.update {record : Key → Option UserInfo} {latest : Key → Option (Option UserInfo)}
    (h : Tracks record latest) (uid : Key) (o : UserInfo) (known : Option UserInfo)
    (hdel : o.isDeleted = known.isNone) (hknown : ∀ r ∈ known, o = r) :
    Tracks (Function.update record uid (some o)) (Function.update latest uid (some known)) := by
  intro uid' known' hlatest
  by_cases huid : uid' = uid
  · subst huid
    rw [Function.update_self] at hlatest ⊢
    cases hlatest
    exact ⟨o, rfl, hdel, hknown⟩
  · rw [Function.update_of_ne huid] at hlatest ⊢
    exact h uid' known' hlatest

structure Sound (s : Audited) : Prop where
  table : s.table.Sound
  keys : s.table.cache.KeysAgree
  tracks : Tracks s.table.recordOf s.latest

variable {env : TableEnv} {s s' : Audited}

theorem cache_initStorage (file : List UserInfo) : (initStorage file).cache = Cache.empty :=
  ((mapped file).loadIndex_frame 0 file).2

theorem sound_opened (file : List UserInfo) : (opened file).Sound := by
  refine ⟨sound_initStorage file, ?_, ?_⟩
  · rw [opened, cache_initStorage]
    exact Cache.keysAgree_empty
  · intro uid known hlatest
    cases hlatest

theorem Sound.write {line : List UInt8} {res : Bool × Table} (h : s.Sound)
    (hwrite : s.table.writeTheData env line = some res) : (s.put env line res).Sound := by
  obtain ⟨ok, t'⟩ := res
  rcases writeTheData_eq_some hwrite with ⟨rfl, rfl⟩ | ⟨rfl, r, cache, hr, hcache, rfl⟩
  · exact h
  · have hstore := h.table.store env r
    refine ⟨⟨hstore.fits, hstore.page⟩, h.keys.makeRoom.updateLFU hcache, ?_⟩
    have htracks := h.tracks.update r.uid r (some r) (isDeleted_newRecord hr) (by simp)
    rw [← h.table.recordOf_store env] at htracks
    rw [put, hr]
    exact htracks

theorem Sound.update {line : List UInt8} {res : Bool × Table} (h : s.Sound)
    (hupdate : s.table.updateTheData env line = some res) : (s.put env line res).Sound := by
  obtain ⟨ok, t'⟩ := res
  rcases updateTheData_eq_some hupdate with ⟨rfl, rfl⟩ | ⟨rfl, r, i, cache, hr, hpage, hcache, rfl⟩
  · exact h
  · have hset := h.table.set hpage rfl
    refine ⟨⟨hset.fits, hset.page⟩, ?_, ?_⟩
    · rcases hcache with ⟨rfl, -⟩ | ⟨-, hcache⟩
      · exact h.keys
      · exact h.keys.updateLFU hcache
    · have htracks := h.tracks.update r.uid r (some r) (isDeleted_newRecord hr) (by simp)
      rw [← h.table.recordOf_set hpage rfl] at htracks
      rw [put, hr]
      exact htracks

theorem Sound.delete {identifier : Key} {res : Bool × Table} (h : s.Sound)
    (hdelete : s.table.deleteData env identifier = res) : (s.drop identifier res).Sound := by
  obtain ⟨ok, t'⟩ := res
  rcases deleteData_eq hdelete with ⟨rfl, rfl⟩ | ⟨rfl, i, o, hpage, ho, -, rfl⟩
  · exact h
  · refine ⟨h.table.markDeleted env hpage ho, h.keys.erase _, ?_⟩
    have huid : o.uid = s.table.resolve identifier := by
      apply h.table.uid_of_recordOf
      rw [recordOf, hpage]
      exact ho
    have htracks := h.tracks.update (s.table.resolve identifier) (finish env.crc32 true o) none
      (isDeleted_finish true o) (by simp)
    rw [← h.table.recordOf_set hpage ((uid_finish true o).trans huid)] at htracks
    exact htracks

theorem Sound.get {query : List UInt8} {res : List UInt8 × Table} (h : s.Sound)
    (hget : s.table.getData query = some res) : (⟨res.2, s.latest⟩ : Audited).Sound := by
  obtain ⟨out, t'⟩ := res
  obtain ⟨cache, rfl, hcache⟩ := getData_eq_some hget
  refine ⟨⟨h.table.fits, h.table.page⟩, ?_, h.tracks⟩
  rcases hcache with rfl | ⟨_, key, value, rfl | rfl, hcache⟩
  · exact h.keys
  · exact h.keys.updateLFU hcache
  · exact h.keys.makeRoom.updateLFU hcache

theorem Sound.step {op : CacheOp} (h : s.Sound) (hstep : s.step env op = some s') : s'.Sound := by
  cases op with
  | write line =>
    obtain ⟨res, hwrite, rfl⟩ := Option.map_eq_some_iff.mp hstep
    exact h.write hwrite
  | update line =>
    obtain ⟨res, hupdate, rfl⟩ := Option.map_eq_some_iff.mp hstep
    exact h.update hupdate
  | delete identifier =>
    cases hstep
    exact h.delete rfl
  | get query =>
    obtain ⟨res, hget, rfl⟩ := Option.map_eq_some_iff.mp hstep
    exact h.get hget

/-! ## Answers -/

/-- The live record of a user id in the file. -/
def found (t : Table) (uid : Key) : Option UserInfo := (t.recordOf uid).filter fun r => !r.isDeleted

variable {t : Table} {query : List UInt8}

theorem getData_of_mem (hkeys : t.cache.KeysAgree)
    (hmem : t.resolve (firstWord query) ∈ t.cache.keyToFreq) : t.getData query = none := by
  obtain ⟨r, hr⟩ := Option.isSome_iff_exists.mp ((hkeys _).mp hmem)
  rw [getData, hr]
  simp [touch, Cache.updateLFU_of_mem hmem]

theorem getData_of_not_mem (hkeys : t.cache.KeysAgree)
    (hmem : t.resolve (firstWord query) ∉ t.cache.keyToFreq) :
    ∃ t', t.getData query = some (answer query (found t (t.resolve (firstWord query))), t') := by
  have hfind : t.cache.find (t.resolve (firstWord query)) = none := by
    rw [← Option.not_isSome_iff_eq_none, ← hkeys]
    exact hmem
  rw [getData, hfind, found]
  cases hr : t.recordOf (t.resolve (firstWord query)) with
  | none => exact ⟨t, rfl⟩
  | some r =>
    cases hdel : r.isDeleted with
    | true =>
      have hfilter : (some r).filter (fun r => !r.isDeleted) = none := by simp [hdel]
      exact ⟨t, by simp [hdel, hfilter, answer]⟩
    | false =>
      have hfilter : (some r).filter (fun r => !r.isDeleted) = some r := by simp [hdel]
      obtain ⟨t', ht'⟩ : ∃ t', t.touch t.cache.makeRoom (t.resolve (firstWord query)) r = some t' :=
        ⟨_, by rw [touch, Cache.updateLFU_of_not_mem (Cache.not_mem_makeRoom hmem)]; rfl⟩
      exact ⟨t', by simp [hdel, hfilter, ht', buildOutput, answer]⟩

theorem answer_none_ne (query : List UInt8) (r : UserInfo) : answer query none ≠ answer query (some r) := by
  intro h
  have hlen := congrArg List.length h
  have hnone : notFound.length = 9 := by decide +kernel
  have huid : r.uid.length = 16 := Field.length_get
  rw [answer, hnone, answer, List.length_append, List.length_append, huid] at hlen
  omega

theorem uid_of_answer {r r' : UserInfo} (h : answer query (some r) = answer query (some r')) :
    r.uid = r'.uid := by
  have hlen : r.uid.length = r'.uid.length := Field.length_get.trans Field.length_get.symm
  rw [answer, answer, List.append_assoc, List.append_assoc] at h
  exact (List.append_inj h hlen).1

theorem Sound.found_eq (h : s.Sound) {uid : Key} {known : Option UserInfo}
    (hknown : s.latest uid = some known) : found s.table uid = known := by
  obtain ⟨o, ho, hdel, heq⟩ := h.tracks uid known hknown
  rw [found, ho]
  cases known with
  | none => simpa using hdel
  | some r =>
    cases heq r rfl
    simpa using hdel

theorem Sound.uid_of_found (h : s.Sound) {uid : Key} {r : UserInfo} (hr : found s.table uid = some r) :
    r.uid = uid :=
  h.table.uid_of_recordOf (Option.filter_eq_some_iff.mp hr).1

theorem sound_of_run {file : List UserInfo} {ops : List CacheOp}
    (hrun : Transition.run (step env) (opened file) ops = some s) : s.Sound := by
  have hmeets : Meets (step env) (fun _ _ => True) (opened file) ops := meets_of_forall (by simp)
  apply (reaches_of_run hmeets hrun).invariant
  · exact sound_opened file
  · intro s op s' _ h _ hstep
    exact h.step hstep

/-- An answer that is right came from the file, and from the record that was asked for. -/
theorem Sound.direct_of_answers (hs : s.Sound) (h : s.Answers query) :
    s.Direct (firstWord query) := by
  obtain ⟨known, t₁, t₂, hknown, hget, -⟩ := h
  have hmem : s.table.resolve (firstWord query) ∉ s.table.cache.keyToFreq := by
    intro hmem
    rw [getData_of_mem hs.keys hmem] at hget
    cases hget
  obtain ⟨t', ht'⟩ := getData_of_not_mem hs.keys hmem
  have hanswer := congrArg Prod.fst (Option.some.inj (ht'.symm.trans hget))
  refine ⟨hmem, ?_⟩
  cases hfound : found s.table (s.table.resolve (firstWord query)) with
  | none =>
    cases known with
    | none =>
      refine .inr ⟨hknown, ?_⟩
      intro r hr
      rw [found, hr] at hfound
      simpa using hfound
    | some r =>
      rw [hfound] at hanswer
      exact absurd hanswer (answer_none_ne query r)
  | some r =>
    rw [hfound] at hanswer
    cases known with
    | none => exact absurd hanswer.symm (answer_none_ne query r)
    | some r' =>
      have huid' := hs.uid_of_found (hs.found_eq hknown)
      rw [← hs.uid_of_found hfound, ← huid']
      exact .inl (uid_of_answer hanswer)

theorem Sound.answers_of_direct (hs : s.Sound)
    (hwritten : (s.latest (fill 16 (firstWord query))).isSome) (h : s.Direct (firstWord query)) :
    s.Answers query := by
  obtain ⟨known, hknown⟩ := Option.isSome_iff_exists.mp hwritten
  obtain ⟨hmem, hdirect⟩ := h
  have hfound : found s.table (s.table.resolve (firstWord query)) = known := by
    rcases hdirect with heq | ⟨hdeleted, hlive⟩
    · rw [heq]
      exact hs.found_eq hknown
    · cases hknown.symm.trans hdeleted
      rw [found, Option.filter_eq_none_iff]
      simpa using hlive
  subst hfound
  have herased : s.table.resolve (firstWord query)
      ∉ (s.table.cache.erase (s.table.resolve (firstWord query))).keyToFreq := by
    simp [Cache.erase]
  obtain ⟨t₁, ht₁⟩ := getData_of_not_mem hs.keys hmem
  obtain ⟨t₂, ht₂⟩ := getData_of_not_mem
    (t := { s.table with cache := s.table.cache.erase (s.table.resolve (firstWord query)) })
    (hs.keys.erase _) herased
  exact ⟨_, t₁, t₂, hknown, ht₁, ht₂⟩

/-- **Cache.**  After any calls on a table that was opened on any file, a query for a user id
that was written is answered from the last write if and only if its word leads to that id past
the cache, or the user was deleted and it leads to no live record. -/
theorem answers_iff_direct (env : TableEnv) (file : List UserInfo) (ops : List CacheOp)
    (s : Audited) (hrun : Transition.run (step env) (opened file) ops = some s) (query : List UInt8)
    (hwritten : (s.latest (fill 16 (firstWord query))).isSome) :
    s.Answers query ↔ s.Direct (firstWord query) := by
  have hs : s.Sound := sound_of_run hrun
  constructor
  · exact hs.direct_of_answers
  · exact hs.answers_of_direct hwritten

/-- A line of a user with this id and this name. -/
def userLine (uid name : String) : List UInt8 := text (uid ++ " " ++ name ++ " h1 bob@a.com TRUE 11 TRUE")

instance (s : Audited) (word : Key) : Decidable (s.Direct word) :=
  have := Cache.decidableNotMem s.table.cache.keyToFreq (s.table.resolve word)
  have := Option.decidableForallMem (s.table.recordOf (s.table.resolve word))
    (p := fun r => r.isDeleted = true)
  instDecidableAnd

/-- An id of 16 characters that is written, deleted and brought back by an update. -/
theorem answers_iff_direct_update :
    ∃ s, Transition.run (step (.fixed false)) (opened [])
      [.write (userLine "1234567890123456" "bob"), .delete (text "1234567890123456"),
        .update (userLine "1234567890123456" "rob")] = some s ∧
      s.Answers (text "1234567890123456 username email") := by
  obtain ⟨s, hrun, hwritten, hdirect⟩ := exists_run (step (.fixed false)) (opened [])
    [.write (userLine "1234567890123456" "bob"), .delete (text "1234567890123456"),
      .update (userLine "1234567890123456" "rob")]
    (fun s => (s.latest (fill 16 (firstWord (text "1234567890123456 username email")))).isSome = true ∧
      s.Direct (firstWord (text "1234567890123456 username email"))) (by decide +kernel)
  exact ⟨s, hrun, (answers_iff_direct _ _ _ s hrun _ hwritten).mpr hdirect⟩

/-- An id of nine digits that was just written is not found. -/
theorem not_answers_short_id :
    ∃ s, Transition.run (step (.fixed false)) (opened []) [.write (userLine "123456789" "bob")] = some s ∧
      (s.latest (fill 16 (firstWord (text "123456789 email")))).isSome = true ∧
      ¬ s.Answers (text "123456789 email") := by
  obtain ⟨s, hrun, hwritten, hanswer⟩ := exists_run (step (.fixed false)) (opened [])
    [.write (userLine "123456789" "bob")]
    (fun s => (s.latest (fill 16 (firstWord (text "123456789 email")))).join.isSome = true ∧
      (s.table.getData (text "123456789 email")).map Prod.fst = some notFound) (by decide +kernel)
  obtain ⟨r, hr⟩ := Option.isSome_iff_exists.mp hwritten
  rw [Option.join_eq_some_iff] at hr
  refine ⟨s, hrun, by rw [hr]; rfl, ?_⟩
  rintro ⟨known, t₁, t₂, hknown, hget, -⟩
  cases hr.symm.trans hknown
  rw [hget] at hanswer
  exact answer_none_ne _ r (Option.some.inj hanswer).symm

end Audited

end IocpChat

import IocpChat.Authentication.SignUp

/-!
# The accounts of `AuthManager`

`UserStore` of `authentication/auth_store.h` holds a record under its user id, and has indexes by
email and by name.  `Insert` refuses a record whose email or name is there, and does not look at
the user id: a record with an id that is there takes the place of the older one.

## Main definitions

* `UserStore`, `UserStore.insert`, `UserStore.findByEmail`, `UserStore.findByUsername`,
  `UserStore.findByUserId`, `UserStore.setEmailVerified` — the code.
* `Identity`, `Identity.Apart` — the keys of a record, and that two records can be there together.
* `UserStore.Holds` — the store holds these records.
-/

namespace IocpChat

open Bytes Words

/-! ## The code -/

/-- The string in a member, as `strnlen` ends it. -/
def cString (bytes : List UInt8) : Key := bytes.takeWhile (· ≠ 0)

/-- The class `UserStore`.  `records` is indexed by the hexadecimal form of user ids. -/
structure UserStore where
  records : Key → Option UserRecord
  emailToUid : Key → Option Key
  usernameToUid : Key → Option Key

namespace UserStore

/-- `ToHex`. -/
def toHex (data : List UInt8) : Key := hexString data

theorem toHex_injective : Function.Injective toHex := hexString_injective

def empty : UserStore := ⟨fun _ => none, fun _ => none, fun _ => none⟩

/-- The part of `Insert` that enters a record. -/
def put (st : UserStore) (record : UserRecord) : UserStore :=
  let uidHex := toHex record.userId
  let unameKey := cString record.username
  { records := Function.update st.records uidHex (some record)
    emailToUid := Function.update st.emailToUid (cString record.email) (some uidHex)
    usernameToUid :=
      if unameKey = [] then st.usernameToUid
      else Function.update st.usernameToUid unameKey (some uidHex) }

/-- `Insert`, and whether it succeeds. -/
def insert (st : UserStore) (record : UserRecord) : Bool × UserStore :=
  let unameKey := cString record.username
  if (st.emailToUid (cString record.email)).isSome then (false, st)
  else if unameKey ≠ [] ∧ (st.usernameToUid unameKey).isSome then (false, st)
  else (true, st.put record)

def findByEmail (st : UserStore) (email : Key) : Option UserRecord :=
  (st.emailToUid email).bind st.records

def findByUsername (st : UserStore) (username : Key) : Option UserRecord :=
  (st.usernameToUid username).bind st.records

def findByUserId (st : UserStore) (userId : List UInt8) : Option UserRecord :=
  st.records (toHex userId)

/-- `SetEmailVerified`, and whether the user is there. -/
def setEmailVerified (st : UserStore) (userId : List UInt8) : Bool × UserStore :=
  let uidHex := toHex userId
  match st.records uidHex with
  | none => (false, st)
  | some record =>
    (true, { st with
      records := Function.update st.records uidHex (some { record with emailVerified := true }) })

/-- The store after these calls of `AddUserRecord`. -/
def insertAll (added : List UserRecord) : UserStore :=
  added.foldl (fun st record => (st.insert record).2) empty

end UserStore

/-! ## Records that can be there together -/

/-- The email and the name of a record. -/
structure Identity where
  email : Key
  name : Key

/-- Neither is taken by the other.  A name may be empty. -/
def Identity.Apart (a b : Identity) : Prop := a.email ≠ b.email ∧ (a.name = b.name → a.name = [])

instance (a b : Identity) : Decidable (a.Apart b) := inferInstanceAs (Decidable (_ ∧ (_ → _)))

theorem Identity.Apart.symm {a b : Identity} (h : a.Apart b) : b.Apart a := by
  refine ⟨h.1.symm, ?_⟩
  intro hname
  rw [hname]
  exact h.2 hname.symm

def UserRecord.identity (u : UserRecord) : Identity := ⟨cString u.email, cString u.username⟩

/-- The keys and the ids differ. -/
def UserRecord.Apart (u v : UserRecord) : Prop :=
  u.identity.Apart v.identity ∧ u.userId ≠ v.userId

namespace UserStore

/-- The store finds each of the records, and knows no other keys. -/
structure Holds (st : UserStore) (added : List UserRecord) : Prop where
  email : ∀ u ∈ added, st.emailToUid (cString u.email) = some (toHex u.userId)
  record : ∀ u ∈ added, st.records (toHex u.userId) = some u
  of_email : ∀ key, (st.emailToUid key).isSome → ∃ u ∈ added, cString u.email = key
  of_name : ∀ key, (st.usernameToUid key).isSome → ∃ u ∈ added, cString u.username = key

variable {st : UserStore} {added : List UserRecord} {u : UserRecord}

theorem holds_empty : empty.Holds [] := by
  constructor <;> simp [empty]

theorem Holds.insert_eq (h : st.Holds added) (hapart : ∀ v ∈ added, v.Apart u) :
    (st.insert u).2 = st.put u := by
  have hemail : ¬ (st.emailToUid (cString u.email)).isSome = true := by
    intro hsome
    obtain ⟨v, hv, hkey⟩ := h.of_email _ hsome
    exact (hapart v hv).1.1 hkey
  have hname : ¬ (cString u.username ≠ [] ∧ (st.usernameToUid (cString u.username)).isSome = true) := by
    rintro ⟨hne, hsome⟩
    obtain ⟨v, hv, hkey⟩ := h.of_name _ hsome
    exact hne (hkey ▸ (hapart v hv).1.2 hkey)
  rw [UserStore.insert, if_neg hemail, if_neg hname]

theorem Holds.insert (h : st.Holds added) (hapart : ∀ v ∈ added, v.Apart u) :
    (st.insert u).2.Holds (added ++ [u]) := by
  rw [h.insert_eq hapart]
  constructor
  all_goals simp only [put]
  · intro v hv
    rcases List.mem_append.mp hv with hv | hv
    · have hne : cString v.email ≠ cString u.email := (hapart v hv).1.1
      rw [Function.update_of_ne hne]
      exact h.email v hv
    · rw [List.mem_singleton.mp hv, Function.update_self]
  · intro v hv
    rcases List.mem_append.mp hv with hv | hv
    · rw [Function.update_of_ne (toHex_injective.ne (hapart v hv).2)]
      exact h.record v hv
    · rw [List.mem_singleton.mp hv, Function.update_self]
  · intro key hkey
    by_cases heq : key = cString u.email
    · exact ⟨u, by simp, heq.symm⟩
    · rw [Function.update_of_ne heq] at hkey
      obtain ⟨v, hv, hv'⟩ := h.of_email key hkey
      exact ⟨v, List.mem_append_left _ hv, hv'⟩
  · intro key hkey
    by_cases heq : key = cString u.username
    · exact ⟨u, by simp, heq.symm⟩
    · have hold : (st.usernameToUid key).isSome = true := by
        split at hkey
        · exact hkey
        · rwa [Function.update_of_ne heq] at hkey
      obtain ⟨v, hv, hv'⟩ := h.of_name key hold
      exact ⟨v, List.mem_append_left _ hv, hv'⟩

/-- **Records that are apart are all there.** -/
theorem holds_insertAll (h : added.Pairwise UserRecord.Apart) : (insertAll added).Holds added := by
  induction added using List.reverseRecOn with
  | nil => exact holds_empty
  | append_singleton added u ih =>
    obtain ⟨hadded, -, hu⟩ := List.pairwise_append.mp h
    rw [insertAll, List.foldl_append]
    exact (ih hadded).insert fun v hv => hu v hv u (List.mem_singleton_self u)

theorem Holds.findByEmail (h : st.Holds added) (hu : u ∈ added) :
    st.findByEmail (cString u.email) = some u := by
  rw [UserStore.findByEmail, h.email u hu]
  exact h.record u hu

end UserStore

end IocpChat

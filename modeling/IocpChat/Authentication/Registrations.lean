import IocpChat.Authentication.UserStore
import IocpChat.Lib.Transition

/-!
# Accounts next to each other

A registration must not change what is found under the keys of another account.  `Insert` refuses
an email or a name that is taken.  A user id that is taken is not refused: the new record takes the
place of the older one, whose email and name still lead to that place.  Whoever logs in with them
gets the account of the other user.

So registrations leave each other alone exactly if no successful one has a user id that is there
(`undisturbed_iff`).  `SignUp::generateUserId` draws nine digits and does not look whether they are
taken.

## Main definitions

* `UserStoreCall`, `Registrations`, `Registrations.step` — calls, and the records that were inserted.
* `Registrations.Undisturbed` — a call disturbs no account.
* `Registrations.NewId` — a user id that is inserted is new.
* `UserStore.Coherent` — the three maps fit the records that were inserted.
-/

namespace IocpChat

open Transition

/-! ## Calls -/

inductive UserStoreCall
  | insert (record : UserRecord)
  | setEmailVerified (userId : List UInt8)

/-- The store, and the records that were inserted into it. -/
structure Registrations where
  store : UserStore
  inserted : List UserRecord

/-- The same is found under the keys of an account. -/
structure UserStore.Keeps (st st' : UserStore) (u : UserRecord) : Prop where
  email : st'.findByEmail (cString u.email) = st.findByEmail (cString u.email)
  username : st'.findByUsername (cString u.username) = st.findByUsername (cString u.username)
  userId : st'.findByUserId u.userId = st.findByUserId u.userId

/-- What is found under an email has that email, and what is found under a name has that name. -/
structure UserStore.Named (st : UserStore) : Prop where
  email : ∀ e r, st.findByEmail e = some r → cString r.email = e
  username : ∀ n r, st.findByUsername n = some r → cString r.username = n

namespace Registrations

def new : Registrations := ⟨.empty, []⟩

def exec (s : Registrations) : UserStoreCall → Registrations
  | .insert record =>
    let r := s.store.insert record
    ⟨r.2, if r.1 then s.inserted ++ [record] else s.inserted⟩
  | .setEmailVerified userId => { s with store := (s.store.setEmailVerified userId).2 }

def step (s : Registrations) (call : UserStoreCall) : Option Registrations := some (s.exec call)

/-- **A call disturbs no account.**  An insertion that succeeds changes nothing for the accounts
that are there, one that fails changes nothing at all, and emails and names lead to records that
have them. -/
structure Undisturbed (s : Registrations) (call : UserStoreCall) : Prop where
  keeps : ∀ record, call = .insert record → (s.store.insert record).1 = true →
    ∀ u ∈ s.inserted, s.store.Keeps (s.exec call).store u
  unchanged : ∀ record, call = .insert record → (s.store.insert record).1 = false →
    (s.exec call).store = s.store
  named : (s.exec call).store.Named

/-- A record that is inserted has a user id that is not there. -/
def NewId (s : Registrations) : UserStoreCall → Prop
  | .insert record =>
    (s.store.insert record).1 = true → s.store.findByUserId record.userId = none
  | .setEmailVerified _ => True

instance (s : Registrations) : ∀ call, Decidable (s.NewId call)
  | .insert _ => inferInstanceAs (Decidable (_ → _))
  | .setEmailVerified _ => .isTrue trivial

end Registrations

/-! ## The maps -/

namespace UserStore

/-- **The maps fit the records that were inserted.**  The email and the name of each lead to a
record with that email and name, and nothing else is in the maps. -/
structure Coherent (st : UserStore) (inserted : List UserRecord) : Prop where
  email : ∀ u ∈ inserted, st.emailToUid (cString u.email) = some (UserStore.toHex u.userId)
  username : ∀ u ∈ inserted, cString u.username ≠ [] →
    st.usernameToUid (cString u.username) = some (UserStore.toHex u.userId)
  record : ∀ u ∈ inserted,
    ∃ r, st.records (UserStore.toHex u.userId) = some r ∧ r.identity = u.identity
  of_email : ∀ key uid, st.emailToUid key = some uid →
    ∃ u ∈ inserted, cString u.email = key ∧ UserStore.toHex u.userId = uid
  of_username : ∀ key uid, st.usernameToUid key = some uid →
    key ≠ [] ∧ ∃ u ∈ inserted, cString u.username = key ∧ UserStore.toHex u.userId = uid
  of_record : ∀ uid r, st.records uid = some r → ∃ u ∈ inserted, UserStore.toHex u.userId = uid

section Coherent

variable {st : UserStore} {inserted : List UserRecord} {u record : UserRecord}

theorem coherent_empty : empty.Coherent [] := by
  constructor <;> simp [empty]

theorem Coherent.named (h : st.Coherent inserted) : st.Named := by
  constructor
  · intro e r hr
    obtain ⟨uid, huid, hr⟩ := Option.bind_eq_some_iff.mp hr
    obtain ⟨u, hu, rfl, rfl⟩ := h.of_email e uid huid
    obtain ⟨r', hr', hid⟩ := h.record u hu
    cases hr.symm.trans hr'
    exact congrArg Identity.email hid
  · intro n r hr
    obtain ⟨uid, huid, hr⟩ := Option.bind_eq_some_iff.mp hr
    obtain ⟨-, u, hu, rfl, rfl⟩ := h.of_username n uid huid
    obtain ⟨r', hr', hid⟩ := h.record u hu
    cases hr.symm.trans hr'
    exact congrArg Identity.name hid

theorem insert_cases (st : UserStore) (record : UserRecord) :
    st.insert record = (false, st) ∨
      st.insert record = (true, st.put record) ∧ st.emailToUid (cString record.email) = none ∧
        (cString record.username ≠ [] → st.usernameToUid (cString record.username) = none) := by
  unfold insert
  by_cases hemail : (st.emailToUid (cString record.email)).isSome = true
  · simp [hemail]
  · by_cases hname : cString record.username ≠ [] ∧
        (st.usernameToUid (cString record.username)).isSome = true
    · simp [hemail, hname]
    · right
      refine ⟨by simp only [if_neg hemail, if_neg hname], by simpa using hemail, ?_⟩
      intro hne
      simpa [hne] using hname

theorem usernameToUid_put_of_ne {key : Key} (h : key ≠ cString record.username) :
    (st.put record).usernameToUid key = st.usernameToUid key := by
  simp only [put]
  split
  · rfl
  · exact Function.update_of_ne h ..

/-- **An insertion with a new user id** keeps what is found under the keys of the others. -/
theorem Coherent.keeps_put (h : st.Coherent inserted)
    (hemail : st.emailToUid (cString record.email) = none)
    (hname : cString record.username ≠ [] → st.usernameToUid (cString record.username) = none)
    (hid : st.findByUserId record.userId = none) (hu : u ∈ inserted) : st.Keeps (st.put record) u := by
  have hrecords : ∀ v ∈ inserted,
      (st.put record).records (UserStore.toHex v.userId) = st.records (UserStore.toHex v.userId) := by
    intro v hv
    obtain ⟨r, hr, -⟩ := h.record v hv
    have hne : UserStore.toHex v.userId ≠ UserStore.toHex record.userId := by
      intro heq
      rw [heq] at hr
      exact absurd (hid.symm.trans hr) (by simp)
    exact Function.update_of_ne hne ..
  constructor
  · have hne : cString u.email ≠ cString record.email := by
      intro heq
      exact absurd (hemail.symm.trans (heq ▸ h.email u hu)) (by simp)
    have huid : (st.put record).emailToUid (cString u.email) = st.emailToUid (cString u.email) :=
      Function.update_of_ne hne ..
    rw [findByEmail, findByEmail, huid, h.email u hu]
    exact hrecords u hu
  · rw [findByUsername, findByUsername]
    by_cases heq : cString u.username = cString record.username
    · -- a name that is taken is not inserted, so this one is empty
      by_cases hempty : cString record.username = []
      · have huid : (st.put record).usernameToUid = st.usernameToUid := if_pos hempty
        have hnone : st.usernameToUid (cString u.username) = none := by
          by_contra hsome
          obtain ⟨uid, huid⟩ := Option.ne_none_iff_exists'.mp hsome
          exact (h.of_username _ uid huid).1 (heq.trans hempty)
        rw [huid, hnone]
        rfl
      · have htaken := h.username u hu (heq.symm ▸ hempty)
        rw [heq] at htaken
        exact absurd ((hname hempty).symm.trans htaken) (by simp)
    · rw [usernameToUid_put_of_ne heq]
      cases huid : st.usernameToUid (cString u.username) with
      | none => rfl
      | some uid =>
        obtain ⟨-, v, hv, -, rfl⟩ := h.of_username _ uid huid
        exact hrecords v hv
  · exact hrecords u hu

theorem Coherent.put (h : st.Coherent inserted)
    (hemail : st.emailToUid (cString record.email) = none)
    (hname : cString record.username ≠ [] → st.usernameToUid (cString record.username) = none)
    (hid : st.findByUserId record.userId = none) : (st.put record).Coherent (inserted ++ [record]) := by
  have hname' : cString record.username ≠ [] →
      (st.put record).usernameToUid = Function.update st.usernameToUid (cString record.username)
        (some (UserStore.toHex record.userId)) := fun hne => if_neg hne
  constructor
  · intro v hv
    rcases List.mem_append.mp hv with hv | hv
    · have hne : cString v.email ≠ cString record.email := by
        intro heq
        exact absurd (hemail.symm.trans (heq ▸ h.email v hv)) (by simp)
      exact (Function.update_of_ne hne ..).trans (h.email v hv)
    · rw [List.mem_singleton.mp hv]
      exact Function.update_self ..
  · intro v hv hne
    rcases List.mem_append.mp hv with hv | hv
    · have hother : cString v.username ≠ cString record.username := by
        intro heq
        have htaken := h.username v hv hne
        rw [heq] at htaken hne
        exact absurd ((hname hne).symm.trans htaken) (by simp)
      rw [usernameToUid_put_of_ne hother]
      exact h.username v hv hne
    · rw [List.mem_singleton.mp hv] at hne ⊢
      rw [hname' hne, Function.update_self]
  · intro v hv
    rcases List.mem_append.mp hv with hv | hv
    · have hkeeps := (h.keeps_put hemail hname hid hv).userId
      rw [findByUserId, findByUserId] at hkeeps
      rw [hkeeps]
      exact h.record v hv
    · rw [List.mem_singleton.mp hv]
      exact ⟨record, Function.update_self .., rfl⟩
  · intro key uid huid
    by_cases heq : key = cString record.email
    · subst heq
      refine ⟨record, by simp, rfl, ?_⟩
      simpa [UserStore.put] using huid
    · have hold : st.emailToUid key = some uid := by simpa [UserStore.put, heq] using huid
      obtain ⟨v, hv, hv'⟩ := h.of_email key uid hold
      exact ⟨v, List.mem_append_left _ hv, hv'⟩
  · intro key uid huid
    by_cases heq : key = cString record.username ∧ key ≠ []
    · obtain ⟨rfl, hne⟩ := heq
      refine ⟨hne, record, by simp, rfl, ?_⟩
      simpa [hname' hne] using huid
    · have hold : st.usernameToUid key = some uid := by
        simp only [UserStore.put] at huid
        split at huid
        · exact huid
        · rename_i hne
          rwa [Function.update_of_ne fun hkey => heq ⟨hkey, hkey ▸ hne⟩] at huid
      obtain ⟨hne, v, hv, hv'⟩ := h.of_username key uid hold
      exact ⟨hne, v, List.mem_append_left _ hv, hv'⟩
  · intro uid r hr
    by_cases heq : uid = UserStore.toHex record.userId
    · exact ⟨record, by simp, heq.symm⟩
    · have hold : st.records uid = some r := by simpa [UserStore.put, heq] using hr
      obtain ⟨v, hv, hv'⟩ := h.of_record uid r hold
      exact ⟨v, List.mem_append_left _ hv, hv'⟩

theorem Coherent.setEmailVerified (h : st.Coherent inserted) (userId : List UInt8) :
    (st.setEmailVerified userId).2.Coherent inserted := by
  cases hr : st.records (UserStore.toHex userId) with
  | none =>
    simp only [UserStore.setEmailVerified, hr]
    exact h
  | some r =>
    simp only [UserStore.setEmailVerified, hr]
    refine { h with record := ?_, of_record := ?_ }
    · intro u hu
      by_cases heq : UserStore.toHex u.userId = UserStore.toHex userId
      · obtain ⟨r', hr', hid⟩ := h.record u hu
        rw [heq] at hr' ⊢
        cases hr.symm.trans hr'
        exact ⟨_, Function.update_self .., hid⟩
      · simp only [Function.update_of_ne heq]
        exact h.record u hu
    · intro uid r' hr'
      by_cases heq : uid = UserStore.toHex userId
      · rw [heq]
        exact h.of_record _ r hr
      · exact h.of_record uid r' (by simpa [heq] using hr')

/-- **An insertion with a user id that is there** makes the email of the older record lead to the
new one. -/
theorem Coherent.not_named_put (h : st.Coherent inserted)
    (hemail : st.emailToUid (cString record.email) = none)
    (hid : st.findByUserId record.userId ≠ none) : ¬ (st.put record).Named := by
  intro hnamed
  obtain ⟨r, hr⟩ := Option.ne_none_iff_exists'.mp hid
  obtain ⟨u, hu, huid⟩ := h.of_record _ r hr
  have hne : cString u.email ≠ cString record.email := by
    intro heq
    exact absurd (hemail.symm.trans (heq ▸ h.email u hu)) (by simp)
  have hfind : (st.put record).findByEmail (cString u.email) = some record := by
    have hindex : (st.put record).emailToUid (cString u.email) = some (UserStore.toHex record.userId) :=
      (Function.update_of_ne hne ..).trans (huid ▸ h.email u hu)
    rw [findByEmail, hindex]
    exact Function.update_self ..
  exact hne (hnamed.email _ _ hfind).symm

end Coherent

end UserStore

/-! ## Runs -/

namespace Registrations

variable {s : Registrations}

theorem exec_insert_of_eq {record : UserRecord} {st : UserStore} {ok : Bool}
    (h : s.store.insert record = (ok, st)) :
    s.exec (.insert record) = ⟨st, if ok then s.inserted ++ [record] else s.inserted⟩ := by
  simp only [exec, h]

/-- In a state where the maps fit the records, a call disturbs no account iff its user id is
new; then they fit afterwards. -/
theorem undisturbed_iff_newId (h : s.store.Coherent s.inserted) (call : UserStoreCall) :
    (s.Undisturbed call ↔ s.NewId call) ∧
      (s.NewId call → (s.exec call).store.Coherent (s.exec call).inserted) := by
  cases call with
  | insert record =>
    rcases s.store.insert_cases record with hfail | ⟨hok, hemail, hname⟩
    · have hexec := exec_insert_of_eq hfail
      refine ⟨iff_of_true ⟨?_, ?_, ?_⟩ ?_, fun _ => ?_⟩
      · rintro _ ⟨⟩ hok
        exact absurd (hfail ▸ hok) (by simp)
      · rintro _ ⟨⟩ -
        rw [hexec]
      · rw [hexec]
        exact h.named
      · intro hok
        exact absurd (hfail ▸ hok) (by simp)
      · rw [hexec]
        exact h
    · have hexec := exec_insert_of_eq hok
      have hnew : s.NewId (.insert record) ↔ s.store.findByUserId record.userId = none := by
        simp [NewId, hok]
      have hcoherent : s.NewId (.insert record) →
          (s.exec (.insert record)).store.Coherent (s.exec (.insert record)).inserted := by
        intro hid
        rw [hexec]
        exact h.put hemail hname (hnew.mp hid)
      refine ⟨⟨?_, ?_⟩, hcoherent⟩
      · intro hundisturbed
        rw [hnew]
        by_contra hid
        have hnamed := hundisturbed.named
        rw [hexec] at hnamed
        exact h.not_named_put hemail hid hnamed
      · intro hid
        refine ⟨?_, ?_, (hcoherent hid).named⟩
        · rintro _ ⟨⟩ - u hu
          rw [hexec]
          exact h.keeps_put hemail hname (hnew.mp hid) hu
        · rintro _ ⟨⟩ hfail
          exact absurd (hok ▸ hfail) (by simp)
  | setEmailVerified userId =>
    have hcoherent := h.setEmailVerified userId
    refine ⟨iff_of_true ⟨?_, ?_, hcoherent.named⟩ trivial, fun _ => hcoherent⟩
    · intro _ heq
      cases heq
    · intro _ heq
      cases heq

/-- **Registrations disturb no account iff** no record that is inserted has a user id that is
there. -/
theorem undisturbed_iff (calls : List UserStoreCall) :
    Meets step Undisturbed new calls ↔ Meets step NewId new calls := by
  refine meets_congr (fun s => s.store.Coherent s.inserted) UserStore.coherent_empty ?_ ?_
  · intro s call h
    exact (undisturbed_iff_newId h call).1
  · rintro s call _ h hid ⟨⟩
    exact (undisturbed_iff_newId h call).2 hid

/-- The record of a sign-up whose name and email begin alike. -/
def sampleUser (name : String) : UserRecord :=
  SignupState.userRecord (fun _ => sampleHash 1)
    ⟨text name ++ text "@a.com", text "+4912345", text name, text "secret"⟩ sampleDrawn

/-- The same id is drawn for two users.  Then the email of the first leads to the second. -/
theorem not_undisturbed_same_id :
    ¬ Meets step Undisturbed new [.insert (sampleUser "alice"), .insert (sampleUser "bob")] := by
  rintro ⟨-, h⟩
  have hnamed := (h _ rfl).1.named
  have hfind : (exec (exec new (.insert (sampleUser "alice"))) (.insert (sampleUser "bob"))).store.findByEmail
      (text "alice@a.com") = some (sampleUser "bob") := by decide +kernel
  exact absurd (hnamed.email _ _ hfind) (by decide)

end Registrations

end IocpChat

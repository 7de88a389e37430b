import IocpChat.Network.HandleOwners

/-!
# Handles are closed once

The set `disconnectedSockets` says of a handle that is open that a thread is going to close it, or
that its connection is still being set up.  In both cases there is exactly one such thread.  A
handle that is not open stays in the set until it is given away again, so nobody begins to close
it.

Only handles on which a connection was set up are ever looked for in the set, apart from
`INVALID_SOCKET`, which a session has that is back in the pool.

## Main definitions

* `Handles.Server.ClosedOnce` — the handle of a connection is closed once.
* `Handles.Accounted` — what the set says of the handles.
* `Handles.Quiet`, `Handles.Shut` — steps that leave the handles alone, and steps that close one.
-/

namespace IocpChat

open Transition

namespace Handles

/-! ## What is wanted -/

/-- The connection has its handle. -/
def Holds (n : Handles) (m : ℕ) : Prop :=
  n.isOpen (n.socketOf m) = true ∧ n.connection (n.socketOf m) = m

instance (n : Handles) (m : ℕ) : Decidable (n.Holds m) := inferInstanceAs (Decidable (_ ∧ _))

/-- `closesocket` is called once for each connection that does not have its handle any more, and not
for the others.  One that has ended is among the first, or a thread is about to close it. -/
def Server.ClosedOnce (s : Server) : Prop :=
  ∀ m < s.shared.accepted,
    s.shared.closes m = (if s.shared.Holds m then 0 else 1) ∧
      (s.shared.ended m = true → s.shared.Holds m →
        ∃ w ∈ s.calls, w.socket = s.shared.socketOf m ∧ w.stage.closing = true)

/-! ## Who closes what -/

/-- The thread is setting up a connection on the handle. -/
def Worker.setsUp (k : Socket) (w : Worker) : Bool := w.stage.settingUp && w.socket == k

/-- The thread is going to close the handle. -/
def Worker.closes (k : Socket) (w : Worker) : Bool := w.stage.closing && w.socket == k

def Closing (n : Handles) (k : Socket) : Prop :=
  n.isOpen k = true ∧ n.setUp (n.connection k) = true ∧ n.disconnectedSockets k = true

instance (n : Handles) (k : Socket) : Decidable (n.Closing k) := inferInstanceAs (Decidable (_ ∧ _))

/-- A connection on the handle is being set up. -/
def SettingUp (n : Handles) (k : Socket) : Prop :=
  n.isOpen k = true ∧ n.setUp (n.connection k) = false

instance (n : Handles) (k : Socket) : Decidable (n.SettingUp k) := inferInstanceAs (Decidable (_ ∧ _))

/-- Handles that are in the set are closed, are being closed by one thread, or have a connection
that is being set up by one thread. -/
structure Accounted (n : Handles) (calls : List Worker) : Prop where
  valid : ∀ m < n.accepted, n.socketOf m ≠ invalidSocket
  pending : ∀ o ∈ n.pending, n.known o.socket = true
  worker : ∀ w ∈ calls, w.stage ≠ .done → w.stage.settingUp = false → n.known w.socket = true
  session : ∀ p, (n.sessionManager.pool p).socket = invalidSocket ∨
    n.known (n.sessionManager.pool p).socket = true
  known : ∀ k, n.known k = true → n.Current (n.connection k) k
  marked : ∀ k, n.known k = true → n.isOpen k = false ∨ n.setUp (n.connection k) = false →
    n.disconnectedSockets k = true
  closing : ∀ k, calls.countP (Worker.closes k) = if n.Closing k then 1 else 0
  settingUp : ∀ k, calls.countP (Worker.setsUp k) = if n.SettingUp k then 1 else 0
  closes : ∀ m < n.accepted, n.closes m = if n.Holds m then 0 else 1
  fresh : ∀ m, n.accepted ≤ m → n.closes m = 0 ∧ n.setUp m = false
  ended : ∀ m, n.ended m = true → n.setUp m = true ∧
    (n.Holds m → n.disconnectedSockets (n.socketOf m) = true)

section Accounted

variable {n n' : Handles} {w : Worker} {calls rest : List Worker} {k : Socket} {conn : ℕ}

theorem of_countP_cons {p : Worker → Bool} {P : Prop} [Decidable P]
    (h : (w :: rest).countP p = if P then 1 else 0) (hw : p w = true) : P ∧ rest.countP p = 0 := by
  rw [List.countP_cons_of_pos hw] at h
  split at h
  next hP => exact ⟨hP, by omega⟩
  next => omega

theorem Accounted.perm (h : Accounted n calls) (hperm : calls.Perm rest) : Accounted n rest := by
  refine ⟨h.valid, h.pending, ?_, h.session, h.known, h.marked, ?_, ?_, h.closes, h.fresh, h.ended⟩
  · intro w hw
    exact h.worker w (hperm.mem_iff.mpr hw)
  · intro k
    rw [← hperm.countP_eq]
    exact h.closing k
  · intro k
    rw [← hperm.countP_eq]
    exact h.settingUp k

theorem Accounted.spawn (h : Accounted n calls) (hsetting : w.stage.settingUp = false)
    (hclosing : w.stage.closing = false) (hknown : n.known w.socket = true) :
    Accounted n (calls ++ [w]) := by
  refine ⟨h.valid, h.pending, ?_, h.session, h.known, h.marked, ?_, ?_, h.closes, h.fresh, h.ended⟩
  · intro w' hw' hlive hset
    rcases List.mem_append.mp hw' with hw' | hw'
    · exact h.worker w' hw' hlive hset
    · rw [List.mem_singleton.mp hw']
      exact hknown
  · intro k
    rw [← h.closing k, List.countP_append]
    simp [Worker.closes, hclosing]
  · intro k
    rw [← h.settingUp k, List.countP_append]
    simp [Worker.setsUp, hsetting]

theorem Accounted.restage (h : Accounted n (w :: rest)) {before stage : Stage}
    (hstage : w.stage = before) (hlive : before ≠ .done)
    (hsetting : stage.settingUp = before.settingUp) (hclosing : stage.closing = before.closing) :
    Accounted n ({ w with stage } :: rest) := by
  subst hstage
  refine ⟨h.valid, h.pending, ?_, h.session, h.known, h.marked, ?_, ?_, h.closes, h.fresh, h.ended⟩
  · intro w' hw' hlive' hset
    rcases List.mem_cons.mp hw' with rfl | hw'
    · exact h.worker w List.mem_cons_self hlive (hsetting ▸ hset)
    · exact h.worker w' (List.mem_cons_of_mem w hw') hlive' hset
  · intro k
    rw [← h.closing k, List.countP_cons, List.countP_cons, Worker.closes, Worker.closes, hclosing]
  · intro k
    rw [← h.settingUp k, List.countP_cons, List.countP_cons, Worker.setsUp, Worker.setsUp, hsetting]

/-- A step that does not touch handles. -/
structure Quiet (n n' : Handles) : Prop where
  accepted : n'.accepted = n.accepted
  connection : n'.connection = n.connection
  isOpen : n'.isOpen = n.isOpen
  disconnectedSockets : n'.disconnectedSockets = n.disconnectedSockets
  sockets : ∀ p, (n'.sessionManager.pool p).socket = (n.sessionManager.pool p).socket ∨
    (n'.sessionManager.pool p).socket = invalidSocket ∨
    n.known (n'.sessionManager.pool p).socket = true
  socketOf : n'.socketOf = n.socketOf
  setUp : n'.setUp = n.setUp
  known : n'.known = n.known
  closes : n'.closes = n.closes
  ended : n'.ended = n.ended
  pending : ∀ o ∈ n'.pending, o ∈ n.pending ∨ n.known o.socket = true

theorem Quiet.sessions {m : SessionManager} (h : n.sessionManager.KeepsSockets m) :
    Quiet n { n with sessionManager := m } :=
  ⟨rfl, rfl, rfl, rfl, fun p => (h p).imp_right .inl, rfl, rfl, rfl, rfl, rfl, fun _ => .inl⟩

theorem Quiet.operations {pending : List Operation}
    (h : ∀ o ∈ pending, o ∈ n.pending ∨ n.known o.socket = true) : Quiet n { n with pending } :=
  ⟨rfl, rfl, rfl, rfl, fun _ => .inl rfl, rfl, rfl, rfl, rfl, rfl, h⟩

theorem Quiet.record (cause : ℕ) (part : Part) (victim : Option ℕ) :
    Quiet n (n.record cause part victim) :=
  ⟨rfl, rfl, rfl, rfl, fun _ => .inl rfl, rfl, rfl, rfl, rfl, rfl, fun _ => .inl⟩

theorem Quiet.buffers (socketBuffers : Socket → Option ℕ) : Quiet n { n with socketBuffers } :=
  ⟨rfl, rfl, rfl, rfl, fun _ => .inl rfl, rfl, rfl, rfl, rfl, rfl, fun _ => .inl⟩

theorem Accounted.quiet (h : Accounted n calls) (hq : Quiet n n') : Accounted n' calls := by
  have hholds : ∀ m, n'.Holds m ↔ n.Holds m := by
    intro m
    rw [Holds, Holds, hq.isOpen, hq.connection, hq.socketOf]
  constructor
  · rw [hq.accepted, hq.socketOf]
    exact h.valid
  · intro o ho
    rw [hq.known]
    rcases hq.pending o ho with ho | ho
    · exact h.pending o ho
    · exact ho
  · rw [hq.known]
    exact h.worker
  · intro p
    rw [hq.known]
    rcases hq.sockets p with hp | hp | hp
    · rw [hp]
      exact h.session p
    · exact .inl hp
    · exact .inr hp
  · intro k' hk'
    rw [hq.known] at hk'
    rw [hq.connection]
    exact (h.known k' hk').congr hq.accepted hq.socketOf hq.connection
  · rw [hq.known, hq.isOpen, hq.setUp, hq.connection, hq.disconnectedSockets]
    exact h.marked
  · simp only [Closing, hq.isOpen, hq.setUp, hq.connection, hq.disconnectedSockets]
    exact h.closing
  · simp only [SettingUp, hq.isOpen, hq.setUp, hq.connection]
    exact h.settingUp
  · simp only [hholds, hq.accepted, hq.closes]
    exact h.closes
  · rw [hq.accepted, hq.closes, hq.setUp]
    exact h.fresh
  · simp only [hholds, hq.ended, hq.setUp, hq.disconnectedSockets, hq.socketOf]
    exact h.ended

theorem Current.ne {m m' : ℕ} {k' : Socket} (h : n.Current m k) (h' : n.Current m' k') (hk : k ≠ k') :
    m ≠ m' := by
  rintro rfl
  exact hk (h.socketOf.symm.trans h'.socketOf)

/-- The handle is closed.  It is in the set, if it is known. -/
structure Shut (n n' : Handles) (k : Socket) : Prop where
  accepted : n'.accepted = n.accepted
  connection : n'.connection = n.connection
  socketOf : n'.socketOf = n.socketOf
  sessionManager : n'.sessionManager = n.sessionManager
  pending : n'.pending = n.pending
  setUp : n'.setUp = n.setUp
  known : n'.known = n.known
  ended : n'.ended = n.ended
  isOpen : n'.isOpen = Function.update n.isOpen k false
  disconnectedSockets : ∀ k' ≠ k, n'.disconnectedSockets k' = n.disconnectedSockets k'
  marked : n.known k = true → n'.disconnectedSockets k = true
  closes : n'.closes = Function.update n.closes (n.connection k) (n.closes (n.connection k) + 1)

section Shut

variable (hs : Shut n n' k)

include hs

theorem Shut.isOpen_self : n'.isOpen k = false := by
  rw [hs.isOpen, Function.update_self]

theorem Shut.isOpen_of_ne {k' : Socket} (hk' : k' ≠ k) : n'.isOpen k' = n.isOpen k' := by
  rw [hs.isOpen, Function.update_of_ne hk']

theorem Shut.holds_iff (hk : n.Current (n.connection k) k) (m : ℕ) :
    n'.Holds m ↔ n.Holds m ∧ m ≠ n.connection k := by
  rw [Holds, Holds, hs.socketOf, hs.connection]
  by_cases hm : n.socketOf m = k
  · rw [hm, hs.isOpen_self]
    constructor
    · rintro ⟨hfalse, -⟩
      cases hfalse
    · rintro ⟨⟨-, hlast⟩, hne⟩
      exact absurd hlast.symm hne
  · rw [hs.isOpen_of_ne hm]
    constructor
    · intro hm'
      refine ⟨hm', ?_⟩
      rintro rfl
      exact hm hk.socketOf
    · exact And.left

theorem Shut.closes_eq (hk : n.Current (n.connection k) k) (hopen : n.isOpen k = true) {m : ℕ}
    (hm : n.closes m = if n.Holds m then 0 else 1) :
    n'.closes m = if n'.Holds m then 0 else 1 := by
  rw [hs.closes]
  simp only [hs.holds_iff hk]
  by_cases heq : m = n.connection k
  · subst heq
    have hheld : n.Holds (n.connection k) := by
      rw [Holds, hk.socketOf]
      exact ⟨hopen, rfl⟩
    rw [Function.update_self, hm, if_pos hheld]
    simp
  · rw [Function.update_of_ne heq, hm]
    simp [heq]

end Shut

/-- **An open handle is closed**, and no thread is left that was to set it up or to close it. -/
theorem Accounted.shut (h : Accounted n calls) (hs : Shut n n' k) (hopen : n.isOpen k = true)
    (hk : n.Current (n.connection k) k) {calls' : List Worker}
    (hworker : ∀ w ∈ calls', w.stage ≠ .done → w.stage.settingUp = false → n.known w.socket = true)
    (hclosing : ∀ k', calls'.countP (Worker.closes k') =
      if k' = k then 0 else calls.countP (Worker.closes k'))
    (hsetting : ∀ k', calls'.countP (Worker.setsUp k') =
      if k' = k then 0 else calls.countP (Worker.setsUp k')) : Accounted n' calls' := by
  constructor
  · rw [hs.accepted, hs.socketOf]
    exact h.valid
  · rw [hs.pending, hs.known]
    exact h.pending
  · rw [hs.known]
    exact hworker
  · rw [hs.sessionManager, hs.known]
    exact h.session
  · intro k' hk'
    rw [hs.known] at hk'
    rw [hs.connection]
    exact (h.known k' hk').congr hs.accepted hs.socketOf hs.connection
  · intro k' hk'
    by_cases heq : k' = k
    · subst heq
      intro _
      exact hs.marked (hs.known ▸ hk')
    · rw [hs.isOpen_of_ne heq, hs.disconnectedSockets k' heq, hs.setUp, hs.connection]
      exact h.marked k' (hs.known ▸ hk')
  · intro k'
    rw [hclosing]
    by_cases heq : k' = k
    · subst heq
      simp [Closing, hs.isOpen_self]
    · simp only [if_neg heq, Closing, hs.isOpen_of_ne heq, hs.disconnectedSockets k' heq, hs.setUp,
        hs.connection]
      exact h.closing k'
  · intro k'
    rw [hsetting]
    by_cases heq : k' = k
    · subst heq
      simp [SettingUp, hs.isOpen_self]
    · simp only [if_neg heq, SettingUp, hs.isOpen_of_ne heq, hs.setUp, hs.connection]
      exact h.settingUp k'
  · intro m hm
    exact hs.closes_eq hk hopen (h.closes m (hs.accepted ▸ hm))
  · intro m hm
    rw [hs.accepted] at hm
    have hne : m ≠ n.connection k := (Nat.ne_of_lt (Nat.lt_of_lt_of_le hk.lt hm)).symm
    rw [hs.closes, hs.setUp, Function.update_of_ne hne]
    exact h.fresh m hm
  · intro m hm
    rw [hs.ended] at hm
    rw [hs.setUp, hs.socketOf]
    refine ⟨(h.ended m hm).1, ?_⟩
    intro hheld
    have hne : n.socketOf m ≠ k := by
      intro heq
      have hopen' := hheld.1
      rw [hs.socketOf, heq, hs.isOpen_self] at hopen'
      cases hopen'
    rw [hs.disconnectedSockets _ hne]
    exact (h.ended m hm).2 ((hs.holds_iff hk m).mp hheld).1

theorem lastOn_of_current (hk : n.Current (n.connection k) k) : n.lastOn k = some (n.connection k) :=
  if_pos ⟨hk.lt, hk.socketOf⟩

theorem shut_closesocket (hk : n.Current (n.connection k) k)
    (hmarked : n.known k = true → n.disconnectedSockets k = true) : Shut n (n.closesocket conn k) k := by
  refine ⟨rfl, rfl, rfl, rfl, rfl, rfl, rfl, rfl, rfl, fun _ _ => rfl, hmarked, ?_⟩
  simp only [Handles.closesocket, lastOn_of_current hk, Option.elim_some]

theorem shut_handleDisconnectWithoutLock (hk : n.Current (n.connection k) k)
    (hmarked : n.disconnectedSockets k = false) :
    Shut n (n.handleDisconnectWithoutLock conn k) k := by
  have hlast : (({ n with
      disconnectedSockets := Function.update n.disconnectedSockets k true } : Handles).eraseBuffer conn
        k).lastOn k = some (n.connection k) := if_pos ⟨hk.lt, hk.socketOf⟩
  rw [Handles.handleDisconnectWithoutLock, if_neg (by simp [hmarked])]
  refine ⟨rfl, rfl, rfl, rfl, rfl, rfl, rfl, rfl, rfl, ?_, fun _ => Function.update_self .., ?_⟩
  · intro k' hk'
    exact Function.update_of_ne hk' ..
  · simp only [Handles.closesocket, hlast, Option.elim_some]
    rfl

/-- When a thread is done, no thread of some kind is left for its handle, if no other one was of this
kind.  For the other handles there are as many as before. -/
theorem countP_done {kind : Socket → Worker → Bool}
    (hdone : ∀ k', ¬ kind k' { w with stage := .done } = true)
    (hother : ∀ k' ≠ w.socket, ¬ kind k' w = true) (hrest : rest.countP (kind w.socket) = 0)
    (k' : Socket) : ({ w with stage := .done } :: rest).countP (kind k') =
      if k' = w.socket then 0 else (w :: rest).countP (kind k') := by
  rw [List.countP_cons_of_neg (hdone k')]
  split
  next heq =>
    subst heq
    exact hrest
  next hne => rw [List.countP_cons_of_neg (hother k' hne)]

theorem Accounted.close (h : Accounted n (w :: rest)) (hopen : n.isOpen w.socket = true)
    (hw : n.Current w.connection w.socket)
    (hmarked : n.known w.socket = true → n.disconnectedSockets w.socket = true)
    (hclosing : rest.countP (Worker.closes w.socket) = 0)
    (hsetting : rest.countP (Worker.setsUp w.socket) = 0) :
    Accounted (n.closesocket w.connection w.socket) ({ w with stage := .done } :: rest) := by
  have hcurrent : n.Current (n.connection w.socket) w.socket := by
    rw [hw.connection]
    exact hw
  refine h.shut (shut_closesocket hcurrent hmarked) hopen hcurrent ?_ ?_ ?_
  · intro w' hw' hlive hset
    rcases List.mem_cons.mp hw' with rfl | hw'
    · exact absurd rfl hlive
    · exact h.worker w' (List.mem_cons_of_mem w hw') hlive hset
  · exact countP_done (by simp [Worker.closes, Stage.closing])
      (fun k' hne => by simp [Worker.closes, Ne.symm hne]) hclosing
  · exact countP_done (by simp [Worker.setsUp, Stage.settingUp])
      (fun k' hne => by simp [Worker.setsUp, Ne.symm hne]) hsetting

/-- The last step of `handleDisconnect`. -/
theorem Accounted.close_of_closing (h : Accounted n (w :: rest)) (hw : n.Current w.connection w.socket)
    (hstage : w.stage = .close) :
    Accounted (n.closesocket w.connection w.socket) ({ w with stage := .done } :: rest) := by
  obtain ⟨hclosing, hrest⟩ := of_countP_cons (h.closing w.socket) (by simp [Worker.closes, hstage, Stage.closing])
  have hsetting := h.settingUp w.socket
  rw [if_neg (by simp [SettingUp, hclosing.2.1]), List.countP_eq_zero] at hsetting
  refine h.close hclosing.1 hw (fun _ => hclosing.2.2) hrest ?_
  rw [List.countP_eq_zero]
  exact fun w' hw' => hsetting w' (List.mem_cons_of_mem w hw')

/-- `CreateIoCompletionPort` fails. -/
theorem Accounted.close_of_settingUp (h : Accounted n (w :: rest))
    (hw : n.Current w.connection w.socket) (hstage : w.stage = .associate) :
    Accounted (n.closesocket w.connection w.socket) ({ w with stage := .done } :: rest) := by
  obtain ⟨hsetting, hrest⟩ :=
    of_countP_cons (h.settingUp w.socket) (by simp [Worker.setsUp, hstage, Stage.settingUp])
  have hclosing := h.closing w.socket
  rw [if_neg (by simp [Closing, hsetting.2]), List.countP_eq_zero] at hclosing
  refine h.close hsetting.1 hw (fun hknown => h.marked _ hknown (.inr hsetting.2)) ?_ hrest
  rw [List.countP_eq_zero]
  exact fun w' hw' => hclosing w' (List.mem_cons_of_mem w hw')

theorem Accounted.open_of_unmarked (h : Accounted n calls) (hknown : n.known k = true)
    (hunmarked : n.disconnectedSockets k = false) :
    n.isOpen k = true ∧ n.setUp (n.connection k) = true := by
  have hnot : ¬ (n.isOpen k = false ∨ n.setUp (n.connection k) = false) := by
    intro hshut
    have hmarked := h.marked k hknown hshut
    rw [hunmarked] at hmarked
    cases hmarked
  simpa using hnot

theorem update_true_of_true {f : Socket → Bool} {k' : Socket} (h : f k' = true) :
    Function.update f k true k' = true := by
  by_cases heq : k' = k
  · rw [heq, Function.update_self]
  · rwa [Function.update_of_ne heq]

theorem Accounted.insert_closed (h : Accounted n calls) (hclosed : n.isOpen k = false) :
    Accounted { n with disconnectedSockets := Function.update n.disconnectedSockets k true } calls := by
  refine ⟨h.valid, h.pending, h.worker, h.session, fun k' hk' => ?_, fun k' hk' hshut => ?_, ?_,
    h.settingUp, h.closes, h.fresh, fun m hm => ?_⟩
  · exact (h.known k' hk').congr rfl rfl rfl
  · exact update_true_of_true (h.marked k' hk' hshut)
  · intro k'
    rw [h.closing k']
    refine if_congr (and_congr_right fun hk' => ?_) rfl rfl
    have hne : k' ≠ k := by
      rintro rfl
      rw [hclosed] at hk'
      cases hk'
    simp only [Function.update_of_ne hne]
  · exact ⟨(h.ended m hm).1, fun hheld => update_true_of_true ((h.ended m hm).2 hheld)⟩

theorem Accounted.insert (h : Accounted n (w :: rest)) (hlive : w.stage ≠ .done)
    (hsetting : w.stage.settingUp = false) (hclosing : w.stage.closing = false)
    (hunmarked : n.disconnectedSockets w.socket = false) :
    Accounted { n with
        disconnectedSockets := Function.update n.disconnectedSockets w.socket true }
      ({ w with stage := .find } :: rest) := by
  have hknown := h.worker w List.mem_cons_self hlive hsetting
  have hopen := h.open_of_unmarked hknown hunmarked
  refine ⟨h.valid, h.pending, ?_, h.session, fun k hk => ?_, fun k hk hshut => ?_, ?_, ?_, h.closes,
    h.fresh, fun m hm => ?_⟩
  · intro w' hw' hlive' hset
    rcases List.mem_cons.mp hw' with rfl | hw'
    · exact hknown
    · exact h.worker w' (List.mem_cons_of_mem w hw') hlive' hset
  · exact (h.known k hk).congr rfl rfl rfl
  · exact update_true_of_true (h.marked k hk hshut)
  · intro k
    have hcount := h.closing k
    rw [List.countP_cons_of_neg (by simp [Worker.closes, hclosing])] at hcount
    by_cases heq : k = w.socket
    · subst heq
      rw [List.countP_cons_of_pos (by simp [Worker.closes, Stage.closing]), hcount]
      simp [Closing, hopen, hunmarked]
    · rw [List.countP_cons_of_neg (by simp [Worker.closes, Ne.symm heq]), hcount]
      exact if_congr (by simp [Closing, heq]) rfl rfl
  · intro k
    have hcount := h.settingUp k
    rw [List.countP_cons_of_neg (by simp [Worker.setsUp, hsetting])] at hcount
    rw [List.countP_cons_of_neg (by simp [Worker.setsUp, Stage.settingUp]), hcount]
    rfl
  · exact ⟨(h.ended m hm).1, fun hheld => update_true_of_true ((h.ended m hm).2 hheld)⟩

theorem Accounted.end_of {c : ℕ} (h : Accounted n calls) (hset : n.setUp c = true)
    (hmarked : n.disconnectedSockets (n.socketOf c) = true) :
    Accounted { n with ended := Function.update n.ended c true } calls := by
  refine ⟨h.valid, h.pending, h.worker, h.session, fun k hk => ?_, h.marked, h.closing, h.settingUp,
    h.closes, h.fresh, fun m hm => ?_⟩
  · exact (h.known k hk).congr rfl rfl rfl
  · by_cases heq : m = c
    · subst heq
      exact ⟨hset, fun _ => hmarked⟩
    · exact h.ended m (by simpa [heq] using hm)

/-- The first step of `handleDisconnect`. -/
theorem Accounted.mark (h : Accounted n (w :: rest)) (hw : n.Current w.connection w.socket)
    (hstage : w.stage = .mark) {e : Choice} {stage : Stage}
    (hexec : n.execStage e w.connection w.socket .mark = some (n', stage)) :
    Accounted n' ({ w with stage } :: rest) := by
  have hlive : w.stage ≠ .done := by simp [hstage]
  simp only [execStage] at hexec
  by_cases hmarked : n.disconnectedSockets w.socket = true
  · have hdone : Accounted n ({ w with stage := .done } :: rest) :=
      h.restage hstage (by simp) rfl rfl
    split at hexec
    next hset =>
      cases hexec
      exact hdone.end_of hset (hw.socketOf ▸ hmarked)
    next =>
      cases hexec
      exact hdone
  · have hunmarked : n.disconnectedSockets w.socket = false := by simpa using hmarked
    have hfind := h.insert hlive (by rw [hstage]; rfl) (by rw [hstage]; rfl) hunmarked
    split at hexec
    next hset =>
      cases hexec
      exact hfind.end_of (c := w.connection) hset (by simp [hw.socketOf])
    next =>
      cases hexec
      exact hfind

theorem Accounted.clear (h : Accounted n (w :: rest)) (ht : Tagged n (w :: rest))
    (hstage : w.stage = .clear) :
    Accounted
      { n with
        disconnectedSockets := Function.update n.disconnectedSockets w.socket false
        setUp := Function.update n.setUp w.connection true
        known := Function.update n.known w.socket true }
      ({ w with stage := .makeBuffer } :: rest) := by
  have hw := ht.worker w List.mem_cons_self (by simp [hstage])
  obtain ⟨⟨hopen, hnot⟩, hrest⟩ :=
    of_countP_cons (h.settingUp w.socket) (by simp [Worker.setsUp, hstage, Stage.settingUp])
  rw [hw.connection] at hnot
  have hknown : ∀ k, Function.update n.known w.socket true k = true →
      n.Current (n.connection k) k := by
    intro k hk
    by_cases heq : k = w.socket
    · rw [heq, hw.connection]
      exact hw
    · exact h.known k (by simpa [heq] using hk)
  -- The connections on other handles are not this one.
  have hother : ∀ {k}, k ≠ w.socket → n.Current (n.connection k) k →
      Function.update n.setUp w.connection true (n.connection k) = n.setUp (n.connection k) :=
    fun hk hcurrent => Function.update_of_ne (hcurrent.ne hw hk) ..
  constructor
  · exact h.valid
  · intro o ho
    exact update_true_of_true (h.pending o ho)
  · intro w' hw' hlive hset
    rcases List.mem_cons.mp hw' with rfl | hw'
    · exact Function.update_self ..
    · exact update_true_of_true (h.worker w' (List.mem_cons_of_mem w hw') hlive hset)
  · intro p
    exact (h.session p).imp_right update_true_of_true
  · intro k hk
    exact (hknown k hk).congr rfl rfl rfl
  · intro k hk hshut
    by_cases heq : k = w.socket
    · subst heq
      simp [hopen, hw.connection] at hshut
    · have hk' : n.known k = true := by simpa [heq] using hk
      simp only [hother heq (hknown k hk)] at hshut
      simpa [heq] using h.marked k hk' hshut
  · intro k
    have hcount := h.closing k
    rw [List.countP_cons_of_neg (by simp [Worker.closes, hstage, Stage.closing])] at hcount
    rw [List.countP_cons_of_neg (by simp [Worker.closes, Stage.closing]), hcount]
    by_cases heq : k = w.socket
    · subst heq
      simp [Closing, hw.connection, hnot]
    · refine if_congr (and_congr_right fun hk => ?_) rfl rfl
      simp only [hother heq (ht.isOpen k hk), Function.update_of_ne heq]
  · intro k
    rw [List.countP_cons_of_neg (by simp [Worker.setsUp, Stage.settingUp])]
    by_cases heq : k = w.socket
    · subst heq
      rw [hrest]
      simp [SettingUp, hw.connection]
    · have hcount := h.settingUp k
      rw [List.countP_cons_of_neg (by simp [Worker.setsUp, Ne.symm heq])] at hcount
      rw [hcount]
      refine if_congr (and_congr_right fun hk => ?_) rfl rfl
      simp only [hother heq (ht.isOpen k hk)]
  · exact h.closes
  · intro m hm
    have hne : m ≠ w.connection := (Nat.ne_of_lt (Nat.lt_of_lt_of_le hw.lt hm)).symm
    simpa [hne] using h.fresh m hm
  · intro m hm
    obtain ⟨hset, hmarked⟩ := h.ended m hm
    have hne : m ≠ w.connection := by
      rintro rfl
      rw [hnot] at hset
      cases hset
    refine ⟨by simpa [hne] using hset, ?_⟩
    intro hheld
    have hsocket : n.socketOf m ≠ w.socket := by
      intro heq
      exact hne (hheld.2.symm.trans ((congrArg n.connection heq).trans hw.connection))
    simpa [hsocket] using hmarked hheld

/-- `HandleDisconnectWithoutLock` closes a handle that is open, if it is not in the set. -/
theorem Accounted.handleDisconnectWithoutLock (h : Accounted n calls) (ht : Tagged n calls)
    (hk : k = invalidSocket ∨ n.known k = true) :
    Accounted (n.handleDisconnectWithoutLock conn k) calls := by
  by_cases hmarked : n.disconnectedSockets k = true
  · rw [Handles.handleDisconnectWithoutLock, if_pos hmarked]
    exact h
  have hunmarked : n.disconnectedSockets k = false := by simpa using hmarked
  rcases hk with rfl | hknown
  · have hclosed : n.isOpen invalidSocket = false := by
      by_contra hopen
      have hcurrent := ht.isOpen invalidSocket (by simpa using hopen)
      exact h.valid _ hcurrent.lt hcurrent.socketOf
    have hlast : (({ n with
        disconnectedSockets := Function.update n.disconnectedSockets invalidSocket true } :
          Handles).eraseBuffer conn invalidSocket).lastOn invalidSocket = none :=
      if_neg fun hlast => h.valid _ hlast.1 hlast.2
    rw [Handles.handleDisconnectWithoutLock, if_neg hmarked]
    refine (h.insert_closed hclosed).quiet ⟨rfl, rfl, ?_, rfl, fun _ => .inl rfl, rfl, rfl, rfl, ?_, rfl,
      fun _ => .inl⟩
    · change Function.update n.isOpen invalidSocket false = n.isOpen
      rw [← hclosed, Function.update_eq_self]
    · simp only [Handles.closesocket, hlast, Option.elim_none]
      rfl
  · obtain ⟨hopen, hset⟩ := h.open_of_unmarked hknown hunmarked
    have hcurrent := h.known k hknown
    refine h.shut (shut_handleDisconnectWithoutLock hcurrent hunmarked) hopen hcurrent h.worker ?_ ?_
    · intro k'
      split
      next heq =>
        rw [heq, h.closing, if_neg (by simp [Closing, hunmarked])]
      next => rfl
    · intro k'
      split
      next heq =>
        rw [heq, h.settingUp, if_neg (by simp [SettingUp, hset])]
      next => rfl

/-- The socket of the session that `updateNewId` ends is that of some session. -/
theorem exists_of_oldSocket {c : Connections} {s : SessionPtr} (h : c.oldSocket s = some k) :
    ∃ p, (c.sessionManager.pool p).socket = k := by
  rw [Connections.oldSocket] at h
  split at h
  · cases h
  · dsimp only at h
    split at h
    · cases h
      exact ⟨_, rfl⟩
    · cases h

theorem sessionManager_handleDisconnectWithoutLock (n : Handles) (conn : ℕ) (k : Socket) :
    (n.handleDisconnectWithoutLock conn k).sessionManager = n.sessionManager := by
  rw [Handles.handleDisconnectWithoutLock]
  split <;> rfl

theorem Accounted.post (h : Accounted n (w :: rest)) {e : Choice} {isSend : Bool} {stage : Stage}
    (hlive : w.stage ≠ .done) (hsetting : w.stage.settingUp = false)
    (hclosing : w.stage.closing = false) (hpost : n.post e w.socket isSend = (n', stage)) :
    Accounted n' ({ w with stage } :: rest) := by
  have hknown := h.worker w List.mem_cons_self hlive hsetting
  rw [Handles.post] at hpost
  split at hpost
  · cases hpost
    exact h.restage rfl hlive hsetting.symm hclosing.symm
  · cases hpost
    refine Accounted.restage (h.quiet (.operations ?_)) rfl hlive hsetting.symm hclosing.symm
    intro o ho
    rcases List.mem_append.mp ho with ho | ho
    · exact .inl ho
    · rw [List.mem_singleton.mp ho]
      exact .inr hknown

theorem Accounted.handle (h : Accounted n (w :: rest)) (ht : Tagged n (w :: rest)) {e : Choice}
    {point : Handling} {stage : Stage} (hstage : w.stage = .handle point)
    (hexec : n.handle e w.connection w.socket point = some (n', stage)) :
    Accounted n' ({ w with stage } :: rest) := by
  have hlive : w.stage ≠ .done := by simp [hstage]
  have hsetting : w.stage.settingUp = false := by rw [hstage]; rfl
  have hclosing : w.stage.closing = false := by rw [hstage]; rfl
  have hknown := h.worker w List.mem_cons_self hlive hsetting
  by_cases hfinish : point = .finish
  · subst hfinish
    exact h.post hlive hsetting hclosing (Option.some.inj hexec)
  by_cases hupdate : ∃ s id packets, point = .update s id packets
  · obtain ⟨s, id, packets, rfl⟩ := hupdate
    obtain ⟨m, hm, heq⟩ := Option.map_eq_some_iff.mp hexec
    cases heq
    have hkeeps := SessionManager.keepsSockets_updateNewId hm
    cases hold : n.oldSocket s with
    | none =>
      exact Accounted.restage (h.quiet (.sessions hkeeps)) rfl hlive hsetting.symm hclosing.symm
    | some k =>
      obtain ⟨p, rfl⟩ := exists_of_oldSocket hold
      have hsessions := sessionManager_handleDisconnectWithoutLock n w.connection
        (n.sessionManager.pool p).socket
      rw [← hsessions] at hkeeps
      have hdone : Accounted (n.handleDisconnectWithoutLock w.connection
          (n.sessionManager.pool p).socket) (w :: rest) :=
        h.handleDisconnectWithoutLock ht (h.session p)
      exact Accounted.restage (hdone.quiet (.sessions hkeeps)) rfl hlive hsetting.symm hclosing.symm
  · obtain ⟨r, hr, rfl, rfl⟩ := handle_eq hfinish hupdate hexec
    obtain ⟨hstep, hclosing', hsetting'⟩ :=
      sessionStep_handle hfinish (fun s id packets heq => hupdate ⟨s, id, packets, heq⟩) hr
    have hquiet : Quiet n { n with
        toConnections := r.1
        owner := (n.borrowed w.socket point).elim n.owner fun s =>
          Function.update n.owner s (some w.connection) } := by
      refine ⟨hstep.accepted, hstep.connection, hstep.isOpen, hstep.disconnectedSockets, ?_, rfl, rfl, rfl,
        rfl, rfl, fun _ => .inl⟩
      intro p
      refine (hstep.sockets p).imp_right (Or.imp_right ?_)
      intro hp
      exact (congrArg n.known hp).trans hknown
    exact (h.quiet hquiet).restage rfl hlive (hsetting'.trans hsetting.symm)
      (hclosing'.trans hclosing.symm)

/-! ## Runs -/

theorem Accounted.exec {w' : Worker} {e : Choice} (h : Accounted n (w :: rest))
    (ht : Tagged n (w :: rest)) (hexec : n.exec e w = some (n', w')) : Accounted n' (w' :: rest) := by
  obtain ⟨stage', hstep, rfl, hlive⟩ := exists_of_exec hexec
  have hw := ht.worker w List.mem_cons_self hlive
  cases hstage : w.stage with
  | associate =>
    rw [hstage, execStage] at hstep
    split at hstep
    · cases hstep
      exact h.close_of_settingUp hw hstage
    · cases hstep
      exact h.restage hstage (by simp) rfl rfl
  | clear =>
    rw [hstage] at hstep
    cases hstep
    exact h.clear ht hstage
  | makeBuffer =>
    rw [hstage] at hstep
    cases hstep
    exact Accounted.restage (h.quiet (.buffers _)) hstage (by simp) rfl rfl
  | post | resend =>
    rw [hstage] at hstep
    exact h.post hlive (by rw [hstage]; rfl) (by rw [hstage]; rfl) (Option.some.inj hstep)
  | handle point =>
    rw [hstage] at hstep
    exact h.handle ht hstage hstep
  | mark =>
    rw [hstage] at hstep
    exact h.mark hw hstage hstep
  | find =>
    rw [hstage] at hstep
    cases hstep
    apply h.restage hstage (by simp)
    · split <;> rfl
    · split <;> rfl
  | remove userId =>
    rw [hstage] at hstep
    obtain ⟨m, hm, heq⟩ := Option.map_eq_some_iff.mp hstep
    cases heq
    have hkeeps := SessionManager.keepsSockets_removeSession hm
    have hrecorded := h.quiet (.record w.connection .session
      ((n.sessionManager.findSession userId).bind n.owner))
    exact Accounted.restage (hrecorded.quiet (.sessions hkeeps)) hstage (by simp) rfl rfl
  | erase =>
    rw [hstage] at hstep
    cases hstep
    have hrecorded := h.quiet (.record w.connection .buffer (n.socketBuffers w.socket))
    exact Accounted.restage (hrecorded.quiet (.buffers _)) hstage (by simp) rfl rfl
  | close =>
    rw [hstage] at hstep
    cases hstep
    exact h.close_of_closing hw hstage
  | done => exact absurd hstage hlive

end Accounted

section Accept

variable {s : Server} {socket k : Socket}

theorem isOpen_accept (hk : k ≠ socket) : (s.accept socket).shared.isOpen k = s.shared.isOpen k :=
  Function.update_of_ne hk ..

theorem isOpen_accept_self : (s.accept socket).shared.isOpen socket = true :=
  Function.update_self ..

/-- The new connection has the handle, and the older ones have what they had. -/
theorem holds_accept_self : (s.accept socket).shared.Holds s.shared.accepted := by
  rw [Holds, current_accept_self.socketOf]
  exact ⟨isOpen_accept_self, current_accept_self.connection⟩

theorem holds_accept (hclosed : s.shared.isOpen socket = false) {m : ℕ} (hm : m < s.shared.accepted) :
    (s.accept socket).shared.Holds m ↔ s.shared.Holds m := by
  rw [Holds, Holds, socketOf_accept hm]
  by_cases hk : s.shared.socketOf m = socket
  · rw [hk, current_accept_self.connection, hclosed]
    constructor
    · rintro ⟨-, heq⟩
      exact absurd heq.symm (Nat.ne_of_lt hm)
    · rintro ⟨hfalse, -⟩
      cases hfalse
  · rw [isOpen_accept hk, connection_accept hk]

theorem closing_accept (hk : k ≠ socket) :
    (s.accept socket).shared.Closing k ↔ s.shared.Closing k := by
  rw [Closing, Closing, isOpen_accept hk, connection_accept hk]
  rfl

theorem not_closing_accept_self (hset : s.shared.setUp s.shared.accepted = false) :
    ¬ (s.accept socket).shared.Closing socket := by
  rintro ⟨-, hset', -⟩
  rw [current_accept_self.connection] at hset'
  exact absurd (hset.symm.trans hset') (by simp)

theorem settingUp_accept (hk : k ≠ socket) :
    (s.accept socket).shared.SettingUp k ↔ s.shared.SettingUp k := by
  rw [SettingUp, SettingUp, isOpen_accept hk, connection_accept hk]
  rfl

theorem settingUp_accept_self (hset : s.shared.setUp s.shared.accepted = false) :
    (s.accept socket).shared.SettingUp socket := by
  rw [SettingUp, current_accept_self.connection]
  exact ⟨isOpen_accept_self, hset⟩

theorem Accounted.accept (h : Accounted s.shared s.calls) (hclosed : s.shared.isOpen socket = false)
    (hvalid : socket ≠ invalidSocket) : Accounted (s.accept socket).shared (s.accept socket).calls := by
  have hfresh := h.fresh s.shared.accepted (Nat.le_refl _)
  have hcalls : (s.accept socket).calls = s.calls ++ [⟨s.shared.accepted, socket, .associate⟩] := rfl
  constructor
  · intro m hm
    rcases Nat.lt_succ_iff_lt_or_eq.mp hm with hm | rfl
    · rw [socketOf_accept hm]
      exact h.valid m hm
    · rw [current_accept_self.socketOf]
      exact hvalid
  · exact h.pending
  · intro w hw hlive hset
    rcases List.mem_append.mp hw with hw | hw
    · exact h.worker w hw hlive hset
    · rw [List.mem_singleton.mp hw] at hset
      cases hset
  · exact h.session
  · intro k hk
    by_cases heq : k = socket
    · rw [heq, current_accept_self.connection]
      exact current_accept_self
    · rw [connection_accept heq]
      exact current_accept heq (h.known k hk)
  · intro k hk hshut
    by_cases heq : k = socket
    · rw [heq] at hk ⊢
      exact h.marked socket hk (.inl hclosed)
    · rw [isOpen_accept heq, connection_accept heq] at hshut
      exact h.marked k hk hshut
  · intro k
    rw [hcalls, List.countP_append, h.closing k]
    by_cases heq : k = socket
    · subst heq
      rw [if_neg (not_closing_accept_self hfresh.2), if_neg (by simp [Closing, hclosed])]
      simp [Worker.closes, Stage.closing]
    · simp [Worker.closes, Stage.closing, closing_accept heq]
  · intro k
    rw [hcalls, List.countP_append, h.settingUp k]
    by_cases heq : k = socket
    · subst heq
      rw [if_pos (settingUp_accept_self hfresh.2), if_neg (by simp [SettingUp, hclosed])]
      simp [Worker.setsUp, Stage.settingUp]
    · simp [Worker.setsUp, Ne.symm heq, settingUp_accept heq]
  · intro m hm
    rcases Nat.lt_succ_iff_lt_or_eq.mp hm with hm | rfl
    · simp only [holds_accept hclosed hm]
      exact h.closes m hm
    · rw [if_pos holds_accept_self]
      exact hfresh.1
  · intro m hm
    exact h.fresh m (Nat.le_of_succ_le hm)
  · intro m hm
    obtain ⟨hset, hmarked⟩ := h.ended m hm
    have hlt : m < s.shared.accepted := by
      by_contra hle
      exact absurd ((h.fresh m (Nat.le_of_not_lt hle)).2.symm.trans hset) (by simp)
    refine ⟨hset, ?_⟩
    intro hheld
    rw [socketOf_accept hlt]
    exact hmarked ((holds_accept hclosed hlt).mp hheld)

end Accept

/-- A thread that is told of a completion neither sets up nor closes anything yet. -/
theorem Server.Outcome.stage_kind {isOpen isSend : Bool} {stage : Stage} (outcome : Server.Outcome)
    (h : outcome.stage isOpen isSend = some stage) :
    stage.settingUp = false ∧ stage.closing = false := by
  cases outcome with
  | failure =>
    cases h
    exact ⟨rfl, rfl⟩
  | success packets =>
    simp only [Server.Outcome.stage] at h
    split at h
    · cases h
      exact ⟨rfl, rfl⟩
    · split at h
      · cases h
        exact ⟨rfl, rfl⟩
      · split at h
        · cases h
          exact ⟨rfl, rfl⟩
        · cases h
  | unfinished =>
    simp only [Server.Outcome.stage] at h
    split at h
    · cases h
      exact ⟨rfl, rfl⟩
    · cases h

theorem Accounted.step {s s' : Server} {a : Server.Action} (h : Accounted s.shared s.calls)
    (ht : Tagged s.shared s.calls) (hstep : s.step a = some s') : Accounted s'.shared s'.calls := by
  cases a with
  | accept socket =>
    rw [Server.step] at hstep
    split at hstep
    · cases hstep
    next hnot =>
      cases hstep
      rw [not_or] at hnot
      exact h.accept (by simpa using hnot.1) hnot.2
  | send socket =>
    rw [Server.step] at hstep
    split at hstep
    next hopen =>
      cases hstep
      refine h.quiet (.operations ?_)
      intro o ho
      rcases List.mem_append.mp ho with ho | ho
      · exact .inl ho
      · rw [List.mem_singleton.mp ho]
        exact .inr hopen.2
    next => cases hstep
  | complete i outcome =>
    obtain ⟨o, ho, hmap⟩ := Option.bind_eq_some_iff.mp hstep
    obtain ⟨stage, hstage, rfl⟩ := Option.map_eq_some_iff.mp hmap
    have hquiet : Quiet s.shared { s.shared with pending := s.shared.pending.eraseIdx i } :=
      .operations fun _ ho => .inl (List.mem_of_mem_eraseIdx ho)
    obtain ⟨hsetting, hclosing⟩ := outcome.stage_kind hstage
    exact (h.quiet hquiet).spawn (w := ⟨o.connection, o.socket, stage⟩) hsetting hclosing
      (h.pending o (List.mem_of_getElem? ho))
  | run i e =>
    obtain ⟨w, w', -, hperm, hperm', hexec⟩ := Config.run_spec hstep
    exact ((h.perm hperm).exec (ht.perm hperm) hexec).perm hperm'.symm

end Handles

end IocpChat

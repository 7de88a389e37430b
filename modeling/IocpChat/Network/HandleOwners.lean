import IocpChat.Network.Handles

/-!
# Whose handles the threads work on

If the system gives a handle away again only when all operations of the last connection on it have
completed, and the threads that were told of them are done (`Server.Careful`), then all threads
work for the last connection on their handle.  What they take from a connection on the same
handle is therefore their own connection's.

What a step does with the connections is said once for all stages of the threads (`Effect`).

## Main definitions

* `Handles.Undisturbed` — no connection loses anything to an earlier one on the same handle.
* `Handles.Server.Careful` — a handle is free of operations and threads when it is given away.
* `Handles.Effect` — what a step of a thread can do with the connections.
* `Handles.Tagged` — everybody works for the last connection on their handle.
-/

namespace IocpChat

open Transition

/-! ## The sockets of the sessions -/

namespace SessionManager

variable {m m' : SessionManager} {id : UserId} {s : SessionPtr}

/-- The sessions stay on their sockets, or go back to the pool. -/
def KeepsSockets (m m' : SessionManager) : Prop :=
  ∀ p, (m'.pool p).socket = (m.pool p).socket ∨ (m'.pool p).socket = invalidSocket

theorem KeepsSockets.of_pool (h : m'.pool = m.pool) : m.KeepsSockets m' := by
  intro p
  rw [h]
  exact .inl rfl

theorem KeepsSockets.trans {m'' : SessionManager} (h : m.KeepsSockets m') (h' : m'.KeepsSockets m'') :
    m.KeepsSockets m'' := by
  intro p
  rcases h' p with heq | hinvalid
  · rw [heq]
    exact h p
  · exact .inr hinvalid

theorem KeepsSockets.write {session : Session} (hpool : m'.pool = Function.update m.pool s session)
    (h : session.socket = (m.pool s).socket ∨ session.socket = invalidSocket) :
    m.KeepsSockets m' := by
  intro p
  rw [hpool]
  by_cases hp : p = s
  · subst hp
    rw [Function.update_self]
    exact h
  · rw [Function.update_of_ne hp]
    exact .inl rfl

theorem keepsSockets_removeSession (h : m.removeSession id = some m') : m.KeepsSockets m' := by
  rw [removeSession] at h
  split at h
  · cases h
    exact .of_pool rfl
  · cases h
  · cases h
    exact .write rfl (.inr rfl)

theorem keepsSockets_updateNewId (h : m.updateNewId id s = some m') : m.KeepsSockets m' := by
  obtain ⟨m₁, htake, rfl⟩ := Option.map_eq_some_iff.mp h
  have hwrite : m₁.KeepsSockets
      { (m₁.eraseSession id).addSession (m₁.pool s).userId s with
        pool := Function.update m₁.pool s { m₁.pool s with updated := true } } :=
    .write rfl (.inl rfl)
  refine KeepsSockets.trans ?_ hwrite
  rw [takeOver] at htake
  split at htake
  · cases htake
    exact .of_pool rfl
  · cases htake
  · split at htake
    · cases htake
      exact .write rfl (.inr rfl)
    · cases htake
      exact .of_pool rfl

theorem pool_findBySocket (m : SessionManager) (k : Socket) : (m.findBySocket k).1.pool = m.pool := by
  rw [findBySocket]
  split
  · rfl
  · split <;> rfl

theorem socket_borrowSession {k : Socket} (h : m.borrowSession k = some (m', s)) (id : UserId)
    (p : SessionPtr) :
    ((m'.modifySession s fun session => { session with userId := id }).pool p).socket =
      if p = s then k else (m.pool p).socket := by
  rw [borrowSession] at h
  split at h
  · cases h
  · cases h
    by_cases hp : p = s
    · subst hp
      simp [modifySession]
    · simp [modifySession, hp]

end SessionManager

/-! ## The steps of a batch -/

namespace Handles

/-- The thread is setting up its connection. -/
def Stage.settingUp : Stage → Bool
  | .associate | .clear => true
  | _ => false

/-- The thread is going to close its handle. -/
def Stage.closing : Stage → Bool
  | .find | .remove _ | .erase | .close => true
  | _ => false

/-- A step that works with sessions, for a handle. -/
structure SessionStep (c c' : Connections) (socket : Socket) : Prop where
  accepted : c'.accepted = c.accepted
  connection : c'.connection = c.connection
  isOpen : c'.isOpen = c.isOpen
  disconnectedSockets : c'.disconnectedSockets = c.disconnectedSockets
  sockets : ∀ p, (c'.sessionManager.pool p).socket = (c.sessionManager.pool p).socket ∨
    (c'.sessionManager.pool p).socket = invalidSocket ∨ (c'.sessionManager.pool p).socket = socket

theorem SessionStep.of_keepsSockets {c : Connections} {m : SessionManager} {socket : Socket}
    (h : c.sessionManager.KeepsSockets m) : SessionStep c { c with sessionManager := m } socket := by
  refine ⟨rfl, rfl, rfl, rfl, ?_⟩
  intro p
  exact (h p).imp_right .inl

/-- The steps of a batch, but for the end of it and `updateNewId`. -/
theorem sessionStep_handle {c c' : Connections} {e : Choice} {conn : ℕ} {socket : Socket}
    {point : Handling} {t : Thread} (hfinish : point ≠ .finish)
    (hupdate : ∀ s id packets, point ≠ .update s id packets)
    (h : c.handle e conn socket point = some (c', t)) :
    SessionStep c c' socket ∧ (Stage.ofThread t).closing = false ∧
      (Stage.ofThread t).settingUp = false := by
  cases point with
  | lookup packets =>
    cases h
    refine ⟨SessionStep.of_keepsSockets (.of_pool (SessionManager.pool_findBySocket ..)), ?_⟩
    cases (c.sessionManager.findBySocket socket).2 <;> exact ⟨rfl, rfl⟩
  | borrow packets =>
    rw [Connections.handle] at h
    split at h
    · cases h
      exact ⟨SessionStep.of_keepsSockets (.of_pool rfl), rfl, rfl⟩
    · next m s hborrow =>
      cases h
      refine ⟨⟨rfl, rfl, rfl, rfl, ?_⟩, rfl, rfl⟩
      intro p
      rw [SessionManager.socket_borrowSession hborrow]
      split
      · exact .inr (.inr rfl)
      · exact .inl rfl
  | register s packets =>
    cases h
    exact ⟨SessionStep.of_keepsSockets (.of_pool rfl), rfl, rfl⟩
  | dispatch s packets =>
    cases packets with
    | nil | cons =>
      cases h
      exact ⟨SessionStep.of_keepsSockets (.of_pool rfl), rfl, rfl⟩
  | authenticate s type id packets =>
    have hwrite : c.sessionManager.KeepsSockets (c.sessionManager.modifySession s e.outcome.write) :=
      .write rfl (.inl (socket_write ..))
    simp only [Connections.handle] at h
    split at h
    · split at h
      · cases h
        exact ⟨⟨rfl, rfl, rfl, rfl, fun p => (hwrite p).imp_right .inl⟩, rfl, rfl⟩
      · cases h
        exact ⟨SessionStep.of_keepsSockets hwrite, rfl, rfl⟩
    · cases h
  | granted s id packets =>
    rw [Connections.handle] at h
    split at h
    · cases h
      exact ⟨⟨rfl, rfl, rfl, rfl, fun p => .inl rfl⟩, rfl, rfl⟩
    · cases h
      exact ⟨SessionStep.of_keepsSockets (.of_pool rfl), rfl, rfl⟩
  | update s id packets => exact absurd rfl (hupdate s id packets)
  | logout s packets =>
    obtain ⟨m, hm, heq⟩ := Option.map_eq_some_iff.mp h
    cases heq
    exact ⟨SessionStep.of_keepsSockets (SessionManager.keepsSockets_removeSession hm), rfl, rfl⟩
  | finish => exact absurd rfl hfinish

/-- A step of a batch is one of `Connections`, but for the end of it and `updateNewId`. -/
theorem handle_eq {n n' : Handles} {e : Choice} {conn : ℕ} {socket : Socket} {point : Handling}
    {stage : Stage} (hfinish : point ≠ .finish)
    (hupdate : ¬ ∃ s id packets, point = .update s id packets)
    (h : n.handle e conn socket point = some (n', stage)) :
    ∃ r, n.toConnections.handle e conn socket point = some r ∧
      n' = { n with
        toConnections := r.1
        owner := (n.borrowed socket point).elim n.owner fun s =>
          Function.update n.owner s (some conn) } ∧
      stage = .ofThread r.2 := by
  rw [handle.eq_3] at h
  · obtain ⟨r, hr, heq⟩ := Option.map_eq_some_iff.mp h
    cases heq
    exact ⟨r, hr, rfl, rfl⟩
  · exact hfinish
  · exact fun s id packets heq => hupdate ⟨s, id, packets, heq⟩

/-! ## What is wanted -/

/-- No connection loses anything to a thread of an earlier one on the same handle. -/
def Undisturbed (n : Handles) : Prop :=
  ∀ t ∈ n.teardowns, n.socketOf t.victim = n.socketOf t.cause → t.victim ≤ t.cause

/-- A handle is given to a new connection only when no operation and no thread of an earlier one is
left. -/
def Server.Careful (s : Server) : Server.Action → Prop
  | .accept socket =>
    (∀ o ∈ s.shared.pending, o.socket ≠ socket) ∧
      ∀ w ∈ s.calls, w.stage = .done ∨ w.socket ≠ socket
  | _ => True

instance (s : Server) : (a : Server.Action) → Decidable (s.Careful a)
  | .accept _ => inferInstanceAs (Decidable (_ ∧ _))
  | .send _ | .complete .. | .run .. => .isTrue trivial

/-! ## Who works for whom -/

/-- The connection is the last one on the handle. -/
structure Current (n : Handles) (conn : ℕ) (socket : Socket) : Prop where
  lt : conn < n.accepted
  socketOf : n.socketOf conn = socket
  connection : n.connection socket = conn

/-- The connection appears in the state. -/
def Mentions (n : Handles) (m : ℕ) : Prop :=
  (∃ p, n.owner p = some m) ∨ (∃ k, n.socketBuffers k = some m) ∨ ∃ k, n.lastOn k = some m

/-- What a step of a thread can do with the connections. -/
structure Effect (n n' : Handles) (conn : ℕ) (socket : Socket) : Prop where
  accepted : n'.accepted = n.accepted
  connection : n'.connection = n.connection
  socketOf : n'.socketOf = n.socketOf
  isOpen : ∀ k, n'.isOpen k = true → n.isOpen k = true
  mentions : ∀ m, n'.Mentions m → n.Mentions m ∨ m = conn
  pending : ∀ o ∈ n'.pending, o ∈ n.pending ∨ o.socket = socket ∧ o.connection = n.connection socket
  teardowns : ∀ t ∈ n'.teardowns, t ∈ n.teardowns ∨ t.cause = conn ∧ (n.Mentions t.victim ∨ t.victim = conn)

/-- All operations and threads are those of the last connection on their handle. -/
structure Tagged (n : Handles) (calls : List Worker) : Prop where
  last : ∀ m < n.accepted, m ≤ n.connection (n.socketOf m)
  isOpen : ∀ k, n.isOpen k = true → n.Current (n.connection k) k
  mentions : ∀ m, n.Mentions m → m < n.accepted
  pending : ∀ o ∈ n.pending, n.Current o.connection o.socket
  worker : ∀ w ∈ calls, w.stage ≠ .done → n.Current w.connection w.socket
  teardowns : ∀ t ∈ n.teardowns, t.cause < n.accepted ∧ t.victim < n.accepted
  undisturbed : n.Undisturbed

section Effect

variable {n n' n'' : Handles} {conn : ℕ} {socket : Socket} {e : Choice} {calls : List Worker}

theorem Effect.refl : Effect n n conn socket :=
  ⟨rfl, rfl, rfl, fun _ h => h, fun _ => .inl, fun _ => .inl, fun _ => .inl⟩

theorem Effect.trans (h : Effect n n' conn socket) (h' : Effect n' n'' conn socket) :
    Effect n n'' conn socket := by
  constructor
  · rw [h'.accepted, h.accepted]
  · rw [h'.connection, h.connection]
  · rw [h'.socketOf, h.socketOf]
  · intro k hk
    exact h.isOpen k (h'.isOpen k hk)
  · intro m hm
    exact (h'.mentions m hm).elim (h.mentions m) .inr
  · intro o ho
    rcases h'.pending o ho with ho | ⟨hsocket, hconn⟩
    · exact h.pending o ho
    · exact .inr ⟨hsocket, hconn.trans (congrFun h.connection socket)⟩
  · intro t ht
    rcases h'.teardowns t ht with ht | ⟨hcause, hvictim⟩
    · exact h.teardowns t ht
    · exact .inr ⟨hcause, hvictim.elim (h.mentions _) .inr⟩

theorem Effect.record {part : Part} {victim : Option ℕ} (h : ∀ m, victim = some m → n.Mentions m) :
    Effect n (n.record conn part victim) conn socket := by
  refine ⟨rfl, rfl, rfl, fun _ h => h, fun _ => .inl, fun _ => .inl, ?_⟩
  intro t ht
  rcases List.mem_append.mp ht with ht | ht
  · exact .inl ht
  · obtain ⟨m, hm, rfl⟩ := List.mem_map.mp ht
    exact .inr ⟨rfl, .inl (h m (Option.mem_toList.mp hm))⟩

theorem Effect.buffer (k : Socket) {m : Option ℕ} (hm : m = none ∨ m = some conn) :
    Effect n { n with socketBuffers := Function.update n.socketBuffers k m } conn socket := by
  refine ⟨rfl, rfl, rfl, fun _ h => h, ?_, fun _ => .inl, fun _ => .inl⟩
  rintro m' (howner | ⟨k', hk'⟩ | hlast)
  · exact .inl (.inl howner)
  · by_cases hk : k' = k
    · subst hk
      simp only [Function.update_self] at hk'
      rcases hm with rfl | rfl
      · cases hk'
      · cases hk'
        exact .inr rfl
    · simp only [Function.update_of_ne hk] at hk'
      exact .inl (.inr (.inl ⟨k', hk'⟩))
  · exact .inl (.inr (.inr hlast))

theorem Effect.eraseBuffer (k : Socket) : Effect n (n.eraseBuffer conn k) conn socket := by
  have hrecord : Effect n (n.record conn .buffer (n.socketBuffers k)) conn socket :=
    .record fun m hm => .inr (.inl ⟨k, hm⟩)
  exact hrecord.trans (.buffer k (.inl rfl))

theorem Effect.closesocket (k : Socket) : Effect n (n.closesocket conn k) conn socket := by
  have hrecord : Effect n (n.record conn .socket (if n.isOpen k then n.lastOn k else none)) conn
      socket := by
    apply Effect.record
    intro m hm
    split at hm
    · exact .inr (.inr ⟨k, hm⟩)
    · cases hm
  refine ⟨rfl, rfl, rfl, ?_, hrecord.mentions, hrecord.pending, hrecord.teardowns⟩
  intro k' hk'
  by_cases hk : k' = k
  · subst hk
    simp [Handles.closesocket] at hk'
  · simpa [Handles.closesocket, hk] using hk'

theorem Effect.handleDisconnectWithoutLock (k : Socket) :
    Effect n (n.handleDisconnectWithoutLock conn k) conn socket := by
  rw [Handles.handleDisconnectWithoutLock]
  split
  · exact .refl
  · have hmark : Effect n
        { n with disconnectedSockets := Function.update n.disconnectedSockets k true } conn socket :=
      ⟨rfl, rfl, rfl, fun _ h => h, fun _ => .inl, fun _ => .inl, fun _ => .inl⟩
    exact (hmark.trans (.eraseBuffer k)).trans (.closesocket k)

theorem Effect.sessions (h : Effect n n' conn socket) (m : SessionManager) :
    Effect n { n' with sessionManager := m } conn socket :=
  ⟨h.accepted, h.connection, h.socketOf, h.isOpen, h.mentions, h.pending, h.teardowns⟩

theorem Effect.post {isSend : Bool} {stage : Stage} (h : n.post e socket isSend = (n', stage)) :
    Effect n n' conn socket := by
  rw [Handles.post] at h
  split at h
  · cases h
    exact .refl
  · cases h
    refine ⟨rfl, rfl, rfl, fun _ h => h, fun _ => .inl, ?_, fun _ => .inl⟩
    intro o ho
    rcases List.mem_append.mp ho with ho | ho
    · exact .inl ho
    · rw [List.mem_singleton.mp ho]
      exact .inr ⟨rfl, rfl⟩

theorem Effect.lend {c : Connections} (hstep : SessionStep n.toConnections c socket)
    (s : Option SessionPtr) :
    Effect n
      { n with
        toConnections := c
        owner := s.elim n.owner fun s => Function.update n.owner s (some conn) } conn socket := by
  refine ⟨hstep.accepted, hstep.connection, rfl, fun k hk => hstep.isOpen ▸ hk, ?_, fun _ => .inl,
    fun _ => .inl⟩
  rintro m (⟨p, hp⟩ | hbuffer | ⟨k, hk⟩)
  · cases s with
    | none => exact .inl (.inl ⟨p, hp⟩)
    | some s =>
      by_cases hs : p = s
      · subst hs
        simp [Option.elim_some] at hp
        exact .inr hp.symm
      · simp only [Option.elim_some, Function.update_of_ne hs] at hp
        exact .inl (.inl ⟨p, hp⟩)
  · exact .inl (.inr (.inl hbuffer))
  · refine .inl (.inr (.inr ⟨k, ?_⟩))
    simpa only [lastOn, hstep.accepted, hstep.connection] using hk

theorem effect_handle {point : Handling} {stage : Stage}
    (h : n.handle e conn socket point = some (n', stage)) : Effect n n' conn socket := by
  by_cases hfinish : point = .finish
  · subst hfinish
    exact .post (Option.some.inj h)
  by_cases hupdate : ∃ s id packets, point = .update s id packets
  · obtain ⟨s, id, packets, rfl⟩ := hupdate
    obtain ⟨m, -, heq⟩ := Option.map_eq_some_iff.mp h
    cases heq
    apply Effect.sessions
    cases n.oldSocket s with
    | none => exact .refl
    | some k => exact .handleDisconnectWithoutLock k
  · obtain ⟨r, hr, rfl, -⟩ := handle_eq hfinish hupdate h
    exact .lend (sessionStep_handle hfinish (fun s id packets heq => hupdate ⟨s, id, packets, heq⟩) hr).1 _

theorem effect_execStage {stage stage' : Stage}
    (h : n.execStage e conn socket stage = some (n', stage')) : Effect n n' conn socket := by
  cases stage with
  | associate =>
    rw [execStage] at h
    split at h
    · cases h
      exact .closesocket socket
    · cases h
      exact .refl
  | clear =>
    cases h
    exact ⟨rfl, rfl, rfl, fun _ h => h, fun _ => .inl, fun _ => .inl, fun _ => .inl⟩
  | makeBuffer =>
    cases h
    exact .buffer socket (.inr rfl)
  | handle point => exact effect_handle h
  | mark =>
    simp only [execStage] at h
    split at h <;> split at h <;> cases h <;>
      exact ⟨rfl, rfl, rfl, fun _ h => h, fun _ => .inl, fun _ => .inl, fun _ => .inl⟩
  | find =>
    cases h
    exact .refl
  | remove userId =>
    obtain ⟨m, -, heq⟩ := Option.map_eq_some_iff.mp h
    cases heq
    refine Effect.sessions (.record ?_) m
    intro victim hvictim
    obtain ⟨p, -, hp⟩ := Option.bind_eq_some_iff.mp hvictim
    exact .inl ⟨p, hp⟩
  | erase =>
    cases h
    exact .eraseBuffer socket
  | close =>
    cases h
    exact .closesocket socket
  | done => cases h
  | _ =>
    exact .post (Option.some.inj h)

end Effect

section Tagged

variable {n n' : Handles} {w w' : Worker} {e : Choice} {calls rest : List Worker}

theorem Current.congr {m : ℕ} {k : Socket} (h : n.Current m k) (haccepted : n'.accepted = n.accepted)
    (hsocketOf : n'.socketOf = n.socketOf) (hconnection : n'.connection = n.connection) :
    n'.Current m k :=
  ⟨haccepted ▸ h.lt, hsocketOf ▸ h.socketOf, hconnection ▸ h.connection⟩

theorem Effect.current {conn m : ℕ} {socket k : Socket} (h : Effect n n' conn socket)
    (hm : n.Current m k) : n'.Current m k :=
  hm.congr h.accepted h.socketOf h.connection

/-- A thread that takes a step is not done, and keeps its connection and its handle. -/
theorem exists_of_exec (h : n.exec e w = some (n', w')) :
    ∃ stage, n.execStage e w.connection w.socket w.stage = some (n', stage) ∧
      w' = { w with stage } ∧ w.stage ≠ .done := by
  obtain ⟨r, hr, heq⟩ := Option.map_eq_some_iff.mp h
  cases heq
  refine ⟨r.2, hr, rfl, ?_⟩
  intro hdone
  rw [hdone] at hr
  cases hr

theorem Tagged.perm (h : Tagged n calls) (hperm : calls.Perm rest) : Tagged n rest :=
  ⟨h.last, h.isOpen, h.mentions, h.pending, fun w hw => h.worker w (hperm.mem_iff.mpr hw),
    h.teardowns, h.undisturbed⟩

theorem Tagged.pending_of (h : Tagged n calls) {pending : List Operation}
    (hpending : ∀ o ∈ pending, n.Current o.connection o.socket) : Tagged { n with pending } calls := by
  have hcurrent : ∀ {m k}, n.Current m k → { n with pending }.Current m k :=
    fun hm => hm.congr rfl rfl rfl
  exact ⟨h.last, fun k hk => hcurrent (h.isOpen k hk), h.mentions,
    fun o ho => hcurrent (hpending o ho), fun w hw hlive => hcurrent (h.worker w hw hlive),
    h.teardowns, h.undisturbed⟩

theorem Tagged.spawn (h : Tagged n calls) (hw : n.Current w.connection w.socket) :
    Tagged n (calls ++ [w]) := by
  refine ⟨h.last, h.isOpen, h.mentions, h.pending, ?_, h.teardowns, h.undisturbed⟩
  intro w' hw' hlive
  rcases List.mem_append.mp hw' with hw' | hw'
  · exact h.worker w' hw' hlive
  · rw [List.mem_singleton.mp hw']
    exact hw

/-- **A step of a thread.**  What it takes was its own connection's, if it was on its handle. -/
theorem Tagged.exec (h : Tagged n (w :: rest)) (hexec : n.exec e w = some (n', w')) :
    Tagged n' (w' :: rest) := by
  obtain ⟨stage, hstage, rfl, hlive⟩ := exists_of_exec hexec
  have hw := h.worker w List.mem_cons_self hlive
  have heffect := effect_execStage hstage
  have hmentions : ∀ m, n.Mentions m ∨ m = w.connection → m < n.accepted := by
    rintro m (hm | rfl)
    · exact h.mentions m hm
    · exact hw.lt
  constructor
  · rw [heffect.accepted, heffect.connection, heffect.socketOf]
    exact h.last
  · intro k hk
    rw [heffect.connection]
    exact heffect.current (h.isOpen k (heffect.isOpen k hk))
  · intro m hm
    rw [heffect.accepted]
    exact hmentions m (heffect.mentions m hm)
  · intro o ho
    apply heffect.current
    rcases heffect.pending o ho with ho | ⟨hsocket, hconn⟩
    · exact h.pending o ho
    · rw [hconn, hsocket, hw.connection]
      exact hw
  · intro w' hw' hlive'
    apply heffect.current
    rcases List.mem_cons.mp hw' with rfl | hw'
    · exact hw
    · exact h.worker w' (List.mem_cons_of_mem w hw') hlive'
  · intro t ht
    rw [heffect.accepted]
    rcases heffect.teardowns t ht with ht | ⟨hcause, hvictim⟩
    · exact h.teardowns t ht
    · exact ⟨hcause ▸ hw.lt, hmentions _ hvictim⟩
  · intro t ht hsame
    rw [heffect.socketOf] at hsame
    rcases heffect.teardowns t ht with ht | ⟨hcause, hvictim⟩
    · exact h.undisturbed t ht hsame
    · have hle := h.last t.victim (hmentions _ hvictim)
      rwa [hsame, hcause, hw.socketOf, hw.connection, ← hcause] at hle

theorem current_of_lastOn {k : Socket} {m : ℕ} (h : n.lastOn k = some m) : n.Current m k := by
  rw [lastOn] at h
  split at h
  next hlast =>
    cases h
    exact ⟨hlast.1, hlast.2, rfl⟩
  next => cases h

section Accept

variable {s : Server} {socket k : Socket} {m : ℕ}

theorem current_accept_self : (s.accept socket).shared.Current s.shared.accepted socket :=
  ⟨Nat.lt_succ_self _, Function.update_self .., Function.update_self ..⟩

theorem socketOf_accept (hm : m < s.shared.accepted) :
    (s.accept socket).shared.socketOf m = s.shared.socketOf m :=
  Function.update_of_ne (Nat.ne_of_lt hm) ..

theorem connection_accept (hk : k ≠ socket) :
    (s.accept socket).shared.connection k = s.shared.connection k :=
  Function.update_of_ne hk ..

theorem current_accept (hk : k ≠ socket) (h : s.shared.Current m k) :
    (s.accept socket).shared.Current m k :=
  ⟨Nat.lt_succ_of_lt h.lt, (socketOf_accept h.lt).trans h.socketOf,
    (connection_accept hk).trans h.connection⟩

/-- A connection is accepted, when nobody works for an earlier one on its handle. -/
theorem Tagged.accept (h : Tagged s.shared s.calls) (hcareful : s.Careful (.accept socket)) :
    Tagged (s.accept socket).shared (s.accept socket).calls := by
  obtain ⟨hpending, hcalls⟩ := hcareful
  constructor
  · intro m hm
    rcases Nat.lt_succ_iff_lt_or_eq.mp hm with hm | rfl
    · rw [socketOf_accept hm]
      by_cases hk : s.shared.socketOf m = socket
      · rw [hk, current_accept_self.connection]
        exact Nat.le_of_lt hm
      · rw [connection_accept hk]
        exact h.last m hm
    · rw [current_accept_self.socketOf, current_accept_self.connection]
  · intro k hk
    by_cases hsocket : k = socket
    · subst hsocket
      rw [current_accept_self.connection]
      exact current_accept_self
    · rw [connection_accept hsocket]
      have hopen : s.shared.isOpen k = true := by
        simpa [Server.accept, Config.spawn, hsocket] using hk
      exact current_accept hsocket (h.isOpen k hopen)
  · rintro m (howner | hbuffer | ⟨k, hk⟩)
    · exact Nat.lt_succ_of_lt (h.mentions m (.inl howner))
    · exact Nat.lt_succ_of_lt (h.mentions m (.inr (.inl hbuffer)))
    · exact (current_of_lastOn hk).lt
  · intro o ho
    exact current_accept (hpending o ho) (h.pending o ho)
  · intro w hw hlive
    rcases List.mem_append.mp hw with hw | hw
    · exact current_accept ((hcalls w hw).resolve_left hlive) (h.worker w hw hlive)
    · rw [List.mem_singleton.mp hw]
      exact current_accept_self
  · intro t ht
    have hlt := h.teardowns t ht
    exact ⟨Nat.lt_succ_of_lt hlt.1, Nat.lt_succ_of_lt hlt.2⟩
  · intro t ht hsame
    have hlt := h.teardowns t ht
    rw [socketOf_accept hlt.1, socketOf_accept hlt.2] at hsame
    exact h.undisturbed t ht hsame

end Accept

theorem Tagged.step {s s' : Server} {a : Server.Action} (h : Tagged s.shared s.calls)
    (hcareful : s.Careful a) (hstep : s.step a = some s') : Tagged s'.shared s'.calls := by
  cases a with
  | accept socket =>
    rw [Server.step] at hstep
    split at hstep
    · cases hstep
    · cases hstep
      exact h.accept hcareful
  | send socket =>
    rw [Server.step] at hstep
    split at hstep
    next hopen =>
      cases hstep
      apply h.pending_of
      intro o ho
      rcases List.mem_append.mp ho with ho | ho
      · exact h.pending o ho
      · rw [List.mem_singleton.mp ho]
        exact h.isOpen socket hopen.1
    next => cases hstep
  | complete i outcome =>
    obtain ⟨o, ho, hmap⟩ := Option.bind_eq_some_iff.mp hstep
    obtain ⟨stage, -, rfl⟩ := Option.map_eq_some_iff.mp hmap
    have hcurrent := h.pending o (List.mem_of_getElem? ho)
    have hpending : ∀ o ∈ s.shared.pending.eraseIdx i, s.shared.Current o.connection o.socket :=
      fun o ho => h.pending o (List.mem_of_mem_eraseIdx ho)
    exact (h.pending_of hpending).spawn (w := ⟨o.connection, o.socket, stage⟩)
      (hcurrent.congr rfl rfl rfl)
  | run i e =>
    obtain ⟨w, w', -, hperm, hperm', hexec⟩ := Config.run_spec hstep
    exact ((h.perm hperm).exec hexec).perm hperm'.symm

end Tagged

end Handles

end IocpChat

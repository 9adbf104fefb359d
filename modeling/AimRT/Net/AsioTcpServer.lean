import AimRT.Lib.Run
import AimRT.Net.AsioUdpServer

/-!
# The session table of the tcp server

`AsioTcpServer`: a coroutine accepts connections, starts a session for each of them and puts it into
a map under the remote endpoint of its socket; a second one sweeps the sessions that do not run from
time to time.  A session that has ended stays in the map until then, and its endpoint may connect
again before.  `SendMsg` finds a session, and `Shutdown` stops the sessions, by the map alone.

A shared pointer to a session is its position among all sessions of the server so far.
-/

namespace AimRT.Net

open AimRT.Lib

/-- A session whose coroutines were spawned.  `sends` are the messages given to its `SendMsg`. -/
structure TcpSession where
  remoteEp : Endpoint
  state : PoolState
  tickHasData : Bool
  sends : List Bytes
  deriving DecidableEq, Repr

namespace TcpSession

def isRunning (sess : TcpSession) : Bool := sess.state = .start

/-- A session after `Start`. -/
def started (remoteEp : Endpoint) : TcpSession := ⟨remoteEp, .start, false, []⟩

def shutdown (sess : TcpSession) : TcpSession := { sess with state := .shutdown }

theorem shutdown_shutdown (sess : TcpSession) : sess.shutdown.shutdown = sess.shutdown := rfl

/-- The session of an accepted connection after `Start`, or after one of its coroutines has ended. -/
def accepted (remoteEp : Endpoint) (ended : Bool) : TcpSession :=
  if ended then (started remoteEp).shutdown else started remoteEp

theorem remoteEp_accepted (remoteEp : Endpoint) (ended : Bool) :
    (accepted remoteEp ended).remoteEp = remoteEp := by
  cases ended <;> rfl

theorem isRunning_accepted (remoteEp : Endpoint) (ended : Bool) :
    (accepted remoteEp ended).isRunning = !ended := by
  cases ended <;> rfl

def sendMsg (msg : Bytes) (sess : TcpSession) : TcpSession := { sess with sends := sess.sends ++ [msg] }

/-- The timer coroutine when its timer expires. -/
def timerExpires (sess : TcpSession) : TcpSession :=
  if sess.state ≠ .start then sess
  else if sess.tickHasData then { sess with tickHasData := false }
  else sess.shutdown

/-- The sender has written or the receiver has read something. -/
def hasData (sess : TcpSession) : TcpSession := { sess with tickHasData := true }

end TcpSession

/-- `Options::Verify`; `maxListenConnections` is that of the acceptor. -/
def verifySessionNum (maxListenConnections maxSessionNum : ℕ) : ℕ :=
  min (max maxSessionNum 1) maxListenConnections

/-- `closing` counts the closures that `Shutdown` has dispatched. -/
structure TcpServer where
  maxSessionNum : ℕ
  state : PoolState
  acceptCo : AcceptCo
  mgrCo : MgrCo
  sessions : List TcpSession
  sessionMap : AList fun _ : Endpoint => ℕ
  closing : ℕ

/-- The calls of `remote_endpoint()` on an accepted socket: one for the log, if it is written, one in
`Start` of the session, and one for the map.  They throw when the peer has reset the connection. -/
inductive RemoteEndpoint where
  | throwsInLog
  | throwsInStart
  | throwsInEmplace
  | returns
  deriving DecidableEq, Repr

/-- The coroutines of the session are spawned. -/
def RemoteEndpoint.spawns : RemoteEndpoint → Bool
  | throwsInLog => false
  | throwsInStart => false
  | throwsInEmplace => true
  | returns => true

/-- What can happen next.  A wait for a timer ends when the timer expires or is canceled. -/
inductive TcpOp where
  /-- A coroutine goes on from the head of its loop. -/
  | acceptCo
  | mgrCo
  | acceptorTimer
  | mgrTimer (canceled : Bool)
  /-- The coroutine goes on with the socket of an accepted connection; `ended` says that the session
  has ended in the meantime.  Or the accept has failed. -/
  | accept (ep : Endpoint) (remoteEndpoint : RemoteEndpoint) (ended : Bool)
  | acceptFails
  | sessionHasData (ptr : ℕ)
  | sessionTimer (ptr : ℕ)
  /-- The peer disconnects, or sends a head that is not one: a coroutine of the session ends. -/
  | sessionFails (ptr : ℕ)
  /-- The closure of `SendMsg` runs. -/
  | sendMsg (ep : Endpoint) (msg : Bytes)
  | shutdown
  /-- The closure that `Shutdown` has dispatched. -/
  | clear
  deriving DecidableEq, Repr

namespace TcpServer

/-- A server after `Initialize` and `Start`, its acceptor listening. -/
def started (maxListenConnections maxSessionNum : ℕ) : TcpServer :=
  ⟨verifySessionNum maxListenConnections maxSessionNum, .start, .loop, .loop, [], ∅, 0⟩

def isRunning (s : TcpServer) (ptr : ℕ) : Bool := (s.sessions[ptr]?).any TcpSession.isRunning

def shutdown (s : TcpServer) : TcpServer :=
  if s.state = .shutdown then s else { s with state := .shutdown, closing := s.closing + 1 }

def runAcceptCo (s : TcpServer) : TcpServer :=
  if s.acceptCo ≠ .loop then s
  else if s.state ≠ .start then { s.shutdown with acceptCo := .exited }
  else if s.sessionMap.entries.length ≥ s.maxSessionNum then { s with acceptCo := .sleeping }
  else { s with acceptCo := .waiting }

def runMgrCo (s : TcpServer) : TcpServer :=
  if s.mgrCo ≠ .loop then s
  else if s.state ≠ .start then { s.shutdown with mgrCo := .exited }
  else { s with mgrCo := .sleeping }

def mgrTimer (s : TcpServer) (canceled : Bool) : TcpServer :=
  if s.mgrCo ≠ .sleeping then s
  else if canceled then { s with mgrCo := .loop }
  else { s with mgrCo := .loop, sessionMap := Table.sweep s.isRunning s.sessionMap }

/-- The session is started before it is put into the map.  An exception leaves the coroutine at the
head of its loop; before the coroutines of the session are spawned it takes the only pointer to the
session with it. -/
def accept (s : TcpServer) (ep : Endpoint) (remoteEndpoint : RemoteEndpoint) (ended : Bool) :
    TcpServer :=
  if s.acceptCo ≠ .waiting then s
  else
    let sess := TcpSession.accepted ep ended
    match remoteEndpoint with
    | .throwsInLog => { s with acceptCo := .loop }
    | .throwsInStart => { s with acceptCo := .loop }
    | .throwsInEmplace => { s with acceptCo := .loop, sessions := s.sessions ++ [sess] }
    | .returns =>
      { s with
        acceptCo := .loop
        sessions := s.sessions ++ [sess]
        sessionMap := Table.emplace s.sessionMap ep s.sessions.length }

def sendMsg (s : TcpServer) (ep : Endpoint) (msg : Bytes) : TcpServer :=
  if s.state ≠ .start then s
  else
    match s.sessionMap.lookup ep with
    | none => s
    | some ptr =>
      if s.isRunning ptr then { s with sessions := s.sessions.modify ptr (TcpSession.sendMsg msg) }
      else s

/-- The sessions in the map are shut down, and the map is cleared. -/
def clear (s : TcpServer) : TcpServer :=
  if s.closing = 0 then s
  else
    { s with
      closing := s.closing - 1
      sessions := Table.modifyAll TcpSession.shutdown s.sessionMap s.sessions
      sessionMap := ∅ }

def step (s : TcpServer) : TcpOp → TcpServer
  | .acceptCo => s.runAcceptCo
  | .mgrCo => s.runMgrCo
  | .acceptorTimer => if s.acceptCo = .sleeping then { s with acceptCo := .loop } else s
  | .mgrTimer canceled => s.mgrTimer canceled
  | .accept ep remoteEndpoint ended => s.accept ep remoteEndpoint ended
  | .acceptFails => if s.acceptCo = .waiting then { s with acceptCo := .loop } else s
  | .sessionHasData ptr => { s with sessions := s.sessions.modify ptr TcpSession.hasData }
  | .sessionTimer ptr => { s with sessions := s.sessions.modify ptr TcpSession.timerExpires }
  | .sessionFails ptr => { s with sessions := s.sessions.modify ptr TcpSession.shutdown }
  | .sendMsg ep msg => s.sendMsg ep msg
  | .shutdown => s.shutdown
  | .clear => s.clear

def run (s : TcpServer) (ops : List TcpOp) : TcpServer := ops.foldl step s

/-- The number of the sessions that run. -/
def runningNum (s : TcpServer) : ℕ := ((List.range s.sessions.length).filter s.isRunning).length

/-- Every session that runs is in the map under its own endpoint, so that `SendMsg` reaches it, and
`Shutdown` stops it; no more sessions run than may. -/
structure Holds (s : TcpServer) : Prop where
  stored : ∀ {ptr : ℕ} {sess : TcpSession}, s.sessions[ptr]? = some sess → sess.isRunning →
    s.sessionMap.lookup sess.remoteEp = some ptr
  reached : ∀ {ptr : ℕ} {sess : TcpSession}, s.sessions[ptr]? = some sess → sess.isRunning →
    s.state = .start → ∀ msg, (s.sendMsg sess.remoteEp msg).sessions[ptr]? = some (sess.sendMsg msg)
  stopped : s.state = .shutdown → s.closing = 0 → s.runningNum = 0
  bounded : s.runningNum ≤ s.maxSessionNum

/-- A session that goes on running gets an entry: its endpoint has none, the peer has not reset the
connection since `Start`, and the closure of `Shutdown` has not run yet. -/
def Accepts (s : TcpServer) : TcpOp → Prop
  | .accept ep remoteEndpoint ended =>
    s.acceptCo = .waiting → remoteEndpoint.spawns → ended = false →
      remoteEndpoint = .returns ∧ s.sessionMap.lookup ep = none ∧
        (s.state = .shutdown → s.closing ≠ 0)
  | _ => True

/-- All steps of a run meet the condition. -/
def AllAccept (s : TcpServer) (ops : List TcpOp) : Prop := Run.AllMeet step Accepts s ops

/-- All states of a run hold. -/
def AllHold (s : TcpServer) (ops : List TcpOp) : Prop := Run.AllHold step Holds s ops

/-! ### The invariant -/

/-- What holds throughout a run whose steps meet the condition. -/
structure Inv (s : TcpServer) : Prop where
  stored : ∀ {ptr : ℕ} {sess : TcpSession}, s.sessions[ptr]? = some sess → sess.isRunning →
    s.sessionMap.lookup sess.remoteEp = some ptr
  lookup : ∀ {k ptr}, s.sessionMap.lookup k = some ptr → ptr < s.sessions.length
  stopped : s.state = .shutdown → s.closing = 0 → ∀ sess ∈ s.sessions, ¬ sess.isRunning
  waiting : s.acceptCo = .waiting → s.sessionMap.entries.length < s.maxSessionNum
  bounded : s.sessionMap.entries.length ≤ s.maxSessionNum

variable {s s' : TcpServer}

theorem isRunning_iff {ptr : ℕ} :
    s.isRunning ptr ↔ ∃ sess, s.sessions[ptr]? = some sess ∧ sess.isRunning := by
  rw [isRunning, Option.any_eq_true]

theorem mem_running {ptr : ℕ} : ptr ∈ (List.range s.sessions.length).filter s.isRunning ↔
    s.isRunning ptr := by
  rw [List.mem_filter, List.mem_range, and_iff_right_iff_imp]
  intro h
  obtain ⟨sess, hsess, -⟩ := isRunning_iff.1 h
  exact (List.getElem?_eq_some_iff.1 hsess).1

theorem Inv.holds (h : s.Inv) : s.Holds where
  stored := h.stored
  reached {ptr sess} hsess hrun hstate msg := by
    have hptr : s.isRunning ptr := isRunning_iff.2 ⟨sess, hsess, hrun⟩
    rw [sendMsg, if_neg (not_not.2 hstate), h.stored hsess hrun]
    simp [hptr, hsess]
  stopped hstate hclosing := by
    rw [runningNum, List.length_eq_zero_iff, List.eq_nil_iff_forall_not_mem]
    intro ptr hptr
    obtain ⟨sess, hsess, hrun⟩ := isRunning_iff.1 (mem_running.1 hptr)
    exact h.stopped hstate hclosing sess (List.mem_of_getElem? hsess) hrun
  bounded := by
    refine Nat.le_trans (Table.length_le_of_lookup ?_ fun ptr hptr => ?_) h.bounded
    · exact List.nodup_range.filter _
    · obtain ⟨sess, hsess, hrun⟩ := isRunning_iff.1 (mem_running.1 hptr)
      exact ⟨sess.remoteEp, h.stored hsess hrun⟩

/-- Nothing of the table is changed, unless sessions stop. -/
theorem Inv.of_stops (h : s.Inv) (hlength : s'.sessions.length = s.sessions.length)
    (hsessions : ∀ {ptr : ℕ} {sess' : TcpSession}, s'.sessions[ptr]? = some sess' →
      sess'.isRunning → ∃ sess, s.sessions[ptr]? = some sess ∧ sess.isRunning ∧
        sess'.remoteEp = sess.remoteEp)
    (hmap : s'.sessionMap = s.sessionMap) (hmax : s'.maxSessionNum = s.maxSessionNum)
    (hwaiting : s'.acceptCo = .waiting → s.sessionMap.entries.length < s.maxSessionNum)
    (hstopped : s'.state = .shutdown → s'.closing = 0 → s.state = .shutdown ∧ s.closing = 0) :
    s'.Inv where
  stored hsess' hrun' := by
    obtain ⟨sess, hsess, hrun, hep⟩ := hsessions hsess' hrun'
    rw [hmap, hep]
    exact h.stored hsess hrun
  lookup hk := by
    rw [hlength]
    exact h.lookup (hmap ▸ hk)
  stopped hstate hclosing sess' hmem hrun' := by
    obtain ⟨ptr, hsess'⟩ := List.getElem?_of_mem hmem
    obtain ⟨sess, hsess, hrun, -⟩ := hsessions hsess' hrun'
    obtain ⟨hstate, hclosing⟩ := hstopped hstate hclosing
    exact h.stopped hstate hclosing sess (List.mem_of_getElem? hsess) hrun
  waiting hco := by
    rw [hmap, hmax]
    exact hwaiting hco
  bounded := by
    rw [hmap, hmax]
    exact h.bounded

theorem Inv.of_sessions_eq (h : s.Inv) (hsessions : s'.sessions = s.sessions)
    (hmap : s'.sessionMap = s.sessionMap) (hmax : s'.maxSessionNum = s.maxSessionNum)
    (hwaiting : s'.acceptCo = .waiting → s.sessionMap.entries.length < s.maxSessionNum)
    (hstopped : s'.state = .shutdown → s'.closing = 0 → s.state = .shutdown ∧ s.closing = 0) :
    s'.Inv := by
  refine h.of_stops (by rw [hsessions]) (fun {ptr sess'} hsess' hrun' => ?_) hmap hmax hwaiting hstopped
  rw [hsessions] at hsess'
  exact ⟨sess', hsess', hrun', rfl⟩

/-- A session does something that does not start it. -/
theorem Inv.modify (h : s.Inv) (ptr : ℕ) {f : TcpSession → TcpSession}
    (hep : ∀ sess, (f sess).remoteEp = sess.remoteEp)
    (hrun : ∀ sess, (f sess).isRunning → sess.isRunning) :
    { s with sessions := s.sessions.modify ptr f }.Inv := by
  refine h.of_stops (List.length_modify ..) ?_ rfl rfl h.waiting fun hstate hclosing =>
    ⟨hstate, hclosing⟩
  intro ptr' sess' hsess' hrun'
  rw [List.getElem?_modify] at hsess'
  obtain ⟨sess, hsess, hsess'⟩ := Option.map_eq_some_iff.1 hsess'
  refine ⟨sess, hsess, ?_⟩
  split at hsess'
  · subst hsess'
    exact ⟨hrun sess hrun', hep sess⟩
  · subst hsess'
    exact ⟨hrun', rfl⟩

theorem Inv.shutdown (h : s.Inv) : s.shutdown.Inv := by
  unfold TcpServer.shutdown
  split
  · exact h
  · exact h.of_sessions_eq rfl rfl rfl h.waiting fun _ hclosing => absurd hclosing (Nat.succ_ne_zero _)

theorem Inv.runAcceptCo (h : s.Inv) : s.runAcceptCo.Inv := by
  unfold TcpServer.runAcceptCo
  split
  · exact h
  split
  · exact h.shutdown.of_sessions_eq rfl rfl rfl (fun hco => by cases hco) fun hstate hclosing =>
      ⟨hstate, hclosing⟩
  split
  · exact h.of_sessions_eq rfl rfl rfl (fun hco => by cases hco) fun hstate hclosing =>
      ⟨hstate, hclosing⟩
  next hlt =>
    exact h.of_sessions_eq rfl rfl rfl (fun _ => Nat.lt_of_not_le hlt) fun hstate hclosing =>
      ⟨hstate, hclosing⟩

theorem Inv.runMgrCo (h : s.Inv) : s.runMgrCo.Inv := by
  unfold TcpServer.runMgrCo
  split
  · exact h
  split
  · exact h.shutdown.of_sessions_eq rfl rfl rfl h.shutdown.waiting fun hstate hclosing =>
      ⟨hstate, hclosing⟩
  · exact h.of_sessions_eq rfl rfl rfl h.waiting fun hstate hclosing => ⟨hstate, hclosing⟩

/-- A sweep leaves the entries of the sessions that run. -/
theorem Inv.mgrTimer (h : s.Inv) (canceled : Bool) : (s.mgrTimer canceled).Inv := by
  unfold TcpServer.mgrTimer
  split
  · exact h
  split
  · exact h.of_sessions_eq rfl rfl rfl h.waiting fun hstate hclosing => ⟨hstate, hclosing⟩
  have hsize := Table.length_sweep_le s.isRunning s.sessionMap
  refine ⟨fun hsess hrun => ?_, fun hk => ?_, h.stopped, fun hco => ?_, ?_⟩
  · have hptr : s.isRunning _ := isRunning_iff.2 ⟨_, hsess, hrun⟩
    rw [Table.lookup_sweep, h.stored hsess hrun, Option.filter_some, if_pos hptr]
  · rw [Table.lookup_sweep] at hk
    exact h.lookup (Option.filter_eq_some_iff.1 hk).1
  · exact Nat.lt_of_le_of_lt hsize (h.waiting hco)
  · exact Nat.le_trans hsize h.bounded

/-- The closure of `Shutdown` stops every session that runs, because all of them are in the map. -/
theorem Inv.clear (h : s.Inv) : s.clear.Inv := by
  unfold TcpServer.clear
  split
  · exact h
  have hstopped : ∀ {ptr : ℕ} {sess : TcpSession},
      (Table.modifyAll TcpSession.shutdown s.sessionMap s.sessions)[ptr]? = some sess →
        ¬ sess.isRunning := by
    intro ptr sess hsess hrun
    rw [Table.getElem?_modifyAll TcpSession.shutdown_shutdown] at hsess
    split at hsess
    · obtain ⟨sess', -, rfl⟩ := Option.map_eq_some_iff.1 hsess
      simp [TcpSession.isRunning, TcpSession.shutdown] at hrun
    next hnot =>
      have hentry : (⟨sess.remoteEp, ptr⟩ : Σ _ : Endpoint, ℕ) ∈ s.sessionMap.entries :=
        AList.mem_lookup_iff.1 (h.stored hsess hrun)
      exact hnot (List.mem_map.2 ⟨_, hentry, rfl⟩)
  refine ⟨fun hsess hrun => absurd hrun (hstopped hsess), fun hk => ?_, fun _ _ sess hmem => ?_,
    fun hco => ?_, Nat.zero_le _⟩
  · simp at hk
  · obtain ⟨ptr, hsess⟩ := List.getElem?_of_mem hmem
    exact hstopped hsess
  · exact Nat.lt_of_le_of_lt (Nat.zero_le _) (h.waiting hco)

theorem Inv.sendMsg (h : s.Inv) (ep : Endpoint) (msg : Bytes) : (s.sendMsg ep msg).Inv := by
  unfold TcpServer.sendMsg
  split
  · exact h
  split
  · exact h
  split
  · exact h.modify _ (fun _ => rfl) fun _ hrun => hrun
  · exact h

theorem getElem?_concat_cases {α : Type} {l : List α} {a b : α} {i : ℕ}
    (h : (l ++ [a])[i]? = some b) : l[i]? = some b ∨ (i = l.length ∧ a = b) := by
  rw [List.getElem?_append] at h
  split at h
  · exact .inl h
  next hle =>
    obtain ⟨hi, hab⟩ := List.getElem?_eq_some_iff.1 h
    rw [List.length_singleton] at hi
    exact .inr ⟨by omega, by simpa using hab⟩

/-- The accept, where a session that goes on running gets an entry. -/
theorem Inv.accept (h : s.Inv) {ep : Endpoint} {remoteEndpoint : RemoteEndpoint} {ended : Bool}
    (haccepts : s.Accepts (.accept ep remoteEndpoint ended)) :
    (s.accept ep remoteEndpoint ended).Inv := by
  unfold TcpServer.accept
  split
  · exact h
  next hwaiting =>
  replace hwaiting := not_not.1 hwaiting
  have hsize : s.sessionMap.entries.length < s.maxSessionNum := h.waiting hwaiting
  have hloop : AcceptCo.loop = .waiting → s.sessionMap.entries.length < s.maxSessionNum :=
    fun hco => by cases hco
  have hlive : (TcpSession.accepted ep ended).isRunning → ended = false := by
    rw [TcpSession.isRunning_accepted, Bool.not_eq_true']
    exact id
  have hgrow : ∀ {k ptr}, s.sessionMap.lookup k = some ptr → ∀ sess : TcpSession,
      ptr < (s.sessions ++ [sess]).length := by
    intro k ptr hk sess
    rw [List.length_append]
    exact Nat.lt_add_right 1 (h.lookup hk)
  dsimp only
  split
  · exact h.of_sessions_eq rfl rfl rfl hloop fun hstate hclosing => ⟨hstate, hclosing⟩
  · exact h.of_sessions_eq rfl rfl rfl hloop fun hstate hclosing => ⟨hstate, hclosing⟩
  · -- the session has no entry, but it has ended
    have hdead : ¬ (TcpSession.accepted ep ended).isRunning := by
      intro hrun
      obtain ⟨hreturns, -⟩ := haccepts hwaiting rfl (hlive hrun)
      cases hreturns
    refine ⟨fun hsess hrun => ?_, fun hk => hgrow hk _, fun hstate hclosing sess hmem hrun => ?_,
      hloop, h.bounded⟩
    · rcases getElem?_concat_cases hsess with hsess | ⟨-, rfl⟩
      · exact h.stored hsess hrun
      · exact absurd hrun hdead
    · rcases List.mem_append.1 hmem with hmem | hmem
      · exact h.stopped hstate hclosing sess hmem hrun
      · exact hdead (List.mem_singleton.1 hmem ▸ hrun)
  · refine ⟨fun {ptr sess} hsess hrun => ?_, fun {k ptr} hk => ?_,
      fun hstate hclosing sess hmem hrun => ?_, (fun hco => by cases hco), ?_⟩
    · rcases getElem?_concat_cases hsess with hsess | ⟨rfl, rfl⟩
      · exact Table.lookup_emplace_of_lookup (h.stored hsess hrun)
      · rw [TcpSession.remoteEp_accepted]
        exact Table.lookup_emplace (haccepts hwaiting rfl (hlive hrun)).2.1
    · rcases Table.lookup_emplace_cases hk with hk | ⟨-, rfl, -⟩
      · exact hgrow hk _
      · rw [List.length_append]
        exact Nat.lt_succ_self _
    · rcases List.mem_append.1 hmem with hmem | hmem
      · exact h.stopped hstate hclosing sess hmem hrun
      · rw [List.mem_singleton.1 hmem] at hrun
        exact (haccepts hwaiting rfl (hlive hrun)).2.2 hstate hclosing
    · exact Nat.le_trans Table.length_emplace_le hsize

theorem Inv.step (h : s.Inv) {op : TcpOp} (haccepts : s.Accepts op) : (s.step op).Inv := by
  have hsame : s.state = .shutdown → s.closing = 0 → s.state = .shutdown ∧ s.closing = 0 :=
    fun hstate hclosing => ⟨hstate, hclosing⟩
  cases op with
  | acceptCo => exact h.runAcceptCo
  | mgrCo => exact h.runMgrCo
  | mgrTimer canceled => exact h.mgrTimer canceled
  | accept ep remoteEndpoint ended => exact h.accept haccepts
  | sendMsg ep msg => exact h.sendMsg ep msg
  | shutdown => exact h.shutdown
  | clear => exact h.clear
  | acceptorTimer =>
    dsimp only [TcpServer.step]
    split
    · exact h.of_sessions_eq rfl rfl rfl (fun hco => by cases hco) hsame
    · exact h
  | acceptFails =>
    dsimp only [TcpServer.step]
    split
    · exact h.of_sessions_eq rfl rfl rfl (fun hco => by cases hco) hsame
    · exact h
  | sessionHasData ptr => exact h.modify ptr (fun _ => rfl) fun _ hrun => hrun
  | sessionFails ptr => exact h.modify ptr (fun _ => rfl) fun _ hrun => by cases hrun
  | sessionTimer ptr =>
    refine h.modify ptr (fun sess => ?_) fun sess hrun => ?_
    · unfold TcpSession.timerExpires TcpSession.shutdown
      split
      · rfl
      · split <;> rfl
    · unfold TcpSession.timerExpires at hrun
      split at hrun
      · exact hrun
      · split at hrun
        · exact hrun
        · cases hrun

theorem inv_started (maxListenConnections maxSessionNum : ℕ) :
    (started maxListenConnections maxSessionNum).Inv where
  stored h _ := by simp [started] at h
  lookup h := by simp [started] at h
  stopped h := by cases h
  waiting h := by cases h
  bounded := Nat.zero_le _

/-- A session that goes on running and gets no entry of its own is lost to the server. -/
theorem Inv.accepts_of_holds (h : s.Inv) {op : TcpOp} (hholds : (s.step op).Holds) :
    s.Accepts op := by
  cases op with
  | accept ep remoteEndpoint ended =>
    intro hwaiting hspawns hlive
    subst hlive
    -- the session of this connection, and the entry that it has
    have hstored : ∀ s' : TcpServer, s'.Holds → s'.sessions = s.sessions ++ [TcpSession.started ep] →
        s'.sessionMap.lookup ep = some s.sessions.length := by
      intro s' hs' hsessions
      have hsess : s'.sessions[s.sessions.length]? = some (TcpSession.started ep) := by
        rw [hsessions, List.getElem?_concat_length]
      exact hs'.stored hsess rfl
    have hnone : s.sessionMap.lookup ep ≠ some s.sessions.length := fun hk =>
      absurd (h.lookup hk) (Nat.lt_irrefl _)
    rw [TcpServer.step, TcpServer.accept, if_neg (not_not.2 hwaiting)] at hholds
    cases remoteEndpoint with
    | throwsInLog => cases hspawns
    | throwsInStart => cases hspawns
    | throwsInEmplace => exact absurd (hstored _ hholds rfl) hnone
    | returns =>
      refine ⟨rfl, ?_, fun hstate hclosing => ?_⟩
      · cases hlookup : s.sessionMap.lookup ep with
        | none => rfl
        | some ptr =>
          have hkept := Table.lookup_emplace_of_lookup (k := ep) (v := s.sessions.length) hlookup
          exact absurd (hlookup.trans (hkept.symm.trans (hstored _ hholds rfl))) hnone
      · have hzero := hholds.stopped hstate hclosing
        rw [runningNum, List.length_eq_zero_iff, List.eq_nil_iff_forall_not_mem] at hzero
        refine hzero s.sessions.length (mem_running.2 (isRunning_iff.2 ⟨TcpSession.started ep, ?_, rfl⟩))
        exact List.getElem?_concat_length
  | _ => trivial

/-- **When the session table holds in all states of a run**: every session that an accept leaves
running is given its entry, by a server that still runs. -/
theorem sessionTable_iff (maxListenConnections maxSessionNum : ℕ) (ops : List TcpOp) :
    (started maxListenConnections maxSessionNum).AllHold ops ↔
      (started maxListenConnections maxSessionNum).AllAccept ops :=
  Run.allHold_iff_allMeet Inv Inv.holds Inv.step Inv.accepts_of_holds
    (inv_started maxListenConnections maxSessionNum) ops

/-- A client connects, its session ends, and it connects again from its endpoint before the entry is
swept. -/
theorem not_sessionTable : ¬ (started 4096 1000000).AllHold [.acceptCo,
    .accept ⟨.v4 0x7f000001, 40000⟩ .returns false, .sessionFails 0, .acceptCo,
    .accept ⟨.v4 0x7f000001, 40000⟩ .returns false] := by
  rintro ⟨-, -, -, -, -, hholds⟩
  have hstored := @Holds.stored _ hholds 1 (.started ⟨.v4 0x7f000001, 40000⟩) (by decide) (by decide)
  revert hstored
  decide

end TcpServer

end AimRT.Net

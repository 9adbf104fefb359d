import AimRT.Lib.Table
import AimRT.Net.ClientPool

/-!
# The udp server

`AsioUdpServer`: a coroutine takes datagrams from the socket and hands each of them to the session of
the endpoint that it came from, a second one sweeps the sessions that do not run from time to time,
and a session that sees no datagram for a while ends.  A session passes a datagram on in a closure on
the io context, which calls the message handler with the endpoint `remote_ep_` of the session.

A shared pointer to a session is its position among all sessions of the server so far.
-/

namespace AimRT.Net

open AimRT.Lib

/-- `Udp::endpoint()`: the address `0.0.0.0` and the port 0. -/
def Endpoint.default : Endpoint := ⟨.v4 0, 0⟩

/-- A session of the udp server; its constructor sets everything but the logger and the handler to
its default. -/
structure UdpSession where
  state : PoolState := .preInit
  remoteEp : Endpoint := .default
  tickHasData : Bool := false
  deriving DecidableEq, Repr

namespace UdpSession

def isRunning (sess : UdpSession) : Bool := sess.state = .start

def shutdown (sess : UdpSession) : UdpSession := { sess with state := .shutdown }

theorem shutdown_shutdown (sess : UdpSession) : sess.shutdown.shutdown = sess.shutdown := rfl

/-- The timer coroutine when its timer expires. -/
def timerExpires (sess : UdpSession) : UdpSession :=
  if sess.state ≠ .start then sess
  else if sess.tickHasData then { sess with tickHasData := false }
  else sess.shutdown

end UdpSession

/-- `AsioUdpServer::Options`; the durations only say when the timers expire. -/
structure UdpServerOptions where
  maxSessionNum : ℕ := 1000000
  maxPackageSize : ℕ := 1024
  deriving DecidableEq, Repr

def UdpServerOptions.verify (options : UdpServerOptions) : UdpServerOptions where
  maxSessionNum := max options.maxSessionNum 1
  maxPackageSize := min options.maxPackageSize 65507

/-- Where the coroutine that receives stands: at the head of its loop, in a wait for the timer or for
a datagram, or behind the loop. -/
inductive AcceptCo where
  | loop
  | sleeping
  | waiting
  | exited
  deriving DecidableEq, Repr

/-- Where the coroutine that sweeps stands. -/
inductive MgrCo where
  | loop
  | sleeping
  | exited
  deriving DecidableEq, Repr

/-- `closing` counts the closures that `Shutdown` has dispatched, `dispatched` are those of the
sessions with their datagrams.  `received` are the datagrams taken from the socket, `handled` the
calls of the message handler. -/
structure UdpServer where
  options : UdpServerOptions
  state : PoolState
  acceptCo : AcceptCo
  mgrCo : MgrCo
  sessions : List UdpSession
  sessionMap : AList fun _ : Endpoint => ℕ
  closing : ℕ
  dispatched : List (ℕ × Bytes)
  received : List (Endpoint × Bytes)
  handled : List (Endpoint × Bytes)

/-- What can happen next.  A wait for a timer ends when the timer expires or is canceled. -/
inductive UdpOp where
  /-- A coroutine goes on from the head of its loop. -/
  | acceptCo
  | mgrCo
  | acceptorTimer
  | mgrTimer (canceled : Bool)
  /-- A datagram is there, or the receive fails. -/
  | receive (ep : Endpoint) (data : Bytes)
  | receiveFails
  | sessionTimer (ptr : ℕ)
  /-- The io context runs the closure of a session. -/
  | handle (i : ℕ)
  | shutdown
  /-- The closure that `Shutdown` has dispatched. -/
  | clear
  deriving DecidableEq, Repr

namespace UdpServer

/-- A server after `Initialize` and `Start`, its socket bound. -/
def started (options : UdpServerOptions) : UdpServer :=
  ⟨options.verify, .start, .loop, .loop, [], ∅, 0, [], [], []⟩

def isRunning (s : UdpServer) (ptr : ℕ) : Bool := (s.sessions[ptr]?).any UdpSession.isRunning

def shutdown (s : UdpServer) : UdpServer :=
  if s.state = .shutdown then s else { s with state := .shutdown, closing := s.closing + 1 }

def runAcceptCo (s : UdpServer) : UdpServer :=
  if s.acceptCo ≠ .loop then s
  else if s.state ≠ .start then { s.shutdown with acceptCo := .exited }
  else if s.sessionMap.entries.length ≥ s.options.maxSessionNum then { s with acceptCo := .sleeping }
  else { s with acceptCo := .waiting }

def runMgrCo (s : UdpServer) : UdpServer :=
  if s.mgrCo ≠ .loop then s
  else if s.state ≠ .start then { s.shutdown with mgrCo := .exited }
  else { s with mgrCo := .sleeping }

def mgrTimer (s : UdpServer) (canceled : Bool) : UdpServer :=
  if s.mgrCo ≠ .sleeping then s
  else if canceled then { s with mgrCo := .loop }
  else { s with mgrCo := .loop, sessionMap := Table.sweep s.isRunning s.sessionMap }

/-- The session of an endpoint: the one in the map, or a new one. -/
def sessionOf (s : UdpServer) (ep : Endpoint) : UdpServer × ℕ :=
  match s.sessionMap.lookup ep with
  | some ptr => (s, ptr)
  | none =>
    ({ s with
        sessions := s.sessions ++ [{ state := .start }]
        sessionMap := Table.emplace s.sessionMap ep s.sessions.length },
      s.sessions.length)

/-- `HandleMsg` of a session. -/
def handleMsg (s : UdpServer) (ptr : ℕ) (msg : Bytes) : UdpServer :=
  { s with dispatched := s.dispatched ++ [(ptr, msg)] }

/-- The socket puts as much of the datagram into the buffer as it has room for. -/
def receive (s : UdpServer) (ep : Endpoint) (data : Bytes) : UdpServer :=
  if s.acceptCo ≠ .waiting then s
  else
    let msg := data.take s.options.maxPackageSize
    let (s, ptr) := { s with acceptCo := .loop, received := s.received ++ [(ep, msg)] }.sessionOf ep
    s.handleMsg ptr msg

/-- The closure of a session calls the message handler. -/
def handle (s : UdpServer) (i : ℕ) : UdpServer :=
  match s.dispatched[i]? with
  | none => s
  | some (ptr, msg) =>
    match s.sessions[ptr]? with
    | none => s
    | some sess =>
      { s with
        sessions := s.sessions.set ptr { sess with tickHasData := true }
        dispatched := s.dispatched.eraseIdx i
        handled := s.handled ++ [(sess.remoteEp, msg)] }

/-- The sessions in the map are shut down, and the map is cleared. -/
def clear (s : UdpServer) : UdpServer :=
  if s.closing = 0 then s
  else
    { s with
      closing := s.closing - 1
      sessions := Table.modifyAll UdpSession.shutdown s.sessionMap s.sessions
      sessionMap := ∅ }

def step (s : UdpServer) : UdpOp → UdpServer
  | .acceptCo => s.runAcceptCo
  | .mgrCo => s.runMgrCo
  | .acceptorTimer => if s.acceptCo = .sleeping then { s with acceptCo := .loop } else s
  | .mgrTimer canceled => s.mgrTimer canceled
  | .receive ep data => s.receive ep data
  | .receiveFails => if s.acceptCo = .waiting then { s with acceptCo := .loop } else s
  | .sessionTimer ptr => { s with sessions := s.sessions.modify ptr UdpSession.timerExpires }
  | .handle i => s.handle i
  | .shutdown => s.shutdown
  | .clear => s.clear

def run (s : UdpServer) (ops : List UdpOp) : UdpServer := ops.foldl step s

/-- The call of the message handler that a closure makes. -/
def call (s : UdpServer) (closure : ℕ × Bytes) : Option (Endpoint × Bytes) :=
  (s.sessions[closure.1]?).map fun sess => (sess.remoteEp, closure.2)

/-- The calls of the message handler: those made, and those that are dispatched. -/
def calls (s : UdpServer) : List (Endpoint × Bytes) := s.handled ++ s.dispatched.filterMap s.call

/-- Every datagram is passed to the message handler once, with its endpoint. -/
def PassesOnce (s : UdpServer) : Prop := s.calls.Perm s.received

/-! ### What a run keeps -/

/-- Nothing is received, dispatched or handled, and the sessions have the endpoints they had. -/
structure Frame (s s' : UdpServer) : Prop where
  remoteEps : s'.sessions.map UdpSession.remoteEp = s.sessions.map UdpSession.remoteEp
  lookup : ∀ {k ptr}, s'.sessionMap.lookup k = some ptr → s.sessionMap.lookup k = some ptr
  dispatched : s'.dispatched = s.dispatched
  received : s'.received = s.received
  handled : s'.handled = s.handled

/-- The sessions have the endpoint that their constructor gives them, the pointers are those of
sessions, and every message that was received is dispatched or handled. -/
structure Inv (s : UdpServer) : Prop where
  remoteEps : ∀ ep ∈ s.sessions.map UdpSession.remoteEp, ep = .default
  lookup : ∀ {k ptr}, s.sessionMap.lookup k = some ptr → ptr < s.sessions.length
  dispatched : ∀ c ∈ s.dispatched, c.1 < s.sessions.length
  handled : ∀ c ∈ s.handled, c.1 = .default
  msgs : (s.handled.map Prod.snd ++ s.dispatched.map Prod.snd).Perm (s.received.map Prod.snd)

variable {s s' : UdpServer}

theorem Frame.length_eq (h : s.Frame s') : s'.sessions.length = s.sessions.length := by
  simpa using congrArg List.length h.remoteEps

theorem Inv.of_frame (hinv : s.Inv) (h : s.Frame s') : s'.Inv where
  remoteEps := h.remoteEps ▸ hinv.remoteEps
  lookup hlookup := h.length_eq ▸ hinv.lookup (h.lookup hlookup)
  dispatched := by
    rw [h.dispatched, h.length_eq]
    exact hinv.dispatched
  handled := h.handled ▸ hinv.handled
  msgs := by
    rw [h.handled, h.dispatched, h.received]
    exact hinv.msgs

theorem Frame.refl (s : UdpServer) : s.Frame s := ⟨rfl, fun h => h, rfl, rfl, rfl⟩

theorem frame_shutdown (s : UdpServer) : s.Frame s.shutdown := by
  unfold shutdown
  split
  · exact Frame.refl s
  · exact ⟨rfl, fun h => h, rfl, rfl, rfl⟩

theorem frame_runAcceptCo (s : UdpServer) : s.Frame s.runAcceptCo := by
  unfold runAcceptCo
  split
  · exact Frame.refl s
  split
  · obtain ⟨heps, hlookup, hdisp, hrecv, hhandled⟩ := frame_shutdown s
    exact ⟨heps, hlookup, hdisp, hrecv, hhandled⟩
  split <;> exact ⟨rfl, fun h => h, rfl, rfl, rfl⟩

theorem frame_runMgrCo (s : UdpServer) : s.Frame s.runMgrCo := by
  unfold runMgrCo
  split
  · exact Frame.refl s
  split
  · obtain ⟨heps, hlookup, hdisp, hrecv, hhandled⟩ := frame_shutdown s
    exact ⟨heps, hlookup, hdisp, hrecv, hhandled⟩
  · exact ⟨rfl, fun h => h, rfl, rfl, rfl⟩

theorem frame_mgrTimer (s : UdpServer) (canceled : Bool) : s.Frame (s.mgrTimer canceled) := by
  unfold mgrTimer
  split
  · exact Frame.refl s
  split
  · exact ⟨rfl, fun h => h, rfl, rfl, rfl⟩
  · refine ⟨rfl, fun h => ?_, rfl, rfl, rfl⟩
    rw [Table.lookup_sweep] at h
    exact (Option.filter_eq_some_iff.1 h).1

theorem map_modify_remoteEp {f : UdpSession → UdpSession} (hf : ∀ sess, (f sess).remoteEp =
    sess.remoteEp) (l : List UdpSession) (ptr : ℕ) :
    (l.modify ptr f).map UdpSession.remoteEp = l.map UdpSession.remoteEp := by
  induction l generalizing ptr with
  | nil => simp
  | cons sess l ih =>
    cases ptr with
    | zero => simp [hf]
    | succ ptr => simp [ih]

theorem remoteEp_timerExpires (sess : UdpSession) : sess.timerExpires.remoteEp = sess.remoteEp := by
  unfold UdpSession.timerExpires UdpSession.shutdown
  split
  · rfl
  · split <;> rfl

theorem frame_clear (s : UdpServer) : s.Frame s.clear := by
  unfold clear
  split
  · exact ⟨rfl, fun h => h, rfl, rfl, rfl⟩
  refine ⟨List.ext_getElem? fun ptr => ?_, (fun h => by simp at h), rfl, rfl, rfl⟩
  rw [List.getElem?_map, List.getElem?_map, Table.getElem?_modifyAll UdpSession.shutdown_shutdown]
  split
  · rw [Option.map_map]
    rfl
  · rfl

theorem Inv.handle (hinv : s.Inv) (i : ℕ) : (s.handle i).Inv := by
  unfold UdpServer.handle
  split
  · exact hinv
  next ptr msg hi =>
  split
  · exact hinv
  next sess hsess =>
  have hep : sess.remoteEp = .default :=
    hinv.remoteEps _ (List.mem_map_of_mem (List.mem_of_getElem? hsess))
  obtain ⟨hlt, hget⟩ := List.getElem?_eq_some_iff.1 hi
  have hperm : ((ptr, msg) :: s.dispatched.eraseIdx i).Perm s.dispatched := by
    rw [← hget]
    exact List.getElem_cons_eraseIdx_perm hlt
  refine ⟨?_, ?_, ?_, ?_, ?_⟩
  · intro ep hmem
    rw [List.map_set] at hmem
    rcases List.mem_or_eq_of_mem_set hmem with hmem | rfl
    · exact hinv.remoteEps ep hmem
    · exact hep
  · intro k ptr' hlookup
    rw [List.length_set]
    exact hinv.lookup hlookup
  · intro c hc
    rw [List.length_set]
    exact hinv.dispatched c (List.mem_of_mem_eraseIdx hc)
  · intro c hc
    rcases List.mem_append.1 hc with hc | hc
    · exact hinv.handled c hc
    · rw [List.mem_singleton.1 hc]
      exact hep
  · have hmsgs := (hperm.map Prod.snd).append_left (s.handled.map Prod.snd)
    refine List.Perm.trans ?_ (hmsgs.trans hinv.msgs)
    simp

theorem Inv.receive (hinv : s.Inv) (ep : Endpoint) (data : Bytes) : (s.receive ep data).Inv := by
  unfold UdpServer.receive sessionOf
  split
  · exact hinv
  dsimp only
  have hmsgs : ∀ msg : Bytes, (s.handled.map Prod.snd ++ (s.dispatched.map Prod.snd ++ [msg])).Perm
      (s.received.map Prod.snd ++ [msg]) := by
    intro msg
    rw [← List.append_assoc]
    exact hinv.msgs.append_right [msg]
  split
  next ptr hlookup =>
    refine ⟨hinv.remoteEps, hinv.lookup, ?_, hinv.handled, by simpa [handleMsg] using hmsgs _⟩
    intro c hc
    rcases List.mem_append.1 hc with hc | hc
    · exact hinv.dispatched c hc
    · rw [List.mem_singleton.1 hc]
      exact hinv.lookup hlookup
  next hlookup =>
    -- the constructor of the session leaves `remote_ep_` at its default, and so does everybody else
    refine ⟨?_, ?_, ?_, hinv.handled, by simpa [handleMsg] using hmsgs _⟩
    · intro ep' hmem
      rw [handleMsg, List.map_append] at hmem
      rcases List.mem_append.1 hmem with hmem | hmem
      · exact hinv.remoteEps ep' hmem
      · exact List.mem_singleton.1 hmem
    · intro k ptr hk
      rw [handleMsg, List.length_append]
      rcases Table.lookup_emplace_cases hk with hk | ⟨-, rfl, -⟩
      · exact Nat.lt_add_right 1 (hinv.lookup hk)
      · exact Nat.lt_succ_self _
    · intro c hc
      rw [handleMsg, List.length_append]
      rcases List.mem_append.1 hc with hc | hc
      · exact Nat.lt_add_right 1 (hinv.dispatched c hc)
      · rw [List.mem_singleton.1 hc]
        exact Nat.lt_succ_self _

theorem Inv.step (hinv : s.Inv) (op : UdpOp) : (s.step op).Inv := by
  cases op with
  | receive ep data => exact hinv.receive ep data
  | handle i => exact hinv.handle i
  | acceptCo => exact hinv.of_frame (frame_runAcceptCo s)
  | mgrCo => exact hinv.of_frame (frame_runMgrCo s)
  | mgrTimer canceled => exact hinv.of_frame (frame_mgrTimer s canceled)
  | shutdown => exact hinv.of_frame (frame_shutdown s)
  | clear => exact hinv.of_frame (frame_clear s)
  | acceptorTimer =>
    refine hinv.of_frame ?_
    dsimp only [UdpServer.step]
    split <;> exact ⟨rfl, fun h => h, rfl, rfl, rfl⟩
  | receiveFails =>
    refine hinv.of_frame ?_
    dsimp only [UdpServer.step]
    split <;> exact ⟨rfl, fun h => h, rfl, rfl, rfl⟩
  | sessionTimer ptr =>
    have heps := map_modify_remoteEp remoteEp_timerExpires s.sessions ptr
    exact hinv.of_frame ⟨heps, fun h => h, rfl, rfl, rfl⟩

theorem inv_started (options : UdpServerOptions) : (started options).Inv where
  remoteEps ep h := by cases h
  lookup h := by simp [started] at h
  dispatched c h := by cases h
  handled c h := by cases h
  msgs := List.Perm.refl _

theorem Inv.run (hinv : s.Inv) (ops : List UdpOp) : (s.run ops).Inv := by
  induction ops generalizing s with
  | nil => exact hinv
  | cons op ops ih => exact ih (hinv.step op)

/-! ### What is passed to the message handler -/

/-- Every call has the endpoint of the constructor. -/
theorem Inv.calls_eq (hinv : s.Inv) :
    s.calls = (s.handled.map Prod.snd ++ s.dispatched.map Prod.snd).map fun msg =>
      (Endpoint.default, msg) := by
  have hhandled : s.handled = s.handled.map fun c => (Endpoint.default, c.2) := by
    rw [List.map_congr_left (g := id), List.map_id]
    exact fun c hc => Prod.ext (hinv.handled c hc).symm rfl
  have hdispatched : s.dispatched.filterMap s.call =
      s.dispatched.map fun c => (Endpoint.default, c.2) := by
    rw [← List.filterMap_eq_map]
    refine List.filterMap_congr fun c hc => ?_
    obtain ⟨sess, hsess⟩ : ∃ sess, s.sessions[c.1]? = some sess :=
      ⟨_, List.getElem?_eq_getElem (hinv.dispatched c hc)⟩
    have hep : sess.remoteEp = .default :=
      hinv.remoteEps _ (List.mem_map_of_mem (List.mem_of_getElem? hsess))
    simp [call, hsess, hep]
  rw [calls, hdispatched, List.map_append, List.map_map, List.map_map]
  exact congrArg (· ++ _) hhandled

/-- Every message is passed on once, in every run. -/
theorem msgs_passed_once (options : UdpServerOptions) (ops : List UdpOp) :
    (((started options).run ops).calls.map Prod.snd).Perm
      (((started options).run ops).received.map Prod.snd) := by
  have hinv := (inv_started options).run ops
  rw [hinv.calls_eq, List.map_map]
  simpa [Function.comp_def] using hinv.msgs

/-- **When the datagrams are passed on with their endpoints**: all of them came from the endpoint
`0.0.0.0:0`, which is the one that a session takes every datagram to be from. -/
theorem passesOnce_iff (options : UdpServerOptions) (ops : List UdpOp) :
    ((started options).run ops).PassesOnce ↔
      ∀ d ∈ ((started options).run ops).received, d.1 = .default := by
  have hinv := (inv_started options).run ops
  generalize (started options).run ops = s at hinv
  rw [PassesOnce, hinv.calls_eq]
  constructor
  · intro hperm d hd
    obtain ⟨msg, -, rfl⟩ := List.mem_map.1 (hperm.mem_iff.2 hd)
    rfl
  · intro hdefault
    have hreceived : s.received = (s.received.map Prod.snd).map fun msg =>
        (Endpoint.default, msg) := by
      rw [List.map_map, List.map_congr_left (g := id), List.map_id]
      exact fun d hd => Prod.ext (hdefault d hd).symm rfl
    rw [hreceived]
    exact hinv.msgs.map _

/-- A datagram from `127.0.0.1:40000`, and the call of the handler. -/
theorem not_passesOnce : ¬ ((started {}).run [.acceptCo,
    .receive ⟨.v4 0x7f000001, 40000⟩ [1, 2, 3], .handle 0]).PassesOnce := by
  intro h
  have hmem := h.mem_iff (a := (⟨.v4 0x7f000001, 40000⟩, [1, 2, 3]))
  revert hmem
  decide

end UdpServer

end AimRT.Net

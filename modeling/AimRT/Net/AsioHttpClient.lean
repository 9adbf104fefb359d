import AimRT.Lib.Run

/-!
# The connections of the http clients

`HttpSendRecvCo` of `AsioHttpClient`, and of `AsioHttp2Client` for grpc: on the strand of the client a
coroutine looks for a running session that is idle, or creates one; the exchange runs in a coroutine on
the strand of the session.  The first client takes the response out of the session before it sets the
idle flag again, the second one sets the flag first.

A step is one access to what the strands share.  Calls and sessions are numbered.
-/

namespace AimRT.Net

open AimRT.Lib

inductive ClientKind where
  /-- `AsioHttpClient`, with its `max_session_num`. -/
  | http (maxSessionNum : ℕ)
  /-- `AsioHttp2Client`. -/
  | http2
  deriving DecidableEq, Repr

/-- A session, or a connection of the second client.  `sent` are the requests that the server has not
answered yet, and `responses` the responses that have been read and not taken out, by the requests
that they answer. -/
structure ClientSession where
  isStarted : Bool
  idleFlag : Bool
  tickHasData : Bool
  sent : List ℕ
  responses : List ℕ
  /-- An exchange has failed. -/
  failed : Bool
  deriving DecidableEq, Repr

namespace ClientSession

/-- A session after `Start`. -/
def started : ClientSession := ⟨true, false, false, [], [], false⟩

def shutdown (sess : ClientSession) : ClientSession := { sess with isStarted := false }

/-- The timer coroutine when its timer expires. -/
def timerExpires (sess : ClientSession) : ClientSession :=
  if sess.isStarted = false then sess
  else if sess.tickHasData then { sess with tickHasData := false }
  else sess.shutdown

end ClientSession

/-- Where a call stands, with its session. -/
inductive CallCo where
  | notCalled
  /-- Spawned on the strand of the client. -/
  | called
  /-- Spawned on the strand of the session that was selected or created. -/
  | posted (ptr : ℕ)
  | exchanging (ptr : ℕ)
  /-- The request is sent. -/
  | waiting (ptr : ℕ)
  /-- The response is taken out of the session; the idle flag is not set yet. -/
  | taken (ptr rsp : ℕ)
  /-- The idle flag is set; the response is not taken out of the session yet. -/
  | restored (ptr : ℕ)
  | returned (rsp : ℕ)
  | failed
  deriving DecidableEq, Repr

/-- The session that a call uses. -/
def CallCo.session : CallCo → Option ℕ
  | posted ptr => some ptr
  | exchanging ptr => some ptr
  | waiting ptr => some ptr
  | taken ptr _ => some ptr
  | restored ptr => some ptr
  | _ => none

/-- The session of a request between its selection and its completion: until its response is taken, or
its exchange has failed. -/
def CallCo.active : CallCo → Option ℕ
  | taken .. => none
  | co => co.session

/-- The search of a call through the list of sessions, at an index: before `IsRunning`, before the
exchange of the idle flag, and, where the flag was set, before the state is loaded. -/
inductive SearchCo where
  | free
  | loop (r i : ℕ)
  | running (r i ptr : ℕ)
  | idle (r i ptr : ℕ)
  deriving DecidableEq, Repr

/-- The call that searches. -/
def SearchCo.call : SearchCo → Option ℕ
  | free => none
  | loop r _ => some r
  | running r _ _ => some r
  | idle r _ _ => some r

/-- `closing` counts the closures that `Shutdown` has dispatched. -/
structure HttpClient where
  isStarted : Bool
  closing : ℕ
  sessionNum : ℕ
  sessions : ℕ → ClientSession
  sessionPtrList : List ℕ
  mgr : SearchCo
  calls : ℕ → CallCo

/-- What can happen next. -/
inductive ClientOp where
  | call (r : ℕ)
  /-- The coroutine of a call begins, and goes on, on the strand of the client. -/
  | start (r : ℕ)
  | runMgr
  /-- The exchange begins, has sent the request, and fails: a timeout or an error of the socket. -/
  | begin (r : ℕ)
  | send (r : ℕ)
  | exchangeFails (r : ℕ)
  /-- In the exchange of `r` the response to `q` has been read. -/
  | arrive (r q : ℕ)
  /-- The two steps behind the exchange. -/
  | finish (r : ℕ)
  | complete (r : ℕ)
  /-- The connection is to be closed behind the response. -/
  | needEof (r : ℕ)
  | timerExpires (ptr : ℕ)
  | shutdown
  | clear
  deriving DecidableEq, Repr

namespace HttpClient

variable (kind : ClientKind) (s : HttpClient)

/-- A client after `Start`. -/
def started : HttpClient := ⟨true, 0, 0, fun _ => .started, [], .free, fun _ => .notCalled⟩

def setCall (r : ℕ) (co : CallCo) : HttpClient := { s with calls := Function.update s.calls r co }

def setSession (ptr : ℕ) (sess : ClientSession) : HttpClient :=
  { s with sessions := Function.update s.sessions ptr sess }

/-- A step of a call in its session. -/
def move (r ptr : ℕ) (co : CallCo) (sess : ClientSession) : HttpClient :=
  (s.setSession ptr sess).setCall r co

def call (r : ℕ) : HttpClient := if s.calls r = .notCalled then s.setCall r .called else s

def start (r : ℕ) : HttpClient :=
  if s.mgr ≠ .free ∨ s.calls r ≠ .called then s
  else if s.isStarted then { s with mgr := .loop r 0 }
  else s.setCall r .failed

/-- The second client puts a session into the list again whenever it uses it. -/
def select (r ptr : ℕ) : HttpClient :=
  { s.setCall r (.posted ptr) with
    mgr := .free
    sessionPtrList := match kind with
      | .http _ => s.sessionPtrList
      | .http2 => s.sessionPtrList ++ [ptr] }

/-- There is room for a session. -/
def hasRoom : Bool :=
  match kind with
  | .http maxSessionNum => s.sessionPtrList.length < maxSessionNum
  | .http2 => true

def create (r : ℕ) : HttpClient :=
  if s.hasRoom kind then
    { s.move r s.sessionNum (.posted s.sessionNum) .started with
      mgr := .free
      sessionNum := s.sessionNum + 1
      sessionPtrList := s.sessionPtrList ++ [s.sessionNum] }
  else { s.setCall r .failed with mgr := .free }

def runMgr : HttpClient :=
  match s.mgr with
  | .free => s
  | .loop r i =>
    match s.sessionPtrList[i]? with
    | none => s.create kind r
    | some ptr =>
      if (s.sessions ptr).isStarted then { s with mgr := .running r i ptr }
      else { s with sessionPtrList := s.sessionPtrList.eraseIdx i }
  | .running r i ptr =>
    if (s.sessions ptr).idleFlag then
      { s.setSession ptr { s.sessions ptr with idleFlag := false } with mgr := .idle r i ptr }
    else { s with mgr := .loop r (i + 1) }
  | .idle r i ptr =>
    if (s.sessions ptr).isStarted then s.select kind r ptr else { s with mgr := .loop r (i + 1) }

/-- An exception in the exchange. -/
def fail (r ptr : ℕ) : HttpClient :=
  s.move r ptr .failed { (s.sessions ptr).shutdown with failed := true }

def begin (r : ℕ) : HttpClient :=
  match s.calls r with
  | .posted ptr =>
    if (s.sessions ptr).isStarted then s.setCall r (.exchanging ptr) else s.fail r ptr
  | _ => s

def send (r : ℕ) : HttpClient :=
  match s.calls r with
  | .exchanging ptr =>
    let sess := s.sessions ptr
    s.move r ptr (.waiting ptr) { sess with sent := sess.sent ++ [r], tickHasData := true }
  | _ => s

def exchangeFails (r : ℕ) : HttpClient :=
  match s.calls r with
  | .exchanging ptr => s.fail r ptr
  | .waiting ptr => s.fail r ptr
  | _ => s

/-- A server answers a request that it has, once. -/
def arrive (r q : ℕ) : HttpClient :=
  match s.calls r with
  | .waiting ptr =>
    let sess := s.sessions ptr
    if sess.sent.contains q then
      s.setSession ptr { sess with
        sent := sess.sent.erase q
        responses := sess.responses ++ [q]
        tickHasData := true }
    else s
  | _ => s

/-- Behind the exchange, with at least one response. -/
def finish (r : ℕ) : HttpClient :=
  match s.calls r with
  | .waiting ptr =>
    let sess := s.sessions ptr
    match sess.responses with
    | [] => s
    | rsp :: responses =>
      match kind with
      | .http _ => s.move r ptr (.taken ptr rsp) { sess with responses := responses }
      | .http2 => s.move r ptr (.restored ptr) { sess with idleFlag := true }
  | _ => s

/-- The end of the exchange; the second client takes all responses, and there must be one. -/
def complete (r : ℕ) : HttpClient :=
  match s.calls r with
  | .taken ptr rsp => s.move r ptr (.returned rsp) { s.sessions ptr with idleFlag := true }
  | .restored ptr =>
    match (s.sessions ptr).responses with
    | [rsp] => s.move r ptr (.returned rsp) { s.sessions ptr with responses := [] }
    | _ => s.fail r ptr
  | _ => s

def needEof (r : ℕ) : HttpClient :=
  match s.calls r with
  | .taken ptr _ => s.setSession ptr (s.sessions ptr).shutdown
  | _ => s

def shutdown : HttpClient :=
  if s.isStarted then { s with isStarted := false, closing := s.closing + 1 } else s

/-- The closure that `Shutdown` has dispatched, when no search goes on. -/
def clear : HttpClient :=
  if s.closing = 0 ∨ s.mgr ≠ .free then s
  else
    { s with
      closing := s.closing - 1
      sessions := fun ptr =>
        if s.sessionPtrList.contains ptr then (s.sessions ptr).shutdown else s.sessions ptr
      sessionPtrList := [] }

def step : ClientOp → HttpClient
  | .call r => s.call r
  | .start r => s.start r
  | .runMgr => s.runMgr kind
  | .begin r => s.begin r
  | .send r => s.send r
  | .exchangeFails r => s.exchangeFails r
  | .arrive r q => s.arrive r q
  | .finish r => s.finish kind r
  | .complete r => s.complete r
  | .needEof r => s.needEof r
  | .timerExpires ptr => s.setSession ptr (s.sessions ptr).timerExpires
  | .shutdown => s.shutdown
  | .clear => s.clear

/-- A session carries one request at a time, a call gets the response to its own request, a session
whose exchange has failed is not used again, and there are not too many of them. -/
structure Holds : Prop where
  exclusive : ∀ {r r' ptr}, (s.calls r).active = some ptr → (s.calls r').active = some ptr → r = r'
  own : ∀ {r rsp}, s.calls r = .returned rsp → rsp = r
  neverAgain : ∀ {r ptr}, (s.sessions ptr).failed → (s.calls r).active ≠ some ptr
  bounded : ∀ {maxSessionNum}, kind = .http maxSessionNum → s.sessionPtrList.length ≤ maxSessionNum

/-- No session is selected between the set of its idle flag and the taking of its response. -/
def Meets (op : ClientOp) : Prop :=
  op = .runMgr → ∀ {r i ptr}, s.mgr = .idle r i ptr → (s.sessions ptr).isStarted →
    ∀ r', s.calls r' ≠ .restored ptr

/-- All steps of a run meet the condition. -/
def AllMeet (ops : List ClientOp) : Prop := Run.AllMeet (step kind) Meets s ops

/-- All states of a run hold. -/
def AllHold (ops : List ClientOp) : Prop := Run.AllHold (step kind) (Holds kind) s ops

end HttpClient

end AimRT.Net

import AimRT.Lib.Run
import AimRT.Lib.Stream
import AimRT.Grpc.GrpcServer

/-!
# The writes of a grpc connection

The coroutines of a server connection on its socket strand: the loop that receives, and one coroutine
for each request with a handle, which submits the response and calls `SendToRemote` like the loop.  The
strand keeps them apart between two suspensions only: while one of them is suspended in its
`async_write`, the others go on and may begin one of their own.

The http2 session is a parameter.
-/

namespace AimRT.Grpc

open AimRT.Lib AimRT.Util

/-- The http2 session: `ParseRecvMessage`, followed by `GetFullRequestList`, `SubmitResponse`, and
`GetSendMessage`; no value where they fail. -/
structure Http2Session (S : Type) where
  parseRecvMessage : S → Bytes → S × Option (List Http2Request)
  submitResponse : S → Http2Response → S
  getSendMessage : S → S × Option Bytes

/-- Where the loop stands: at its head, suspended in `async_read_some` or in the `async_write` behind
it, on its way through the full requests or suspended in the `async_write` for one of them, or behind
the loop. -/
inductive LoopCo where
  | head
  | reading
  | sending
  | serving (fullRequestList : List Http2Request)
  | sendingNotFound (fullRequestList : List Http2Request)
  | exited

/-- Where the coroutine of a request stands: in the handle, on its way to the strand with the response,
suspended in its `async_write`, or behind it. -/
inductive RequestCo where
  | handling
  | posted (rsp : Http2Response)
  | sending
  | exited

/-- Who calls `SendToRemote`. -/
inductive Sender where
  | loop
  | request (i : ℕ)
  deriving DecidableEq, Repr

/-- `isStarted` is the state of the connection, `closing` counts the closures that `Shutdown` has
dispatched to the strand. -/
structure ServerConnection (S : Type) where
  isStarted : Bool
  closeConnectFlag : Bool
  tickHasData : Bool
  closing : ℕ
  session : S
  socket : Stream Sender
  loop : LoopCo
  requests : List RequestCo

/-- What can happen next. -/
inductive SocketOp where
  /-- The loop goes on from its head, or with the full requests. -/
  | runLoop
  | receive (data : Bytes)
  | receiveFails
  /-- A handle has returned, or thrown an exception. -/
  | handled (i : ℕ) (rsp : Http2Response)
  | handleThrows (i : ℕ)
  /-- The coroutine of a request goes on on the strand. -/
  | submit (i : ℕ)
  /-- The socket takes some bytes of a write, or a write is over. -/
  | transmit (w n : ℕ)
  | written (w : ℕ)
  | writeFails (w : ℕ)
  | timerExpires
  | shutdown
  /-- The closure that `Shutdown` has dispatched to the strand. -/
  | close

namespace ServerConnection

variable {S : Type} (b : GrpcServer) (h2 : Http2Session S)

/-- A connection after `Start`. -/
def started (session : S) : ServerConnection S :=
  ⟨true, false, false, 0, session, .init, .head, []⟩

def shutdown (s : ServerConnection S) : ServerConnection S :=
  if s.isStarted = false then s else { s with isStarted := false, closing := s.closing + 1 }

/-- An exception, or the end, of the loop. -/
def exit (s : ServerConnection S) : ServerConnection S := { s.shutdown with loop := .exited }

/-- How a call of `SendToRemote` goes. -/
inductive SendResult where
  | throws
  | returns
  | suspends
  deriving DecidableEq, Repr

def sendToRemote (s : ServerConnection S) (sender : Sender) : ServerConnection S × SendResult :=
  match h2.getSendMessage s.session with
  | (session, none) => ({ s with session := session }, .throws)
  | (session, some buf) =>
    if buf = [] then ({ s with session := session }, .returns)
    else ({ s with session := session, socket := s.socket.write sender buf }, .suspends)

/-- `SendToRemote` in the loop, which stands at `suspended` meanwhile and at `next` after it. -/
def sendInLoop (s : ServerConnection S) (suspended next : LoopCo) : ServerConnection S :=
  match s.sendToRemote h2 .loop with
  | (s, .throws) => s.exit
  | (s, .returns) => { s with loop := next }
  | (s, .suspends) => { s with loop := suspended }

/-- The response to a request without a handle. -/
def notFound (req : Http2Request) : Http2Response :=
  let rsp : Http2Response :=
    { streamId := req.streamId
      httpStatus := 404
      headers := addHeader ∅ (ascii "content-type") (ascii "application/grpc") }
  rsp.write (ascii "Not Found")

def runLoop (s : ServerConnection S) : ServerConnection S :=
  match s.loop with
  | .head => if s.isStarted && !s.closeConnectFlag then { s with loop := .reading } else s.exit
  | .serving [] => { s with loop := .head }
  | .serving (req :: fullRequestList) =>
    match b.getHttpHandle req.path with
    | none =>
      { s with session := h2.submitResponse s.session (notFound req) }.sendInLoop h2
        (.sendingNotFound fullRequestList) (.serving fullRequestList)
    | some _ => { s with loop := .serving fullRequestList, requests := s.requests ++ [.handling] }
  | _ => s

/-- `ReceiveFromRemote` goes on, and the loop behind it. -/
def receive (s : ServerConnection S) (data : Bytes) : ServerConnection S :=
  match s.loop with
  | .reading =>
    match h2.parseRecvMessage s.session data with
    | (session, none) => { s with session := session }.exit
    | (session, some []) => { s with session := session }.sendInLoop h2 .sending .head
    | (session, some fullRequestList) =>
      { s with session := session, tickHasData := true, loop := .serving fullRequestList }
  | _ => s

def setRequest (s : ServerConnection S) (i : ℕ) (co : RequestCo) : ServerConnection S :=
  { s with requests := s.requests.set i co }

def handled (s : ServerConnection S) (i : ℕ) (rsp : Http2Response) : ServerConnection S :=
  match s.requests[i]? with
  | some .handling => s.setRequest i (.posted rsp)
  | _ => s

/-- The coroutine of a request is detached: an exception ends it. -/
def submit (s : ServerConnection S) (i : ℕ) : ServerConnection S :=
  match s.requests[i]? with
  | some (.posted rsp) =>
    match { s with session := h2.submitResponse s.session rsp }.sendToRemote h2 (.request i) with
    | (s, .suspends) => s.setRequest i .sending
    | (s, _) => s.setRequest i .exited
  | _ => s

/-- The owner of a write goes on behind it. -/
def resume (s : ServerConnection S) : Sender → ServerConnection S
  | .loop =>
    match s.loop with
    | .sending => { s with loop := .head }
    | .sendingNotFound fullRequestList => { s with loop := .serving fullRequestList }
    | _ => s
  | .request i => s.setRequest i .exited

def written (s : ServerConnection S) (w : ℕ) : ServerConnection S :=
  match s.socket.complete w with
  | some (sender, socket) => { s with socket := socket }.resume sender
  | none => s

def writeFails (s : ServerConnection S) (w : ℕ) : ServerConnection S :=
  match s.socket.fail w with
  | some (.loop, socket) => { s with socket := socket }.exit
  | some (.request i, socket) => { s with socket := socket }.setRequest i .exited
  | none => s

/-- The timer coroutine when its timer expires. -/
def timerExpires (s : ServerConnection S) : ServerConnection S :=
  if s.isStarted = false then s
  else if s.tickHasData then { s with tickHasData := false }
  else { s with closeConnectFlag := true }.shutdown

def close (s : ServerConnection S) : ServerConnection S :=
  if s.closing = 0 then s
  else { s with closing := s.closing - 1, closeConnectFlag := true, socket := s.socket.close }

def step (s : ServerConnection S) : SocketOp → ServerConnection S
  | .runLoop => s.runLoop b h2
  | .receive data => s.receive h2 data
  | .receiveFails => if s.loop matches .reading then s.exit else s
  | .handled i rsp => s.handled i rsp
  | .handleThrows i => if s.requests[i]? matches some .handling then s.setRequest i .exited else s
  | .submit i => s.submit h2 i
  | .transmit w n => { s with socket := s.socket.take w n }
  | .written w => s.written w
  | .writeFails w => s.writeFails w
  | .timerExpires => s.timerExpires
  | .shutdown => s.shutdown
  | .close => s.close

def run (s : ServerConnection S) (ops : List SocketOp) : ServerConnection S :=
  ops.foldl (step b h2) s

/-- The http2 session with which a step calls `SendToRemote`. -/
def sends (s : ServerConnection S) : SocketOp → Option S
  | .runLoop =>
    match s.loop with
    | .serving (req :: _) =>
      match b.getHttpHandle req.path with
      | none => some (h2.submitResponse s.session (notFound req))
      | some _ => none
    | _ => none
  | .receive data =>
    match s.loop with
    | .reading =>
      match h2.parseRecvMessage s.session data with
      | (session, some []) => some session
      | _ => none
    | _ => none
  | .submit i =>
    match s.requests[i]? with
    | some (.posted rsp) => some (h2.submitResponse s.session rsp)
    | _ => none
  | _ => none

/-- A coroutine that has something to send finds no write in progress. -/
def Waits (s : ServerConnection S) (op : SocketOp) : Prop :=
  ∀ session buf, s.sends b h2 op = some session → (h2.getSendMessage session).2 = some buf →
    buf ≠ [] → s.socket.writes = []

/-- All steps of a run meet the condition. -/
def AllWait (s : ServerConnection S) (ops : List SocketOp) : Prop :=
  Run.AllMeet (step b h2) (Waits b h2) s ops

/-- In all states of a run at most one write is in progress, and what was written are the chunks that
`GetSendMessage` has produced, in their order. -/
def AllSound (s : ServerConnection S) (ops : List SocketOp) : Prop :=
  Run.AllHold (step b h2) (fun s => s.socket.Sound) s ops

/-! ### What a step does to the socket -/

variable {b h2} {s : ServerConnection S}

theorem step_runLoop (s : ServerConnection S) : s.step b h2 .runLoop = s.runLoop b h2 := rfl

theorem step_receive (s : ServerConnection S) (data : Bytes) : s.step b h2 (.receive data) = s.receive h2 data := rfl

theorem step_submit (s : ServerConnection S) (i : ℕ) : s.step b h2 (.submit i) = s.submit h2 i := rfl

theorem sends_submit (s : ServerConnection S) (i : ℕ) : s.sends b h2 (.submit i) =
    match s.requests[i]? with
    | some (.posted rsp) => some (h2.submitResponse s.session rsp)
    | _ => none := rfl

@[simp] theorem socket_shutdown (s : ServerConnection S) : s.shutdown.socket = s.socket := by
  unfold shutdown
  split <;> rfl

@[simp] theorem socket_exit (s : ServerConnection S) : s.exit.socket = s.socket :=
  socket_shutdown s

@[simp] theorem socket_setRequest (s : ServerConnection S) (i : ℕ) (co : RequestCo) :
    (s.setRequest i co).socket = s.socket := rfl

@[simp] theorem socket_resume (s : ServerConnection S) (sender : Sender) :
    (s.resume sender).socket = s.socket := by
  cases sender with
  | request i => rfl
  | loop =>
    unfold resume
    dsimp only
    split <;> rfl

/-- What a step that calls `SendToRemote` does to the socket, with the session of the call. -/
def Sends (h2 : Http2Session S) (session : S) (socket socket' : Stream Sender) : Prop :=
  (∃ sender buf, (h2.getSendMessage session).2 = some buf ∧ buf ≠ [] ∧
    socket' = socket.write sender buf) ∨
  ((∀ buf, (h2.getSendMessage session).2 = some buf → buf = []) ∧ socket' = socket)

theorem sends_sendToRemote (h2 : Http2Session S) (s : ServerConnection S) (sender : Sender) :
    Sends h2 s.session s.socket (s.sendToRemote h2 sender).1.socket := by
  unfold sendToRemote
  split
  next session hsend => exact .inr ⟨fun buf h => by simp [hsend] at h, rfl⟩
  next session buf hsend =>
    split
    next hbuf =>
      refine .inr ⟨fun buf' h => ?_, rfl⟩
      rw [hsend] at h
      exact (Option.some.inj h).symm.trans hbuf
    next hbuf => exact .inl ⟨sender, buf, by rw [hsend], hbuf, rfl⟩

theorem socket_sendInLoop (s : ServerConnection S) (suspended next : LoopCo) :
    (s.sendInLoop h2 suspended next).socket = (s.sendToRemote h2 .loop).1.socket := by
  unfold sendInLoop
  split
  next hsend => rw [hsend, socket_exit]
  next hsend => rw [hsend]
  next hsend => rw [hsend]

/-- A step that calls `SendToRemote`, and one that does not. -/
def StepCases (b : GrpcServer) (h2 : Http2Session S) (s : ServerConnection S) (op : SocketOp) : Prop :=
  (∃ session, s.sends b h2 op = some session ∧
    Sends h2 session s.socket (s.step b h2 op).socket) ∨
  (s.sends b h2 op = none ∧ s.socket.Moves (s.step b h2 op).socket)

theorem stepCases_of_keep {op : SocketOp} (hsends : s.sends b h2 op = none)
    (hsocket : (s.step b h2 op).socket = s.socket) : s.StepCases b h2 op :=
  .inr ⟨hsends, hsocket ▸ .keep⟩

theorem stepCases_runLoop (s : ServerConnection S) : s.StepCases b h2 .runLoop := by
  obtain ⟨isStarted, closeConnectFlag, tickHasData, closing, session, socket, loop, requests⟩ := s
  cases loop with
  | head =>
    refine stepCases_of_keep rfl ?_
    dsimp only [step_runLoop, runLoop]
    split
    · rfl
    · exact socket_exit _
  | serving fullRequestList =>
    cases fullRequestList with
    | nil => exact stepCases_of_keep rfl rfl
    | cons req fullRequestList =>
      cases hhandle : b.getHttpHandle req.path with
      | some funcName =>
        refine stepCases_of_keep ?_ ?_
        · simp only [sends, hhandle]
        · simp only [step_runLoop, runLoop, hhandle]
      | none =>
        refine .inl ⟨h2.submitResponse session (notFound req), ?_, ?_⟩
        · simp only [sends, hhandle]
        · have hsend := sends_sendToRemote h2 ⟨isStarted, closeConnectFlag, tickHasData, closing,
            h2.submitResponse session (notFound req), socket, .serving (req :: fullRequestList),
            requests⟩ .loop
          simp only [step_runLoop, runLoop, hhandle, socket_sendInLoop]
          exact hsend
  | reading => exact stepCases_of_keep rfl rfl
  | sending => exact stepCases_of_keep rfl rfl
  | sendingNotFound fullRequestList => exact stepCases_of_keep rfl rfl
  | exited => exact stepCases_of_keep rfl rfl

theorem stepCases_receive (s : ServerConnection S) (data : Bytes) :
    s.StepCases b h2 (.receive data) := by
  obtain ⟨isStarted, closeConnectFlag, tickHasData, closing, session, socket, loop, requests⟩ := s
  cases loop with
  | reading =>
    rcases hparse : h2.parseRecvMessage session data with
      ⟨session', - | - | ⟨req, fullRequestList⟩⟩
    · refine stepCases_of_keep ?_ ?_
      · simp only [sends, hparse]
      · simp only [step_receive, receive, hparse, socket_exit]
    · refine .inl ⟨session', ?_, ?_⟩
      · simp only [sends, hparse]
      · have hsend := sends_sendToRemote h2 ⟨isStarted, closeConnectFlag, tickHasData, closing,
          session', socket, .reading, requests⟩ .loop
        simp only [step_receive, receive, hparse, socket_sendInLoop]
        exact hsend
    · refine stepCases_of_keep ?_ ?_
      · simp only [sends, hparse]
      · simp only [step_receive, receive, hparse]
  | head => exact stepCases_of_keep rfl rfl
  | serving fullRequestList => exact stepCases_of_keep rfl rfl
  | sending => exact stepCases_of_keep rfl rfl
  | sendingNotFound fullRequestList => exact stepCases_of_keep rfl rfl
  | exited => exact stepCases_of_keep rfl rfl

theorem stepCases_submit (s : ServerConnection S) (i : ℕ) : s.StepCases b h2 (.submit i) := by
  by_cases hposted : ∃ rsp, s.requests[i]? = some (.posted rsp)
  · obtain ⟨rsp, hrsp⟩ := hposted
    refine .inl ⟨h2.submitResponse s.session rsp, ?_, ?_⟩
    · simp only [sends_submit, hrsp]
    · simp only [step_submit, submit, hrsp]
      have hsend := sends_sendToRemote h2
        { s with session := h2.submitResponse s.session rsp } (.request i)
      split
      next heq => rwa [heq] at hsend
      next heq => rwa [heq] at hsend
  · have hnot : ∀ rsp, s.requests[i]? ≠ some (.posted rsp) := fun rsp h => hposted ⟨rsp, h⟩
    refine stepCases_of_keep ?_ ?_
    · rw [sends_submit]
      split
      next rsp hrsp => exact absurd hrsp (hnot rsp)
      · rfl
    · dsimp only [step_submit, submit]
      split
      next rsp hrsp => exact absurd hrsp (hnot rsp)
      · rfl

/-- A step calls `SendToRemote`, or it does not begin a write. -/
theorem step_cases (b : GrpcServer) (h2 : Http2Session S) (s : ServerConnection S)
    (op : SocketOp) : s.StepCases b h2 op := by
  cases op with
  | runLoop => exact stepCases_runLoop s
  | receive data => exact stepCases_receive s data
  | submit i => exact stepCases_submit s i
  | receiveFails =>
    refine stepCases_of_keep rfl ?_
    dsimp only [step]
    split
    · exact socket_exit s
    · rfl
  | handled i rsp =>
    refine stepCases_of_keep rfl ?_
    dsimp only [step, handled]
    split <;> rfl
  | handleThrows i =>
    refine stepCases_of_keep rfl ?_
    dsimp only [step]
    split <;> rfl
  | transmit w n => exact .inr ⟨rfl, .take w n⟩
  | written w =>
    refine .inr ⟨rfl, ?_⟩
    dsimp only [step, written]
    split
    next sender socket hcomplete =>
      rw [socket_resume]
      exact .complete hcomplete
    · exact .keep
  | writeFails w =>
    refine .inr ⟨rfl, ?_⟩
    dsimp only [step, writeFails]
    split
    next socket hfail =>
      rw [socket_exit]
      exact .fail hfail
    next i socket hfail => exact .fail hfail
    · exact .keep
  | timerExpires =>
    refine stepCases_of_keep rfl ?_
    dsimp only [step, timerExpires]
    split
    · rfl
    · split
      · rfl
      · exact socket_shutdown _
  | shutdown => exact stepCases_of_keep rfl (socket_shutdown s)
  | close =>
    refine .inr ⟨rfl, ?_⟩
    dsimp only [step, close]
    split
    · exact .keep
    · exact .close

/-- A step keeps the writes in order exactly if it waits for the one in progress. -/
theorem sound_step_iff (h : s.socket.Sound) (op : SocketOp) :
    (s.step b h2 op).socket.Sound ↔ s.Waits b h2 op := by
  rcases step_cases b h2 s op with ⟨session, hsends, hsend⟩ | ⟨hsends, hmoves⟩
  · rcases hsend with ⟨sender, buf, hbuf, hne, hsocket⟩ | ⟨hnothing, hsocket⟩
    · rw [hsocket]
      constructor
      · intro hsound session' buf' _ _ _
        by_contra hbusy
        exact Stream.not_sound_write hbusy sender buf hsound
      · exact fun hwaits => h.write (hwaits session buf hsends hbuf hne) sender buf
    · rw [hsocket]
      refine ⟨fun _ session' buf hsends' hbuf hne => ?_, fun _ => h⟩
      rw [hsends, Option.some.injEq] at hsends'
      subst hsends'
      exact absurd (hnothing buf hbuf) hne
  · refine ⟨fun _ session buf hsends' => ?_, fun _ => h.moves hmoves⟩
    rw [hsends] at hsends'
    cases hsends'

/-- A session that gets one request for each byte and sends the bodies as they are. -/
def bodiesOnly : Http2Session Bytes where
  parseRecvMessage s data := (s, some (data.map fun id =>
    ⟨Int32.ofNat id.toNat, ascii "POST", ascii "http", ascii "/rpc/F", ∅, []⟩))
  submitResponse s rsp := s ++ rsp.body
  getSendMessage s := ([], some s)

end ServerConnection

end AimRT.Grpc

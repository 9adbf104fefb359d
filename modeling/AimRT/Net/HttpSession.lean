import AimRT.Lib.Run
import AimRT.Net.HttpServer

/-!
# The session of the http server

The processing coroutine of `AsioHttpServer::Session`: it reads a request, and goes back to the head of
its loop when the response to it is written, by itself or by the coroutine of a handle.  A handle may
return a status or throw an exception; only an exception derived from `std::exception` is caught, there
and around the loop.
-/

namespace AimRT.Net.HttpServer

open AimRT.Lib AimRT.Util

inductive HttpHandleStatus where
  | ok
  | fail
  | timeout
  deriving DecidableEq, Repr

def HttpHandleStatus.code : HttpHandleStatus → ℕ
  | ok => 0
  | fail => 1
  | timeout => 2

/-- How a handle ends, with the response as it has left it. -/
inductive HandleResult where
  | returns (status : HttpHandleStatus) (rsp : Response)
  /-- A `std::exception`. -/
  | throws (what : Bytes) (rsp : Response)
  | throwsOther
  deriving DecidableEq, Repr

/-- `err_info` and the response of a handle; no value where an exception is not caught. -/
def errInfo : HandleResult → Option (Bytes × Response)
  | .returns status rsp =>
    if status = .ok then some ([], rsp)
    else some (ascii "handle failed, status: " ++ ascii (toString status.code), rsp)
  | .throws what rsp => some (what, rsp)
  | .throwsOther => none

/-- The response that the coroutine of `GenHttpDispatcherHandle` writes. -/
def handleResponse (req : Request) (result : HandleResult) : Option Response :=
  (errInfo result).map fun r => if r.1 = [] then r.2 else serverErrorHandle req r.1

/-- Where the processing coroutine stands: at the head of its loop, in `async_read`, in the handle of a
request, in the `async_write` of a response, or behind the loop. -/
inductive HttpCo where
  | head
  | reading
  | handling (req : Request)
  | writing (rsp : Response)
  | exited
  deriving DecidableEq, Repr

/-- What has been read and written. -/
inductive HttpEvent where
  | read (req : Request)
  | wrote (rsp : Response)
  deriving DecidableEq, Repr

/-- `writeFailed` says that the socket has failed in a write. -/
structure HttpSession where
  isStarted : Bool
  closeConnectFlag : Bool
  tickHasData : Bool
  co : HttpCo
  writeFailed : Bool
  log : List HttpEvent
  deriving DecidableEq, Repr

/-- What can happen next. -/
inductive HttpOp where
  /-- The coroutine goes on from the head of its loop. -/
  | runCo
  /-- A request is read; `open_` is what opening a file gives. -/
  | request (req : Request) (open_ : OpenResult)
  | readFails
  | handled (result : HandleResult)
  | written
  /-- The write ends with an error of the socket, or of the file that it reads. -/
  | writeFails
  | bodyFails
  | timerExpires
  | shutdown
  deriving DecidableEq, Repr

namespace HttpSession

/-- A session after `Start`. -/
def started : HttpSession := ⟨true, false, false, .head, false, []⟩

def shutdown (s : HttpSession) : HttpSession := { s with isStarted := false }

/-- A caught exception, or the end, of the loop. -/
def exit (s : HttpSession) : HttpSession := { s.shutdown with co := .exited }

/-- The response goes into `async_write`. -/
def respond (s : HttpSession) (rsp : Response) : HttpSession :=
  { s with closeConnectFlag := rsp.needEof, co := .writing rsp }

def runCo (s : HttpSession) : HttpSession :=
  match s.co with
  | .head => if s.isStarted && !s.closeConnectFlag then { s with co := .reading } else s.exit
  | _ => s

/-- The processing of a request up to the next suspension. -/
def process (docRoot : Bytes) (hasHandle : Bytes → Bool) (s : HttpSession) (req : Request)
    (open_ : OpenResult) : HttpSession :=
  match route docRoot hasHandle req with
  | .respond rsp => s.respond rsp
  | .handle _ => { s with co := .handling req }
  | .file opened path => s.respond (fileResponse req (opened.getD []) path open_)

def request (docRoot : Bytes) (hasHandle : Bytes → Bool) (s : HttpSession) (req : Request)
    (open_ : OpenResult) : HttpSession :=
  match s.co with
  | .reading =>
    process docRoot hasHandle { s with tickHasData := true, log := s.log ++ [.read req] } req open_
  | _ => s

/-- An exception that is not caught ends the coroutine without `Shutdown`. -/
def handled (s : HttpSession) (result : HandleResult) : HttpSession :=
  match s.co with
  | .handling req =>
    match handleResponse req result with
    | some rsp => s.respond rsp
    | none => { s with co := .exited }
  | _ => s

/-- The file of a response cannot be read. -/
def unreadable (rsp : Response) : Bool :=
  match rsp.body with
  | .file _ readable => !readable
  | _ => false

def written (s : HttpSession) : HttpSession :=
  match s.co with
  | .writing rsp =>
    if unreadable rsp then s else { s with co := .head, log := s.log ++ [.wrote rsp] }
  | _ => s

def writeFails (s : HttpSession) : HttpSession :=
  match s.co with
  | .writing _ => { s.exit with writeFailed := true }
  | _ => s

def bodyFails (s : HttpSession) : HttpSession :=
  match s.co with
  | .writing rsp => if unreadable rsp then s.exit else s
  | _ => s

/-- The timer coroutine when its timer expires. -/
def timerExpires (s : HttpSession) : HttpSession :=
  if s.isStarted = false then s
  else if s.tickHasData then { s with tickHasData := false }
  else s.shutdown

def step (docRoot : Bytes) (hasHandle : Bytes → Bool) (s : HttpSession) : HttpOp → HttpSession
  | .runCo => s.runCo
  | .request req open_ => s.request docRoot hasHandle req open_
  | .readFails => if s.co = .reading then s.exit else s
  | .handled result => s.handled result
  | .written => s.written
  | .writeFails => s.writeFails
  | .bodyFails => s.bodyFails
  | .timerExpires => s.timerExpires
  | .shutdown => s.shutdown

/-- One request after the other, each with its response behind it, and nothing behind a response that
closes the connection. -/
def inOrder : List HttpEvent → Bool
  | [] => true
  | [.read _] => true
  | .read _ :: .wrote rsp :: log => (!rsp.needEof || log.isEmpty) && inOrder log
  | _ => false

/-- The requests are answered in order, once each: a request without a response is still being served,
or the socket has failed while its response was written. -/
structure Holds (s : HttpSession) : Prop where
  inOrder : inOrder s.log
  answered : ∀ {req}, s.log.getLast? = some (.read req) →
    s.co = .handling req ∨ (∃ rsp, s.co = .writing rsp) ∨ s.writeFailed

/-- The handle of a request throws nothing but a `std::exception`, and the file of a response can be
read. -/
def Meets (s : HttpSession) : HttpOp → Prop
  | .handled result => (∃ req, s.co = .handling req) → result ≠ .throwsOther
  | .bodyFails => ∀ rsp, s.co = .writing rsp → unreadable rsp = false
  | _ => True

/-- All steps of a run meet the condition. -/
def AllMeet (docRoot : Bytes) (hasHandle : Bytes → Bool) (s : HttpSession) (ops : List HttpOp) : Prop :=
  Run.AllMeet (step docRoot hasHandle) Meets s ops

/-- All states of a run hold. -/
def AllHold (docRoot : Bytes) (hasHandle : Bytes → Bool) (s : HttpSession) (ops : List HttpOp) : Prop :=
  Run.AllHold (step docRoot hasHandle) Holds s ops

/-! ### The invariant -/

/-- What may follow a request alone may follow it behind a log. -/
theorem inOrder_append {log log' : List HttpEvent} {req : Request}
    (h : inOrder (log ++ [HttpEvent.read req])) (h' : inOrder (HttpEvent.read req :: log')) :
    inOrder (log ++ .read req :: log') := by
  fun_induction inOrder log with
  | case1 => exact h'
  | case2 => simp [inOrder] at h
  | case3 req' rsp' log ih =>
    simp only [List.cons_append, inOrder, Bool.and_eq_true] at h ⊢
    exact ⟨by simpa using h.1, ih h.2⟩
  | case4 log hnil hread hpair =>
    match log with
    | [] => exact absurd rfl hnil
    | .wrote _ :: _ => simp [inOrder] at h
    | [.read _] => exact absurd rfl (hread _)
    | .read _ :: .wrote _ :: _ => exact absurd rfl (hpair _ _ _)
    | .read _ :: .read _ :: _ => simp [inOrder] at h

/-- What holds where the coroutine stands. -/
def Stands (s : HttpSession) : HttpCo → Prop
  | .head => (∀ req, s.log.getLast? ≠ some (.read req)) ∧
    (s.closeConnectFlag = false → ∀ req, inOrder (s.log ++ [.read req]))
  | .reading => (∀ req, s.log.getLast? ≠ some (.read req)) ∧ ∀ req, inOrder (s.log ++ [.read req])
  | .handling req => s.log.getLast? = some (.read req)
  | .writing rsp => s.closeConnectFlag = rsp.needEof ∧ ∃ req, s.log.getLast? = some (.read req)
  | .exited => ∀ req, s.log.getLast? = some (.read req) → s.writeFailed

/-- What holds in every state of a run whose steps meet the condition. -/
structure Inv (s : HttpSession) : Prop where
  order : inOrder s.log
  stands : s.Stands s.co
  failed : s.writeFailed → s.co = .exited

variable {s : HttpSession} {docRoot : Bytes} {hasHandle : Bytes → Bool}

theorem inv_started : started.Inv where
  order := rfl
  stands := ⟨fun _ h => (by cases h), fun _ _ => rfl⟩
  failed h := by cases h

theorem Inv.standsAt (h : s.Inv) {co : HttpCo} (hco : s.co = co) : s.Stands co := hco ▸ h.stands

theorem Inv.holds (h : s.Inv) : s.Holds where
  inOrder := h.order
  answered {req} hlast := by
    cases hco : s.co with
    | head => exact absurd hlast ((h.standsAt hco).1 req)
    | reading => exact absurd hlast ((h.standsAt hco).1 req)
    | handling req' =>
      cases hlast.symm.trans (h.standsAt hco)
      exact .inl rfl
    | writing rsp => exact .inr (.inl ⟨rsp, rfl⟩)
    | exited => exact .inr (.inr (h.standsAt hco req hlast))

theorem Inv.writeFailed_eq (h : s.Inv) (hco : s.co ≠ .exited) : s.writeFailed = false :=
  Bool.eq_false_iff.2 fun hfailed => hco (h.failed hfailed)

/-- A session that runs no more stands where it stood. -/
theorem Inv.shutdown (h : s.Inv) : s.shutdown.Inv where
  order := h.order
  stands := h.stands
  failed := h.failed

/-- The coroutine ends where no request waits for its response. -/
theorem Inv.exit (h : s.Inv) (hlast : ∀ req, s.log.getLast? ≠ some (.read req)) : s.exit.Inv where
  order := h.order
  stands := fun req hreq => absurd hreq (hlast req)
  failed := fun _ => rfl

theorem Inv.runCo (h : s.Inv) : s.runCo.Inv := by
  unfold HttpSession.runCo
  split
  next hco =>
    obtain ⟨hlast, hready⟩ := h.standsAt hco
    have hfailed := h.writeFailed_eq (hco ▸ HttpCo.noConfusion)
    split
    next hopen =>
      rw [Bool.and_eq_true, Bool.not_eq_true'] at hopen
      exact ⟨h.order, ⟨hlast, hready hopen.2⟩, fun hf => by simp [hfailed] at hf⟩
    · exact h.exit hlast
  · exact h

/-- A response goes into the write while the last request waits for it. -/
theorem inv_respond (hlog : inOrder s.log) {req : Request} (hlast : s.log.getLast? = some (.read req))
    (hfailed : s.writeFailed = false) (rsp : Response) : (s.respond rsp).Inv where
  order := hlog
  stands := ⟨rfl, req, hlast⟩
  failed hf := by simp [HttpSession.respond, hfailed] at hf

/-- A request that has been read is served. -/
theorem inv_process (hlog : inOrder s.log) {req : Request} (hlast : s.log.getLast? = some (.read req))
    (hfailed : s.writeFailed = false) (open_ : OpenResult) :
    (s.process docRoot hasHandle req open_).Inv := by
  unfold HttpSession.process
  split
  · exact inv_respond hlog hlast hfailed _
  · exact ⟨hlog, hlast, fun hf => by simp [hfailed] at hf⟩
  · exact inv_respond hlog hlast hfailed _

theorem Inv.request (h : s.Inv) (req : Request) (open_ : OpenResult) :
    (s.request docRoot hasHandle req open_).Inv := by
  unfold HttpSession.request
  split
  next hco =>
    obtain ⟨-, hready⟩ := h.standsAt hco
    have hfailed := h.writeFailed_eq (hco ▸ HttpCo.noConfusion)
    refine inv_process ?_ ?_ ?_ open_
    · exact hready req
    · exact List.getLast?_concat
    · exact hfailed
  · exact h

theorem handleResponse_eq_none {req : Request} {result : HandleResult} :
    handleResponse req result = none ↔ result = .throwsOther := by
  cases result with
  | returns status rsp => cases status <;> simp [handleResponse, errInfo]
  | throws what rsp => simp [handleResponse, errInfo]
  | throwsOther => simp [handleResponse, errInfo]

theorem Inv.handled (h : s.Inv) {result : HandleResult} (hmeets : s.Meets (.handled result)) :
    (s.handled result).Inv := by
  unfold HttpSession.handled
  split
  next req hco =>
    split
    · exact inv_respond h.order (h.standsAt hco) (h.writeFailed_eq (hco ▸ HttpCo.noConfusion)) _
    next hnone => exact absurd (handleResponse_eq_none.1 hnone) (hmeets ⟨req, hco⟩)
  · exact h

/-- The response is written behind its request. -/
theorem Inv.written (h : s.Inv) : s.written.Inv := by
  unfold HttpSession.written
  split
  next rsp hco =>
    split
    · exact h
    obtain ⟨hflag, req, hlast⟩ := h.standsAt hco
    have hfailed := h.writeFailed_eq (hco ▸ HttpCo.noConfusion)
    obtain ⟨log, hlog⟩ : ∃ log, s.log = log ++ [HttpEvent.read req] := by
      refine ⟨s.log.dropLast, (List.dropLast_append_getLast? _ ?_).symm⟩
      rw [hlast]
      rfl
    have horder : inOrder (log ++ [HttpEvent.read req]) := hlog ▸ h.order
    refine ⟨?_, ⟨fun req' => ?_, fun hopen req' => ?_⟩, fun hf => by simp [hfailed] at hf⟩
    · rw [hlog, List.append_assoc]
      exact inOrder_append horder (by simp [inOrder])
    · rw [List.getLast?_concat]
      exact fun hread => by cases hread
    · rw [hlog, List.append_assoc, List.append_assoc]
      exact inOrder_append horder (by simp [inOrder, ← hflag, show s.closeConnectFlag = false from hopen])
  · exact h

theorem Inv.step (h : s.Inv) {op : HttpOp} (hmeets : s.Meets op) :
    (s.step docRoot hasHandle op).Inv := by
  cases op with
  | runCo => exact h.runCo
  | request req open_ => exact h.request req open_
  | readFails =>
    dsimp only [HttpSession.step]
    split
    next hco => exact h.exit (h.standsAt hco).1
    · exact h
  | handled result => exact h.handled hmeets
  | written => exact h.written
  | writeFails =>
    dsimp only [HttpSession.step, HttpSession.writeFails]
    split
    · exact ⟨h.order, fun _ _ => rfl, fun _ => rfl⟩
    · exact h
  | bodyFails =>
    dsimp only [HttpSession.step, HttpSession.bodyFails]
    split
    next rsp hco => rwa [hmeets rsp hco, if_neg Bool.false_ne_true]
    · exact h
  | timerExpires =>
    dsimp only [HttpSession.step, HttpSession.timerExpires]
    split
    · exact h
    · split
      · exact ⟨h.order, h.stands, h.failed⟩
      · exact h.shutdown
  | shutdown => exact h.shutdown

/-- A coroutine that ends without a write leaves the last request without a response. -/
theorem not_holds_of_exited (hco : s.co = .exited) (hfailed : s.writeFailed = false) {req : Request}
    (hlast : s.log.getLast? = some (.read req)) : ¬ s.Holds := by
  intro hholds
  rcases hholds.answered hlast with hhandling | ⟨rsp, hwriting⟩ | hwrite
  · cases hco.symm.trans hhandling
  · cases hco.symm.trans hwriting
  · rw [hfailed] at hwrite
    cases hwrite

theorem Inv.meets_of_holds (h : s.Inv) {op : HttpOp} (hholds : (s.step docRoot hasHandle op).Holds) :
    s.Meets op := by
  cases op with
  | handled result =>
    rintro ⟨req, hco⟩ rfl
    have hfailed := h.writeFailed_eq (hco ▸ HttpCo.noConfusion)
    have hstep : s.handled .throwsOther = { s with co := .exited } := by
      simp [HttpSession.handled, hco, handleResponse, errInfo]
    rw [HttpSession.step, hstep] at hholds
    exact absurd hholds (not_holds_of_exited rfl hfailed (h.standsAt hco))
  | bodyFails =>
    intro rsp hco
    by_contra hreadable
    rw [Bool.not_eq_false] at hreadable
    have hfailed := h.writeFailed_eq (hco ▸ HttpCo.noConfusion)
    obtain ⟨-, req, hlast⟩ := h.standsAt hco
    have hstep : s.bodyFails = s.exit := by
      simp [HttpSession.bodyFails, hco, hreadable]
    rw [HttpSession.step, hstep] at hholds
    exact absurd hholds (not_holds_of_exited rfl hfailed hlast)
  | _ => trivial

/-- **When every request is answered, in order and once**, in all states of a run: no handle throws
what is not a `std::exception`, and every file that is sent can be read. -/
theorem answered_iff (docRoot : Bytes) (hasHandle : Bytes → Bool) (ops : List HttpOp) :
    started.AllHold docRoot hasHandle ops ↔ started.AllMeet docRoot hasHandle ops :=
  Run.allHold_iff_allMeet Inv Inv.holds Inv.step Inv.meets_of_holds inv_started ops

/-- A directory of the document root is asked for without a slash at the end of its path: it is opened,
and cannot be read. -/
theorem not_answered : ¬ started.AllHold (ascii "./www") (fun _ => false) [.runCo,
    .request ⟨.get, ascii "/a", true⟩ (.opened 4096 false), .bodyFails] := by
  rintro ⟨-, -, -, hholds⟩
  exact absurd hholds (@not_holds_of_exited _ (by decide) (by decide) ⟨.get, ascii "/a", true⟩ (by decide))

end HttpSession

end AimRT.Net.HttpServer

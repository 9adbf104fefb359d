import AimRT.Grpc.GrpcRpcBackend

/-!
# The grpc server

The loop of a connection gives every full request to the handle of its path, in a coroutine of its own,
and the coroutine submits the response when the handle has returned.  The coroutine is detached: an
exception of the handle ends it without a response.  Nothing but the status OK returns from a handle.

A request without a handle is answered by the loop itself.  `nghttp2_submit_response` is
`Code.invoke`, with the request whose stream is answered.
-/

namespace AimRT.Grpc

open AimRT.Lib AimRT.Util AimRT.Rpc

variable {C : Type}

/-! ### Requests -/

/-- A request; the name of a header is there only once. -/
structure Http2Request where
  streamId : Int32
  method : Bytes
  protocol : Bytes
  path : Bytes
  headers : Context
  body : Bytes

structure Http2Response where
  streamId : Int32
  httpStatus : ℕ := 200
  headers : Context := ∅
  trailers : Context := ∅
  body : Bytes := []

/-- `emplace` of a header or a trailer: the first one of a name stays. -/
def addHeader (headers : Context) (name value : Bytes) : Context :=
  if headers.lookup name = none then headers.insert name value else headers

def Http2Response.write (rsp : Http2Response) (data : Bytes) : Http2Response :=
  { rsp with body := rsp.body ++ data }

def Http2Response.addTrailer (rsp : Http2Response) (name value : Bytes) : Http2Response :=
  { rsp with trailers := addHeader rsp.trailers name value }

def kGrpcMessagePrefixSize : ℕ := 5

/-- No value where a check throws. -/
def checkGrpcMessageBody (body : Bytes) : Option Unit := do
  let bodyPrefix ← parseGrpcMessagePrefix body
  guard (bodyPrefix.compressionFlag = 0)
  guard (body.length = kGrpcMessagePrefixSize + bodyPrefix.messageLength.toNat)

def checkGrpcReqHeaders (req : Http2Request) : Option Unit := do
  let te ← req.headers.lookup (ascii "te")
  guard (te = ascii "trailers")
  guard (req.method = ascii "POST")
  guard (req.protocol = ascii "http")

/-- `kContentTypeToSerializationTypeMap`. -/
def contentTypeToSerializationType (contentType : Bytes) : Option Bytes :=
  if contentType = ascii "application/grpc+json" then some (ascii "json")
  else if contentType = ascii "application/grpc+json charset=utf-8" then some (ascii "json")
  else if contentType = ascii "application/grpc" then some (ascii "pb")
  else if contentType = ascii "application/grpc+proto" then some (ascii "pb")
  else if contentType = ascii "application/grpc+ros2" then some (ascii "ros2")
  else none

/-- `nanoseconds::max()`. -/
def kDefaultTimeout : ℤ := 2 ^ 63 - 1

/-- The nanoseconds of the unit `H`, `M`, `S`, `m`, `u` or `n`. -/
def timeoutUnit (unit : UInt8) : Option ℤ :=
  if unit = 72 then some (3600 * 10 ^ 9)
  else if unit = 77 then some (60 * 10 ^ 9)
  else if unit = 83 then some (10 ^ 9)
  else if unit = 109 then some (10 ^ 6)
  else if unit = 117 then some (10 ^ 3)
  else if unit = 110 then some 1
  else none

def isdigit (c : UInt8) : Bool := 48 ≤ c && c ≤ 57

def ofDecimal (digits : Bytes) : ℕ := digits.foldl (fun n c => 10 * n + (c.toNat - 48)) 0

/-- `ParseTimeout`: digits and a unit.  `stoll` throws for what is no `int64_t`; the nanoseconds of what
is one are taken modulo `2 ^ 64`. -/
def parseTimeout (timeoutStr : Bytes) : Option (Option ℤ) :=
  let digits := timeoutStr.dropLast
  match timeoutStr.getLast?.bind timeoutUnit with
  | none => some none
  | some ns =>
    if digits ≠ [] ∧ digits.all isdigit then
      if ofDecimal digits < 2 ^ 63 then some (some (Int.bmod (ofDecimal digits * ns) (2 ^ 64)))
      else none
    else some none

/-- The part of the handle in front of the deserialization: the context of the service and its
timeout. -/
def serverCtx (name funcName : Bytes) (req : Http2Request) : Option (Context × ℤ) := do
  checkGrpcReqHeaders req
  checkGrpcMessageBody req.body
  let contentType ← req.headers.lookup (ascii "content-type")
  let serializationType ← contentTypeToSerializationType contentType
  let ctx := Context.setMetaValue ∅ kSerializationType serializationType
  let ctx := ctx.setMetaValues req.headers.entries
  let ctx := (ctx.setMetaValue kFunctionName funcName).setMetaValue kBackend name
  match req.headers.lookup (ascii "grpc-timeout") with
  | none => return (ctx, kDefaultTimeout)
  | some timeoutStr =>
    let timeoutNs ← parseTimeout timeoutStr
    return (ctx, timeoutNs.getD kDefaultTimeout)

/-! ### The handle -/

/-- How the wait for the service ends; the callback of the service cancels it. -/
inductive WaitResult where
  | expired
  | operationAborted
  | failed
  deriving DecidableEq, Repr

/-- What a request asks outside code: the deserialization, which may throw, the status with which the
service calls its callback, the serialization, and whether its stream is open when it is answered. -/
inductive ServerQuery (C : Type) where
  | deserializeReq (c : C) (serializationType buf : Bytes)
  | serviceFunc (c : C) (ctx : Context) (timeout : ℤ)
  | trySerializeRsp (c : C) (serializationType : Bytes)
  | asyncWait (c : C)
  | findStream (c : C)

abbrev ServerAnswer : ServerQuery C → Type
  | .deserializeReq .. => Option Bool
  | .serviceFunc .. => Status
  | .trySerializeRsp .. => Option (List Bytes)
  | .asyncWait _ => WaitResult
  | .findStream _ => Bool

abbrev ServerCode (C α : Type) := Code C Empty Http2Response (@ServerAnswer C) α

/-- The callback of the service: the `ret_code`, and what it has written into the response. -/
def serviceCallback (c : C) (serializationType : Bytes) (rsp : Http2Response) (status : Status) :
    ServerCode C (Status × Http2Response) := do
  if status ≠ .ok then return (status, rsp)
  else
    match ← Code.ask (ServerQuery.trySerializeRsp c serializationType) with
    | none => return (.svrSerializationFailed, rsp)
    | some bufferArray =>
      let rspPrefix := encodeGrpcMessagePrefix ⟨0, UInt32.ofNat bufferArray.flatten.length⟩
      let rsp := (rsp.write rspPrefix).write bufferArray.flatten
      return (.ok, rsp.addTrailer (ascii "grpc-status") (ascii "0"))

/-- The `http_handle` of the service function `funcName`. -/
def httpHandle (name funcName : Bytes) (c : C) (req : Http2Request) (rsp : Http2Response) :
    ServerCode C Http2Response := do
  let (ctx, timeout) ← Code.orThrow (serverCtx name funcName req)
  let serializationType := ctx.getMetaValue kSerializationType
  let buf := req.body.drop kGrpcMessagePrefixSize
  let deserializeRet ← Code.orThrow
    (← Code.ask (ServerQuery.deserializeReq c serializationType buf))
  if deserializeRet = false then Code.throw
  else
    let status ← Code.ask (ServerQuery.serviceFunc c ctx timeout)
    let (retCode, rsp) ← serviceCallback c serializationType rsp status
    let wait ← Code.ask (ServerQuery.asyncWait c)
    let retCode := if wait = WaitResult.failed then .svrBackendInternalError else retCode
    if retCode ≠ .ok then Code.throw else return rsp

/-! ### The connection -/

/-- The registered handles, each a pattern and a function, and `regex_match`. -/
structure GrpcServer where
  remoteAddr : Bytes
  httpHandleList : List (Bytes × Bytes)
  regexMatch : (pattern path : Bytes) → Bool

/-- The function whose handle is the first that matches. -/
def GrpcServer.getHttpHandle (b : GrpcServer) (path : Bytes) : Option Bytes :=
  (b.httpHandleList.find? fun handle => b.regexMatch handle.1 path).map Prod.snd

/-- `SubmitResponse`: a stream that is closed is not answered. -/
def submitResponse (c : C) (rsp : Http2Response) : ServerCode C Unit := do
  if ← Code.ask (ServerQuery.findStream c) then
    Code.invoke c rsp

/-- The body of the loop over the full requests. -/
def GrpcServer.serve (b : GrpcServer) (c : C) (req : Http2Request) : ServerCode C Unit :=
  let rsp : Http2Response :=
    { streamId := req.streamId
      headers := addHeader ∅ (ascii "content-type") (ascii "application/grpc") }
  match b.getHttpHandle req.path with
  | none => submitResponse c ({ rsp with httpStatus := 404 }.write (ascii "Not Found"))
  | some funcName =>
    let req := { req with headers := addHeader req.headers (ascii "Remote-Endpoint") b.remoteAddr }
    Code.spawn do
      let rsp ← httpHandle (ascii "grpc") funcName c req rsp
      submitResponse c rsp

/-- The requests of a connection; no two streams have one id. -/
structure Requests (C : Type) where
  req : C → Http2Request
  streamId_injective : Function.Injective fun c => (req c).streamId

def GrpcServer.system (b : GrpcServer) (reqs : Requests C) :
    System C Empty Http2Response (@ServerAnswer C) Empty where
  invoke := fun c => b.serve c (reqs.req c)
  handle := nofun

/-- The full requests of the session, those that the loop has still to go through, and the coroutines
of the others. -/
structure Connection (C : Type) where
  fullRequestList : List C
  batch : List C
  pool : Pool C Empty Http2Response (@ServerAnswer C)

inductive ConnectionEvent (C : Type) where
  | onFullRequest (c : C)
  | getFullRequestList
  | serve
  | run (i : ℕ) (f : ∀ q : ServerQuery C, ServerAnswer q)

/-- Outside code gives the answers `f`. -/
def ConnectionEvent.Answers (f : ∀ q : ServerQuery C, ServerAnswer q) : ConnectionEvent C → Prop
  | .run _ g => ∀ q, g q = f q
  | _ => True

namespace Connection

def init : Connection C := ⟨[], [], .init⟩

def received (s : Connection C) : List C := s.fullRequestList ++ s.batch ++ s.pool.started

/-- The responses that are submitted to the session. -/
def submitted (s : Connection C) : List Http2Response := s.pool.shared.completions.map Prod.snd

/-- Nothing left to do. -/
structure Settled (s : Connection C) : Prop where
  fullRequestList : s.fullRequestList = []
  batch : s.batch = []
  quiescent : s.pool.Quiescent

/-- No stream gets two responses, and when nothing is left to do every request has one. -/
structure Answered (s : Connection C) (reqs : Requests C) : Prop where
  nodup : (s.submitted.map Http2Response.streamId).Nodup
  answered : s.Settled → ∀ c ∈ s.received,
    (reqs.req c).streamId ∈ s.submitted.map Http2Response.streamId

variable [DecidableEq C]

/-- The loop goes to the next requests when it is through with the last ones.  The response of a
request without a handle is a step of its own, so that here the loop need not wait for it. -/
def step (b : GrpcServer) (reqs : Requests C) (s : Connection C) :
    ConnectionEvent C → Option (Connection C)
  | .onFullRequest c =>
    if c ∈ s.received then none else some { s with fullRequestList := c :: s.fullRequestList }
  | .getFullRequestList =>
    if s.batch = [] then some { s with fullRequestList := [], batch := s.fullRequestList } else none
  | .serve =>
    match s.batch with
    | [] => none
    | c :: batch => do
      let pool ← s.pool.step (b.system reqs) (.start c)
      return { s with batch := batch, pool := pool }
  | .run i f => do
    let pool ← s.pool.step (b.system reqs) (.run i f)
    return { s with pool := pool }

def run (b : GrpcServer) (reqs : Requests C) :
    Connection C → List (ConnectionEvent C) → Option (Connection C)
  | s, [] => some s
  | s, e :: es => do
    let s ← s.step b reqs e
    run b reqs s es

end Connection

/-! ### What a coroutine does -/

variable {b : GrpcServer} {reqs : Requests C} {f : ∀ q : ServerQuery C, ServerAnswer q} {c : C}
  {name funcName : Bytes} {req : Http2Request} {rsp : Http2Response}

/-- The handle returns: its checks hold, the request deserializes, and the service ends with the status
OK and a response that serializes. -/
def Returns (f : ∀ q : ServerQuery C, ServerAnswer q) (name funcName : Bytes) (c : C)
    (req : Http2Request) : Prop :=
  ∃ ctx timeout, serverCtx name funcName req = some (ctx, timeout) ∧
    f (.deserializeReq c (ctx.getMetaValue kSerializationType)
      (req.body.drop kGrpcMessagePrefixSize)) = some true ∧
    f (.serviceFunc c ctx timeout) = Status.ok ∧
    (f (.trySerializeRsp c (ctx.getMetaValue kSerializationType))).isSome ∧
    f (.asyncWait c) ≠ WaitResult.failed

/-- The stream is open when it is answered, and the handle of the request returns if it has one. -/
structure GrpcServer.Answers (b : GrpcServer) (f : ∀ q : ServerQuery C, ServerAnswer q) (c : C)
    (req : Http2Request) : Prop where
  findStream : f (.findStream c) = true
  returns : ∀ funcName, b.getHttpHandle req.path = some funcName →
    Returns f (ascii "grpc") funcName c
      { req with headers := addHeader req.headers (ascii "Remote-Endpoint") b.remoteAddr }

/-- Outside code gives the answers `f`, and responses go to the stream of their request. -/
def submits (reqs : Requests C) (f : ∀ q : ServerQuery C, ServerAnswer q) :
    Contract C Empty Http2Response (@ServerAnswer C) Empty where
  answer := fun q a => a = f q
  message := fun _ => True
  record := fun _ _ => True
  status := fun c rsp => rsp.streamId = (reqs.req c).streamId

theorem keeps_submitResponse (hfind : f (.findStream c) = true)
    (hid : rsp.streamId = (reqs.req c).streamId) :
    (submitResponse c rsp).toThread.Keeps (submits reqs f) { owes := some c } := by
  rintro found rfl
  rw [hfind]
  exact ⟨rfl, hid, rfl, rfl, rfl⟩

theorem silent_submitResponse (hfind : f (.findStream c) ≠ true) :
    (submitResponse c rsp).toThread.Silent f := by
  show Thread.Silent f ((if f (.findStream c) then Code.invoke c rsp else pure ()) _ _)
  rw [if_neg hfind]
  trivial

theorem keeps_httpHandle {d : Duty C Empty} {k : Http2Response → Thread C Empty Http2Response _}
    {h : Thread C Empty Http2Response _} (hreturns : Returns f name funcName c req)
    (hk : ∀ rsp', rsp'.streamId = rsp.streamId → (k rsp').Keeps (submits reqs f) d) :
    (httpHandle name funcName c req rsp k h).Keeps (submits reqs f) d := by
  obtain ⟨ctx, timeout, hctx, hdeserialize, hstatus, hserialize, hwait⟩ := hreturns
  unfold httpHandle
  rw [hctx]
  rintro deserializeRet rfl
  rw [hdeserialize]
  rintro status rfl
  rw [hstatus]
  rintro buf rfl
  obtain ⟨bufferArray, hbuf⟩ := Option.isSome_iff_exists.1 hserialize
  rw [hbuf]
  rintro wait rfl
  dsimp only
  rw [if_neg hwait]
  exact hk _ rfl

/-- Behind the wait the handle returns where `ret_code` is zero and the wait has not failed. -/
theorem silent_wait {k : Http2Response → Thread C Empty Http2Response _} {retCode : Status}
    (hk : retCode = .ok → f (.asyncWait c) ≠ WaitResult.failed → (k rsp).Silent f) :
    ((do
      let wait ← Code.ask (ServerQuery.asyncWait c)
      let retCode := if wait = WaitResult.failed then .svrBackendInternalError else retCode
      if retCode ≠ .ok then Code.throw else return rsp : ServerCode C Http2Response) k .done).Silent
        f := by
  show Thread.Silent f ((if (if f (.asyncWait c) = WaitResult.failed then
    Status.svrBackendInternalError else retCode) ≠ .ok then Code.throw else pure rsp) k .done)
  by_cases hwait : f (.asyncWait c) = WaitResult.failed
  · rw [if_pos hwait]
    trivial
  rw [if_neg hwait]
  by_cases hret : retCode = .ok
  · rw [if_neg (not_not_intro hret)]
    exact hk hret hwait
  · rw [if_pos hret]
    trivial

theorem silent_httpHandle {k : Http2Response → Thread C Empty Http2Response _}
    (hk : Returns f name funcName c req → ∀ rsp', (k rsp').Silent f) :
    (httpHandle name funcName c req rsp k .done).Silent f := by
  unfold httpHandle
  cases hctx : serverCtx name funcName req with
  | none => trivial
  | some p =>
    obtain ⟨ctx, timeout⟩ := p
    show Thread.Silent f ((Code.orThrow (f (.deserializeReq c (ctx.getMetaValue kSerializationType)
      (req.body.drop kGrpcMessagePrefixSize))) >>= _) k .done)
    cases hdeserialize : f (.deserializeReq c (ctx.getMetaValue kSerializationType)
      (req.body.drop kGrpcMessagePrefixSize)) with
    | none => trivial
    | some deserializeRet =>
      cases deserializeRet with
      | false => trivial
      | true =>
        show Thread.Silent f ((serviceCallback c (ctx.getMetaValue kSerializationType) rsp
          (f (.serviceFunc c ctx timeout)) >>= _) k .done)
        unfold serviceCallback
        by_cases hstatus : f (.serviceFunc c ctx timeout) = Status.ok
        · rw [if_neg (not_not_intro hstatus), Code.bind_apply, Code.bind_apply, Code.ask,
            Thread.Silent]
          cases hserialize : f (.trySerializeRsp c (ctx.getMetaValue kSerializationType)) with
          | none => exact silent_wait fun h => absurd h (by decide)
          | some bufferArray =>
            refine silent_wait fun _ hwait => hk ?_ _
            exact ⟨ctx, timeout, hctx, hdeserialize, hstatus, by rw [hserialize]; rfl, hwait⟩
        · rw [if_pos hstatus]
          exact silent_wait fun h => absurd h hstatus

/-- A request that is to be answered keeps the duty to answer it. -/
theorem keeps_serve (h : b.Answers f c (reqs.req c)) :
    (b.serve c (reqs.req c)).toThread.Keeps (submits reqs f) { owes := some c } := by
  unfold GrpcServer.serve
  cases hhandle : b.getHttpHandle (reqs.req c).path with
  | none => exact keeps_submitResponse h.findStream rfl
  | some funcName =>
    refine ⟨_, _, .owes, keeps_httpHandle (h.returns funcName hhandle) fun rsp' hid => ?_,
      rfl, rfl, rfl⟩
    exact keeps_submitResponse h.findStream hid

theorem silent_serve (h : ¬ b.Answers f c req) : (b.serve c req).toThread.Silent f := by
  unfold GrpcServer.serve
  by_cases hfind : f (.findStream c) = true
  · cases hhandle : b.getHttpHandle req.path with
    | none =>
      refine absurd ⟨hfind, fun funcName hsome => ?_⟩ h
      rw [hhandle] at hsome
      cases hsome
    | some funcName =>
      refine ⟨silent_httpHandle fun hreturns => ?_, trivial⟩
      refine absurd ⟨hfind, fun funcName' hsome => ?_⟩ h
      rw [hhandle] at hsome
      obtain rfl := Option.some.inj hsome
      exact hreturns
  · cases b.getHttpHandle req.path with
    | none => exact silent_submitResponse hfind
    | some funcName => exact ⟨silent_httpHandle fun _ _ => silent_submitResponse hfind, trivial⟩

/-! ### Runs of a connection -/

namespace Connection

variable [DecidableEq C] {s s' : Connection C} {e : ConnectionEvent C}
  {events events' : List (ConnectionEvent C)}

theorem run_append (hrun : s.run b reqs events = some s') :
    s.run b reqs (events ++ events') = s'.run b reqs events' := by
  induction events generalizing s with
  | nil =>
    obtain rfl := Option.some.inj hrun
    rfl
  | cons e events ih =>
    obtain ⟨s₁, hstep, hrun⟩ := Option.bind_eq_some_iff.1 hrun
    rw [List.cons_append, run, hstep]
    exact ih hrun

/-- What an event can do. -/
theorem step_cases (hstep : s.step b reqs e = some s') :
    (∃ c, e = .onFullRequest c ∧ c ∉ s.received ∧ s' = { s with fullRequestList := c :: s.fullRequestList }) ∨
    (e = .getFullRequestList ∧ s.batch = [] ∧ s' = { s with fullRequestList := [], batch := s.fullRequestList }) ∨
    (∃ c batch pool, e = .serve ∧ s.batch = c :: batch ∧ s.pool.step (b.system reqs) (.start c) = some pool ∧
      s' = { s with batch := batch, pool := pool }) ∨
    ∃ i g pool, e = .run i g ∧ s.pool.step (b.system reqs) (.run i g) = some pool ∧ s' = { s with pool := pool } := by
  cases e with
  | onFullRequest c =>
    rw [step] at hstep
    split at hstep
    · cases hstep
    next hc => exact .inl ⟨c, rfl, hc, (Option.some.inj hstep).symm⟩
  | getFullRequestList =>
    rw [step] at hstep
    split at hstep
    next hbatch => exact .inr (.inl ⟨rfl, hbatch, (Option.some.inj hstep).symm⟩)
    · cases hstep
  | serve =>
    rw [step] at hstep
    split at hstep
    · cases hstep
    next c batch hbatch =>
      obtain ⟨pool, hpool, hstep⟩ := Option.bind_eq_some_iff.1 hstep
      exact .inr (.inr (.inl ⟨c, batch, pool, rfl, hbatch, hpool, (Option.some.inj hstep).symm⟩))
  | run i g =>
    obtain ⟨pool, hpool, hstep⟩ := Option.bind_eq_some_iff.1 hstep
    exact .inr (.inr (.inr ⟨i, g, pool, rfl, hpool, (Option.some.inj hstep).symm⟩))

/-- An event is a move of the coroutines, or none. -/
theorem step_pool (he : e.Answers f) (hstep : s.step b reqs e = some s') :
    s'.pool = s.pool ∨ ∃ move, move.Allowed (submits reqs f) ∧
      s.pool.step (b.system reqs) move = some s'.pool := by
  obtain ⟨c, -, -, rfl⟩ | ⟨-, -, rfl⟩ | ⟨c, batch, pool, -, -, hpool, rfl⟩ | ⟨i, g, pool, rfl, hpool, rfl⟩ :=
    step_cases hstep
  · exact .inl rfl
  · exact .inl rfl
  · exact .inr ⟨.start c, trivial, hpool⟩
  · exact .inr ⟨.run i g, he, hpool⟩

theorem run_pool (hevents : ∀ e ∈ events, e.Answers f) (hrun : s.run b reqs events = some s') :
    ∃ moves, (∀ move ∈ moves, move.Allowed (submits reqs f)) ∧
      s.pool.run (b.system reqs) moves = some s'.pool := by
  induction events generalizing s with
  | nil =>
    obtain rfl := Option.some.inj hrun
    exact ⟨[], by simp, rfl⟩
  | cons e events ih =>
    obtain ⟨s₁, hstep, hrun⟩ := Option.bind_eq_some_iff.1 hrun
    obtain ⟨he, hevents⟩ := List.forall_mem_cons.1 hevents
    obtain ⟨moves, hmoves, hpool⟩ := ih hevents hrun
    rcases step_pool he hstep with heq | ⟨move, hmove, hmove'⟩
    · exact ⟨moves, hmoves, heq ▸ hpool⟩
    · refine ⟨move :: moves, List.forall_mem_cons.2 ⟨hmove, hmoves⟩, ?_⟩
      rw [Pool.run, hmove']
      exact hpool

theorem run_runs (schedule : List ℕ) {pool : Pool C Empty Http2Response (@ServerAnswer C)}
    (hrun : s.pool.run (b.system reqs) (schedule.map fun i => .run i f) = some pool) :
    s.run b reqs (schedule.map fun i => .run i f) = some { s with pool := pool } := by
  induction schedule generalizing s with
  | nil =>
    obtain rfl := Option.some.inj hrun
    rfl
  | cons i schedule ih =>
    obtain ⟨pool₁, hstep, hrun⟩ := Option.bind_eq_some_iff.1 hrun
    have hs : s.step b reqs (.run i f) = some { s with pool := pool₁ } := by
      rw [step, hstep]
      rfl
    rw [List.map_cons, run, hs]
    exact ih (s := { s with pool := pool₁ }) hrun

/-- If every request is to be answered, every run answers them. -/
theorem answered_of_run (h : ∀ c, b.Answers f c (reqs.req c))
    (hevents : ∀ e ∈ events, e.Answers f) (hrun : init.run b reqs events = some s) :
    s.Answered reqs := by
  have hsound : (b.system reqs).Sound (submits reqs f) := ⟨fun c => keeps_serve (h c), nofun⟩
  obtain ⟨moves, hmoves, hpool⟩ := run_pool hevents hrun
  obtain ⟨honce, hstatus⟩ := hsound.exactlyOnce hmoves hpool
  constructor
  · have hids : s.submitted.map Http2Response.streamId =
        (s.pool.shared.completions.map Prod.fst).map fun c => (reqs.req c).streamId := by
      rw [submitted, List.map_map, List.map_map]
      exact List.map_congr_left fun p hp => hstatus p hp
    rw [hids]
    exact honce.nodup.map reqs.streamId_injective
  · intro hsettled c hc
    rw [received, hsettled.fullRequestList, hsettled.batch] at hc
    obtain ⟨rsp, hrsp⟩ := honce.completed hsettled.quiescent c hc
    refine List.mem_map.2 ⟨rsp, List.mem_map.2 ⟨(c, rsp), hrsp, rfl⟩, ?_⟩
    exact hstatus _ hrsp

/-- A request that is not to be answered leaves a connection that has nothing left to do. -/
theorem exists_not_answered (h : ¬ b.Answers f c (reqs.req c)) :
    ∃ events s, (∀ e ∈ events, e.Answers f) ∧ init.run b reqs events = some s ∧
      ¬ s.Answered reqs := by
  have hsilent : ((b.system reqs).invoke c).toThread.Silent f := silent_serve h
  obtain ⟨schedule, pool, hrun, hquiescent, hstarted, hnone⟩ := Pool.exists_run_of_silent hsilent
  let s : Connection C := ⟨[], [], ⟨[((b.system reqs).invoke c).toThread], .init, [c]⟩⟩
  have hhead : init.run b reqs [.onFullRequest c, .getFullRequestList, .serve] = some s := by
    simp [run, step, init, received, Pool.step, Pool.init, s]
  refine ⟨_, _, ?_, (run_append hhead).trans (run_runs schedule hrun), fun hanswered => ?_⟩
  · intro e he
    rcases List.mem_append.1 he with he | he
    · simp only [List.mem_cons, List.not_mem_nil, or_false] at he
      rcases he with rfl | rfl | rfl <;> trivial
    · obtain ⟨i, -, rfl⟩ := List.mem_map.1 he
      exact fun _ => rfl
  · have hc : c ∈ received { s with pool := pool } := by
      show c ∈ pool.started
      rw [hstarted]
      exact List.mem_singleton_self c
    have hmem := hanswered.answered ⟨rfl, rfl, hquiescent⟩ c hc
    rw [submitted, hnone] at hmem
    cases hmem

/-! ### Progress -/

theorem nodup_step (h : s.received.Nodup) (hstep : s.step b reqs e = some s') :
    s'.received.Nodup := by
  obtain ⟨c, -, hc, rfl⟩ | ⟨-, hbatch, rfl⟩ | ⟨c, batch, pool, -, hbatch, hpool, rfl⟩ | ⟨i, g, pool, -, hpool, rfl⟩ :=
    step_cases hstep
  · exact List.nodup_cons.2 ⟨hc, h⟩
  · rw [received, hbatch, List.append_nil] at h
    exact h
  · rw [Pool.step] at hpool
    split at hpool
    · cases hpool
    · obtain rfl := Option.some.inj hpool
      have hperm : (s.fullRequestList ++ batch ++ c :: s.pool.started).Perm s.received := by
        rw [received, hbatch, List.append_assoc, List.append_assoc]
        exact List.Perm.append_left s.fullRequestList List.perm_middle
      exact hperm.nodup_iff.2 h
  · obtain ⟨t, ht, hpool⟩ := Option.bind_eq_some_iff.1 hpool
    obtain ⟨⟨ts, m⟩, hts, hpool⟩ := Option.bind_eq_some_iff.1 hpool
    obtain rfl := Option.some.inj hpool
    exact h

theorem nodup_run (h : s.received.Nodup) (hrun : s.run b reqs events = some s') :
    s'.received.Nodup := by
  induction events generalizing s with
  | nil =>
    obtain rfl := Option.some.inj hrun
    exact h
  | cons e events ih =>
    obtain ⟨s₁, hstep, hrun⟩ := Option.bind_eq_some_iff.1 hrun
    exact ih (nodup_step h hstep) hrun

/-- The loop gets through its batch. -/
theorem exists_run_serve (b : GrpcServer) (reqs : Requests C) (batch : List C)
    (hbatch : s.batch = batch) (h : s.received.Nodup) :
    ∃ s', s.run b reqs (batch.map fun _ => .serve) = some s' ∧
      s'.fullRequestList = s.fullRequestList ∧ s'.batch = [] := by
  induction batch generalizing s with
  | nil => exact ⟨s, rfl, rfl, hbatch⟩
  | cons c batch ih =>
    have hc : c ∉ s.pool.started := by
      rw [received, hbatch] at h
      exact fun hmem => (List.nodup_append.1 h).2.2 c (by simp) c hmem rfl
    obtain ⟨s₁, hstep⟩ : ∃ s₁, s.step b reqs .serve = some s₁ := by
      rw [step, hbatch]
      dsimp only
      rw [Pool.step, if_neg hc]
      exact ⟨_, rfl⟩
    have hs₁ : s₁.fullRequestList = s.fullRequestList ∧ s₁.batch = batch := by
      rw [step, hbatch] at hstep
      dsimp only at hstep
      rw [Pool.step, if_neg hc] at hstep
      obtain rfl := Option.some.inj hstep
      exact ⟨rfl, rfl⟩
    obtain ⟨s₂, hrun, hlist, hnil⟩ := ih hs₁.2 (nodup_step h hstep)
    refine ⟨s₂, ?_, hlist.trans hs₁.1, hnil⟩
    rw [List.map_cons, run, hstep]
    exact hrun

/-- **Progress.**  The loop and the coroutines of a connection get to where nothing is left to do. -/
theorem exists_settled (f : ∀ q : ServerQuery C, ServerAnswer q)
    (hrun : init.run b reqs events = some s) :
    ∃ more s', (∀ e ∈ more, e.Answers f) ∧ s.run b reqs more = some s' ∧ s'.Settled := by
  have hinit : (init : Connection C).received.Nodup := List.nodup_nil
  have h : s.received.Nodup := nodup_run hinit hrun
  obtain ⟨s₁, hrun₁, hlist₁, hbatch₁⟩ := exists_run_serve b reqs s.batch rfl h
  let s₂ : Connection C := { s₁ with fullRequestList := [], batch := s₁.fullRequestList }
  have hrun₂ : s₁.run b reqs [.getFullRequestList] = some s₂ := by
    rw [run, step, if_pos hbatch₁]
    rfl
  have h₂ : s₂.received.Nodup := nodup_run (nodup_run h hrun₁) hrun₂
  obtain ⟨s₃, hrun₃, hlist₃, hbatch₃⟩ := exists_run_serve b reqs s₂.batch rfl h₂
  obtain ⟨schedule, pool, hpool, hquiescent⟩ := Pool.finishes (b.system reqs) f s₃.pool
  refine ⟨_, _, ?_, (run_append hrun₁).trans ((run_append hrun₂).trans
    ((run_append hrun₃).trans (run_runs schedule hpool))), ⟨hlist₃, hbatch₃, hquiescent⟩⟩
  intro e he
  simp only [List.mem_append, List.mem_map, List.mem_singleton] at he
  rcases he with ⟨-, -, rfl⟩ | rfl | ⟨-, -, rfl⟩ | ⟨i, -, rfl⟩
  · trivial
  · trivial
  · trivial
  · exact fun _ => rfl

end Connection

variable [DecidableEq C]

/-- **Main result.**  With the answers `f` of outside code, every run of a connection submits exactly
one response for each of its requests, with the id of its stream, if and only if every request is to
be answered. -/
theorem grpcServer_answers (b : GrpcServer) (reqs : Requests C)
    (f : ∀ q : ServerQuery C, ServerAnswer q) :
    (∀ events s, (∀ e ∈ events, ConnectionEvent.Answers f e) →
      Connection.init.run b reqs events = some s → s.Answered reqs) ↔
    ∀ c, b.Answers f c (reqs.req c) := by
  constructor
  · intro h c
    by_contra hc
    obtain ⟨events, s, hevents, hrun, hs⟩ := Connection.exists_not_answered hc
    exact hs (h events s hevents hrun)
  · intro h events s hevents hrun
    exact Connection.answered_of_run h hevents hrun

/-- A server with one service, for every path. -/
def exampleServer : GrpcServer := ⟨ascii "127.0.0.1:40000", [(ascii "/f", ascii "pb:/f")], fun _ _ => true⟩

/-- A request that passes all checks. -/
def exampleRequest : Http2Request where
  streamId := 1
  method := ascii "POST"
  protocol := ascii "http"
  path := ascii "/f"
  headers := (Context.setMetaValue ∅ (ascii "te") (ascii "trailers")).setMetaValue
    (ascii "content-type") (ascii "application/grpc")
  body := [0, 0, 0, 0, 0]

/-- A service that ends with `status`, where all else goes well. -/
def exampleAnswers (status : Status) : ∀ q : ServerQuery Unit, ServerAnswer q
  | .deserializeReq .. => some true
  | .serviceFunc .. => status
  | .trySerializeRsp .. => some [[8, 1]]
  | .asyncWait _ => .operationAborted
  | .findStream _ => true

example : exampleServer.Answers (exampleAnswers .ok) () exampleRequest where
  findStream := rfl
  returns funcName hsome := by
    obtain rfl : ascii "pb:/f" = funcName := Option.some.inj hsome
    exact ⟨_, _, rfl, rfl, rfl, rfl, nofun⟩

/-- A service that ends with an error: its client gets no response. -/
theorem not_grpcServer_answers : ¬ ∀ (b : GrpcServer) (reqs : Requests Unit)
    (f : ∀ q : ServerQuery Unit, ServerAnswer q) events s,
    (∀ e ∈ events, ConnectionEvent.Answers f e) →
      Connection.init.run b reqs events = some s → s.Answered reqs := by
  intro h
  let reqs : Requests Unit := ⟨fun _ => exampleRequest, fun _ _ _ => rfl⟩
  have hstatus : ¬ exampleServer.Answers (exampleAnswers .svrUnknown) () (reqs.req ()) := by
    intro hanswers
    obtain ⟨ctx, timeout, -, -, hok, -⟩ := hanswers.returns (ascii "pb:/f") rfl
    exact absurd hok (by decide : Status.svrUnknown ≠ Status.ok)
  obtain ⟨events, s, hevents, hrun, hs⟩ := Connection.exists_not_answered hstatus
  exact hs (h exampleServer reqs (exampleAnswers .svrUnknown) events s hevents hrun)

end AimRT.Grpc

import AimRT.Rpc.RpcClientTool

/-!
# Ros2 rpc calls

`Ros2RpcBackend::Invoke` and the adapter client of one function, `Ros2AdapterClient` for a ros2 function
and `Ros2AdapterWrapperClient` for any other, with a timeout executor.  The client sends the request
and records the call under the sequence number of the request while it holds its mutex; the response
handler takes the record under the mutex.

A sequence number has 64 bits, and the record tool takes the low 32 bits of it.
-/

namespace AimRT.Ros2

open AimRT.Lib AimRT.Util AimRT.Rpc

variable {C : Type}

/-- The conversion of an `int64_t` to `uint32_t`. -/
def toUint32 (n : ℤ) : UInt32 := UInt32.ofNat (n % 2 ^ 32).toNat

/-! ### Requests and responses -/

/-- The context of a call and its timeout in nanoseconds. -/
structure Ros2Call where
  ctx : Context
  timeout : ℤ

/-- What `rcl_send_request` is given: the request of the call, or a `RosRpcWrapper` request. -/
inductive Ros2Request where
  | native
  | wrapper (serializationType : Bytes) (context : List Bytes) (data : Bytes)

def wrapperRequest (call : Ros2Call) (serializationType data : Bytes) : Ros2Request :=
  .wrapper serializationType
    ([ascii "aimrt-timeout", ascii (toString call.timeout)] ++ call.ctx.getMetaKeyValsArray) data

/-- A response: the sequence number in its header, and what a `RosRpcWrapper` response holds. -/
structure Ros2Response where
  sequenceNumber : ℤ
  code : ℤ
  serializationType : Bytes
  data : Bytes

/-- The status of a callback, and the sequence number of the response that it comes from. -/
structure Completion where
  status : Status
  response : Option ℤ := none
  deriving DecidableEq, Repr

/-! ### The adapter clients -/

/-- What the backend and its client ask outside code.  The url parser and `service_is_ready` may
throw; a request that is sent has a sequence number. -/
inductive Ros2Query (C : Type) where
  | state
  | parseUrl (toAddr : Bytes)
  | serviceIsReady
  | trySerializeReq (c : C) (serializationType : Bytes)
  | rclSendRequest (c : C) (req : Ros2Request)
  | runFlag
  | moveRsp (c : C) (rsp : Ros2Response)
  | deserializeRsp (c : C) (serializationType data : Bytes)

abbrev Ros2Answer : Ros2Query C → Type
  | .state => State
  | .parseUrl _ => Option (Option Bytes)
  | .serviceIsReady => Option Bool
  | .trySerializeReq .. => Option Bytes
  | .rclSendRequest .. => Option ℤ
  | .runFlag => Bool
  | .moveRsp .. => Unit
  | .deserializeRsp .. => Bool

abbrev Ros2Code (C α : Type) := RpcCode C Completion (@Ros2Answer C) α

/-- The client tool, with a timeout executor. -/
def clientTool : RpcClientTool C Completion (@Ros2Answer C) where
  timeoutExecutor := true
  timeoutHandle := fun c => invokeCallBack c { status := .timeout }

/-- The end of both `Invoke` functions: send and record under the mutex. -/
def sendAndRecord (c : C) (req : Ros2Request) : Ros2Code C Unit := do
  Code.lock
  let ret ← Code.ask (Ros2Query.rclSendRequest c req)
  match (ret : Option ℤ) with
  | none =>
    Code.unlock
    invokeCallBack c { status := .cliSendReqFailed }
  | some sequenceNumber =>
    let recordRet ← clientTool.record (toUint32 sequenceNumber) c
    Code.unlock
    if !recordRet then
      invokeCallBack c { status := .cliBackendInternalError }

/-- The beginning of both response handlers: the call that is recorded under the sequence number. -/
def takeCall (sequenceNumber : ℤ) : Ros2Code C (Option C) := do
  Code.lock
  let msgRecorder ← RpcClientTool.getRecord (toUint32 sequenceNumber)
  Code.unlock
  return msgRecorder

namespace Ros2AdapterClient

def invoke (c : C) : Ros2Code C Unit := sendAndRecord c .native

def handleResponse (rsp : Ros2Response) : Ros2Code C Unit := do
  if (← Code.ask Ros2Query.runFlag) = false then
    return
  match ← takeCall rsp.sequenceNumber with
  | none => return
  | some c =>
    Code.ask (Ros2Query.moveRsp c rsp)
    invokeCallBack c { status := .ok, response := some rsp.sequenceNumber }

end Ros2AdapterClient

namespace Ros2AdapterWrapperClient

def invoke (c : C) (call : Ros2Call) : Ros2Code C Unit := do
  let serializationType := call.ctx.getMetaValue kSerializationType
  let buf ← Code.ask (Ros2Query.trySerializeReq c serializationType)
  match (buf : Option Bytes) with
  | none => invokeCallBack c { status := .cliSerializationFailed }
  | some data => sendAndRecord c (wrapperRequest call serializationType data)

def handleResponse (rsp : Ros2Response) : Ros2Code C Unit := do
  if (← Code.ask Ros2Query.runFlag) = false then
    return
  match ← takeCall rsp.sequenceNumber with
  | none => return
  | some c =>
    if rsp.code ≠ 0 then
      invokeCallBack c { status := toUint32 rsp.code, response := some rsp.sequenceNumber }
      return
    let deserializeRet ← Code.ask (Ros2Query.deserializeRsp c rsp.serializationType rsp.data)
    if deserializeRet = false then
      invokeCallBack c
        { status := .cliDeserializationFailed, response := some rsp.sequenceNumber }
      return
    invokeCallBack c { status := .ok, response := some rsp.sequenceNumber }

end Ros2AdapterWrapperClient

/-! ### The backend -/

/-- What `Invoke` reads of its backend: the keys of the registered clients of either class. -/
structure Ros2RpcBackend where
  name : Bytes
  ros2AdapterClientMap : Bytes → Bool
  ros2AdapterWrapperClientMap : Bytes → Bool

/-- The module and the function whose calls one client gets. -/
structure ClientInfo where
  moduleName : Bytes
  funcName : Bytes

namespace Ros2RpcBackend

def checkRosFunc (funcName : Bytes) : Bool := funcName.take 5 = ascii "ros2:"

/-- The protocol of a `to_addr`, if there is one. -/
def urlProtocol (toAddr : Bytes) : Ros2Code C (Option Bytes) := do
  if toAddr = [] then
    return none
  Code.orThrow (← Code.ask (Ros2Query.parseUrl toAddr))

/-- `Invoke`, for a call of the function `info`. -/
def invoke (b : Ros2RpcBackend) (info : ClientInfo) (c : C) (call : Ros2Call) : Ros2Code C Unit :=
  Code.tryCatch
    (do
      if (← Code.ask Ros2Query.state) ≠ State.start then
        invokeCallBack c { status := .cliBackendInternalError }
        return
      let protocol ← urlProtocol (call.ctx.getMetaValue kToAddr)
      if protocol.any (fun protocol => protocol ≠ b.name) then
        invokeCallBack c { status := .cliBackendInternalError }
        return
      let clientKey := info.moduleName ++ ascii ":" ++ info.funcName
      let registered := if checkRosFunc info.funcName then b.ros2AdapterClientMap clientKey
        else b.ros2AdapterWrapperClientMap clientKey
      if registered = false then
        invokeCallBack c { status := .cliBackendInternalError }
        return
      let ready ← Code.orThrow (← Code.ask Ros2Query.serviceIsReady)
      if ready = false then
        invokeCallBack c { status := .cliBackendInternalError }
        return
      if checkRosFunc info.funcName then
        Ros2AdapterClient.invoke c
      else
        Ros2AdapterWrapperClient.invoke c call)
    (return)

/-- The client of the function `info` with the calls `calls`; the messages are responses. -/
def system (b : Ros2RpcBackend) (info : ClientInfo) (calls : C → Ros2Call) :
    System C UInt32 Completion (@Ros2Answer C) Ros2Response where
  invoke := fun c => b.invoke info c (calls c)
  handle := fun rsp =>
    if checkRosFunc info.funcName then Ros2AdapterClient.handleResponse rsp
    else Ros2AdapterWrapperClient.handleResponse rsp

/-! ### Exactly once -/

/-- What the proofs use of a contract: nothing throws before the client gets the call, a call is
recorded under the number that its request was sent with, and the response to a record may complete
its call. -/
structure Reliable (K : Contract C UInt32 Completion (@Ros2Answer C) Ros2Response) : Prop where
  parseUrl : ∀ toAddr a, K.answer (.parseUrl toAddr) a → a.isSome
  serviceIsReady : ∀ a, K.answer .serviceIsReady a → a.isSome
  record : ∀ c req n, K.answer (.rclSendRequest c req) (some n) → K.record (toUint32 n) c
  status : ∀ c status, K.status c { status := status }
  response : ∀ rsp c status, K.message rsp → K.record (toUint32 rsp.sequenceNumber) c →
    K.status c { status := status, response := some rsp.sequenceNumber }

variable {K : Contract C UInt32 Completion (@Ros2Answer C) Ros2Response} {c : C}
  {rsp : Ros2Response}

theorem keeps_sendAndRecord {req : Ros2Request} {h : Thread C UInt32 Completion _}
    (hK : Reliable K) :
    (sendAndRecord c req (fun _ => .done) h).Keeps K { owes := some c } := by
  refine ⟨rfl, fun ret hret => ?_⟩
  cases ret with
  | none => exact ⟨rfl, keeps_invokeCallBack_done (hK.status _ _) rfl⟩
  | some sequenceNumber =>
    refine RpcClientTool.keeps_record (h := h) ?_ rfl rfl (hK.record c req _ hret) ?_ ?_
    · exact fun _ c => keeps_invokeCallBack_done (hK.status _ _) rfl
    · exact ⟨rfl, keeps_invokeCallBack_done (hK.status _ _) rfl⟩
    · -- the timeout task has the record
      exact ⟨rfl, rfl, rfl, rfl⟩

theorem keeps_takeCall {sequenceNumber : ℤ} {k : Option C → Thread C UInt32 Completion _}
    {h : Thread C UInt32 Completion _} (hnone : (k none).Keeps K {})
    (hsome : ∀ c, K.record (toUint32 sequenceNumber) c → (k (some c)).Keeps K { owes := some c }) :
    (takeCall sequenceNumber k h).Keeps K {} := by
  refine ⟨rfl, ?_⟩
  refine RpcClientTool.keeps_getRecord (h := h) rfl nofun ⟨rfl, hnone⟩ fun c hc => ?_
  exact ⟨rfl, hsome c hc⟩

theorem keeps_clientHandleResponse (hK : Reliable K) (hrsp : K.message rsp) :
    (Ros2AdapterClient.handleResponse rsp).toThread.Keeps K {} := by
  intro runFlag _
  refine Code.keeps_ite (fun _ => ⟨rfl, rfl, rfl⟩) fun _ => ?_
  refine keeps_takeCall (h := .done) ⟨rfl, rfl, rfl⟩ fun c hc => ?_
  intro _ _
  exact keeps_invokeCallBack_done (hK.response rsp c _ hrsp hc) rfl

theorem keeps_wrapperHandleResponse (hK : Reliable K) (hrsp : K.message rsp) :
    (Ros2AdapterWrapperClient.handleResponse rsp).toThread.Keeps K {} := by
  intro runFlag _
  refine Code.keeps_ite (fun _ => ⟨rfl, rfl, rfl⟩) fun _ => ?_
  refine keeps_takeCall (h := .done) ⟨rfl, rfl, rfl⟩ fun c hc => ?_
  have hdone : ∀ status, (invokeCallBack c ⟨status, some rsp.sequenceNumber⟩ (fun _ => .done)
      Thread.done).Keeps K { owes := some c } := fun status =>
    keeps_invokeCallBack_done (hK.response rsp c status hrsp hc) rfl
  refine Code.keeps_ite (fun _ => hdone _) fun _ => ?_
  intro deserializeRet _
  exact Code.keeps_ite (fun _ => hdone _) fun _ => hdone _

theorem keeps_wrapperInvoke {call : Ros2Call} {h : Thread C UInt32 Completion _}
    (hK : Reliable K) :
    (Ros2AdapterWrapperClient.invoke c call (fun _ => .done) h).Keeps K { owes := some c } := by
  intro buf _
  rcases buf with _ | data
  · exact keeps_invokeCallBack_done (hK.status _ _) rfl
  · exact keeps_sendAndRecord hK

theorem keeps_urlProtocol {toAddr : Bytes} {d : Duty C UInt32}
    {k : Option Bytes → Thread C UInt32 Completion _} {h : Thread C UInt32 Completion _}
    (hK : Reliable K) (hk : ∀ protocol, (k protocol).Keeps K d) :
    (urlProtocol toAddr k h).Keeps K d := by
  refine Code.keeps_ite (fun _ => hk none) fun _ => ?_
  intro a ha
  obtain ⟨protocol, rfl⟩ := Option.isSome_iff_exists.1 (hK.parseUrl _ _ ha)
  exact hk protocol

theorem sound (b : Ros2RpcBackend) (info : ClientInfo) (calls : C → Ros2Call) (hK : Reliable K) :
    (b.system info calls).Sound K where
  invoke := by
    intro c state _
    have hdone := fun status => keeps_invokeCallBack_done (h := .done) (hK.status c status) rfl
    refine Code.keeps_ite (fun _ => hdone _) fun _ => ?_
    refine keeps_urlProtocol hK fun protocol => ?_
    refine Code.keeps_ite (fun _ => hdone _) fun _ => ?_
    refine Code.keeps_ite (fun _ => hdone _) fun _ => ?_
    intro ready hready
    obtain ⟨ready, rfl⟩ := Option.isSome_iff_exists.1 (hK.serviceIsReady _ hready)
    refine Code.keeps_ite (fun _ => hdone _) fun _ => ?_
    exact Code.keeps_ite (fun _ => keeps_sendAndRecord hK) fun _ => keeps_wrapperInvoke hK
  handle := by
    intro rsp hrsp
    change Thread.Keeps K ((if checkRosFunc info.funcName then Ros2AdapterClient.handleResponse rsp
      else Ros2AdapterWrapperClient.handleResponse rsp) _ _) _
    exact Code.keeps_ite (fun _ => keeps_clientHandleResponse hK hrsp) fun _ =>
      keeps_wrapperHandleResponse hK hrsp

/-- Neither the url parser nor `service_is_ready` throws. -/
def notThrowing : Contract C UInt32 Completion (@Ros2Answer C) Ros2Response where
  answer
    | .parseUrl _, a => a.isSome
    | .serviceIsReady, a => a.isSome
    | _, _ => True
  message := fun _ => True
  record := fun _ _ => True
  status := fun _ _ => True

theorem reliable_notThrowing : Reliable (notThrowing (C := C)) :=
  ⟨fun _ _ h => h, fun _ h => h, fun _ _ _ _ => trivial, fun _ _ => trivial,
    fun _ _ _ _ _ => trivial⟩

/-- The sequence numbers of a run: that of the request of each call, and those of all requests and
responses. -/
structure Numbering (C : Type) where
  seq : C → ℤ
  used : ℤ → Prop

/-- No two numbers have the same low 32 bits. -/
def Numbering.Distinct (ν : Numbering C) : Prop :=
  ∀ m n, ν.used m → ν.used n → toUint32 m = toUint32 n → m = n

/-- Nothing throws before the client gets a call, and requests and responses have the numbers of
`ν`; a response completes the call of its number. -/
def numbered (ν : Numbering C) : Contract C UInt32 Completion (@Ros2Answer C) Ros2Response where
  answer
    | .parseUrl _, a => a.isSome
    | .serviceIsReady, a => a.isSome
    | .rclSendRequest c _, a => ∀ n, a = some n → n = ν.seq c ∧ ν.used n
    | _, _ => True
  message := fun rsp => ν.used rsp.sequenceNumber
  record := fun reqId c => reqId = toUint32 (ν.seq c) ∧ ν.used (ν.seq c)
  status := fun c completion => ∀ n, completion.response = some n → n = ν.seq c

theorem reliable_numbered {ν : Numbering C} (hν : ν.Distinct) : Reliable (numbered ν) where
  parseUrl := fun _ _ h => h
  serviceIsReady := fun _ h => h
  record := by
    intro c req n hn
    obtain ⟨rfl, hused⟩ := hn n rfl
    exact ⟨rfl, hused⟩
  status := nofun
  response := by
    rintro rsp c status hused ⟨hid, hused'⟩ n hn
    obtain rfl := Option.some.inj hn
    exact hν _ _ hused hused' hid

variable [DecidableEq C]

/-- A response only ever completes the call of its number. -/
def Matched (ν : Numbering C) (P : Pool C UInt32 Completion (@Ros2Answer C)) : Prop :=
  ∀ p ∈ P.shared.completions, ∀ n, p.2.response = some n → n = ν.seq p.1

/-- **Main result.**  As long as nothing throws before the client gets a call, every call is completed
exactly once and leaves no record.  If moreover the sequence numbers of the run differ in their low 32
bits, a response only ever completes the call of its number. -/
theorem ros2Rpc_exactlyOnce (b : Ros2RpcBackend) (info : ClientInfo) (calls : C → Ros2Call)
    (moves : List (Move C Ros2Response (@Ros2Answer C)))
    {P : Pool C UInt32 Completion (@Ros2Answer C)}
    (hrun : Pool.init.run (b.system info calls) moves = some P) :
    ((∀ move ∈ moves, move.Allowed notThrowing) → P.ExactlyOnce) ∧
    (∀ ν : Numbering C, ν.Distinct → (∀ move ∈ moves, move.Allowed (numbered ν)) →
      P.ExactlyOnce ∧ Matched ν P) ∧
    ∀ f, P.Finishes (b.system info calls) f := by
  refine ⟨fun hmoves => ?_, fun ν hν hmoves => ?_, fun f => P.finishes _ f⟩
  · exact ((sound b info calls reliable_notThrowing).exactlyOnce hmoves hrun).1
  · exact (sound b info calls (reliable_numbered hν)).exactlyOnce hmoves hrun

/-! ### Calls of a ros2 function -/

def exampleBackend : Ros2RpcBackend where
  name := ascii "ros2"
  ros2AdapterClientMap := fun _ => true
  ros2AdapterWrapperClientMap := fun _ => true

def exampleInfo : ClientInfo := ⟨ascii "m", ascii "ros2:/f"⟩

def exampleCalls : ℕ → Ros2Call := fun _ => ⟨∅, 0⟩

/-- Outside code succeeds, and the request of the call `c` is sent with the number `seq c`. -/
def exampleAnswers (seq : ℕ → ℤ) : ∀ q : Ros2Query ℕ, Ros2Answer q
  | .state => State.start
  | .parseUrl _ => some none
  | .serviceIsReady => some true
  | .trySerializeReq .. => some []
  | .rclSendRequest c _ => some (seq c)
  | .runFlag => true
  | .moveRsp .. => ()
  | .deserializeRsp .. => true

def exampleRuns (seq : ℕ → ℤ) (schedule : List ℕ) : List (Move ℕ Ros2Response (@Ros2Answer ℕ)) :=
  schedule.map fun i => .run i (exampleAnswers seq)

theorem allowed_exampleRuns {ν : Numbering ℕ} (hused : ∀ c, ν.used (ν.seq c)) (schedule : List ℕ) :
    ∀ move ∈ exampleRuns ν.seq schedule, move.Allowed (numbered ν) := by
  refine Move.allowed_of_mem_runs (fun q => ?_) schedule
  cases q with
  | rclSendRequest c req =>
    intro n hn
    obtain rfl := Option.some.inj hn
    exact ⟨rfl, hused c⟩
  | _ => first | rfl | trivial

/-- The response is taken before the request is recorded, and waits for the mutex. -/
def earlyResponse : List (Move ℕ Ros2Response (@Ros2Answer ℕ)) :=
  .start 0 :: exampleRuns (fun _ => 1) [0, 0, 0, 0] ++
    .deliver ⟨1, 0, [], []⟩ :: exampleRuns (fun _ => 1) [0, 1, 0, 1, 2, 0, 0, 0, 0, 0]

theorem ros2Rpc_exactlyOnce_early : ∃ P,
    Pool.init.run (exampleBackend.system exampleInfo exampleCalls) earlyResponse = some P ∧
      P.shared.completions = [(0, ⟨.ok, some 1⟩)] ∧ P.ExactlyOnce := by
  refine ⟨_, rfl, by decide, ?_⟩
  let ν : Numbering ℕ := ⟨fun _ => 1, fun n => n = 1⟩
  have hν : ν.Distinct := fun m n hm hn _ => hm.trans hn.symm
  have hmoves : ∀ move ∈ earlyResponse, move.Allowed (numbered ν) := by
    intro move hmove
    simp only [earlyResponse, List.cons_append, List.mem_cons, List.mem_append] at hmove
    rcases hmove with rfl | hmove | rfl | hmove
    · trivial
    · exact allowed_exampleRuns (ν := ν) (fun _ => rfl) _ move hmove
    · exact (rfl : (1 : ℤ) = 1)
    · exact allowed_exampleRuns (ν := ν) (fun _ => rfl) _ move hmove
  exact ((ros2Rpc_exactlyOnce exampleBackend exampleInfo exampleCalls earlyResponse rfl).2.1
    ν hν hmoves).1

/-- The first call times out; the second is sent `2 ^ 32` numbers later, and the response to the first
completes it. -/
def lateResponse : List (Move ℕ Ros2Response (@Ros2Answer ℕ)) :=
  let seq : ℕ → ℤ := fun c => 1 + c * 2 ^ 32
  .start 0 :: exampleRuns seq [0, 0, 0, 0, 0, 0, 1, 1, 0, 0] ++
    .start 1 :: exampleRuns seq [0, 0, 0, 0, 0, 0, 1] ++
      .deliver ⟨1, 0, [], []⟩ :: exampleRuns seq [0, 0, 0, 0, 0, 0, 0]

theorem not_ros2Rpc_matched : ¬ ∀ (ν : Numbering ℕ) (b : Ros2RpcBackend) (info : ClientInfo)
    (calls : ℕ → Ros2Call) (moves : List (Move ℕ Ros2Response (@Ros2Answer ℕ)))
    (P : Pool ℕ UInt32 Completion (@Ros2Answer ℕ)),
    (∀ move ∈ moves, move.Allowed (numbered ν)) →
    Pool.init.run (b.system info calls) moves = some P → P.ExactlyOnce ∧ Matched ν P := by
  intro h
  let ν : Numbering ℕ := ⟨fun c => 1 + c * 2 ^ 32, fun _ => True⟩
  have hmoves : ∀ move ∈ lateResponse, move.Allowed (numbered ν) := by
    intro move hmove
    simp only [lateResponse, List.cons_append, List.append_assoc, List.mem_cons,
      List.mem_append] at hmove
    rcases hmove with rfl | hmove | rfl | hmove | rfl | hmove
    · trivial
    · exact allowed_exampleRuns (ν := ν) (fun _ => trivial) _ move hmove
    · trivial
    · exact allowed_exampleRuns (ν := ν) (fun _ => trivial) _ move hmove
    · trivial
    · exact allowed_exampleRuns (ν := ν) (fun _ => trivial) _ move hmove
  have hmatched := (h ν exampleBackend exampleInfo exampleCalls lateResponse _ hmoves rfl).2
  exact absurd (hmatched (1, ⟨.ok, some 1⟩) (by decide) 1 rfl) (by decide)

end Ros2RpcBackend

end AimRT.Ros2

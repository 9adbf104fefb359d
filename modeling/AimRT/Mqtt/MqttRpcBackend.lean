import AimRT.Mqtt.MqttRpcFrame
import AimRT.Rpc.RpcClientTool

/-!
# Mqtt rpc calls

`MqttRpcBackend::Invoke` and the response handler of its clients, with a timeout executor.  `Invoke`
records the call, writes the frame of the request and sends it; where the writer throws or the message
is not sent, the call is left to the timeout task.  The handler takes the record of the request id in
the frame, whatever else the frame holds.
-/

namespace AimRT.Mqtt

open AimRT.Lib AimRT.Util AimRT.Rpc

variable {C : Type}

/-- The calls of outside code: sending a message, with its return code, and the deserialization of a
response, which may throw. -/
inductive MqttQuery (C : Type) where
  | sendMessage (m : MqttMessage)
  | deserializeRsp (c : C) (serializationType data : Bytes)

abbrev MqttAnswer : MqttQuery C → Type
  | .sendMessage _ => ℤ
  | .deserializeRsp .. => Option Bool

abbrev MqttCode (C α : Type) := RpcCode C Status (@MqttAnswer C) α

namespace MqttRpcBackend

/-- The client tool, with a timeout executor. -/
def clientTool : RpcClientTool C Status (@MqttAnswer C) where
  timeoutExecutor := true
  timeoutHandle := fun c => invokeCallBack c .timeout

/-- `Invoke` from the record on. -/
def recordAndSend (c : C) (curReqId : UInt32) (p : PreparedRequest) : MqttCode C Unit := do
  let ret ← clientTool.record curReqId c
  if !ret then
    invokeCallBack c .cliBackendInternalError
    return
  match publishRequest p curReqId with
  | .error _ => Code.throw
  | .ok pubmsg =>
    let _rc ← Code.ask (.sendMessage pubmsg)
    return

def invoke (b : MqttRpcBackend) (c : C) (req : InvokeRequest) : MqttCode C Unit :=
  Code.tryCatch
    (do
      if b.state ≠ .start then
        invokeCallBack c .cliBackendInternalError
        return
      let cfg := (b.clientCfgInfoMap (getFuncNameWithoutPrefix req.funcName)).getD ([], 2)
      match b.serverMqttId cfg.1 (req.ctx.getMetaValue kToAddr) with
      | .error status => invokeCallBack c status
      | .ok _ =>
        let curReqId ← fetchReqId
        match prepareRequest b req with
        | .error status => invokeCallBack c status
        | .ok p => recordAndSend c curReqId p)
    (return)

/-- The deserialization of the rest of a response. -/
def deserializeRsp (serializationType : Bytes) (bufOper : ConstBufferOperator) (c : C) :
    MqttCode C Bool := do
  match ConstBufferOperator.getRemainingBuffer.run' bufOper with
  | .error _ => Code.throw
  | .ok remainingBuf =>
    let deserializeRet ← Code.ask (MqttQuery.deserializeRsp c serializationType remainingBuf)
    Code.orThrow deserializeRet

/-- The handler of the response topic. -/
def handleRsp (payload : Bytes) : MqttCode C Unit :=
  match getRspHeader.run (ConstBufferOperator.ofBytes payload) with
  | .error _ => Rpc.handleRsp none fun _ => Code.throw
  | .ok (header, bufOper) =>
    Rpc.handleRsp (some (header.reqId, header.code))
      (deserializeRsp header.serializationType bufOper)

/-- The backend with the calls `calls`; the messages are payloads on the response topics. -/
def system (b : MqttRpcBackend) (calls : C → InvokeRequest) :
    System C UInt32 Status (@MqttAnswer C) Bytes where
  invoke := fun c => b.invoke c (calls c)
  handle := handleRsp

/-! ### Exactly once -/

variable {b : MqttRpcBackend} {c : C}

theorem keeps_deserializeRsp {K : Contract C UInt32 Status (@MqttAnswer C) Bytes}
    {d : Duty C UInt32} {serializationType : Bytes} {bufOper : ConstBufferOperator}
    {k : Bool → Thread C UInt32 Status _} {h : Thread C UInt32 Status _}
    (hk : ∀ ret, (k ret).Keeps K d) (hh : h.Keeps K d) :
    (deserializeRsp serializationType bufOper c k h).Keeps K d := by
  unfold deserializeRsp
  cases ConstBufferOperator.getRemainingBuffer.run' bufOper with
  | error e => exact hh
  | ok remainingBuf =>
    intro deserializeRet _
    exact Code.keeps_orThrow hk hh

theorem keeps_recordAndSend {reqId : UInt32} {p : PreparedRequest} :
    (recordAndSend c reqId p (fun _ => .done) .done).Keeps
      (Contract.any : Contract C UInt32 Status (@MqttAnswer C) Bytes) { owes := some c } := by
  refine RpcClientTool.keeps_record ?_ rfl rfl trivial ?_ ?_
  · exact fun _ c => keeps_invokeCallBack_done trivial rfl
  · exact keeps_invokeCallBack_done trivial rfl
  · -- the timeout task has the record
    cases publishRequest p reqId with
    | error e => exact ⟨rfl, rfl, rfl⟩
    | ok pubmsg => exact fun _ _ => ⟨rfl, rfl, rfl⟩

theorem sound (b : MqttRpcBackend) (calls : C → InvokeRequest) :
    (b.system calls).Sound Contract.any where
  invoke := by
    intro c
    refine Code.keeps_ite (fun _ => keeps_invokeCallBack_done trivial rfl) fun _ => ?_
    cases b.serverMqttId _ ((calls c).ctx.getMetaValue kToAddr) with
    | error status => exact keeps_invokeCallBack_done trivial rfl
    | ok server =>
      intro n
      cases prepareRequest b (calls c) with
      | error status => exact keeps_invokeCallBack_done trivial rfl
      | ok p => exact keeps_recordAndSend
  handle := by
    intro payload _
    change (handleRsp payload).toThread.Keeps _ _
    unfold handleRsp
    cases getRspHeader.run (ConstBufferOperator.ofBytes payload) with
    | error e => exact keeps_handleRsp (fun _ _ => trivial) fun _ _ _ _ _ hh => hh
    | ok rsp => exact keeps_handleRsp (fun _ _ => trivial) fun _ _ _ _ => keeps_deserializeRsp

variable [DecidableEq C]

/-- **Main result.**  Whatever the writer, the client library and the responses do, every call is
completed exactly once and leaves no record. -/
theorem mqttRpc_exactlyOnce (b : MqttRpcBackend) (calls : C → InvokeRequest)
    (moves : List (Move C Bytes (@MqttAnswer C))) {P : Pool C UInt32 Status (@MqttAnswer C)}
    (hrun : Pool.init.run (b.system calls) moves = some P) :
    P.ExactlyOnce ∧ ∀ f, P.Finishes (b.system calls) f :=
  ⟨((sound b calls).exactlyOnce (fun move _ => move.allowed_any) hrun).1, fun f => P.finishes _ f⟩

/-- A backend in the state `Start`. -/
def exampleBackend : MqttRpcBackend where
  state := .start
  name := ascii "mqtt"
  clientId := ascii "id"
  maxPkgSize := 1024
  clientCfgInfoMap := fun _ => none
  parseUrl := fun _ => none

def exampleCalls : ℕ → InvokeRequest := fun _ => ⟨ascii "pb:/f", ∅, fun _ => some []⟩

/-- A response to the first call with the code 5 arrives before the timeout task runs. -/
def exampleMoves : List (Move ℕ Bytes (@MqttAnswer ℕ)) :=
  let answers : ∀ q : MqttQuery ℕ, MqttAnswer q
    | .sendMessage _ => (0 : ℤ)
    | .deserializeRsp .. => some true
  let response : Bytes := [0, 0, 0, 0, 0, 5, 0, 0, 0]
  [.start 0, .run 0 answers, .run 0 answers, .run 0 answers, .run 1 answers, .deliver response] ++
    [0, 0, 0, 2].map fun i => .run i answers

theorem mqttRpc_exactlyOnce_response : ∃ P,
    Pool.init.run (exampleBackend.system exampleCalls) exampleMoves = some P ∧
      P.shared.completions = [(0, 5)] ∧ P.ExactlyOnce :=
  ⟨_, rfl, by decide, (mqttRpc_exactlyOnce exampleBackend exampleCalls exampleMoves rfl).1⟩

end MqttRpcBackend

end AimRT.Mqtt

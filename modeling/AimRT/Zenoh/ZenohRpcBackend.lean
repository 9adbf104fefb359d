import AimRT.Mqtt.MqttRpcFrame
import AimRT.Rpc.RpcClientTool

/-!
# Zenoh rpc calls

`ZenohRpcBackend::Invoke` and the response handler of its clients, with a timeout executor.  With
shared memory, `Invoke` loans memory until the request fits and publishes it there; when the pool is
not enough, or without shared memory, it writes a frame.

Every exit behind the record that does not call the callback leaves the call to the timeout task, also
a loop that never ends.  Two exits are different: without a publisher `Invoke` returns before the
record without a callback, and where the serialization for the frame fails it calls the callback and
leaves the record in the table.
-/

namespace AimRT.Zenoh

open AimRT.Lib AimRT.Util AimRT.Rpc

variable {C : Type}

/-! ### Requests -/

/-- The function of a call and its context. -/
structure ClientCall where
  funcName : Bytes
  ctx : Context

/-- What `Invoke` writes before the data. -/
structure ReqHeader where
  serializationType : Bytes
  pattern : Bytes
  metaKeyValsArray : List Bytes

def ReqHeader.nodePubTopic (h : ReqHeader) : Bytes := ascii "req/" ++ h.pattern

/-- The size of the header without the length in front of it. -/
def ReqHeader.size (h : ReqHeader) : ℕ :=
  1 + h.serializationType.length + 1 + h.pattern.length + 4 + contextMetaKvSize h.metaKeyValsArray

def reqHeader (limitDomain : Bytes) (call : ClientCall) : ReqHeader where
  serializationType := call.ctx.getMetaValue kSerializationType
  pattern := ascii "aimrt_rpc/" ++ urlEncode (getFuncNameWithoutPrefix call.funcName) ++ limitDomain
  metaKeyValsArray := call.ctx.getMetaKeyValsArray

/-- The checks on the header; an error is the status of the callback. -/
def ReqHeader.check (h : ReqHeader) : Except Status Unit := do
  Rpc.check (h.serializationType.length ≤ 255) Status.cliUnknown
  Rpc.check (h.metaKeyValsArray.length / 2 ≤ 255) Status.cliBackendInternalError

def setReqHeader (h : ReqHeader) (reqId : UInt32) (op : BufferOperator) :
    Except BufferError BufferOperator := do
  let op ← op.setString h.serializationType .uInt8
  let op ← op.setString h.pattern .uInt8
  let op ← op.setUint32 reqId
  setContext h.metaKeyValsArray op

/-- The frame of a request without shared memory. -/
def reqFrame (h : ReqHeader) (reqId : UInt32) (bufferArray : List Bytes) :
    Except BufferError Bytes :=
  let zDataSize := (h.size + bufferArray.flatten.length) % 2 ^ 64
  fillBuffer ((zDataSize + 4) % 2 ^ 64) fun op => do
    let op ← op.setUint32 (UInt32.ofNat zDataSize)
    let op ← setReqHeader h reqId op
    bufferArray.foldlM (fun op data => op.setBuffer data) op

/-! ### Invoke -/

/-- What `SerializeReqSupportedZenoh` does: it writes the request into the shared memory, it finds a
serialization in the cache, or it throws, where the allocator knows whether the memory was enough. -/
inductive ShmSerialize where
  | written
  | cached (bufferArray : List Bytes)
  | failed (isShmEnough : Bool)

/-- What `Invoke` and the response handler ask outside code, and the calls that they make of it. -/
inductive ZenohQuery (C : Type) where
  | state
  /-- The publisher of the topic, and whether shared memory is enabled for it. -/
  | findPublisher (nodePubTopic : Bytes)
  | loanSize (nodePubTopic : Bytes)
  | setLoanSize (nodePubTopic : Bytes) (size : UInt64)
  | doubleLoanSize (nodePubTopic : Bytes)
  | allocShm (loanSize : UInt64)
  | serializeReqSupportedZenoh (c : C) (serializationType : Bytes) (remainingSize : ℕ)
  | trySerializeReq (c : C) (serializationType : Bytes)
  | publisherPutShm (nodePubTopic : Bytes) (bufferArrayCache : Option (List Bytes))
  | publisherPut (nodePubTopic frame : Bytes)
  /-- What the handler reads of a payload that is shorter than it says. -/
  | readBeyond (payload : Bytes)
  | deserializeRsp (c : C) (serializationType data : Bytes)

abbrev ZenohAnswer : ZenohQuery C → Type
  | .state => State
  | .findPublisher _ => Option Bool
  | .loanSize _ => UInt64
  | .setLoanSize .. => Unit
  | .doubleLoanSize _ => Unit
  | .allocShm _ => Bool
  | .serializeReqSupportedZenoh .. => ShmSerialize
  | .trySerializeReq .. => Option (List Bytes)
  | .publisherPutShm .. => Unit
  | .publisherPut .. => Unit
  | .readBeyond _ => Option (Mqtt.RspHeader × Bytes)
  | .deserializeRsp .. => Option Bool

abbrev ZenohCode (C α : Type) := RpcCode C Status (@ZenohAnswer C) α

/-- How the loop over the loan sizes ends: the pool is not enough, the request or its cached
serialization is in the loaned memory, or the serialization has failed. -/
inductive LoanEnd where
  | poolNotEnough
  | loaned (bufferArrayCache : Option (List Bytes))
  | failed

/-- The loop over the loan sizes, up to `fuel` rounds.  A round that finds a cached serialization too
large keeps it, and no later round looks at the loan size again. -/
def loanLoop (c : C) (h : ReqHeader) (reqId : UInt32) :
    (fuel : ℕ) → (bufferArrayCache : Option (List Bytes)) → ZenohCode C LoanEnd
  | 0, _ => Code.hang
  | fuel + 1, bufferArrayCache => do
    let loanSize : UInt64 ← Code.ask (ZenohQuery.loanSize h.nodePubTopic)
    let status ← Code.ask (ZenohQuery.allocShm loanSize)
    if status = false then
      return .poolNotEnough
    match setReqHeader h reqId (⟨List.replicate loanSize.toNat 0, 4⟩) with
    | .error _ => Code.throw
    | .ok bufOper =>
      let remainingSize := bufOper.buf.length - bufOper.cur
      match bufferArrayCache with
      | some _ => loanLoop c h reqId fuel bufferArrayCache
      | none =>
        let result ← Code.ask
          (ZenohQuery.serializeReqSupportedZenoh c h.serializationType remainingSize)
        match (result : ShmSerialize) with
        | .written => return .loaned none
        | .cached bufferArray =>
          let msgSize := bufferArray.flatten.length % 2 ^ 32
          if msgSize > remainingSize then
            let size := UInt64.ofNat ((4 + h.size + msgSize) % 2 ^ 32)
            Code.ask (ZenohQuery.setLoanSize h.nodePubTopic size)
            loanLoop c h reqId fuel (some bufferArray)
          else
            return .loaned (some bufferArray)
        | .failed isShmEnough =>
          if isShmEnough then
            return .failed
          else
            Code.ask (ZenohQuery.doubleLoanSize h.nodePubTopic)
            loanLoop c h reqId fuel none

/-- `Invoke` without shared memory, or where its pool is not enough. -/
def putFrame (c : C) (h : ReqHeader) (reqId : UInt32) : ZenohCode C Unit := do
  let buf ← Code.ask (ZenohQuery.trySerializeReq c h.serializationType)
  match (buf : Option (List Bytes)) with
  | none => invokeCallBack c .cliSerializationFailed
  | some bufferArray =>
    match reqFrame h reqId bufferArray with
    | .error _ => Code.throw
    | .ok frame => Code.ask (ZenohQuery.publisherPut h.nodePubTopic frame)

/-- The client tool, with a timeout executor. -/
def clientTool : RpcClientTool C Status (@ZenohAnswer C) where
  timeoutExecutor := true
  timeoutHandle := fun c => invokeCallBack c .timeout

/-- `Invoke` from the record on. -/
def recordAndPut (fuel : ℕ) (c : C) (h : ReqHeader) (reqId : UInt32) (shmEnabled : Bool) :
    ZenohCode C Unit := do
  let ret ← clientTool.record reqId c
  if !ret then
    invokeCallBack c .cliBackendInternalError
    return
  if shmEnabled then
    match ← loanLoop c h reqId fuel none with
    | .loaned bufferArrayCache =>
      Code.ask (ZenohQuery.publisherPutShm h.nodePubTopic bufferArrayCache)
    | .failed => return
    | .poolNotEnough => putFrame c h reqId
  else
    putFrame c h reqId

/-- `Invoke`, where the loop over the loan sizes is followed for `fuel` rounds. -/
def invoke (limitDomain : Bytes) (fuel : ℕ) (c : C) (call : ClientCall) : ZenohCode C Unit :=
  Code.tryCatch
    (do
      if (← Code.ask ZenohQuery.state) ≠ State.start then
        invokeCallBack c .cliBackendInternalError
        return
      let h := reqHeader limitDomain call
      let publisher ← Code.ask (ZenohQuery.findPublisher h.nodePubTopic)
      match (publisher : Option Bool) with
      | none => return
      | some shmEnabled =>
        let curReqId ← fetchReqId
        match h.check with
        | .error status => invokeCallBack c status
        | .ok _ => recordAndPut fuel c h curReqId shmEnabled)
    (return)

/-! ### Responses -/

/-- What the handler reads of a response: the bytes that the first four give the number of, also
where the payload has fewer. -/
def readRsp (payload : Bytes) : ZenohCode C (Option (Mqtt.RspHeader × Bytes)) :=
  let dataSizeWithLen := ofLe (payload.take 4)
  let buf := payload.drop 4
  if 4 ≤ payload.length ∧ dataSizeWithLen ≤ buf.length then
    return (Mqtt.getRsp.run' (ConstBufferOperator.ofBytes (buf.take dataSizeWithLen))).toOption
  else
    Code.ask (ZenohQuery.readBeyond payload)

def deserializeRsp (serializationType data : Bytes) (c : C) : ZenohCode C Bool := do
  let deserializeRet ← Code.ask (ZenohQuery.deserializeRsp c serializationType data)
  Code.orThrow deserializeRet

/-- The handler of the responses. -/
def handleRsp (payload : Bytes) : ZenohCode C Unit := do
  match ← readRsp payload with
  | none => Rpc.handleRsp none fun _ => Code.throw
  | some (header, data) =>
    Rpc.handleRsp (some (header.reqId, header.code)) (deserializeRsp header.serializationType data)

/-- The backend with the calls `calls`; the messages are the payloads of responses. -/
def system (limitDomain : Bytes) (fuel : ℕ) (calls : C → ClientCall) :
    System C UInt32 Status (@ZenohAnswer C) Bytes where
  invoke := fun c => invoke limitDomain fuel c (calls c)
  handle := handleRsp

/-! ### Exactly once -/

/-- Functions have a publisher, and requests can be serialized for a frame. -/
def publishes : Contract C UInt32 Status (@ZenohAnswer C) Bytes where
  answer
    | .findPublisher _, publisher => publisher.isSome
    | .trySerializeReq .., buf => buf.isSome
    | _, _ => True
  message := fun _ => True
  record := fun _ _ => True
  status := fun _ _ => True

variable {K : Contract C UInt32 Status (@ZenohAnswer C) Bytes} {d : Duty C UInt32} {c : C}
  {header : ReqHeader} {reqId : UInt32}

/-- The loop ends, throws or goes on for ever; it touches no call. -/
theorem keeps_loanLoop {k : LoanEnd → Thread C UInt32 Status _} {h : Thread C UInt32 Status _}
    (hk : ∀ e, (k e).Keeps K d) (hh : h.Keeps K d) (hd : d.Idle) (fuel : ℕ)
    (bufferArrayCache : Option (List Bytes)) :
    (loanLoop c header reqId fuel bufferArrayCache k h).Keeps K d := by
  induction fuel generalizing bufferArrayCache with
  | zero => exact hd
  | succ fuel ih =>
    intro loanSize _ status _
    refine Code.keeps_ite (fun _ => hk _) fun _ => ?_
    cases setReqHeader header reqId (⟨List.replicate loanSize.toNat 0, 4⟩) with
    | error e => exact hh
    | ok bufOper =>
      cases bufferArrayCache with
      | some bufferArray => exact ih _
      | none =>
        intro result _
        cases result with
        | written => exact hk _
        | cached bufferArray => exact Code.keeps_ite (fun _ _ _ => ih _) fun _ => hk _
        | failed isShmEnough => exact Code.keeps_ite (fun _ => hk _) fun _ _ _ => ih _

theorem keeps_putFrame {h : Thread C UInt32 Status _} (hh : h.Keeps publishes d) (hd : d.Idle) :
    (putFrame c header reqId (fun _ => .done) h).Keeps publishes d := by
  intro buf hbuf
  obtain ⟨bufferArray, rfl⟩ := Option.isSome_iff_exists.1 hbuf
  change Thread.Keeps _ ((match reqFrame header reqId bufferArray with
    | .error _ => Code.throw
    | .ok frame => Code.ask (ZenohQuery.publisherPut header.nodePubTopic frame)) _ h) d
  cases reqFrame header reqId bufferArray with
  | error e => exact hh
  | ok frame => exact fun _ _ => hd

theorem keeps_recordAndPut {fuel : ℕ} {shmEnabled : Bool} :
    (recordAndPut fuel c header reqId shmEnabled (fun _ => .done) .done).Keeps publishes
      { owes := some c } := by
  have hidle : Duty.Idle (C := C) (I := UInt32) {} := ⟨rfl, rfl, rfl⟩
  refine RpcClientTool.keeps_record ?_ rfl rfl trivial ?_ ?_
  · exact fun _ c => keeps_invokeCallBack_done trivial rfl
  · exact keeps_invokeCallBack_done trivial rfl
  · -- the timeout task has the record
    have hput := @keeps_putFrame C _ c header reqId .done hidle hidle
    refine Code.keeps_ite (fun h => nomatch h) fun _ => ?_
    refine Code.keeps_ite (fun _ => ?_) fun _ => hput
    refine keeps_loanLoop (h := .done) (fun e => ?_) hidle hidle fuel none
    cases e with
    | poolNotEnough => exact hput
    | loaned bufferArrayCache => exact fun _ _ => hidle
    | failed => exact hidle

theorem keeps_deserializeRsp {serializationType data : Bytes}
    {k : Bool → Thread C UInt32 Status _} {h : Thread C UInt32 Status _}
    (hk : ∀ ret, (k ret).Keeps K d) (hh : h.Keeps K d) :
    (deserializeRsp serializationType data c k h).Keeps K d := by
  intro deserializeRet _
  exact Code.keeps_orThrow hk hh

/-- The rest of the handler, whatever it reads. -/
theorem keeps_readRsp {payload : Bytes} {k : Option (Mqtt.RspHeader × Bytes) → Thread C UInt32 Status _}
    {h : Thread C UInt32 Status _} (hk : ∀ rsp, (k rsp).Keeps K d) :
    (readRsp payload k h).Keeps K d :=
  Code.keeps_ite (fun _ => hk _) fun _ rsp _ => hk rsp

theorem sound (limitDomain : Bytes) (fuel : ℕ) (calls : C → ClientCall) :
    (system limitDomain fuel calls).Sound publishes where
  invoke := by
    intro c state _
    refine Code.keeps_ite (fun _ => keeps_invokeCallBack_done trivial rfl) fun _ => ?_
    intro publisher hpublisher
    obtain ⟨shmEnabled, rfl⟩ := Option.isSome_iff_exists.1 hpublisher
    intro n
    cases (reqHeader limitDomain (calls c)).check with
    | error status => exact keeps_invokeCallBack_done trivial rfl
    | ok u => exact keeps_recordAndPut
  handle := by
    intro payload _
    refine keeps_readRsp (h := .done) fun rsp => ?_
    cases rsp with
    | none => exact keeps_handleRsp (fun _ _ => trivial) fun _ _ _ _ _ hh => hh
    | some rsp => exact keeps_handleRsp (fun _ _ => trivial) fun _ _ _ _ => keeps_deserializeRsp

variable [DecidableEq C]

def exampleCalls : ℕ → ClientCall := fun _ => ⟨ascii "pb:/f", ∅⟩

/-- Outside code succeeds, where the lookup of the publisher gives `publisher`. -/
def exampleAnswers (publisher : Option Bool) : ∀ q : ZenohQuery ℕ, ZenohAnswer q
  | .state => State.start
  | .findPublisher _ => publisher
  | .loanSize _ => (1024 : UInt64)
  | .setLoanSize .. => ()
  | .doubleLoanSize _ => ()
  | .allocShm _ => true
  | .serializeReqSupportedZenoh .. => .written
  | .trySerializeReq .. => some []
  | .publisherPutShm .. => ()
  | .publisherPut .. => ()
  | .readBeyond _ => none
  | .deserializeRsp .. => some true

def exampleRuns (publisher : Option Bool) (schedule : List ℕ) :
    List (Move ℕ Bytes (@ZenohAnswer ℕ)) :=
  schedule.map fun i => .run i (exampleAnswers publisher)

/-- A call, and a response to it with the code 5 before the timeout task runs. -/
def exampleMoves : List (Move ℕ Bytes (@ZenohAnswer ℕ)) :=
  .start 0 :: exampleRuns (some false) [0, 0, 0, 0, 0, 1, 0] ++
    .deliver [9, 0, 0, 0, 0, 0, 0, 0, 0, 5, 0, 0, 0] :: exampleRuns (some false) [0, 0, 0, 2]

end AimRT.Zenoh

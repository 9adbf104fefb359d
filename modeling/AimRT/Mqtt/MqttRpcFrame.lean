import AimRT.Mqtt.MqttMessage
import AimRT.Rpc.RpcTypes

/-!
# The frames of the mqtt rpc backend

A request carries the serialization type, the topic of the response, the request id, the meta pairs
and the data; a response carries the serialization type, the request id, a status code and, if the
code is zero, the data.  The server reads the request id as four bytes and sends them back.

`prepareRequest` is what `Invoke` does before it records the call; `setRequest` is its writer, and
`rspCallback` and `returnRspWithStatusCode` are those of the server.
-/

namespace AimRT.Mqtt

open AimRT.Lib AimRT.Util AimRT.Rpc

/-! ### Requests -/

/-- What `Invoke` reads of its backend; a client entry is a server id and a qos. -/
structure MqttRpcBackend where
  state : State
  name : Bytes
  clientId : Bytes
  maxPkgSize : UInt32
  clientCfgInfoMap : Bytes → Option (Bytes × ℕ)
  parseUrl : Bytes → Option (Bytes × Bytes)

/-- What `Invoke` reads of its `InvokeWrapper`; `trySerializeReq` is `TrySerializeReqWithCache`. -/
structure InvokeRequest where
  funcName : Bytes
  ctx : Context
  trySerializeReq : Bytes → Option (List Bytes)

/-- A request that is ready to be recorded and written. -/
structure PreparedRequest where
  serializationType : Bytes
  mqttSubTopic : Bytes
  ctx : Context
  bufferArray : List Bytes
  mqttPkgSize : ℕ
  mqttPubTopic : Bytes
  qos : ℕ

/-- The server in the `to_addr` value, or the one configured for the function; a url with another
protocol is an error. -/
def MqttRpcBackend.serverMqttId (b : MqttRpcBackend) (cfg toAddr : Bytes) : Except Status Bytes :=
  if toAddr = [] then return cfg
  else
    match b.parseUrl toAddr with
    | none => return cfg
    | some (protocol, host) =>
      if protocol ≠ b.name then throw .cliBackendInternalError else return host

/-- `Invoke` up to the record; an error is the status of the callback. -/
def prepareRequest (b : MqttRpcBackend) (req : InvokeRequest) : Except Status PreparedRequest := do
  let realFuncName := getFuncNameWithoutPrefix req.funcName
  let (cfg, qos) := (b.clientCfgInfoMap realFuncName).getD ([], 2)
  let serverMqttId ← b.serverMqttId cfg (req.ctx.getMetaValue kToAddr)
  let serializationType := req.ctx.getMetaValue kSerializationType
  check (serializationType.length ≤ 255) .cliUnknown
  let mqttSubTopic := ascii "aimrt_rpc_rsp/" ++ urlEncode b.clientId ++ ascii "/" ++
    urlEncode realFuncName
  check (mqttSubTopic.length ≤ 255) .cliUnknown
  let bufferArray ← require (req.trySerializeReq serializationType) .cliSerializationFailed
  let ctx := req.ctx.setMetaValue (ascii "aimrt-from_mqtt_client") b.clientId
  let metaKeyValsArray := ctx.getMetaKeyValsArray
  check (metaKeyValsArray.length / 2 ≤ 255) .cliBackendInternalError
  let mqttPkgSize := (1 + serializationType.length + 1 + mqttSubTopic.length + 4 +
    contextMetaKvSize metaKeyValsArray + bufferArray.flatten.length) % 2 ^ 64
  check (mqttPkgSize ≤ b.maxPkgSize.toNat) .cliSendReqFailed
  let mqttPubTopic := if serverMqttId = [] then ascii "aimrt_rpc_req/" ++ urlEncode realFuncName
    else ascii "aimrt_rpc_req/" ++ urlEncode serverMqttId ++ ascii "/" ++ urlEncode realFuncName
  return {
    serializationType := serializationType
    mqttSubTopic := mqttSubTopic
    ctx := ctx
    bufferArray := bufferArray
    mqttPkgSize := mqttPkgSize
    mqttPubTopic := mqttPubTopic
    qos := qos }

/-- The writer of `Invoke`. -/
def setRequest (p : PreparedRequest) (reqId : UInt32) (op : BufferOperator) :
    Except BufferError BufferOperator := do
  let op ← op.setString p.serializationType .uInt8
  let op ← op.setString p.mqttSubTopic .uInt8
  let op ← op.setUint32 reqId
  let op ← setContext p.ctx.getMetaKeyValsArray op
  p.bufferArray.foldlM (fun op data => op.setBuffer data) op

/-- `Invoke` after the record: the message it sends. -/
def publishRequest (p : PreparedRequest) (reqId : UInt32) : Except BufferError MqttMessage := do
  let frame ← fillBuffer p.mqttPkgSize (setRequest p reqId)
  return mqttMessage p.mqttPubTopic frame p.qos

def encodeRequest (p : PreparedRequest) (reqId : UInt32) : Bytes :=
  encodeString .uInt8 p.serializationType ++ (encodeString .uInt8 p.mqttSubTopic ++
    (leBytes 4 reqId.toNat ++ (encodeContext p.ctx.getMetaKeyValsArray ++ p.bufferArray.flatten)))

/-- What the server handler reads of a request. -/
structure ServerRequest where
  serializationType : Bytes
  mqttPubTopic : Bytes
  reqIdBuf : Bytes
  ctx : Context
  buf : Bytes

/-- The reader of the server handler, for the function `funcName` of the backend `name`. -/
def getRequest (name funcName : Bytes) : BufferReader ServerRequest := do
  let serializationType ← ConstBufferOperator.getString .uInt8
  let mqttPubTopic ← ConstBufferOperator.getString .uInt8
  let reqIdBuf ← ConstBufferOperator.getBuffer 4
  let ctx ← getContext (Context.setMetaValue ∅ kSerializationType serializationType)
  let remainingBuf ← ConstBufferOperator.getRemainingBuffer
  return {
    serializationType := serializationType
    mqttPubTopic := mqttPubTopic
    reqIdBuf := reqIdBuf
    ctx := (ctx.setMetaValue kFunctionName funcName).setMetaValue kBackend name
    buf := remainingBuf }

/-! ### Responses -/

/-- The status response of the server. -/
def returnRspWithStatusCode (mqttPubTopic : Bytes) (qos : ℕ) (serializationType reqIdBuf : Bytes)
    (code : Status) : Except BufferError MqttMessage := do
  let frame ← fillBuffer (1 + serializationType.length + 4 + 4) fun op => do
    let op ← op.setString serializationType .uInt8
    let op ← op.setBuffer reqIdBuf
    op.setUint32 code
  return mqttMessage mqttPubTopic frame qos

/-- The callback of the server: the response to a status of the service function.
`trySerializeRsp` is `TrySerializeRspWithCache`. -/
def rspCallback (maxPkgSize : UInt32) (mqttPubTopic : Bytes) (qos : ℕ)
    (serializationType reqIdBuf : Bytes) (trySerializeRsp : Bytes → Option (List Bytes))
    (status : Status) : Except BufferError MqttMessage :=
  if status ≠ .ok then
    returnRspWithStatusCode mqttPubTopic qos serializationType reqIdBuf status
  else
    match trySerializeRsp serializationType with
    | none =>
      returnRspWithStatusCode mqttPubTopic qos serializationType reqIdBuf .svrSerializationFailed
    | some bufferArray =>
      let mqttPkgSize := (1 + serializationType.length + 4 + 4 + bufferArray.flatten.length) % 2 ^ 64
      if mqttPkgSize > maxPkgSize.toNat then
        returnRspWithStatusCode mqttPubTopic qos serializationType reqIdBuf .svrUnknown
      else do
        let frame ← fillBuffer mqttPkgSize fun op => do
          let op ← op.setString serializationType .uInt8
          let op ← op.setBuffer reqIdBuf
          let op ← op.setUint32 0
          bufferArray.foldlM (fun op data => op.setBuffer data) op
        return mqttMessage mqttPubTopic frame qos

/-- What the client handler reads before it looks for the record. -/
structure RspHeader where
  serializationType : Bytes
  reqId : UInt32
  code : Status
  deriving DecidableEq, Repr

def getRspHeader : BufferReader RspHeader := do
  let serializationType ← ConstBufferOperator.getString .uInt8
  let reqId ← ConstBufferOperator.getUint32
  let code ← ConstBufferOperator.getUint32
  return { serializationType := serializationType, reqId := reqId, code := code }

/-- The header of a response and the data behind it. -/
def getRsp : BufferReader (RspHeader × Bytes) := do
  let header ← getRspHeader
  let remainingBuf ← ConstBufferOperator.getRemainingBuffer
  return (header, remainingBuf)

/-! ### The round trip -/

theorem encodeRequest_length (p : PreparedRequest) (reqId : UInt32) :
    (encodeRequest p reqId).length = 1 + p.serializationType.length + 1 + p.mqttSubTopic.length + 4 +
      contextMetaKvSize p.ctx.getMetaKeyValsArray + p.bufferArray.flatten.length := by
  rw [encodeRequest]
  simp only [List.length_append, encodeString_length, encodeContext_length, leBytes_length,
    BufferLenType.size]
  omega

theorem writes_setRequest {p : PreparedRequest}
    (hcount : p.ctx.getMetaKeyValsArray.length / 2 ≤ 255) (reqId : UInt32) :
    Writes (setRequest p reqId) (encodeRequest p reqId)
      (p.serializationType.length ≤ 255 ∧ p.mqttSubTopic.length ≤ 255 ∧ True ∧ p.ctx.Fits ∧ True) :=
  (writes_setString _ _).bind ((writes_setString _ _).bind ((writes_setUint32 _).bind
    ((writes_setContext (Nat.not_lt.2 hcount)).bind (writes_setBuffers _))))

/-- What `prepareRequest` takes from the request, checks and computes. -/
structure Prepared (b : MqttRpcBackend) (req : InvokeRequest) (p : PreparedRequest) : Prop where
  ctx : p.ctx = req.ctx.setMetaValue (ascii "aimrt-from_mqtt_client") b.clientId
  serializationType : p.serializationType = req.ctx.getMetaValue kSerializationType
  trySerializeReq : req.trySerializeReq p.serializationType = some p.bufferArray
  type_le : p.serializationType.length ≤ 255
  topic_le : p.mqttSubTopic.length ≤ 255
  pairs_le : p.ctx.getMetaKeyValsArray.length / 2 ≤ 255
  pkgSize_lt : p.mqttPkgSize < 2 ^ 32
  pkgSize_eq : ∀ reqId, p.mqttPkgSize = (encodeRequest p reqId).length % 2 ^ 64

theorem prepareRequest_ok {b : MqttRpcBackend} {req : InvokeRequest} {p : PreparedRequest}
    (h : prepareRequest b req = .ok p) : Prepared b req p := by
  obtain ⟨server, -, h⟩ := bind_eq_ok h
  obtain ⟨_, htype, h⟩ := bind_eq_ok h
  obtain ⟨_, htopic, h⟩ := bind_eq_ok h
  obtain ⟨bufferArray, hser, h⟩ := bind_eq_ok h
  obtain ⟨_, hcount, h⟩ := bind_eq_ok h
  obtain ⟨_, hmax, h⟩ := bind_eq_ok h
  obtain rfl := Except.ok.inj h
  refine ⟨rfl, rfl, require_eq_ok hser, check_eq_ok htype, check_eq_ok htopic, check_eq_ok hcount,
    (check_eq_ok hmax).trans_lt b.maxPkgSize.toNat_lt, fun reqId => ?_⟩
  rw [encodeRequest_length]

/-- A prepared request whose context fits is sent. -/
theorem publishRequest_of_fits {b : MqttRpcBackend} {req : InvokeRequest} {p : PreparedRequest}
    (hp : Prepared b req p) (hctx : p.ctx.Fits) {reqId : UInt32}
    (hsize : (encodeRequest p reqId).length < 2 ^ 64) :
    publishRequest p reqId = .ok (mqttMessage p.mqttPubTopic (encodeRequest p reqId) p.qos) := by
  have hfill := fillBuffer_of (writes_setRequest hp.pairs_le reqId)
    ⟨hp.type_le, hp.topic_le, trivial, hctx, trivial⟩
  rw [publishRequest, hp.pkgSize_eq reqId, Nat.mod_eq_of_lt hsize, hfill]
  rfl

/-- The context of a service: the meta pairs of the client behind the serialization type, and the
function and the backend over them. -/
def serviceContext (name funcName serializationType : Bytes) (ctx : Context) : Context :=
  (((Context.setMetaValue ∅ kSerializationType serializationType).setMetaValues
    ctx.entries).setMetaValue kFunctionName funcName).setMetaValue kBackend name

theorem readsAll_getRequest {name funcName : Bytes} {p : PreparedRequest} {reqId : UInt32}
    (htype : p.serializationType.length ≤ 255) (htopic : p.mqttSubTopic.length ≤ 255)
    (hctx : p.ctx.Fits) :
    ReadsAll (getRequest name funcName) (encodeRequest p reqId)
      { serializationType := p.serializationType
        mqttPubTopic := p.mqttSubTopic
        reqIdBuf := leBytes 4 reqId.toNat
        ctx := serviceContext name funcName p.serializationType p.ctx
        buf := p.bufferArray.flatten } := by
  have hid := reads_getBuffer (leBytes 4 reqId.toNat)
  rw [leBytes_length] at hid
  refine (reads_getString htype).bindAll ((reads_getString htopic).bindAll (hid.bindAll ?_))
  refine (reads_getContext hctx _).bindAll ?_
  exact (readsAll_getRemainingBuffer _).map (ServerRequest.mk _ _ _ _)

def encodeRsp (serializationType reqIdBuf : Bytes) (code : Status) (data : Bytes) : Bytes :=
  encodeString .uInt8 serializationType ++ (reqIdBuf ++ (leBytes 4 code.toNat ++ data))

theorem readsAll_getRsp {serializationType data : Bytes} {reqId code : UInt32}
    (htype : serializationType.length ≤ 255) :
    ReadsAll getRsp (encodeRsp serializationType (leBytes 4 reqId.toNat) code data)
      (⟨serializationType, reqId, code⟩, data) := by
  have hheader : Reads getRspHeader
      (encodeString .uInt8 serializationType ++ (leBytes 4 reqId.toNat ++ leBytes 4 code.toNat))
      ⟨serializationType, reqId, code⟩ :=
    (reads_getString htype).bind ((reads_getUint32 reqId).bind
      ((reads_getUint32 code).map (RspHeader.mk serializationType reqId)))
  have := Reads.bindAll (f := fun header => do
      let remainingBuf ← ConstBufferOperator.getRemainingBuffer
      return (header, remainingBuf))
    hheader ((readsAll_getRemainingBuffer data).map (Prod.mk _))
  rwa [List.append_assoc, List.append_assoc] at this

theorem returnRspWithStatusCode_onWire {topic serializationType reqIdBuf frame : Bytes} {qos : ℕ}
    {code : Status} {m : MqttMessage} (hid : reqIdBuf.length = 4)
    (h : returnRspWithStatusCode topic qos serializationType reqIdBuf code = .ok m)
    (hmem : frame ∈ m.onWire) :
    serializationType.length ≤ 255 ∧ frame = encodeRsp serializationType reqIdBuf code [] := by
  obtain ⟨f, hf, h⟩ := bind_eq_ok h
  obtain rfl := Except.ok.inj h
  have hw := (writes_setString serializationType .uInt8).bind
    ((writes_setBuffer reqIdBuf).bind (writes_setUint32 code))
  obtain ⟨rfl, hsize, htype, -⟩ := fillBuffer_ok hw (by
    simp only [List.length_append, encodeString_length, leBytes_length, BufferLenType.size]
    omega) hf
  refine ⟨htype, ?_⟩
  rw [eq_of_mem_onWire (by rw [← hsize]; have : serializationType.length ≤ 255 := htype; omega) hmem,
    encodeRsp, List.append_nil]

/-- A message that carries a response with the given code and data. -/
def Responds (m : MqttMessage) (serializationType : Bytes) (reqId : UInt32) (code : Status)
    (data : Bytes) : Prop :=
  ∀ frame ∈ m.onWire, getRsp.run' (ConstBufferOperator.ofBytes frame) =
    .ok (⟨serializationType, reqId, code⟩, data)

theorem returnRspWithStatusCode_responds {topic serializationType : Bytes} {qos : ℕ} {code : Status}
    {reqId : UInt32} {m : MqttMessage}
    (h : returnRspWithStatusCode topic qos serializationType (leBytes 4 reqId.toNat) code = .ok m) :
    Responds m serializationType reqId code [] := by
  intro frame hmem
  obtain ⟨htype, rfl⟩ := returnRspWithStatusCode_onWire (leBytes_length _ _) h hmem
  exact (readsAll_getRsp htype).run

theorem rspCallback_responds {maxPkgSize : UInt32} {topic serializationType : Bytes} {qos : ℕ}
    {trySerializeRsp : Bytes → Option (List Bytes)} {status : Status} {reqId : UInt32}
    {m : MqttMessage}
    (h : rspCallback maxPkgSize topic qos serializationType (leBytes 4 reqId.toNat) trySerializeRsp
      status = .ok m) :
    (∃ bufferArray, status = .ok ∧ trySerializeRsp serializationType = some bufferArray ∧
      Responds m serializationType reqId .ok bufferArray.flatten) ∨
    ∃ code, code ≠ .ok ∧ (status ≠ .ok → code = status) ∧
      Responds m serializationType reqId code [] := by
  unfold rspCallback at h
  split at h
  · rename_i hstatus
    exact Or.inr ⟨status, hstatus, fun _ => rfl, returnRspWithStatusCode_responds h⟩
  rename_i hok
  split at h
  · exact Or.inr ⟨_, by decide, fun hne => absurd hne hok, returnRspWithStatusCode_responds h⟩
  rename_i bufferArray hser
  simp only [] at h
  split at h
  · exact Or.inr ⟨_, by decide, fun hne => absurd hne hok, returnRspWithStatusCode_responds h⟩
  rename_i hmax
  obtain ⟨f, hf, h⟩ := bind_eq_ok h
  obtain rfl := Except.ok.inj h
  have hw := (writes_setString serializationType .uInt8).bind
    ((writes_setBuffer (leBytes 4 reqId.toNat)).bind
      ((writes_setUint32 0).bind (writes_setBuffers bufferArray)))
  obtain ⟨rfl, hsize, htype, -⟩ := fillBuffer_ok hw (by
    refine (Nat.mod_le _ _).trans ?_
    simp only [List.length_append, encodeString_length, leBytes_length, BufferLenType.size]
    omega) hf
  refine Or.inl ⟨bufferArray, not_not.1 hok, hser, fun frame hmem => ?_⟩
  have hlt := maxPkgSize.toNat_lt
  rw [eq_of_mem_onWire (by rw [← hsize]; omega) hmem]
  exact (readsAll_getRsp htype).run

/-- **Main result.**  The server handler reads the fields of every request on the wire, and the
client handler those of every response, where the data of a response is that of the service function
if the code is zero and empty otherwise. -/
theorem mqttRpc_roundTrip (name funcName : Bytes) (reqId : UInt32) :
    (∀ (b : MqttRpcBackend) (req : InvokeRequest) (p : PreparedRequest) (m : MqttMessage),
      prepareRequest b req = .ok p → publishRequest p reqId = .ok m → ∀ frame ∈ m.onWire,
      Prepared b req p ∧
        (getRequest name funcName).run' (ConstBufferOperator.ofBytes frame) = .ok
          { serializationType := p.serializationType
            mqttPubTopic := p.mqttSubTopic
            reqIdBuf := leBytes 4 reqId.toNat
            ctx := serviceContext name funcName p.serializationType p.ctx
            buf := p.bufferArray.flatten }) ∧
    (∀ (topic serializationType : Bytes) (qos : ℕ) (code : Status) (m : MqttMessage),
      returnRspWithStatusCode topic qos serializationType (leBytes 4 reqId.toNat) code = .ok m →
      Responds m serializationType reqId code []) ∧
    (∀ (maxPkgSize : UInt32) (topic serializationType : Bytes) (qos : ℕ)
      (trySerializeRsp : Bytes → Option (List Bytes)) (status : Status) (m : MqttMessage),
      rspCallback maxPkgSize topic qos serializationType (leBytes 4 reqId.toNat) trySerializeRsp
        status = .ok m →
      (∃ bufferArray, status = .ok ∧ trySerializeRsp serializationType = some bufferArray ∧
        Responds m serializationType reqId .ok bufferArray.flatten) ∨
      ∃ code, code ≠ .ok ∧ (status ≠ .ok → code = status) ∧
        Responds m serializationType reqId code []) := by
  refine ⟨?_, ?_, ?_⟩
  · intro b req p m hp hm frame hmem
    have hprep := prepareRequest_ok hp
    obtain ⟨f, hf, hm⟩ := bind_eq_ok hm
    obtain rfl := Except.ok.inj hm
    obtain ⟨rfl, hsize, -, -, -, hctx, -⟩ := fillBuffer_ok (writes_setRequest hprep.pairs_le reqId)
      (by rw [hprep.pkgSize_eq reqId]; exact Nat.mod_le _ _) hf
    rw [eq_of_mem_onWire (by rw [← hsize]; exact hprep.pkgSize_lt) hmem]
    exact ⟨hprep, (readsAll_getRequest hprep.type_le hprep.topic_le hctx).run⟩
  · intro topic serializationType qos code m h
    exact returnRspWithStatusCode_responds h
  · intro maxPkgSize topic serializationType qos trySerializeRsp status m h
    exact rspCallback_responds h

end AimRT.Mqtt

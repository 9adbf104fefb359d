import AimRT.Util.FrameReading
import AimRT.Zenoh.ZenohRpcBackend
import AimRT.Zenoh.ZenohShmSend

/-!
# The frames of the zenoh rpc backend

A request carries the serialization type, the pattern, the request id, the meta pairs and the data; a
response the serialization type, the request id, a status code and, if the code is zero, the data.  In
front of both the reader expects the length of all that follows.  Through shared memory the length of
the header alone is in front, and a response with a status has no length in front at all.

`ZenohRpcBackend.sendReq` is `Invoke` without the record of the call, which is in
`AimRT.Zenoh.ZenohRpcBackend`, and `ZenohRpcBackend.sendRsp` is the callback of a service.
-/

namespace AimRT.Zenoh

open AimRT.Lib AimRT.Util AimRT.Rpc

/-- The publishers, with whether shared memory is enabled for them, and `z_node_shm_size_map_`. -/
structure ZenohRpcBackend where
  state : State
  limitDomain : Bytes
  publisherRegisterMap : Bytes → Option Bool
  zNodeShmSizeMap : Bytes → UInt64

/-! ### Requests -/

/-- `Invoke` as a sender.  Its `header_len` and `msg_size` are `uint32_t`; a header that was written is
shorter. -/
def reqUser (h : ReqHeader) (reqId : UInt32) : ShmUser where
  setHeader op := setReqHeader h reqId op
  headerLen := h.size
  msgSizeBits := 32
  pkgLen _ := UInt32.ofNat h.size
  netFrame bufferArray := (reqFrame h reqId bufferArray).toOption

/-- `Invoke` without the record, where the loop is followed for `fuel` rounds; an error is the status
of the callback. -/
def ZenohRpcBackend.sendReq (b : ZenohRpcBackend) (p : Provider) (call : ClientCall) (reqId : UInt32)
    (req : Bytes → Payload) (fuel : ℕ) : Except Status (Option ShmRun) :=
  if b.state ≠ .start then throw .cliBackendInternalError
  else
    let h := reqHeader b.limitDomain call
    match b.publisherRegisterMap h.nodePubTopic with
    | none => return some ⟨.notRegistered, []⟩
    | some shmEnabled => do
      h.check
      if shmEnabled then
        return (reqUser h reqId).send p (req h.serializationType)
          (b.zNodeShmSizeMap h.nodePubTopic) fuel
      else return some ⟨(reqUser h reqId).sendNet (req h.serializationType), []⟩

/-- What the handler of a service reads of a request. -/
structure ServerRequest where
  serializationType : Bytes
  pattern : Bytes
  reqIdBuf : Bytes
  ctx : Context
  buf : Bytes

/-- The reader of the handler, for the function `funcName` of the backend `name`. -/
def getRequest (name funcName : Bytes) : FrameReading ServerRequest := do
  let serializationType ← FrameReading.getString .uInt8
  let pattern ← FrameReading.getString .uInt8
  let reqIdBuf ← FrameReading.getBuffer 4
  let ctx ← FrameReading.getContext (Context.setMetaValue ∅ kSerializationType serializationType)
  let remainingBuf ← FrameReading.getRemainingBuffer
  return {
    serializationType := serializationType
    pattern := pattern
    reqIdBuf := reqIdBuf
    ctx := (ctx.setMetaValue kFunctionName funcName).setMetaValue kBackend name
    buf := remainingBuf }

def handleRequest (name funcName payload : Bytes) : ReadResult ServerRequest :=
  FrameReading.readPayload UInt32.toNat (getRequest name funcName) payload

/-! ### Responses -/

/-- The `char req_id_buf[4]` of a request, which its response returns. -/
structure ReqIdBuf where
  bytes : Bytes
  length_eq : bytes.length = 4

/-- The request id that the client reads. -/
def ReqIdBuf.reqId (buf : ReqIdBuf) : UInt32 := UInt32.ofNat (ofLe buf.bytes)

def setRspHeader (serializationType : Bytes) (reqIdBuf : ReqIdBuf) (code : Status)
    (op : BufferOperator) : Except BufferError BufferOperator := do
  let op ← op.setString serializationType .uInt8
  let op ← op.setBuffer reqIdBuf.bytes
  op.setUint32 code

/-- The frame of a response without shared memory. -/
def rspFrame (serializationType : Bytes) (reqIdBuf : ReqIdBuf) (bufferArray : List Bytes) :
    Except BufferError Bytes :=
  let zDataSize := (1 + serializationType.length + 4 + 4 + bufferArray.flatten.length) % 2 ^ 64
  fillBuffer ((zDataSize + 4) % 2 ^ 64) fun op => do
    let op ← op.setUint32 (UInt32.ofNat zDataSize)
    let op ← setRspHeader serializationType reqIdBuf 0 op
    bufferArray.foldlM (fun op data => op.setBuffer data) op

/-- The callback of a service as a sender. -/
def rspUser (serializationType : Bytes) (reqIdBuf : ReqIdBuf) : ShmUser where
  setHeader := setRspHeader serializationType reqIdBuf 0
  headerLen := 1 + serializationType.length + 4 + 4
  msgSizeBits := 32
  pkgLen _ := UInt32.ofNat (1 + serializationType.length + 4 + 4)
  netFrame bufferArray := (rspFrame serializationType reqIdBuf bufferArray).toOption

/-- `ReturnRspWithStatusCode`: the bytes for `ZenohManager::Publish`. -/
def returnRspWithStatusCode (serializationType : Bytes) (reqIdBuf : ReqIdBuf) (code : Status) :
    Except BufferError Bytes :=
  fillBuffer (1 + serializationType.length + 4 + 4) (setRspHeader serializationType reqIdBuf code)

/-- The callback of a service for the status OK.  Where the serialization for the frame fails, the
caller is to get the code `svrSerializationFailed`. -/
def ZenohRpcBackend.sendRsp (b : ZenohRpcBackend) (p : Provider) (pattern serializationType : Bytes)
    (reqIdBuf : ReqIdBuf) (rsp : Payload) (fuel : ℕ) : Option ShmRun :=
  let nodePubTopic := ascii "rsp/" ++ pattern
  match b.publisherRegisterMap nodePubTopic with
  | none => some ⟨.notRegistered, []⟩
  | some true =>
    (rspUser serializationType reqIdBuf).send p rsp (b.zNodeShmSizeMap nodePubTopic) fuel
  | some false => some ⟨(rspUser serializationType reqIdBuf).sendNet rsp, []⟩

def getRspHeader : FrameReading Mqtt.RspHeader := do
  let serializationType ← FrameReading.getString .uInt8
  let reqId ← FrameReading.getUint32
  let code ← FrameReading.getUint32
  return { serializationType := serializationType, reqId := reqId, code := code }

/-- The reader of the client: the data is read when the call is recorded and the code is zero. -/
def getRsp (recorded : UInt32 → Bool) : FrameReading (Mqtt.RspHeader × Option Bytes) := do
  let header ← getRspHeader
  if recorded header.reqId ∧ header.code = 0 then
    let remainingBuf ← FrameReading.getRemainingBuffer
    return (header, some remainingBuf)
  else return (header, none)

def handleRspPayload (recorded : UInt32 → Bool) (payload : Bytes) :
    ReadResult (Mqtt.RspHeader × Option Bytes) :=
  FrameReading.readPayload UInt32.toNat (getRsp recorded) payload

/-! ### Sending -/

def encodeReqHeader (h : ReqHeader) (reqId : UInt32) : Bytes :=
  encodeString .uInt8 h.serializationType ++ (encodeString .uInt8 h.pattern ++
    (leBytes 4 reqId.toNat ++ encodeContext h.metaKeyValsArray))

theorem encodeReqHeader_length (h : ReqHeader) (reqId : UInt32) :
    (encodeReqHeader h reqId).length = h.size := by
  rw [encodeReqHeader, ReqHeader.size]
  simp only [List.length_append, encodeString_length, leBytes_length, encodeContext_length,
    BufferLenType.size]
  omega

/-- The fields of a request fit their lengths. -/
structure ReqFits (limitDomain : Bytes) (call : ClientCall) : Prop where
  serializationType : (reqHeader limitDomain call).serializationType.length ≤ 255
  pattern : (reqHeader limitDomain call).pattern.length ≤ 255
  ctx : call.ctx.Fits

theorem writes_setReqHeader {limitDomain : Bytes} {call : ClientCall}
    (hcount : call.ctx.getMetaKeyValsArray.length / 2 ≤ 255) (reqId : UInt32) :
    Writes (fun op => setReqHeader (reqHeader limitDomain call) reqId op)
      (encodeReqHeader (reqHeader limitDomain call) reqId) (ReqFits limitDomain call) := by
  have hfits : ((reqHeader limitDomain call).serializationType.length ≤ 255 ∧
      (reqHeader limitDomain call).pattern.length ≤ 255 ∧ True ∧ call.ctx.Fits) ↔
      ReqFits limitDomain call :=
    ⟨fun h => ⟨h.1, h.2.1, h.2.2.2⟩, fun h => ⟨h.serializationType, h.pattern, trivial, h.ctx⟩⟩
  rw [← hfits]
  exact (writes_setString _ _).bind ((writes_setString _ _).bind ((writes_setUint32 _).bind
    (writes_setContext (Nat.not_lt.2 hcount))))

theorem reqUser_lawful {limitDomain : Bytes} {call : ClientCall}
    (hcount : call.ctx.getMetaKeyValsArray.length / 2 ≤ 255) (reqId : UInt32) :
    (reqUser (reqHeader limitDomain call) reqId).Lawful
      (encodeReqHeader (reqHeader limitDomain call) reqId) (ReqFits limitDomain call) (2 ^ 64) where
  writes := writes_setReqHeader hcount reqId
  rejects _ hop := ⟨.outOfBounds, setString_bind_error hop _ .uInt8 _⟩
  headerLen := (encodeReqHeader_length _ _).symm
  netFrame bufferArray frame := by
    have hlen : (encodeReqHeader (reqHeader limitDomain call) reqId ++ bufferArray.flatten).length =
        (reqHeader limitDomain call).size + bufferArray.flatten.length := by
      rw [List.length_append, encodeReqHeader_length]
    have hfill := fillFrame_eq_ok_iff (@writes_setReqHeader limitDomain call hcount reqId)
      bufferArray 64 frame
    rw [hlen] at hfill ⊢
    exact toOption_eq_some_iff.trans hfill

def encodeRspHeader (serializationType : Bytes) (reqIdBuf : ReqIdBuf) (code : Status) : Bytes :=
  encodeString .uInt8 serializationType ++ (reqIdBuf.bytes ++ leBytes 4 code.toNat)

theorem encodeRspHeader_length (serializationType : Bytes) (reqIdBuf : ReqIdBuf) (code : Status) :
    (encodeRspHeader serializationType reqIdBuf code).length =
      1 + serializationType.length + 4 + 4 := by
  rw [encodeRspHeader]
  simp only [List.length_append, encodeString_length, leBytes_length, BufferLenType.size,
    reqIdBuf.length_eq]

/-- The field of a response that may not fit its length. -/
def RspFits (serializationType : Bytes) : Prop := serializationType.length ≤ 255

theorem writes_setRspHeader (serializationType : Bytes) (reqIdBuf : ReqIdBuf) (code : Status) :
    Writes (setRspHeader serializationType reqIdBuf code)
      (encodeRspHeader serializationType reqIdBuf code) (RspFits serializationType) := by
  have hfits : (serializationType.length ≤ 255 ∧ True ∧ True) ↔ RspFits serializationType :=
    ⟨And.left, fun h => ⟨h, trivial, trivial⟩⟩
  rw [← hfits]
  exact (writes_setString _ _).bind ((writes_setBuffer _).bind (writes_setUint32 _))

theorem rspUser_lawful (serializationType : Bytes) (reqIdBuf : ReqIdBuf) :
    (rspUser serializationType reqIdBuf).Lawful (encodeRspHeader serializationType reqIdBuf 0)
      (RspFits serializationType) (2 ^ 64) where
  writes := writes_setRspHeader _ _ 0
  rejects _ hop := ⟨.outOfBounds, setString_bind_error hop _ .uInt8 _⟩
  headerLen := (encodeRspHeader_length _ _ _).symm
  netFrame bufferArray frame := by
    have hlen : (encodeRspHeader serializationType reqIdBuf 0 ++ bufferArray.flatten).length =
        1 + serializationType.length + 4 + 4 + bufferArray.flatten.length := by
      rw [List.length_append, encodeRspHeader_length]
    have hfill := fillFrame_eq_ok_iff (writes_setRspHeader serializationType reqIdBuf 0)
      bufferArray 64 frame
    rw [hlen] at hfill ⊢
    exact toOption_eq_some_iff.trans hfill

/-- What `sendReq` does where it sends. -/
theorem ZenohRpcBackend.sendReq_cases {b : ZenohRpcBackend} {p : Provider} {call : ClientCall}
    {reqId : UInt32} {req : Bytes → Payload} {fuel : ℕ} {run : ShmRun}
    (h : b.sendReq p call reqId req fuel = .ok (some run)) :
    run = ⟨.notRegistered, []⟩ ∨
    call.ctx.getMetaKeyValsArray.length / 2 ≤ 255 ∧
      (run = ⟨(reqUser (reqHeader b.limitDomain call) reqId).sendNet
          (req (reqHeader b.limitDomain call).serializationType), []⟩ ∨
        (reqUser (reqHeader b.limitDomain call) reqId).send p
          (req (reqHeader b.limitDomain call).serializationType)
          (b.zNodeShmSizeMap (reqHeader b.limitDomain call).nodePubTopic) fuel = some run) := by
  unfold sendReq at h
  split at h
  · cases h
  dsimp only at h
  split at h
  · exact Or.inl (Option.some.inj (Except.ok.inj h)).symm
  obtain ⟨_, hcheck, h⟩ := bind_eq_ok h
  obtain ⟨_, -, hcheck⟩ := bind_eq_ok hcheck
  refine Or.inr ⟨check_eq_ok hcheck, ?_⟩
  split at h
  · exact Or.inr (Except.ok.inj h)
  · exact Or.inl (Option.some.inj (Except.ok.inj h)).symm

theorem ZenohRpcBackend.sendRsp_cases {b : ZenohRpcBackend} {p : Provider}
    {pattern serializationType : Bytes} {reqIdBuf : ReqIdBuf} {rsp : Payload} {fuel : ℕ}
    {run : ShmRun} (h : b.sendRsp p pattern serializationType reqIdBuf rsp fuel = some run) :
    run = ⟨.notRegistered, []⟩ ∨ run = ⟨(rspUser serializationType reqIdBuf).sendNet rsp, []⟩ ∨
      (rspUser serializationType reqIdBuf).send p rsp
        (b.zNodeShmSizeMap (ascii "rsp/" ++ pattern)) fuel = some run := by
  unfold sendRsp at h
  dsimp only at h
  split at h
  · exact Or.inl (Option.some.inj h).symm
  · exact Or.inr (Or.inr h)
  · exact Or.inr (Or.inl (Option.some.inj h).symm)

/-! ### The length of the header in front -/

/-- What is put and the frame for the same data are decoded alike. -/
def ShmUser.FrameAgrees (u : ShmUser) (m : Payload) (alike : Bytes → Bytes → Prop)
    (payload : Option Bytes) : Prop :=
  ∃ bytes frame, payload = some bytes ∧ u.sendNet m = .net frame ∧ alike bytes frame

section Prefix

variable {β : Type} {t : FrameReading β} {header : Bytes}

/-- With the length of the header in front a reader finds no body behind it, with the whole length it
finds the body, as far as 32 bits go. -/
theorem readPayload_prefix_iff (body : Bytes) {g : Bytes → β} (hg : ∀ data, g data = g [] → data = [])
    (ht : ∀ len, len ≤ (header ++ body).length → t.run len (header ++ body) =
      if header.length ≤ len then .value (g (body.take (len - header.length))) else .rejected)
    (hheader : header.length < 2 ^ 32) (mem : Bytes) :
    FrameReading.readPayload UInt32.toNat t
        (leBytes 4 (UInt32.ofNat header.length).toNat ++ (header ++ body) ++ mem) =
      FrameReading.readPayload UInt32.toNat t
        (leBytes 4 (UInt32.ofNat (header ++ body).length).toNat ++ (header ++ body)) ↔
      body.length % 2 ^ 32 = 0 := by
  have hshort : (UInt32.ofNat header.length).toNat = header.length := UInt32.toNat_ofNat_of_lt' hheader
  have hlong : (UInt32.ofNat (header ++ body).length).toNat =
      (header.length + body.length) % 2 ^ 32 := by
    rw [List.length_append]
    rfl
  have hle : (UInt32.ofNat (header ++ body).length).toNat ≤ (header ++ body).length := Nat.mod_le _ _
  have hframe := FrameReading.readPayload_append_append t hle []
  rw [List.append_nil] at hframe
  rw [FrameReading.readPayload_append_append t (by rw [hshort, List.length_append]; omega), hframe,
    ht _ hle, ht _ (by rw [hshort, List.length_append]; omega), hshort, hlong, if_pos le_rfl,
    Nat.sub_self, List.take_zero]
  by_cases hroom : header.length ≤ (header.length + body.length) % 2 ^ 32
  · rw [if_pos hroom]
    constructor
    · intro h
      have hnil := hg _ (ReadResult.value.inj h).symm
      rcases List.take_eq_nil_iff.1 hnil with h | rfl
      · omega
      · rfl
    · intro h
      have hzero : (header.length + body.length) % 2 ^ 32 - header.length = 0 := by omega
      rw [hzero, List.take_zero]
  · rw [if_neg hroom]
    exact ⟨nofun, fun h => by omega⟩

/-- **A sender with the length of the header in front.** -/
theorem ShmUser.Lawful.frameAgrees_iff {u : ShmUser} {fits : Prop} {p : Provider} {m : Payload}
    {size : UInt64} {fuel : ℕ} {run : ShmRun} {payload : Option Bytes}
    {alike : Bytes → Bytes → Prop} (hu : u.Lawful header fits (2 ^ 64))
    (hpkg : ∀ msgSize, u.pkgLen msgSize = UInt32.ofNat header.length)
    (halike : fits → ∀ body mem, alike
        (leBytes 4 (UInt32.ofNat header.length).toNat ++ (header ++ body) ++ mem)
        (leBytes 4 (UInt32.ofNat (header ++ body).length).toNat ++ (header ++ body)) ↔
      body.length % 2 ^ 32 = 0)
    (hsend : u.send p m size fuel = some run) (hput : run.outcome = .shm payload) :
    u.FrameAgrees m alike payload ↔
      m.body.length % 2 ^ 32 = 0 ∧ Copyable m (size.toNat - (4 + header.length)) := by
  obtain ⟨s, c, rfl, hloaned, hfits, hlen⟩ := hu.loaned_of_send hsend hput
  have hsize : Copyable m (size.toNat - (4 + header.length)) ↔
      Copyable m (c.length - (4 + header.length)) :=
    forall₂_congr fun view hview => by rw [hlen ⟨view, hview⟩]
  rw [hsize]
  rcases hloaned.payload_eq hu.headerLen with ⟨hcopy, hpayload⟩ | ⟨hcopy, hpayload⟩
  · have hfit := hloaned.length_le hcopy
    have hlt := hloaned.length_lt
    obtain ⟨bufferArray, hser⟩ := Option.isSome_iff_exists.1 hloaned.serialized
    have hnet := (hu.netFrame bufferArray _).2
      ⟨hfits, by rw [Payload.flatten_of_trySerialize hser]; omega, rfl⟩
    rw [Payload.flatten_of_trySerialize hser] at hnet
    have hsendNet : u.sendNet m =
        .net (leBytes 4 (UInt32.ofNat (header ++ m.body).length).toNat ++ (header ++ m.body)) := by
      rw [sendNet, hser]
      dsimp only
      rw [hnet]
    rw [hpkg] at hpayload
    rw [← halike hfits m.body (c.drop (4 + (header ++ m.body).length))]
    constructor
    · rintro ⟨bytes, frame, hbytes, hframe, h⟩
      obtain rfl := Option.some.inj (hpayload.symm.trans hbytes)
      obtain rfl := SendOutcome.net.inj (hsendNet.symm.trans hframe)
      exact ⟨h, hcopy⟩
    · rintro ⟨h, -⟩
      exact ⟨_, _, hpayload, hsendNet, h⟩
  · constructor
    · rintro ⟨bytes, frame, hbytes, -, -⟩
      cases hpayload.symm.trans hbytes
    · rintro ⟨-, h⟩
      exact absurd h hcopy

end Prefix

/-! ### Decoding -/

/-- The handler's reader on the header of a request. -/
theorem run_getRequest {limitDomain : Bytes} {call : ClientCall} (hfits : ReqFits limitDomain call)
    (reqId : UInt32) (name funcName : Bytes) {len : ℕ} {mem : Bytes}
    (hlen : len ≤ (encodeReqHeader (reqHeader limitDomain call) reqId ++ mem).length) :
    (getRequest name funcName).run len
        (encodeReqHeader (reqHeader limitDomain call) reqId ++ mem) =
      if (encodeReqHeader (reqHeader limitDomain call) reqId).length ≤ len then
        .value
          { serializationType := (reqHeader limitDomain call).serializationType
            pattern := (reqHeader limitDomain call).pattern
            reqIdBuf := leBytes 4 reqId.toNat
            ctx := (((Context.setMetaValue ∅ kSerializationType
              (reqHeader limitDomain call).serializationType).setMetaValues
                call.ctx.entries).setMetaValue kFunctionName funcName).setMetaValue kBackend name
            buf := mem.take (len - (encodeReqHeader (reqHeader limitDomain call) reqId).length) }
      else .rejected := by
  have hid := FrameReading.spells_getBuffer (leBytes 4 reqId.toNat)
  rw [leBytes_length] at hid
  have hspells := (@FrameReading.spells_getString _ .uInt8 hfits.serializationType).bind
    (f := fun serializationType => FrameReading.getString .uInt8 >>= fun pattern =>
      FrameReading.getBuffer 4 >>= fun reqIdBuf => FrameReading.getContext
        (Context.setMetaValue ∅ kSerializationType serializationType) >>= fun ctx =>
          .done (serializationType, pattern, reqIdBuf, ctx))
    ((@FrameReading.spells_getString _ .uInt8 hfits.pattern).bind (hid.bind
      ((FrameReading.spells_getContext hfits.ctx _).bind (Reading.spells_done _))))
  rw [List.append_nil] at hspells
  have hrun := hspells.run_rest (fun b data => ServerRequest.mk b.1 b.2.1 b.2.2.1
    ((b.2.2.2.setMetaValue kFunctionName funcName).setMetaValue kBackend name) data) hlen
  simp only [Reading.bind_assoc] at hrun
  exact hrun

theorem spells_getRspHeader {serializationType : Bytes} (htype : serializationType.length ≤ 255)
    (reqIdBuf : ReqIdBuf) (code : Status) :
    getRspHeader.Spells (encodeRspHeader serializationType reqIdBuf code)
      { serializationType := serializationType, reqId := reqIdBuf.reqId, code := code } := by
  have hid := Reading.spells_take reqIdBuf.bytes fun bs => UInt32.ofNat (ofLe bs)
  rw [reqIdBuf.length_eq] at hid
  have hspells := (@FrameReading.spells_getString _ .uInt8 htype).bind
    (f := fun serializationType => FrameReading.getUint32 >>= fun reqId =>
      FrameReading.getUint32 >>= fun code => .done (Mqtt.RspHeader.mk serializationType reqId code))
    (hid.bind ((FrameReading.spells_getUint32 code).bind (Reading.spells_done _)))
  rwa [List.append_nil] at hspells

/-- The client's reader on a response with the code zero whose call is recorded. -/
theorem run_getRsp {serializationType : Bytes} (htype : serializationType.length ≤ 255)
    (reqIdBuf : ReqIdBuf) {len : ℕ} {mem : Bytes}
    (hlen : len ≤ (encodeRspHeader serializationType reqIdBuf 0 ++ mem).length) :
    (getRsp fun _ => true).run len (encodeRspHeader serializationType reqIdBuf 0 ++ mem) =
      if (encodeRspHeader serializationType reqIdBuf 0).length ≤ len then
        .value
          ({ serializationType := serializationType, reqId := reqIdBuf.reqId, code := 0 },
            some (mem.take (len - (encodeRspHeader serializationType reqIdBuf 0).length)))
      else .rejected := by
  rw [List.length_append] at hlen
  rw [getRsp, spells_getRspHeader htype reqIdBuf 0]
  split
  · rename_i hheader
    rw [if_pos ⟨rfl, rfl⟩]
    exact Reading.run_rest_done (fun data => (_, some data)) (by omega)
  · rfl

/-! ### Shared memory and frames -/

variable {p : Provider} {fuel : ℕ} {run : ShmRun} {payload : Option Bytes}

theorem reqFrameAgrees_iff {limitDomain : Bytes} {call : ClientCall} {reqId : UInt32} {m : Payload}
    {size : UInt64} (hcount : call.ctx.getMetaKeyValsArray.length / 2 ≤ 255)
    (hsend : (reqUser (reqHeader limitDomain call) reqId).send p m size fuel = some run)
    (hput : run.outcome = .shm payload) (name funcName : Bytes) :
    (reqUser (reqHeader limitDomain call) reqId).FrameAgrees m
        (fun bytes frame => handleRequest name funcName bytes = handleRequest name funcName frame)
        payload ↔
      m.body.length % 2 ^ 32 = 0 ∧
        Copyable m (size.toNat - (4 + (reqHeader limitDomain call).size)) := by
  rw [← encodeReqHeader_length (reqHeader limitDomain call) reqId]
  refine (reqUser_lawful hcount reqId).frameAgrees_iff (fun _ => ?_) (fun hfits body mem => ?_)
    hsend hput
  · rw [encodeReqHeader_length]
    rfl
  · have hlt : (encodeReqHeader (reqHeader limitDomain call) reqId).length < 2 ^ 32 := by
      have := hfits.ctx.contextMetaKvSize_le
      have := hfits.serializationType
      have := hfits.pattern
      have hsize : (reqHeader limitDomain call).size = 1 +
        (reqHeader limitDomain call).serializationType.length + 1 +
        (reqHeader limitDomain call).pattern.length + 4 +
        contextMetaKvSize call.ctx.getMetaKeyValsArray := rfl
      rw [encodeReqHeader_length]
      omega
    exact readPayload_prefix_iff body (fun data h => (ServerRequest.mk.inj h).2.2.2.2)
      (fun len hlen => run_getRequest hfits reqId name funcName hlen) hlt mem

/-- Multiples of `2 ^ 32` do not change the length in front. -/
theorem ofNat_length_append {header body : Bytes} (h : body.length % 2 ^ 32 = 0) :
    UInt32.ofNat (header ++ body).length = UInt32.ofNat header.length := by
  refine UInt32.toNat_inj.1 ?_
  show (header ++ body).length % 2 ^ 32 = header.length % 2 ^ 32
  rw [List.length_append]
  omega

theorem rspFrameAgrees_iff {serializationType : Bytes} {reqIdBuf : ReqIdBuf} {m : Payload}
    {size : UInt64} (hsend : (rspUser serializationType reqIdBuf).send p m size fuel = some run)
    (hput : run.outcome = .shm payload) :
    (rspUser serializationType reqIdBuf).FrameAgrees m
        (fun bytes frame => ∀ recorded, handleRspPayload recorded bytes =
          handleRspPayload recorded frame) payload ↔
      m.body.length % 2 ^ 32 = 0 ∧
        Copyable m (size.toNat - (4 + (1 + serializationType.length + 4 + 4))) := by
  rw [← encodeRspHeader_length serializationType reqIdBuf 0]
  refine (rspUser_lawful serializationType reqIdBuf).frameAgrees_iff (fun _ => ?_)
    (fun hfits body mem => ?_) hsend hput
  · rw [encodeRspHeader_length]
    rfl
  have hlt : (encodeRspHeader serializationType reqIdBuf 0).length < 2 ^ 32 := by
    have : serializationType.length ≤ 255 := hfits
    rw [encodeRspHeader_length]
    omega
  constructor
  · intro h
    have hprefix := readPayload_prefix_iff body (t := getRsp fun _ => true)
      (g := fun data => (Mqtt.RspHeader.mk serializationType reqIdBuf.reqId 0, some data))
      (fun data heq => Option.some.inj (Prod.mk.inj heq).2)
      (fun len hlen => run_getRsp hfits reqIdBuf hlen) hlt mem
    exact hprefix.1 (h _)
  · intro h recorded
    have hle : (UInt32.ofNat (encodeRspHeader serializationType reqIdBuf 0).length).toNat ≤
        (encodeRspHeader serializationType reqIdBuf 0 ++ body).length := by
      rw [List.length_append]
      exact (Nat.mod_le _ _).trans (Nat.le_add_right _ _)
    have hframe := FrameReading.readPayload_append_append (getRsp recorded) hle []
    rw [List.append_nil] at hframe
    rw [handleRspPayload, handleRspPayload, ofNat_length_append h, hframe]
    exact FrameReading.readPayload_append_append (getRsp recorded) hle mem

theorem ZenohRpcBackend.sendReq_frameAgrees_iff {b : ZenohRpcBackend} {call : ClientCall}
    {reqId : UInt32} {req : Bytes → Payload}
    (hrun : b.sendReq p call reqId req fuel = .ok (some run)) (hput : run.outcome = .shm payload)
    (name funcName : Bytes) :
    (reqUser (reqHeader b.limitDomain call) reqId).FrameAgrees
        (req (reqHeader b.limitDomain call).serializationType)
        (fun bytes frame => handleRequest name funcName bytes = handleRequest name funcName frame)
        payload ↔
      (req (reqHeader b.limitDomain call).serializationType).body.length % 2 ^ 32 = 0 ∧
        Copyable (req (reqHeader b.limitDomain call).serializationType)
          ((b.zNodeShmSizeMap (reqHeader b.limitDomain call).nodePubTopic).toNat -
            (4 + (reqHeader b.limitDomain call).size)) := by
  rcases sendReq_cases hrun with rfl | ⟨hcount, rfl | hsend⟩
  · cases hput
  · exact absurd hput (ShmUser.sendNet_ne_shm _ _ payload)
  · exact reqFrameAgrees_iff hcount hsend hput name funcName

/-- **Main result.**  What the shared memory branches put is decoded like the frames for the same data
if and only if there is no data, up to multiples of `2 ^ 32` bytes, and a cached serialization has at
most one buffer and fits into the remembered size. -/
theorem zenohRpc_frameAgrees (b : ZenohRpcBackend) (p : Provider) (fuel : ℕ) :
    (∀ (call : ClientCall) (reqId : UInt32) (req : Bytes → Payload) (name funcName : Bytes)
      (run : ShmRun), b.sendReq p call reqId req fuel = .ok (some run) →
      ∀ payload, run.outcome = .shm payload →
        let h := reqHeader b.limitDomain call
        let m := req h.serializationType
        ((reqUser h reqId).FrameAgrees m (fun bytes frame =>
            handleRequest name funcName bytes = handleRequest name funcName frame) payload ↔
          m.body.length % 2 ^ 32 = 0 ∧
            Copyable m ((b.zNodeShmSizeMap h.nodePubTopic).toNat - (4 + h.size)))) ∧
    (∀ (pattern serializationType : Bytes) (reqIdBuf : ReqIdBuf) (m : Payload) (run : ShmRun),
      b.sendRsp p pattern serializationType reqIdBuf m fuel = some run →
      ∀ payload, run.outcome = .shm payload →
        ((rspUser serializationType reqIdBuf).FrameAgrees m (fun bytes frame =>
            ∀ recorded, handleRspPayload recorded bytes = handleRspPayload recorded frame) payload ↔
          m.body.length % 2 ^ 32 = 0 ∧
            Copyable m ((b.zNodeShmSizeMap (ascii "rsp/" ++ pattern)).toNat -
              (4 + (1 + serializationType.length + 4 + 4))))) := by
  constructor
  · intro call reqId req name funcName run hrun payload hput
    exact ZenohRpcBackend.sendReq_frameAgrees_iff hrun hput name funcName
  · intro pattern serializationType reqIdBuf m run hrun payload hput
    rcases ZenohRpcBackend.sendRsp_cases hrun with rfl | rfl | hsend
    · cases hput
    · exact absurd hput (ShmUser.sendNet_ne_shm _ _ payload)
    · exact rspFrameAgrees_iff hsend hput

def exampleCall : ClientCall := ⟨[], ∅⟩

/-- Data that is serialized into one buffer. -/
def exampleData (data : Bytes) : Payload where
  cache := none
  serialization := { buffers := [⟨data.length, data, le_rfl⟩], ok := true, filled := by simp }

def exampleReqIdBuf : ReqIdBuf := ⟨[7, 0, 0, 0], rfl⟩

def exampleRpcBackend : ZenohRpcBackend where
  state := .start
  limitDomain := []
  publisherRegisterMap _ := some true
  zNodeShmSizeMap _ := 64

theorem zenohRpc_frameAgrees_empty : ∃ run payload run' payload',
    exampleRpcBackend.sendReq exampleProvider exampleCall 7 (fun _ => exampleData []) 1 =
        .ok (some run) ∧ run.outcome = .shm payload ∧
      (reqUser (reqHeader [] exampleCall) 7).FrameAgrees (exampleData []) (fun bytes frame =>
        handleRequest [] [] bytes = handleRequest [] [] frame) payload ∧
    exampleRpcBackend.sendRsp exampleProvider [] [] exampleReqIdBuf (exampleData []) 1 =
        some run' ∧ run'.outcome = .shm payload' ∧
      (rspUser [] exampleReqIdBuf).FrameAgrees (exampleData []) (fun bytes frame =>
        ∀ recorded, handleRspPayload recorded bytes = handleRspPayload recorded frame) payload' := by
  have h := zenohRpc_frameAgrees exampleRpcBackend exampleProvider 1
  have hreq := (h.1 exampleCall 7 (fun _ => exampleData []) [] [] _ rfl _ rfl).2 ⟨rfl, nofun⟩
  have hrsp := (h.2 [] [] exampleReqIdBuf (exampleData []) _ rfl _ rfl).2 ⟨rfl, nofun⟩
  exact ⟨_, _, _, _, rfl, rfl, hreq, rfl, rfl, hrsp⟩

/-- A request with one byte of data loses it. -/
theorem not_zenohRpc_frameAgrees : ¬ ∀ (b : ZenohRpcBackend) (p : Provider) (fuel : ℕ)
    (call : ClientCall) (reqId : UInt32) (req : Bytes → Payload) (name funcName : Bytes)
    (run : ShmRun) (payload : Option Bytes),
    b.sendReq p call reqId req fuel = .ok (some run) → run.outcome = .shm payload →
      (reqUser (reqHeader b.limitDomain call) reqId).FrameAgrees
        (req (reqHeader b.limitDomain call).serializationType) (fun bytes frame =>
          handleRequest name funcName bytes = handleRequest name funcName frame) payload := by
  intro h
  have hagrees := h exampleRpcBackend exampleProvider 1 exampleCall 7 (fun _ => exampleData [1]) [] []
    _ _ rfl rfl
  have hrun : exampleRpcBackend.sendReq exampleProvider exampleCall 7 (fun _ => exampleData [1]) 1 =
    .ok (some _) := rfl
  have hlen := ((ZenohRpcBackend.sendReq_frameAgrees_iff hrun rfl [] []).1 hagrees).1
  exact absurd hlen (by decide)

/-! ### Responses with a status -/

/-- A response that was read has a header of its own length. -/
theorem length_of_run_getRsp {recorded : UInt32 → Bool} {len : ℕ} {mem : Bytes}
    {rsp : Mqtt.RspHeader × Option Bytes} (h : (getRsp recorded).run len mem = .value rsp) :
    1 + rsp.1.serializationType.length + 4 + 4 ≤ mem.length := by
  obtain ⟨hlen, h⟩ := Reading.run_take_eq_value (k := 1) h
  obtain ⟨htype, h⟩ := Reading.run_take_eq_value h
  obtain ⟨hid, h⟩ := Reading.run_take_eq_value (k := 4) h
  obtain ⟨hcode, h⟩ := Reading.run_take_eq_value (k := 4) h
  rw [List.length_drop] at htype
  rw [List.length_drop, List.length_drop] at hid
  rw [List.length_drop, List.length_drop, List.length_drop] at hcode
  have hle : rsp.1.serializationType.length ≤ (UInt8.ofNat (ofLe (mem.take 1))).toNat := by
    change Reading.run (if _ then _ else _) _ _ = _ at h
    split at h
    · change (if _ then _ else _) = _ at h
      split at h
      · cases h
      · obtain rfl := ReadResult.value.inj h
        exact List.length_take_le _ _
    · obtain rfl := ReadResult.value.inj h
      exact List.length_take_le _ _
  omega

/-- **Main result.**  The client takes no response with a status for what it is: four bytes of it go
for a length that is not there, and what is left is too short for its header. -/
theorem returnRsp_not_decoded {serializationType : Bytes} (htype : serializationType.length ≤ 255)
    (reqIdBuf : ReqIdBuf) (code : Status) (recorded : UInt32 → Bool) :
    ∃ payload, returnRspWithStatusCode serializationType reqIdBuf code = .ok payload ∧
      ∀ data, handleRspPayload recorded payload ≠ .value
        ({ serializationType := serializationType, reqId := reqIdBuf.reqId, code := code }, data) := by
  have hlen := encodeRspHeader_length serializationType reqIdBuf code
  have hfill := fillBuffer_of (writes_setRspHeader serializationType reqIdBuf code)
    htype
  rw [hlen] at hfill
  refine ⟨_, hfill, fun data hread => ?_⟩
  unfold handleRspPayload FrameReading.readPayload at hread
  split at hread
  · have hle := length_of_run_getRsp hread
    rw [List.length_drop, hlen] at hle
    dsimp only at hle
    omega
  · cases hread
  · cases hread

theorem returnRsp_not_decoded_five : ∃ payload,
    returnRspWithStatusCode [112, 98] exampleReqIdBuf 5 = .ok payload ∧
      ∀ data, handleRspPayload (fun _ => true) payload ≠ .value
        ({ serializationType := [112, 98], reqId := 7, code := 5 }, data) :=
  returnRsp_not_decoded (by decide) exampleReqIdBuf 5 fun _ => true

theorem not_returnRsp_decoded : ¬ ∀ (serializationType : Bytes) (reqIdBuf : ReqIdBuf) (code : Status)
    (recorded : UInt32 → Bool), serializationType.length ≤ 255 → code ≠ 0 →
    ∃ payload data, returnRspWithStatusCode serializationType reqIdBuf code = .ok payload ∧
      handleRspPayload recorded payload = .value
        ({ serializationType := serializationType, reqId := reqIdBuf.reqId, code := code }, data) := by
  intro h
  obtain ⟨payload, data, hpayload, hread⟩ :=
    h [112, 98] exampleReqIdBuf 5 (fun _ => true) (by decide) (by decide)
  obtain rfl := Except.ok.inj hpayload
  cases hread

end AimRT.Zenoh

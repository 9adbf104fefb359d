import AimRT.Util.Context
import AimRT.Mqtt.MqttMessage

/-!
# The channel backends of the tcp, udp and mqtt plugins

`Publish` writes a message into one frame and sends it; the handler that `Subscribe` registers
decodes the frame.  The tcp and udp backends put the pattern of the channel in front, for the
dispatch by `MsgHandleRegistry`; the mqtt backend uses the pattern as the topic of the message.

The frame size is computed before the fields are written, in 32 bits by the tcp and udp backends;
a frame is sent only when the fields fill it exactly.
-/

namespace AimRT.Channel

open AimRT.Lib AimRT.Util AimRT.Mqtt

inductive State where
  | preInit
  | init
  | start
  | shutdown
  deriving DecidableEq, Repr

def kSerializationType : Bytes := ascii "aimrt-serialization_type"

def kBackend : Bytes := ascii "aimrt-backend"

def kToAddr : Bytes := ascii "aimrt-to_addr"

/-- What `Publish` reads of a `MsgWrapper`; `serialize` is `SerializeMsgWithCache`. -/
structure MsgWrapper where
  topicName : Bytes
  msgType : Bytes
  ctx : Context
  defaultSerializationType : Bytes
  serialize : Bytes → Option (List Bytes)

/-- The serialization type of the context, or the default one. -/
def MsgWrapper.serializationType (msg : MsgWrapper) : Bytes :=
  let serializationType := msg.ctx.getMetaValue kSerializationType
  if serializationType = [] then msg.defaultSerializationType else serializationType

/-- A message whose serialization type and context fit their lengths on the wire. -/
structure MsgWrapper.Fits (msg : MsgWrapper) : Prop where
  serializationType : msg.serializationType.length ≤ 255
  ctx : msg.ctx.Fits

/-- The uri of a channel. -/
def channelPattern (topicName msgType : Bytes) : Bytes :=
  ascii "/channel/" ++ urlEncode topicName ++ ascii "/" ++ urlEncode msgType

def MsgWrapper.pattern (msg : MsgWrapper) : Bytes := channelPattern msg.topicName msg.msgType

/-- The exceptions of `Publish`, each logged by its `catch`. -/
inductive PublishError where
  | notStart
  | invalidToAddr
  | noPubCfgInfo
  | emptyServerList
  | serializationFailed
  | tooMuchContextMeta
  | pkgTooLarge
  | buffer (e : BufferError)
  deriving DecidableEq, Repr

/-- The fields from the serialization type on. -/
def setMsg (serializationType : Bytes) (metaKeyValsArray bufferArray : List Bytes)
    (op : BufferOperator) : Except BufferError BufferOperator := do
  let op ← op.setString serializationType .uInt8
  let op ← setContext metaKeyValsArray op
  bufferArray.foldlM (fun op data => op.setBuffer data) op

def encodeMsg (serializationType : Bytes) (metaKeyValsArray bufferArray : List Bytes) : Bytes :=
  encodeString .uInt8 serializationType ++
    (encodeContext metaKeyValsArray ++ bufferArray.flatten)

theorem writes_setMsg (serializationType : Bytes) {ctx : Context}
    (hcount : ¬ ctx.getMetaKeyValsArray.length / 2 > 255) (bufferArray : List Bytes) :
    Writes (setMsg serializationType ctx.getMetaKeyValsArray bufferArray)
      (encodeMsg serializationType ctx.getMetaKeyValsArray bufferArray)
      (serializationType.length ≤ 255 ∧ ctx.Fits ∧ True) :=
  (writes_setString _ _).bind ((writes_setContext hcount).bind (writes_setBuffers bufferArray))

/-! ### Subscribers -/

/-- What a handler passes to `DoSubscribeCallback`. -/
structure Delivery where
  serializationType : Bytes
  ctx : Context
  buf : Bytes

/-- The handler from the serialization type on; `name` is the name of the backend. -/
def getMsg (name : Bytes) : BufferReader Delivery := do
  let serializationType ← ConstBufferOperator.getString .uInt8
  let ctx ← getContext (Context.setMetaValue ∅ kSerializationType serializationType)
  let ctx := ctx.setMetaValue kBackend name
  let remainingBuf ← ConstBufferOperator.getRemainingBuffer
  return { serializationType := serializationType, ctx := ctx, buf := remainingBuf }

/-- The context of a subscriber: the meta pairs of the publisher behind the serialization type, and
the name of the backend over both. -/
def deliveredContext (name serializationType : Bytes) (ctx : Context) : Context :=
  ((Context.setMetaValue ∅ kSerializationType serializationType).setMetaValues ctx.entries).setMetaValue
    kBackend name

theorem lookup_deliveredContext {name serializationType key val : Bytes} {ctx : Context}
    (h : ctx.lookup key = some val) (hbackend : key ≠ kBackend) :
    (deliveredContext name serializationType ctx).lookup key = some val := by
  rw [deliveredContext, Context.setMetaValue, AList.lookup_insert_ne hbackend,
    Context.lookup_setMetaValues ctx.nodupKeys]
  rw [AList.lookup] at h
  rw [h, Option.some_or]

/-- **Round trip.**  The handler decodes what `setMsg` writes. -/
theorem readsAll_getMsg {name serializationType : Bytes} {ctx : Context} {bufferArray : List Bytes}
    (htype : serializationType.length ≤ 255) (h : ctx.Fits) :
    ReadsAll (getMsg name) (encodeMsg serializationType ctx.getMetaKeyValsArray bufferArray)
      { serializationType := serializationType
        ctx := deliveredContext name serializationType ctx
        buf := bufferArray.flatten } := by
  rw [encodeMsg]
  refine (reads_getString htype).bindAll ?_
  refine (reads_getContext h _).bindAll ?_
  exact (readsAll_getRemainingBuffer _).map
    (Delivery.mk serializationType (deliveredContext name serializationType ctx))

/-! ### The tcp and udp backends -/

/-- A tcp or udp backend with server endpoints of type `ε`.  `parseEndpoint` is `ParseUrl` with the
conversion of host and port: no value where it throws, no endpoint where the url does not parse. -/
structure NetChannelBackend (ε : Type) where
  state : State
  pubCfgInfoMap : Bytes → Option (List ε)
  parseEndpoint : Bytes → Option (Option ε)

namespace NetChannelBackend

variable {ε : Type}

/-- The servers in the `to_addr` value that have the scheme of the backend. -/
def toAddrServerEpVec (b : NetChannelBackend ε) (scheme toAddr : Bytes) : Option (List ε) := do
  let addrs := (splitToVec toAddr 59).filter fun addr => scheme.isPrefixOf addr
  let eps ← addrs.mapM fun addr => b.parseEndpoint (addr.drop scheme.length)
  return eps.reduceOption

/-- The servers of the `to_addr` value, or those configured for the topic. -/
def serverEpVec (b : NetChannelBackend ε) (scheme : Bytes) (msg : MsgWrapper) :
    Except PublishError (List ε) :=
  match b.toAddrServerEpVec scheme (msg.ctx.getMetaValue kToAddr) with
  | none => throw .invalidToAddr
  | some (ep :: eps) => return ep :: eps
  | some [] =>
    match b.pubCfgInfoMap msg.topicName with
    | none => throw .noPubCfgInfo
    | some [] => throw .emptyServerList
    | some (ep :: eps) => return ep :: eps

end NetChannelBackend

/-- The frame of a tcp or udp backend; `pkg_size` is a `uint32_t`. -/
def netFrame (msg : MsgWrapper) : Except PublishError Bytes := do
  match msg.serialize msg.serializationType with
  | none => throw .serializationFailed
  | some bufferArray =>
    let metaKeyValsArray := msg.ctx.getMetaKeyValsArray
    if metaKeyValsArray.length / 2 > 255 then throw .tooMuchContextMeta
    else
      let pkgSize := (1 + msg.pattern.length + 1 + msg.serializationType.length +
        contextMetaKvSize metaKeyValsArray + bufferArray.flatten.length) % 2 ^ 32
      let frame := fillBuffer pkgSize fun op => do
        let op ← op.setString msg.pattern .uInt8
        setMsg msg.serializationType metaKeyValsArray bufferArray op
      frame.mapError .buffer

/-- `Publish`: the frames sent, each with the server it goes to. -/
def NetChannelBackend.publish {ε : Type} (b : NetChannelBackend ε) (scheme : Bytes)
    (msg : MsgWrapper) : Except PublishError (List (ε × Bytes)) := do
  if b.state ≠ .start then throw .notStart
  else
    let servers ← b.serverEpVec scheme msg
    let frame ← netFrame msg
    return servers.map fun ep => (ep, frame)

/-- `TcpChannelBackend::Publish` -/
def tcpPublish {ε : Type} (b : NetChannelBackend ε) (msg : MsgWrapper) :
    Except PublishError (List (ε × Bytes)) := b.publish (ascii "tcp://") msg

/-- `UdpChannelBackend::Publish` -/
def udpPublish {ε : Type} (b : NetChannelBackend ε) (msg : MsgWrapper) :
    Except PublishError (List (ε × Bytes)) := b.publish (ascii "udp://") msg

/-- What is on the wire after `Publish`; its `catch` sends nothing. -/
def sent {β : Type} : Except PublishError (List β) → List β
  | .ok frames => frames
  | .error _ => []

/-- The dispatch of received frames: `msg_handle_map_` has a handler for each of these uris. -/
structure MsgHandleRegistry where
  shutdownFlag : Bool
  msgHandleMap : List Bytes

def MsgHandleRegistry.registerMsgHandle (reg : MsgHandleRegistry) (uri : Bytes) : MsgHandleRegistry :=
  if uri ∈ reg.msgHandleMap then reg else { reg with msgHandleMap := uri :: reg.msgHandleMap }

/-- `Subscribe` registers the uri of the channel. -/
def subscribe (reg : MsgHandleRegistry) (topicName msgType : Bytes) : MsgHandleRegistry :=
  reg.registerMsgHandle (channelPattern topicName msgType)

inductive HandleError where
  | invalidMsg
  | buffer (e : BufferError)
  deriving DecidableEq, Repr

/-- The handler of the tcp and udp backends. -/
def netHandle (name : Bytes) : BufferReader Delivery := do
  let _pattern ← ConstBufferOperator.getString .uInt8
  getMsg name

/-- `HandleServerMsg`: the uri of a frame and what its handler delivers. -/
def handleServerMsg (name : Bytes) (reg : MsgHandleRegistry) (buf : Bytes) :
    Except HandleError (Option (Bytes × Delivery)) :=
  if reg.shutdownFlag then return none
  else
    match buf with
    | [] => throw .invalidMsg
    | b :: bs =>
      let uriSize := b.toNat
      if buf.length > 1 ∧ buf.length > uriSize + 1 then
        let uri := bs.take uriSize
        if uri ∈ reg.msgHandleMap then
          match (netHandle name).run' (ConstBufferOperator.ofBytes buf) with
          | .ok d => return some (uri, d)
          | .error e => throw (.buffer e)
        else return none
      else throw .invalidMsg

theorem mapError_ok {ε ε' β : Type} {x : Except ε β} {f : ε → ε'} {b : β}
    (h : x.mapError f = .ok b) : x = .ok b := by
  cases x with
  | error e => cases h
  | ok a => exact congrArg Except.ok (Except.ok.inj h)

theorem encodeMsg_length (serializationType : Bytes) (arr bufferArray : List Bytes) :
    (encodeMsg serializationType arr bufferArray).length =
      1 + serializationType.length + contextMetaKvSize arr + bufferArray.flatten.length := by
  rw [encodeMsg]
  simp only [List.length_append, encodeString_length, encodeContext_length, BufferLenType.size]
  omega

theorem netFrame_ok {msg : MsgWrapper} {frame : Bytes} (h : netFrame msg = .ok frame) :
    ∃ bufferArray, msg.serialize msg.serializationType = some bufferArray ∧
      msg.pattern.length ≤ 255 ∧ msg.Fits ∧
      frame = encodeString .uInt8 msg.pattern ++
        encodeMsg msg.serializationType msg.ctx.getMetaKeyValsArray bufferArray := by
  unfold netFrame at h
  cases hser : msg.serialize msg.serializationType with
  | none =>
    rw [hser] at h
    cases h
  | some bufferArray =>
    rw [hser] at h
    by_cases hcount : msg.ctx.getMetaKeyValsArray.length / 2 > 255
    · simp only [if_pos hcount] at h
      cases h
    · simp only [if_neg hcount] at h
      have hw := (writes_setString msg.pattern .uInt8).bind
        (writes_setMsg msg.serializationType hcount bufferArray)
      obtain ⟨hframe, _, hpattern, htype, hctx, _⟩ := fillBuffer_ok hw (by
        refine (Nat.mod_le _ _).trans ?_
        rw [List.length_append, encodeString_length, encodeMsg_length, BufferLenType.size]
        omega) (mapError_ok h)
      exact ⟨bufferArray, rfl, hpattern, ⟨htype, hctx⟩, hframe⟩

/-- A message that fits and has less than `2 ^ 32` bytes has a frame. -/
theorem netFrame_of_fits {msg : MsgWrapper} {bufferArray : List Bytes}
    (hser : msg.serialize msg.serializationType = some bufferArray)
    (hpattern : msg.pattern.length ≤ 255) (hfits : msg.Fits)
    (hsize : (encodeString .uInt8 msg.pattern ++
      encodeMsg msg.serializationType msg.ctx.getMetaKeyValsArray bufferArray).length < 2 ^ 32) :
    netFrame msg = .ok (encodeString .uInt8 msg.pattern ++
      encodeMsg msg.serializationType msg.ctx.getMetaKeyValsArray bufferArray) := by
  have hcount : ¬ msg.ctx.getMetaKeyValsArray.length / 2 > 255 := by
    rw [Context.getMetaKeyValsArray_length]
    exact Nat.not_lt.2 hfits.ctx.pairs
  have hw := (writes_setString msg.pattern .uInt8).bind
    (writes_setMsg msg.serializationType hcount bufferArray)
  have hfill := fillBuffer_of hw ⟨hpattern, hfits.serializationType, hfits.ctx, trivial⟩
  have hpkg : (1 + msg.pattern.length + 1 + msg.serializationType.length +
      contextMetaKvSize msg.ctx.getMetaKeyValsArray + bufferArray.flatten.length) % 2 ^ 32 =
      (encodeString .uInt8 msg.pattern ++
        encodeMsg msg.serializationType msg.ctx.getMetaKeyValsArray bufferArray).length := by
    rw [List.length_append, encodeString_length, encodeMsg_length] at hsize ⊢
    simp only [BufferLenType.size] at hsize ⊢
    rw [Nat.mod_eq_of_lt (by omega)]
    omega
  unfold netFrame
  rw [hser]
  simp only [if_neg hcount, hpkg]
  exact congrArg (Except.mapError PublishError.buffer) hfill

theorem readsAll_netHandle {name pattern serializationType : Bytes} {ctx : Context}
    {bufferArray : List Bytes} (hpattern : pattern.length ≤ 255)
    (htype : serializationType.length ≤ 255) (h : ctx.Fits) :
    ReadsAll (netHandle name) (encodeString .uInt8 pattern ++
        encodeMsg serializationType ctx.getMetaKeyValsArray bufferArray)
      (Delivery.mk serializationType (deliveredContext name serializationType ctx)
        bufferArray.flatten) :=
  (reads_getString hpattern).bindAll (readsAll_getMsg htype h)

/-- The dispatch finds the pattern in front of a frame and calls the handler. -/
theorem handleServerMsg_netFrame {name frame : Bytes} {reg : MsgHandleRegistry} {msg : MsgWrapper}
    (hreg : reg.shutdownFlag = false) (huri : msg.pattern ∈ reg.msgHandleMap)
    (h : netFrame msg = .ok frame) :
    ∃ bufferArray, msg.serialize msg.serializationType = some bufferArray ∧
      handleServerMsg name reg frame = .ok (some (msg.pattern,
        { serializationType := msg.serializationType
          ctx := deliveredContext name msg.serializationType msg.ctx
          buf := bufferArray.flatten })) := by
  obtain ⟨bufferArray, hser, hpattern, hfits, rfl⟩ := netFrame_ok h
  refine ⟨bufferArray, hser, ?_⟩
  have hrun : (netHandle name).run' (ConstBufferOperator.ofBytes (encodeString .uInt8 msg.pattern ++
      encodeMsg msg.serializationType msg.ctx.getMetaKeyValsArray bufferArray)) = .ok _ :=
    (readsAll_netHandle hpattern hfits.serializationType hfits.ctx).run
  have hlen := encodeMsg_length msg.serializationType msg.ctx.getMetaKeyValsArray bufferArray
  have hsize : (UInt8.ofNat msg.pattern.length).toNat = msg.pattern.length :=
    UInt8.toNat_ofNat_of_lt' (Nat.lt_succ_of_le hpattern)
  have hcons : encodeString .uInt8 msg.pattern ++
      encodeMsg msg.serializationType msg.ctx.getMetaKeyValsArray bufferArray =
      UInt8.ofNat msg.pattern.length :: (msg.pattern ++
        encodeMsg msg.serializationType msg.ctx.getMetaKeyValsArray bufferArray) := rfl
  rw [hcons] at hrun ⊢
  rw [handleServerMsg, if_neg (by simp [hreg])]
  simp only [hsize]
  rw [if_pos (by simp only [List.length_cons, List.length_append]; omega), List.take_left,
    if_pos huri, hrun]
  rfl

/-! ### The mqtt backend -/

structure MqttChannelBackend where
  state : State
  pubCfgInfoMap : Bytes → Option ℕ
  maxPkgSize : UInt32

/-- The frame of the mqtt backend. -/
def mqttFrame (maxPkgSize : UInt32) (msg : MsgWrapper) : Except PublishError Bytes := do
  match msg.serialize msg.serializationType with
  | none => throw .serializationFailed
  | some bufferArray =>
    let metaKeyValsArray := msg.ctx.getMetaKeyValsArray
    if metaKeyValsArray.length / 2 > 255 then throw .tooMuchContextMeta
    else
      let mqttPkgSize := (1 + msg.serializationType.length + contextMetaKvSize metaKeyValsArray +
        bufferArray.flatten.length) % 2 ^ 64
      if mqttPkgSize > maxPkgSize.toNat then throw .pkgTooLarge
      else
        let frame :=
          fillBuffer mqttPkgSize (setMsg msg.serializationType metaKeyValsArray bufferArray)
        frame.mapError .buffer

def MqttChannelBackend.publish (b : MqttChannelBackend) (msg : MsgWrapper) :
    Except PublishError (List MqttMessage) := do
  if b.state ≠ .start then throw .notStart
  else
    let qos := (b.pubCfgInfoMap msg.topicName).getD 2
    let frame ← mqttFrame b.maxPkgSize msg
    return [mqttMessage msg.pattern frame qos]

/-- The handler of the mqtt backend. -/
def mqttHandle (name : Bytes) : BufferReader Delivery := getMsg name

theorem mqttFrame_ok {maxPkgSize : UInt32} {msg : MsgWrapper} {frame : Bytes}
    (h : mqttFrame maxPkgSize msg = .ok frame) :
    ∃ bufferArray, msg.serialize msg.serializationType = some bufferArray ∧
      frame.length < 2 ^ 32 ∧ msg.Fits ∧
      frame = encodeMsg msg.serializationType msg.ctx.getMetaKeyValsArray bufferArray := by
  unfold mqttFrame at h
  cases hser : msg.serialize msg.serializationType with
  | none =>
    rw [hser] at h
    cases h
  | some bufferArray =>
    rw [hser] at h
    by_cases hcount : msg.ctx.getMetaKeyValsArray.length / 2 > 255
    · simp only [if_pos hcount] at h
      cases h
    · simp only [if_neg hcount] at h
      split at h
      · cases h
      · rename_i hmax
        have hw := writes_setMsg msg.serializationType hcount bufferArray
        have hlen := encodeMsg_length msg.serializationType msg.ctx.getMetaKeyValsArray bufferArray
        obtain ⟨rfl, hsize, htype, hctx, _⟩ := fillBuffer_ok hw (by
          rw [hlen]
          exact Nat.mod_le _ _) (mapError_ok h)
        refine ⟨bufferArray, rfl, ?_, ⟨htype, hctx⟩, rfl⟩
        have := maxPkgSize.toNat_lt
        omega

/-! ### The round trip -/

/-- A delivery that carries the message: its serialization type, the meta pairs of its context (set
one after the other, over the serialization type and under the name of the backend) and its data. -/
structure Delivers (name : Bytes) (msg : MsgWrapper) (d : Delivery) : Prop where
  serializationType : d.serializationType = msg.serializationType
  ctx : d.ctx = deliveredContext name msg.serializationType msg.ctx
  metaKeyVals : ∀ key val, msg.ctx.lookup key = some val → key ≠ kBackend →
    d.ctx.lookup key = some val
  buf : ∃ bufferArray, msg.serialize msg.serializationType = some bufferArray ∧
    d.buf = bufferArray.flatten

theorem delivers_delivery {name : Bytes} {msg : MsgWrapper} {bufferArray : List Bytes}
    (h : msg.serialize msg.serializationType = some bufferArray) :
    Delivers name msg
      { serializationType := msg.serializationType
        ctx := deliveredContext name msg.serializationType msg.ctx
        buf := bufferArray.flatten } where
  serializationType := rfl
  ctx := rfl
  metaKeyVals _ _ hlookup hbackend := lookup_deliveredContext hlookup hbackend
  buf := ⟨bufferArray, h, rfl⟩

/-- The frames that the mqtt backend puts on the wire. -/
def MqttChannelBackend.frames (b : MqttChannelBackend) (msg : MsgWrapper) : List Bytes :=
  (sent (b.publish msg)).flatMap MqttMessage.onWire

theorem NetChannelBackend.frame_of_mem_sent {ε : Type} {b : NetChannelBackend ε} {scheme : Bytes}
    {msg : MsgWrapper} {ep : ε} {frame : Bytes} (h : (ep, frame) ∈ sent (b.publish scheme msg)) :
    netFrame msg = .ok frame := by
  unfold NetChannelBackend.publish at h
  split at h
  · cases h
  · cases hservers : b.serverEpVec scheme msg with
    | error e =>
      rw [hservers] at h
      cases h
    | ok servers =>
      cases hframe : netFrame msg with
      | error e =>
        rw [hservers, hframe] at h
        cases h
      | ok f =>
        rw [hservers, hframe] at h
        obtain ⟨_, _, heq⟩ := List.mem_map.1 (show (ep, frame) ∈ servers.map fun ep => (ep, f) from h)
        rw [(Prod.mk.inj heq).2]

theorem MqttChannelBackend.frame_of_mem_frames {b : MqttChannelBackend} {msg : MsgWrapper}
    {frame : Bytes} (h : frame ∈ b.frames msg) : mqttFrame b.maxPkgSize msg = .ok frame := by
  unfold MqttChannelBackend.frames MqttChannelBackend.publish at h
  split at h
  · cases h
  · cases hframe : mqttFrame b.maxPkgSize msg with
    | error e =>
      rw [hframe] at h
      cases h
    | ok f =>
      rw [hframe] at h
      obtain ⟨_, _, hlen, _, _⟩ := mqttFrame_ok hframe
      have hmem : frame ∈ (mqttMessage msg.pattern f ((b.pubCfgInfoMap msg.topicName).getD 2)).onWire := by
        simpa [sent] using h
      rw [eq_of_mem_onWire hlen hmem]

theorem mem_subscribe (reg : MsgHandleRegistry) (topicName msgType : Bytes) :
    channelPattern topicName msgType ∈ (subscribe reg topicName msgType).msgHandleMap := by
  unfold subscribe MsgHandleRegistry.registerMsgHandle
  split
  · assumption
  · exact List.mem_cons_self

theorem subscribe_shutdownFlag (reg : MsgHandleRegistry) (topicName msgType : Bytes) :
    (subscribe reg topicName msgType).shutdownFlag = reg.shutdownFlag := by
  unfold subscribe MsgHandleRegistry.registerMsgHandle
  split <;> rfl

/-- The frames of a publisher with servers, and what the subscriber of the channel makes of them. -/
def NetRoundTrip {ε : Type} (publish : MsgWrapper → Except PublishError (List (ε × Bytes)))
    (name : Bytes) (msg : MsgWrapper) : Prop :=
  (∀ reg : MsgHandleRegistry, reg.shutdownFlag = false →
    ∀ ep frame, (ep, frame) ∈ sent (publish msg) →
      ∃ d, handleServerMsg name (subscribe reg msg.topicName msg.msgType) frame =
        .ok (some (msg.pattern, d)) ∧ Delivers name msg d) ∧
  (¬ (msg.pattern.length ≤ 255 ∧ msg.Fits) →
    sent (publish msg) = [])

theorem NetChannelBackend.roundTrip {ε : Type} (b : NetChannelBackend ε) (scheme name : Bytes)
    (msg : MsgWrapper) : NetRoundTrip (b.publish scheme) name msg := by
  refine ⟨fun reg hreg ep frame hmem => ?_, fun hfits => ?_⟩
  · obtain ⟨bufferArray, hser, hhandle⟩ := handleServerMsg_netFrame
      ((subscribe_shutdownFlag reg _ _).trans hreg) (mem_subscribe reg _ _) (frame_of_mem_sent hmem)
    exact ⟨_, hhandle, delivers_delivery hser⟩
  · refine List.eq_nil_iff_forall_not_mem.2 ?_
    rintro ⟨ep, frame⟩ hmem
    obtain ⟨_, _, hpattern, hmsg, _⟩ := netFrame_ok (frame_of_mem_sent hmem)
    exact hfits ⟨hpattern, hmsg⟩

theorem MqttChannelBackend.roundTrip (b : MqttChannelBackend) (name : Bytes) (msg : MsgWrapper) :
    (∀ frame ∈ b.frames msg, ∃ d,
      (mqttHandle name).run' (ConstBufferOperator.ofBytes frame) = .ok d ∧ Delivers name msg d) ∧
    (¬ msg.Fits → b.frames msg = []) := by
  refine ⟨fun frame hmem => ?_, fun hfits => ?_⟩
  · obtain ⟨bufferArray, hser, _, hfits, rfl⟩ := mqttFrame_ok (frame_of_mem_frames hmem)
    exact ⟨_, (readsAll_getMsg hfits.serializationType hfits.ctx).run, delivers_delivery hser⟩
  · refine List.eq_nil_iff_forall_not_mem.2 fun frame hmem => ?_
    obtain ⟨_, _, _, hmsg, _⟩ := mqttFrame_ok (frame_of_mem_frames hmem)
    exact hfits hmsg

/-- **Main result.**  For the tcp and udp backends, what a subscriber of the channel decodes from a
sent frame is the pattern and a delivery of the message; for the mqtt backend, a delivery of the
message.  A message with a field that does not fit its length is not sent. -/
theorem channel_roundTrip (msg : MsgWrapper) (name : Bytes) :
    (∀ {ε : Type} (b : NetChannelBackend ε),
      NetRoundTrip (tcpPublish b) name msg ∧ NetRoundTrip (udpPublish b) name msg) ∧
    (∀ b : MqttChannelBackend,
      (∀ frame ∈ b.frames msg, ∃ d,
        (mqttHandle name).run' (ConstBufferOperator.ofBytes frame) = .ok d ∧ Delivers name msg d) ∧
      (¬ msg.Fits → b.frames msg = [])) :=
  ⟨fun b => ⟨b.roundTrip _ name msg, b.roundTrip _ name msg⟩, fun b => b.roundTrip name msg⟩

end AimRT.Channel

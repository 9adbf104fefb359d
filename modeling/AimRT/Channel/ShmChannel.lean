import AimRT.Channel.ChannelBackend
import AimRT.Util.BufferArray
import AimRT.Util.FrameReading

/-!
# Channel messages in shared memory

What the zenoh and iceoryx backends have in common: a message with its serializations, the fields that
`Publish` writes in front of it, and the reader of the handlers.  The reader takes the same fields as
that of the other backends, off memory that it has been told the length of.
-/

namespace AimRT.Channel

open AimRT.Lib AimRT.Util

/-- What `Publish` reads of a `MsgWrapper`: for each serialization type what is in the cache, and what
the type support does. -/
structure ShmMsgWrapper where
  wrapper : MsgWrapper
  payload : Bytes → Payload
  serialize_eq : ∀ serializationType,
    wrapper.serialize serializationType = (payload serializationType).trySerialize

namespace ShmMsgWrapper

def serializationType (msg : ShmMsgWrapper) : Bytes := msg.wrapper.serializationType

def metaKeyValsArray (msg : ShmMsgWrapper) : List Bytes := msg.wrapper.ctx.getMetaKeyValsArray

/-- The message in its serialization type. -/
def content (msg : ShmMsgWrapper) : Payload := msg.payload msg.serializationType

def typeAndCtxLen (msg : ShmMsgWrapper) : ℕ :=
  1 + msg.serializationType.length + contextMetaKvSize msg.metaKeyValsArray

/-- The fields in front of the message. -/
def setHeader (msg : ShmMsgWrapper) (op : BufferOperator) : Except BufferError BufferOperator := do
  let op ← op.setString msg.serializationType .uInt8
  setContext msg.metaKeyValsArray op

def header (msg : ShmMsgWrapper) : Bytes :=
  encodeString .uInt8 msg.serializationType ++ encodeContext msg.metaKeyValsArray

/-- The serialization type and the context fit their lengths. -/
def Fits (msg : ShmMsgWrapper) : Prop :=
  msg.serializationType.length ≤ 255 ∧ msg.wrapper.ctx.Fits

/-- What a subscriber of the backend `name` is to get. -/
def delivery (msg : ShmMsgWrapper) (name : Bytes) : Delivery where
  serializationType := msg.serializationType
  ctx := deliveredContext name msg.serializationType msg.wrapper.ctx
  buf := msg.content.body

end ShmMsgWrapper

/-- The reader of the handlers, for the backend `name`. -/
def readMsg (name : Bytes) : FrameReading Delivery := do
  let serializationType ← FrameReading.getString .uInt8
  let ctx ← FrameReading.getContext (Context.setMetaValue ∅ kSerializationType serializationType)
  let ctx := ctx.setMetaValue kBackend name
  let remainingBuf ← FrameReading.getRemainingBuffer
  return { serializationType := serializationType, ctx := ctx, buf := remainingBuf }

/-- It is the reader of the other backends. -/
theorem reader_readMsg (name : Bytes) : (readMsg name).reader = getMsg name := by
  simp [readMsg, getMsg]

/-- Where the memory is as long as the handler has been told, it reads what the others read. -/
theorem run_readMsg_eq_getMsg (name : Bytes) {len : ℕ} {mem : Bytes} (hlen : len ≤ mem.length) :
    (readMsg name).run len mem = FrameReading.readBuffer (getMsg name) (mem.take len) := by
  rw [FrameReading.run_eq_readBuffer _ hlen, reader_readMsg]

variable {msg : ShmMsgWrapper}

theorem ShmMsgWrapper.header_length : msg.header.length = msg.typeAndCtxLen := by
  rw [header, List.length_append, encodeString_length, encodeContext_length]
  rfl

theorem ShmMsgWrapper.writes_setHeader (hcount : ¬ msg.metaKeyValsArray.length / 2 > 255) :
    Writes msg.setHeader msg.header msg.Fits :=
  (writes_setString _ _).bind (writes_setContext hcount)

/-- The reader on the header of a message. -/
theorem ShmMsgWrapper.run_readMsg (hfits : msg.Fits) (name : Bytes) {len : ℕ} {mem : Bytes}
    (hlen : len ≤ (msg.header ++ mem).length) :
    (readMsg name).run len (msg.header ++ mem) =
      if msg.header.length ≤ len then
        .value
          { serializationType := msg.serializationType
            ctx := deliveredContext name msg.serializationType msg.wrapper.ctx
            buf := mem.take (len - msg.header.length) }
      else .rejected := by
  have hspells := (@FrameReading.spells_getString _ .uInt8 hfits.1).bind
    (f := fun serializationType => FrameReading.getContext
      (Context.setMetaValue ∅ kSerializationType serializationType) >>= fun ctx =>
        .done (serializationType, ctx))
    ((FrameReading.spells_getContext hfits.2 _).bind (Reading.spells_done _))
  rw [List.append_nil] at hspells
  have hrun := hspells.run_rest
    (fun b data => Delivery.mk b.1 (b.2.setMetaValue kBackend name) data) hlen
  simp only [Reading.bind_assoc] at hrun
  exact hrun

/-- The reader on a message of less than `2 ^ 32` bytes. -/
theorem ShmMsgWrapper.run_readMsg_of_lt (hfits : msg.Fits) (name : Bytes)
    (hlt : (msg.header ++ msg.content.body).length < 2 ^ 32) :
    (readMsg name).run ((msg.header ++ msg.content.body).length % 2 ^ 32)
      (msg.header ++ msg.content.body) = .value (msg.delivery name) := by
  rw [Nat.mod_eq_of_lt hlt, run_readMsg hfits name le_rfl, List.length_append,
    if_pos (Nat.le_add_right _ _), Nat.add_sub_cancel_left, List.take_length]
  rfl

/-! ### A message -/

/-- Two bytes that are serialized into one buffer. -/
def exampleSerialization : Serialization where
  buffers := [⟨2, [1, 2], le_rfl⟩]
  ok := true
  filled := by simp

/-- The same bytes in the cache, in two buffers. -/
def exampleView : BufferArrayView := ⟨[[1], [2]], by decide⟩

def exampleMsg (cache : Option BufferArrayView) : ShmMsgWrapper where
  wrapper :=
    { topicName := []
      msgType := []
      ctx := ∅
      defaultSerializationType := [112, 98]
      serialize := fun _ => Payload.trySerialize ⟨cache, exampleSerialization⟩ }
  payload _ := ⟨cache, exampleSerialization⟩
  serialize_eq _ := rfl

end AimRT.Channel

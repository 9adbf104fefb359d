import AimRT.Channel.ShmChannel
import AimRT.Zenoh.ZenohShmSend

/-!
# The zenoh channel backend

`Publish` puts a message through shared memory where this is enabled for its topic, and else, or where
the pool is not enough, as a frame; the handler that `Subscribe` registers decodes both.  In front of
either are the four bytes of the length of what follows.

The copy loop for a cached serialization takes the buffer `ii` from the view `ii` behind the pointer to
the one view there is, so that it leaves the view at its second buffer.
-/

namespace AimRT.Zenoh

open AimRT.Lib AimRT.Util AimRT.Channel

/-- The frame without shared memory.  Its size is an `int32_t`; the vector of a negative size is not
constructed. -/
def channelFrame (msg : ShmMsgWrapper) (bufferArray : List Bytes) : Option Bytes :=
  let dataSize := (msg.typeAndCtxLen + bufferArray.flatten.length) % 2 ^ 32
  let pkgSize := (dataSize + 4) % 2 ^ 32
  if pkgSize ≥ 2 ^ 31 then none
  else
    let frame := fillBuffer pkgSize fun op => do
      let op ← op.setUint32 (UInt32.ofNat dataSize)
      let op ← msg.setHeader op
      bufferArray.foldlM (fun op data => op.setBuffer data) op
    frame.toOption

def channelUser (msg : ShmMsgWrapper) : ShmUser where
  setHeader := msg.setHeader
  headerLen := msg.typeAndCtxLen
  msgSizeBits := 64
  pkgLen msgSize := UInt32.ofNat (msg.typeAndCtxLen + msgSize)
  netFrame := channelFrame msg

/-- `z_pub_shm_size_map_` and the publishers, with whether shared memory is enabled for them. -/
structure ZenohChannelBackend where
  state : State
  limitDomain : Bytes
  publisherRegisterMap : Bytes → Option Bool
  zPubShmSizeMap : Bytes → UInt64

def ZenohChannelBackend.zenohPubTopic (b : ZenohChannelBackend) (msg : ShmMsgWrapper) : Bytes :=
  ascii "channel/" ++ urlEncode msg.wrapper.topicName ++ ascii "/" ++
    urlEncode msg.wrapper.msgType ++ b.limitDomain

/-- `Publish`, where the loop is followed for `fuel` rounds; no value where it has not ended. -/
def ZenohChannelBackend.publish (b : ZenohChannelBackend) (p : Provider) (msg : ShmMsgWrapper)
    (fuel : ℕ) : Option ShmRun :=
  if b.state ≠ .start then some ⟨.thrown, []⟩
  else
    match b.publisherRegisterMap (b.zenohPubTopic msg) with
    | none => some ⟨.notRegistered, []⟩
    | some shmEnabled =>
      if msg.metaKeyValsArray.length / 2 > 255 then some ⟨.thrown, []⟩
      else if shmEnabled then
        (channelUser msg).send p msg.content (b.zPubShmSizeMap (b.zenohPubTopic msg)) fuel
      else some ⟨(channelUser msg).sendNet msg.content, []⟩

/-- The handler that `Subscribe` registers. -/
def handleMsg (name payload : Bytes) : ReadResult Delivery :=
  FrameReading.readPayload UInt32.toNat (readMsg name) payload

/-! ### Sending -/

variable {msg : ShmMsgWrapper}

/-- The frame, when its size is a positive `int32_t`. -/
theorem channelFrame_eq_some_iff (hcount : ¬ msg.metaKeyValsArray.length / 2 > 255)
    {bufferArray : List Bytes} {frame : Bytes} :
    channelFrame msg bufferArray = some frame ↔
      msg.Fits ∧ 4 + (msg.header ++ bufferArray.flatten).length < 2 ^ 31 ∧
        frame = leBytes 4 (UInt32.ofNat (msg.header ++ bufferArray.flatten).length).toNat ++
          (msg.header ++ bufferArray.flatten) := by
  have hlen : (msg.header ++ bufferArray.flatten).length =
      msg.typeAndCtxLen + bufferArray.flatten.length := by
    rw [List.length_append, ShmMsgWrapper.header_length]
  have hfill := toOption_eq_some_iff.trans
    (fillFrame_eq_ok_iff (ShmMsgWrapper.writes_setHeader hcount) bufferArray 32 frame)
  rw [hlen] at hfill ⊢
  unfold channelFrame
  dsimp only
  split
  · refine ⟨nofun, fun ⟨_, hlt, _⟩ => ?_⟩
    omega
  · refine hfill.trans (and_congr_right fun _ => and_congr_left fun _ => ?_)
    omega

theorem channelUser_lawful (hcount : ¬ msg.metaKeyValsArray.length / 2 > 255) :
    (channelUser msg).Lawful msg.header msg.Fits (2 ^ 31) where
  writes := ShmMsgWrapper.writes_setHeader hcount
  rejects _ hop := ⟨.outOfBounds, setString_bind_error hop _ .uInt8 _⟩
  headerLen := ShmMsgWrapper.header_length.symm
  netFrame _ _ := channelFrame_eq_some_iff hcount

/-- What `Publish` does in the cases in which it sends. -/
theorem ZenohChannelBackend.publish_cases {b : ZenohChannelBackend} {p : Provider} {fuel : ℕ}
    {run : ShmRun} (h : b.publish p msg fuel = some run) :
    (run = ⟨.thrown, []⟩ ∨ run = ⟨.notRegistered, []⟩) ∨
    ¬ msg.metaKeyValsArray.length / 2 > 255 ∧
      (run = ⟨(channelUser msg).sendNet msg.content, []⟩ ∨
        (channelUser msg).send p msg.content (b.zPubShmSizeMap (b.zenohPubTopic msg)) fuel = some run) := by
  unfold publish at h
  split at h
  · exact Or.inl (Or.inl (Option.some.inj h).symm)
  split at h
  · exact Or.inl (Or.inr (Option.some.inj h).symm)
  split at h
  · exact Or.inl (Or.inl (Option.some.inj h).symm)
  rename_i hcount
  split at h
  · exact Or.inr ⟨hcount, Or.inr h⟩
  · exact Or.inr ⟨hcount, Or.inl (Option.some.inj h).symm⟩

/-- What the handler makes of a payload is what it makes of the frame for the same message, and the
message, if its length fits into the four bytes. -/
structure FrameAgrees (name : Bytes) (msg : ShmMsgWrapper) (payload : Bytes) : Prop where
  frame : ∀ frame, (channelUser msg).sendNet msg.content = .net frame →
    handleMsg name payload = handleMsg name frame
  msg : (msg.header ++ msg.content.body).length < 2 ^ 32 →
    handleMsg name payload = .value (msg.delivery name)

/-- The handler on the length of the message, the message, and the rest of a block. -/
theorem handleMsg_append (msg : ShmMsgWrapper) (name mem : Bytes) :
    handleMsg name (leBytes 4 (UInt32.ofNat (msg.header ++ msg.content.body).length).toNat ++
        (msg.header ++ msg.content.body) ++ mem) =
      (readMsg name).run (UInt32.ofNat (msg.header ++ msg.content.body).length).toNat
        (msg.header ++ msg.content.body) :=
  FrameReading.readPayload_append_append _ (Nat.mod_le _ _) mem

theorem frameAgrees_append (hcount : ¬ msg.metaKeyValsArray.length / 2 > 255)
    (hfits : msg.Fits) (name mem : Bytes) :
    FrameAgrees name msg (leBytes 4 (UInt32.ofNat (msg.header ++ msg.content.body).length).toNat ++
      (msg.header ++ msg.content.body) ++ mem) where
  frame frame hframe := by
    unfold ShmUser.sendNet at hframe
    cases hser : msg.content.trySerialize with
    | none =>
      rw [hser] at hframe
      cases hframe
    | some bufferArray =>
      rw [hser] at hframe
      dsimp only at hframe
      split at hframe
      · cases hframe
      · rename_i frame' hnet
        obtain rfl := SendOutcome.net.inj hframe
        obtain ⟨-, -, rfl⟩ := (channelFrame_eq_some_iff hcount).1 hnet
        rw [Payload.flatten_of_trySerialize hser, handleMsg_append msg,
          ← handleMsg_append msg name [], List.append_nil]
  msg hlt := by
    rw [handleMsg_append msg]
    exact ShmMsgWrapper.run_readMsg_of_lt hfits name hlt

/-- In 64 bits the size of a cached serialization is not cut, so that one that is put fits. -/
theorem channel_copyable_iff {s : LoopState} {c : Bytes}
    (h : Loaned msg.header msg.content 64 s c) :
    Copyable msg.content (c.length - (4 + msg.header.length)) ↔
      ∀ view, msg.content.cache = some view → view.buffers.length ≤ 1 := by
  refine forall₂_congr fun view hview => ⟨And.left, fun hone => ⟨hone, ?_⟩⟩
  have hwritten := h.written
  rw [hview] at hwritten
  have hsize : s.msgSize = view.bufferSize := by
    rw [h.msgSize, Payload.body_of_cached hview]
    exact Nat.mod_eq_of_lt view.size_lt
  rw [← hsize]
  exact hwritten.2.2

/-- **Main result.**  Until a message is put, nothing is written outside the blocks; what is put agrees
with the frame for the same message if and only if the serialization does not come from the cache in
more than one buffer. -/
theorem zenohChannel_frameAgrees (b : ZenohChannelBackend) (p : Provider) (name : Bytes)
    (msg : ShmMsgWrapper) (fuel : ℕ) {run : ShmRun} (hrun : b.publish p msg fuel = some run) :
    run.outcome ≠ .undefined ∧ ∀ payload, run.outcome = .shm payload →
      ((∃ bytes, payload = some bytes ∧ FrameAgrees name msg bytes) ↔
        ∀ view, msg.content.cache = some view → view.buffers.length ≤ 1) := by
  rcases b.publish_cases hrun with (rfl | rfl) | ⟨hcount, rfl | hsend⟩
  · exact ⟨nofun, nofun⟩
  · exact ⟨nofun, nofun⟩
  · refine ⟨(channelUser msg).sendNet_ne_undefined _, fun payload hput => ?_⟩
    exact absurd hput ((channelUser msg).sendNet_ne_shm _ payload)
  have hu := channelUser_lawful hcount
  refine ⟨hu.send_ne_undefined hsend, fun payload hput => ?_⟩
  obtain ⟨s, c, rfl, hloaned, hfits, -⟩ := hu.loaned_of_send hsend hput
  rw [← channel_copyable_iff hloaned]
  rcases hloaned.payload_eq hu.headerLen with ⟨hcopy, hpayload⟩ | ⟨hcopy, hpayload⟩
  · have hpkg : (channelUser msg).pkgLen s.msgSize =
        UInt32.ofNat (msg.header ++ msg.content.body).length := by
      rw [hloaned.msgSize, List.length_append, ShmMsgWrapper.header_length]
      refine UInt32.toNat_inj.1 ?_
      show (msg.typeAndCtxLen + msg.content.body.length % 2 ^ 64) % 2 ^ 32 =
        (msg.typeAndCtxLen + msg.content.body.length) % 2 ^ 32
      omega
    rw [hpkg] at hpayload
    exact ⟨fun _ => hcopy, fun _ => ⟨_, hpayload, frameAgrees_append hcount hfits name _⟩⟩
  · rw [hpayload]
    exact ⟨fun ⟨_, h, _⟩ => (nomatch h), fun h => absurd h hcopy⟩

/-! ### Two messages -/

def exampleBackend (size : UInt64) : ZenohChannelBackend where
  state := .start
  limitDomain := []
  publisherRegisterMap _ := some true
  zPubShmSizeMap _ := size

theorem zenohChannel_frameAgrees_serialized : ∃ run bytes,
    (exampleBackend 16).publish exampleProvider (exampleMsg none) 1 = some run ∧
      run.outcome = .shm (some bytes) ∧ FrameAgrees [] (exampleMsg none) bytes := by
  have hagrees := zenohChannel_frameAgrees (exampleBackend 16) exampleProvider [] (exampleMsg none) 1
    rfl
  obtain ⟨bytes, hbytes, h⟩ := (hagrees.2 _ rfl).2 nofun
  exact ⟨_, bytes, rfl, congrArg SendOutcome.shm hbytes, h⟩

/-- A serialization in two buffers in the cache is not copied. -/
theorem not_zenohChannel_frameAgrees : ¬ ∀ (b : ZenohChannelBackend) (p : Provider) (name : Bytes)
    (msg : ShmMsgWrapper) (fuel : ℕ) (run : ShmRun) (payload : Option Bytes),
    b.publish p msg fuel = some run → run.outcome = .shm payload →
      ∃ bytes, payload = some bytes ∧ FrameAgrees name msg bytes := by
  intro h
  obtain ⟨bytes, hbytes, -⟩ :=
    h (exampleBackend 16) exampleProvider [] (exampleMsg (some exampleView)) 1 _ _ rfl rfl
  cases hbytes

end AimRT.Zenoh

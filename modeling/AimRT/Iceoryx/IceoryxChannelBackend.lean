import AimRT.Channel.ShmChannel
import AimRT.Iceoryx.IceoryxManager

/-!
# The iceoryx channel backend

`Publish` writes a message into a chunk that it loans.  With a cached serialization the chunk has the
right size from the start; without one the message is serialized behind its header, in a chunk of twice
the size when it was not large enough, and the length is written in front at the end.  The handler of a
subscriber takes chunks as long as there are some.

Either way the chunk has the same bytes in front of its rest (`Framed`), so that the handler does not
notice the difference.  The publisher disposes of every chunk; the handler keeps a chunk when it leaves
it with an exception.
-/

namespace AimRT.Iceoryx

open AimRT.Lib AimRT.Util AimRT.Channel

/-! ### Publishing -/

/-- How `Publish` ends; `undefined` when it writes outside the chunk. -/
inductive PublishOutcome where
  | published (chunk : Bytes)
  | thrown
  | undefined
  deriving DecidableEq, Repr

structure PublishRun where
  outcome : PublishOutcome
  pub : IoxPublisher

/-- What leaves the scope of an `IoxLoanedShm` other than behind `PublishShm`. -/
def leave (outcome : PublishOutcome) (shm : IoxLoanedShm) (pub : IoxPublisher) : PublishRun :=
  ⟨outcome, pub.release shm⟩

def publishChunk (chunk : Bytes) (shm : IoxLoanedShm) (pub : IoxPublisher) : PublishRun :=
  ⟨.published chunk, pub.publishShm shm⟩

/-- The writer for a cached serialization. -/
def setCached (msg : ShmMsgWrapper) (view : BufferArrayView) (shnSize : UInt64) (op : BufferOperator) :
    Except BufferError BufferOperator := do
  let op ← op.setUint32 shnSize.toUInt32
  let op ← msg.setHeader op
  view.buffers.foldlM (fun op data => op.setBuffer data) op

/-- `Publish` with a cached serialization. -/
def publishCached (env : IoxEnv) (msg : ShmMsgWrapper) (view : BufferArrayView) (fuel : ℕ)
    (pub : IoxPublisher) : Option PublishRun := do
  let shnSize := UInt64.ofNat (4 + msg.typeAndCtxLen + view.bufferSize)
  match ← pub.loanShm env fuel shnSize with
  | (pub, none) => return ⟨.thrown, pub⟩
  | (pub, some shm) =>
    match setCached msg view shnSize ⟨shm.chunk, 0⟩ with
    | .error _ => return leave .thrown shm pub
    | .ok op => return publishChunk op.buf shm pub

/-- How a round of the loop ends: in a chunk that was not enough, or with the chunk to publish. -/
inductive RoundEnd where
  | outOfMemory
  | written (chunk : Bytes)
  | thrown
  | undefined

/-- One round in the chunk. -/
def serializeInto (msg : ShmMsgWrapper) (s : Serialization) (chunk : Bytes) : RoundEnd :=
  match BufferOperator.skip 4 ⟨chunk, 0⟩ >>= msg.setHeader with
  | .error _ => .thrown
  | .ok op =>
    let minShmSize := 4 + msg.typeAndCtxLen
    let allocator := FlatBufferArrayAllocator.new minShmSize (op.buf.length - minShmSize)
    match s.serialize FlatBufferArrayAllocator.allocator allocator op.buf with
    | none => .undefined
    | some (serializeRet, allocator, chunk) =>
      if serializeRet then
        -- the operator is still over the chunk that the type support has written to
        let op := { op with buf := chunk }
        let size := UInt32.ofNat (minShmSize + s.body.length)
        match op.jumpTo 0 >>= fun op => op.setUint32 size with
        | .error _ => .thrown
        | .ok op => .written op.buf
      else if allocator.outOfMemory then .outOfMemory
      else .thrown

/-- The loop, up to `fuel` rounds. -/
def publishLoop (env : IoxEnv) (msg : ShmMsgWrapper) (s : Serialization) (growFuel : ℕ) :
    (fuel : ℕ) → IoxLoanedShm → IoxPublisher → Option PublishRun
  | 0, _, _ => none
  | fuel + 1, shm, pub =>
    match serializeInto msg s shm.chunk with
    | .thrown => some (leave .thrown shm pub)
    | .undefined => some (leave .undefined shm pub)
    | .written chunk => some (publishChunk chunk shm pub)
    | .outOfMemory => do
      match ← pub.updateLoanShm env growFuel shm (UInt64.ofNat (shm.chunk.length * 2)) with
      | (pub, none) => return ⟨.thrown, pub⟩
      | (pub, some shm) => publishLoop env msg s growFuel fuel shm pub

/-- `Publish` without a cached serialization, behind `CheckMsg`. -/
def publishDirect (env : IoxEnv) (msg : ShmMsgWrapper) (s : Serialization) (fuel : ℕ)
    (pub : IoxPublisher) : Option PublishRun := do
  match ← pub.loanShm env fuel (UInt64.ofNat (4 + msg.typeAndCtxLen)) with
  | (pub, none) => return ⟨.thrown, pub⟩
  | (pub, some shm) => publishLoop env msg s fuel fuel shm pub

/-- `GetPublisher` finds the publishers of the registered topics. -/
structure IceoryxChannelBackend where
  state : State
  getPublisher : Bytes → Bool

def iceoryxPubTopic (msg : ShmMsgWrapper) : Bytes :=
  ascii "/channel/" ++ urlEncode msg.wrapper.topicName ++ ascii "/" ++ urlEncode msg.wrapper.msgType

/-- `Publish`, where its loops are followed for `fuel` rounds; `checkMsg` is whether `CheckMsg` returns. -/
def IceoryxChannelBackend.publish (b : IceoryxChannelBackend) (env : IoxEnv) (msg : ShmMsgWrapper)
    (checkMsg : Bool) (fuel : ℕ) (pub : IoxPublisher) : Option PublishRun :=
  if b.state ≠ .start then some ⟨.thrown, pub⟩
  else if !b.getPublisher (iceoryxPubTopic msg) then some ⟨.thrown, pub⟩
  else if msg.metaKeyValsArray.length / 2 > 255 then some ⟨.thrown, pub⟩
  else
    match msg.content.cache with
    | some view => publishCached env msg view fuel pub
    | none =>
      if checkMsg then publishDirect env msg msg.content.serialization fuel pub
      else some ⟨.thrown, pub⟩

/-- A thread that publishes one message after the other. -/
def IceoryxChannelBackend.publishAll (b : IceoryxChannelBackend) (env : IoxEnv) (fuel : ℕ) :
    List (ShmMsgWrapper × Bool) → IoxPublisher → Option IoxPublisher
  | [], pub => some pub
  | (msg, checkMsg) :: msgs, pub => do
    let run ← b.publish env msg checkMsg fuel pub
    b.publishAll env fuel msgs run.pub

/-! ### Subscribing -/

/-- What the handler reads of a chunk.  It does not know the size of the chunk. -/
def handleMsg (name chunk : Bytes) : ReadResult Delivery :=
  FrameReading.readPayload (fun pkgSize => (pkgSize - 4).toNat) (readMsg name) chunk

/-- What a handler has to do with: `beyond` is what it reads where it leaves the chunk, if it gets to a
delivery there, and `callback` is whether the callbacks of the subscribers return. -/
structure SubscribeEnv where
  name : Bytes
  beyond : Bytes → Option Delivery
  callback : Delivery → Bool

def SubscribeEnv.decode (env : SubscribeEnv) (chunk : Bytes) : Option Delivery :=
  match handleMsg env.name chunk with
  | .value d => some d
  | .rejected => none
  | .escaped => env.beyond chunk

/-- The handler on what `take` returns, one after the other; the chunks have the numbers from `i` on.
An exception leaves the loop, and with it the chunk. -/
def handleLoop (env : SubscribeEnv) : (i : ℕ) → List (Option Bytes) → Ledger ℕ
  | _, [] => []
  | i, none :: taken => handleLoop env (i + 1) taken
  | i, some chunk :: taken =>
    match env.decode chunk with
    | none => [.acquire i]
    | some d =>
      if env.callback d then .acquire i :: .release i :: handleLoop env (i + 1) taken
      else [.acquire i]

/-! ### What is written -/

/-- The length of the package, the header and the data, and the rest of the chunk. -/
def Framed (msg : ShmMsgWrapper) (body chunk : Bytes) : Prop :=
  msg.Fits ∧ ∃ mem, chunk =
    leBytes 4 (UInt32.ofNat (4 + (msg.header ++ body).length)).toNat ++ (msg.header ++ body) ++ mem

variable {msg : ShmMsgWrapper} {s : Serialization} {view : BufferArrayView} {chunk : Bytes}

theorem framed_setCached (hcount : ¬ msg.metaKeyValsArray.length / 2 > 255) {op : BufferOperator}
    (h : setCached msg view (UInt64.ofNat (4 + msg.typeAndCtxLen + view.bufferSize)) ⟨chunk, 0⟩ =
      .ok op) : Framed msg view.buffers.flatten op.buf := by
  have hwrites := (writes_setUint32
    (UInt64.ofNat (4 + msg.typeAndCtxLen + view.bufferSize)).toUInt32).bind
      ((ShmMsgWrapper.writes_setHeader hcount).bind (writes_setBuffers view.buffers))
  obtain ⟨-, ⟨-, hfits, -⟩, rfl⟩ := (hwrites ⟨chunk, 0⟩ op (Nat.zero_le _)).1 h
  have hsize : (UInt64.ofNat (4 + msg.typeAndCtxLen + view.bufferSize)).toUInt32 =
      UInt32.ofNat (4 + (msg.header ++ view.buffers.flatten).length) := by
    refine UInt32.toNat_inj.1 ?_
    show (4 + msg.typeAndCtxLen + view.bufferSize) % 2 ^ 64 % 2 ^ 32 =
      (4 + (msg.header ++ view.buffers.flatten).length) % 2 ^ 32
    rw [List.length_append, ShmMsgWrapper.header_length, BufferArrayView.bufferSize]
    omega
  exact ⟨hfits, chunk.drop _, by rw [← hsize]; rfl⟩

/-- What the fields leave in a chunk. -/
theorem setHeader_skip (hcount : ¬ msg.metaKeyValsArray.length / 2 > 255) {op : BufferOperator}
    (h : BufferOperator.skip 4 ⟨chunk, 0⟩ >>= msg.setHeader = .ok op) :
    msg.Fits ∧ 4 + msg.header.length ≤ chunk.length ∧ op.buf = overwrite chunk 4 msg.header := by
  unfold BufferOperator.skip at h
  split at h
  · cases h
  rename_i hroom
  obtain ⟨hfit, hfits, rfl⟩ := (ShmMsgWrapper.writes_setHeader hcount ⟨chunk, 0 + 4⟩ op (by
    show 0 + 4 ≤ chunk.length
    exact Nat.not_lt.1 hroom)).1 h
  rw [Nat.zero_add] at hfit ⊢
  exact ⟨hfits, hfit, rfl⟩

/-- The length goes to the front. -/
theorem jumpTo_setUint32 {block : Bytes} (cur : ℕ) (n : UInt32) (h : 4 ≤ block.length) :
    (BufferOperator.jumpTo 0 ⟨block, cur⟩ >>= fun op => op.setUint32 n) =
      .ok ⟨overwrite block 0 (leBytes 4 n.toNat), 4⟩ := by
  have hjump : BufferOperator.jumpTo 0 ⟨block, cur⟩ = .ok ⟨block, 0⟩ := if_neg (Nat.not_lt_zero _)
  rw [hjump]
  show BufferOperator.setBuffer (leBytes 4 n.toNat) ⟨block, 0⟩ = _
  rw [BufferOperator.setBuffer, leBytes_length, if_neg (by show ¬ 0 + 4 > block.length; omega)]
  show Except.ok (BufferOperator.put ⟨block, 0⟩ (leBytes 4 n.toNat)) = _
  rw [overwrite, BufferOperator.put, leBytes_length]

/-- **One round** stays inside the chunk, and what it has written is framed. -/
theorem serializeInto_spec (hcount : ¬ msg.metaKeyValsArray.length / 2 > 255) (s : Serialization)
    (chunk : Bytes) :
    (∃ chunk', serializeInto msg s chunk = .written chunk' ∧ Framed msg s.body chunk') ∨
      serializeInto msg s chunk = .thrown ∨ serializeInto msg s chunk = .outOfMemory := by
  unfold serializeInto
  cases hset : BufferOperator.skip 4 ⟨chunk, 0⟩ >>= msg.setHeader with
  | error e => exact Or.inr (Or.inl rfl)
  | ok op =>
    obtain ⟨hfits, hroom, hbuf⟩ := setHeader_skip hcount hset
    have hlen : op.buf.length = chunk.length := by
      rw [hbuf]
      exact overwrite_length hroom
    dsimp only
    rw [← ShmMsgWrapper.header_length]
    have hlim : 4 + msg.header.length + (op.buf.length - (4 + msg.header.length)) = op.buf.length := by
      omega
    by_cases hasked : 4 + msg.header.length + s.asked ≤ op.buf.length
    · obtain ⟨allocator, hserialize, hmemory⟩ := FlatBufferArrayAllocator.flat.serialize_fits s
        (a := .new (4 + msg.header.length) (op.buf.length - (4 + msg.header.length))) op.buf rfl
        (by show 4 + msg.header.length + _ ≤ _; omega)
        (by show 4 + msg.header.length + s.asked ≤ 4 + msg.header.length + _; omega)
      rw [hserialize]
      dsimp only
      cases hok : s.ok with
      | false =>
        have hmemory : allocator.outOfMemory = false := hmemory
        simp [hmemory]
      | true =>
        have hbody := s.body_length_le
        have hdata : 4 + (msg.header ++ s.body).length ≤ chunk.length := by
          rw [List.length_append]
          omega
        have hwritten : overwrite op.buf (FlatBufferArrayAllocator.new (4 + msg.header.length)
            (op.buf.length - (4 + msg.header.length))).curPtr s.body =
              overwrite chunk 4 (msg.header ++ s.body) := by
          show overwrite op.buf (4 + msg.header.length) s.body = _
          rw [hbuf]
          exact overwrite_overwrite hroom
        have hlen' : (overwrite chunk 4 (msg.header ++ s.body)).length = chunk.length :=
          overwrite_length hdata
        have hsize : 4 + msg.header.length + s.body.length = 4 + (msg.header ++ s.body).length := by
          rw [List.length_append]
          omega
        have hfront := jumpTo_setUint32 op.cur (UInt32.ofNat (4 + (msg.header ++ s.body).length))
          (show 4 ≤ (overwrite chunk 4 (msg.header ++ s.body)).length by rw [hlen']; omega)
        refine Or.inl ⟨_, ?_, hfits, chunk.drop (4 + (msg.header ++ s.body).length), rfl⟩
        rw [if_pos rfl, hwritten, hsize, hfront]
        exact congrArg RoundEnd.written (overwrite_front (leBytes_length _ _) hdata)
    · obtain ⟨allocator, chunk', hserialize, hmemory⟩ := FlatBufferArrayAllocator.flat.serialize_full s
        (a := .new (4 + msg.header.length) (op.buf.length - (4 + msg.header.length))) op.buf rfl
        (by show 4 + msg.header.length + _ ≤ _; omega)
        (by show ¬ 4 + msg.header.length + s.asked ≤ 4 + msg.header.length + _; omega)
        (by show 4 + msg.header.length ≤ 4 + msg.header.length + _; omega)
      rw [hserialize]
      have hmemory : allocator.outOfMemory = true := hmemory
      simp [hmemory]

/-! ### Runs of Publish -/

/-- Nothing was written outside a chunk, what was published is framed, and no chunk is left if the
thread had none at the start. -/
structure PublishRun.Sound (run : PublishRun) (start : Prop) (msg : ShmMsgWrapper) (body : Bytes) :
    Prop where
  defined : run.outcome ≠ .undefined
  framed : ∀ chunk, run.outcome = .published chunk → Framed msg body chunk
  vacant : start → run.pub.Vacant

variable {env : IoxEnv} {fuel : ℕ} {pub : IoxPublisher} {shm : IoxLoanedShm} {run : PublishRun}
  {body : Bytes} {start : Prop}

theorem sound_thrown (h : start → pub.Vacant) : PublishRun.Sound ⟨.thrown, pub⟩ start msg body :=
  ⟨nofun, nofun, h⟩

theorem sound_leave (h : start → pub.Holding shm) : (leave .thrown shm pub).Sound start msg body :=
  sound_thrown fun hs => (h hs).release

theorem sound_publishChunk (h : start → pub.Holding shm) (hframed : Framed msg body chunk) :
    (publishChunk chunk shm pub).Sound start msg body := by
  refine ⟨nofun, fun chunk' hchunk => ?_, fun hs => (h hs).publishShm⟩
  obtain rfl := PublishOutcome.published.inj hchunk
  exact hframed

/-- A publication that starts with a loan: without a chunk it throws, and with one it holds that chunk. -/
theorem sound_of_loanShm {minSize : UInt64} {f : IoxPublisher × Option IoxLoanedShm → Option PublishRun}
    (h : start → pub.Vacant) (hnone : ∀ pub', f (pub', none) = some ⟨.thrown, pub'⟩)
    (hsome : ∀ {pub' shm}, (start → pub'.Holding shm) → f (pub', some shm) = some run → run.Sound start msg body)
    (hrun : (pub.loanShm env fuel minSize).bind f = some run) : run.Sound start msg body := by
  obtain ⟨⟨pub', shm⟩, hloan, hrun⟩ := Option.bind_eq_some_iff.1 hrun
  have hloans := fun hs => (h hs).loanShm hloan
  cases shm with
  | none =>
    rw [hnone] at hrun
    obtain rfl := Option.some.inj hrun
    exact sound_thrown hloans
  | some shm => exact hsome (fun hs => (hloans hs).1) hrun

theorem sound_publishCached (hcount : ¬ msg.metaKeyValsArray.length / 2 > 255)
    (h : start → pub.Vacant) (hrun : publishCached env msg view fuel pub = some run) :
    run.Sound start msg view.buffers.flatten := by
  refine sound_of_loanShm h (fun _ => rfl) (fun hholding hrun => ?_) hrun
  dsimp only at hrun
  split at hrun
  · obtain rfl := Option.some.inj hrun
    exact sound_leave hholding
  · rename_i op hset
    obtain rfl := Option.some.inj hrun
    exact sound_publishChunk hholding (framed_setCached hcount hset)

/-- **The loop** holds one chunk all the time. -/
theorem sound_publishLoop (hcount : ¬ msg.metaKeyValsArray.length / 2 > 255) {growFuel : ℕ}
    (h : start → pub.Holding shm)
    (hrun : publishLoop env msg s growFuel fuel shm pub = some run) : run.Sound start msg s.body := by
  induction fuel generalizing shm pub with
  | zero => cases hrun
  | succ fuel ih =>
    rw [publishLoop] at hrun
    rcases serializeInto_spec hcount s shm.chunk with
      ⟨chunk, hround, hframed⟩ | hround | hround
    · rw [hround] at hrun
      obtain rfl := Option.some.inj hrun
      exact sound_publishChunk h hframed
    · rw [hround] at hrun
      obtain rfl := Option.some.inj hrun
      exact sound_leave h
    · rw [hround] at hrun
      obtain ⟨⟨pub', shm'⟩, hloan, hrun⟩ := Option.bind_eq_some_iff.1 hrun
      have hloans := fun hs => (h hs).updateLoanShm hloan
      cases shm' with
      | none =>
        obtain rfl := Option.some.inj hrun
        exact sound_thrown hloans
      | some shm' => exact ih (fun hs => (hloans hs).1) hrun

theorem sound_publishDirect (hcount : ¬ msg.metaKeyValsArray.length / 2 > 255)
    (h : start → pub.Vacant) (hrun : publishDirect env msg s fuel pub = some run) :
    run.Sound start msg s.body :=
  sound_of_loanShm h (fun _ => rfl) (fun hholding hrun => sound_publishLoop hcount hholding hrun) hrun

theorem IceoryxChannelBackend.sound_publish {b : IceoryxChannelBackend} {checkMsg : Bool}
    (hrun : b.publish env msg checkMsg fuel pub = some run) :
    run.Sound pub.Vacant msg msg.content.body := by
  unfold publish at hrun
  split at hrun
  · obtain rfl := Option.some.inj hrun
    exact sound_thrown id
  split at hrun
  · obtain rfl := Option.some.inj hrun
    exact sound_thrown id
  split at hrun
  · obtain rfl := Option.some.inj hrun
    exact sound_thrown id
  rename_i hcount
  split at hrun
  · rename_i view hcache
    rw [Payload.body_of_cached hcache]
    exact sound_publishCached hcount id hrun
  · rename_i hcache
    rw [Payload.body_of_not_cached hcache]
    split at hrun
    · exact sound_publishDirect hcount id hrun
    · obtain rfl := Option.some.inj hrun
      exact sound_thrown id

theorem IceoryxChannelBackend.vacant_publishAll {b : IceoryxChannelBackend}
    {msgs : List (ShmMsgWrapper × Bool)} {pub' : IoxPublisher} (h : pub.Vacant)
    (hrun : b.publishAll env fuel msgs pub = some pub') : pub'.Vacant := by
  induction msgs generalizing pub with
  | nil =>
    obtain rfl := Option.some.inj hrun
    exact h
  | cons msg msgs ih =>
    obtain ⟨run, hpublish, hrun⟩ := Option.bind_eq_some_iff.1 hrun
    exact ih ((sound_publish hpublish).vacant h) hrun

/-! ### Decoding -/

/-- Messages with the same serialization type, context and data. -/
structure SameContent (msg msg' : ShmMsgWrapper) : Prop where
  serializationType : msg.serializationType = msg'.serializationType
  ctx : msg.wrapper.ctx = msg'.wrapper.ctx
  body : msg.content.body = msg'.content.body

/-- The handler on a framed chunk: it is told the length up to `2 ^ 32`. -/
theorem Framed.handleMsg_eq (h : Framed msg msg.content.body chunk) (name : Bytes) :
    handleMsg name chunk = (readMsg name).run ((msg.header ++ msg.content.body).length % 2 ^ 32)
      (msg.header ++ msg.content.body) := by
  obtain ⟨-, mem, rfl⟩ := h
  have htold : (UInt32.ofNat (4 + (msg.header ++ msg.content.body).length) - 4).toNat =
      (msg.header ++ msg.content.body).length % 2 ^ 32 := by
    rw [UInt32.toNat_sub]
    show (2 ^ 32 - 4 + (4 + (msg.header ++ msg.content.body).length) % 2 ^ 32) % 2 ^ 32 = _
    omega
  have hread := @FrameReading.readPayload_append_append _ (fun pkgSize => (pkgSize - 4).toNat)
    (readMsg name) (UInt32.ofNat (4 + (msg.header ++ msg.content.body).length)) _
    (by rw [htold]; exact Nat.mod_le _ _) mem
  rw [htold] at hread
  exact hread

theorem SameContent.handleMsg_eq {msg' : ShmMsgWrapper} {chunk' : Bytes} (h : SameContent msg msg')
    (hframed : Framed msg msg.content.body chunk)
    (hframed' : Framed msg' msg'.content.body chunk') (name : Bytes) :
    handleMsg name chunk = handleMsg name chunk' := by
  have hheader : msg.header = msg'.header := by
    rw [ShmMsgWrapper.header, ShmMsgWrapper.header, ShmMsgWrapper.metaKeyValsArray,
      ShmMsgWrapper.metaKeyValsArray, h.serializationType, h.ctx]
  rw [hframed.handleMsg_eq, hframed'.handleMsg_eq, hheader, h.body]

/-- **Main result.**  `Publish` writes inside its chunks only.  What it publishes, with a cached
serialization or without, after any number of rounds, the handler decodes like what any other run
publishes for the same content, and as the message if this has less than `2 ^ 32` bytes. -/
theorem iceoryx_decodes (b : IceoryxChannelBackend) (env : IoxEnv) (msg : ShmMsgWrapper)
    (checkMsg : Bool) (fuel : ℕ) (pub : IoxPublisher) {run : PublishRun}
    (hrun : b.publish env msg checkMsg fuel pub = some run) (name : Bytes) :
    run.outcome ≠ .undefined ∧ ∀ chunk, run.outcome = .published chunk →
      ((msg.header ++ msg.content.body).length < 2 ^ 32 →
        handleMsg name chunk = .value (msg.delivery name)) ∧
      ∀ (b' : IceoryxChannelBackend) (env' : IoxEnv) (msg' : ShmMsgWrapper) (checkMsg' : Bool)
        (fuel' : ℕ) (pub' : IoxPublisher) (run' : PublishRun) (chunk' : Bytes),
        b'.publish env' msg' checkMsg' fuel' pub' = some run' → run'.outcome = .published chunk' →
        SameContent msg msg' → handleMsg name chunk = handleMsg name chunk' := by
  have hsound := b.sound_publish hrun
  refine ⟨hsound.defined, fun chunk hchunk => ⟨fun hlt => ?_, ?_⟩⟩
  · have hframed := hsound.framed chunk hchunk
    rw [hframed.handleMsg_eq]
    exact ShmMsgWrapper.run_readMsg_of_lt hframed.1 name hlt
  · intro b' env' msg' checkMsg' fuel' pub' run' chunk' hrun' hchunk' hsame
    exact hsame.handleMsg_eq (hsound.framed chunk hchunk)
      ((b'.sound_publish hrun').framed chunk' hchunk') name

/-- Loans of up to 64 bytes, for one thread. -/
def exampleEnv : IoxEnv where
  shmSize _ size := size
  loan _ size := if size ≤ 64 then some (List.replicate size.toNat 0) else none
  loan_length i size chunk h := by
    split at h
    · obtain rfl := Option.some.inj h
      exact List.length_replicate
    · cases h

def exampleBackend : IceoryxChannelBackend := ⟨.start, fun _ => true⟩

/-- Serialized in a second round, or from the cache. -/
theorem iceoryx_decodes_resized : ∃ run run' chunk chunk',
    exampleBackend.publish exampleEnv (exampleMsg none) true 3 (.new 8) = some run ∧
    exampleBackend.publish exampleEnv (exampleMsg (some exampleView)) true 3 (.new 8) = some run' ∧
    run.outcome = .published chunk ∧ run'.outcome = .published chunk' ∧
      handleMsg [] chunk = .value ((exampleMsg none).delivery []) ∧
      handleMsg [] chunk = handleMsg [] chunk' := by
  have h := (iceoryx_decodes exampleBackend exampleEnv (exampleMsg none) true 3 (.new 8) rfl []).2 _ rfl
  have hagain := h.2 exampleBackend exampleEnv (exampleMsg (some exampleView)) true 3 (.new 8) _ _
    rfl rfl ⟨rfl, rfl, rfl⟩
  exact ⟨_, _, _, _, rfl, rfl, rfl, rfl, h.1 (by decide), hagain⟩

/-! ### Chunks of a subscriber -/

variable {senv : SubscribeEnv}

/-- How the handler goes on behind a chunk. -/
theorem handleLoop_cases (i : ℕ) (chunk : Bytes) (taken : List (Option Bytes)) :
    ((∃ d, senv.decode chunk = some d ∧ senv.callback d = true) ∧
      handleLoop senv i (some chunk :: taken) =
        .acquire i :: .release i :: handleLoop senv (i + 1) taken) ∨
    (¬ (∃ d, senv.decode chunk = some d ∧ senv.callback d = true) ∧
      handleLoop senv i (some chunk :: taken) = [.acquire i]) := by
  rw [handleLoop]
  cases hdecode : senv.decode chunk with
  | none => exact Or.inr ⟨fun ⟨d, h, _⟩ => (nomatch h), rfl⟩
  | some d =>
    cases hcallback : senv.callback d with
    | true => exact Or.inl ⟨⟨d, rfl, hcallback⟩, if_pos hcallback⟩
    | false =>
      refine Or.inr ⟨fun ⟨d', h, hd'⟩ => ?_, if_neg (by rw [hcallback]; exact Bool.false_ne_true)⟩
      obtain rfl := Option.some.inj h
      cases hcallback.symm.trans hd'

/-- The numbers in a run of the handler start at `i`. -/
theorem handleLoop_fresh {i j : ℕ} (taken : List (Option Bytes)) (hj : j < i) :
    Transfer.acquire j ∉ handleLoop senv i taken ∧ (handleLoop senv i taken).disposals j = 0 := by
  induction taken generalizing i with
  | nil => exact ⟨fun h => (nomatch h), rfl⟩
  | cons chunk taken ih =>
    cases chunk with
    | none => exact ih (Nat.lt_succ_of_lt hj)
    | some chunk =>
      have hne : i ≠ j := Nat.ne_of_gt hj
      rcases handleLoop_cases i chunk taken with ⟨-, heq⟩ | ⟨-, heq⟩
      · obtain ⟨hacquire, hdisposals⟩ := ih (Nat.lt_succ_of_lt hj)
        rw [heq]
        refine ⟨by simp [hacquire, Ne.symm hne], ?_⟩
        show Ledger.disposals ([Transfer.acquire i] ++ ([Transfer.release i] ++ _)) j = 0
        rw [Ledger.disposals_append, Ledger.disposals_append, Ledger.disposals_acquire,
          Ledger.disposals_release, if_neg hne, hdisposals]
      · rw [heq]
        exact ⟨by simp [Ne.symm hne], Ledger.disposals_acquire _ _⟩

/-- **Subscribers.**  The handler releases all that it takes if and only if it never throws. -/
theorem handleLoop_settled_iff (i : ℕ) (taken : List (Option Bytes)) :
    (handleLoop senv i taken).Settled ↔
      ∀ chunk, some chunk ∈ taken → ∃ d, senv.decode chunk = some d ∧ senv.callback d = true := by
  induction taken generalizing i with
  | nil => exact ⟨fun _ _ h => (nomatch h), fun _ => Ledger.settled_nil⟩
  | cons chunk taken ih =>
    cases chunk with
    | none =>
      refine (ih (i + 1)).trans (forall_congr' fun chunk => ?_)
      rw [List.mem_cons, or_iff_right (by exact nofun)]
    | some chunk =>
      rcases handleLoop_cases i chunk taken with ⟨hok, heq⟩ | ⟨hthrows, heq⟩
      · obtain ⟨hacquire, hdisposals⟩ := handleLoop_fresh taken (Nat.lt_succ_self i)
        rw [heq, Ledger.settled_acquire_release_iff hacquire hdisposals, ih]
        constructor
        · intro h chunk' hchunk'
          rcases List.mem_cons.1 hchunk' with hchunk' | hchunk'
          · obtain rfl := Option.some.inj hchunk'
            exact hok
          · exact h chunk' hchunk'
        · intro h chunk' hchunk'
          exact h chunk' (List.mem_cons_of_mem _ hchunk')
      · rw [heq]
        refine ⟨fun h => absurd h (Ledger.not_settled_acquire i), fun h => ?_⟩
        exact absurd (h chunk List.mem_cons_self) hthrows

/-- **Main result.**  A thread that publishes leaves no chunk behind; a handler leaves none if and only
if each chunk that it takes is decoded and its callbacks return. -/
theorem iceoryx_settled (b : IceoryxChannelBackend) (env : IoxEnv) (fuel : ℕ)
    (msgs : List (ShmMsgWrapper × Bool)) (shmSize : UInt64) (senv : SubscribeEnv)
    (taken : List (Option Bytes)) :
    (∀ pub, b.publishAll env fuel msgs (.new shmSize) = some pub → pub.ledger.Settled) ∧
    ((handleLoop senv 0 taken).Settled ↔
      ∀ chunk, some chunk ∈ taken →
        ∃ d, senv.decode chunk = some d ∧ senv.callback d = true) := by
  refine ⟨fun pub hrun => ?_, handleLoop_settled_iff 0 taken⟩
  exact (b.vacant_publishAll (IoxPublisher.vacant_new shmSize) hrun).settled

/-- A handler whose callbacks return. -/
def exampleSubscriber : SubscribeEnv := ⟨[], fun _ => none, fun _ => true⟩

theorem iceoryx_settled_resized :
    (∃ pub, exampleBackend.publishAll exampleEnv 3 [(exampleMsg none, true)] (.new 8) = some pub ∧
      pub.ledger.Settled) ∧
    (handleLoop exampleSubscriber 0 [some [6, 0, 0, 0, 0, 0]]).Settled := by
  have h := iceoryx_settled exampleBackend exampleEnv 3 [(exampleMsg none, true)] 8
    exampleSubscriber [some [6, 0, 0, 0, 0, 0]]
  refine ⟨⟨_, rfl, h.1 _ rfl⟩, h.2.2 ?_⟩
  intro chunk hchunk
  obtain rfl := Option.some.inj (List.mem_singleton.1 hchunk)
  exact ⟨_, rfl, rfl⟩

/-- A chunk without a serialization type is not released. -/
theorem not_iceoryx_settled : ¬ ∀ (senv : SubscribeEnv) (taken : List (Option Bytes)),
    (handleLoop senv 0 taken).Settled := fun h =>
  Ledger.not_settled_acquire 0 (h exampleSubscriber [some [4, 0, 0, 0]])

end AimRT.Iceoryx

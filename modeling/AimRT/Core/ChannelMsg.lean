import AimRT.Channel.ChannelBackend
import AimRT.Rpc.RpcTypes

/-!
# Channel messages of the runtime

A `MsgWrapper` is a message on its way through the runtime: the message itself or, until somebody asks
for it, only serializations of it, under their serialization types.  `CheckMsg` makes sure of the
message, `SerializeMsgWithCache` of a serialization.

A type support reads a message from the bytes of all its buffers; how they are cut does not matter.
-/

namespace AimRT.Core

open AimRT.Lib AimRT.Util

variable {V : Type}

/-! ### Type supports and topics -/

/-- `TypeSupportRef`, for messages in `V`; `deserialize` reads into a new message. -/
structure TypeSupport (V : Type) where
  serializationTypesSupportedList : List Bytes
  serialize : Bytes → V → Option (List Bytes)
  deserialize : Bytes → List Bytes → Option V
  copy : V → V
  deserialize_flatten : ∀ serializationType bufferArray,
    deserialize serializationType [bufferArray.flatten] = deserialize serializationType bufferArray

def TypeSupport.defaultSerializationType (ts : TypeSupport V) : Bytes :=
  ts.serializationTypesSupportedList.headD []

structure TopicInfo (V : Type) where
  msgType : Bytes
  topicName : Bytes
  pkgPath : Bytes
  moduleName : Bytes
  msgTypeSupport : TypeSupport V

inductive ContextType where
  | publisher
  | subscriber
  deriving DecidableEq, Repr

/-- `aimrt::channel::Context`. -/
structure ChannelContext where
  type : ContextType
  used : Bool
  metaData : Context

/-! ### Message wrappers -/

/-- The serializations of a message, under their types; the order is that of the `unordered_map`. -/
abbrev SerializationCache := AList (fun _ : Bytes => List Bytes)

/-- `MsgWrapper`; `msg_cache_ptr` owns what `msgPtr` points to. -/
structure MsgWrapper (V : Type) where
  info : TopicInfo V
  msgPtr : Option V
  ctx : ChannelContext
  serializationCache : SerializationCache

/-- The exceptions of the message tools. -/
inductive MsgError where
  | cacheEmpty
  | deserializeFailed
  | cannotDeserialize
  | serializeFailed
  | msgDeserializeFailed
  deriving DecidableEq, Repr

namespace MsgWrapper

/-- The message, read from one entry of the cache. -/
def deserializeFrom (m : MsgWrapper V) (serializationType : Bytes) (bufferArray : List Bytes) :
    Except MsgError (V × MsgWrapper V) :=
  match m.info.msgTypeSupport.deserialize serializationType bufferArray with
  | none => .error .deserializeFailed
  | some msg => .ok (msg, { m with msgPtr := some msg })

/-- The loop of `CheckMsg` over the supported serialization types. -/
def checkMsgLoop (m : MsgWrapper V) : List Bytes → Except MsgError (V × MsgWrapper V)
  | [] => .error .cannotDeserialize
  | serializationType :: serializationTypes =>
    match m.serializationCache.lookup serializationType with
    | none => m.checkMsgLoop serializationTypes
    | some bufferArray => m.deserializeFrom serializationType bufferArray

/-- `CheckMsg`, with the message that `msg_ptr` points to behind it. -/
def checkMsg (m : MsgWrapper V) : Except MsgError (V × MsgWrapper V) :=
  match m.msgPtr with
  | some msg => .ok (msg, m)
  | none =>
    match m.serializationCache.entries with
    | [] => .error .cacheEmpty
    | [⟨serializationType, bufferArray⟩] => m.deserializeFrom serializationType bufferArray
    | _ => m.checkMsgLoop m.info.msgTypeSupport.serializationTypesSupportedList

/-- `SerializeMsgWithCache`. -/
def serializeMsgWithCache (m : MsgWrapper V) (serializationType : Bytes) :
    Except MsgError (List Bytes × MsgWrapper V) :=
  match m.serializationCache.lookup serializationType with
  | some bufferArray => .ok (bufferArray, m)
  | none => do
    let (msg, m) ← m.checkMsg
    let bufferArray ←
      Rpc.require (m.info.msgTypeSupport.serialize serializationType msg) .serializeFailed
    return (bufferArray, { m with
      serializationCache := m.serializationCache.insert serializationType bufferArray })

variable {m : MsgWrapper V} {serializationType : Bytes} {bufferArray : List Bytes} {msg : V}

theorem checkMsg_of_msgPtr (h : m.msgPtr = some msg) : m.checkMsg = .ok (msg, m) := by
  rw [checkMsg, h]

theorem deserializeFrom_eq_ok {m' : MsgWrapper V}
    (h : m.deserializeFrom serializationType bufferArray = .ok (msg, m')) :
    m.info.msgTypeSupport.deserialize serializationType bufferArray = some msg ∧
      m' = { m with msgPtr := some msg } := by
  rw [deserializeFrom] at h
  split at h
  · cases h
  · cases h
    exact ⟨‹_›, rfl⟩

/-- The loop stops at a type that is in the cache. -/
theorem exists_of_checkMsgLoop {m' : MsgWrapper V} {serializationTypes : List Bytes}
    (h : m.checkMsgLoop serializationTypes = .ok (msg, m')) : ∃ serializationType bufferArray,
      m.serializationCache.lookup serializationType = some bufferArray ∧
        m.deserializeFrom serializationType bufferArray = .ok (msg, m') := by
  induction serializationTypes with
  | nil => cases h
  | cons serializationType serializationTypes ih =>
    rw [checkMsgLoop] at h
    split at h
    · exact ih h
    · next bufferArray hlookup => exact ⟨serializationType, bufferArray, hlookup, h⟩

/-- `CheckMsg` only sets `msg_ptr`. -/
theorem checkMsg_eq_ok {m' : MsgWrapper V} (h : m.checkMsg = .ok (msg, m')) :
    m' = { m with msgPtr := some msg } := by
  rw [checkMsg] at h
  split at h
  · next msg' hmsg =>
    cases h
    rw [← hmsg]
  · split at h
    · cases h
    · exact (deserializeFrom_eq_ok h).2
    · obtain ⟨serializationType, bufferArray, -, h⟩ := exists_of_checkMsgLoop h
      exact (deserializeFrom_eq_ok h).2

/-- A serialization in the cache is taken as it is. -/
theorem serializeMsgWithCache_of_cached
    (h : m.serializationCache.lookup serializationType = some bufferArray) :
    m.serializeMsgWithCache serializationType = .ok (bufferArray, m) := by
  rw [serializeMsgWithCache, h]

/-- Any other is made of the message, and kept. -/
theorem serializeMsgWithCache_of_not_cached {m' : MsgWrapper V}
    (hcache : m.serializationCache.lookup serializationType = none)
    (hcheck : m.checkMsg = .ok (msg, m'))
    (hserialize : m.info.msgTypeSupport.serialize serializationType msg = some bufferArray) :
    m.serializeMsgWithCache serializationType = .ok (bufferArray, { m with
      msgPtr := some msg
      serializationCache := m.serializationCache.insert serializationType bufferArray }) := by
  obtain rfl := checkMsg_eq_ok hcheck
  simp only [serializeMsgWithCache, hcache, hcheck]
  show (Rpc.require (m.info.msgTypeSupport.serialize serializationType msg) _ >>= _) = _
  rw [hserialize]
  rfl

/-- Where a serialization comes from. -/
theorem serializeMsgWithCache_eq_ok {m' : MsgWrapper V}
    (h : m.serializeMsgWithCache serializationType = .ok (bufferArray, m')) :
    m.serializationCache.lookup serializationType = some bufferArray ∧ m' = m ∨
      m.serializationCache.lookup serializationType = none ∧ ∃ msg m'',
        m.checkMsg = .ok (msg, m'') ∧
          m.info.msgTypeSupport.serialize serializationType msg = some bufferArray ∧
            m' = { m with
              msgPtr := some msg
              serializationCache := m.serializationCache.insert serializationType bufferArray } := by
  rw [serializeMsgWithCache] at h
  split at h
  · next hcache =>
    cases h
    exact .inl ⟨hcache, rfl⟩
  · next hcache =>
    obtain ⟨⟨msg, m''⟩, hcheck, h⟩ := Rpc.bind_eq_ok h
    obtain ⟨bufferArray', hrequire, h⟩ := Rpc.bind_eq_ok h
    cases h
    have hserialize := Rpc.require_eq_ok hrequire
    obtain rfl := checkMsg_eq_ok hcheck
    exact .inr ⟨hcache, msg, _, hcheck, hserialize, rfl⟩

/-- Where a message comes from that was not there. -/
theorem exists_entry_of_checkMsg {m' : MsgWrapper V} (hnone : m.msgPtr = none)
    (h : m.checkMsg = .ok (msg, m')) : ∃ serializationType bufferArray,
      m.serializationCache.lookup serializationType = some bufferArray ∧
        m.info.msgTypeSupport.deserialize serializationType bufferArray = some msg := by
  rw [checkMsg, hnone] at h
  simp only at h
  split at h
  · cases h
  · next serializationType bufferArray hentries =>
    refine ⟨serializationType, bufferArray, ?_, (deserializeFrom_eq_ok h).1⟩
    rw [AList.lookup, hentries, List.dlookup_cons_eq]
  · obtain ⟨serializationType, bufferArray, hlookup, h⟩ := exists_of_checkMsgLoop h
    exact ⟨serializationType, bufferArray, hlookup, (deserializeFrom_eq_ok h).1⟩

end MsgWrapper

/-- The serialization type of the context or, if there is none, the default one. -/
def serializationTypeOf (m : MsgWrapper V) : Bytes :=
  let serializationType := m.ctx.metaData.getMetaValue Channel.kSerializationType
  if serializationType = [] then m.info.msgTypeSupport.defaultSerializationType
  else serializationType

end AimRT.Core

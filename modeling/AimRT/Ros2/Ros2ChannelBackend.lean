import AimRT.Core.ChannelMsg
import AimRT.Util.BufferArray

/-!
# Publishing through the ros2 channel backend

`Ros2ChannelBackend::Publish`.  A message of a ros2 type is given to `rcl_publish` or, where its topic is
configured with `use_serialized`, as bytes to `rcl_publish_serialized_message`; any other message is
wrapped.  The bytes are the last buffer of a serialization in the type that the context asks for.
`equalsPlain_iff` says when they are the message.
-/

namespace AimRT.Ros2

open AimRT.Lib AimRT.Util AimRT.Core

variable {V : Type}

/-! ### The backend -/

/-- `Ros2NameEncode`, in upper case. -/
def ros2NameEncode (str : Bytes) : Bytes := str.flatMap fun c =>
  if isalnum c || c = 47 then [c] else [95, toHex (c >>> 4), toHex (c &&& 15)]

/-- What `Publish` hands to ros2. -/
inductive Ros2Published (V : Type) where
  | serializedMessage (buffer : Bytes)
  | message (msg : V)
  | wrapper (realRos2TopicName serializationType : Bytes) (context : List Bytes) (data : Bytes)

/-- How `Publish` ends without a message; `outOfRange` is an index outside a buffer array, or a copy
outside its block. -/
inductive Ros2PublishError where
  | notStarted
  | unregistered
  | msg (e : MsgError)
  | outOfRange

/-- The registered publishers: for a topic and a ros2 type whether messages are published as bytes, and
the topics of wrapped messages. -/
structure Ros2ChannelBackend where
  state : Channel.State
  ros2PublishTypeWrapperMap : Bytes → Bytes → Option Bool
  publisherMap : Bytes → Bool

namespace Ros2ChannelBackend

def checkRosMsg (msgType : Bytes) : Bool := msgType.take 5 = ascii "ros2:"

def serialize (m : MsgWrapper V) : Except Ros2PublishError (List Bytes) :=
  match m.serializeMsgWithCache (serializationTypeOf m) with
  | .error e => .error (.msg e)
  | .ok (bufferArray, _) => .ok bufferArray

/-- The last buffer of a serialization. -/
def publishSerialized (m : MsgWrapper V) : Except Ros2PublishError (Ros2Published V) := do
  let bufferArray ← serialize m
  let buffer ← Rpc.require bufferArray.getLast? .outOfRange
  return .serializedMessage buffer

def publishMessage (m : MsgWrapper V) : Except Ros2PublishError (Ros2Published V) :=
  match m.checkMsg with
  | .error e => .error (.msg e)
  | .ok (msg, _) => .ok (.message msg)

def publishWrapper (realRos2TopicName : Bytes) (m : MsgWrapper V) :
    Except Ros2PublishError (Ros2Published V) := do
  let bufferArray ← serialize m
  let data ← Rpc.require (fillData bufferArray) .outOfRange
  return .wrapper realRos2TopicName (serializationTypeOf m) m.ctx.metaData.getMetaKeyValsArray data

/-- `Publish`; an error is logged. -/
def publish (b : Ros2ChannelBackend) (m : MsgWrapper V) :
    Except Ros2PublishError (Ros2Published V) :=
  if b.state ≠ .start then .error .notStarted
  else if checkRosMsg m.info.msgType then
    match b.ros2PublishTypeWrapperMap m.info.topicName m.info.msgType with
    | none => .error .unregistered
    | some true => publishSerialized m
    | some false => publishMessage m
  else
    let realRos2TopicName := m.info.topicName ++ ascii "/" ++ ros2NameEncode m.info.msgType
    if b.publisherMap realRos2TopicName then publishWrapper realRos2TopicName m
    else .error .unregistered

end Ros2ChannelBackend

/-! ### Ros2 messages -/

def kRos2 : Bytes := ascii "ros2"

/-- The type support of a ros2 message.  Its serialization in the type ros2 is the CDR encoding, behind
the buffers that growing left empty; the encoding starts with a header of which the first byte is zero.
No other serialization has a zero byte, but at its end. -/
structure Ros2TypeSupport (V : Type) extends TypeSupport V where
  cdr : V → Bytes
  serialize_ros2 : ∀ msg, ∃ n, serialize kRos2 msg = some (List.replicate n [] ++ [cdr msg])
  cdr_header : ∀ msg, ∃ option rest, cdr msg = 0 :: option :: rest
  zero_not_mem : ∀ serializationType msg bufferArray, serializationType ≠ kRos2 →
    serialize serializationType msg = some bufferArray → 0 ∉ bufferArray.flatten.dropLast

/-- The wrapper is one of the message `msg`, and what its cache holds are serializations of `msg`, in
whatever buffers. -/
structure Carries (ts : Ros2TypeSupport V) (m : MsgWrapper V) (msg : V) : Prop where
  typeSupport : m.info.msgTypeSupport = ts.toTypeSupport
  checkMsg : ∃ m', m.checkMsg = .ok (msg, m')
  cached : ∀ serializationType bufferArray,
    m.serializationCache.lookup serializationType = some bufferArray →
    ∃ bufferArray', ts.serialize serializationType msg = some bufferArray' ∧
      bufferArray'.flatten = bufferArray.flatten

namespace Ros2ChannelBackend

/-! ### Publishing bytes -/

/-- The backend without `use_serialized`. -/
def plain (b : Ros2ChannelBackend) : Ros2ChannelBackend :=
  { b with ros2PublishTypeWrapperMap := fun topicName msgType =>
      (b.ros2PublishTypeWrapperMap topicName msgType).map fun _ => false }

/-- The bytes published are those of the message that would be published without `use_serialized`. -/
def EqualsPlain (ts : Ros2TypeSupport V) (b : Ros2ChannelBackend) (m : MsgWrapper V) : Prop :=
  ∃ msg, b.plain.publish m = .ok (.message msg) ∧
    b.publish m = .ok (.serializedMessage (ts.cdr msg))

/-- The message is one of a ros2 type that is published with `use_serialized`. -/
structure UsesSerialized (b : Ros2ChannelBackend) (info : TopicInfo V) : Prop where
  state : b.state = .start
  msgType : checkRosMsg info.msgType = true
  registered : b.ros2PublishTypeWrapperMap info.topicName info.msgType = some true

variable {ts : Ros2TypeSupport V} {b : Ros2ChannelBackend} {m : MsgWrapper V} {msg : V}

theorem publish_plain (hb : b.UsesSerialized m.info) (hm : Carries ts m msg) :
    b.plain.publish m = .ok (.message msg) := by
  obtain ⟨m', hcheck⟩ := hm.checkMsg
  simp [publish, plain, hb.state, hb.msgType, hb.registered, publishMessage, hcheck]

theorem publish_serialized (hb : b.UsesSerialized m.info) : b.publish m = publishSerialized m := by
  simp [publish, hb.state, hb.msgType, hb.registered]

/-- What is published is the last buffer of a serialization, which was in the cache or is new. -/
theorem publish_eq_ok_iff (hb : b.UsesSerialized m.info) (hm : Carries ts m msg) {buffer : Bytes} :
    b.publish m = .ok (.serializedMessage buffer) ↔ ∃ front,
      m.serializationCache.lookup (serializationTypeOf m) = some (front ++ [buffer]) ∨
      m.serializationCache.lookup (serializationTypeOf m) = none ∧
        ts.serialize (serializationTypeOf m) msg = some (front ++ [buffer]) := by
  obtain ⟨m', hcheck⟩ := hm.checkMsg
  rw [publish_serialized hb]
  constructor
  · intro h
    obtain ⟨bufferArray, hserialize, h⟩ := Rpc.bind_eq_ok h
    obtain ⟨buffer', hlast, h⟩ := Rpc.bind_eq_ok h
    cases h
    obtain ⟨front, rfl⟩ := List.getLast?_eq_some_iff.1 (Rpc.require_eq_ok hlast)
    rw [serialize] at hserialize
    split at hserialize
    · cases hserialize
    · next hok =>
      cases hserialize
      refine ⟨front, (MsgWrapper.serializeMsgWithCache_eq_ok hok).imp And.left ?_⟩
      rintro ⟨hcache, msg', m'', hcheck', hfresh, -⟩
      obtain ⟨rfl, -⟩ := Prod.mk.inj (Except.ok.inj (hcheck'.symm.trans hcheck))
      rw [hm.typeSupport] at hfresh
      exact ⟨hcache, hfresh⟩
  · have hpublish : ∀ {front m''}, m.serializeMsgWithCache (serializationTypeOf m) =
        .ok (front ++ [buffer], m'') → publishSerialized m = .ok (.serializedMessage buffer) := by
      intro front m'' h
      simp only [publishSerialized, serialize, h]
      show (Rpc.require (front ++ [buffer]).getLast? _ >>= _) = _
      rw [List.getLast?_concat]
      rfl
    rintro ⟨front, hcached | ⟨hcache, hfresh⟩⟩
    · exact hpublish (MsgWrapper.serializeMsgWithCache_of_cached hcached)
    · rw [← hm.typeSupport] at hfresh
      exact hpublish (MsgWrapper.serializeMsgWithCache_of_not_cached hcache hcheck hfresh)

/-- The zero byte in front of a CDR encoding tells it from the end of any other serialization. -/
theorem serializationType_of_suffix {serializationType : Bytes} {front bufferArray : List Bytes}
    (hserialize : ts.serialize serializationType msg = some bufferArray)
    (hflatten : bufferArray.flatten = (front ++ [ts.cdr msg]).flatten) : serializationType = kRos2 := by
  by_contra hne
  obtain ⟨option, rest, hcdr⟩ := ts.cdr_header msg
  refine ts.zero_not_mem serializationType msg bufferArray hne hserialize ?_
  rw [hflatten, hcdr, List.flatten_append]
  simp [List.dropLast_append_of_ne_nil]

/-- An array with the bytes of a CDR encoding ends with it if the other buffers are empty. -/
theorem front_eq_nil_iff {front : List Bytes} {buffer : Bytes}
    (hflatten : (front ++ [buffer]).flatten = ts.cdr msg) :
    buffer = ts.cdr msg ↔ ∀ buffer' ∈ front, buffer' = [] := by
  rw [← List.flatten_eq_nil_iff, ← hflatten, List.flatten_concat]
  exact List.self_eq_append_left

theorem flatten_of_serialize_ros2 {bufferArray : List Bytes}
    (h : ts.serialize kRos2 msg = some bufferArray) : bufferArray.flatten = ts.cdr msg := by
  obtain ⟨n, hn⟩ := ts.serialize_ros2 msg
  rw [Option.some.inj (h.symm.trans hn)]
  simp

/-- **Main result.**  The bytes published are those of the message exactly if the type of the
serialization is ros2 and, where the cache has one of this type, all its buffers but the last are empty. -/
theorem equalsPlain_iff (ts : Ros2TypeSupport V) (b : Ros2ChannelBackend) (m : MsgWrapper V) (msg : V)
    (hb : b.UsesSerialized m.info) (hm : Carries ts m msg) :
    EqualsPlain ts b m ↔ serializationTypeOf m = kRos2 ∧
      ∀ bufferArray, m.serializationCache.lookup kRos2 = some bufferArray →
        ∀ buffer ∈ bufferArray.dropLast, buffer = [] := by
  constructor
  · rintro ⟨msg', hplain, hpublish⟩
    rw [publish_plain hb hm] at hplain
    cases hplain
    obtain ⟨front, hcached | ⟨hcache, hfresh⟩⟩ := (publish_eq_ok_iff hb hm).1 hpublish
    · obtain ⟨bufferArray, hserialize, hflatten⟩ := hm.cached _ _ hcached
      have htype := serializationType_of_suffix hserialize hflatten
      refine ⟨htype, fun cached hlookup => ?_⟩
      rw [htype] at hserialize hcached
      rw [hcached] at hlookup
      cases hlookup
      rw [List.dropLast_concat]
      exact (front_eq_nil_iff
        (hflatten.symm.trans (flatten_of_serialize_ros2 hserialize))).1 rfl
    · have htype := serializationType_of_suffix hfresh rfl
      rw [htype] at hcache
      exact ⟨htype, fun cached hlookup => nomatch hcache.symm.trans hlookup⟩
  · rintro ⟨htype, hfront⟩
    refine ⟨msg, publish_plain hb hm, (publish_eq_ok_iff hb hm).2 ?_⟩
    rw [htype]
    cases hlookup : m.serializationCache.lookup kRos2 with
    | none =>
      obtain ⟨n, hn⟩ := ts.serialize_ros2 msg
      exact ⟨List.replicate n [], .inr ⟨rfl, hn⟩⟩
    | some bufferArray =>
      obtain ⟨bufferArray', hserialize, hflatten⟩ := hm.cached _ _ hlookup
      have hcdr := hflatten.symm.trans (flatten_of_serialize_ros2 hserialize)
      rcases List.eq_nil_or_concat' bufferArray with rfl | ⟨front, buffer, rfl⟩
      · obtain ⟨option, rest, hheader⟩ := ts.cdr_header msg
        rw [hheader] at hcdr
        cases hcdr
      · have hnil := hfront _ hlookup
        rw [List.dropLast_concat] at hnil
        rw [(front_eq_nil_iff hcdr).2 hnil]
        exact ⟨front, .inl rfl⟩

/-! ### An empty message -/

/-- The type support of a message without members. -/
def exampleTypeSupport : Ros2TypeSupport Unit where
  serializationTypesSupportedList := [kRos2, ascii "json"]
  serialize := fun serializationType _ =>
    if serializationType = kRos2 then some [[0, 1, 0, 0]] else some [ascii "{}"]
  deserialize := fun _ _ => some ()
  copy := id
  deserialize_flatten := by simp
  cdr := fun _ => [0, 1, 0, 0]
  serialize_ros2 := fun _ => ⟨0, rfl⟩
  cdr_header := fun _ => ⟨1, [0, 0], rfl⟩
  zero_not_mem := by
    intro serializationType msg bufferArray hne h
    rw [if_neg hne] at h
    cases h
    decide

def exampleBackend : Ros2ChannelBackend := ⟨.start, fun _ _ => some true, fun _ => false⟩

/-- The message with the serialization type `serializationType` in its context. -/
def exampleMsg (serializationType : Bytes) : MsgWrapper Unit where
  info := ⟨ascii "ros2:M", ascii "t", ascii "p", ascii "m", exampleTypeSupport.toTypeSupport⟩
  msgPtr := some ()
  ctx := ⟨.publisher, true, Context.setMetaValue ∅ Channel.kSerializationType serializationType⟩
  serializationCache := ∅

theorem usesSerialized_example (serializationType : Bytes) :
    exampleBackend.UsesSerialized (exampleMsg serializationType).info := ⟨rfl, by rfl, rfl⟩

theorem carries_example (serializationType : Bytes) :
    Carries exampleTypeSupport (exampleMsg serializationType) () where
  typeSupport := rfl
  checkMsg := ⟨_, rfl⟩
  cached := nofun

theorem equalsPlain_ros2 : EqualsPlain exampleTypeSupport exampleBackend (exampleMsg kRos2) :=
  (equalsPlain_iff exampleTypeSupport exampleBackend (exampleMsg kRos2) ()
    (usesSerialized_example kRos2) (carries_example kRos2)).2 ⟨by decide, nofun⟩

/-- With json in the context the text of the message is published as its CDR encoding. -/
theorem not_equalsPlain : ¬ ∀ (ts : Ros2TypeSupport Unit) (b : Ros2ChannelBackend)
    (m : MsgWrapper Unit) (msg : Unit), b.UsesSerialized m.info → Carries ts m msg →
    EqualsPlain ts b m := by
  intro h
  obtain ⟨msg, -, hpublish⟩ := h exampleTypeSupport exampleBackend (exampleMsg (ascii "json")) ()
    (usesSerialized_example _) (carries_example _)
  have hjson : exampleBackend.publish (exampleMsg (ascii "json")) =
      .ok (.serializedMessage (ascii "{}")) := by rfl
  cases hjson.symm.trans hpublish

end Ros2ChannelBackend

end AimRT.Ros2

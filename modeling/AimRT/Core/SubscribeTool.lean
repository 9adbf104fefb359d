import AimRT.Core.ChannelMsg
import AimRT.Util.BufferArray

/-!
# Fan-out to subscribers

`SubscribeTool` hands a received message to the subscribers of a topic.  If some subscriber wants
serializations of the received type to be kept, every subscriber gets the bytes and reads them in its
callback; otherwise the tool reads them for one subscriber after the other, and the first that cannot
read them ends the loop.  `deliversToAll_iff` says when this makes no difference.
-/

namespace AimRT.Core

open AimRT.Lib AimRT.Util

variable {V : Type}

/-! ### Subscribers -/

/-- `SubscribeWrapper`; its callback is `subscriberCallback`. -/
structure SubscribeWrapper (V : Type) where
  info : TopicInfo V
  requireCacheSerializationTypes : List Bytes

/-- The callback that `ChannelBackendManager::Subscribe` makes of a user callback: what the user
callback is called with, if `CheckMsg` does not throw. -/
def subscriberCallback (m : MsgWrapper V) : Option (ChannelContext × V) :=
  match m.checkMsg with
  | .error _ => none
  | .ok (msg, m) => some (m.ctx, msg)

/-- A subscriber that gets the bytes reads them. -/
theorem subscriberCallback_withCache (info : TopicInfo V) (ctx : ChannelContext)
    (serializationType : Bytes) (bufferArray : List Bytes) :
    subscriberCallback ⟨info, none, ctx, AList.insert serializationType bufferArray ∅⟩ =
      (info.msgTypeSupport.deserialize serializationType bufferArray).map (ctx, ·) := by
  cases h : info.msgTypeSupport.deserialize serializationType bufferArray with
  | none => simp [subscriberCallback, MsgWrapper.checkMsg, MsgWrapper.deserializeFrom, h]
  | some msg => simp [subscriberCallback, MsgWrapper.checkMsg, MsgWrapper.deserializeFrom, h]

/-- A call of the callback of a subscriber. -/
structure SubscriberCall (V : Type) where
  subscriber : SubscribeWrapper V
  msg : MsgWrapper V

/-- The calls of user callbacks. -/
def received (calls : List (SubscriberCall V)) :
    List (SubscribeWrapper V × ChannelContext × V) :=
  calls.filterMap fun call => (subscriberCallback call.msg).map (call.subscriber, ·)

/-! ### The tool -/

/-- `SubscribeTool`; the required types are a set. -/
structure SubscribeTool (V : Type) where
  subWrapperVec : List (SubscribeWrapper V)
  requireCacheSerializationTypes : List Bytes

namespace SubscribeTool

def empty : SubscribeTool V := ⟨[], []⟩

def addSubscribeWrapper (t : SubscribeTool V) (w : SubscribeWrapper V) : SubscribeTool V where
  subWrapperVec := t.subWrapperVec ++ [w]
  requireCacheSerializationTypes :=
    t.requireCacheSerializationTypes ++ w.requireCacheSerializationTypes

/-- The tool of the subscribers of a topic. -/
def ofSubscribers (subscribers : List (SubscribeWrapper V)) : SubscribeTool V :=
  subscribers.foldl addSubscribeWrapper empty

/-- `DoSubscribeCallbackWithoutCache`: the callbacks called, and how the loop ends. -/
def doSubscribeCallbackWithoutCache (ctx : ChannelContext) (serializationType : Bytes)
    (bufferArray : List Bytes) :
    List (SubscribeWrapper V) → List (SubscriberCall V) × Except MsgError Unit
  | [] => ([], .ok ())
  | w :: ws =>
    match w.info.msgTypeSupport.deserialize serializationType bufferArray with
    | none => ([], .error .msgDeserializeFailed)
    | some msg =>
      let rest := doSubscribeCallbackWithoutCache ctx serializationType bufferArray ws
      (⟨w, ⟨w.info, some msg, ctx, ∅⟩⟩ :: rest.1, rest.2)

/-- `DoSubscribeCallbackWithCache`. -/
def doSubscribeCallbackWithCache (ctx : ChannelContext) (serializationType : Bytes)
    (bufferArray : List Bytes) (ws : List (SubscribeWrapper V)) : List (SubscriberCall V) :=
  ws.map fun w => ⟨w, ⟨w.info, none, ctx, AList.insert serializationType bufferArray ∅⟩⟩

/-- `DoSubscribeCallback` for a buffer array; no value where the copy leaves its block. -/
def doSubscribeCallback (t : SubscribeTool V) (ctx : ChannelContext) (serializationType : Bytes)
    (bufferArray : List Bytes) : Option (List (SubscriberCall V) × Except MsgError Unit) :=
  if serializationType ∈ t.requireCacheSerializationTypes then do
    let buffer ← fillData bufferArray
    return (doSubscribeCallbackWithCache ctx serializationType [buffer] t.subWrapperVec, .ok ())
  else
    some (doSubscribeCallbackWithoutCache ctx serializationType bufferArray t.subWrapperVec)

/-- `DoSubscribeCallback` for `len` bytes at `data`. -/
def doSubscribeCallbackData (t : SubscribeTool V) (ctx : ChannelContext) (serializationType : Bytes)
    (data : Bytes) : Option (List (SubscriberCall V) × Except MsgError Unit) :=
  if serializationType ∈ t.requireCacheSerializationTypes then do
    let buffer ← memcpy (List.replicate data.length 0) 0 data
    return (doSubscribeCallbackWithCache ctx serializationType [buffer] t.subWrapperVec, .ok ())
  else
    some (doSubscribeCallbackWithoutCache ctx serializationType [data] t.subWrapperVec)

/-! ### Who receives the message -/

/-- What is to be received: every subscriber that can read the bytes gets its message. -/
def readers (ctx : ChannelContext) (serializationType : Bytes) (bufferArray : List Bytes)
    (ws : List (SubscribeWrapper V)) : List (SubscribeWrapper V × ChannelContext × V) :=
  ws.filterMap fun w =>
    (w.info.msgTypeSupport.deserialize serializationType bufferArray).map (w, ctx, ·)

/-- The user callbacks called are those of the subscribers that can read the bytes. -/
def DeliversToAll (result : Option (List (SubscriberCall V) × Except MsgError Unit))
    (expected : List (SubscribeWrapper V × ChannelContext × V)) : Prop :=
  ∃ calls ending, result = some (calls, ending) ∧ received calls = expected

variable {ctx : ChannelContext} {serializationType : Bytes} {bufferArray : List Bytes}

/-- A subscriber can read the bytes. -/
def Reads (serializationType : Bytes) (bufferArray : List Bytes) (w : SubscribeWrapper V) : Prop :=
  (w.info.msgTypeSupport.deserialize serializationType bufferArray).isSome

theorem ofSubscribers_eq (subscribers : List (SubscribeWrapper V)) : ofSubscribers subscribers =
    ⟨subscribers, subscribers.flatMap (·.requireCacheSerializationTypes)⟩ := by
  have hfold : ∀ (ws : List (SubscribeWrapper V)) (t : SubscribeTool V),
      ws.foldl addSubscribeWrapper t = ⟨t.subWrapperVec ++ ws, t.requireCacheSerializationTypes ++
        ws.flatMap (·.requireCacheSerializationTypes)⟩ := by
    intro ws
    induction ws with
    | nil =>
      intro t
      simp
    | cons w ws ih =>
      intro t
      simp [ih, addSubscribeWrapper]
  exact hfold subscribers empty

theorem received_withCache (ws : List (SubscribeWrapper V)) :
    received (doSubscribeCallbackWithCache ctx serializationType bufferArray ws) =
      readers ctx serializationType bufferArray ws := by
  rw [received, doSubscribeCallbackWithCache, readers, List.filterMap_map]
  refine List.filterMap_congr fun w _ => ?_
  rw [Function.comp_apply, subscriberCallback_withCache, Option.map_map]
  rfl

theorem readers_eq_nil {ws : List (SubscribeWrapper V)} :
    readers ctx serializationType bufferArray ws = [] ↔
      ∀ w ∈ ws, ¬ Reads serializationType bufferArray w := by
  simp [readers, Reads]

/-- The loop that reads the bytes reaches every reader if no subscriber that cannot read them stands in
front of one that can. -/
theorem received_withoutCache_iff (ws : List (SubscribeWrapper V)) :
    received (doSubscribeCallbackWithoutCache ctx serializationType bufferArray ws).1 =
        readers ctx serializationType bufferArray ws ↔
      ws.Pairwise fun w w' =>
        Reads serializationType bufferArray w' → Reads serializationType bufferArray w := by
  induction ws with
  | nil => simp [doSubscribeCallbackWithoutCache, received, readers]
  | cons w ws ih =>
    rw [List.pairwise_cons]
    cases h : w.info.msgTypeSupport.deserialize serializationType bufferArray with
    | none =>
      have hnot : ¬ Reads serializationType bufferArray w := by simp [Reads, h]
      have hreaders : readers ctx serializationType bufferArray (w :: ws) =
          readers ctx serializationType bufferArray ws := by simp [readers, h]
      rw [hreaders, doSubscribeCallbackWithoutCache, h]
      show [] = _ ↔ _
      rw [eq_comm, readers_eq_nil]
      refine ⟨fun hws => ⟨fun w' hw' hreads => absurd hreads (hws w' hw'), ?_⟩,
        fun hws w' hw' hreads => hnot (hws.1 w' hw' hreads)⟩
      exact List.pairwise_of_forall_mem_list fun w' _ w'' hw'' hreads =>
        absurd hreads (hws w'' hw'')
    | some msg =>
      have hreads : Reads serializationType bufferArray w := by simp [Reads, h]
      have hcall : subscriberCallback (⟨w.info, some msg, ctx, ∅⟩ : MsgWrapper V) =
          some (ctx, msg) := rfl
      simp only [doSubscribeCallbackWithoutCache, h, received, List.filterMap_cons, hcall, readers,
        Option.map_some, List.cons.injEq, true_and]
      exact ih.trans ⟨fun hws => ⟨fun _ _ _ => hreads, hws⟩, fun hws => hws.2⟩

theorem deliversToAll_withCache {ending : Except MsgError Unit} (ws : List (SubscribeWrapper V)) :
    DeliversToAll
      (some (doSubscribeCallbackWithCache ctx serializationType [bufferArray.flatten] ws, ending))
      (readers ctx serializationType bufferArray ws) := by
  refine ⟨_, _, rfl, ?_⟩
  rw [received_withCache]
  simp only [readers, TypeSupport.deserialize_flatten]

theorem deliversToAll_withoutCache_iff (ws : List (SubscribeWrapper V)) :
    DeliversToAll (some (doSubscribeCallbackWithoutCache ctx serializationType bufferArray ws))
        (readers ctx serializationType bufferArray ws) ↔
      ws.Pairwise fun w w' =>
        Reads serializationType bufferArray w' → Reads serializationType bufferArray w := by
  rw [← @received_withoutCache_iff V ctx]
  constructor
  · rintro ⟨calls, ending, hresult, hreceived⟩
    rwa [Option.some.inj hresult]
  · exact fun hreceived => ⟨_, _, rfl, hreceived⟩

/-- The serializations of the type are kept for some subscriber, or no subscriber that cannot read the
bytes stands in front of one that can. -/
def ReachesReaders (subscribers : List (SubscribeWrapper V)) (serializationType : Bytes)
    (bufferArray : List Bytes) : Prop :=
  (∃ w ∈ subscribers, serializationType ∈ w.requireCacheSerializationTypes) ∨
    subscribers.Pairwise fun w w' =>
      Reads serializationType bufferArray w' → Reads serializationType bufferArray w

theorem memcpy_self (data : Bytes) : memcpy (List.replicate data.length 0) 0 data = some data := by
  rw [memcpy_eq_some (by simp)]
  exact congrArg some (BufferOperator.ofLen_put_buf data)

/-- **Main result.**  The subscribers that receive a message are those that can read its bytes, each once,
exactly if the serializations of its type are kept for some subscriber, or no subscriber that cannot read
the bytes stands in front of one that can.  The bytes may come in any buffers. -/
theorem deliversToAll_iff (subscribers : List (SubscribeWrapper V)) (ctx : ChannelContext)
    (serializationType : Bytes) :
    (∀ bufferArray, DeliversToAll
        ((ofSubscribers subscribers).doSubscribeCallback ctx serializationType bufferArray)
        (readers ctx serializationType bufferArray subscribers) ↔
      ReachesReaders subscribers serializationType bufferArray) ∧
    ∀ data, DeliversToAll
        ((ofSubscribers subscribers).doSubscribeCallbackData ctx serializationType data)
        (readers ctx serializationType [data] subscribers) ↔
      ReachesReaders subscribers serializationType [data] := by
  rw [ofSubscribers_eq]
  by_cases hkept : ∃ w ∈ subscribers, serializationType ∈ w.requireCacheSerializationTypes
  · have hmem := List.mem_flatMap.2 hkept
    refine ⟨fun bufferArray => iff_of_true ?_ (.inl hkept), fun data =>
      iff_of_true ?_ (.inl hkept)⟩
    · rw [doSubscribeCallback, if_pos hmem, fillData_eq]
      exact deliversToAll_withCache subscribers
    · have hall := @deliversToAll_withCache V ctx serializationType [data] (.ok ()) subscribers
      rw [List.flatten_singleton] at hall
      rw [doSubscribeCallbackData, if_pos hmem, memcpy_self]
      exact hall
  · have hmem := fun h => hkept (List.mem_flatMap.1 h)
    refine ⟨fun bufferArray => ?_, fun data => ?_⟩
    · rw [doSubscribeCallback, if_neg hmem, ReachesReaders, or_iff_right hkept]
      exact deliversToAll_withoutCache_iff subscribers
    · rw [doSubscribeCallbackData, if_neg hmem, ReachesReaders, or_iff_right hkept]
      exact deliversToAll_withoutCache_iff subscribers

/-! ### Two subscribers -/

/-- A type support that reads every message of the types in `types`, as its length. -/
def exampleTypeSupport (types : List Bytes) : TypeSupport ℕ where
  serializationTypesSupportedList := types
  serialize := fun _ n => some [List.replicate n 0]
  deserialize := fun serializationType bufferArray =>
    if serializationType ∈ types then some bufferArray.flatten.length else none
  copy := id
  deserialize_flatten := by simp

def exampleSubscriber (moduleName : Bytes) (types : List Bytes) : SubscribeWrapper ℕ :=
  ⟨⟨ascii "pb:M", ascii "t", ascii "p", moduleName, exampleTypeSupport types⟩, []⟩

/-- The first cannot read json, the second can. -/
theorem not_deliversToAll : ¬ ∀ (subscribers : List (SubscribeWrapper ℕ)) (ctx : ChannelContext)
    (serializationType : Bytes) (bufferArray : List Bytes), DeliversToAll
      ((ofSubscribers subscribers).doSubscribeCallback ctx serializationType bufferArray)
      (readers ctx serializationType bufferArray subscribers) := by
  intro h
  obtain ⟨calls, ending, hresult, hreceived⟩ := h
    [exampleSubscriber (ascii "m1") [], exampleSubscriber (ascii "m2") [ascii "json"]]
    ⟨.subscriber, false, ∅⟩ (ascii "json") [[1], [2]]
  have hcalls : calls = [] := (congrArg Prod.fst (Option.some.inj hresult)).symm
  rw [hcalls] at hreceived
  exact absurd (congrArg List.length hreceived) (by decide)

end SubscribeTool

end AimRT.Core

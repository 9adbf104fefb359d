import AimRT.Core.SubscribeTool

/-!
# The channel registry

`ChannelRegistry` has the subscribers of all topics, each under its message type, topic, package and
module, and an index from message type, topic and package to the subscribers of the modules.  A second
subscription under the same key is refused.
-/

namespace AimRT.Core

open AimRT.Lib AimRT.Util

variable {V : Type}

/-! ### Maps of maps -/

section

variable {α β : Type} [DecidableEq α] [EmptyCollection β]

/-- `map[k]`, for a map whose values are empty at first. -/
def entryAt (map : AList (fun _ : α => β)) (k : α) : β := (map.lookup k).getD ∅

@[simp] theorem entryAt_empty (k : α) : entryAt (∅ : AList (fun _ : α => β)) k = ∅ := rfl

@[simp] theorem entryAt_insert_self (map : AList (fun _ : α => β)) (k : α) (b : β) :
    entryAt (map.insert k b) k = b := by
  simp [entryAt]

theorem entryAt_insert_ne {map : AList (fun _ : α => β)} {k k' : α} {b : β} (h : k' ≠ k) :
    entryAt (map.insert k b) k' = entryAt map k' := by
  rw [entryAt, AList.lookup_insert_ne h, entryAt]

end

/-! ### The registry -/

/-- `ChannelRegistry::Key`. -/
structure TopicKey where
  msgType : Bytes
  topicName : Bytes
  pkgPath : Bytes
  moduleName : Bytes
  deriving DecidableEq, Repr

/-- `ChannelRegistry::MTPKey`. -/
structure MTPKey where
  msgType : Bytes
  topicName : Bytes
  pkgPath : Bytes
  deriving DecidableEq, Repr

def TopicInfo.key (info : TopicInfo V) : TopicKey :=
  ⟨info.msgType, info.topicName, info.pkgPath, info.moduleName⟩

def TopicKey.mtp (key : TopicKey) : MTPKey := ⟨key.msgType, key.topicName, key.pkgPath⟩

/-- The subscribers of one package, under their modules. -/
abbrev ModuleSubscribeWrapperMap (V : Type) := AList (fun _ : Bytes => SubscribeWrapper V)

/-- The subscribers of a `ChannelRegistry`. -/
structure ChannelRegistry (V : Type) where
  subscribeWrapperMap : AList (fun _ : TopicKey => SubscribeWrapper V)
  subMsgTopicPkgIndexMap : AList (fun _ : MTPKey => ModuleSubscribeWrapperMap V)

namespace ChannelRegistry

def empty : ChannelRegistry V := ⟨∅, ∅⟩

/-- `Subscribe`. -/
def subscribe (r : ChannelRegistry V) (w : SubscribeWrapper V) : Bool × ChannelRegistry V :=
  let key := w.info.key
  if key ∈ r.subscribeWrapperMap then (false, r)
  else (true, {
    subscribeWrapperMap := r.subscribeWrapperMap.insert key w
    subMsgTopicPkgIndexMap := r.subMsgTopicPkgIndexMap.insert key.mtp
      ((entryAt r.subMsgTopicPkgIndexMap key.mtp).insert key.moduleName w) })

/-- `GetModuleSubscribeWrapperMapPtr`. -/
def getModuleSubscribeWrapperMapPtr (r : ChannelRegistry V) (msgType topicName pkgPath : Bytes) :
    Option (ModuleSubscribeWrapperMap V) :=
  r.subMsgTopicPkgIndexMap.lookup ⟨msgType, topicName, pkgPath⟩

/-- The subscriber under a key is the first one that subscribed with it. -/
def subscriberOf (ws : List (SubscribeWrapper V)) (key : TopicKey) : Option (SubscribeWrapper V) :=
  ws.find? fun w => w.info.key = key

theorem subscriberOf_concat (ws : List (SubscribeWrapper V)) (w : SubscribeWrapper V)
    (key : TopicKey) : subscriberOf (ws ++ [w]) key =
      (subscriberOf ws key).or (if w.info.key = key then some w else none) := by
  rw [subscriberOf, subscriberOf, List.find?_append, List.find?_singleton]
  simp only [decide_eq_true_eq]

theorem key_of_subscriberOf {ws : List (SubscribeWrapper V)} {key : TopicKey}
    {w : SubscribeWrapper V} (h : subscriberOf ws key = some w) : w.info.key = key := by
  simpa using List.find?_some h

/-- What the registry has after the subscriptions `ws`, and that its index is in step. -/
structure Holds (r : ChannelRegistry V) (ws : List (SubscribeWrapper V)) : Prop where
  wrapper : ∀ key, r.subscribeWrapperMap.lookup key = subscriberOf ws key
  index : ∀ key : TopicKey, (entryAt r.subMsgTopicPkgIndexMap key.mtp).lookup key.moduleName =
    subscriberOf ws key

theorem holds_empty : (empty : ChannelRegistry V).Holds [] := ⟨fun _ => rfl, fun _ => rfl⟩

variable {r : ChannelRegistry V} {ws : List (SubscribeWrapper V)}

theorem Holds.mem_iff (h : r.Holds ws) (key : TopicKey) :
    key ∈ r.subscribeWrapperMap ↔ (subscriberOf ws key).isSome := by
  rw [← AList.lookup_isSome, h.wrapper]

/-- A subscription is accepted if it is the first with its key. -/
theorem Holds.subscribe_fst (h : r.Holds ws) (w : SubscribeWrapper V) :
    (r.subscribe w).1 = (subscriberOf ws w.info.key).isNone := by
  by_cases hmem : w.info.key ∈ r.subscribeWrapperMap
  · have hsome := (h.mem_iff _).1 hmem
    simp [subscribe, hmem, Option.isNone_eq_false_iff.2 hsome]
  · have hnone := mt (h.mem_iff _).2 hmem
    simp [subscribe, hmem, Option.not_isSome_iff_eq_none.1 hnone]

theorem Holds.subscribe (h : r.Holds ws) (w : SubscribeWrapper V) :
    (r.subscribe w).2.Holds (ws ++ [w]) := by
  by_cases hmem : w.info.key ∈ r.subscribeWrapperMap
  · have hsame : ∀ key, subscriberOf (ws ++ [w]) key = subscriberOf ws key := by
      intro key
      rw [subscriberOf_concat]
      split
      · next hkey =>
        obtain ⟨w', hw'⟩ := Option.isSome_iff_exists.1 ((h.mem_iff _).1 (hkey ▸ hmem))
        rw [hw', Option.some_or]
      · exact Option.or_none
    simp only [ChannelRegistry.subscribe, hmem, if_true]
    exact ⟨fun key => (h.wrapper key).trans (hsame key).symm,
      fun key => (h.index key).trans (hsame key).symm⟩
  · have hnone : subscriberOf ws w.info.key = none :=
      Option.not_isSome_iff_eq_none.1 (mt (h.mem_iff _).2 hmem)
    simp only [ChannelRegistry.subscribe, hmem, if_false]
    refine ⟨fun key => ?_, fun key => ?_⟩
    · rw [subscriberOf_concat]
      by_cases hkey : w.info.key = key
      · subst hkey
        rw [AList.lookup_insert, hnone, if_pos rfl, Option.none_or]
      · rw [AList.lookup_insert_ne (Ne.symm hkey), h.wrapper, if_neg hkey, Option.or_none]
    · rw [subscriberOf_concat]
      by_cases hkey : w.info.key = key
      · subst hkey
        rw [entryAt_insert_self, AList.lookup_insert, hnone, if_pos rfl, Option.none_or]
      · rw [if_neg hkey, Option.or_none, ← h.index]
        by_cases hmtp : key.mtp = w.info.key.mtp
        · -- the same package: the modules differ
          have hmodule : key.moduleName ≠ w.info.key.moduleName := by
            intro hmodule
            apply hkey
            cases key
            cases w.info.key
            simp_all [TopicKey.mtp]
          rw [hmtp, entryAt_insert_self, AList.lookup_insert_ne hmodule]
        · rw [entryAt_insert_ne hmtp]

end ChannelRegistry

end AimRT.Core

import AimRT.Core.SubscribeTool
import AimRT.Ros2.Ros2ChannelBackend
import AimRT.Util.UrlEncode

/-!
# Ros2 topic names

`Ros2NameEncode`, `Ros2NameDecode`, and the wrapper map of the ros2 channel backend.  The messages of all types that
are not ros2 types are carried by ros2 topics with the name `topic/type`, where the type is encoded and keeps its
slashes.  `realRos2TopicName_eq_iff` says which topics and types share a name.
-/

namespace AimRT.Ros2

open AimRT.Lib AimRT.Util AimRT.Core

variable {V : Type}

/-! ### The code -/

/-- `Ros2NameEncode`, in either case. -/
def ros2NameEncodeOf (up : Bool) (str : Bytes) : Bytes := str.flatMap fun c =>
  if isalnum c || c = 47 then [c] else [95, toHexOf up (c >>> 4), toHexOf up (c &&& 15)]

theorem ros2NameEncodeOf_true : ros2NameEncodeOf true = ros2NameEncode := rfl

/-- The loop ends at a `_` without two characters behind it. -/
def ros2NameDecode : Bytes → Bytes
  | [] => []
  | c :: str =>
    if c = 95 then
      match str with
      | x :: y :: str => ((fromHex x <<< 4) ||| fromHex y) :: ros2NameDecode str
      | _ => []
    else c :: ros2NameDecode str

theorem ros2NameDecode_code (x y : UInt8) (str : Bytes) :
    ros2NameDecode (95 :: x :: y :: str) = ((fromHex x <<< 4) ||| fromHex y) :: ros2NameDecode str := rfl

theorem ros2NameDecode_keep {c : UInt8} (hc : c ≠ 95) (str : Bytes) :
    ros2NameDecode (c :: str) = c :: ros2NameDecode str := by
  rcases str with - | ⟨x, - | ⟨y, str⟩⟩ <;> exact if_neg hc

theorem ros2NameDecode_encodeOf (up : Bool) (str : Bytes) :
    ros2NameDecode (ros2NameEncodeOf up str) = str := by
  induction str with
  | nil => rfl
  | cons c str ih =>
    rw [ros2NameEncodeOf, List.flatMap_cons, ← ros2NameEncodeOf]
    split
    next hkeep =>
      have hc : c ≠ 95 := by
        rintro rfl
        revert hkeep
        decide
      rw [List.singleton_append, ros2NameDecode_keep hc, ih]
    · rw [List.cons_append, List.cons_append, List.singleton_append, ros2NameDecode_code, fromHex_toHexOf, ih]

theorem ros2NameEncode_injective : Function.Injective ros2NameEncode :=
  Function.LeftInverse.injective (ros2NameDecode_encodeOf true)

theorem ros2NameEncode_append (x y : Bytes) :
    ros2NameEncode (x ++ y) = ros2NameEncode x ++ ros2NameEncode y := List.flatMap_append

theorem ros2NameEncode_slash (y : Bytes) : ros2NameEncode (47 :: y) = 47 :: ros2NameEncode y := by
  rw [ros2NameEncode, List.flatMap_cons, if_pos (by decide), List.singleton_append, ← ros2NameEncode]

/-- A slash in a code is a slash that was kept. -/
theorem slash_of_mem_code {c : UInt8} (h : 47 ∈ ros2NameEncode [c]) : c = 47 := by
  have hcode : ∀ c : UInt8, 47 ∈ ros2NameEncode [c] → c = 47 := forall_uint8 (by decide +kernel)
  exact hcode c h

/-- Where a code is cut at a slash, it is the text that is cut at a slash. -/
theorem ros2NameEncode_cut {t v w : Bytes} (h : ros2NameEncode t = v ++ 47 :: w) :
    ∃ x y, t = x ++ 47 :: y ∧ v = ros2NameEncode x ∧ w = ros2NameEncode y := by
  induction t generalizing v with
  | nil => exact absurd h (by simp [ros2NameEncode])
  | cons c t ih =>
    by_cases hc : c = 47
    · subst hc
      rw [ros2NameEncode_slash] at h
      cases v with
      | nil => exact ⟨[], t, rfl, rfl, (List.cons.inj h).2.symm⟩
      | cons b v =>
        obtain ⟨rfl, hrest⟩ := List.cons.inj h
        obtain ⟨x, y, rfl, rfl, rfl⟩ := ih hrest
        exact ⟨47 :: x, y, rfl, (ros2NameEncode_slash x).symm, rfl⟩
    · rw [← List.singleton_append, ros2NameEncode_append] at h
      have hbehind : ∃ v', v = ros2NameEncode [c] ++ v' ∧ ros2NameEncode t = v' ++ 47 :: w := by
        rcases List.append_eq_append_iff.1 h with ⟨v', hv, hrest⟩ | ⟨w', hcode, hrest⟩
        · exact ⟨v', hv, hrest⟩
        · cases w' with
          | nil => exact ⟨[], by rw [hcode, List.append_nil, List.append_nil], hrest.symm⟩
          | cons b w' =>
            obtain ⟨rfl, -⟩ := List.cons.inj hrest
            exact absurd (slash_of_mem_code (by rw [hcode]; simp)) hc
      obtain ⟨v', rfl, hrest⟩ := hbehind
      obtain ⟨x, y, rfl, rfl, rfl⟩ := ih hrest
      exact ⟨c :: x, y, rfl, (ros2NameEncode_append [c] x).symm, rfl⟩

/-! ### Shared names -/

def realRos2TopicName (topicName msgType : Bytes) : Bytes := topicName ++ ascii "/" ++ ros2NameEncode msgType

/-- The type begins with what the other topic has more. -/
def Shifted (topicName msgType topicName' msgType' : Bytes) : Prop :=
  ∃ x, msgType = x ++ 47 :: msgType' ∧ topicName' = topicName ++ 47 :: ros2NameEncode x

variable {topicName msgType topicName' msgType' : Bytes}

theorem realRos2TopicName_eq (topicName msgType : Bytes) :
    realRos2TopicName topicName msgType = topicName ++ 47 :: ros2NameEncode msgType := by
  rw [realRos2TopicName, List.append_assoc]
  rfl

theorem Shifted.realRos2TopicName_eq (h : Shifted topicName msgType topicName' msgType') :
    realRos2TopicName topicName msgType = realRos2TopicName topicName' msgType' := by
  obtain ⟨x, rfl, rfl⟩ := h
  rw [Ros2.realRos2TopicName_eq, Ros2.realRos2TopicName_eq, ros2NameEncode_append, ros2NameEncode_slash,
    List.append_assoc, List.cons_append]

/-- A topic that is longer by `v` shares the name of a shorter one. -/
theorem shifted_of_append {v : Bytes} (hv : v ≠ [])
    (h : 47 :: ros2NameEncode msgType = v ++ 47 :: ros2NameEncode msgType') :
    Shifted topicName msgType (topicName ++ v) msgType' := by
  obtain ⟨b, v, rfl⟩ := List.exists_cons_of_ne_nil hv
  obtain ⟨rfl, hrest⟩ := List.cons.inj h
  obtain ⟨x, y, rfl, rfl, hy⟩ := ros2NameEncode_cut hrest
  rw [ros2NameEncode_injective hy]
  exact ⟨x, rfl, rfl⟩

/-- Two pairs of a topic and a type share a name if a slash of the one type is where the other type begins. -/
theorem realRos2TopicName_eq_iff : realRos2TopicName topicName msgType = realRos2TopicName topicName' msgType' ↔
    (topicName = topicName' ∧ msgType = msgType') ∨ Shifted topicName msgType topicName' msgType' ∨
      Shifted topicName' msgType' topicName msgType := by
  constructor
  · intro h
    rw [realRos2TopicName_eq, realRos2TopicName_eq] at h
    rcases List.append_eq_append_iff.1 h with ⟨v, rfl, hrest⟩ | ⟨v, rfl, hrest⟩
    · by_cases hv : v = []
      · subst hv
        refine .inl ⟨(List.append_nil _).symm, ros2NameEncode_injective (List.cons.inj hrest).2⟩
      · exact .inr (.inl (shifted_of_append hv hrest))
    · by_cases hv : v = []
      · subst hv
        refine .inl ⟨List.append_nil _, ros2NameEncode_injective (List.cons.inj hrest).2.symm⟩
      · exact .inr (.inr (shifted_of_append hv hrest))
  · rintro (⟨rfl, rfl⟩ | h | h)
    · rfl
    · exact h.realRos2TopicName_eq
    · exact h.realRos2TopicName_eq.symm

/-- Types without a slash keep topics apart. -/
theorem Shifted.slash_mem (h : Shifted topicName msgType topicName' msgType') : 47 ∈ msgType := by
  obtain ⟨x, rfl, -⟩ := h
  simp

/-! ### The wrapper map -/

/-- The subscriber's side of the backend: the tools of ros2 types under topic and type, and those of other types
under the name of their ros2 topic. -/
structure Ros2Subscriber (V : Type) where
  state : Channel.State
  ros2SubscribeWrapperMap : AList (fun _ : Bytes × Bytes => SubscribeTool V)
  subscribeWrapperMap : AList (fun _ : Bytes => SubscribeTool V)

namespace Ros2Subscriber

/-- A node that is not subscribed to anything. -/
def initialized : Ros2Subscriber V := ⟨.init, ∅, ∅⟩

/-- The subscriber is added to the tool of its key.  For a new key a ros2 subscription is made, which throws where
`expandTopicName` finds that the name is not one of a topic. -/
def addSubscribeWrapper {K : Type} [DecidableEq K] (expandTopicName : Bytes → Option Bytes) (key : K)
    (ros2TopicName : Bytes) (w : SubscribeWrapper V) (map : AList (fun _ : K => SubscribeTool V)) :
    Option (AList (fun _ : K => SubscribeTool V)) :=
  match map.lookup key with
  | some tool => some (map.insert key (tool.addSubscribeWrapper w))
  | none => (expandTopicName ros2TopicName).map fun _ => map.insert key (SubscribeTool.empty.addSubscribeWrapper w)

/-- `Subscribe`; where it throws, the maps stay as they are. -/
def subscribe (expandTopicName : Bytes → Option Bytes) (b : Ros2Subscriber V) (w : SubscribeWrapper V) :
    Ros2Subscriber V × Bool :=
  if b.state ≠ .init then (b, false)
  else if Ros2ChannelBackend.checkRosMsg w.info.msgType then
    match addSubscribeWrapper expandTopicName (w.info.topicName, w.info.msgType) w.info.topicName w
      b.ros2SubscribeWrapperMap with
    | none => (b, false)
    | some map => ({ b with ros2SubscribeWrapperMap := map }, true)
  else
    let name := realRos2TopicName w.info.topicName w.info.msgType
    match addSubscribeWrapper expandTopicName name name w b.subscribeWrapperMap with
    | none => (b, false)
    | some map => ({ b with subscribeWrapperMap := map }, true)

/-- The node after the subscriptions of its modules. -/
def subscribeAll (expandTopicName : Bytes → Option Bytes) (ws : List (SubscribeWrapper V)) : Ros2Subscriber V :=
  ws.foldl (fun b w => (b.subscribe expandTopicName w).1) initialized

/-- The pairs of `RosMsgWrapper::context`; what is left of an odd number is not read. -/
def contextPairs : List Bytes → List (Σ _ : Bytes, Bytes)
  | key :: val :: context => ⟨key, val⟩ :: contextPairs context
  | _ => []

/-- The callback of a ros2 subscription. -/
def handleWrapper (b : Ros2Subscriber V) (tool : SubscribeTool V) (serializationType : Bytes)
    (context : List Bytes) (data : Bytes) : List (SubscriberCall V) :=
  let ctx := (Context.setMetaValue ∅ Channel.kSerializationType serializationType).setMetaValues
    (contextPairs context)
  let ctx := ctx.setMetaValue Channel.kBackend kRos2
  if b.state ≠ .start then []
  else
    match tool.doSubscribeCallbackData ⟨.subscriber, false, ctx⟩ serializationType data with
    | none => []
    | some (calls, _) => calls

/-- The tools of the subscriptions that ros2 hands a message to: their topics have the same full name. -/
def receivingTools (expandTopicName : Bytes → Option Bytes) (b : Ros2Subscriber V) (name : Bytes) :
    List (SubscribeTool V) :=
  (b.subscribeWrapperMap.entries.filter fun e =>
    (expandTopicName e.1).isSome && expandTopicName e.1 == expandTopicName name).map (·.2)

/-- The calls that a wrapped message leads to. -/
def receive (expandTopicName : Bytes → Option Bytes) (b : Ros2Subscriber V)
    (name serializationType : Bytes) (context : List Bytes) (data : Bytes) : List (SubscriberCall V) :=
  (b.receivingTools expandTopicName name).flatMap fun tool => b.handleWrapper tool serializationType context data

/-! ### Who receives a message -/

variable {expandTopicName : Bytes → Option Bytes} {b : Ros2Subscriber V} {w w' : SubscribeWrapper V}
  {ws : List (SubscribeWrapper V)} {name serializationType data : Bytes} {context : List Bytes}

/-- The subscriber is in the tool of a name. -/
def Holds (b : Ros2Subscriber V) (name : Bytes) (w : SubscribeWrapper V) : Prop :=
  ∃ tool, b.subscribeWrapperMap.lookup name = some tool ∧ w ∈ tool.subWrapperVec

theorem holds_insert (b : Ros2Subscriber V) (key : Bytes) (tool : SubscribeTool V) (name : Bytes)
    (w : SubscribeWrapper V) : Holds { b with subscribeWrapperMap := b.subscribeWrapperMap.insert key tool } name w ↔
      if name = key then w ∈ tool.subWrapperVec else b.Holds name w := by
  split
  next heq =>
    subst heq
    simp [Holds, AList.lookup_insert]
  next hne => rw [Holds, AList.lookup_insert_ne hne, ← Holds]

/-- The subscriber is one of a topic with this name. -/
structure IsOf (expandTopicName : Bytes → Option Bytes) (name : Bytes) (w : SubscribeWrapper V) : Prop where
  msgType : Ros2ChannelBackend.checkRosMsg w.info.msgType = false
  realName : realRos2TopicName w.info.topicName w.info.msgType = name
  expand : (expandTopicName name).isSome

/-- The tool of a name has the subscribers of the topics with this name, and there is one only for such a name. -/
structure Inv (expandTopicName : Bytes → Option Bytes) (ws : List (SubscribeWrapper V)) (b : Ros2Subscriber V) :
    Prop where
  state : b.state = .init
  holds : ∀ name w, b.Holds name w ↔ w ∈ ws ∧ IsOf expandTopicName name w
  expand : ∀ name ∈ b.subscribeWrapperMap, (expandTopicName name).isSome

theorem inv_initialized (expandTopicName : Bytes → Option Bytes) :
    Inv expandTopicName [] (initialized : Ros2Subscriber V) where
  state := rfl
  holds := by
    intro name w
    constructor
    · rintro ⟨tool, hlookup, -⟩
      cases hlookup
    · rintro ⟨hmem, -⟩
      cases hmem
  expand := fun name hname => absurd hname (AList.notMem_empty _)

/-- The tool of the key has one subscriber more. -/
theorem addSubscribeWrapper_eq_some {K : Type} [DecidableEq K] {key : K}
    {map map' : AList (fun _ : K => SubscribeTool V)}
    (h : addSubscribeWrapper expandTopicName key name w map = some map') :
    (key ∈ map ∨ (expandTopicName name).isSome) ∧ ∃ tool, map' = map.insert key tool ∧
      ∀ w', w' ∈ tool.subWrapperVec ↔ (∃ old, map.lookup key = some old ∧ w' ∈ old.subWrapperVec) ∨ w' = w := by
  unfold addSubscribeWrapper at h
  split at h
  next old hlookup =>
    cases h
    refine ⟨.inl (AList.lookup_isSome.1 (by rw [hlookup]; rfl)), _, rfl, fun w' => ?_⟩
    simp [SubscribeTool.addSubscribeWrapper, hlookup]
  next hlookup =>
    obtain ⟨full, hfull, rfl⟩ := Option.map_eq_some_iff.1 h
    refine ⟨.inr (by rw [hfull]; rfl), _, rfl, fun w' => ?_⟩
    simp [SubscribeTool.addSubscribeWrapper, SubscribeTool.empty, hlookup]

theorem addSubscribeWrapper_eq_none {K : Type} [DecidableEq K] {key : K}
    {map : AList (fun _ : K => SubscribeTool V)}
    (h : addSubscribeWrapper expandTopicName key name w map = none) : expandTopicName name = none := by
  unfold addSubscribeWrapper at h
  split at h
  · cases h
  · exact Option.map_eq_none_iff.1 h

/-- The maps are left alone by a subscriber of a ros2 type, and by one of a topic that has no ros2 name. -/
theorem Inv.skip (h : Inv expandTopicName ws b) (hnot : ∀ name, ¬IsOf expandTopicName name w)
    {b' : Ros2Subscriber V} (hstate : b'.state = b.state)
    (hmap : b'.subscribeWrapperMap = b.subscribeWrapperMap) : Inv expandTopicName (ws ++ [w]) b' where
  state := hstate.trans h.state
  holds := by
    intro name w'
    rw [Holds, hmap, ← Holds, h.holds, List.mem_append, List.mem_singleton]
    refine and_congr_left fun hof => (or_iff_left ?_).symm
    rintro rfl
    exact hnot name hof
  expand := by
    rw [hmap]
    exact h.expand

/-- A subscriber of another type is put into the tool of its ros2 name. -/
theorem Inv.addSubscribeWrapper (h : Inv expandTopicName ws b)
    (hmsgType : Ros2ChannelBackend.checkRosMsg w.info.msgType = false) {map : AList (fun _ : Bytes => SubscribeTool V)}
    (hname : realRos2TopicName w.info.topicName w.info.msgType = name)
    (hsome : addSubscribeWrapper expandTopicName name name w b.subscribeWrapperMap = some map) :
    Inv expandTopicName (ws ++ [w]) { b with subscribeWrapperMap := map } := by
  obtain ⟨hkey, tool, rfl, htool⟩ := addSubscribeWrapper_eq_some hsome
  have hexpand : (expandTopicName name).isSome := hkey.elim (h.expand _) id
  refine ⟨h.state, fun name' w' => ?_, fun name' hname' => ?_⟩
  · rw [holds_insert, List.mem_append, List.mem_singleton]
    split
    next heq =>
      subst heq
      rw [htool, ← Holds, h.holds, or_and_right]
      refine or_congr_right ⟨?_, fun hlast => hlast.1⟩
      rintro rfl
      exact ⟨rfl, hmsgType, hname, hexpand⟩
    next hne =>
      rw [h.holds]
      refine and_congr_left fun hof => (or_iff_left ?_).symm
      rintro rfl
      exact hne (hof.realName.symm.trans hname)
  · rcases (AList.mem_insert _).1 hname' with rfl | hold
    · exact hexpand
    · exact h.expand name' hold

theorem Inv.subscribe (h : Inv expandTopicName ws b) (w : SubscribeWrapper V) :
    Inv expandTopicName (ws ++ [w]) (b.subscribe expandTopicName w).1 := by
  unfold Ros2Subscriber.subscribe
  rw [if_neg (not_not.2 h.state)]
  split
  next hros =>
    have hnot : ∀ name, ¬IsOf expandTopicName name w := by
      intro name hof
      rw [hof.msgType] at hros
      cases hros
    split
    · exact h.skip hnot rfl rfl
    · exact h.skip hnot rfl rfl
  next hros =>
    dsimp only
    split
    next hnone =>
      refine h.skip (fun name hof => ?_) rfl rfl
      obtain ⟨hmsgType, rfl, hexpand⟩ := hof
      rw [addSubscribeWrapper_eq_none hnone] at hexpand
      cases hexpand
    next map hsome => exact h.addSubscribeWrapper (by simpa using hros) rfl hsome

theorem inv_subscribeAll (expandTopicName : Bytes → Option Bytes) (ws : List (SubscribeWrapper V)) :
    Inv expandTopicName ws (subscribeAll expandTopicName ws) := by
  induction ws using List.reverseRecOn with
  | nil => exact inv_initialized expandTopicName
  | append_singleton ws w ih =>
    rw [subscribeAll, List.foldl_concat]
    exact ih.subscribe w

/-- The subscriber is one of a topic that is the same to ros2. -/
structure SharesTopic (expandTopicName : Bytes → Option Bytes) (name : Bytes) (w : SubscribeWrapper V) : Prop where
  msgType : Ros2ChannelBackend.checkRosMsg w.info.msgType = false
  expand : (expandTopicName (realRos2TopicName w.info.topicName w.info.msgType)).isSome
  same : expandTopicName (realRos2TopicName w.info.topicName w.info.msgType) = expandTopicName name

theorem mem_receivingTools (expandTopicName : Bytes → Option Bytes) (ws : List (SubscribeWrapper V))
    (state : Channel.State) (name : Bytes) (w : SubscribeWrapper V) :
    (∃ tool ∈ receivingTools expandTopicName { subscribeAll expandTopicName ws with state := state } name,
      w ∈ tool.subWrapperVec) ↔ w ∈ ws ∧ SharesTopic expandTopicName name w := by
  have hinv := inv_subscribeAll expandTopicName ws
  constructor
  · rintro ⟨tool, htool, hmem⟩
    obtain ⟨⟨key, tool⟩, hentry, rfl⟩ := List.mem_map.1 htool
    obtain ⟨hentry, hsame⟩ := List.mem_filter.1 hentry
    simp only [Bool.and_eq_true, beq_iff_eq] at hsame
    obtain ⟨hw, hof⟩ := (hinv.holds key w).1 ⟨tool, AList.mem_lookup_iff.2 hentry, hmem⟩
    obtain ⟨hmsgType, rfl, hexpand⟩ := hof
    exact ⟨hw, hmsgType, hexpand, hsame.2⟩
  · rintro ⟨hw, hshares⟩
    obtain ⟨tool, hlookup, hmem⟩ := (hinv.holds _ w).2 ⟨hw, hshares.msgType, rfl, hshares.expand⟩
    refine ⟨tool, List.mem_map.2 ⟨⟨_, tool⟩, List.mem_filter.2 ⟨AList.mem_lookup_iff.1 hlookup, ?_⟩, rfl⟩, hmem⟩
    rw [Bool.and_eq_true, beq_iff_eq]
    exact ⟨hshares.expand, hshares.same⟩

theorem subscriber_mem_of_withoutCache {ctx : ChannelContext} {bufferArray : List Bytes} {call : SubscriberCall V}
    (h : call ∈ (SubscribeTool.doSubscribeCallbackWithoutCache ctx serializationType bufferArray ws).1) :
    call.subscriber ∈ ws := by
  induction ws with
  | nil => cases h
  | cons w ws ih =>
    unfold SubscribeTool.doSubscribeCallbackWithoutCache at h
    split at h
    · cases h
    · rcases List.mem_cons.1 h with rfl | hrest
      · exact List.mem_cons_self
      · exact List.mem_cons_of_mem _ (ih hrest)

/-- A tool calls its own subscribers. -/
theorem subscriber_mem_of_handleWrapper {tool : SubscribeTool V} {call : SubscriberCall V}
    (h : call ∈ b.handleWrapper tool serializationType context data) : call.subscriber ∈ tool.subWrapperVec := by
  unfold handleWrapper at h
  dsimp only at h
  split at h
  · cases h
  · split at h
    · cases h
    next calls ending hcalls =>
      unfold SubscribeTool.doSubscribeCallbackData at hcalls
      split at hcalls
      · obtain ⟨buffer, -, hcalls⟩ := Option.bind_eq_some_iff.1 hcalls
        cases hcalls
        obtain ⟨w, hw, rfl⟩ := List.mem_map.1 h
        exact hw
      · have hfst : _ = calls := congrArg Prod.fst (Option.some.inj hcalls)
        rw [← hfst] at h
        exact subscriber_mem_of_withoutCache h

end Ros2Subscriber

/-- The name under which a wrapped message is published. -/
theorem Ros2ChannelBackend.publish_eq_wrapper {b : Ros2ChannelBackend} {m : MsgWrapper V}
    {name serializationType data : Bytes} {context : List Bytes}
    (h : b.publish m = .ok (.wrapper name serializationType context data)) :
    checkRosMsg m.info.msgType = false ∧ name = realRos2TopicName m.info.topicName m.info.msgType := by
  unfold publish at h
  split at h
  · cases h
  · split at h
    next =>
      split at h
      · cases h
      · obtain ⟨bufferArray, -, h⟩ := Rpc.bind_eq_ok h
        obtain ⟨buffer, -, h⟩ := Rpc.bind_eq_ok h
        cases h
      · unfold publishMessage at h
        split at h <;> cases h
    next hros =>
      dsimp only at h
      split at h
      · obtain ⟨bufferArray, -, h⟩ := Rpc.bind_eq_ok h
        obtain ⟨data', -, h⟩ := Rpc.bind_eq_ok h
        cases h
        exact ⟨by simpa using hros, rfl⟩
      · cases h

/-- **Topics and their names.**  Decoding takes back encoding; two topics with their types share a ros2 topic exactly
if a slash of the one type is where the other type begins; and a message of a type that is not a ros2 type reaches
exactly the subscribers of such types whose topic is the same to ros2. -/
theorem topic_names (V : Type) : (∀ up str, ros2NameDecode (ros2NameEncodeOf up str) = str) ∧
    (∀ topicName msgType topicName' msgType',
      realRos2TopicName topicName msgType = realRos2TopicName topicName' msgType' ↔
        (topicName = topicName' ∧ msgType = msgType') ∨ Shifted topicName msgType topicName' msgType' ∨
          Shifted topicName' msgType' topicName msgType) ∧
    ∀ (expandTopicName : Bytes → Option Bytes) (ws : List (SubscribeWrapper V)) (state : Channel.State)
      (b : Ros2ChannelBackend) (m : MsgWrapper V) name serializationType context data,
      b.publish m = .ok (.wrapper name serializationType context data) →
      name = realRos2TopicName m.info.topicName m.info.msgType ∧
      (∀ w, (∃ tool ∈ Ros2Subscriber.receivingTools expandTopicName
          { Ros2Subscriber.subscribeAll expandTopicName ws with state := state } name, w ∈ tool.subWrapperVec) ↔
        w ∈ ws ∧ Ros2Subscriber.SharesTopic expandTopicName name w) ∧
      ∀ call ∈ Ros2Subscriber.receive expandTopicName
          { Ros2Subscriber.subscribeAll expandTopicName ws with state := state } name serializationType context data,
        call.subscriber ∈ ws ∧ Ros2Subscriber.SharesTopic expandTopicName name call.subscriber := by
  refine ⟨ros2NameDecode_encodeOf, fun _ _ _ _ => realRos2TopicName_eq_iff, ?_⟩
  intro expandTopicName ws state b m name serializationType context data hpublish
  refine ⟨(Ros2ChannelBackend.publish_eq_wrapper hpublish).2,
    Ros2Subscriber.mem_receivingTools expandTopicName ws state name, fun call hcall => ?_⟩
  obtain ⟨tool, htool, hcall⟩ := List.mem_flatMap.1 hcall
  exact (Ros2Subscriber.mem_receivingTools expandTopicName ws state name call.subscriber).1
    ⟨tool, htool, Ros2Subscriber.subscriber_mem_of_handleWrapper hcall⟩

/-- The topic `/t/a` with the type `pb:x` has the name of `/t` with `a/pb:x`. -/
theorem realRos2TopicName_not_injective : ¬∀ topicName msgType topicName' msgType' : Bytes,
    Ros2ChannelBackend.checkRosMsg msgType = false → Ros2ChannelBackend.checkRosMsg msgType' = false →
    realRos2TopicName topicName msgType = realRos2TopicName topicName' msgType' →
    topicName = topicName' ∧ msgType = msgType' := by
  intro h
  have hsame := h (ascii "/t") (ascii "a/pb:x") (ascii "/t/a") (ascii "pb:x") (by decide) (by decide) (by decide)
  exact absurd hsame (by decide)

end AimRT.Ros2

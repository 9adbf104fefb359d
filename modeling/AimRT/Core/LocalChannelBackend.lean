import AimRT.Core.ChannelRegistry

/-!
# The local channel backend

`LocalChannelBackend` hands a message to the subscribers in the same process.  Its own index says which
packages have subscribers of a type and topic, and the registry which modules of a package.  A package
gets a context of its own and, if it is that of the publisher, a copy of the message; another package
gets a serialization, which every subscriber reads in its callback.

With a subscribe executor the calls of callbacks are tasks.  A task has all that it needs by value or
shared pointer, so that it is the same whenever it runs.
-/

namespace AimRT.Core

open AimRT.Lib AimRT.Util

variable {V : Type}

/-- The modules of a package, the packages of a topic, the topics of a type. -/
abbrev SubscribeIndexMap :=
  AList (fun _ : Bytes => AList (fun _ : Bytes => AList (fun _ : Bytes => List Bytes)))

structure LocalChannelBackend where
  state : Channel.State
  subscribeIndexMap : SubscribeIndexMap

namespace LocalChannelBackend

def name : Bytes := ascii "local"

/-- The packages with subscribers of a type and topic. -/
def packages (index : SubscribeIndexMap) (msgType topicName : Bytes) :
    AList (fun _ : Bytes => List Bytes) :=
  entryAt (entryAt index msgType) topicName

/-- `Subscribe`. -/
def subscribe (b : LocalChannelBackend) (info : TopicInfo V) : Bool × LocalChannelBackend :=
  if b.state ≠ .init then (false, b)
  else
    let topics := entryAt b.subscribeIndexMap info.msgType
    let pkgs := entryAt topics info.topicName
    let pkgs := pkgs.insert info.pkgPath ((entryAt pkgs info.pkgPath).insert info.moduleName)
    let topics := topics.insert info.topicName pkgs
    (true, { b with subscribeIndexMap := b.subscribeIndexMap.insert info.msgType topics })

/-- The loop that sets every meta pair of the publisher. -/
def copyMetaValues (ctx : Context) (metaKeys : List Bytes) (copy : Context) : Context :=
  metaKeys.foldl (fun copy key => copy.setMetaValue key (ctx.getMetaValue key)) copy

/-- The context of the subscribers in one package. -/
def subscriberContext (m : MsgWrapper V) : ChannelContext where
  type := .subscriber
  used := false
  metaData := (copyMetaValues m.ctx.metaData m.ctx.metaData.keys ∅).setMetaValue Channel.kBackend name

/-- The calls for the modules of a package, all with one message and context. -/
def callModules (modules : ModuleSubscribeWrapperMap V) (msgPtr : Option V) (ctx : ChannelContext)
    (cache : SerializationCache) : List (SubscriberCall V) :=
  modules.entries.map fun e => ⟨e.2, ⟨e.2.info, msgPtr, ctx, cache⟩⟩

/-- The calls for one package, and the wrapper of the publisher behind them; `tpl` is the first of the
modules. -/
def publishPackage (m : MsgWrapper V) (serializationType pkgPath : Bytes) (tpl : SubscribeWrapper V)
    (modules : ModuleSubscribeWrapperMap V) :
    Except MsgError (List (SubscriberCall V) × MsgWrapper V) :=
  let ctx := subscriberContext m
  if pkgPath = m.info.pkgPath then do
    let (msg, m) ← m.checkMsg
    let copy := tpl.info.msgTypeSupport.copy msg
    return (callModules modules (some copy) ctx m.serializationCache, m)
  else do
    let ctx := { ctx with
      metaData := ctx.metaData.setMetaValue Channel.kSerializationType serializationType }
    let (_, m) ← m.serializeMsgWithCache serializationType
    return (callModules modules none ctx m.serializationCache, m)

/-- The loop over the packages.  An exception ends it, a package that the registry does not know is
skipped. -/
def publishPackages (r : ChannelRegistry V) (serializationType : Bytes) :
    List Bytes → MsgWrapper V → List (SubscriberCall V)
  | [], _ => []
  | pkgPath :: pkgPaths, m =>
    match r.getModuleSubscribeWrapperMapPtr m.info.msgType m.info.topicName pkgPath with
    | none => publishPackages r serializationType pkgPaths m
    | some modules =>
      match modules.entries.head? with
      | none => publishPackages r serializationType pkgPaths m
      | some e =>
        match publishPackage m serializationType pkgPath e.2 modules with
        | .error _ => []
        | .ok (calls, m) => calls ++ publishPackages r serializationType pkgPaths m

/-- `Publish`: the calls of callbacks, in the order of the loop. -/
def publish (b : LocalChannelBackend) (r : ChannelRegistry V) (m : MsgWrapper V) :
    List (SubscriberCall V) :=
  if b.state ≠ .start then []
  else
    match b.subscribeIndexMap.lookup m.info.msgType with
    | none => []
    | some topics =>
      match topics.lookup m.info.topicName with
      | none => []
      | some pkgs => publishPackages r (serializationTypeOf m) pkgs.keys m

/-- Without an executor the calls are made at once, with one in any order. -/
def Executed (executor : Bool) (calls log : List (SubscriberCall V)) : Prop :=
  if executor then log.Perm calls else log = calls

/-! ### Subscribing -/

/-- The subscription of `w`: in the registry and, if it is accepted there and its topic is one of the
local backend, in the backend. -/
def subscribeStep (routed : Bytes → Bool) (s : ChannelRegistry V × LocalChannelBackend)
    (w : SubscribeWrapper V) : ChannelRegistry V × LocalChannelBackend :=
  let r := s.1.subscribe w
  if r.1 && routed w.info.topicName then (r.2, (s.2.subscribe w.info).2) else (r.2, s.2)

/-- The registry and the backend after the subscriptions `ws`. -/
def subscribeAll (routed : Bytes → Bool) (ws : List (SubscribeWrapper V)) :
    ChannelRegistry V × LocalChannelBackend :=
  ws.foldl (subscribeStep routed) (.empty, ⟨.init, ∅⟩)

theorem mem_packages_subscribe {b : LocalChannelBackend} (hb : b.state = .init) (info : TopicInfo V)
    (msgType topicName pkgPath : Bytes) :
    pkgPath ∈ packages (b.subscribe info).2.subscribeIndexMap msgType topicName ↔
      pkgPath ∈ packages b.subscribeIndexMap msgType topicName ∨
        info.key.mtp = ⟨msgType, topicName, pkgPath⟩ := by
  have hmtp : info.key.mtp = ⟨msgType, topicName, pkgPath⟩ ↔
      info.msgType = msgType ∧ info.topicName = topicName ∧ info.pkgPath = pkgPath := by
    simp [TopicInfo.key, TopicKey.mtp]
  rw [hmtp]
  simp only [subscribe, hb, ne_eq, not_true_eq_false, if_false, packages]
  by_cases htype : info.msgType = msgType
  · subst htype
    rw [entryAt_insert_self]
    by_cases htopic : info.topicName = topicName
    · subst htopic
      rw [entryAt_insert_self, AList.mem_insert]
      simp only [true_and]
      tauto
    · rw [entryAt_insert_ne (Ne.symm htopic)]
      simp [htopic]
  · rw [entryAt_insert_ne (Ne.symm htype)]
    simp [htype]

/-- The registry and the backend are in step: the backend has the packages of the subscribers of its
topics. -/
structure InStep (routed : Bytes → Bool) (ws : List (SubscribeWrapper V))
    (s : ChannelRegistry V × LocalChannelBackend) : Prop where
  registry : s.1.Holds ws
  state : s.2.state = .init
  mem_packages : ∀ msgType topicName pkgPath,
    pkgPath ∈ packages s.2.subscribeIndexMap msgType topicName ↔
      routed topicName = true ∧ ∃ w ∈ ws, w.info.key.mtp = ⟨msgType, topicName, pkgPath⟩

theorem inStep_init (routed : Bytes → Bool) :
    InStep routed ([] : List (SubscribeWrapper V)) (.empty, ⟨.init, ∅⟩) :=
  ⟨ChannelRegistry.holds_empty, rfl, by simp [packages]⟩

variable {routed : Bytes → Bool} {ws : List (SubscribeWrapper V)}

theorem InStep.step {s : ChannelRegistry V × LocalChannelBackend} (h : InStep routed ws s)
    (w : SubscribeWrapper V) : InStep routed (ws ++ [w]) (subscribeStep routed s w) := by
  have haccepted := h.registry.subscribe_fst w
  have hregistry := h.registry.subscribe w
  rw [subscribeStep]
  split
  · next hrouted =>
    rw [Bool.and_eq_true] at hrouted
    refine ⟨hregistry, ?_, fun msgType topicName pkgPath => ?_⟩
    · simp [LocalChannelBackend.subscribe, h.state]
    · rw [mem_packages_subscribe h.state, h.mem_packages]
      constructor
      · rintro (⟨hroute, w', hw', hkey⟩ | hkey)
        · exact ⟨hroute, w', List.mem_append_left _ hw', hkey⟩
        · have htopic : w.info.topicName = topicName := congrArg MTPKey.topicName hkey
          exact ⟨htopic ▸ hrouted.2, w, by simp, hkey⟩
      · rintro ⟨hroute, w', hw', hkey⟩
        rcases List.mem_append.1 hw' with hw' | hw'
        · exact .inl ⟨hroute, w', hw', hkey⟩
        · exact .inr (List.mem_singleton.1 hw' ▸ hkey)
  · next hnot =>
    refine ⟨hregistry, h.state, fun msgType topicName pkgPath => ?_⟩
    rw [h.mem_packages]
    refine and_congr_right fun hroute => ⟨?_, ?_⟩
    · rintro ⟨w', hw', hkey⟩
      exact ⟨w', List.mem_append_left _ hw', hkey⟩
    · rintro ⟨w', hw', hkey⟩
      rcases List.mem_append.1 hw' with hw' | hw'
      · exact ⟨w', hw', hkey⟩
      · -- a refused subscription: an earlier one has its key
        obtain rfl := List.mem_singleton.1 hw'
        have htopic : w'.info.topicName = topicName := congrArg MTPKey.topicName hkey
        rw [haccepted, htopic, hroute, Bool.and_true, Bool.not_eq_true,
          Option.isNone_eq_false_iff] at hnot
        obtain ⟨w'', hw''⟩ := Option.isSome_iff_exists.1 hnot
        refine ⟨w'', List.mem_of_find?_eq_some hw'', ?_⟩
        rw [ChannelRegistry.key_of_subscriberOf hw'', hkey]

theorem inStep_subscribeAll (routed : Bytes → Bool) (ws : List (SubscribeWrapper V)) :
    InStep routed ws (subscribeAll routed ws) := by
  induction ws using List.reverseRecOn with
  | nil => exact inStep_init routed
  | append_singleton ws w ih =>
    rw [subscribeAll, List.foldl_concat]
    exact ih.step w

/-! ### One package -/

/-- The context that the subscribers of a package get. -/
def packageContext (m : MsgWrapper V) (pkgPath : Bytes) : ChannelContext :=
  if pkgPath = m.info.pkgPath then subscriberContext m
  else { subscriberContext m with
    metaData := (subscriberContext m).metaData.setMetaValue Channel.kSerializationType
      (serializationTypeOf m) }

/-- The conversions that hand the message `msg` to the subscriber `w` succeed, and keep the message:
a copy of it for the package of the publisher, a serialization for any other. -/
structure Converts (m : MsgWrapper V) (msg : V) (w : SubscribeWrapper V) : Prop where
  copy : w.info.pkgPath = m.info.pkgPath → w.info.msgTypeSupport.copy msg = msg
  serialize : w.info.pkgPath ≠ m.info.pkgPath → ∃ bufferArray m' read,
    m.serializeMsgWithCache (serializationTypeOf m) = .ok (bufferArray, m') ∧
    MsgWrapper.checkMsg ⟨w.info, none, packageContext m w.info.pkgPath, m'.serializationCache⟩ =
      .ok read ∧
    ∀ serializationType bufferArray msg',
      m'.serializationCache.lookup serializationType = some bufferArray →
      w.info.msgTypeSupport.deserialize serializationType bufferArray = some msg' → msg' = msg

/-- The wrapper of the publisher between two packages. -/
structure Stage (m : MsgWrapper V) (msg : V) (m' : MsgWrapper V) : Prop where
  info : m'.info = m.info
  ctx : m'.ctx = m.ctx
  check : ∃ m'', m'.checkMsg = .ok (msg, m'')
  cache : m'.serializationCache = m.serializationCache ∨
    m.serializationCache.lookup (serializationTypeOf m) = none ∧ ∃ bufferArray,
      m.info.msgTypeSupport.serialize (serializationTypeOf m) msg = some bufferArray ∧
      m'.serializationCache = m.serializationCache.insert (serializationTypeOf m) bufferArray

variable {m m₁ m₂ : MsgWrapper V} {msg : V}

theorem Stage.checkMsg (h : Stage m msg m₁) : ∃ m', m₁.checkMsg = .ok (msg, m') ∧ Stage m msg m' := by
  obtain ⟨m', hcheck⟩ := h.check
  obtain rfl := MsgWrapper.checkMsg_eq_ok hcheck
  exact ⟨_, hcheck, h.info, h.ctx, ⟨_, MsgWrapper.checkMsg_of_msgPtr rfl⟩, h.cache⟩

/-- Whatever was done for other packages before, a serialization is the one made first. -/
theorem Stage.serialize {bufferArray : List Bytes} (hcheck : ∃ m', m.checkMsg = .ok (msg, m'))
    (h : Stage m msg m₁)
    (hserialize : m.serializeMsgWithCache (serializationTypeOf m) = .ok (bufferArray, m₂)) :
    ∃ m', m₁.serializeMsgWithCache (serializationTypeOf m) = .ok (bufferArray, m') ∧
      m'.serializationCache = m₂.serializationCache ∧ Stage m msg m' := by
  obtain ⟨m', hcheck⟩ := hcheck
  rcases MsgWrapper.serializeMsgWithCache_eq_ok hserialize with
    ⟨hcached, rfl⟩ | ⟨hcached, msg', m'', hcheck', hfresh, rfl⟩
  · rcases h.cache with hsame | ⟨hnone, -⟩
    · refine ⟨m₁, MsgWrapper.serializeMsgWithCache_of_cached ?_, hsame, h⟩
      rw [hsame, hcached]
    · cases hcached.symm.trans hnone
  · obtain ⟨rfl, -⟩ := Prod.mk.inj (Except.ok.inj (hcheck'.symm.trans hcheck))
    rcases h.cache with hsame | ⟨-, bufferArray', hfresh', hinsert⟩
    · obtain ⟨m₃, hcheck₁⟩ := h.check
      refine ⟨_, MsgWrapper.serializeMsgWithCache_of_not_cached (hsame ▸ hcached) hcheck₁ ?_, ?_,
        h.info, h.ctx, ⟨_, MsgWrapper.checkMsg_of_msgPtr rfl⟩, ?_⟩
      · rw [h.info, hfresh]
      · rw [hsame]
      · exact .inr ⟨hcached, bufferArray, hfresh, by rw [hsame]⟩
    · obtain rfl := Option.some.inj (hfresh'.symm.trans hfresh)
      refine ⟨m₁, MsgWrapper.serializeMsgWithCache_of_cached ?_, hinsert, h⟩
      rw [hinsert, AList.lookup_insert]

/-- The calls reach the subscribers `ws`, each with the message. -/
def Reaches (m : MsgWrapper V) (msg : V) (ws : List (SubscribeWrapper V))
    (calls : List (SubscriberCall V)) : Prop :=
  calls.map (·.subscriber) = ws ∧ ∀ call ∈ calls, subscriberCallback call.msg =
    some (packageContext m call.subscriber.info.pkgPath, msg)

theorem reaches_callModules {modules : ModuleSubscribeWrapperMap V} {msgPtr : Option V}
    {ctx : ChannelContext} {cache : SerializationCache}
    (h : ∀ w ∈ modules.entries.map (·.2), subscriberCallback ⟨w.info, msgPtr, ctx, cache⟩ =
      some (packageContext m w.info.pkgPath, msg)) :
    Reaches m msg (modules.entries.map (·.2)) (callModules modules msgPtr ctx cache) := by
  refine ⟨by simp [callModules], fun call hcall => ?_⟩
  obtain ⟨e, he, rfl⟩ := List.mem_map.1 hcall
  exact h e.2 (List.mem_map_of_mem he)

/-- A subscriber of another package reads the message. -/
theorem Converts.subscriberCallback_eq {w : SubscribeWrapper V} {bufferArray : List Bytes}
    (h : Converts m msg w) (hpkg : w.info.pkgPath ≠ m.info.pkgPath)
    (hserialize : m.serializeMsgWithCache (serializationTypeOf m) = .ok (bufferArray, m₂)) :
    subscriberCallback
        ⟨w.info, none, packageContext m w.info.pkgPath, m₂.serializationCache⟩ =
      some (packageContext m w.info.pkgPath, msg) := by
  obtain ⟨bufferArray', m', ⟨msg', m''⟩, hserialize', hcheck, hkeeps⟩ := h.serialize hpkg
  obtain ⟨-, rfl⟩ := Prod.mk.inj (Except.ok.inj (hserialize'.symm.trans hserialize))
  obtain ⟨serializationType, bufferArray'', hlookup, hdeserialize⟩ :=
    MsgWrapper.exists_entry_of_checkMsg rfl hcheck
  have hmsg := hkeeps _ _ _ hlookup hdeserialize
  have hm'' := MsgWrapper.checkMsg_eq_ok hcheck
  rw [subscriberCallback, hcheck, hm'', hmsg]

/-- What is done for one package. -/
theorem publishPackage_spec {pkgPath : Bytes} {tpl : SubscribeWrapper V}
    {modules : ModuleSubscribeWrapperMap V} (hcheck : ∃ m', m.checkMsg = .ok (msg, m'))
    (h : Stage m msg m₁) (htpl : tpl ∈ modules.entries.map (·.2))
    (hpkg : ∀ w ∈ modules.entries.map (·.2), w.info.pkgPath = pkgPath)
    (hconverts : ∀ w ∈ modules.entries.map (·.2), Converts m msg w) :
    ∃ calls m', publishPackage m₁ (serializationTypeOf m) pkgPath tpl modules = .ok (calls, m') ∧
      Reaches m msg (modules.entries.map (·.2)) calls ∧ Stage m msg m' := by
  have hctx : subscriberContext m₁ = subscriberContext m := by rw [subscriberContext, h.ctx]; rfl
  rw [publishPackage, h.info, hctx]
  by_cases hsame : pkgPath = m.info.pkgPath
  · obtain ⟨m', hcheck', hstage⟩ := h.checkMsg
    simp only [if_pos hsame, hcheck']
    refine ⟨_, m', rfl, reaches_callModules fun w hw => ?_, hstage⟩
    rw [packageContext, if_pos ((hpkg w hw).trans hsame),
      (hconverts tpl htpl).copy ((hpkg tpl htpl).trans hsame)]
    rfl
  · have hother : ∀ w ∈ modules.entries.map (·.2), w.info.pkgPath ≠ m.info.pkgPath :=
      fun w hw => hpkg w hw ▸ hsame
    obtain ⟨bufferArray, m₂, -, hserialize, -⟩ := (hconverts tpl htpl).serialize (hother tpl htpl)
    obtain ⟨m', hserialize', hcache, hstage⟩ := h.serialize hcheck hserialize
    simp only [if_neg hsame, hserialize']
    refine ⟨_, m', rfl, reaches_callModules fun w hw => ?_, hstage⟩
    have hread := (hconverts w hw).subscriberCallback_eq (hother w hw) hserialize
    rw [packageContext, if_neg (hother w hw)] at hread ⊢
    rw [hcache]
    exact hread

/-! ### All packages -/

/-- The subscribers that a message is for, package by package. -/
def targets (r : ChannelRegistry V) (m : MsgWrapper V) (pkgPaths : List Bytes) :
    List (SubscribeWrapper V) :=
  pkgPaths.flatMap fun pkgPath => (entryAt r.subMsgTopicPkgIndexMap
    ⟨m.info.msgType, m.info.topicName, pkgPath⟩).entries.map (·.2)

theorem Reaches.append {ws₁ ws₂ : List (SubscribeWrapper V)} {calls₁ calls₂ : List (SubscriberCall V)}
    (h₁ : Reaches m msg ws₁ calls₁) (h₂ : Reaches m msg ws₂ calls₂) :
    Reaches m msg (ws₁ ++ ws₂) (calls₁ ++ calls₂) := by
  refine ⟨by rw [List.map_append, h₁.1, h₂.1], fun call hcall => ?_⟩
  rcases List.mem_append.1 hcall with hcall | hcall
  · exact h₁.2 call hcall
  · exact h₂.2 call hcall

theorem publishPackages_spec {r : ChannelRegistry V} (hcheck : ∃ m', m.checkMsg = .ok (msg, m'))
    (pkgPaths : List Bytes)
    (hpkg : ∀ pkgPath ∈ pkgPaths, ∀ w ∈ targets r m [pkgPath], w.info.pkgPath = pkgPath)
    (hconverts : ∀ w ∈ targets r m pkgPaths, Converts m msg w) :
    ∀ m₁, Stage m msg m₁ → Reaches m msg (targets r m pkgPaths)
      (publishPackages r (serializationTypeOf m) pkgPaths m₁) := by
  induction pkgPaths with
  | nil =>
    intro m₁ _
    exact ⟨rfl, nofun⟩
  | cons pkgPath pkgPaths ih =>
    intro m₁ hstage
    have hcons : targets r m (pkgPath :: pkgPaths) =
        targets r m [pkgPath] ++ targets r m pkgPaths := by simp [targets]
    have hrest := ih (fun p hp => hpkg p (List.mem_cons_of_mem _ hp)) fun w hw =>
      hconverts w (hcons ▸ List.mem_append_right _ hw)
    have hone : targets r m [pkgPath] = (entryAt r.subMsgTopicPkgIndexMap
        ⟨m.info.msgType, m.info.topicName, pkgPath⟩).entries.map (·.2) := by simp [targets]
    rw [hcons, publishPackages, ChannelRegistry.getModuleSubscribeWrapperMapPtr, hstage.info]
    cases hlookup : r.subMsgTopicPkgIndexMap.lookup
        ⟨m.info.msgType, m.info.topicName, pkgPath⟩ with
    | none =>
      have hnil : targets r m [pkgPath] = [] := by
        rw [hone, entryAt, hlookup]
        rfl
      rw [hnil, List.nil_append]
      exact hrest m₁ hstage
    | some modules =>
      rw [entryAt, hlookup, Option.getD_some] at hone
      cases hhead : modules.entries.head? with
      | none =>
        have hnil : targets r m [pkgPath] = [] := by
          rw [hone, List.head?_eq_none_iff.1 hhead, List.map_nil]
        rw [hnil, List.nil_append]
        simp only [hhead]
        exact hrest m₁ hstage
      | some e =>
        have htpl : e.2 ∈ modules.entries.map (·.2) :=
          List.mem_map_of_mem (List.mem_of_head? hhead)
        obtain ⟨calls, m', hpublish, hreaches, hstage'⟩ := publishPackage_spec hcheck hstage htpl
          (fun w hw => hpkg pkgPath (List.mem_cons_self ..) w (hone ▸ hw)) fun w hw =>
            hconverts w (hcons ▸ List.mem_append_left _ (hone ▸ hw))
        simp only [hhead, hpublish]
        exact (hone ▸ hreaches).append (hrest m' hstage')

/-- `w` is subscribed to the type and topic of the message, at the local backend. -/
def Subscribed (routed : Bytes → Bool) (ws : List (SubscribeWrapper V)) (m : MsgWrapper V)
    (w : SubscribeWrapper V) : Prop :=
  ChannelRegistry.subscriberOf ws w.info.key = some w ∧ w.info.msgType = m.info.msgType ∧
    w.info.topicName = m.info.topicName ∧ routed m.info.topicName = true

variable {s : ChannelRegistry V × LocalChannelBackend}

/-- The modules of a package in the registry are its subscribers. -/
theorem InStep.mem_modules_iff (h : InStep routed ws s) {key : TopicKey} {w : SubscribeWrapper V} :
    ⟨key.moduleName, w⟩ ∈ (entryAt s.1.subMsgTopicPkgIndexMap key.mtp).entries ↔
      ChannelRegistry.subscriberOf ws key = some w := by
  rw [← h.registry.index key, ← AList.mem_lookup_iff, Option.mem_def]

theorem InStep.mem_targets_iff (h : InStep routed ws s) {w : SubscribeWrapper V} :
    w ∈ targets s.1 m (packages s.2.subscribeIndexMap m.info.msgType m.info.topicName).keys ↔
      Subscribed routed ws m w := by
  simp only [targets, List.mem_flatMap, List.mem_map, ← AList.mem_keys, h.mem_packages]
  constructor
  · rintro ⟨pkgPath, ⟨hrouted, -⟩, ⟨moduleName, w'⟩, he, rfl⟩
    have hw : ChannelRegistry.subscriberOf ws
        ⟨m.info.msgType, m.info.topicName, pkgPath, moduleName⟩ = some w' := h.mem_modules_iff.1 he
    have hkey := ChannelRegistry.key_of_subscriberOf hw
    refine ⟨by rw [hkey, hw], congrArg TopicKey.msgType hkey, congrArg TopicKey.topicName hkey,
      hrouted⟩
  · rintro ⟨hw, htype, htopic, hrouted⟩
    have hmtp : w.info.key.mtp = ⟨m.info.msgType, m.info.topicName, w.info.pkgPath⟩ := by
      rw [← htype, ← htopic]
      rfl
    refine ⟨w.info.pkgPath, ⟨hrouted, w, List.mem_of_find?_eq_some hw, hmtp⟩, ?_⟩
    exact ⟨⟨w.info.moduleName, w⟩, hmtp ▸ h.mem_modules_iff.2 hw, rfl⟩

theorem InStep.pkgPath_eq (h : InStep routed ws s) {pkgPath : Bytes} {w : SubscribeWrapper V}
    (hw : w ∈ targets s.1 m [pkgPath]) : w.info.pkgPath = pkgPath := by
  simp only [targets, List.flatMap_singleton, List.mem_map] at hw
  obtain ⟨e, he, rfl⟩ := hw
  have hsubscriber : ChannelRegistry.subscriberOf ws
      ⟨m.info.msgType, m.info.topicName, pkgPath, e.1⟩ = some e.2 := h.mem_modules_iff.1 he
  exact congrArg TopicKey.pkgPath (ChannelRegistry.key_of_subscriberOf hsubscriber)

theorem InStep.key_targets (h : InStep routed ws s) (pkgPaths : List Bytes) :
    (targets s.1 m pkgPaths).map (·.info.key) = pkgPaths.flatMap fun pkgPath =>
      (entryAt s.1.subMsgTopicPkgIndexMap ⟨m.info.msgType, m.info.topicName, pkgPath⟩).keys.map
        (TopicKey.mk m.info.msgType m.info.topicName pkgPath) := by
  rw [targets, List.map_flatMap]
  refine List.flatMap_congr fun pkgPath _ => ?_
  rw [AList.keys, List.keys, List.map_map, List.map_map]
  refine List.map_congr_left fun e he => ?_
  exact ChannelRegistry.key_of_subscriberOf (h.mem_modules_iff.1 he)

theorem InStep.nodup_targets (h : InStep routed ws s) {pkgPaths : List Bytes} (hnodup : pkgPaths.Nodup) :
    ((targets s.1 m pkgPaths).map (·.info.key)).Nodup := by
  rw [h.key_targets, List.nodup_flatMap]
  refine ⟨fun pkgPath _ => ?_, hnodup.imp fun {p q} hne key hp hq => ?_⟩
  · exact (AList.keys_nodup _).map fun module₁ module₂ heq => congrArg TopicKey.moduleName heq
  · obtain ⟨module₁, -, rfl⟩ := List.mem_map.1 hp
    obtain ⟨module₂, -, heq⟩ := List.mem_map.1 hq
    exact hne (congrArg TopicKey.pkgPath heq).symm

theorem publish_eq (b : LocalChannelBackend) (r : ChannelRegistry V) (m : MsgWrapper V) :
    publish { b with state := .start } r m = publishPackages r (serializationTypeOf m)
      (packages b.subscribeIndexMap m.info.msgType m.info.topicName).keys m := by
  simp only [publish, packages, entryAt, ne_eq, not_true_eq_false, if_false]
  cases b.subscribeIndexMap.lookup m.info.msgType with
  | none => rfl
  | some topics =>
    simp only [Option.getD_some]
    cases topics.lookup m.info.topicName with
    | none => rfl
    | some pkgs => rfl

/-! ### Contexts -/

theorem lookup_copyMetaValues (ctx : Context) (keys : List Bytes) (copy : Context) (key : Bytes) :
    (copyMetaValues ctx keys copy).lookup key =
      if key ∈ keys then some (ctx.getMetaValue key) else copy.lookup key := by
  induction keys using List.reverseRecOn with
  | nil => simp [copyMetaValues]
  | append_singleton keys last ih =>
    rw [copyMetaValues, List.foldl_concat, Context.setMetaValue]
    by_cases hlast : key = last
    · subst hlast
      rw [AList.lookup_insert]
      simp
    · rw [AList.lookup_insert_ne hlast]
      refine ih.trans ?_
      simp [hlast]

/-- The meta pairs that the backend does not set itself: it sets the key of the backend and, for another
package, a serialization type where the publisher left it empty. -/
def Kept (key val : Bytes) : Prop :=
  key ≠ Channel.kBackend ∧ (key = Channel.kSerializationType → val ≠ [])

theorem lookup_subscriberContext {key val : Bytes} (h : m.ctx.metaData.lookup key = some val)
    (hkey : key ≠ Channel.kBackend) : (subscriberContext m).metaData.lookup key = some val := by
  have hmem : key ∈ m.ctx.metaData.keys := AList.mem_keys.1 (AList.lookup_isSome.1 (by rw [h]; rfl))
  rw [subscriberContext, Context.setMetaValue, AList.lookup_insert_ne hkey, lookup_copyMetaValues,
    if_pos hmem, Context.getMetaValue, h]
  rfl

theorem lookup_packageContext {pkgPath key val : Bytes} (h : m.ctx.metaData.lookup key = some val)
    (hkept : Kept key val) : (packageContext m pkgPath).metaData.lookup key = some val := by
  have hsubscriber := lookup_subscriberContext h hkept.1
  rw [packageContext]
  split
  · exact hsubscriber
  · by_cases hkey : key = Channel.kSerializationType
    · subst hkey
      have htype : serializationTypeOf m = val := by
        simp [serializationTypeOf, Context.getMetaValue, h, hkept.2 rfl]
      rw [Context.setMetaValue, AList.lookup_insert, htype]
    · rw [Context.setMetaValue, AList.lookup_insert_ne hkey, hsubscriber]

/-! ### Delivery -/

/-- Every subscriber in `subscribed` is called exactly once, with the message and the meta pairs in
`kept`, and no other is called. -/
def Delivered (kept : Bytes → Bytes → Prop) (subscribed : SubscribeWrapper V → Prop)
    (m : MsgWrapper V) (msg : V) (log : List (SubscriberCall V)) : Prop :=
  (∀ w, subscribed w → ∃ call ctx,
    log.filter (fun call => call.subscriber.info.key = w.info.key) = [call] ∧ call.subscriber = w ∧
    subscriberCallback call.msg = some (ctx, msg) ∧
    ∀ key val, m.ctx.metaData.lookup key = some val → kept key val →
      ctx.metaData.lookup key = some val) ∧
  ∀ call ∈ log, subscribed call.subscriber

theorem filter_eq_singleton {α β : Type} [DecidableEq β] {f : α → β} {l : List α} {a : α}
    (hnodup : (l.map f).Nodup) (ha : a ∈ l) : l.filter (fun a' => f a' = f a) = [a] := by
  induction l with
  | nil => cases ha
  | cons a' l ih =>
    obtain ⟨hnot, hnodup⟩ := List.nodup_cons.1 hnodup
    rcases List.mem_cons.1 ha with rfl | ha
    · rw [List.filter_cons_of_pos (by simp), List.filter_eq_nil_iff.2]
      intro a'' ha'' heq
      exact hnot (of_decide_eq_true heq ▸ List.mem_map_of_mem ha'')
    · have hne : f a' ≠ f a := fun heq => hnot (heq ▸ List.mem_map_of_mem ha)
      rw [List.filter_cons_of_neg (by simp [hne]), ih hnodup ha]

def exampleSubscriber (pkgPath moduleName : Bytes) : SubscribeWrapper ℕ :=
  ⟨⟨ascii "pb:M", ascii "t", pkgPath, moduleName, SubscribeTool.exampleTypeSupport [ascii "pb"]⟩, []⟩

/-- A message of the package `p`; its context has a pair with the key of the backend. -/
def exampleMsg : MsgWrapper ℕ where
  info := (exampleSubscriber (ascii "p") (ascii "m")).info
  msgPtr := some 3
  ctx := ⟨.publisher, true, Context.setMetaValue ∅ Channel.kBackend (ascii "x")⟩
  serializationCache := ∅

theorem converts_example (pkgPath moduleName : Bytes) :
    Converts exampleMsg 3 (exampleSubscriber pkgPath moduleName) := by
  have htype : serializationTypeOf exampleMsg = ascii "pb" := by decide
  refine ⟨fun _ => rfl, fun _ => ?_⟩
  rw [htype]
  refine ⟨[[0, 0, 0]], _, (3, _), MsgWrapper.serializeMsgWithCache_of_not_cached rfl rfl rfl, rfl, ?_⟩
  intro serializationType bufferArray msg' hlookup hdeserialize
  by_cases htype : serializationType = ascii "pb"
  · subst htype
    rw [AList.lookup_insert] at hlookup
    cases hlookup
    exact (Option.some.inj hdeserialize).symm
  · rw [AList.lookup_insert_ne htype] at hlookup
    cases hlookup

def exampleSubscribers : List (SubscribeWrapper ℕ) :=
  [exampleSubscriber (ascii "p") (ascii "m1"), exampleSubscriber (ascii "q") (ascii "m2")]

end LocalChannelBackend

end AimRT.Core

import AimRT.Core.BackendRules
import AimRT.Core.ChannelRegistry
import AimRT.Core.FilterChain

/-!
# The channel backend manager: publishing

`Publish` sends a message through the filters of its topic to all backends of the topic.  These are
looked up by the rules when a type is first registered on the topic; there is no entry for a topic
without a type.  One overload looks for the type of the message, the other takes the message as it is.

Every topic has a counter from its first registration on, and every message of the topic takes a number
of it into its context.
-/

namespace AimRT.Core

open AimRT.Lib AimRT.Lib.Chain AimRT.Util AimRT.Rpc

variable {V A : Type}

/-! ### The manager -/

/-- The manager calls `Publish` of a backend. -/
structure ChannelEvent (V : Type) where
  backend : ℕ
  msg : MsgWrapper V

/-- The acts of the manager, and those of filters and backends. -/
abbrev ChannelAct (V A : Type) := ChannelEvent V ⊕ A

/-- The events among the acts. -/
def channelEvent : ChannelAct V A → Option (ChannelEvent V) := Sum.getLeft?

structure ChannelBackend (V A : Type) where
  name : Bytes
  registerPublishType : TopicInfo V → Bool
  publish : Handler (MsgWrapper V) Unit A

/-- `RegisterPublishTypeProxyInfoWrapper`; a type support comes with its type name, and may be null. -/
structure RegisterPublishTypeProxyInfoWrapper (V : Type) where
  topicName : Bytes
  pkgPath : Bytes
  moduleName : Bytes
  msgTypeSupport : Option (Bytes × TypeSupport V)

structure PublishProxyInfoWrapper (V : Type) where
  key : TopicKey
  ctx : ChannelContext
  msgPtr : Option V

/-- What becomes of a call of `Publish`: it returns at once, or starts a chain of filters. -/
inductive Publication (V A : Type) : Type
  | rejected
  | started (c : FrameworkAsyncChannelFilterCollector V (ChannelAct V A))
      (h : Handler (MsgWrapper V) Unit (ChannelAct V A)) (w : MsgWrapper V)

structure ChannelBackendManager (V A : Type) where
  state : State
  publishFilterManager : FrameworkAsyncChannelFilterManager V (ChannelAct V A)
  publishFiltersRules : Rules
  pubTopicsBackendsRules : Rules
  channelBackendIndexVec : List (ChannelBackend V A)
  /-- The types of the registry. -/
  publishTypeWrapperMap : AList fun _ : TopicKey => TopicInfo V
  pubTopicsBackendIndexMap : AList fun _ : Bytes => List ℕ
  pubTopicSeqMap : AList fun _ : Bytes => UInt32

def kPubSeq : Bytes := ascii "aimrt-pub_seq"

def kPubTimestamp : Bytes := ascii "aimrt-pub_ts"

def ChannelContext.setMetaValue (ctx : ChannelContext) (key val : Bytes) : ChannelContext :=
  { ctx with metaData := ctx.metaData.setMetaValue key val }

namespace ChannelBackendManager

def new : ChannelBackendManager V A := ⟨.preInit, FilterManager.new, [], [], [], ∅, ∅, ∅⟩

def backendNames (m : ChannelBackendManager V A) : List Bytes :=
  m.channelBackendIndexVec.map ChannelBackend.name

/-! ### Configuration -/

/-- The methods that throw when the state is not `PreInit`. -/
def inPreInit (m m' : ChannelBackendManager V A) : ChannelBackendManager V A :=
  if m.state = .preInit then m' else m

def setPublishFiltersRules (m : ChannelBackendManager V A) (rules : Rules) : ChannelBackendManager V A :=
  m.inPreInit { m with publishFiltersRules := rules }

def setPubTopicsBackendsRules (m : ChannelBackendManager V A) (rules : Rules) :
    ChannelBackendManager V A :=
  m.inPreInit { m with pubTopicsBackendsRules := rules }

def registerChannelBackend (m : ChannelBackendManager V A) (backend : ChannelBackend V A) :
    ChannelBackendManager V A :=
  m.inPreInit { m with channelBackendIndexVec := m.channelBackendIndexVec ++ [backend] }

/-- `ChannelManager::RegisterPublishFilter`. -/
def registerPublishFilter (m : ChannelBackendManager V A) (name : Bytes)
    (filter : Filter (MsgWrapper V) Unit (ChannelAct V A)) : ChannelBackendManager V A :=
  m.inPreInit { m with publishFilterManager := (m.publishFilterManager.registerFilter name filter).1 }

/-- `Initialize`; `atomic_exchange` sets the state also where a method throws. -/
def initManager (m : ChannelBackendManager V A) : ChannelBackendManager V A := { m with state := .init }

def start (m : ChannelBackendManager V A) : ChannelBackendManager V A := { m with state := .start }

def shutdown (m : ChannelBackendManager V A) : ChannelBackendManager V A :=
  { m with state := .shutdown }

/-! ### Registration -/

section

variable (regexMatch : RegexMatch)

/-- What both overloads of `RegisterPublishType` do for a topic. -/
def registerInfo (m : ChannelBackendManager V A) (info : TopicInfo V) :
    ChannelBackendManager V A × Except FilterError Bool :=
  let topicName := info.topicName
  let m := { m with pubTopicSeqMap := Table.emplace m.pubTopicSeqMap topicName 0 }
  let filterNameVec := getFilterRules regexMatch topicName m.publishFiltersRules
  let (publishFilterManager, created) :=
    m.publishFilterManager.createFilterCollectorIfNotExist topicName filterNameVec
  let m := { m with publishFilterManager }
  match created with
  | .error e => (m, .error e)
  | .ok () =>
    match m.publishTypeWrapperMap.lookup info.key with
    | some _ => (m, .ok false)
    | none =>
      let publishTypeWrapperMap := m.publishTypeWrapperMap.insert info.key info
      let pubTopicsBackendIndexMap := Table.emplace m.pubTopicsBackendIndexMap topicName
        (getBackendsByRules regexMatch m.backendNames topicName m.pubTopicsBackendsRules)
      let backends := (pubTopicsBackendIndexMap.lookup topicName).getD []
      let ret := (backends.filterMap (m.channelBackendIndexVec[·]?)).all fun b =>
        b.registerPublishType info
      ({ m with publishTypeWrapperMap, pubTopicsBackendIndexMap }, .ok ret)

/-- `RegisterPublishType(PublishTypeWrapper&&)`. -/
def registerPublishType (m : ChannelBackendManager V A) (info : TopicInfo V) :
    ChannelBackendManager V A × Except FilterError Bool :=
  if m.state ≠ .init then (m, .ok false) else m.registerInfo regexMatch info

/-- `RegisterPublishType(RegisterPublishTypeProxyInfoWrapper&&)`. -/
def registerPublishTypeProxy (m : ChannelBackendManager V A)
    (wrapper : RegisterPublishTypeProxyInfoWrapper V) :
    ChannelBackendManager V A × Except FilterError Bool :=
  if m.state ≠ .init then (m, .ok false)
  else
    match wrapper.msgTypeSupport with
    | none => (m, .ok false)
    | some (msgType, msgTypeSupport) => m.registerInfo regexMatch
      ⟨msgType, wrapper.topicName, wrapper.pkgPath, wrapper.moduleName, msgTypeSupport⟩

end

/-! ### Publishing -/

/-- `itr->Publish`. -/
def publishBackend (m : ChannelBackendManager V A) (w : MsgWrapper V) (i : ℕ) :
    Prog Empty Unit (ChannelAct V A) :=
  match m.channelBackendIndexVec[i]? with
  | none => .ret ()
  | some backend => .act (.inl ⟨i, w⟩) ((backend.publish w).mapAct .inr)

/-- The loop over the backends. -/
def publishBackends (m : ChannelBackendManager V A) (w : MsgWrapper V) :
    List ℕ → Prog Empty Unit (ChannelAct V A)
  | [] => .ret ()
  | i :: backends => (m.publishBackend w i).andThen fun _ => m.publishBackends w backends

/-- The lambda of `Publish`, behind the filters. -/
def handle (m : ChannelBackendManager V A) : Handler (MsgWrapper V) Unit (ChannelAct V A) := fun w =>
  match m.pubTopicsBackendIndexMap.lookup w.info.topicName with
  | none => .ret ()
  | some backends => m.publishBackends w backends

/-- The number that `Publish` puts into the context. -/
def setPubSeq (m : ChannelBackendManager V A) (topicName : Bytes) (ctx : ChannelContext) :
    ChannelBackendManager V A × ChannelContext :=
  match m.pubTopicSeqMap.lookup topicName with
  | none => (m, ctx)
  | some seq => ({ m with pubTopicSeqMap := m.pubTopicSeqMap.insert topicName (seq + 1) },
    ctx.setMetaValue kPubSeq (ascii (toString (seq + 1).toNat)))

/-- What both overloads do to the context of a call that they accept. -/
def stamp (m : ChannelBackendManager V A) (now : ℕ) (topicName : Bytes) (ctx : ChannelContext) :
    ChannelBackendManager V A × ChannelContext :=
  let (m, ctx) := m.setPubSeq topicName { ctx with used := true }
  (m, ctx.setMetaValue kPubTimestamp (ascii (toString now)))

/-- `Publish(MsgWrapper&&)` at the time `now`, with what becomes of the context before the chain. -/
def publish (m : ChannelBackendManager V A) (now : ℕ) (wrapper : MsgWrapper V) :
    ChannelBackendManager V A × ChannelContext × Publication V A :=
  let topicName := wrapper.info.topicName
  if m.state ≠ .start then (m, wrapper.ctx, .rejected)
  else if wrapper.ctx.type ≠ .publisher || wrapper.ctx.used then (m, wrapper.ctx, .rejected)
  else
    let (m, ctx) := m.stamp now topicName wrapper.ctx
    (m, ctx, .started (m.publishFilterManager.getFilterCollector topicName) m.handle
      { wrapper with ctx })

/-- `Publish(PublishProxyInfoWrapper&&)`. -/
def publishProxy (m : ChannelBackendManager V A) (now : ℕ) (wrapper : PublishProxyInfoWrapper V) :
    ChannelBackendManager V A × ChannelContext × Publication V A :=
  if m.state ≠ .start then (m, wrapper.ctx, .rejected)
  else
    match m.publishTypeWrapperMap.lookup wrapper.key with
    | none => (m, wrapper.ctx, .rejected)
    | some info =>
      if wrapper.ctx.type ≠ .publisher || wrapper.ctx.used then (m, wrapper.ctx, .rejected)
      else
        let (m, ctx) := m.stamp now wrapper.key.topicName wrapper.ctx
        (m, ctx, .started (m.publishFilterManager.getFilterCollector wrapper.key.topicName) m.handle
          ⟨info, wrapper.msgPtr, ctx, ∅⟩)

/-! ### Runs of the manager -/

/-- A call of one of the overloads of `Publish`. -/
inductive PublishCall (V : Type) : Type
  | wrapper (w : MsgWrapper V)
  | proxy (w : PublishProxyInfoWrapper V)

namespace PublishCall

def topicName : PublishCall V → Bytes
  | .wrapper w => w.info.topicName
  | .proxy w => w.key.topicName

def ctx : PublishCall V → ChannelContext
  | .wrapper w => w.ctx
  | .proxy w => w.ctx

/-- The message of a call, with the type under which it is published. -/
def message (m : ChannelBackendManager V A) : PublishCall V → Option (MsgWrapper V)
  | .wrapper w => some w
  | .proxy w => (m.publishTypeWrapperMap.lookup w.key).map fun info => ⟨info, w.msgPtr, w.ctx, ∅⟩

end PublishCall

def publishCall (m : ChannelBackendManager V A) (now : ℕ) :
    PublishCall V → ChannelBackendManager V A × ChannelContext × Publication V A
  | .wrapper w => m.publish now w
  | .proxy w => m.publishProxy now w

inductive Op (V A : Type) : Type
  | setPublishFiltersRules (rules : Rules)
  | setPubTopicsBackendsRules (rules : Rules)
  | registerChannelBackend (backend : ChannelBackend V A)
  | registerPublishFilter (name : Bytes) (filter : Filter (MsgWrapper V) Unit (ChannelAct V A))
  | initManager
  | start
  | shutdown
  | registerPublishType (info : TopicInfo V)
  | registerPublishTypeProxy (wrapper : RegisterPublishTypeProxyInfoWrapper V)
  | publish (now : ℕ) (call : PublishCall V)

def step (regexMatch : RegexMatch) (m : ChannelBackendManager V A) : Op V A → ChannelBackendManager V A
  | .setPublishFiltersRules rules => m.setPublishFiltersRules rules
  | .setPubTopicsBackendsRules rules => m.setPubTopicsBackendsRules rules
  | .registerChannelBackend backend => m.registerChannelBackend backend
  | .registerPublishFilter name filter => m.registerPublishFilter name filter
  | .initManager => m.initManager
  | .start => m.start
  | .shutdown => m.shutdown
  | .registerPublishType info => (m.registerPublishType regexMatch info).1
  | .registerPublishTypeProxy wrapper => (m.registerPublishTypeProxy regexMatch wrapper).1
  | .publish now call => (m.publishCall now call).1

def run (regexMatch : RegexMatch) (ops : List (Op V A)) : ChannelBackendManager V A :=
  ops.foldl (step regexMatch) new

/-- The number that a step puts into a context of the topic, which has to have a counter. -/
def pubSeq (m : ChannelBackendManager V A) (topicName : Bytes) : Op V A → Option Bytes
  | .publish now call =>
    match (m.publishCall now call).2.2 with
    | .started _ _ w =>
      if call.topicName = topicName ∧ (m.pubTopicSeqMap.lookup topicName).isSome then
        some (w.ctx.metaData.getMetaValue kPubSeq)
      else none
    | .rejected => none
  | _ => none

/-- The numbers of a topic in a run. -/
def pubSeqs (regexMatch : RegexMatch) (topicName : Bytes) :
    ChannelBackendManager V A → List (Op V A) → List Bytes
  | _, [] => []
  | m, op :: ops => (m.pubSeq topicName op).toList ++ pubSeqs regexMatch topicName (m.step regexMatch op) ops

/-! ### The invariant -/

/-- A type is registered on the topic. -/
def Registered (m : ChannelBackendManager V A) (topicName : Bytes) : Prop :=
  ∃ key info, m.publishTypeWrapperMap.lookup key = some info ∧ key.topicName = topicName

/-- **The invariant of the manager**: the backends of a topic are those of the rules, and a topic has an
entry when it has a type, and a counter then. -/
structure Inv (regexMatch : RegexMatch) (m : ChannelBackendManager V A) : Prop where
  backends : ∀ {topicName l}, m.pubTopicsBackendIndexMap.lookup topicName = some l →
    l = getBackendsByRules regexMatch m.backendNames topicName m.pubTopicsBackendsRules
  keys : ∀ {key info}, m.publishTypeWrapperMap.lookup key = some info → info.key = key
  entries : ∀ topicName,
    (∃ l, m.pubTopicsBackendIndexMap.lookup topicName = some l) ↔ m.Registered topicName
  counters : ∀ {topicName}, m.Registered topicName → ∃ seq, m.pubTopicSeqMap.lookup topicName = some seq
  preInit : m.state = .preInit → m.pubTopicsBackendIndexMap = ∅
  filters : m.publishFilterManager.Sound

variable {regexMatch : RegexMatch} {m : ChannelBackendManager V A}

theorem not_registered_new {topicName : Bytes} : ¬(new : ChannelBackendManager V A).Registered topicName := by
  rintro ⟨key, info, h, -⟩
  cases h

theorem new_inv : Inv regexMatch (new : ChannelBackendManager V A) := by
  refine ⟨fun h => ?_, fun h => ?_, fun topicName => ?_, fun h => (not_registered_new h).elim,
    fun _ => rfl, FilterManager.new_sound⟩
  · cases h
  · cases h
  · refine iff_of_false ?_ not_registered_new
    rintro ⟨l, h⟩
    cases h

/-- What is the same in `m'` as far as the invariant goes. -/
theorem Inv.congr {m' : ChannelBackendManager V A} (hm : m.Inv regexMatch)
    (hvec : m'.channelBackendIndexVec = m.channelBackendIndexVec)
    (hrules : m'.pubTopicsBackendsRules = m.pubTopicsBackendsRules)
    (htypes : m'.publishTypeWrapperMap = m.publishTypeWrapperMap)
    (hindex : m'.pubTopicsBackendIndexMap = m.pubTopicsBackendIndexMap)
    (hseq : ∀ {topicName seq}, m.pubTopicSeqMap.lookup topicName = some seq →
      ∃ seq', m'.pubTopicSeqMap.lookup topicName = some seq')
    (hstate : m'.state = .preInit → m.state = .preInit) (hfilters : m'.publishFilterManager.Sound) :
    m'.Inv regexMatch := by
  refine ⟨fun h => ?_, fun h => ?_, fun topicName => ?_, fun h => ?_, fun h => ?_, hfilters⟩
  · rw [backendNames, hvec, hrules]
    exact hm.backends (hindex ▸ h)
  · exact hm.keys (htypes ▸ h)
  · rw [hindex, Registered, htypes]
    exact hm.entries topicName
  · rw [Registered, htypes] at h
    obtain ⟨seq, hseq'⟩ := hm.counters h
    exact hseq hseq'
  · rw [hindex]
    exact hm.preInit (hstate h)

/-- What `RegisterPublishType` changes. -/
theorem registerInfo_cases (regexMatch : RegexMatch) (hm : m.publishFilterManager.Sound)
    (info : TopicInfo V) :
    ∃ publishFilterManager, publishFilterManager.Sound ∧
      ((m.registerInfo regexMatch info).1 = { m with
          publishFilterManager
          pubTopicSeqMap := Table.emplace m.pubTopicSeqMap info.topicName 0 } ∨
        m.publishTypeWrapperMap.lookup info.key = none ∧
        (m.registerInfo regexMatch info).1 = { m with
          publishFilterManager
          pubTopicSeqMap := Table.emplace m.pubTopicSeqMap info.topicName 0
          publishTypeWrapperMap := m.publishTypeWrapperMap.insert info.key info
          pubTopicsBackendIndexMap := Table.emplace m.pubTopicsBackendIndexMap info.topicName
            (getBackendsByRules regexMatch m.backendNames info.topicName m.pubTopicsBackendsRules) }) := by
  have hcreate := FilterManager.createFilterCollectorIfNotExist_sound hm info.topicName
    (getFilterRules regexMatch info.topicName m.publishFiltersRules)
  refine ⟨_, hcreate.1, ?_⟩
  unfold registerInfo
  dsimp only
  split
  · exact Or.inl rfl
  · split
    · exact Or.inl rfl
    next hfree => exact Or.inr ⟨hfree, rfl⟩

theorem exists_lookup_emplace {β : Type} {map : AList fun _ : Bytes => β} {k k' : Bytes} {b b' : β}
    (h : map.lookup k' = some b') : ∃ b', (Table.emplace map k b).lookup k' = some b' :=
  ⟨b', Table.lookup_emplace_of_lookup h⟩

theorem exists_lookup_emplace_self {β : Type} (map : AList fun _ : Bytes => β) (k : Bytes) (b : β) :
    ∃ b', (Table.emplace map k b).lookup k = some b' := by
  cases h : map.lookup k with
  | some b' => exact exists_lookup_emplace h
  | none => exact ⟨b, Table.lookup_emplace h⟩

theorem Inv.registerInfo (hm : m.Inv regexMatch) (hstate : m.state = .init) (info : TopicInfo V) :
    (m.registerInfo regexMatch info).1.Inv regexMatch := by
  obtain ⟨fm, hfm, e | ⟨hfree, e⟩⟩ := registerInfo_cases regexMatch hm.filters info
  · rw [e]
    exact hm.congr rfl rfl rfl rfl exists_lookup_emplace id hfm
  · rw [e]
    have hregistered : ∀ topicName, Registered { m with
        publishTypeWrapperMap := m.publishTypeWrapperMap.insert info.key info } topicName ↔
          m.Registered topicName ∨ info.topicName = topicName := by
      intro topicName
      constructor
      · rintro ⟨key, info', h, hkey⟩
        by_cases hk : key = info.key
        · subst hk
          exact Or.inr hkey
        · rw [AList.lookup_insert_ne hk] at h
          exact Or.inl ⟨key, info', h, hkey⟩
      · rintro (⟨key, info', h, hkey⟩ | rfl)
        · have hk : key ≠ info.key := by
            rintro rfl
            cases hfree.symm.trans h
          exact ⟨key, info', by rw [AList.lookup_insert_ne hk]; exact h, hkey⟩
        · exact ⟨info.key, info, AList.lookup_insert _, rfl⟩
    refine ⟨fun {topicName l} hl => ?_, fun {key info'} h => ?_, fun topicName => ?_,
      fun {topicName} h => ?_, fun h => ?_, hfm⟩
    · rcases Table.lookup_emplace_cases hl with hl | ⟨rfl, rfl, -⟩
      · exact hm.backends hl
      · rfl
    · by_cases hk : key = info.key
      · subst hk
        rw [AList.lookup_insert] at h
        rw [Option.some.inj h]
      · rw [AList.lookup_insert_ne hk] at h
        exact hm.keys h
    · refine Iff.trans ?_ (hregistered topicName).symm
      rw [← hm.entries]
      constructor
      · rintro ⟨l, hl⟩
        rcases Table.lookup_emplace_cases hl with hl | ⟨rfl, -⟩
        · exact Or.inl ⟨l, hl⟩
        · exact Or.inr rfl
      · rintro (⟨l, hl⟩ | rfl)
        · exact exists_lookup_emplace hl
        · exact exists_lookup_emplace_self _ _ _
    · rcases (hregistered topicName).1 h with h | rfl
      · obtain ⟨seq, hseq⟩ := hm.counters h
        exact exists_lookup_emplace hseq
      · exact exists_lookup_emplace_self _ _ _
    · cases hstate.symm.trans h

/-! ### Calls -/

theorem stamp_cases (m : ChannelBackendManager V A) (now : ℕ) (topicName : Bytes) (ctx : ChannelContext) :
    (m.pubTopicSeqMap.lookup topicName = none ∧ (m.stamp now topicName ctx).1 = m) ∨
      ∃ seq, m.pubTopicSeqMap.lookup topicName = some seq ∧
        (m.stamp now topicName ctx).1 =
          { m with pubTopicSeqMap := m.pubTopicSeqMap.insert topicName (seq + 1) } ∧
        (m.stamp now topicName ctx).2.metaData.getMetaValue kPubSeq = ascii (toString (seq + 1).toNat) := by
  unfold stamp setPubSeq
  cases hseq : m.pubTopicSeqMap.lookup topicName with
  | none => exact Or.inl ⟨rfl, rfl⟩
  | some seq =>
    refine Or.inr ⟨seq, rfl, rfl, ?_⟩
    have hne : kPubSeq ≠ kPubTimestamp := by decide
    simp only [ChannelContext.setMetaValue, Context.getMetaValue, Context.setMetaValue]
    rw [AList.lookup_insert_ne hne, AList.lookup_insert, Option.getD_some]

/-- **The two overloads agree** where the type is found. -/
theorem publishCall_eq (hm : m.Inv regexMatch) (now : ℕ) (call : PublishCall V) :
    m.publishCall now call =
      match call.message m with
      | none => (m, call.ctx, .rejected)
      | some w => m.publish now w := by
  cases call with
  | wrapper w => rfl
  | proxy w =>
    simp only [publishCall, publishProxy, PublishCall.message, PublishCall.ctx, publish]
    cases hinfo : m.publishTypeWrapperMap.lookup w.key with
    | none => simp
    | some info =>
      have htopic : info.topicName = w.key.topicName := congrArg TopicKey.topicName (hm.keys hinfo)
      simp only [Option.map_some, htopic]

theorem message_spec (hm : m.Inv regexMatch) {call : PublishCall V} {w : MsgWrapper V}
    (h : call.message m = some w) : w.ctx = call.ctx ∧ w.info.topicName = call.topicName := by
  cases call with
  | wrapper w' =>
    obtain rfl := Option.some.inj h
    exact ⟨rfl, rfl⟩
  | proxy w' =>
    obtain ⟨info, hinfo, rfl⟩ := Option.map_eq_some_iff.1 h
    exact ⟨rfl, congrArg TopicKey.topicName (hm.keys hinfo)⟩

theorem publish_rejects (now : ℕ) {w : MsgWrapper V} (h : w.ctx.type ≠ .publisher ∨ w.ctx.used = true) :
    m.publish now w = (m, w.ctx, .rejected) := by
  simp only [publish]
  split
  · rfl
  · rw [if_pos (by simpa using h)]

theorem publish_accepts (hstart : m.state = .start) (now : ℕ) {w : MsgWrapper V}
    (h : ¬(w.ctx.type ≠ .publisher ∨ w.ctx.used = true)) :
    ∃ m' ctx, m.stamp now w.info.topicName w.ctx = (m', ctx) ∧
      m.publish now w = (m', ctx,
        .started (m'.publishFilterManager.getFilterCollector w.info.topicName) m'.handle { w with ctx }) := by
  refine ⟨(m.stamp now w.info.topicName w.ctx).1, (m.stamp now w.info.topicName w.ctx).2, rfl, ?_⟩
  unfold publish
  dsimp only
  rw [if_neg (not_not_intro hstart), if_neg (by simpa using h)]

theorem publish_not_start (hstart : m.state ≠ .start) (now : ℕ) (w : MsgWrapper V) :
    m.publish now w = (m, w.ctx, .rejected) := by
  simp only [publish]
  rw [if_pos hstart]

/-- A call is rejected and changes nothing, or its message goes into the chain of its topic. -/
theorem publishCall_cases (hm : m.Inv regexMatch) (now : ℕ) (call : PublishCall V) :
    m.publishCall now call = (m, call.ctx, .rejected) ∨
      ∃ w m' ctx, call.message m = some w ∧ m.stamp now call.topicName call.ctx = (m', ctx) ∧
        m.publishCall now call = (m', ctx,
          .started (m'.publishFilterManager.getFilterCollector call.topicName) m'.handle
            { w with ctx }) := by
  rw [publishCall_eq hm]
  cases hw : call.message m with
  | none => exact Or.inl rfl
  | some w =>
    obtain ⟨hctx, htopic⟩ := message_spec hm hw
    dsimp only
    rw [← hctx, ← htopic]
    by_cases hstart : m.state = .start
    · by_cases h : w.ctx.type ≠ .publisher ∨ w.ctx.used = true
      · exact Or.inl (publish_rejects now h)
      · obtain ⟨m', ctx, hstamp, e⟩ := publish_accepts hstart now h
        exact Or.inr ⟨w, m', ctx, rfl, hstamp, e⟩
    · exact Or.inl (publish_not_start hstart now w)

theorem publishCall_accepts (hm : m.Inv regexMatch) (hstart : m.state = .start) (now : ℕ)
    {call : PublishCall V} {w : MsgWrapper V} (hw : call.message m = some w)
    (htype : call.ctx.type = .publisher) (hused : call.ctx.used = false) :
    ∃ m' ctx c h, m.publishCall now call = (m', ctx, .started c h { w with ctx }) := by
  have hcall := publishCall_eq hm now call
  rw [hw] at hcall
  obtain ⟨e, -⟩ := message_spec hm hw
  obtain ⟨m', ctx, -, haccept⟩ := publish_accepts (w := w) hstart now (by simp [e, htype, hused])
  exact ⟨m', ctx, _, _, hcall.trans haccept⟩

/-- Only a counter changes. -/
theorem stamp_fst (m : ChannelBackendManager V A) (now : ℕ) (topicName : Bytes) (ctx : ChannelContext) :
    ∃ seqs, (m.stamp now topicName ctx).1 = { m with pubTopicSeqMap := seqs } ∧
      ∀ {topicName' seq}, m.pubTopicSeqMap.lookup topicName' = some seq →
        ∃ seq', seqs.lookup topicName' = some seq' := by
  rcases stamp_cases m now topicName ctx with ⟨-, e⟩ | ⟨seq, hseq, e, -⟩
  · exact ⟨m.pubTopicSeqMap, e, fun {_ seq} h => ⟨seq, h⟩⟩
  · refine ⟨_, e, fun {topicName' seq'} h => ?_⟩
    by_cases htopic : topicName' = topicName
    · exact ⟨seq + 1, by rw [htopic, AList.lookup_insert]⟩
    · exact ⟨seq', by rw [AList.lookup_insert_ne htopic, h]⟩

theorem Inv.stamp (hm : m.Inv regexMatch) (now : ℕ) (topicName : Bytes) (ctx : ChannelContext) :
    (m.stamp now topicName ctx).1.Inv regexMatch := by
  obtain ⟨seqs, e, hseqs⟩ := stamp_fst m now topicName ctx
  rw [e]
  exact hm.congr rfl rfl rfl rfl hseqs id hm.filters

theorem Inv.publishCall (hm : m.Inv regexMatch) (now : ℕ) (call : PublishCall V) :
    (m.publishCall now call).1.Inv regexMatch := by
  rcases publishCall_cases hm now call with e | ⟨w, m', ctx, -, hstamp, e⟩
  · rw [e]
    exact hm
  · have hm' := hm.stamp now call.topicName call.ctx
    rw [hstamp] at hm'
    rw [e]
    exact hm'

theorem Inv.inPreInit {m' : ChannelBackendManager V A} (hm : m.Inv regexMatch)
    (hm' : m.state = .preInit → m'.Inv regexMatch) : (m.inPreInit m').Inv regexMatch := by
  unfold ChannelBackendManager.inPreInit
  split
  next hstate => exact hm' hstate
  · exact hm

/-- Rules and backends may change as long as no topic has an entry. -/
theorem Inv.congr_preInit {m' : ChannelBackendManager V A} (hm : m.Inv regexMatch)
    (hstate : m.state = .preInit) (htypes : m'.publishTypeWrapperMap = m.publishTypeWrapperMap)
    (hindex : m'.pubTopicsBackendIndexMap = m.pubTopicsBackendIndexMap)
    (hseq : m'.pubTopicSeqMap = m.pubTopicSeqMap)
    (hfilters : m'.publishFilterManager = m.publishFilterManager) : m'.Inv regexMatch := by
  have hempty : m'.pubTopicsBackendIndexMap = ∅ := hindex.trans (hm.preInit hstate)
  refine ⟨fun h => ?_, fun h => ?_, fun topicName => ?_, fun h => ?_, fun _ => hempty, ?_⟩
  · rw [hempty] at h
    cases h
  · exact hm.keys (htypes ▸ h)
  · rw [hindex, Registered, htypes]
    exact hm.entries topicName
  · rw [Registered, htypes] at h
    rw [hseq]
    exact hm.counters h
  · rw [hfilters]
    exact hm.filters

theorem Inv.step (hm : m.Inv regexMatch) (op : Op V A) : (m.step regexMatch op).Inv regexMatch := by
  have hseq : ∀ {topicName seq}, m.pubTopicSeqMap.lookup topicName = some seq →
      ∃ seq', m.pubTopicSeqMap.lookup topicName = some seq' := fun {_ seq} h => ⟨seq, h⟩
  cases op with
  | setPublishFiltersRules rules =>
    exact hm.inPreInit fun _ => hm.congr rfl rfl rfl rfl hseq id hm.filters
  | setPubTopicsBackendsRules rules =>
    exact hm.inPreInit fun hstate => hm.congr_preInit hstate rfl rfl rfl rfl
  | registerChannelBackend backend =>
    exact hm.inPreInit fun hstate => hm.congr_preInit hstate rfl rfl rfl rfl
  | registerPublishFilter name filter =>
    exact hm.inPreInit fun _ => hm.congr rfl rfl rfl rfl hseq id (hm.filters.registerFilter name filter)
  | initManager => exact hm.congr rfl rfl rfl rfl hseq (fun h => by cases h) hm.filters
  | start => exact hm.congr rfl rfl rfl rfl hseq (fun h => by cases h) hm.filters
  | shutdown => exact hm.congr rfl rfl rfl rfl hseq (fun h => by cases h) hm.filters
  | registerPublishType info =>
    simp only [ChannelBackendManager.step, registerPublishType]
    split
    · exact hm
    next hstate => exact hm.registerInfo (not_not.1 hstate) info
  | registerPublishTypeProxy wrapper =>
    simp only [ChannelBackendManager.step, registerPublishTypeProxy]
    split
    · exact hm
    next hstate =>
      split
      · exact hm
      · exact hm.registerInfo (not_not.1 hstate) _
  | publish now call => exact hm.publishCall now call

theorem run_inv (ops : List (Op V A)) : (run regexMatch ops).Inv regexMatch := by
  have hfold : ∀ m : ChannelBackendManager V A, m.Inv regexMatch →
      (ops.foldl (ChannelBackendManager.step regexMatch) m).Inv regexMatch := by
    induction ops with
    | nil => exact fun m hm => hm
    | cons op ops ih => exact fun m hm => ih _ (hm.step op)
  exact hfold _ new_inv

/-! ### The numbers of a topic -/

/-- The counter of a topic, which is as good as zero before there is one. -/
def seqOf (m : ChannelBackendManager V A) (topicName : Bytes) : UInt32 :=
  (m.pubTopicSeqMap.lookup topicName).getD 0

theorem seqOf_congr {m' : ChannelBackendManager V A} (h : m'.pubTopicSeqMap = m.pubTopicSeqMap)
    (topicName : Bytes) : m'.seqOf topicName = m.seqOf topicName := by
  rw [seqOf, h, seqOf]

theorem seqOf_inPreInit {m' : ChannelBackendManager V A} (h : m'.pubTopicSeqMap = m.pubTopicSeqMap)
    (topicName : Bytes) : (m.inPreInit m').seqOf topicName = m.seqOf topicName := by
  unfold inPreInit
  split
  · exact seqOf_congr h topicName
  · rfl

theorem seqOf_registerInfo (hm : m.publishFilterManager.Sound) (info : TopicInfo V) (topicName : Bytes) :
    (m.registerInfo regexMatch info).1.seqOf topicName = m.seqOf topicName := by
  have hseq : (m.registerInfo regexMatch info).1.pubTopicSeqMap =
      Table.emplace m.pubTopicSeqMap info.topicName 0 := by
    obtain ⟨fm, -, e | ⟨-, e⟩⟩ := registerInfo_cases regexMatch hm info <;> rw [e]
  unfold seqOf
  rw [hseq]
  cases hlookup : m.pubTopicSeqMap.lookup topicName with
  | some seq => rw [Table.lookup_emplace_of_lookup hlookup]
  | none =>
    cases hlookup' : (Table.emplace m.pubTopicSeqMap info.topicName 0).lookup topicName with
    | none => rfl
    | some seq =>
      rcases Table.lookup_emplace_cases hlookup' with h | ⟨-, rfl, -⟩
      · cases hlookup.symm.trans h
      · rfl

theorem pubSeq_publish (hm : m.Inv regexMatch) (topicName : Bytes) (now : ℕ) (call : PublishCall V) :
    (m.pubSeq topicName (.publish now call) = none ∧
        (m.publishCall now call).1.seqOf topicName = m.seqOf topicName) ∨
      m.pubSeq topicName (.publish now call) = some (ascii (toString (m.seqOf topicName + 1).toNat)) ∧
        (m.publishCall now call).1.seqOf topicName = m.seqOf topicName + 1 := by
  simp only [pubSeq]
  rcases publishCall_cases hm now call with e | ⟨w, m', ctx, -, hstamp, e⟩
  · rw [e]
    exact Or.inl ⟨rfl, rfl⟩
  · rw [e]
    dsimp only
    obtain rfl : (m.stamp now call.topicName call.ctx).1 = m' := by rw [hstamp]
    obtain rfl : (m.stamp now call.topicName call.ctx).2 = ctx := by rw [hstamp]
    rcases stamp_cases m now call.topicName call.ctx with ⟨hnone, e'⟩ | ⟨seq, hseq, e', hnumber⟩
    · rw [if_neg (by rintro ⟨rfl, h⟩; simp [hnone] at h), e']
      exact Or.inl ⟨rfl, rfl⟩
    · by_cases htopic : call.topicName = topicName
      · subst htopic
        rw [if_pos ⟨rfl, by rw [hseq]; rfl⟩, hnumber, e']
        refine Or.inr ⟨?_, ?_⟩
        · rw [seqOf, hseq, Option.getD_some]
        · rw [seqOf, AList.lookup_insert, seqOf, hseq, Option.getD_some, Option.getD_some]
      · rw [if_neg fun h => htopic h.1, e']
        refine Or.inl ⟨rfl, ?_⟩
        rw [seqOf, AList.lookup_insert_ne (Ne.symm htopic), seqOf]

/-- A step that puts a number into a context of the topic puts the next one, and other steps leave the
counter as it is. -/
theorem pubSeq_step (hm : m.Inv regexMatch) (topicName : Bytes) (op : Op V A) :
    (m.pubSeq topicName op = none ∧ (m.step regexMatch op).seqOf topicName = m.seqOf topicName) ∨
      m.pubSeq topicName op = some (ascii (toString (m.seqOf topicName + 1).toNat)) ∧
        (m.step regexMatch op).seqOf topicName = m.seqOf topicName + 1 := by
  cases op with
  | setPublishFiltersRules rules =>
    refine Or.inl ⟨rfl, seqOf_inPreInit ?_ topicName⟩
    rfl
  | setPubTopicsBackendsRules rules =>
    refine Or.inl ⟨rfl, seqOf_inPreInit ?_ topicName⟩
    rfl
  | registerChannelBackend backend =>
    refine Or.inl ⟨rfl, seqOf_inPreInit ?_ topicName⟩
    rfl
  | registerPublishFilter name filter =>
    refine Or.inl ⟨rfl, seqOf_inPreInit ?_ topicName⟩
    rfl
  | initManager => exact Or.inl ⟨rfl, rfl⟩
  | start => exact Or.inl ⟨rfl, rfl⟩
  | shutdown => exact Or.inl ⟨rfl, rfl⟩
  | registerPublishType info =>
    refine Or.inl ⟨rfl, ?_⟩
    simp only [ChannelBackendManager.step, registerPublishType]
    split
    · rfl
    · exact seqOf_registerInfo hm.filters info topicName
  | registerPublishTypeProxy wrapper =>
    refine Or.inl ⟨rfl, ?_⟩
    simp only [ChannelBackendManager.step, registerPublishTypeProxy]
    split
    · rfl
    · split
      · rfl
      · exact seqOf_registerInfo hm.filters _ topicName
  | publish now call => exact pubSeq_publish hm topicName now call

theorem pubSeqs_eq (hm : m.Inv regexMatch) (topicName : Bytes) (ops : List (Op V A)) :
    ∃ n, pubSeqs regexMatch topicName m ops =
      (List.range n).map fun k => ascii (toString (m.seqOf topicName + UInt32.ofNat (k + 1)).toNat) := by
  induction ops generalizing m with
  | nil => exact ⟨0, rfl⟩
  | cons op ops ih =>
    obtain ⟨n, hn⟩ := ih (hm.step op)
    rw [pubSeqs, hn]
    rcases pubSeq_step hm topicName op with ⟨e, hseq⟩ | ⟨e, hseq⟩
    · rw [e, hseq]
      exact ⟨n, rfl⟩
    · rw [e, hseq]
      refine ⟨n + 1, ?_⟩
      rw [List.range_succ_eq_map, List.map_cons, List.map_map]
      refine congrArg₂ List.cons rfl (List.map_congr_left fun k _ => ?_)
      have hsucc : UInt32.ofNat (k + 1 + 1) = 1 + UInt32.ofNat (k + 1) := by
        rw [Nat.add_comm (k + 1) 1, UInt32.ofNat_add]
        rfl
      change ascii (toString (m.seqOf topicName + 1 + UInt32.ofNat (k + 1)).toNat) =
        ascii (toString (m.seqOf topicName + UInt32.ofNat (k + 1 + 1)).toNat)
      rw [hsucc, UInt32.add_assoc]

/-- **The numbers of a topic** are 1, 2, 3 and so on, as numbers of 32 bits. -/
theorem pubSeqs_new (regexMatch : RegexMatch) (topicName : Bytes) (ops : List (Op V A)) :
    ∃ n, pubSeqs regexMatch topicName new ops =
      (List.range n).map fun k => ascii (toString ((k + 1) % 2 ^ 32)) := by
  have hnew : (new : ChannelBackendManager V A).Inv regexMatch := new_inv
  obtain ⟨n, hn⟩ := pubSeqs_eq hnew topicName ops
  refine ⟨n, hn.trans (List.map_congr_left fun k _ => ?_)⟩
  change ascii (toString (0 + UInt32.ofNat (k + 1)).toNat) = _
  rw [UInt32.zero_add, UInt32.toNat_ofNat']

/-! ### Routing -/

/-- A filter that passes the messages of `kept` on exactly once, and no message twice. -/
def PassesOn (kept : Set (MsgWrapper V)) (f : Filter (MsgWrapper V) Unit (ChannelAct V A)) : Prop :=
  (∀ w, (f w).CallsAtMostOnce) ∧ PassesOnce channelEvent kept f

/-- A message is handed to the backends in their order, whatever a backend does with it. -/
theorem publishBackends_emits {w : MsgWrapper V} {backends : List ℕ}
    (hvec : ∀ i ∈ backends, ∃ backend, m.channelBackendIndexVec[i]? = some backend) :
    (m.publishBackends w backends).Emits (acts channelEvent) {backends.map (⟨·, w⟩)} := by
  induction backends with
  | nil => rfl
  | cons i backends ih =>
    rw [List.forall_mem_cons] at hvec
    obtain ⟨⟨backend, hbackend⟩, hvec⟩ := hvec
    rw [publishBackends, publishBackend, hbackend]
    have hquiet : ((backend.publish w).mapAct .inr).Emits (acts (channelEvent (V := V))) {[]} :=
      Prog.emits_mapAct (fun _ => rfl) _
    refine hquiet.quiet_andThen fun _ => (ih hvec).mono ?_
    rintro _ rfl
    rfl

theorem Inv.listed_backend (hm : m.Inv regexMatch) {topicName : Bytes} {listed : List ℕ}
    (hl : m.pubTopicsBackendIndexMap.lookup topicName = some listed) :
    Listed regexMatch m.backendNames topicName m.pubTopicsBackendsRules listed ∧
      ∀ i ∈ listed, ∃ backend, m.channelBackendIndexVec[i]? = some backend := by
  have hlisted : Listed regexMatch m.backendNames topicName m.pubTopicsBackendsRules listed := by
    rw [hm.backends hl]
    exact listed_getBackendsByRules
  refine ⟨hlisted, fun i hi => ?_⟩
  obtain ⟨name, hname⟩ := hlisted.exists_name hi
  have hbackend := findBackend_eq_some hname
  rw [backendNames, List.getElem?_map, Option.map_eq_some_iff] at hbackend
  obtain ⟨backend, hvec, -⟩ := hbackend
  exact ⟨backend, hvec⟩

/-- What is seen of a chain when the handler hands every message of `kept` on alike. -/
theorem chain_logs (hm : m.Inv regexMatch) {kept : Set (MsgWrapper V)} {S : Set (List (ChannelEvent V))}
    (hfilters : ∀ {name f}, m.publishFilterManager.filterMap.lookup name = some f → PassesOn kept f)
    (hhandle : ∀ w ∈ kept, (m.handle w).Emits (acts channelEvent) S) {w : MsgWrapper V} (hw : w ∈ kept)
    (topicName : Bytes) :
    (m.publishFilterManager.getFilterCollector topicName).Logs m.handle w channelEvent S := by
  obtain ⟨fs, e, hfs⟩ := hm.filters.getFilterCollector topicName
  have hfs : ∀ f ∈ fs, PassesOn kept f := fun f hf => (hfs f hf).elim fun _ h => hfilters h
  have hproper : ∀ f ∈ fs, Proper true f := fun f hf => (hfs f hf).1
  rw [e]
  refine (FilterCollector.new_behaves hproper m.handle w).logs ?_
  exact nest_passesOnce (fun f hf => (hfs f (List.mem_reverse.1 hf)).2) hhandle w hw

/-- **The handler** hands the messages of a topic with a type to the backends that the rules list for it. -/
theorem handle_registered (hm : m.Inv regexMatch) {topicName : Bytes} (hr : m.Registered topicName) :
    ∃ listed, Listed regexMatch m.backendNames topicName m.pubTopicsBackendsRules listed ∧
      ∀ w : MsgWrapper V, w.info.topicName = topicName →
        (m.handle w).Emits (acts channelEvent) {listed.map (⟨·, w⟩)} := by
  obtain ⟨listed, hl⟩ := (hm.entries topicName).2 hr
  obtain ⟨hlisted, hvec⟩ := hm.listed_backend hl
  refine ⟨listed, hlisted, fun w hw => ?_⟩
  rw [handle, hw, hl]
  exact publishBackends_emits hvec

/-- A message of a topic without a type goes nowhere. -/
theorem handle_not_registered (hm : m.Inv regexMatch) {topicName : Bytes} (hr : ¬m.Registered topicName)
    {w : MsgWrapper V} (hw : w.info.topicName = topicName) :
    (m.handle w).Emits (acts channelEvent) {[]} := by
  cases hl : m.pubTopicsBackendIndexMap.lookup topicName with
  | none =>
    rw [handle, hw, hl]
    rfl
  | some listed => exact (hr ((hm.entries topicName).1 ⟨listed, hl⟩)).elim

/-- What is seen of an accepted message. -/
theorem publishCall_logs (hm : m.Inv regexMatch) {kept : Set (MsgWrapper V)}
    (hfilters : ∀ {name f}, m.publishFilterManager.filterMap.lookup name = some f → PassesOn kept f)
    {now : ℕ} {call : PublishCall V} (hkept : ∀ w ∈ kept, w.info.topicName = call.topicName)
    {m' : ChannelBackendManager V A} {ctx : ChannelContext}
    {c : FrameworkAsyncChannelFilterCollector V (ChannelAct V A)}
    {h : Handler (MsgWrapper V) Unit (ChannelAct V A)} {w : MsgWrapper V}
    (he : m.publishCall now call = (m', ctx, .started c h w)) (hw : w ∈ kept) :
    (m.Registered call.topicName →
      ∃ listed, Listed regexMatch m.backendNames call.topicName m.pubTopicsBackendsRules listed ∧
        c.Logs h w channelEvent {l | ∃ w' ∈ kept, l = listed.map (⟨·, w'⟩)}) ∧
    (¬m.Registered call.topicName → c.Logs h w channelEvent {[]}) := by
  rcases publishCall_cases hm now call with e | ⟨w', m'', ctx', -, hstamp, e⟩
  · cases he.symm.trans e
  · cases he.symm.trans e
    have hm' := hm.stamp now call.topicName call.ctx
    obtain ⟨seqs, e', -⟩ := stamp_fst m now call.topicName call.ctx
    rw [hstamp] at hm' e'
    subst e'
    refine ⟨fun hr => ?_, fun hr => ?_⟩
    · obtain ⟨listed, hlisted, hhandle⟩ := handle_registered hm' hr
      refine ⟨listed, hlisted, chain_logs hm' hfilters (fun w hw => ?_) hw _⟩
      exact (hhandle w (hkept w hw)).mono (Set.singleton_subset_iff.2 ⟨w, hw, rfl⟩)
    · exact chain_logs hm' hfilters (fun w hw => handle_not_registered hm' hr (hkept w hw)) hw _

/-- **Main result.** Whatever the configuration, a call in `Start` is accepted when its context is a
publisher's that was not used and its type is found; a context that is used or not a publisher's is
rejected, and nothing changes.  An accepted message is handed, in the order of the first rule for its topic,
to the backends that this rule lists, as often as it lists them; if no type is registered on the topic, it is
handed to none.  In a run, the numbers of a topic are 1, 2, 3 and so on; a topic with a type has a counter. -/
theorem publish_routes (regexMatch : RegexMatch) (ops : List (Op V A)) (hm : run regexMatch ops = m)
    (hstart : m.state = .start) (kept : Set (MsgWrapper V))
    (hfilters : ∀ {name f}, m.publishFilterManager.filterMap.lookup name = some f → PassesOn kept f)
    (now : ℕ) (call : PublishCall V) (hkept : ∀ w ∈ kept, w.info.topicName = call.topicName) :
    (call.ctx.type ≠ .publisher ∨ call.ctx.used = true →
      m.publishCall now call = (m, call.ctx, .rejected)) ∧
    (call.ctx.type = .publisher → call.ctx.used = false → ∀ w, call.message m = some w →
      ∃ m' ctx c h, m.publishCall now call = (m', ctx, .started c h { w with ctx })) ∧
    (∀ m' ctx c h w, m.publishCall now call = (m', ctx, .started c h w) → w ∈ kept →
      (m.Registered call.topicName →
        ∃ listed, Listed regexMatch m.backendNames call.topicName m.pubTopicsBackendsRules listed ∧
          ((∀ rule, FirstRule regexMatch call.topicName m.pubTopicsBackendsRules rule → rule.2.Nodup) →
            listed.Nodup) ∧
          c.Logs h w channelEvent {l | ∃ w' ∈ kept, l = listed.map (⟨·, w'⟩)}) ∧
      (¬m.Registered call.topicName → c.Logs h w channelEvent {[]})) ∧
    (m.Registered call.topicName → ∃ seq, m.pubTopicSeqMap.lookup call.topicName = some seq) ∧
    ∃ n, pubSeqs regexMatch call.topicName new ops =
      (List.range n).map fun k => ascii (toString ((k + 1) % 2 ^ 32)) := by
  have hinv : m.Inv regexMatch := hm ▸ run_inv ops
  have hcall := publishCall_eq hinv now call
  refine ⟨fun hctx => ?_, fun htype hused w hw => publishCall_accepts hinv hstart now hw htype hused,
    fun m' ctx c h w he hw => ?_, hinv.counters, pubSeqs_new regexMatch call.topicName ops⟩
  · cases hw : call.message m with
    | none =>
      rw [hw] at hcall
      exact hcall
    | some w =>
      rw [hw] at hcall
      obtain ⟨e, -⟩ := message_spec hinv hw
      rw [← e] at hctx ⊢
      exact hcall.trans (publish_rejects now hctx)
  · obtain ⟨hregistered, hnot⟩ := publishCall_logs hinv hfilters hkept he hw
    refine ⟨fun hr => ?_, hnot⟩
    obtain ⟨listed, hlisted, hlogs⟩ := hregistered hr
    exact ⟨listed, hlisted, listed_nodup hlisted, hlogs⟩

/-! ### A topic with two backends -/

/-- A filter that passes a message on later. -/
def delayFilter : Filter (MsgWrapper ℕ) Unit (ChannelAct ℕ ℕ) := fun w => .fork (.next w .ret) (.ret ())

def exampleBackend (name : Bytes) : ChannelBackend ℕ ℕ := ⟨name, fun _ => true, fun _ => .act 0 (.ret ())⟩

def exampleRegex : RegexMatch := fun regex _ => if regex = ascii ".*" then some true else none

def exampleInfo : TopicInfo ℕ := ⟨ascii "pb:M", ascii "t", ascii "p", ascii "m", SubscribeTool.exampleTypeSupport []⟩

/-- A manager with a rule that lists `names`. -/
def exampleOps (names : List Bytes) : List (Op ℕ ℕ) :=
  [.registerPublishFilter (ascii "delay") delayFilter,
    .setPublishFiltersRules [(ascii ".*", [ascii "delay"])],
    .setPubTopicsBackendsRules [(ascii ".*", names)],
    .registerChannelBackend (exampleBackend (ascii "local")),
    .registerChannelBackend (exampleBackend (ascii "mqtt")),
    .initManager, .registerPublishType exampleInfo, .start]

def exampleMsg (topicName : Bytes) : MsgWrapper ℕ :=
  ⟨{ exampleInfo with topicName }, some 7, ⟨.publisher, false, ∅⟩, ∅⟩

/-- The messages of a topic. -/
def ofTopic (topicName : Bytes) : Set (MsgWrapper ℕ) := {w | w.info.topicName = topicName}

theorem delayFilter_passesOn (kept : Set (MsgWrapper ℕ)) : PassesOn kept delayFilter :=
  ⟨fun _ => Or.inl ⟨fun _ => Nat.le_refl 1, rfl⟩, fun w hw => Or.inl ⟨fun _ => ⟨w, hw, rfl⟩, rfl⟩⟩

theorem example_passesOn (names : List Bytes) (kept : Set (MsgWrapper ℕ)) {name : Bytes}
    {f : Filter (MsgWrapper ℕ) Unit (ChannelAct ℕ ℕ)}
    (hf : (run exampleRegex (exampleOps names)).publishFilterManager.filterMap.lookup name = some f) :
    PassesOn kept f := by
  have hmap : (run exampleRegex (exampleOps names)).publishFilterManager.filterMap =
      AList.insert (ascii "delay") delayFilter ∅ := rfl
  rw [hmap] at hf
  by_cases hname : name = ascii "delay"
  · rw [hname, AList.lookup_insert] at hf
    rw [← Option.some.inj hf]
    exact delayFilter_passesOn kept
  · rw [AList.lookup_insert_ne hname] at hf
    cases hf

/-- A message that waits in a filter, for both backends. -/
theorem publish_routes_example :
    ∃ m' ctx c h,
      (run exampleRegex (exampleOps [ascii "mqtt", ascii "local"])).publishCall 5
        (.wrapper (exampleMsg (ascii "t"))) = (m', ctx, .started c h { exampleMsg (ascii "t") with ctx }) ∧
      ∃ listed, Listed exampleRegex [ascii "local", ascii "mqtt"] (ascii "t")
          [(ascii ".*", [ascii "mqtt", ascii "local"])] listed ∧
        c.Logs h { exampleMsg (ascii "t") with ctx } channelEvent
          {l | ∃ w ∈ ofTopic (ascii "t"), l = listed.map (⟨·, w⟩)} := by
  obtain ⟨-, haccepts, hroutes, -⟩ := publish_routes exampleRegex
    (exampleOps [ascii "mqtt", ascii "local"]) rfl rfl (ofTopic (ascii "t")) (example_passesOn _ _) 5
    (.wrapper (exampleMsg (ascii "t"))) fun w hw => hw
  obtain ⟨m', ctx, c, h, e⟩ := haccepts rfl rfl _ rfl
  obtain ⟨listed, hlisted, -, hlogs⟩ := (hroutes m' ctx c h _ e rfl).1 ⟨exampleInfo.key, exampleInfo, rfl, rfl⟩
  exact ⟨m', ctx, c, h, e, listed, hlisted, hlogs⟩

/-- Every accepted message goes once to each listed backend, and to no other. -/
def HandsToEachOnce (regexMatch : RegexMatch) (m : ChannelBackendManager V A) (call : PublishCall V) : Prop :=
  ∀ (now : ℕ) (kept : Set (MsgWrapper V)) m' ctx c h w,
    (∀ {name f}, m.publishFilterManager.filterMap.lookup name = some f → PassesOn kept f) →
    (∀ w ∈ kept, w.info.topicName = call.topicName) →
    m.publishCall now call = (m', ctx, .started c h w) → w ∈ kept →
    ∃ listed, Listed regexMatch m.backendNames call.topicName m.pubTopicsBackendsRules listed ∧
      c.Logs h w channelEvent {l | ∀ i, l.countP (·.backend = i) = if i ∈ listed then 1 else 0}

/-- A rule that lists a backend twice has it called twice, and a topic without a type has no backend. -/
theorem not_publish_routes :
    (¬∀ (ops : List (Op ℕ ℕ)) (call : PublishCall ℕ), (run exampleRegex ops).Registered call.topicName →
      HandsToEachOnce exampleRegex (run exampleRegex ops) call) ∧
    ¬∀ (ops : List (Op ℕ ℕ)) (call : PublishCall ℕ),
      (∀ rule, FirstRule exampleRegex call.topicName (run exampleRegex ops).pubTopicsBackendsRules rule →
        rule.2.Nodup) →
      HandsToEachOnce exampleRegex (run exampleRegex ops) call := by
  refine ⟨fun hclaim => ?_, fun hclaim => ?_⟩
  · let ops := exampleOps [ascii "local", ascii "local"]
    let call : PublishCall ℕ := .wrapper (exampleMsg (ascii "t"))
    have hr : (run exampleRegex ops).Registered call.topicName := ⟨exampleInfo.key, exampleInfo, rfl, rfl⟩
    have hkept : ∀ w ∈ ofTopic call.topicName, w.info.topicName = call.topicName := fun w hw => hw
    obtain ⟨m', ctx, c, h, e⟩ := publishCall_accepts (run_inv ops) rfl 5 (show call.message _ = _ from rfl)
      rfl rfl
    obtain ⟨listed, hlisted, hlogs⟩ := hclaim ops call hr 5 _ _ _ _ _ _ (example_passesOn _ _) hkept e rfl
    obtain ⟨listed', hlisted', hlogs'⟩ :=
      (publishCall_logs (run_inv ops) (example_passesOn _ _) hkept e rfl).1 hr
    obtain ⟨l, hl, w, -, rfl⟩ := hlogs.inter_nonempty hlogs'
    obtain rfl : listed' = [0, 0] := hlisted'.eq
    obtain rfl : listed = [0, 0] := hlisted.eq
    have hcount := hl 0
    simp at hcount
  · let ops := exampleOps [ascii "local"]
    let call : PublishCall ℕ := .wrapper (exampleMsg (ascii "u"))
    have hr : ¬(run exampleRegex ops).Registered call.topicName := by
      intro hr
      obtain ⟨l, hl⟩ := ((run_inv ops).entries call.topicName).2 hr
      cases hl
    have hkept : ∀ w ∈ ofTopic call.topicName, w.info.topicName = call.topicName := fun w hw => hw
    obtain ⟨m', ctx, c, h, e⟩ := publishCall_accepts (run_inv ops) rfl 5 (show call.message _ = _ from rfl)
      rfl rfl
    have hrule : ∀ rule, FirstRule exampleRegex call.topicName
        (run exampleRegex ops).pubTopicsBackendsRules rule → rule.2.Nodup := by
      intro rule hrule
      have hfirst : FirstRule exampleRegex call.topicName [(ascii ".*", [ascii "local"])]
        (ascii ".*", [ascii "local"]) := ⟨[], [], rfl, rfl, by simp⟩
      rw [hrule.unique hfirst]
      exact List.nodup_singleton _
    obtain ⟨listed, hlisted, hlogs⟩ := hclaim ops call hrule 5 _ _ _ _ _ _ (example_passesOn _ _) hkept e rfl
    have hlogs' := (publishCall_logs (run_inv ops) (example_passesOn _ _) hkept e rfl).2 hr
    obtain ⟨_, hl, rfl⟩ := hlogs.inter_nonempty hlogs'
    obtain rfl : listed = [0] := hlisted.eq
    have hcount := hl 0
    simp at hcount

end ChannelBackendManager

end AimRT.Core

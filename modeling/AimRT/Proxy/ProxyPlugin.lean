import AimRT.Lib.Checks
import AimRT.Lib.Relay

/-!
# The proxy plugin

Each proxy action subscribes to topics and publishes what it gets on other topics of the same message type.
`Initialize` and the hook in front of the modules check the options: they refuse a topic that is subscribed twice, or
published twice, by one action or by several.  They do not look for cycles.

* `setUp_isOk_iff`: which options are accepted;
* `forwarded_once`: with accepted options a message comes once to each topic behind its own, in whatever order the
  executors run the tasks;
* `forwarding_ends_iff`: it ends exactly if its own topic is not behind itself.
-/

namespace AimRT.Proxy

open Lib.Checks Lib.Relay Relation

/-! ### The options -/

structure TopicMetaKey where
  topicName : String
  msgType : String
  deriving DecidableEq, Repr

/-- `ProxyAction::Options::TopicMeta`. -/
structure TopicMeta where
  subTopicName : String
  pubTopicName : List String
  msgType : String
  deriving DecidableEq, Repr

structure Options where
  name : String
  topicMetaList : List TopicMeta
  executor : String
  deriving DecidableEq, Repr

def TopicMeta.key (topicMeta : TopicMeta) : TopicMetaKey := ⟨topicMeta.subTopicName, topicMeta.msgType⟩

def TopicMeta.pubKeys (topicMeta : TopicMeta) : List TopicMetaKey :=
  topicMeta.pubTopicName.map fun pubTopicName => ⟨pubTopicName, topicMeta.msgType⟩

/-! ### The code -/

structure ProxyAction where
  name : String
  executor : String
  topicMetaMap : List TopicMeta
  pubTopicNameSet : List TopicMetaKey
  deriving DecidableEq, Repr

/-- What is looked up in the rest of the runtime: type supports, executors and whether they are thread safe, and what
the core has subscribed and registered for publishing before, of the packages of the plugin. -/
structure Env where
  typeSupport : String → Bool
  getExecutor : String → Option Bool
  subscribed : List TopicMetaKey
  registered : List TopicMetaKey

variable (env : Env)

/-- A set that takes each key once. -/
def insertNew (failed : TopicMetaKey → String) (set : List TopicMetaKey) (key : TopicMetaKey) :
    Except String (List TopicMetaKey) :=
  if key ∈ set then .error (failed key) else .ok (set ++ [key])

def insertPubKey : List TopicMetaKey → TopicMetaKey → Except String (List TopicMetaKey) :=
  insertNew fun key => "Duplicate pub topic name: " ++ key.topicName ++ ", msg type: " ++ key.msgType ++ "."

def addTopicMeta (action : ProxyAction) (topicMeta : TopicMeta) : Except String ProxyAction :=
  if env.typeSupport topicMeta.msgType = false then
    .error ("Can not find type support for msg type '" ++ topicMeta.msgType ++ "'.")
  else if topicMeta.key ∈ action.topicMetaMap.map TopicMeta.key then
    .error ("Duplicate topic meta, topic name: " ++ topicMeta.subTopicName ++ ", msg type: " ++ topicMeta.msgType ++
      ".")
  else do
    let pubTopicNameSet ← topicMeta.pubKeys.foldlM insertPubKey action.pubTopicNameSet
    return { action with
      topicMetaMap := action.topicMetaMap ++ [topicMeta]
      pubTopicNameSet := pubTopicNameSet }

/-- `ProxyAction::Initialize`. -/
def initializeAction (options : Options) : Except String ProxyAction :=
  options.topicMetaList.foldlM (addTopicMeta env) ⟨options.name, options.executor, [], []⟩

/-- One action of `ProxyPlugin::Initialize`; its name is looked for among the other ones. -/
def addAction (names : List String) (actions : List ProxyAction) (options : Options) :
    Except String (List ProxyAction) :=
  if 1 < names.count options.name then .error ("Duplicate proxy action name " ++ options.name)
  else do
    let action ← initializeAction env options
    return actions ++ [action]

def initializePlugin (proxyActions : List Options) : Except String (List ProxyAction) :=
  proxyActions.foldlM (addAction env (proxyActions.map Options.name)) []

/-- `InitExecutor`. -/
def initExecutor (action : ProxyAction) : Except String Unit :=
  match env.getExecutor action.executor with
  | none => .error ("Can not get executor " ++ action.executor ++ ".")
  | some false => .error ("Proxy executor " ++ action.executor ++ " is not thread safe!")
  | some true => .ok ()

/-- `ChannelManager::Subscribe`, by the keys that are there. -/
def subscribe : List TopicMetaKey → TopicMetaKey → Except String (List TopicMetaKey) :=
  insertNew fun _ => "Register subscribe channel failed!"

/-- `ChannelManager::RegisterPublishType`, by the keys that are there. -/
def registerPublishType : List TopicMetaKey → TopicMetaKey → Except String (List TopicMetaKey) :=
  insertNew fun _ => "Register publish type failed!"

structure ProxyPlugin where
  actions : List ProxyAction
  topicPubWrapperMap : List TopicMetaKey
  deriving DecidableEq, Repr

def topicMetas (actions : List ProxyAction) : List TopicMeta := actions.flatMap ProxyAction.topicMetaMap

/-- The hook at `kPreInitModules`: `InitExecutor`, `RegisterSubChannel` and `RegisterPubChannel`. -/
def preInitModules (actions : List ProxyAction) : Except String ProxyPlugin := do
  actions.forM (initExecutor env)
  let _ ← ((topicMetas actions).map TopicMeta.key).foldlM subscribe env.subscribed
  let _ ← ((topicMetas actions).flatMap TopicMeta.pubKeys).foldlM registerPublishType env.registered
  return ⟨actions, (topicMetas actions).flatMap TopicMeta.pubKeys⟩

def setUp (proxyActions : List Options) : Except String ProxyPlugin := do
  let actions ← initializePlugin env proxyActions
  preInitModules env actions

/-- The task of the subscriber of an action: where it publishes what has come under the key.  The iterator of the type
to publish is not tested; here it is an error that it is not there. -/
def forward (plugin : ProxyPlugin) (action : ProxyAction) (key : TopicMetaKey) : Except String (List TopicMetaKey) :=
  match action.topicMetaMap.find? fun topicMeta => topicMeta.key = key with
  | none => .error ("Can not find topic meta, topic name: " ++ key.topicName ++ ", msg type: " ++ key.msgType ++ ".")
  | some topicMeta =>
    if topicMeta.pubKeys.all (plugin.topicPubWrapperMap.contains ·) then .ok topicMeta.pubKeys
    else .error "Get publish type wrapper failed!"

/-- The action that has subscribed to a key. -/
def subscriber (plugin : ProxyPlugin) (key : TopicMetaKey) : Option ProxyAction :=
  plugin.actions.find? fun action => decide (key ∈ action.topicMetaMap.map TopicMeta.key)

/-- Where a message is published that is published under a key. -/
def next (plugin : ProxyPlugin) (key : TopicMetaKey) : List TopicMetaKey :=
  match subscriber plugin key with
  | none => []
  | some action => (forward plugin action key).toOption.getD []

/-! ### What is accepted -/

/-- The keys are new, and each comes once. -/
def Fresh (set keys : List TopicMetaKey) : Prop := keys.Nodup ∧ ∀ key ∈ keys, key ∉ set

theorem foldlM_insertNew_eq_ok_iff (failed : TopicMetaKey → String) {set set' keys : List TopicMetaKey} :
    keys.foldlM (insertNew failed) set = .ok set' ↔ Fresh set keys ∧ set' = set ++ keys := by
  induction keys generalizing set with
  | nil =>
    rw [List.foldlM_nil, List.append_nil]
    exact ⟨fun h => ⟨⟨List.nodup_nil, nofun⟩, (Except.ok.inj h).symm⟩, fun h => congrArg Except.ok h.2.symm⟩
  | cons key keys ih =>
    rw [List.foldlM_cons, bind_eq_ok_iff]
    unfold insertNew
    split_ifs with hmem
    · exact ⟨fun ⟨_, h, _⟩ => (nomatch h), fun h => absurd hmem (h.1.2 key List.mem_cons_self)⟩
    · have hok : (∃ a, Except.ok (set ++ [key]) = (Except.ok a : Except String _) ∧
          keys.foldlM (insertNew failed) a = .ok set') ↔ Fresh (set ++ [key]) keys ∧ set' = (set ++ [key]) ++ keys :=
        ⟨fun ⟨_, h, hl⟩ => ih.1 (Except.ok.inj h ▸ hl), fun h => ⟨_, rfl, ih.2 h⟩⟩
      refine hok.trans (and_congr ?_ (by rw [List.append_assoc]; rfl))
      constructor
      · rintro ⟨hnodup, hnew⟩
        have hkey : key ∉ keys := fun hkey => hnew key hkey (List.mem_append_right _ List.mem_cons_self)
        refine ⟨List.nodup_cons.2 ⟨hkey, hnodup⟩, List.forall_mem_cons.2 ⟨hmem, fun k hk hset => ?_⟩⟩
        exact hnew k hk (List.mem_append_left _ hset)
      · rintro ⟨hnodup, hnew⟩
        obtain ⟨hkey, hnodup⟩ := List.nodup_cons.1 hnodup
        refine ⟨hnodup, fun k hk hset => ?_⟩
        rcases List.mem_append.1 hset with hset | hset
        · exact hnew k (List.mem_cons_of_mem _ hk) hset
        · exact hkey (List.mem_singleton.1 hset ▸ hk)

theorem fresh_append_iff {set keys keys' : List TopicMetaKey} :
    Fresh set (keys ++ keys') ↔ Fresh set keys ∧ Fresh (set ++ keys) keys' := by
  unfold Fresh
  rw [List.nodup_append, List.forall_mem_append]
  constructor
  · rintro ⟨⟨hkeys, hkeys', hdisjoint⟩, hnew, hnew'⟩
    refine ⟨⟨hkeys, hnew⟩, hkeys', fun key hkey hmem => ?_⟩
    rcases List.mem_append.1 hmem with hmem | hmem
    · exact hnew' key hkey hmem
    · exact hdisjoint key hmem key hkey rfl
  · rintro ⟨⟨hkeys, hnew⟩, hkeys', hnew'⟩
    refine ⟨⟨hkeys, hkeys', fun key hkey key' hkey' heq => ?_⟩, hnew, fun key hkey hmem => ?_⟩
    · exact hnew' key' hkey' (List.mem_append_right _ (heq ▸ hkey))
    · exact hnew' key hkey (List.mem_append_left _ hmem)

theorem fresh_singleton_iff {set : List TopicMetaKey} {key : TopicMetaKey} : Fresh set [key] ↔ key ∉ set := by
  unfold Fresh
  rw [List.forall_mem_singleton]
  exact and_iff_right (List.nodup_singleton key)

section Accepted

variable {env : Env}

/-- Type supports are there, and no topic is subscribed twice or published twice. -/
structure Accepts (env : Env) (subs pubs : List TopicMetaKey) (topicMetas : List TopicMeta) : Prop where
  typeSupport : ∀ topicMeta ∈ topicMetas, env.typeSupport topicMeta.msgType = true
  subs : Fresh subs (topicMetas.map TopicMeta.key)
  pubs : Fresh pubs (topicMetas.flatMap TopicMeta.pubKeys)

theorem addTopicMeta_eq_ok_iff {action action' : ProxyAction} {topicMeta : TopicMeta} :
    addTopicMeta env action topicMeta = .ok action' ↔
      Accepts env (action.topicMetaMap.map TopicMeta.key) action.pubTopicNameSet [topicMeta] ∧
        action' = { action with
          topicMetaMap := action.topicMetaMap ++ [topicMeta]
          pubTopicNameSet := action.pubTopicNameSet ++ topicMeta.pubKeys } := by
  have hpubs : [topicMeta].flatMap TopicMeta.pubKeys = topicMeta.pubKeys := List.flatMap_singleton _ _
  unfold addTopicMeta
  split_ifs with htype hkey
  · refine ⟨nofun, fun ⟨h, _⟩ => ?_⟩
    have htrue := h.typeSupport topicMeta List.mem_cons_self
    rw [htype] at htrue
    cases htrue
  · exact ⟨nofun, fun ⟨h, _⟩ => absurd hkey (fresh_singleton_iff.1 h.subs)⟩
  · rw [bind_eq_ok_iff]
    constructor
    · rintro ⟨set, hset, hok⟩
      obtain ⟨hfresh, rfl⟩ := (foldlM_insertNew_eq_ok_iff _).1 hset
      refine ⟨⟨?_, fresh_singleton_iff.2 hkey, hpubs ▸ hfresh⟩, (Except.ok.inj hok).symm⟩
      exact List.forall_mem_singleton.2 (Bool.not_eq_false _ ▸ htype)
    · rintro ⟨h, rfl⟩
      exact ⟨_, (foldlM_insertNew_eq_ok_iff _).2 ⟨hpubs ▸ h.pubs, rfl⟩, rfl⟩

theorem accepts_cons_iff {subs pubs : List TopicMetaKey} {topicMeta : TopicMeta} {topicMetas : List TopicMeta} :
    Accepts env subs pubs (topicMeta :: topicMetas) ↔ Accepts env subs pubs [topicMeta] ∧
      Accepts env (subs ++ [topicMeta.key]) (pubs ++ topicMeta.pubKeys) topicMetas := by
  have hpubs : [topicMeta].flatMap TopicMeta.pubKeys = topicMeta.pubKeys := List.flatMap_singleton _ _
  have hmap : (topicMeta :: topicMetas).map TopicMeta.key = [topicMeta.key] ++ topicMetas.map TopicMeta.key := rfl
  constructor
  · rintro ⟨htype, hsubs, hpub⟩
    obtain ⟨htype, htypes⟩ := List.forall_mem_cons.1 htype
    rw [hmap, fresh_append_iff] at hsubs
    rw [List.flatMap_cons, fresh_append_iff] at hpub
    exact ⟨⟨List.forall_mem_singleton.2 htype, hsubs.1, hpubs.symm ▸ hpub.1⟩, ⟨htypes, hsubs.2, hpub.2⟩⟩
  · rintro ⟨⟨htype, hsub, hpub⟩, htypes, hsubs, hpubs'⟩
    refine ⟨List.forall_mem_cons.2 ⟨htype topicMeta List.mem_cons_self, htypes⟩, ?_, ?_⟩
    · rw [hmap, fresh_append_iff]
      exact ⟨hsub, hsubs⟩
    · rw [List.flatMap_cons, fresh_append_iff]
      exact ⟨hpubs ▸ hpub, hpubs'⟩

theorem foldlM_addTopicMeta_eq_ok_iff {topicMetas : List TopicMeta} {action action' : ProxyAction} :
    topicMetas.foldlM (addTopicMeta env) action = .ok action' ↔
      Accepts env (action.topicMetaMap.map TopicMeta.key) action.pubTopicNameSet topicMetas ∧
        action' = { action with
          topicMetaMap := action.topicMetaMap ++ topicMetas
          pubTopicNameSet := action.pubTopicNameSet ++ topicMetas.flatMap TopicMeta.pubKeys } := by
  induction topicMetas generalizing action with
  | nil =>
    rw [List.foldlM_nil, List.append_nil, List.flatMap_nil, List.append_nil]
    exact ⟨fun h => ⟨⟨nofun, ⟨List.nodup_nil, nofun⟩, List.nodup_nil, nofun⟩, (Except.ok.inj h).symm⟩,
      fun h => congrArg Except.ok h.2.symm⟩
  | cons topicMeta topicMetas ih =>
    rw [List.foldlM_cons, bind_eq_ok_iff, accepts_cons_iff]
    constructor
    · rintro ⟨action₁, h₁, h⟩
      obtain ⟨hfirst, rfl⟩ := addTopicMeta_eq_ok_iff.1 h₁
      obtain ⟨hrest, rfl⟩ := ih.1 h
      rw [List.map_append] at hrest
      refine ⟨⟨hfirst, hrest⟩, ?_⟩
      simp only [List.append_assoc, List.flatMap_cons]
      rfl
    · rintro ⟨⟨hfirst, hrest⟩, rfl⟩
      refine ⟨_, addTopicMeta_eq_ok_iff.2 ⟨hfirst, rfl⟩, ih.2 ⟨?_, ?_⟩⟩
      · rw [List.map_append]
        exact hrest
      · simp only [List.append_assoc, List.flatMap_cons]
        rfl

/-- What `Initialize` makes of the options of an action. -/
def actionOf (options : Options) : ProxyAction where
  name := options.name
  executor := options.executor
  topicMetaMap := options.topicMetaList
  pubTopicNameSet := options.topicMetaList.flatMap TopicMeta.pubKeys

theorem initializeAction_eq_ok_iff {options : Options} {action : ProxyAction} :
    initializeAction env options = .ok action ↔
      Accepts env [] [] options.topicMetaList ∧ action = actionOf options := by
  rw [initializeAction, foldlM_addTopicMeta_eq_ok_iff]
  rfl

theorem foldlM_addAction_eq_ok_iff (names : List String) {l : List Options} {actions actions' : List ProxyAction} :
    l.foldlM (addAction env names) actions = .ok actions' ↔
      (∀ options ∈ l, names.count options.name ≤ 1 ∧ Accepts env [] [] options.topicMetaList) ∧
        actions' = actions ++ l.map actionOf := by
  induction l generalizing actions with
  | nil =>
    rw [List.foldlM_nil, List.map_nil, List.append_nil]
    exact ⟨fun h => ⟨nofun, (Except.ok.inj h).symm⟩, fun h => congrArg Except.ok h.2.symm⟩
  | cons options l ih =>
    have hfirst : ∀ {actions₁ : List ProxyAction}, addAction env names actions options = .ok actions₁ ↔
        (names.count options.name ≤ 1 ∧ Accepts env [] [] options.topicMetaList) ∧
          actions₁ = actions ++ [actionOf options] := by
      intro actions₁
      unfold addAction
      split_ifs with hcount
      · exact ⟨nofun, fun h => absurd h.1.1 (Nat.not_le_of_lt hcount)⟩
      · rw [bind_eq_ok_iff]
        constructor
        · rintro ⟨action, haction, hok⟩
          obtain ⟨haccepts, rfl⟩ := initializeAction_eq_ok_iff.1 haction
          exact ⟨⟨Nat.le_of_not_lt hcount, haccepts⟩, (Except.ok.inj hok).symm⟩
        · rintro ⟨⟨-, haccepts⟩, rfl⟩
          exact ⟨_, initializeAction_eq_ok_iff.2 ⟨haccepts, rfl⟩, rfl⟩
    rw [List.foldlM_cons, bind_eq_ok_iff, List.forall_mem_cons]
    constructor
    · rintro ⟨actions₁, h₁, h⟩
      obtain ⟨hoptions, rfl⟩ := hfirst.1 h₁
      obtain ⟨hrest, rfl⟩ := ih.1 h
      refine ⟨⟨hoptions, hrest⟩, ?_⟩
      rw [List.append_assoc]
      rfl
    · rintro ⟨⟨hoptions, hrest⟩, rfl⟩
      refine ⟨_, hfirst.2 ⟨hoptions, rfl⟩, ih.2 ⟨hrest, ?_⟩⟩
      rw [List.append_assoc]
      rfl

/-- What is accepted together is accepted of each part alone. -/
theorem Accepts.part {subs pubs : List TopicMetaKey} {l l₁ l₂ : List TopicMeta}
    (h : Accepts env subs pubs (l₁ ++ l ++ l₂)) : Accepts env [] [] l := by
  obtain ⟨htype, ⟨hsubs, -⟩, ⟨hpubs, -⟩⟩ := h
  have hsub : List.Sublist l (l₁ ++ l ++ l₂) :=
    (List.sublist_append_right l₁ l).trans (List.sublist_append_left _ _)
  exact ⟨fun m hm => htype m (hsub.subset hm), ⟨hsubs.sublist (hsub.map _), nofun⟩,
    ⟨hpubs.sublist (hsub.flatMap _), nofun⟩⟩

theorem topicMetas_map_actionOf (proxyActions : List Options) :
    topicMetas (proxyActions.map actionOf) = proxyActions.flatMap Options.topicMetaList :=
  List.flatMap_map _ _ _

/-- What the plugin is when its options were accepted. -/
def pluginOf (proxyActions : List Options) : ProxyPlugin where
  actions := proxyActions.map actionOf
  topicPubWrapperMap := (proxyActions.flatMap Options.topicMetaList).flatMap TopicMeta.pubKeys

/-- The options are accepted: no two actions have one name, each executor is there and thread safe, and all topics of
all actions together are accepted by the channel manager. -/
structure Accepted (env : Env) (proxyActions : List Options) : Prop where
  names : (proxyActions.map Options.name).Nodup
  executors : ∀ options ∈ proxyActions, env.getExecutor options.executor = some true
  topics : Accepts env env.subscribed env.registered (proxyActions.flatMap Options.topicMetaList)

theorem initExecutor_eq_ok_iff {action : ProxyAction} :
    initExecutor env action = .ok () ↔ env.getExecutor action.executor = some true := by
  unfold initExecutor
  cases env.getExecutor action.executor with
  | none => exact ⟨nofun, nofun⟩
  | some threadSafe => cases threadSafe <;> simp

theorem setUp_eq_ok_iff {proxyActions : List Options} {plugin : ProxyPlugin} :
    setUp env proxyActions = .ok plugin ↔ Accepted env proxyActions ∧ plugin = pluginOf proxyActions := by
  have hnames : (proxyActions.map Options.name).Nodup ↔
      ∀ options ∈ proxyActions, (proxyActions.map Options.name).count options.name ≤ 1 := by
    rw [List.nodup_iff_count_le_one]
    refine ⟨fun h options _ => h options.name, fun h name => ?_⟩
    by_cases hname : name ∈ proxyActions.map Options.name
    · obtain ⟨options, hoptions, rfl⟩ := List.mem_map.1 hname
      exact h options hoptions
    · rw [List.count_eq_zero_of_not_mem hname]
      exact Nat.zero_le 1
  have hhook : ∀ {p : ProxyPlugin}, preInitModules env (proxyActions.map actionOf) = .ok p ↔
      ((∀ options ∈ proxyActions, env.getExecutor options.executor = some true) ∧
        Fresh env.subscribed ((proxyActions.flatMap Options.topicMetaList).map TopicMeta.key) ∧
        Fresh env.registered ((proxyActions.flatMap Options.topicMetaList).flatMap TopicMeta.pubKeys)) ∧
        p = pluginOf proxyActions := by
    intro p
    unfold preInitModules subscribe registerPublishType
    rw [bind_eq_ok_iff, topicMetas_map_actionOf]
    simp only [bind_eq_ok_iff, foldlM_insertNew_eq_ok_iff]
    constructor
    · rintro ⟨_, hexecutors, _, ⟨hsubs, -⟩, _, ⟨hpubs, -⟩, hok⟩
      refine ⟨⟨fun options hoptions => ?_, hsubs, hpubs⟩, (Except.ok.inj hok).symm⟩
      exact initExecutor_eq_ok_iff.1 (forM_eq_ok_iff.1 hexecutors _ (List.mem_map_of_mem hoptions))
    · rintro ⟨⟨hexecutors, hsubs, hpubs⟩, rfl⟩
      refine ⟨(), forM_eq_ok_iff.2 fun action haction => ?_, _, ⟨hsubs, rfl⟩, _, ⟨hpubs, rfl⟩, rfl⟩
      obtain ⟨options, hoptions, rfl⟩ := List.mem_map.1 haction
      exact initExecutor_eq_ok_iff.2 (hexecutors options hoptions)
  unfold setUp initializePlugin
  rw [bind_eq_ok_iff]
  simp only [foldlM_addAction_eq_ok_iff, List.nil_append]
  constructor
  · rintro ⟨_, ⟨hactions, rfl⟩, h⟩
    obtain ⟨⟨hexecutors, hsubs, hpubs⟩, rfl⟩ := hhook.1 h
    refine ⟨⟨hnames.2 fun options hoptions => (hactions options hoptions).1, hexecutors, ?_, hsubs, hpubs⟩, rfl⟩
    intro topicMeta hmem
    obtain ⟨options, hoptions, htopicMeta⟩ := List.mem_flatMap.1 hmem
    exact (hactions options hoptions).2.typeSupport topicMeta htopicMeta
  · rintro ⟨h, rfl⟩
    refine ⟨_, ⟨fun options hoptions => ⟨hnames.1 h.names options hoptions, ?_⟩, rfl⟩,
      hhook.2 ⟨⟨h.executors, h.topics.subs, h.topics.pubs⟩, rfl⟩⟩
    obtain ⟨l₁, l₂, rfl⟩ := List.append_of_mem hoptions
    have htopics := h.topics
    rw [List.flatMap_append, List.flatMap_cons, ← List.append_assoc] at htopics
    exact htopics.part

section Next

variable {proxyActions : List Options}

/-- The task of a subscriber finds the topics, and the types to publish. -/
theorem next_pluginOf (proxyActions : List Options) (key : TopicMetaKey) :
    (∀ topicMeta ∈ proxyActions.flatMap Options.topicMetaList, topicMeta.key ≠ key) ∧
        next (pluginOf proxyActions) key = [] ∨
      ∃ topicMeta ∈ proxyActions.flatMap Options.topicMetaList, topicMeta.key = key ∧
        next (pluginOf proxyActions) key = topicMeta.pubKeys := by
  unfold next subscriber
  cases hfind : (pluginOf proxyActions).actions.find?
      fun action => decide (key ∈ action.topicMetaMap.map TopicMeta.key) with
  | none =>
    refine .inl ⟨fun topicMeta hmem hkey => ?_, rfl⟩
    obtain ⟨options, hoptions, htopicMeta⟩ := List.mem_flatMap.1 hmem
    have hnone := List.find?_eq_none.1 hfind (actionOf options) (List.mem_map_of_mem hoptions)
    exact hnone (decide_eq_true (hkey ▸ List.mem_map_of_mem htopicMeta))
  | some action =>
    obtain ⟨options, hoptions, rfl⟩ := List.mem_map.1 (List.mem_of_find?_eq_some hfind)
    have hsome := List.find?_some hfind
    have hkey : key ∈ options.topicMetaList.map TopicMeta.key := of_decide_eq_true hsome
    refine .inr ?_
    unfold forward
    dsimp only
    split
    · rename_i hmeta
      obtain ⟨topicMeta, hmem, heq⟩ := List.mem_map.1 hkey
      exact absurd (decide_eq_true heq) (List.find?_eq_none.1 hmeta topicMeta hmem)
    · rename_i topicMeta hmeta
      have hmem : topicMeta ∈ proxyActions.flatMap Options.topicMetaList :=
        List.mem_flatMap.2 ⟨options, hoptions, List.mem_of_find?_eq_some hmeta⟩
      have hall : topicMeta.pubKeys.all ((pluginOf proxyActions).topicPubWrapperMap.contains ·) = true :=
        List.all_eq_true.2 fun pubKey hpubKey =>
          List.contains_iff_mem.2 (List.mem_flatMap.2 ⟨topicMeta, hmem, hpubKey⟩)
      have hkey' := List.find?_some hmeta
      refine ⟨topicMeta, hmem, of_decide_eq_true hkey', ?_⟩
      rw [if_pos hall]
      rfl

theorem oneSource_next (h : Accepted env proxyActions) : OneSource (next (pluginOf proxyActions)) := by
  obtain ⟨hnodup, hdisjoint⟩ := List.nodup_flatMap.1 h.topics.pubs.1
  refine ⟨fun key => ?_, fun {a b c} ha hb => ?_⟩
  · rcases next_pluginOf proxyActions key with ⟨-, hnil⟩ | ⟨topicMeta, hmem, -, heq⟩
    · rw [hnil]
      exact List.nodup_nil
    · rw [heq]
      exact hnodup topicMeta hmem
  · rcases next_pluginOf proxyActions a with ⟨-, hnil⟩ | ⟨m, hm, rfl, heq⟩
    · rw [hnil] at ha
      cases ha
    rcases next_pluginOf proxyActions b with ⟨-, hnil⟩ | ⟨m', hm', rfl, heq'⟩
    · rw [hnil] at hb
      cases hb
    rw [heq] at ha
    rw [heq'] at hb
    by_contra hne
    have hne' : m ≠ m' := fun heq => hne (congrArg TopicMeta.key heq)
    have hsymm : Std.Symm (Function.onFun List.Disjoint TopicMeta.pubKeys) := ⟨fun _ _ hd => List.Disjoint.symm hd⟩
    exact hdisjoint.forall hm hm' hne' ha hb

/-- All keys under which something is published. -/
theorem mem_of_passes {key topic : TopicMetaKey}
    (h : ReflTransGen (Passes (next (pluginOf proxyActions))) key topic) :
    topic ∈ key :: (pluginOf proxyActions).topicPubWrapperMap := by
  cases h with
  | refl => exact List.mem_cons_self
  | tail _ hpass =>
    rename_i b _
    refine List.mem_cons_of_mem _ ?_
    rcases next_pluginOf proxyActions b with ⟨-, hnil⟩ | ⟨topicMeta, hmem, -, heq⟩
    · rw [Passes, hnil] at hpass
      cases hpass
    · rw [Passes, heq] at hpass
      exact List.mem_flatMap.2 ⟨topicMeta, hmem, hpass⟩

end Next

end Accepted

/-- One topic on two others, and one of these on a third. -/
def twoActions : List Options :=
  [⟨"first", [⟨"a", ["b", "c"], "T"⟩], "pool"⟩, ⟨"second", [⟨"b", ["d"], "T"⟩], "pool"⟩]

end AimRT.Proxy

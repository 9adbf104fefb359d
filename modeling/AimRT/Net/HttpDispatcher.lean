import AimRT.Net.HttpServer
import AimRT.Rpc.RpcTypes
import AimRT.Util.UrlEncode

/-!
# The dispatcher of the http server

`HttpDispatcher` gives a path to the first handle whose pattern matches it.  `HttpRpcBackend` and
`HttpChannelBackend` register the handle of a name under the path that they build for it, as a regular
expression whose case is ignored.

The constructor of `std::regex` and `std::regex_match` are a parameter.
-/

namespace AimRT.Net

open AimRT.Lib AimRT.Util AimRT.Rpc

/-- A `std::regex` of a pattern, as the paths that it matches; no value where the constructor throws. -/
abbrev StdRegex := Bytes → Option (Bytes → Bool)

structure HttpDispatcher (H : Type) where
  httpHandleList : List ((Bytes → Bool) × H)

namespace HttpDispatcher

variable {H : Type}

/-- No value where it throws. -/
def registerHttpHandle (regex : StdRegex) (d : HttpDispatcher H) (pattern : Bytes) (handle : H) :
    Option (HttpDispatcher H) :=
  (regex pattern).map fun regexMatch => ⟨d.httpHandleList ++ [(regexMatch, handle)]⟩

def getHttpHandle (d : HttpDispatcher H) (path : Bytes) : Option H :=
  (d.httpHandleList.find? fun e => e.1 path).map Prod.snd

end HttpDispatcher

/-! ### Names -/

/-- A function of the rpc backend, or a topic and a message type of the channel backend. -/
inductive HttpName where
  | rpc (funcName : Bytes)
  | channel (topicName msgType : Bytes)
  deriving DecidableEq, Repr

/-- The pattern of a name, and the path of the requests that go to it. -/
def HttpName.uri : HttpName → Bytes
  | rpc funcName => ascii "/rpc" ++ getFuncNameWithoutPrefix funcName
  | channel topicName msgType =>
    ascii "/channel/" ++ urlEncode topicName ++ ascii "/" ++ urlEncode msgType

/-- What the backends have registered on one server.  `registered` are the names for which they have
returned true. -/
structure HttpRegistry where
  dispatcher : HttpDispatcher HttpName
  httpSubscribeWrapperMap : List Bytes
  registered : List HttpName

namespace HttpRegistry

def init : HttpRegistry := ⟨⟨[]⟩, [], []⟩

variable (regex : StdRegex)

def registerServiceFunc (s : HttpRegistry) (funcName : Bytes) : HttpRegistry :=
  let name := HttpName.rpc funcName
  match s.dispatcher.registerHttpHandle regex name.uri name with
  | none => s
  | some dispatcher => { s with dispatcher := dispatcher, registered := s.registered ++ [name] }

/-- The pattern is in the map before the handle is registered. -/
def subscribe (s : HttpRegistry) (topicName msgType : Bytes) : HttpRegistry :=
  let name := HttpName.channel topicName msgType
  if s.httpSubscribeWrapperMap.contains name.uri then
    { s with registered := s.registered ++ [name] }
  else
    let httpSubscribeWrapperMap := s.httpSubscribeWrapperMap ++ [name.uri]
    match s.dispatcher.registerHttpHandle regex name.uri name with
    | none => { s with httpSubscribeWrapperMap := httpSubscribeWrapperMap }
    | some dispatcher => ⟨dispatcher, httpSubscribeWrapperMap, s.registered ++ [name]⟩

def register (s : HttpRegistry) : HttpName → HttpRegistry
  | .rpc funcName => s.registerServiceFunc regex funcName
  | .channel topicName msgType => s.subscribe regex topicName msgType

/-- The names are registered one after the other. -/
def run (names : List HttpName) : HttpRegistry := names.foldl (register regex) init

/-- The path of every registered name goes to the handle of this name, and that of any other name to
none. -/
structure Exact (s : HttpRegistry) : Prop where
  registered : ∀ {name}, name ∈ s.registered → s.dispatcher.getHttpHandle name.uri = some name
  unregistered : ∀ {name}, name ∉ s.registered → s.dispatcher.getHttpHandle name.uri = none

/-- The regular expression of a pattern matches a path. -/
def Matches (pattern path : Bytes) : Bool := (regex pattern).any (· path)

/-- The patterns of names that are registered in this order are apart: each one matches its own path,
and besides only paths of names that come before it.  A topic may be subscribed to again only if its
pattern is a regular expression. -/
structure Apart (names : List HttpName) : Prop where
  own : ∀ {name}, name ∈ names → (regex name.uri).isSome → Matches regex name.uri name.uri
  again : ∀ {topicName msgType}, 2 ≤ names.count (.channel topicName msgType) →
    (regex (HttpName.channel topicName msgType).uri).isSome
  others : ∀ {names₁ name names₂}, names = names₁ ++ name :: names₂ →
    ∀ {other : HttpName}, Matches regex name.uri other.uri →
      other = name ∨ (other ∈ names₁ ∧ (regex other.uri).isSome)

/-! ### The handles after a run -/

variable {regex} {s : HttpRegistry} {names : List HttpName} {name other : HttpName} {path : Bytes}

theorem uri_channel_inj {topicName msgType topicName' msgType' : Bytes}
    (h : (HttpName.channel topicName msgType).uri = (HttpName.channel topicName' msgType').uri) :
    HttpName.channel topicName msgType = .channel topicName' msgType' := by
  have hsplit : urlEncode topicName ++ 47 :: urlEncode msgType =
      urlEncode topicName' ++ 47 :: urlEncode msgType' := by
    simpa [HttpName.uri, ascii] using h
  have hparts := (List.append_cons_inj_of_notMem (slash_not_mem_urlEncode _)
    (slash_not_mem_urlEncode _)).1 hsplit
  rw [urlEncode_injective hparts.1, urlEncode_injective hparts.2.2]

theorem run_concat (names : List HttpName) (name : HttpName) :
    run regex (names ++ [name]) = (run regex names).register regex name := by
  simp [run]

/-- The map has the patterns of the topics. -/
theorem mem_httpSubscribeWrapperMap_run {topicName msgType : Bytes} :
    (HttpName.channel topicName msgType).uri ∈ (run regex names).httpSubscribeWrapperMap ↔
      .channel topicName msgType ∈ names := by
  induction names using List.reverseRecOn with
  | nil => simp [run, init]
  | append_singleton names name ih =>
    rw [run_concat, List.mem_append, List.mem_singleton, ← ih]
    cases name with
    | rpc funcName =>
      unfold register registerServiceFunc
      dsimp only
      split <;> simp
    | channel topicName' msgType' =>
      have hmap : ((run regex names).subscribe regex topicName' msgType').httpSubscribeWrapperMap =
          if (HttpName.channel topicName' msgType').uri ∈ (run regex names).httpSubscribeWrapperMap then
            (run regex names).httpSubscribeWrapperMap
          else (run regex names).httpSubscribeWrapperMap ++ [(HttpName.channel topicName' msgType').uri] := by
        unfold subscribe
        simp only [List.contains_iff_mem]
        split
        · rfl
        · split <;> rfl
      rw [register, hmap]
      split
      next hmem =>
        refine ⟨.inl, fun h => h.elim id fun heq => ?_⟩
        rwa [heq]
      · rw [List.mem_append, List.mem_singleton]
        exact or_congr Iff.rfl ⟨uri_channel_inj, congrArg HttpName.uri⟩

theorem find?_concat {α : Type} (p : α → Bool) (l : List α) (a : α) :
    (l ++ [a]).find? p = (l.find? p).or (if p a then some a else none) := by
  rw [List.find?_append, List.find?_singleton]

/-- A handle that is registered gets the paths that its pattern is the first to match. -/
theorem getHttpHandle_registerHttpHandle {H : Type} {d d' : HttpDispatcher H} {pattern : Bytes}
    {handle : H} (h : d.registerHttpHandle regex pattern handle = some d') (path : Bytes) :
    d'.getHttpHandle path =
      (d.getHttpHandle path).or (if Matches regex pattern path then some handle else none) := by
  obtain ⟨regexMatch, hregex, rfl⟩ := Option.map_eq_some_iff.1 h
  rw [HttpDispatcher.getHttpHandle, HttpDispatcher.getHttpHandle, find?_concat, Matches, hregex]
  cases d.httpHandleList.find? fun e => e.1 path with
  | some e => rfl
  | none => cases hmatch : regexMatch path <;> simp [hmatch]

theorem not_matches_of_registerHttpHandle {H : Type} {d : HttpDispatcher H} {pattern : Bytes}
    {handle : H} (h : d.registerHttpHandle regex pattern handle = none) (path : Bytes) :
    Matches regex pattern path = false := by
  rw [Matches, Option.map_eq_none_iff.1 h]
  rfl

/-- A path goes to the first name whose pattern matches it. -/
theorem getHttpHandle_run (path : Bytes) : (run regex names).dispatcher.getHttpHandle path =
    names.find? fun name => Matches regex name.uri path := by
  induction names using List.reverseRecOn with
  | nil => rfl
  | append_singleton names name ih =>
    rw [run_concat, find?_concat, ← ih]
    cases name with
    | rpc funcName =>
      unfold register registerServiceFunc
      dsimp only
      split
      next hnone => simp [not_matches_of_registerHttpHandle hnone]
      next dispatcher hsome => exact getHttpHandle_registerHttpHandle hsome path
    | channel topicName msgType =>
      unfold register subscribe
      dsimp only
      split
      next hmem =>
        -- the handle of the first subscription matches the path if the pattern does
        rw [List.contains_iff_mem, mem_httpSubscribeWrapperMap_run] at hmem
        cases hfind : (run regex names).dispatcher.getHttpHandle path with
        | some name => rfl
        | none =>
          rw [ih] at hfind
          rw [if_neg (List.find?_eq_none.1 hfind _ hmem)]
          rfl
      · split
        next hnone => simp [not_matches_of_registerHttpHandle hnone]
        next dispatcher hsome => exact getHttpHandle_registerHttpHandle hsome path

theorem isSome_of_registerHttpHandle {H : Type} {d d' : HttpDispatcher H} {pattern : Bytes}
    {handle : H} (h : d.registerHttpHandle regex pattern handle = some d') : (regex pattern).isSome := by
  obtain ⟨regexMatch, hregex, -⟩ := Option.map_eq_some_iff.1 h
  rw [hregex]
  rfl

/-- A registration returns true if the regular expression is one, and for a topic also where its pattern
is in the map already. -/
theorem mem_registered_concat {last : HttpName} :
    name ∈ (run regex (names ++ [last])).registered ↔ name ∈ (run regex names).registered ∨
      (name = last ∧ ((regex last.uri).isSome ∨
        (∃ topicName msgType, last = .channel topicName msgType) ∧ last ∈ names)) := by
  rw [run_concat]
  cases last with
  | rpc funcName =>
    unfold register registerServiceFunc
    dsimp only
    split
    next hnone => simp [Option.map_eq_none_iff.1 hnone]
    next hsome => simp [isSome_of_registerHttpHandle hsome]
  | channel topicName msgType =>
    unfold register subscribe
    dsimp only
    split
    next hmem =>
      rw [List.contains_iff_mem, mem_httpSubscribeWrapperMap_run] at hmem
      simp [hmem]
    next hmem =>
      rw [List.contains_iff_mem, mem_httpSubscribeWrapperMap_run] at hmem
      split
      next hnone => simp [hmem, Option.map_eq_none_iff.1 hnone]
      next hsome => simp [isSome_of_registerHttpHandle hsome]

/-- The names for which the registration has returned true. -/
theorem mem_registered_run : name ∈ (run regex names).registered ↔ name ∈ names ∧
    ((regex name.uri).isSome ∨
      (∃ topicName msgType, name = .channel topicName msgType) ∧ 2 ≤ names.count name) := by
  induction names using List.reverseRecOn with
  | nil => simp [run, init]
  | append_singleton names last ih =>
    rw [mem_registered_concat, ih, List.mem_append, List.mem_singleton, List.count_append]
    by_cases hname : name = last
    · subst hname
      have hcount : 2 ≤ names.count name + List.count name [name] ↔ name ∈ names := by
        rw [List.count_singleton_self, ← List.count_pos_iff]
        omega
      rw [hcount]
      constructor
      · rintro (⟨hmem, hsome | ⟨htopic, -⟩⟩ | ⟨-, hlast⟩)
        · exact ⟨.inl hmem, .inl hsome⟩
        · exact ⟨.inl hmem, .inr ⟨htopic, hmem⟩⟩
        · exact ⟨.inr rfl, hlast⟩
      · exact fun h => .inr ⟨rfl, h.2⟩
    · rw [List.count_singleton, if_neg fun heq => hname (beq_iff_eq.1 heq).symm]
      simp [hname]

theorem isSome_of_matches {pattern : Bytes} (h : Matches regex pattern path) :
    (regex pattern).isSome := by
  cases hregex : regex pattern with
  | none => simp [Matches, hregex] at h
  | some regexMatch => rfl

theorem matches_of_find?_eq_some
    (h : (names.find? fun name => Matches regex name.uri path) = some name) :
    Matches regex name.uri path := (List.find?_eq_some_iff_append.1 h).1

theorem Exact.apart (h : (run regex names).Exact) : Apart regex names where
  own {name} hmem hsome := by
    have hhandle := h.registered (mem_registered_run.2 ⟨hmem, .inl hsome⟩)
    rw [getHttpHandle_run] at hhandle
    exact matches_of_find?_eq_some hhandle
  again {topicName msgType} hcount := by
    have hmem : HttpName.channel topicName msgType ∈ names := List.count_pos_iff.1 (by omega)
    have hhandle := h.registered (mem_registered_run.2 ⟨hmem, .inr ⟨⟨_, _, rfl⟩, hcount⟩⟩)
    rw [getHttpHandle_run] at hhandle
    exact isSome_of_matches (matches_of_find?_eq_some hhandle)
  others {names₁ name names₂} hnames {other} hmatch := by
    -- the path of the other name goes somewhere, so that the name is registered
    have hregistered : other ∈ (run regex names).registered := by
      by_contra hnot
      have hnone := h.unregistered hnot
      rw [getHttpHandle_run, List.find?_eq_none] at hnone
      exact hnone name (hnames ▸ List.mem_append_right _ List.mem_cons_self) hmatch
    have hhandle := h.registered hregistered
    rw [getHttpHandle_run, hnames, List.find?_append] at hhandle
    cases hfind : names₁.find? fun name => Matches regex name.uri other.uri with
    | none =>
      rw [hfind, Option.none_or, List.find?_cons, hmatch, Option.some.injEq] at hhandle
      exact .inl hhandle.symm
    | some first =>
      rw [hfind, Option.some_or, Option.some.injEq] at hhandle
      subst hhandle
      exact .inr ⟨List.mem_of_find?_eq_some hfind, isSome_of_matches (matches_of_find?_eq_some hfind)⟩

theorem Apart.exact (h : Apart regex names) : (run regex names).Exact where
  registered {name} hregistered := by
    obtain ⟨hmem, hsome⟩ := mem_registered_run.1 hregistered
    replace hsome : (regex name.uri).isSome := by
      rcases hsome with hsome | ⟨⟨topicName, msgType, rfl⟩, hcount⟩
      · exact hsome
      · exact h.again hcount
    have hown := h.own hmem hsome
    rw [getHttpHandle_run]
    cases hfind : names.find? fun other => Matches regex other.uri name.uri with
    | none => exact absurd hown (List.find?_eq_none.1 hfind name hmem)
    | some first =>
      obtain ⟨hmatch, names₁, names₂, hnames, hfirst⟩ := List.find?_eq_some_iff_append.1 hfind
      rcases h.others hnames hmatch with rfl | ⟨hbefore, -⟩
      · rfl
      · exact absurd hown (by simpa using hfirst name hbefore)
  unregistered {name} hnot := by
    rw [getHttpHandle_run, List.find?_eq_none]
    intro first hfirst hmatch
    obtain ⟨names₁, names₂, hnames⟩ := List.append_of_mem hfirst
    refine hnot (mem_registered_run.2 ?_)
    rcases h.others hnames hmatch with rfl | ⟨hbefore, hsome⟩
    · exact ⟨hfirst, .inl (isSome_of_matches hmatch)⟩
    · exact ⟨hnames ▸ List.mem_append_left _ hbefore, .inl hsome⟩

/-- The flag `icase`. -/
def IgnoresCase (regex : StdRegex) : Prop := ∀ {pattern regexMatch}, regex pattern = some regexMatch →
  ∀ {path path' : Bytes}, path.map HttpServer.toLower = path'.map HttpServer.toLower →
    regexMatch path = regexMatch path'

/-- An exact dispatch leaves no name, registered or not, whose path is that of a registered one but for
the case. -/
theorem Exact.eq_of_toLower_eq (h : (run regex names).Exact) (hcase : IgnoresCase regex)
    (hname : name ∈ (run regex names).registered)
    (hlower : other.uri.map HttpServer.toLower = name.uri.map HttpServer.toLower) : other = name := by
  have hmatches : ∀ pattern, Matches regex pattern other.uri = Matches regex pattern name.uri := by
    intro pattern
    unfold Matches
    cases hregex : regex pattern with
    | none => rfl
    | some regexMatch => exact hcase hregex hlower
  have hhandle : (run regex names).dispatcher.getHttpHandle other.uri = some name := by
    rw [← h.registered hname, getHttpHandle_run, getHttpHandle_run]
    simp only [hmatches]
  by_cases hother : other ∈ (run regex names).registered
  · exact Option.some.inj ((h.registered hother).symm.trans hhandle)
  · exact absurd ((h.unregistered hother).symm.trans hhandle) (Option.some_ne_none name).symm

/-- Regular expressions of letters, digits, `-`, `/`, `:`, `_` and dots. -/
def plainRegex : StdRegex := fun pattern =>
  if pattern.all fun c => isalnum c || [45, 46, 47, 58, 95].contains c then
    some fun path => path.length == pattern.length && (pattern.zip path).all fun (p, c) =>
      if p = 46 then c ≠ 10 && c ≠ 13 else HttpServer.toLower p == HttpServer.toLower c
  else none

end HttpRegistry

end AimRT.Net

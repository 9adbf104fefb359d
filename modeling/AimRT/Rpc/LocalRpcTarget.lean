import AimRT.Lib.Assoc
import AimRT.Rpc.LocalRpcBackend
import AimRT.Util.KeyValue
import AimRT.Util.UrlParser

/-!
# The target of a local call

`LocalRpcBackend::Invoke` looks for the service of a call by the function, and by the package and the module that the
query of `to_addr` names.  It goes wrong in two ways.  A parameter that `GetValueFromStrKV` does not see is taken for
one that is not given (`Reads`).  And an empty package path stands for the end of the search, so a module that is found
first in a package without a path is taken for one that was not found (`FoundInEmptyPkg`).

The maps of the index are lists in the order of their iteration; which order that is does not matter (`Indexes`).
-/

namespace AimRT.Rpc

open AimRT.Lib AimRT.Util Assoc

def kPkgPath : Bytes := ascii "pkg_path"

def kModuleName : Bytes := ascii "module_name"

/-- What `Invoke` reads of a `to_addr`. -/
def localUrl (toAddr : Bytes) : Option LocalUrl :=
  (Util.parseUrl toAddr).map fun url =>
    { protocol := url.protocol
      pkgPath := getValueFromStrKV url.query kPkgPath 38 61 true
      moduleName := getValueFromStrKV url.query kModuleName 38 61 true }

namespace LocalRpcBackend

/-! ### Registration -/

/-- `emplace` for a module of a package, which may be new. -/
def emplaceModule (moduleName : Bytes) : Option Modules → Modules
  | none => ⟨[moduleName], List.cons_ne_nil _ _⟩
  | some modules =>
    if moduleName ∈ modules.1 then modules
    else ⟨modules.1 ++ [moduleName], List.append_ne_nil_of_left_ne_nil modules.2 _⟩

/-- `RegisterServiceFunc`, for a service that is in the registry from now on. -/
def registerServiceFunc (b : LocalRpcBackend) (funcName pkgPath moduleName : Bytes) : LocalRpcBackend :=
  { b with
    serviceFuncRegisterIndex :=
      (alter funcName (fun pkgs => alter pkgPath (emplaceModule moduleName) ((pkgs.map Subtype.val).getD []))
        b.serviceFuncRegisterIndex).1
    hasServiceFunc := fun f p m => b.hasServiceFunc f p m || decide ((f, p, m) = (funcName, pkgPath, moduleName)) }

/-- The index and the registry hold these services. -/
structure Indexes (b : LocalRpcBackend) (services : (funcName pkgPath moduleName : Bytes) → Prop) : Prop where
  parse : b.parseUrl = localUrl
  nodup : ∀ {f pkgs}, b.serviceFuncRegisterIndex.lookup f = some pkgs → (pkgs.1.map Prod.fst).Nodup
  registered : ∀ f p m, services f p m ↔
    ∃ pkgs, b.serviceFuncRegisterIndex.lookup f = some pkgs ∧
      ∃ modules, pkgs.1.lookup p = some modules ∧ m ∈ modules.1
  found : ∀ f p m, b.hasServiceFunc f p m = true ↔ services f p m

theorem mem_emplaceModule {moduleName m : Bytes} {modules : Option Modules} :
    m ∈ (emplaceModule moduleName modules).1 ↔ m = moduleName ∨ ∃ old, modules = some old ∧ m ∈ old.1 := by
  cases modules with
  | none => simp [emplaceModule]
  | some old =>
    simp only [emplaceModule]
    split_ifs with hmem
    · constructor
      · exact fun h => .inr ⟨old, rfl, h⟩
      · rintro (rfl | ⟨old', heq, h⟩)
        · exact hmem
        · rwa [Option.some.inj heq]
    · simp [or_comm]

/-- Registration adds one service. -/
theorem Indexes.registerServiceFunc {b : LocalRpcBackend} {services : Bytes → Bytes → Bytes → Prop}
    (h : Indexes b services) (funcName pkgPath moduleName : Bytes) :
    Indexes (b.registerServiceFunc funcName pkgPath moduleName)
      fun f p m => services f p m ∨ (f, p, m) = (funcName, pkgPath, moduleName) where
  parse := h.parse
  nodup := by
    intro f pkgs hpkgs
    rw [LocalRpcBackend.registerServiceFunc, lookup_alter] at hpkgs
    split_ifs at hpkgs
    · obtain rfl := Option.some.inj hpkgs
      refine nodup_alter _ _ ?_
      cases hold : b.serviceFuncRegisterIndex.lookup funcName with
      | none => exact List.nodup_nil
      | some old => exact h.nodup hold
    · exact h.nodup hpkgs
  registered := by
    intro f p m
    rw [h.registered]
    simp only [LocalRpcBackend.registerServiceFunc, lookup_alter, Prod.mk.injEq, beq_iff_eq]
    by_cases hf : f = funcName
    · subst hf
      simp only [if_true, Option.some.injEq, exists_eq_left', lookup_alter, beq_iff_eq]
      by_cases hp : p = pkgPath
      · subst hp
        simp only [if_true, Option.some.injEq, exists_eq_left', mem_emplaceModule]
        cases hold : b.serviceFuncRegisterIndex.lookup f with
        | none => simp
        | some old => simp [or_comm]
      · cases hold : b.serviceFuncRegisterIndex.lookup f with
        | none => simp [hp]
        | some old => simp [hp]
    · simp [hf]
  found := by
    intro f p m
    simp [LocalRpcBackend.registerServiceFunc, h.found]

/-! ### The service of a call -/

/-- The package and the module of the service whose function `Invoke` calls; an error is the status of the callback. -/
def resolve (b : LocalRpcBackend) (call : ClientCall) : Except Status (Bytes × Bytes) := do
  let addr ← b.findService call
  check (b.hasServiceFunc call.funcName addr.1 addr.2 = true) .cliBackendInternalError
  return addr

/-- What `Invoke` does with the service of a call, or with the status of the callback. -/
def invokeResolved {C : Type} (b : LocalRpcBackend) (c : C) (call : ClientCall) :
    Except Status (Bytes × Bytes) → LocalCode C Unit
  | .error status => invokeCallBack c status
  | .ok addr => do
    if addr.1 = call.pkgPath then
      serviceFunc c (b.serviceCtx call) (Code.invoke c)
      return
    b.invokeOtherPkg c call

theorem resolve_of_ok {b : LocalRpcBackend} {call : ClientCall} {addr : Bytes × Bytes}
    (h : b.findService call = .ok addr) : b.resolve call =
      if b.hasServiceFunc call.funcName addr.1 addr.2 = true then .ok addr else .error .cliBackendInternalError := by
  unfold resolve
  rw [h]
  change (do check _ _; return addr) = _
  unfold check
  split <;> rfl

theorem resolve_of_error {b : LocalRpcBackend} {call : ClientCall} {status : Status}
    (h : b.findService call = .error status) : b.resolve call = .error status := by
  unfold resolve
  rw [h]
  rfl

theorem invoke_eq {C : Type} (b : LocalRpcBackend) (c : C) (call : ClientCall) : b.invoke c call = Code.tryCatch
    (do
      if (← Code.ask .state) ≠ State.start then
        invokeCallBack c .cliBackendInternalError
        return
      b.invokeResolved c call (b.resolve call))
    (return) := by
  unfold invoke
  cases hfind : b.findService call with
  | error status =>
    rw [resolve_of_error hfind]
    rfl
  | ok addr =>
    rw [resolve_of_ok hfind]
    dsimp only
    cases b.hasServiceFunc call.funcName addr.1 addr.2 <;> rfl

/-- A service has the package and the module that are given, where they are. -/
def Satisfies (given : Bytes × Bytes) (pkgPath moduleName : Bytes) : Prop :=
  (given.1 ≠ [] → pkgPath = given.1) ∧ (given.2 ≠ [] → moduleName = given.2)

/-- A module is given without a package, and the first package with this module has an empty path. -/
def EmptyFirst (pkgs : List (Bytes × Modules)) (given : Bytes × Bytes) : Prop :=
  given.1 = [] ∧ given.2 ≠ [] ∧ (pkgs.find? fun itr => itr.2.1.contains given.2).map Prod.fst = some []

def FoundInEmptyPkg (b : LocalRpcBackend) (funcName : Bytes) (given : Bytes × Bytes) : Prop :=
  ∃ pkgs, b.serviceFuncRegisterIndex.lookup funcName = some pkgs ∧ EmptyFirst pkgs.1 given

/-- A result is a service that satisfies the parameters, and an address is refused only when there is none. -/
structure Fits (services : (pkgPath moduleName : Bytes) → Prop) (given : Bytes × Bytes)
    (result : Except Status (Bytes × Bytes)) : Prop where
  sound : ∀ {p m}, result = .ok (p, m) → services p m ∧ Satisfies given p m
  complete : ∀ {p m}, services p m → Satisfies given p m → result ≠ .error .cliInvalidAddr

theorem fits_ok {services : Bytes → Bytes → Prop} {given : Bytes × Bytes} {p m : Bytes} (h : services p m)
    (hsatisfies : Satisfies given p m) : Fits services given (.ok (p, m)) where
  sound := by
    rintro _ _ heq
    obtain ⟨rfl, rfl⟩ := Prod.mk.inj (Except.ok.inj heq)
    exact ⟨h, hsatisfies⟩
  complete := fun _ _ => nofun

/-- Another error than that of an address. -/
theorem fits_error {services : Bytes → Bytes → Prop} {given : Bytes × Bytes} {status : Status}
    (h : status ≠ .cliInvalidAddr) : Fits services given (.error status) where
  sound := nofun
  complete := fun _ _ heq => h (Except.error.inj heq)

/-! ### What the search finds -/

/-- The results of the search in the packages of a function. -/
inductive Found (pkgs : List (Bytes × Modules)) (given : Bytes × Bytes) : Except Status (Bytes × Bytes) → Prop
  | service {e : Bytes × Modules} {m : Bytes} (mem : e ∈ pkgs) (module : m ∈ e.2.1)
      (satisfies : Satisfies given e.1 m) (first : ¬ EmptyFirst pkgs given) : Found pkgs given (.ok (e.1, m))
  | none (rejects : ∀ e ∈ pkgs, ∀ m ∈ e.2.1, ¬ Satisfies given e.1 m) : Found pkgs given (.error .cliInvalidAddr)
  | emptyPkg (first : EmptyFirst pkgs given) : Found pkgs given (.error .cliInvalidAddr)

theorem EmptyFirst.exists_service {pkgs : List (Bytes × Modules)} {given : Bytes × Bytes} (h : EmptyFirst pkgs given) :
    ∃ e ∈ pkgs, e.1 = [] ∧ ∃ m ∈ e.2.1, Satisfies given e.1 m := by
  obtain ⟨hpkg, -, hfind⟩ := h
  obtain ⟨e, he, hempty⟩ := Option.map_eq_some_iff.1 hfind
  have hmem := List.find?_some he
  exact ⟨e, List.mem_of_find?_eq_some he, hempty, given.2, List.contains_iff_mem.1 hmem, absurd hpkg, fun _ => rfl⟩

/-- Nothing but the empty path is in the way. -/
theorem Found.fits_iff {pkgs : List (Bytes × Modules)} {given : Bytes × Bytes} {services : Bytes → Bytes → Prop}
    {result : Except Status (Bytes × Bytes)} (h : Found pkgs given result)
    (hservices : ∀ p m, services p m ↔ ∃ modules, (p, modules) ∈ pkgs ∧ m ∈ modules.1) :
    Fits services given result ↔ ¬ EmptyFirst pkgs given := by
  cases h with
  | service hmem hmodule hsatisfies hfirst =>
    exact iff_of_true (fits_ok ((hservices _ _).2 ⟨_, hmem, hmodule⟩) hsatisfies) hfirst
  | none hrejects =>
    refine iff_of_true ⟨nofun, fun hservice hsatisfies _ => ?_⟩ fun hfirst => ?_
    · obtain ⟨modules, hmem, hmodule⟩ := (hservices _ _).1 hservice
      exact hrejects _ hmem _ hmodule hsatisfies
    · obtain ⟨e, he, -, m, hm, hsatisfies⟩ := hfirst.exists_service
      exact hrejects e he m hm hsatisfies
  | emptyPkg hfirst =>
    refine iff_of_false (fun hfits => ?_) (not_not_intro hfirst)
    obtain ⟨e, he, -, m, hm, hsatisfies⟩ := hfirst.exists_service
    exact hfits.complete ((hservices _ _).2 ⟨e.2, he, hm⟩) hsatisfies rfl

/-! ### The parameters of an address -/

/-- The query of an address, where it has the protocol of the backend. -/
def addrQuery (name toAddr : Bytes) : Bytes :=
  match Util.parseUrl toAddr with
  | none => []
  | some url => if url.protocol = name then url.query else []

/-- The package and the module that an address gives. -/
def givenBy (name toAddr : Bytes) : Bytes × Bytes :=
  (valueOf (addrQuery name toAddr) kPkgPath, valueOf (addrQuery name toAddr) kModuleName)

/-- The package and the module that `GetValueFromStrKV` sees. -/
def seenIn (name toAddr : Bytes) : Bytes × Bytes :=
  (seenValueOf (addrQuery name toAddr) kPkgPath, seenValueOf (addrQuery name toAddr) kModuleName)

/-- The package is read as it is given, and so is the module. -/
def Reads (name toAddr : Bytes) : Prop := seenIn name toAddr = givenBy name toAddr

instance (name toAddr : Bytes) : Decidable (Reads name toAddr) := inferInstanceAs (Decidable (_ = _))

theorem addrQuery_nil (name : Bytes) : addrQuery name [] = [] := by
  have hparse : Util.parseUrl [] = some ⟨[], [], [], [], [], []⟩ := by decide
  rw [addrQuery, hparse]
  exact ite_self _

theorem serviceAddr_cases {b : LocalRpcBackend} (hparse : b.parseUrl = localUrl) (toAddr : Bytes) :
    b.serviceAddr toAddr = .ok (seenIn b.name toAddr) ∨
      b.serviceAddr toAddr = .error .cliBackendInternalError ∧ addrQuery b.name toAddr = [] := by
  have hpkg : ∀ query, getValueFromStrKV query kPkgPath 38 61 true = seenValueOf query kPkgPath :=
    getValueFromStrKV_eq (by decide) (by decide) (by decide)
  have hmodule : ∀ query, getValueFromStrKV query kModuleName 38 61 true = seenValueOf query kModuleName :=
    getValueFromStrKV_eq (by decide) (by decide) (by decide)
  unfold serviceAddr
  split_ifs with hnil
  · rw [hnil, seenIn, addrQuery_nil]
    exact .inl rfl
  · rw [hparse, localUrl, seenIn, addrQuery]
    cases Util.parseUrl toAddr with
    | none => exact .inl rfl
    | some url =>
      simp only [Option.map_some, hpkg, hmodule]
      by_cases hname : url.protocol = b.name
      · rw [if_neg (not_not_intro hname), if_pos hname]
        exact .inl rfl
      · rw [if_pos hname, if_neg hname]
        exact .inr ⟨rfl, rfl⟩

section Search

variable {b : LocalRpcBackend} {services : Bytes → Bytes → Bytes → Prop} {call : ClientCall} {given : Bytes × Bytes}
  {pkgs : Packages}

theorem rejects_of_lookup {pkgs : List (Bytes × Modules)} (hpkg : given.1 ≠ []) (h : pkgs.lookup given.1 = none) :
    ∀ e ∈ pkgs, ∀ m ∈ e.2.1, ¬ Satisfies given e.1 m := by
  intro e he m _ hsatisfies
  have hne := List.lookup_eq_none_iff.1 h e he
  exact bne_iff_ne.1 hne (hsatisfies.1 hpkg).symm

theorem findService_found (hnodup : (pkgs.1.map Prod.fst).Nodup)
    (haddr : b.serviceAddr (call.ctx.getMetaValue kToAddr) = .ok given)
    (hpkgs : b.serviceFuncRegisterIndex.lookup call.funcName = some pkgs) :
    Found pkgs.1 given (b.findService call) := by
  simp only [findService, haddr, hpkgs, require]
  change Found _ _ (if _ then _ else _)
  split_ifs with hpkg hmodule hmodule
  · exact .service (List.head_mem _) (List.head_mem _) ⟨absurd hpkg, absurd hmodule⟩ fun h => h.2.1 hmodule
  · cases hfind : pkgs.1.find? fun itr => itr.2.1.contains given.2 with
    | none =>
      refine .none fun e he m hm hsatisfies => ?_
      obtain rfl := hsatisfies.2 hmodule
      exact absurd (List.contains_iff_mem.2 hm) (List.find?_eq_none.1 hfind e he)
    | some e =>
      obtain ⟨pkgPath, modules⟩ := e
      by_cases hempty : pkgPath = []
      · subst hempty
        exact .emptyPkg ⟨hpkg, hmodule, by rw [hfind]; rfl⟩
      · have hmem := List.find?_some hfind
        have hok : check (pkgPath ≠ []) Status.cliInvalidAddr = .ok () := if_pos hempty
        simp only [Option.map_some, Option.getD_some, hok]
        refine .service (List.mem_of_find?_eq_some hfind) (List.contains_iff_mem.1 hmem)
          ⟨absurd hpkg, fun _ => rfl⟩ fun h => hempty ?_
        have hfirst := h.2.2
        rw [hfind] at hfirst
        exact Option.some.inj hfirst
  · cases hlookup : pkgs.1.lookup given.1 with
    | none => exact .none (rejects_of_lookup hpkg hlookup)
    | some modules =>
      exact .service (mem_of_lookup_eq_some hlookup) (List.head_mem _) ⟨fun _ => rfl, absurd hmodule⟩
        fun h => hpkg h.1
  · cases hlookup : pkgs.1.lookup given.1 with
    | none => exact .none (rejects_of_lookup hpkg hlookup)
    | some modules =>
      change Found _ _ (do check _ _; _)
      by_cases hmem : modules.1.contains given.2 = true
      · have hok : check (modules.1.contains given.2 = true) Status.cliInvalidAddr = .ok () := if_pos hmem
        rw [hok]
        exact .service (mem_of_lookup_eq_some hlookup) (List.contains_iff_mem.1 hmem) ⟨fun _ => rfl, fun _ => rfl⟩
          fun h => hpkg h.1
      · have herror : check (modules.1.contains given.2 = true) Status.cliInvalidAddr = .error .cliInvalidAddr :=
          if_neg hmem
        rw [herror]
        refine .none fun e he m hm hsatisfies => hmem ?_
        have he' := lookup_eq_some_of_mem hnodup he
        rw [hsatisfies.1 hpkg, hlookup] at he'
        rw [hsatisfies.2 hmodule, ← Option.some.inj he'] at hm
        exact List.contains_iff_mem.2 hm

/-- The registry has what the index has. -/
theorem resolve_found (hindexes : Indexes b services)
    (haddr : b.serviceAddr (call.ctx.getMetaValue kToAddr) = .ok given)
    (hpkgs : b.serviceFuncRegisterIndex.lookup call.funcName = some pkgs) :
    Found pkgs.1 given (b.resolve call) := by
  have hnodup := hindexes.nodup hpkgs
  have hfound := findService_found hnodup haddr hpkgs
  cases hfind : b.findService call with
  | error status =>
    rw [resolve_of_error hfind, ← hfind]
    exact hfound
  | ok addr =>
    rw [hfind] at hfound
    have hservice : services call.funcName addr.1 addr.2 := by
      cases hfound with
      | service hmem hmodule =>
        exact (hindexes.registered _ _ _).2 ⟨pkgs, hpkgs, _, lookup_eq_some_of_mem hnodup hmem, hmodule⟩
    rw [resolve_of_ok hfind, if_pos ((hindexes.found _ _ _).2 hservice)]
    exact hfound

theorem resolve_of_lookup (haddr : b.serviceAddr (call.ctx.getMetaValue kToAddr) = .ok given)
    (h : b.serviceFuncRegisterIndex.lookup call.funcName = none) : b.resolve call = .error .svrNotFound := by
  refine resolve_of_error ?_
  simp only [findService, haddr, h]
  rfl

theorem fits_resolve (hindexes : Indexes b services)
    (haddr : b.serviceAddr (call.ctx.getMetaValue kToAddr) = .ok given) :
    Fits (services call.funcName) given (b.resolve call) ↔ ¬ FoundInEmptyPkg b call.funcName given := by
  cases hpkgs : b.serviceFuncRegisterIndex.lookup call.funcName with
  | none =>
    rw [resolve_of_lookup haddr hpkgs]
    exact iff_of_true (fits_error (by decide)) fun ⟨_, h, _⟩ => by rw [hpkgs] at h; cases h
  | some pkgs =>
    have hservices : ∀ p m, services call.funcName p m ↔ ∃ modules, (p, modules) ∈ pkgs.1 ∧ m ∈ modules.1 := by
      intro p m
      simp only [hindexes.registered, hpkgs, Option.some.injEq, exists_eq_left']
      refine exists_congr fun modules => and_congr_left fun _ => ?_
      exact ⟨mem_of_lookup_eq_some, fun h => lookup_eq_some_of_mem (hindexes.nodup hpkgs) h⟩
    rw [(resolve_found hindexes haddr hpkgs).fits_iff hservices, FoundInEmptyPkg, hpkgs]
    simp

/-- An address that is read as it is given. -/
theorem fits_of_reads (hindexes : Indexes b services) (hreads : Reads b.name (call.ctx.getMetaValue kToAddr)) :
    Fits (services call.funcName) (givenBy b.name (call.ctx.getMetaValue kToAddr)) (b.resolve call) ↔
      ¬ FoundInEmptyPkg b call.funcName (givenBy b.name (call.ctx.getMetaValue kToAddr)) := by
  rcases serviceAddr_cases hindexes.parse (call.ctx.getMetaValue kToAddr) with haddr | ⟨haddr, hquery⟩
  · rw [← hreads]
    exact fits_resolve hindexes haddr
  · have hres : b.resolve call = .error .cliBackendInternalError := by
      refine resolve_of_error ?_
      unfold findService
      rw [haddr]
      rfl
    rw [hres, givenBy, hquery]
    exact iff_of_true (fits_error (by decide)) fun ⟨_, _, h⟩ => h.2.1 rfl

theorem not_foundInEmptyPkg (hindexes : Indexes b services) {f : Bytes} (h : ∀ m, ¬ services f [] m) :
    ¬ FoundInEmptyPkg b f given := by
  rintro ⟨pkgs, hpkgs, hfirst⟩
  obtain ⟨e, he, hempty, m, hm, -⟩ := hfirst.exists_service
  have hlookup := lookup_eq_some_of_mem (hindexes.nodup hpkgs) he
  rw [hempty] at hlookup
  exact h m ((hindexes.registered _ _ _).2 ⟨pkgs, hpkgs, _, hlookup, hm⟩)

end Search

/-! ### A single service -/

/-- A backend without services. -/
def noServices (name : Bytes) : LocalRpcBackend where
  name := name
  serviceFuncRegisterIndex := []
  hasServiceFunc := fun _ _ _ => false
  parseUrl := localUrl
  timeoutExecutor := false

theorem indexes_noServices (name : Bytes) : Indexes (noServices name) fun _ _ _ => False where
  parse := rfl
  nodup := nofun
  registered := fun _ _ _ => iff_of_false id nofun
  found := fun _ _ _ => iff_of_false nofun id

def callTo (toAddr : Bytes) : ClientCall := ⟨ascii "f", [], [], Context.setMetaValue ∅ kToAddr toAddr⟩

theorem getMetaValue_callTo (toAddr : Bytes) : (callTo toAddr).ctx.getMetaValue kToAddr = toAddr := by
  rw [callTo, Context.getMetaValue, Context.setMetaValue, AList.lookup_insert]
  rfl

/-- A single service with a path is found by the parameters it satisfies. -/
theorem Found.satisfies_iff {p m : Bytes} {modules : Modules} {seen given : Bytes × Bytes}
    {services : Bytes → Bytes → Prop} {result : Except Status (Bytes × Bytes)} (hmodules : modules.1 = [m])
    (h : Found [(p, modules)] seen result) (hp : p ≠ []) (hservice : services p m)
    (hfits : Fits services given result) : Satisfies given p m ↔ Satisfies seen p m := by
  cases h with
  | service hmem hmodule hsatisfies =>
    obtain rfl := List.mem_singleton.1 hmem
    rw [hmodules, List.mem_singleton] at hmodule
    subst hmodule
    exact iff_of_true (hfits.sound rfl).2 hsatisfies
  | none hrejects =>
    refine iff_of_false (fun hsatisfies => hfits.complete hservice hsatisfies rfl) ?_
    exact hrejects _ List.mem_cons_self m (by rw [hmodules]; exact List.mem_cons_self)
  | emptyPkg hfirst =>
    obtain ⟨e, he, hempty, -⟩ := hfirst.exists_service
    obtain rfl := List.mem_singleton.1 he
    exact absurd hempty hp

/-- Parameters that are satisfied by no more services. -/
theorem eq_of_satisfies {given seen : Bytes × Bytes}
    (h : ∀ p m, p ≠ [] → Satisfies given p m → Satisfies seen p m) :
    (seen.1 ≠ [] → given.1 = seen.1) ∧ (seen.2 ≠ [] → given.2 = seen.2) := by
  constructor
  · intro hseen
    by_cases hgiven : given.1 = []
    · -- any other path
      have hne : seen.1 ++ [0] ≠ [] := by simp
      have heq := (h _ given.2 hne ⟨absurd hgiven, fun _ => rfl⟩).1 hseen
      simp at heq
    · exact (h given.1 given.2 hgiven ⟨fun _ => rfl, fun _ => rfl⟩).1 hseen
  · intro hseen
    by_cases hgiven : given.1 = []
    · exact (h [0] given.2 (by simp) ⟨absurd hgiven, fun _ => rfl⟩).2 hseen
    · exact (h given.1 given.2 hgiven ⟨fun _ => rfl, fun _ => rfl⟩).2 hseen

theorem eq_of_satisfies_iff {given seen : Bytes × Bytes}
    (h : ∀ p m, p ≠ [] → (Satisfies given p m ↔ Satisfies seen p m)) : seen = given := by
  obtain ⟨hpkg, hmodule⟩ := eq_of_satisfies fun p m hp => (h p m hp).1
  obtain ⟨hpkg', hmodule'⟩ := eq_of_satisfies fun p m hp => (h p m hp).2
  refine Prod.ext ?_ ?_
  · by_cases hseen : seen.1 = []
    · by_contra hne
      exact hne (hpkg' fun hgiven => hne (hseen.trans hgiven.symm))
    · exact (hpkg hseen).symm
  · by_cases hseen : seen.2 = []
    · by_contra hne
      exact hne (hmodule' fun hgiven => hne (hseen.trans hgiven.symm))
    · exact (hmodule hseen).symm

/-- For some registry, an address that is not read as it is given leads to a wrong result. -/
theorem reads_of_fits {name toAddr : Bytes} (h : ∀ p m, p ≠ [] →
    ∃ services : Bytes → Bytes → Prop, services p m ∧ Fits services (givenBy name toAddr)
      (((noServices name).registerServiceFunc (ascii "f") p m).resolve (callTo toAddr))) : Reads name toAddr := by
  by_cases haddr : (noServices name).serviceAddr toAddr = .ok (seenIn name toAddr)
  · refine eq_of_satisfies_iff fun p m hp => ?_
    have hindexes := (indexes_noServices name).registerServiceFunc (ascii "f") p m
    have haddr' : ((noServices name).registerServiceFunc (ascii "f") p m).serviceAddr
        ((callTo toAddr).ctx.getMetaValue kToAddr) = .ok (seenIn name toAddr) := by
      rw [getMetaValue_callTo]
      exact haddr
    obtain ⟨services, hservice, hfits⟩ := h p m hp
    exact (resolve_found hindexes haddr' rfl).satisfies_iff rfl hp hservice hfits
  · obtain ⟨-, hquery⟩ := (serviceAddr_cases (b := noServices name) rfl toAddr).resolve_left haddr
    have hquery : addrQuery name toAddr = [] := hquery
    rw [Reads, seenIn, givenBy, hquery]
    rfl

/-- **Main result.**  An address that is read as it is given leads to a service with the package and the module it
gives, and is refused only where there is none, as long as the module is not found first in a package with an empty
path.
These are the addresses that do so for every registry without empty paths. -/
theorem resolve_fits_iff (b : LocalRpcBackend) (services : Bytes → Bytes → Bytes → Prop) (call : ClientCall)
    (name toAddr : Bytes) :
    (Indexes b services → Reads b.name (call.ctx.getMetaValue kToAddr) →
      (Fits (services call.funcName) (givenBy b.name (call.ctx.getMetaValue kToAddr)) (b.resolve call) ↔
        ¬ FoundInEmptyPkg b call.funcName (givenBy b.name (call.ctx.getMetaValue kToAddr)))) ∧
    (Reads name toAddr ↔
      ∀ (b : LocalRpcBackend) (services : Bytes → Bytes → Bytes → Prop), Indexes b services → b.name = name →
        (∀ f m, ¬ services f [] m) → ∀ call : ClientCall, call.ctx.getMetaValue kToAddr = toAddr →
        Fits (services call.funcName) (givenBy name toAddr) (b.resolve call)) := by
  refine ⟨fits_of_reads, ?_, fun h => ?_⟩
  · rintro hreads b services hindexes rfl hempty call rfl
    exact (fits_of_reads hindexes hreads).2 (not_foundInEmptyPkg hindexes (hempty _))
  · refine reads_of_fits fun p m hp => ?_
    have hindexes := (indexes_noServices name).registerServiceFunc (ascii "f") p m
    have hempty : ∀ f m', ¬ (False ∨ (f, ([] : Bytes), m') = (ascii "f", p, m)) := by simp [hp.symm]
    exact ⟨_, .inr rfl, h _ _ hindexes rfl hempty (callTo toAddr) (getMetaValue_callTo toAddr)⟩

/-- A service of `f` in the package `q`, and one in `p` behind it. -/
def twoPkgs : LocalRpcBackend :=
  ((noServices (ascii "local")).registerServiceFunc (ascii "f") (ascii "q") (ascii "m")).registerServiceFunc
    (ascii "f") (ascii "p") (ascii "m")

def twoServices (funcName pkgPath moduleName : Bytes) : Prop :=
  (False ∨ (funcName, pkgPath, moduleName) = (ascii "f", ascii "q", ascii "m")) ∨
    (funcName, pkgPath, moduleName) = (ascii "f", ascii "p", ascii "m")

theorem indexes_twoPkgs : Indexes twoPkgs twoServices :=
  ((indexes_noServices (ascii "local")).registerServiceFunc (ascii "f") (ascii "q") (ascii "m")).registerServiceFunc
    (ascii "f") (ascii "p") (ascii "m")

/-- An address with the package `p` leads to it. -/
theorem resolve_fits_pkg_path : Fits (twoServices (ascii "f")) (ascii "p", [])
    (twoPkgs.resolve (callTo (ascii "local://rpc/f?pkg_path=p"))) := by
  have haddr := getMetaValue_callTo (ascii "local://rpc/f?pkg_path=p")
  have hreads : Reads twoPkgs.name ((callTo (ascii "local://rpc/f?pkg_path=p")).ctx.getMetaValue kToAddr) := by
    rw [haddr]
    decide
  have hgiven : givenBy twoPkgs.name ((callTo (ascii "local://rpc/f?pkg_path=p")).ctx.getMetaValue kToAddr) =
      (ascii "p", []) := by
    rw [haddr]
    decide
  have hfits := (resolve_fits_iff twoPkgs twoServices _ [] []).1 indexes_twoPkgs hreads
  rw [hgiven] at hfits
  exact hfits.2 fun ⟨_, _, h⟩ => h.2.1 rfl

/-- The text of the key in another value hides the package `p`, and the first one is called. -/
theorem resolve_missed_pkg_path : ¬ ∀ (b : LocalRpcBackend) (services : Bytes → Bytes → Bytes → Prop),
    Indexes b services → ∀ call : ClientCall, Fits (services call.funcName)
      (givenBy b.name (call.ctx.getMetaValue kToAddr)) (b.resolve call) := by
  intro h
  have haddr := getMetaValue_callTo (ascii "local://rpc/f?a=pkg_path&pkg_path=p")
  have hfits := h _ _ indexes_twoPkgs (callTo (ascii "local://rpc/f?a=pkg_path&pkg_path=p"))
  have hseen : twoPkgs.serviceAddr ((callTo (ascii "local://rpc/f?a=pkg_path&pkg_path=p")).ctx.getMetaValue kToAddr) =
      .ok ([], []) := by
    rw [haddr]
    exact (serviceAddr_cases rfl _).resolve_right fun h => absurd h.2 (by decide)
  have hres : twoPkgs.resolve (callTo (ascii "local://rpc/f?a=pkg_path&pkg_path=p")) = .ok (ascii "q", ascii "m") := by
    unfold resolve findService
    rw [hseen]
    rfl
  have hgiven := (hfits.sound hres).2.1
  rw [haddr] at hgiven
  exact absurd (hgiven (by decide)) (by decide)

end LocalRpcBackend

end AimRT.Rpc

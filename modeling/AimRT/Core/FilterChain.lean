import AimRT.Core.FilterCollector
import AimRT.Lib.Table

/-!
# Filter chains

A collector with proper filters does what the chain of its filters does, whatever the threads do in
between: its stacks unwind to the chain, and what the chain emits is read off its filters.  A filter may
put its exit part behind the call of its continuation, or, on the rpc collector, into the callback.

The managers make the collectors of functions and topics from lists of filter names.
-/

namespace AimRT.Core

open AimRT.Lib AimRT.Lib.Chain AimRT.Util

variable {W R A B : Type}

/-! ### What a collector does -/

namespace FilterCollector

/-- A step of a thread of the collector. -/
def step (c : FilterCollector W R A) (h : Handler W R A) :
    ℕ → CallStack W R A → Option (Stepped (CallStack W R A) A) :=
  CallStack.step c.moves h

/-- **The collector does what the program `p` does**: both have the same logs and end with the same
results, no lambda throws, and every run can be brought to its end. -/
structure Behaves (c : FilterCollector W R A) (h : Handler W R A) (w : W) (p : Prog Empty R A) :
    Prop where
  sound : ∀ {ms C}, (c.invoke h w).run (c.step h) ms = some C →
    ∃ ms' P, (Pool.start p).run Prog.step ms' = some P ∧ P.log = C.log ∧
      (C.Finished (c.step h) → P.Finished Prog.step ∧
        C.threads.map CallStack.result = P.threads.map Prog.result)
  complete : ∀ {ms P}, (Pool.start p).run Prog.step ms = some P →
    ∃ ms' C, (c.invoke h w).run (c.step h) ms' = some C ∧ C.log = P.log ∧
      (P.Finished Prog.step → C.Finished (c.step h) ∧
        C.threads.map CallStack.result = P.threads.map Prog.result)
  noThrow : ∀ {ms C}, (c.invoke h w).run (c.step h) ms = some C → ∀ s ∈ C.threads, s.top ≠ .thrown
  ends : ∀ {ms C}, (c.invoke h w).run (c.step h) ms = some C →
    ∃ ms' C', C.run (c.step h) ms' = some C' ∧ C'.Finished (c.step h)

section Behaves

variable [Inhabited R] {c : FilterCollector W R A} {h : Handler W R A} {w : W}

theorem invoke_fits (hc : c.finalFilter.All (Proper c.moves)) :
    (∀ s ∈ (c.invoke h w).threads, s.Fits c.moves) ∧
      (c.invoke h w).map (CallStack.unwind h) = Pool.start (c.finalFilter.handler h w) := by
  obtain ⟨finalFilter, moves⟩ := c
  cases finalFilter with
  | base => exact ⟨by simp [invoke, Pool.start, Continuation.call, CallStack.Fits, Frame.Fits], rfl⟩
  | layer finalFilter f =>
    refine ⟨?_, rfl⟩
    have hf : CallStack.Fits moves ⟨.filter (f w) ⟨finalFilter, true⟩, []⟩ := ⟨⟨hc.1, hc.2 w⟩, by simp⟩
    simpa [invoke, Pool.start, Continuation.call] using hf

theorem result_unwind {moves : Bool} {s : CallStack W R A} (hf : s.Fits moves)
    (hs : ∀ n, s.step moves h n = none) : s.result = (s.unwind h).result := by
  by_cases htop : s.top.Silent
  · obtain ⟨top, callers⟩ := s
    cases htop with
    | filter_ret r next =>
      cases callers with
      | nil => rfl
      | cons c callers => cases hs 0
    | handler_ret r =>
      cases callers with
      | nil => rfl
      | cons c callers => cases hs 0
    | next w k next => cases hs 0
  · obtain ⟨s', hs', -⟩ := hf.step_seen (h := h) htop 0
    cases (hs 0).symm.trans hs'

theorem results_unwind {C : Pool (CallStack W R A) A} (hC : ∀ s ∈ C.threads, s.Fits c.moves)
    (hf : C.Finished (c.step h)) :
    C.threads.map CallStack.result = (C.map (CallStack.unwind h)).threads.map Prog.result := by
  simp only [Pool.map, List.map_map]
  exact List.map_congr_left fun s hs => result_unwind (hC s hs) (hf s hs)

/-- **Main result.** A collector with proper filters does what its `final_filter_` means. -/
theorem behaves (hc : c.finalFilter.All (Proper c.moves)) :
    c.Behaves h w (c.finalFilter.handler h w) := by
  obtain ⟨hfit, hstart⟩ := invoke_fits (h := h) (w := w) hc
  have hu := @CallStack.unwinds W R A _ c.moves h
  refine ⟨fun {ms C} hrun => ?_, fun {ms P} hrun => ?_, fun {ms C} hrun s hs => ?_, fun {ms C} hrun => ?_⟩
  · have hC := hu.inv_run hfit hrun
    obtain ⟨ms', hrun'⟩ := hu.map_run hfit hrun
    rw [hstart] at hrun'
    exact ⟨ms', _, hrun', rfl, fun hf => ⟨hu.map_finished hC hf, results_unwind hC hf⟩⟩
  · rw [← hstart] at hrun
    obtain ⟨ms₁, C₁, hrun₁, rfl⟩ := hu.lift_run hfit hrun
    by_cases hf : (C₁.map (CallStack.unwind h)).Finished Prog.step
    · obtain ⟨ms₂, C₂, hrun₂, e, hf₂⟩ := hu.lift_finished (hu.inv_run hfit hrun₁) hf
      have hrun' : (c.invoke h w).run (c.step h) (ms₁ ++ ms₂) = some C₂ := by
        rw [Pool.run_append]
        exact Option.bind_eq_some_iff.2 ⟨C₁, hrun₁, hrun₂⟩
      have elog : C₂.log = C₁.log := by simpa [Pool.map] using congrArg Pool.log e
      refine ⟨ms₁ ++ ms₂, C₂, hrun', elog, fun _ => ⟨hf₂, ?_⟩⟩
      rw [← e]
      exact results_unwind (hu.inv_run hfit hrun') hf₂
    · exact ⟨ms₁, C₁, hrun₁, rfl, fun hf' => (hf hf').elim⟩
  · intro htop
    have hfs := (hu.inv_run hfit hrun s hs).1
    rw [htop] at hfs
    exact hfs
  · have hC := hu.inv_run hfit hrun
    obtain ⟨ms', P, hrun', hf⟩ := (C.map (CallStack.unwind h)).exists_finish
    obtain ⟨ms₁, C₁, hrun₁, rfl⟩ := hu.lift_run hC hrun'
    obtain ⟨ms₂, C₂, hrun₂, -, hf₂⟩ := hu.lift_finished (hu.inv_run hC hrun₁) hf
    refine ⟨ms₁ ++ ms₂, C₂, ?_, hf₂⟩
    rw [Pool.run_append]
    exact Option.bind_eq_some_iff.2 ⟨C₁, hrun₁, hrun₂⟩

end Behaves

/-! ### Filters registered in order -/

section Registered

variable {c : FilterCollector W R A} {h : Handler W R A} {fs : List (Filter W R A)}

/-- The filter registered last is the outermost. -/
theorem handler_registerFilters :
    (c.registerFilters fs).finalFilter.handler h = nest (c.finalFilter.handler h) fs.reverse := by
  induction fs generalizing c with
  | nil => rfl
  | cons f fs ih =>
    rw [List.reverse_cons, nest_append]
    exact ih (c := c.registerFilter f)

@[simp] theorem registerFilters_moves : (c.registerFilters fs).moves = c.moves := by
  induction fs generalizing c with
  | nil => rfl
  | cons f fs ih => exact ih (c := c.registerFilter f)

theorem all_registerFilters {P : Filter W R A → Prop} (hc : c.finalFilter.All P)
    (hfs : ∀ f ∈ fs, P f) : (c.registerFilters fs).finalFilter.All P := by
  induction fs generalizing c with
  | nil => exact hc
  | cons f fs ih =>
    rw [List.forall_mem_cons] at hfs
    exact ih (c := c.registerFilter f) ⟨hc, hfs.1⟩ hfs.2

end Registered

/-- The logs of the collector: at any time the start of a word of `S`, and one of these words in the end,
which every run comes to. -/
structure Logs (c : FilterCollector W R A) (h : Handler W R A) (w : W) (sel : A → Option B)
    (S : Set (List B)) : Prop where
  running : ∀ {ms C}, (c.invoke h w).run (c.step h) ms = some C → ∃ l, C.log.filterMap sel ++ l ∈ S
  finished : ∀ {ms C}, (c.invoke h w).run (c.step h) ms = some C → C.Finished (c.step h) →
    C.log.filterMap sel ∈ S
  ends : ∀ {ms C}, (c.invoke h w).run (c.step h) ms = some C →
    ∃ ms' C', C.run (c.step h) ms' = some C' ∧ C'.Finished (c.step h)

/-- Two sets of words for one collector have a word in common. -/
theorem Logs.inter_nonempty {c : FilterCollector W R A} {h : Handler W R A} {w : W} {sel : A → Option B}
    {S T : Set (List B)} (hS : c.Logs h w sel S) (hT : c.Logs h w sel T) : (S ∩ T).Nonempty := by
  have hstart : (c.invoke h w).run (c.step h) [] = some (c.invoke h w) := rfl
  obtain ⟨ms, C, hrun, hend⟩ := hS.ends hstart
  exact ⟨_, hS.finished hrun hend, hT.finished hrun hend⟩

section Nests

variable [Inhabited R] {moves : Bool} {fs : List (Filter W R A)} {h : Handler W R A} {w : W}
  {sel : A → Option B} {entry exit : Filter W R A → List B}

theorem Behaves.logs {c : FilterCollector W R A} {p : Prog Empty R A} {S : Set (List B)}
    (hc : c.Behaves h w p) (hp : p.Emits (acts sel) S) : c.Logs h w sel S := by
  refine ⟨fun {ms C} hrun => ?_, fun {ms C} hrun hf => ?_, hc.ends⟩
  · obtain ⟨ms', P, hrun', e, -⟩ := hc.sound hrun
    rw [← e]
    exact (Pool.emits_run hp hrun').1
  · obtain ⟨ms', P, hrun', e, hend⟩ := hc.sound hrun
    rw [← e]
    exact (Pool.emits_run hp hrun').2 (hend hf).1

/-- **Filter chains nest.** -/
theorem new_behaves (hfs : ∀ f ∈ fs, Proper moves f) (h : Handler W R A) (w : W) :
    ((new moves).registerFilters fs).Behaves h w (nest h fs.reverse w) := by
  have hc := behaves (h := h) (w := w) (c := (new moves).registerFilters fs) (by
    rw [registerFilters_moves]
    exact all_registerFilters (c := new moves) trivial hfs)
  rw [handler_registerFilters] at hc
  exact hc

/-- Filters that call their continuation once, in whatever thread. -/
theorem new_logs_entries {S : Set (List B)} (hfs : ∀ f ∈ fs, Proper moves f)
    (hentry : ∀ f ∈ fs, ∀ w, (f w).Emits (passes sel) (around (entry f) []))
    (hh : ∀ w, (h w).Emits (acts sel) S) (w : W) :
    ((new moves).registerFilters fs).Logs h w sel {l | ∃ k ∈ S, l = fs.reverse.flatMap entry ++ k} :=
  (new_behaves hfs h w).logs (nest_emits (fun f hf => hentry f (List.mem_reverse.1 hf)) hh w)

/-- Filters that call their continuation once, in their own call. -/
theorem new_logs_exits {k : List B} (hfs : ∀ f ∈ fs, Proper moves f)
    (hexit : ∀ f ∈ fs, ∀ w, (f w).EmitsSync (passes sel) (around (entry f) (exit f)))
    (hh : ∀ w, (h w).EmitsSync (acts sel) {k}) (w : W) :
    ((new moves).registerFilters fs).Logs h w sel
      {fs.reverse.flatMap entry ++ k ++ fs.flatMap exit} := by
  have hnest := nest_emitsSync (fun f hf => hexit f (List.mem_reverse.1 hf)) hh w
  rw [List.reverse_reverse] at hnest
  exact (new_behaves hfs h w).logs hnest.emits

end Nests

end FilterCollector

/-! ### Exit parts in the callback -/

section Callback

variable {sel : A → Option B} {fs : List (Filter (InvokeWrapper A) Unit A)}
  {h : Handler (InvokeWrapper A) Unit A} {entry exit : Filter (InvokeWrapper A) Unit A → List B}
  {k c : List B}

/-- Whatever the status, the callback leaves the word `c`. -/
def InvokeWrapper.Leaves (sel : A → Option B) (w : InvokeWrapper A) (c : List B) : Prop :=
  ∀ status, (w.callback status).Emits (acts sel) {c}

/-- A filter that acts, and hands on the call with a callback that acts before the callback of the call. -/
def WrapsCallback (sel : A → Option B) (f : Filter (InvokeWrapper A) Unit A) (e x : List B) : Prop :=
  ∀ w c, w.Leaves sel c →
    (f w).Emits (passes sel) {l | ∃ w', w'.Leaves sel (x ++ c) ∧ l = e.map .inl ++ [.inr w']}

/-- A handle that acts, and then completes the call, at once or later. -/
def Completes (sel : A → Option B) (h : Handler (InvokeWrapper A) Unit A) (k : List B) : Prop :=
  ∀ w c, w.Leaves sel c → (h w).Emits (acts sel) {k ++ c}

theorem nest_completes (hfs : ∀ f ∈ fs, WrapsCallback sel f (entry f) (exit f))
    (hh : Completes sel h k) :
    ∀ w c, w.Leaves sel c →
      (nest h fs w).Emits (acts sel) {fs.flatMap entry ++ k ++ fs.reverse.flatMap exit ++ c} := by
  induction fs with
  | nil =>
    unfold Completes at hh
    simpa [nest] using hh
  | cons f fs ih =>
    rw [List.forall_mem_cons] at hfs
    intro w c hw
    refine Prog.Emits.calling ((hfs.1 w c hw).mono ?_)
    rintro l ⟨w', hw', rfl⟩
    refine Or.inr ⟨entry f, w', (ih hfs.2 w' _ hw').mono ?_, rfl⟩
    simp

end Callback

/-! ### The filter managers -/

/-- The failed assertions of the managers. -/
inductive FilterError where
  | registerFilterFailed (name : Bytes)
  | canNotFindFilter (name : Bytes)
  | setFilterCollectorFailed (funcName : Bytes)
  deriving DecidableEq, Repr

/-- A filter manager: the filters, and the collectors and their filter names under functions or topics. -/
structure FilterManager (W R A : Type) where
  filterMap : AList fun _ : Bytes => Filter W R A
  filterCollectorMap : AList fun _ : Bytes => FilterCollector W R A
  filterNamesMap : AList fun _ : Bytes => List Bytes
  defaultFilterCollector : FilterCollector W R A

abbrev FrameworkAsyncRpcFilterManager (A : Type) := FilterManager (InvokeWrapper A) Unit A

abbrev FrameworkAsyncChannelFilterManager (V A : Type) := FilterManager (MsgWrapper V) Unit A

namespace FilterManager

def new : FilterManager W R A := ⟨∅, ∅, ∅, FilterCollector.new true⟩

def registerFilter (m : FilterManager W R A) (name : Bytes) (filter : Filter W R A) :
    FilterManager W R A × Except FilterError Unit :=
  match m.filterMap.lookup name with
  | some _ => (m, .error (.registerFilterFailed name))
  | none => ({ m with filterMap := m.filterMap.insert name filter }, .ok ())

/-- The loop of `CreateFilterCollector` over the names. -/
def collect (m : FilterManager W R A) (c : FilterCollector W R A) :
    List Bytes → Except FilterError (FilterCollector W R A)
  | [] => .ok c
  | name :: names =>
    match m.filterMap.lookup name with
    | none => .error (.canNotFindFilter name)
    | some filter => m.collect (c.registerFilter filter) names

def createFilterCollector (m : FilterManager W R A) (funcName : Bytes) (filterNameVec : List Bytes) :
    FilterManager W R A × Except FilterError Unit :=
  if filterNameVec = [] then (m, .ok ())
  else
    match m.collect (.new true) filterNameVec with
    | .error e => (m, .error e)
    | .ok collector =>
      match m.filterCollectorMap.lookup funcName with
      | some _ => (m, .error (.setFilterCollectorFailed funcName))
      | none =>
        let filterCollectorMap := m.filterCollectorMap.insert funcName collector
        let filterNamesMap := Table.emplace m.filterNamesMap funcName filterNameVec
        ({ m with filterCollectorMap, filterNamesMap }, .ok ())

def createFilterCollectorIfNotExist (m : FilterManager W R A) (funcName : Bytes)
    (filterNameVec : List Bytes) : FilterManager W R A × Except FilterError Unit :=
  match m.filterCollectorMap.lookup funcName with
  | none => m.createFilterCollector funcName filterNameVec
  | some _ => (m, .ok ())

def getFilterCollector (m : FilterManager W R A) (funcName : Bytes) : FilterCollector W R A :=
  (m.filterCollectorMap.lookup funcName).getD m.defaultFilterCollector

def getFilterNameVec (m : FilterManager W R A) (funcName : Bytes) : List Bytes :=
  (m.filterNamesMap.lookup funcName).getD []

variable {m : FilterManager W R A} {c : FilterCollector W R A} {funcName : Bytes} {names : List Bytes}

theorem collect_unknown (h : ∃ name ∈ names, m.filterMap.lookup name = none) :
    ∃ name ∈ names, m.filterMap.lookup name = none ∧
      m.collect c names = .error (.canNotFindFilter name) := by
  induction names generalizing c with
  | nil => simp at h
  | cons name names ih =>
    cases hname : m.filterMap.lookup name with
    | none => exact ⟨name, by simp, hname, by rw [collect, hname]⟩
    | some filter =>
      have h : ∃ name ∈ names, m.filterMap.lookup name = none := by simpa [hname] using h
      obtain ⟨name', hmem, hnone, e⟩ := ih h (c := c.registerFilter filter)
      exact ⟨name', by simp [hmem], hnone, by rw [collect, hname]; exact e⟩

theorem collect_known {filters : List (Filter W R A)}
    (h : List.Forall₂ (fun name f => m.filterMap.lookup name = some f) names filters) :
    m.collect c names = .ok (c.registerFilters filters) := by
  induction h generalizing c with
  | nil => rfl
  | cons hname _ ih =>
    rw [collect, hname]
    exact ih

/-- A list with an unknown filter is refused; nothing changes. -/
theorem createFilterCollector_unknown (h : ∃ name ∈ names, m.filterMap.lookup name = none) :
    ∃ name ∈ names, m.filterMap.lookup name = none ∧
      m.createFilterCollector funcName names = (m, .error (.canNotFindFilter name)) := by
  obtain ⟨name, hmem, hnone, e⟩ := m.collect_unknown h (c := .new true)
  refine ⟨name, hmem, hnone, ?_⟩
  rw [createFilterCollector, if_neg (List.ne_nil_of_mem hmem), e]

/-- The collector of a function has the filters of the list. -/
theorem getFilterCollector_createFilterCollector {filters : List (Filter W R A)} (hne : names ≠ [])
    (h : List.Forall₂ (fun name f => m.filterMap.lookup name = some f) names filters)
    (hfree : m.filterCollectorMap.lookup funcName = none) :
    (m.createFilterCollector funcName names).1.getFilterCollector funcName =
      (FilterCollector.new true).registerFilters filters := by
  rw [createFilterCollector, if_neg hne, collect_known h]
  simp [hfree, getFilterCollector]

theorem collect_eq_ok {c' : FilterCollector W R A} (h : m.collect c names = .ok c') :
    ∃ filters : List (Filter W R A), c' = c.registerFilters filters ∧
      ∀ f ∈ filters, ∃ name, m.filterMap.lookup name = some f := by
  induction names generalizing c with
  | nil =>
    cases h
    exact ⟨[], rfl, by simp⟩
  | cons name names ih =>
    rw [collect] at h
    cases hname : m.filterMap.lookup name with
    | none =>
      rw [hname] at h
      cases h
    | some filter =>
      rw [hname] at h
      obtain ⟨filters, rfl, hfilters⟩ := ih h
      exact ⟨filter :: filters, rfl, List.forall_mem_cons.2 ⟨⟨name, hname⟩, hfilters⟩⟩

/-- The collectors have filters of the map. -/
structure Sound (m : FilterManager W R A) : Prop where
  default : m.defaultFilterCollector = .new true
  collectors : ∀ {funcName c}, m.filterCollectorMap.lookup funcName = some c →
    ∃ filters : List (Filter W R A), c = (FilterCollector.new true).registerFilters filters ∧
      ∀ f ∈ filters, ∃ name, m.filterMap.lookup name = some f

theorem new_sound : (new : FilterManager W R A).Sound := ⟨rfl, fun h => by cases h⟩

theorem Sound.registerFilter (hm : m.Sound) (name : Bytes) (filter : Filter W R A) :
    (m.registerFilter name filter).1.Sound := by
  unfold FilterManager.registerFilter
  cases hname : m.filterMap.lookup name with
  | some f => exact hm
  | none =>
    refine ⟨hm.default, fun hc => ?_⟩
    obtain ⟨filters, rfl, hfilters⟩ := hm.collectors hc
    refine ⟨filters, rfl, fun f hf => ?_⟩
    obtain ⟨name', hname'⟩ := hfilters f hf
    refine ⟨name', ?_⟩
    rw [AList.lookup_insert_ne (by rintro rfl; rw [hname] at hname'; cases hname')]
    exact hname'

theorem createFilterCollector_sound (hm : m.Sound) (funcName : Bytes) (names : List Bytes) :
    (m.createFilterCollector funcName names).1.Sound ∧
      (m.createFilterCollector funcName names).1.filterMap = m.filterMap := by
  unfold createFilterCollector
  split
  · exact ⟨hm, rfl⟩
  · cases hcollect : m.collect (.new true) names with
    | error e => exact ⟨hm, rfl⟩
    | ok collector =>
      cases hfree : m.filterCollectorMap.lookup funcName with
      | some c => exact ⟨hm, rfl⟩
      | none =>
        refine ⟨⟨hm.default, fun {funcName' c} hc => ?_⟩, rfl⟩
        by_cases hname : funcName' = funcName
        · subst hname
          rw [AList.lookup_insert] at hc
          obtain rfl := Option.some.inj hc
          have hfilters := collect_eq_ok hcollect
          exact hfilters
        · rw [AList.lookup_insert_ne hname] at hc
          exact hm.collectors hc

theorem createFilterCollectorIfNotExist_sound (hm : m.Sound) (funcName : Bytes) (names : List Bytes) :
    (m.createFilterCollectorIfNotExist funcName names).1.Sound ∧
      (m.createFilterCollectorIfNotExist funcName names).1.filterMap = m.filterMap := by
  unfold createFilterCollectorIfNotExist
  split
  · exact createFilterCollector_sound hm funcName names
  · exact ⟨hm, rfl⟩

/-- Every function has a collector with filters of the map. -/
theorem Sound.getFilterCollector (hm : m.Sound) (funcName : Bytes) :
    ∃ filters : List (Filter W R A),
      m.getFilterCollector funcName = (FilterCollector.new true).registerFilters filters ∧
      ∀ f ∈ filters, ∃ name, m.filterMap.lookup name = some f := by
  unfold FilterManager.getFilterCollector
  cases hc : m.filterCollectorMap.lookup funcName with
  | none => exact ⟨[], hm.default, by simp⟩
  | some c => exact hm.collectors hc

end FilterManager

/-! ### All collectors -/

/-- **Chains nest**: a collector with proper filters behaves as the chain with the filter registered last
outermost.  Where they call their continuation once, `h` comes behind their entry parts, in this order,
and, where they call it in their own call, before their exit parts in the reverse order. -/
structure FilterCollector.Nests (c : FilterCollector W R A) : Prop where
  behaves : ∀ {fs : List (Filter W R A)}, (∀ f ∈ fs, Proper c.moves f) →
    ∀ h w, (c.registerFilters fs).Behaves h w (nest h fs.reverse w)
  entries : ∀ {B : Type} {sel : A → Option B} {fs : List (Filter W R A)}
    {entry : Filter W R A → List B} {h : Handler W R A} {k : List B}, (∀ f ∈ fs, Proper c.moves f) →
    (∀ f ∈ fs, ∀ w, (f w).Emits (passes sel) (around (entry f) [])) →
    (∀ w, (h w).Emits (acts sel) {k}) →
    ∀ w, (c.registerFilters fs).Logs h w sel {fs.reverse.flatMap entry ++ k}
  exits : ∀ {B : Type} {sel : A → Option B} {fs : List (Filter W R A)}
    {entry exit : Filter W R A → List B} {h : Handler W R A} {k : List B},
    (∀ f ∈ fs, Proper c.moves f) →
    (∀ f ∈ fs, ∀ w, (f w).EmitsSync (passes sel) (around (entry f) (exit f))) →
    (∀ w, (h w).EmitsSync (acts sel) {k}) →
    ∀ w, (c.registerFilters fs).Logs h w sel {fs.reverse.flatMap entry ++ k ++ fs.flatMap exit}

theorem FilterCollector.new_nests [Inhabited R] (moves : Bool) :
    (new moves : FilterCollector W R A).Nests where
  behaves := new_behaves
  entries := by
    intro B sel fs entry h k hfs hentry hh w
    have hfs : ∀ f ∈ fs, Proper moves f := hfs
    have hlogs := new_logs_entries hfs hentry hh w
    simpa using hlogs
  exits := new_logs_exits

/-- **Main result.** The chains of the three collectors nest; on the rpc collector, where the exit parts
are put into the callback, also those of filters that go on later.  `CreateFilterCollector` refuses a
list with an unknown filter. -/
theorem filterCollectors_nest :
    (∀ A, (FrameworkAsyncRpcFilterCollector.new : FrameworkAsyncRpcFilterCollector A).Nests) ∧
    (∀ V A, (FrameworkAsyncChannelFilterCollector.new :
      FrameworkAsyncChannelFilterCollector V A).Nests) ∧
    (∀ A, (CoFilterManager.new : CoFilterManager A).Nests) ∧
    (∀ {A B : Type} {sel : A → Option B} {fs : List (Filter (InvokeWrapper A) Unit A)}
      {entry exit : Filter (InvokeWrapper A) Unit A → List B}
      {h : Handler (InvokeWrapper A) Unit A} {k : List B}, (∀ f ∈ fs, ∀ w, (f w).CallsAtMostOnce) →
      (∀ f ∈ fs, WrapsCallback sel f (entry f) (exit f)) → Completes sel h k →
      ∀ w c, w.Leaves sel c → (FrameworkAsyncRpcFilterCollector.new.registerFilters fs).Logs h w sel
        {fs.reverse.flatMap entry ++ k ++ fs.flatMap exit ++ c}) ∧
    ∀ {W R A : Type} (m : FilterManager W R A) (funcName : Bytes) (names : List Bytes),
      (∃ name ∈ names, m.filterMap.lookup name = none) →
      ∃ name ∈ names, m.filterMap.lookup name = none ∧
        m.createFilterCollector funcName names = (m, .error (.canNotFindFilter name)) := by
  refine ⟨fun A => FilterCollector.new_nests true, fun V A => FilterCollector.new_nests true,
    fun A => FilterCollector.new_nests false, ?_,
    fun m funcName names h => m.createFilterCollector_unknown h⟩
  intro A B sel fs entry exit h k hfs hwraps hh w c hw
  have hnest := nest_completes (fun f hf => hwraps f (List.mem_reverse.1 hf)) hh w c hw
  rw [List.reverse_reverse] at hnest
  have hfs : ∀ f ∈ fs, Proper true f := hfs
  exact (FilterCollector.new_behaves hfs h w).logs hnest

/-! ### Chains of two filters -/

def InvokeWrapper.actsBefore (w : InvokeWrapper A) (a : A) : InvokeWrapper A :=
  { w with callback := fun status => .act a (w.callback status) }

/-- A filter that acts in a task, then hands on the call, and acts again in the callback. -/
def orderFilter (i : ℕ) : Filter (InvokeWrapper ℕ) Unit ℕ := fun w =>
  .fork (.act (2 * i) (.next (w.actsBefore (2 * i + 1)) .ret)) (.ret ())

def orderHandler : Handler (InvokeWrapper ℕ) Unit ℕ := fun w => .act 0 (w.callback Rpc.Status.ok)

def orderCall : InvokeWrapper ℕ :=
  ⟨⟨[], [], [], []⟩, 0, 0, ⟨.client, false, 0, ∅⟩, fun _ => .act 1 (.ret ())⟩

/-- Two such filters, with all their parts in order. -/
theorem filterCollectors_nest_order :
    (FrameworkAsyncRpcFilterCollector.new.registerFilters [orderFilter 1, orderFilter 2]).Logs
      orderHandler orderCall some {[4, 2, 0, 3, 5, 1]} := by
  have hcalls : ∀ i w, (orderFilter i w).CallsAtMostOnce :=
    fun i w => Or.inl ⟨fun r => Nat.le_refl 1, rfl⟩
  have hwraps : ∀ i, WrapsCallback some (orderFilter i) [2 * i] [2 * i + 1] := by
    intro i w c hw
    refine Or.inl ⟨fun r => ⟨w.actsBefore (2 * i + 1), fun status => (hw status).mono ?_, rfl⟩, rfl⟩
    rintro _ rfl
    exact rfl
  have hh : Completes some orderHandler [0] := by
    intro w c hw
    refine (hw Rpc.Status.ok).mono ?_
    rintro _ rfl
    exact rfl
  -- the words of a filter, by the first act of its task
  let word := fun (e : ℕ → ℕ) (f : Filter (InvokeWrapper ℕ) Unit ℕ) =>
    match f orderCall with
    | .fork (.act a _) _ => [e a]
    | _ => []
  have hlogs : (FrameworkAsyncRpcFilterCollector.new.registerFilters
      [orderFilter 1, orderFilter 2]).Logs orderHandler orderCall some
      {[orderFilter 1, orderFilter 2].reverse.flatMap (word id) ++ [0] ++
        [orderFilter 1, orderFilter 2].flatMap (word (· + 1)) ++ [1]} := by
    refine filterCollectors_nest.2.2.2.1 ?_ ?_ hh orderCall [1] fun status => rfl
    · simpa using ⟨hcalls 1, hcalls 2⟩
    · simpa using ⟨hwraps 1, hwraps 2⟩
  exact hlogs

/-- A filter that calls its continuation twice, and one that does so once. -/
def callsTwice : Filter (InvokeWrapper ℕ) Unit ℕ := fun w => .next w fun _ => .next w .ret

def callsOnce : Filter (InvokeWrapper ℕ) Unit ℕ := fun w => .next w .ret

/-- A filter that acts after the call of its continuation, and one that calls it in a task. -/
def actsAfter : Filter (InvokeWrapper ℕ) Unit ℕ := fun w => .next w fun _ => .act 2 (.ret ())

def callsLater : Filter (InvokeWrapper ℕ) Unit ℕ := fun w => .fork (.next w .ret) (.ret ())

def Frame.isThrown : Frame W R A → Bool
  | .thrown => true
  | _ => false

/-- The run of one thread after the other, by their numbers. -/
def runThreads (fs : List (Filter (InvokeWrapper ℕ) Unit ℕ)) (threads : List ℕ) :
    Option (Pool (CallStack (InvokeWrapper ℕ) Unit ℕ) ℕ) :=
  let c := FrameworkAsyncRpcFilterCollector.new.registerFilters fs
  (c.invoke (fun _ => .act 0 (.ret ())) orderCall).run (c.step fun _ => .act 0 (.ret ()))
    (threads.map (·, 0))

/-- A filter that calls its continuation twice makes the second lambda throw, and an exit part does not
wait for a filter further in that goes on later. -/
theorem not_filterCollectors_nest :
    (¬∀ (fs : List (Filter (InvokeWrapper ℕ) Unit ℕ)) (h : Handler (InvokeWrapper ℕ) Unit ℕ)
      (w : InvokeWrapper ℕ), (FrameworkAsyncRpcFilterCollector.new.registerFilters fs).Behaves h w
        (nest h fs.reverse w)) ∧
    ¬∀ (fs : List (Filter (InvokeWrapper ℕ) Unit ℕ)) (h : Handler (InvokeWrapper ℕ) Unit ℕ)
      (w : InvokeWrapper ℕ) (entry exit : Filter (InvokeWrapper ℕ) Unit ℕ → List ℕ) (k : List ℕ),
      (∀ f ∈ fs, ∀ w, (f w).Emits (passes some) (around (entry f) (exit f))) →
      (∀ w, (h w).Emits (acts some) {k}) →
      (FrameworkAsyncRpcFilterCollector.new.registerFilters fs).Logs h w some
        {fs.reverse.flatMap entry ++ k ++ fs.flatMap exit} := by
  refine ⟨fun hclaim => ?_, fun hclaim => ?_⟩
  · have hany : (runThreads [callsOnce, callsTwice] (List.replicate 7 0)).any
        (fun C => C.threads.any fun s => s.top.isThrown) = true := by
      decide +kernel
    obtain ⟨C, hrun, hC⟩ := (Option.any_eq_true _ _).1 hany
    obtain ⟨s, hs, hthrown⟩ := List.any_eq_true.1 hC
    refine (hclaim [callsOnce, callsTwice] _ orderCall).noThrow hrun s hs ?_
    cases htop : s.top with
    | thrown => rfl
    | _ => simp [Frame.isThrown, htop] at hthrown
  · have hlog : (runThreads [callsLater, actsAfter] [0, 0, 0, 0]).map (·.log) = some [2] := by
      decide +kernel
    obtain ⟨C, hrun, hC⟩ := Option.map_eq_some_iff.1 hlog
    let exit := fun (f : Filter (InvokeWrapper ℕ) Unit ℕ) =>
      match f orderCall with
      | .next _ _ => [2]
      | _ => []
    have hlogs := hclaim [callsLater, actsAfter] (fun _ => .act 0 (.ret ())) orderCall (fun _ => []) exit [0]
      ?_ fun w => rfl
    · obtain ⟨l, hl⟩ := hlogs.running hrun
      rw [hC] at hl
      cases hl
    · have hlater : ∀ w, (callsLater w).Emits (passes some) (around [] []) :=
        fun w => Or.inl ⟨fun r => ⟨w, rfl⟩, rfl⟩
      have hafter : ∀ w, (actsAfter w).Emits (passes some) (around [] [2]) := fun w r => ⟨w, rfl⟩
      simpa using ⟨hlater, hafter⟩

end AimRT.Core

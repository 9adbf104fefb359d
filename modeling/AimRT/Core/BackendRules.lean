import AimRT.Util.Context

/-!
# Rules for backends and filters

The backend managers choose the backends and the filters of a name by rules: the first rule whose
regular expression matches the name says which.  An expression that throws does not match, and unknown
backends are skipped.  Backends are known by their positions; of two with one name the first counts.
-/

namespace AimRT.Core

open AimRT.Lib AimRT.Util

/-- `std::regex_match` of an ECMAScript expression and a string; no value where it throws. -/
abbrev RegexMatch := Bytes → Bytes → Option Bool

/-- Expressions, and names of backends or filters. -/
abbrev Rules := List (Bytes × List Bytes)

variable (regexMatch : RegexMatch)

/-- `GetFilterRules`. -/
def getFilterRules (name : Bytes) : Rules → List Bytes
  | [] => []
  | (regex, names) :: rules =>
    if regexMatch regex name = some true then names else getFilterRules name rules

/-- The `find_if` over the backends. -/
def findBackend (backends : List Bytes) (backendName : Bytes) : Option ℕ :=
  backends.findIdx? (· == backendName)

/-- `GetBackendsByRules`. -/
def getBackendsByRules (backends : List Bytes) (name : Bytes) : Rules → List ℕ
  | [] => []
  | (regex, enableBackends) :: rules =>
    if regexMatch regex name = some true then enableBackends.filterMap (findBackend backends)
    else getBackendsByRules backends name rules

/-- The rule that counts for a name. -/
def FirstRule (name : Bytes) (rules : Rules) (rule : Bytes × List Bytes) : Prop :=
  ∃ before after, rules = before ++ rule :: after ∧ regexMatch rule.1 name = some true ∧
    ∀ r ∈ before, regexMatch r.1 name ≠ some true

variable {regexMatch} {backends : List Bytes} {name : Bytes} {rules : Rules} {rule : Bytes × List Bytes}

theorem FirstRule.cons {r : Bytes × List Bytes} (hr : regexMatch r.1 name ≠ some true)
    (h : FirstRule regexMatch name rules rule) : FirstRule regexMatch name (r :: rules) rule := by
  obtain ⟨before, after, rfl, hrule, hbefore⟩ := h
  exact ⟨r :: before, after, rfl, hrule, List.forall_mem_cons.2 ⟨hr, hbefore⟩⟩

/-- The loops over the rules end at the first rule, or find none. -/
theorem firstRule_cases (regexMatch : RegexMatch) (backends : List Bytes) (name : Bytes) (rules : Rules) :
    (∃ rule, FirstRule regexMatch name rules rule ∧
        getFilterRules regexMatch name rules = rule.2 ∧
        getBackendsByRules regexMatch backends name rules = rule.2.filterMap (findBackend backends)) ∨
      ((∀ rule ∈ rules, regexMatch rule.1 name ≠ some true) ∧
        getFilterRules regexMatch name rules = [] ∧
        getBackendsByRules regexMatch backends name rules = []) := by
  induction rules with
  | nil => exact Or.inr ⟨by simp, rfl, rfl⟩
  | cons r rules ih =>
    obtain ⟨regex, names⟩ := r
    by_cases hr : regexMatch regex name = some true
    · refine Or.inl ⟨(regex, names), ⟨[], rules, rfl, hr, by simp⟩, ?_, ?_⟩
      · rw [getFilterRules, if_pos hr]
      · rw [getBackendsByRules, if_pos hr]
    · rw [getFilterRules, if_neg hr, getBackendsByRules, if_neg hr]
      rcases ih with ⟨rule, hrule, hfilters, hbackends⟩ | ⟨hnone, hfilters, hbackends⟩
      · exact Or.inl ⟨rule, hrule.cons hr, hfilters, hbackends⟩
      · exact Or.inr ⟨List.forall_mem_cons.2 ⟨hr, hnone⟩, hfilters, hbackends⟩

/-- There is one first rule. -/
theorem FirstRule.unique {rule' : Bytes × List Bytes} (h : FirstRule regexMatch name rules rule)
    (h' : FirstRule regexMatch name rules rule') : rule = rule' := by
  induction rules with
  | nil =>
    obtain ⟨before, after, e, -⟩ := h
    simp at e
  | cons r rules ih =>
    obtain ⟨before, after, e, hrule, hbefore⟩ := h
    obtain ⟨before', after', e', hrule', hbefore'⟩ := h'
    cases before with
    | nil =>
      obtain ⟨rfl, rfl⟩ := List.cons.inj e
      cases before' with
      | nil => exact (List.cons.inj e').1
      | cons b before' =>
        obtain ⟨rfl, -⟩ := List.cons.inj e'
        exact (hbefore' r (by simp) hrule).elim
    | cons b before =>
      obtain ⟨rfl, rfl⟩ := List.cons.inj e
      rw [List.forall_mem_cons] at hbefore
      cases before' with
      | nil =>
        obtain ⟨rfl, -⟩ := List.cons.inj e'
        exact (hbefore.1 hrule').elim
      | cons b before' =>
        obtain ⟨-, e'⟩ := List.cons.inj e'
        rw [List.forall_mem_cons] at hbefore'
        exact ih ⟨before, after, rfl, hrule, hbefore.2⟩ ⟨before', after', e', hrule', hbefore'.2⟩

/-- The backends of a name are those of its first rule. -/
theorem FirstRule.getBackendsByRules_eq (h : FirstRule regexMatch name rules rule) :
    getBackendsByRules regexMatch backends name rules = rule.2.filterMap (findBackend backends) := by
  rcases firstRule_cases regexMatch backends name rules with ⟨rule', hrule', -, e⟩ | ⟨hnone, -, -⟩
  · rw [h.unique hrule', e]
  · obtain ⟨before, after, rfl, hrule, -⟩ := h
    exact (hnone rule (by simp) hrule).elim

theorem findBackend_eq_some {i : ℕ} {backendName : Bytes} (h : findBackend backends backendName = some i) :
    backends[i]? = some backendName := by
  obtain ⟨hi, e, -⟩ := List.findIdx?_eq_some_iff_getElem.1 h
  have e : backends[i] = backendName := by simpa using e
  rw [List.getElem?_eq_getElem hi, e]

variable (regexMatch backends rules name) in
/-- The backends that the rules list for a name. -/
def Listed (listed : List ℕ) : Prop :=
  (∃ rule, FirstRule regexMatch name rules rule ∧ listed = rule.2.filterMap (findBackend backends)) ∨
    (∀ rule ∈ rules, regexMatch rule.1 name ≠ some true) ∧ listed = []

theorem listed_getBackendsByRules :
    Listed regexMatch backends name rules (getBackendsByRules regexMatch backends name rules) := by
  rcases firstRule_cases regexMatch backends name rules with ⟨rule, hrule, -, e⟩ | ⟨hnone, -, e⟩
  · exact Or.inl ⟨rule, hrule, e⟩
  · exact Or.inr ⟨hnone, e⟩

theorem Listed.exists_name {listed : List ℕ} (hl : Listed regexMatch backends name rules listed) {i : ℕ}
    (hi : i ∈ listed) : ∃ backendName, findBackend backends backendName = some i := by
  rcases hl with ⟨rule, -, rfl⟩ | ⟨-, rfl⟩
  · obtain ⟨backendName, -, h⟩ := List.mem_filterMap.1 hi
    exact ⟨backendName, h⟩
  · simp at hi

/-- A rule that lists no backend twice gives no position twice. -/
theorem nodup_filterMap_findBackend {names : List Bytes} (h : names.Nodup) :
    (names.filterMap (findBackend backends)).Nodup := by
  refine h.filterMap fun a b i ha hb => ?_
  exact Option.some.inj ((findBackend_eq_some ha).symm.trans (findBackend_eq_some hb))

theorem Listed.eq {listed : List ℕ} (hl : Listed regexMatch backends name rules listed) :
    listed = getBackendsByRules regexMatch backends name rules := by
  rcases hl with ⟨rule, hrule, rfl⟩ | ⟨hnone, rfl⟩
  · exact hrule.getBackendsByRules_eq.symm
  · rcases firstRule_cases regexMatch backends name rules with ⟨rule, ⟨before, after, rfl, hrule, -⟩, -⟩ | h
    · exact (hnone rule (by simp) hrule).elim
    · exact h.2.2.symm

theorem listed_nodup {listed : List ℕ} (hl : Listed regexMatch backends name rules listed)
    (h : ∀ rule, FirstRule regexMatch name rules rule → rule.2.Nodup) : listed.Nodup := by
  rcases hl with ⟨rule, hrule, rfl⟩ | ⟨-, rfl⟩
  · exact nodup_filterMap_findBackend (h rule hrule)
  · exact List.nodup_nil

end AimRT.Core

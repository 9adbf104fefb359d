import Mathlib.Data.List.AList
import Mathlib.Tactic

/-!
# Parameters

`ParameterHandle` keeps the values of parameters.  A null pointer or an empty string is to say that there is no value,
and `SetParameter` erases a key for it; but it looks for the key first, and a key that is not there is emplaced with
whatever it is set to.  So an empty value that follows an empty value brings the key back: what is left of a key depends
on how many empty values came last (`Settles`).
-/

namespace AimRT.Core

/-- `parameter_map_`; a value is a pointer to a string. -/
structure ParameterHandle where
  parameterMap : AList fun _ : String => Option String := ∅

namespace ParameterHandle

/-- `!value_ptr || value_ptr->empty()`. -/
def isEmpty (value : Option String) : Bool := value.all fun text => text = ""

/-- `GetParameter`: the pointer that is stored, or a null pointer. -/
def getParameter (key : String) (s : ParameterHandle) : Option String := (s.parameterMap.lookup key).join

/-- `SetParameter`. -/
def setParameter (key : String) (value : Option String) (s : ParameterHandle) : ParameterHandle :=
  match s.parameterMap.lookup key with
  | some _ =>
    if isEmpty value then { parameterMap := s.parameterMap.erase key }
    else { parameterMap := s.parameterMap.insert key value }
  | none => { parameterMap := s.parameterMap.insert key value }

/-- `ListParameter`. -/
def listParameter (s : ParameterHandle) : List String := s.parameterMap.keys

/-- A sequence of calls of `SetParameter`. -/
def run (ops : List (String × Option String)) : ParameterHandle :=
  ops.foldl (fun s op => setParameter op.1 op.2 s) {}

/-! ### What is to be found -/

/-- The values that were set for a key, in their order. -/
def valuesOf (ops : List (String × Option String)) (key : String) : List (Option String) :=
  (ops.filter fun op => op.1 = key).map Prod.snd

/-- The last value, where an empty one is no value. -/
def current (values : List (Option String)) : Option String := values.getLast?.join.filter fun text => text ≠ ""

/-- **A map in which an empty value means absent.** -/
structure IsMap (ops : List (String × Option String)) (s : ParameterHandle) : Prop where
  get : ∀ key, getParameter key s = current (valuesOf ops key)
  nodup : (listParameter s).Nodup
  list : ∀ key, key ∈ listParameter s ↔ (current (valuesOf ops key)).isSome

/-- How many empty values came last. -/
def emptyEnd (values : List (Option String)) : ℕ := (values.reverse.takeWhile isEmpty).length

/-- The key is there, by the values that were set: it is erased and emplaced by turns, from the last value on that is
not empty, or from the start. -/
def Present (values : List (Option String)) : Prop :=
  if emptyEnd values < values.length then emptyEnd values % 2 = 0 else emptyEnd values % 2 = 1

/-- The last value is not empty, or the key is not there. -/
def Settles (values : List (Option String)) : Prop := emptyEnd values = 0 ∨ ¬Present values

/-! ### One key -/

/-- What a call leaves of its key. -/
def slotStep : Option (Option String) → Option String → Option (Option String)
  | some _, value => if isEmpty value then none else some value
  | none, value => some value

theorem lookup_setParameter (key key' : String) (value : Option String) (s : ParameterHandle) :
    (setParameter key value s).parameterMap.lookup key' =
      if key' = key then slotStep (s.parameterMap.lookup key) value else s.parameterMap.lookup key' := by
  unfold setParameter
  by_cases hkey : key' = key
  · subst hkey
    rw [if_pos rfl]
    cases hfind : s.parameterMap.lookup key' with
    | none => simp [slotStep, AList.lookup_insert]
    | some old =>
      cases hempty : isEmpty value with
      | true => simp [slotStep, hempty, AList.lookup_erase]
      | false => simp [slotStep, hempty, AList.lookup_insert]
  · rw [if_neg hkey]
    cases hfind : s.parameterMap.lookup key with
    | none => simp [AList.lookup_insert_ne hkey]
    | some old =>
      cases hempty : isEmpty value with
      | true => simp [AList.lookup_erase_ne hkey]
      | false => simp [AList.lookup_insert_ne hkey]

theorem lookup_run (ops : List (String × Option String)) (key : String) :
    (run ops).parameterMap.lookup key = (valuesOf ops key).foldl slotStep none := by
  induction ops using List.reverseRecOn with
  | nil => rfl
  | append_singleton ops op ih =>
    rw [run, List.foldl_append, ← run, List.foldl_cons, List.foldl_nil, lookup_setParameter, valuesOf,
      List.filter_append, List.map_append, List.foldl_append, ← valuesOf, ← ih]
    by_cases hkey : key = op.1
    · subst hkey
      simp
    · have hne : ¬op.1 = key := fun heq => hkey heq.symm
      simp [hkey, hne]

theorem emptyEnd_append_singleton (values : List (Option String)) (value : Option String) :
    emptyEnd (values ++ [value]) = if isEmpty value then emptyEnd values + 1 else 0 := by
  rw [emptyEnd, List.reverse_append, List.reverse_singleton, List.singleton_append, List.takeWhile_cons]
  split_ifs <;> rfl

theorem emptyEnd_le (values : List (Option String)) : emptyEnd values ≤ values.length := by
  have hle := (List.takeWhile_prefix (l := values.reverse) isEmpty).length_le
  rwa [List.length_reverse] at hle

/-- The slot of a key holds the last value, or nothing. -/
theorem slot_spec (values : List (Option String)) :
    ((values.foldl slotStep none).isSome ↔ Present values) ∧
      ∀ value, values.foldl slotStep none = some value → values.getLast? = some value := by
  induction values using List.reverseRecOn with
  | nil => simp [Present, emptyEnd]
  | append_singleton values value ih =>
    obtain ⟨hpresent, -⟩ := ih
    have hle := emptyEnd_le values
    rw [List.foldl_append, List.foldl_cons, List.foldl_nil, List.getLast?_concat]
    unfold Present at hpresent ⊢
    rw [emptyEnd_append_singleton, List.length_append, List.length_singleton]
    cases hslot : values.foldl slotStep none with
    | none =>
      rw [hslot] at hpresent
      refine ⟨?_, fun value' hvalue' => hvalue'⟩
      simp only [slotStep, Option.isSome_some, Option.isSome_none, Bool.false_eq_true, false_iff,
        true_iff] at hpresent ⊢
      split_ifs at hpresent ⊢ <;> omega
    | some old =>
      rw [hslot] at hpresent
      cases hempty : isEmpty value with
      | true =>
        simp only [slotStep, hempty, if_true, Option.isSome_some, Option.isSome_none, Bool.false_eq_true, false_iff,
          true_iff] at hpresent ⊢
        refine ⟨?_, fun value' hvalue' => by cases hvalue'⟩
        split_ifs at hpresent ⊢ <;> omega
      | false =>
        simp only [slotStep, hempty, Bool.false_eq_true, if_false, Option.isSome_some, true_iff]
        refine ⟨?_, fun value' hvalue' => hvalue'⟩
        rw [if_pos values.length.succ_pos]
        trivial

/-- The last value tells what is to be found. -/
theorem current_append_singleton (values : List (Option String)) (value : Option String) :
    current (values ++ [value]) = if isEmpty value then none else value := by
  rw [current, List.getLast?_concat]
  cases value with
  | none => rfl
  | some text =>
    by_cases htext : text = ""
    · simp [isEmpty, htext]
    · simp [isEmpty, htext, Option.filter]

/-- What is found of one key is what is to be found exactly when its values settle. -/
theorem slot_iff (values : List (Option String)) :
    ((values.foldl slotStep none).join = current values ∧
      ((values.foldl slotStep none).isSome ↔ (current values).isSome)) ↔ Settles values := by
  obtain ⟨hpresent, hlast⟩ := slot_spec values
  cases values using List.reverseRecOn with
  | nil => simp [current, Settles, emptyEnd]
  | append_singleton values value =>
    rw [List.getLast?_concat] at hlast
    rw [current_append_singleton, Settles, emptyEnd_append_singleton, ← hpresent]
    cases hslot : (values ++ [value]).foldl slotStep none with
    | none =>
      -- the key was erased
      have hempty : isEmpty value = true := by
        rw [List.foldl_append, List.foldl_cons, List.foldl_nil] at hslot
        by_contra hne
        cases hold : values.foldl slotStep none <;> simp [hold, slotStep, hne] at hslot
      simp [hempty]
    | some found =>
      obtain rfl : value = found := Option.some.inj (hlast found hslot)
      cases hempty : isEmpty value with
      | true => simp
      | false =>
        cases value with
        | none => cases hempty
        | some text => simp

/-- **Parameters are a map in which an empty value means absent**, after a sequence of calls, exactly when the values
that were set for each key settle. -/
theorem isMap_iff (ops : List (String × Option String)) : IsMap ops (run ops) ↔ ∀ key, Settles (valuesOf ops key) := by
  have hget : ∀ key, getParameter key (run ops) = ((valuesOf ops key).foldl slotStep none).join := fun key => by
    rw [getParameter, lookup_run]
  have hlist : ∀ key, key ∈ listParameter (run ops) ↔ ((valuesOf ops key).foldl slotStep none).isSome := fun key => by
    rw [← lookup_run, AList.lookup_isSome]
    rfl
  constructor
  · intro h key
    exact (slot_iff _).1 ⟨(hget key).symm.trans (h.get key), (hlist key).symm.trans (h.list key)⟩
  · intro h
    refine ⟨fun key => (hget key).trans ((slot_iff _).2 (h key)).1, AList.keys_nodup _, fun key => ?_⟩
    exact (hlist key).trans ((slot_iff _).2 (h key)).2

/-- An empty value for a key that is not there. -/
theorem not_isMap : ¬IsMap [("k", some "")] (run [("k", some "")]) := by
  intro h
  have hget := h.get "k"
  revert hget
  decide

end ParameterHandle

end AimRT.Core

import Mathlib.Data.List.AList
import AimRT.Util.KeyValue
import AimRT.Util.ListSearch

/-!
# Values of keys

`SplitToMap` splits a string like `a=1&b=2` with separators of any length, and `GetValueFromStrKV` looks for the value
of a key without splitting: at a place of the text of the key it takes what stands between the last `vsep` in front and
the next `msep` behind for the key, and goes on behind this `msep` when it is not the key.

So it does not see a key when its text occurs before, behind the last `msep` in front of the part of the key.  With
separators that overlap or that are made of blanks it also takes for a key what the split does not.
-/

namespace AimRT.Util.StringView

open AimRT.Lib AimRT.Lib.StringView

/-! ### The split -/

/-- A part of the string is divided at its first `msep`. -/
def putKV (msep : Bytes) (trims clear : Bool) (kvStr : Bytes) (result : AList fun _ : Bytes => Bytes) :
    AList fun _ : Bytes => Bytes :=
  match find kvStr msep 0 with
  | none => result
  | some msepPos =>
    let first := strip trims (kvStr.take msepPos)
    let second := strip trims (kvStr.drop (msepPos + msep.length))
    if clear = true ∧ first = [] then result else result.insert first second

/-- The loop of `SplitToMap`, from the start of a part. -/
def mapLoop (source vsep msep : Bytes) (hvsep : vsep ≠ []) (trims clear : Bool) (vPosStart : ℕ)
    (result : AList fun _ : Bytes => Bytes) : AList fun _ : Bytes => Bytes :=
  let vPosEnd := findOrEnd source vsep vPosStart
  let result :=
    if vPosEnd > vPosStart then putKV msep trims clear (between source vPosStart vPosEnd) result else result
  if vPosEnd < source.length then
    mapLoop source vsep msep hvsep trims clear (vPosEnd + vsep.length) result
  else result
termination_by source.length - vPosStart
decreasing_by
  rename_i hlt
  have hle := (find_eq_some.1 (find_of_findOrEnd_lt hlt)).1
  have hpos := List.length_pos_iff.2 hvsep
  omega

/-- `SplitToMap`. -/
def splitToMap (source vsep msep : Bytes) (trims clear : Bool) : AList fun _ : Bytes => Bytes :=
  if h : source = [] ∨ vsep = [] ∨ msep = [] ∨ vsep = msep then ∅
  else mapLoop source vsep msep (fun hvsep => h (.inr (.inl hvsep))) trims clear 0 ∅

/-! ### The search -/

/-- What is tried at a place of the text of the key, with the next `msep` behind it. -/
def isKey (str key vsep : Bytes) (trims : Bool) (keyPos msepPos : ℕ) : Bool :=
  let keyStartPos := startBehind str vsep keyPos
  if trims then trim (between str keyStartPos msepPos) = key
  else keyStartPos = keyPos ∧ msepPos = keyPos + key.length

/-- What stands behind an `msep`, up to the next `vsep`. -/
def valueBehind (str vsep msep : Bytes) (trims : Bool) (msepPos : ℕ) : Bytes :=
  let valStartPos := msepPos + msep.length
  strip trims (between str valStartPos (findOrEnd str vsep valStartPos))

/-- The loop of `GetValueFromStrKV`, from the position at which it searches. -/
def valueLoop (str key vsep msep : Bytes) (hkey : key ≠ []) (trims : Bool) (pos : ℕ) : Bytes :=
  match _hkeyPos : find str key pos with
  | none => []
  | some keyPos =>
    match _hmsepPos : find str msep (keyPos + key.length) with
    | none => []
    | some msepPos =>
      if isKey str key vsep trims keyPos msepPos then valueBehind str vsep msep trims msepPos
      else valueLoop str key vsep msep hkey trims (msepPos + msep.length)
termination_by str.length - pos
decreasing_by
  obtain ⟨hle, hoccurs, -⟩ := find_eq_some.1 _hkeyPos
  have hbehind := (find_eq_some.1 _hmsepPos).1
  have hlen := hoccurs.length_le
  have hpos := List.length_pos_iff.2 hkey
  omega

/-- `GetValueFromStrKV`. -/
def getValueFromStrKV (str key vsep msep : Bytes) (trims : Bool) : Bytes :=
  if h : key = [] ∨ vsep = [] ∨ msep = [] ∨ vsep = msep then []
  else if (find key vsep 0).isSome || (find key msep 0).isSome then []
  else valueLoop str key vsep msep (fun hkey => h (.inl hkey)) trims 0

/-! ### Keys -/

/-- The part that starts at `a` has the key, in front of its first `msep`, at `m`. -/
structure HasKey (str key vsep msep : Bytes) (trims : Bool) (a m : ℕ) : Prop where
  first : find str msep a = some m
  within : m + msep.length ≤ findOrEnd str vsep a
  key : strip trims (between str a m) = key

/-- No text of the key in front of the position hides what stands there: behind each of them is an `msep`. -/
def Visible (str key msep : Bytes) (a : ℕ) : Prop :=
  ∀ k < a, Occurs key str k → ∃ j, Occurs msep str j ∧ k ≤ j ∧ j < a

/-- The key is that of one part at most. -/
def AtMostOnce (str key vsep msep : Bytes) (trims : Bool) : Prop :=
  ∀ a m a' m', Cut vsep str a → HasKey str key vsep msep trims a m → Cut vsep str a' →
    HasKey str key vsep msep trims a' m' → a = a'

/-- A text of the key at `k`, which is not hidden, stands alone between the last `vsep` and the next `msep`, at `m`. -/
structure Stands (str key vsep msep : Bytes) (trims : Bool) (k m : ℕ) : Prop where
  occurs : Occurs key str k
  visible : Visible str key msep k
  next : find str msep (k + key.length) = some m
  key : strip trims (between str (startBehind str vsep k) m) = key

variable {str key vsep msep : Bytes} {trims : Bool} {a k m pos : ℕ}

/-! ### What the split stores -/

section Split

variable (hmsep : msep ≠ []) (hne : key ≠ [])

include hmsep hne

/-- A part with the key changes its value, and no other part does. -/
theorem lookup_putKV (hle : a ≤ findOrEnd str vsep a) (result : AList fun _ : Bytes => Bytes) :
    (∃ m, HasKey str key vsep msep trims a m ∧
      (putKV msep trims true (between str a (findOrEnd str vsep a)) result).lookup key =
        some (valueBehind str vsep msep trims m)) ∨
    ((∀ m, ¬HasKey str key vsep msep trims a m) ∧
      (putKV msep trims true (between str a (findOrEnd str vsep a)) result).lookup key = result.lookup key) := by
  have hend := findOrEnd_le str vsep a
  unfold putKV
  cases hfind : find (between str a (findOrEnd str vsep a)) msep 0 with
  | none =>
    refine .inr ⟨fun m h => ?_, rfl⟩
    have ham := (find_eq_some.1 h.first).1
    have hsome : find (between str a (findOrEnd str vsep a)) msep 0 = some (m - a) := by
      rw [find_between_eq_some hle hend, Nat.add_sub_of_le ham]
      exact ⟨h.first, h.within⟩
    rw [hfind] at hsome
    cases hsome
  | some i =>
    obtain ⟨hfirst, hwithin⟩ := (find_between_eq_some hle hend).1 hfind
    have hlen := List.length_pos_iff.2 hmsep
    dsimp only
    rw [take_between (by omega), drop_between (by omega), ← Nat.add_assoc]
    by_cases hkey : strip trims (between str a (a + i)) = key
    · have hends : findOrEnd str vsep a = findOrEnd str vsep (a + i + msep.length) :=
        findOrEnd_eq_of_not_occurs (by omega) fun j hj hlt => not_occurs_of_lt_findOrEnd hj (by omega)
      refine .inl ⟨a + i, ⟨hfirst, hwithin, hkey⟩, ?_⟩
      rw [hkey, if_neg fun h => hne h.2, AList.lookup_insert, hends]
      rfl
    · refine .inr ⟨fun m h => ?_, ?_⟩
      · obtain rfl := Option.some.inj (hfirst.symm.trans h.first)
        exact hkey h.key
      · split_ifs
        · rfl
        · exact AList.lookup_insert_ne (Ne.symm hkey)

theorem lookup_mapLoop (trims : Bool) (hvsep : vsep ≠ []) (hpos : pos ≤ str.length)
    (result : AList fun _ : Bytes => Bytes) :
    (∃ a m, CutFrom vsep str pos a ∧ HasKey str key vsep msep trims a m ∧
      (mapLoop str vsep msep hvsep trims true pos result).lookup key = some (valueBehind str vsep msep trims m)) ∨
    ((∀ a m, CutFrom vsep str pos a → ¬HasKey str key vsep msep trims a m) ∧
      (mapLoop str vsep msep hvsep trims true pos result).lookup key = result.lookup key) := by
  induction hn : str.length - pos using Nat.strong_induction_on generalizing pos result with
  | _ n ih =>
    have hle : pos ≤ findOrEnd str vsep pos := le_findOrEnd hpos
    obtain ⟨result', hresult', hput⟩ : ∃ result',
        result' = (if findOrEnd str vsep pos > pos then
          putKV msep trims true (between str pos (findOrEnd str vsep pos)) result else result) ∧
        ((∃ m, HasKey str key vsep msep trims pos m ∧
            result'.lookup key = some (valueBehind str vsep msep trims m)) ∨
          ((∀ m, ¬HasKey str key vsep msep trims pos m) ∧ result'.lookup key = result.lookup key)) := by
      refine ⟨_, rfl, ?_⟩
      split_ifs with hgt
      · exact lookup_putKV hmsep hne hle result
      · refine .inr ⟨fun m h => ?_, rfl⟩
        have hlen := List.length_pos_iff.2 hmsep
        have ham := (find_eq_some.1 h.first).1
        have hwithin := h.within
        omega
    rw [mapLoop, ← hresult']
    by_cases hlt : findOrEnd str vsep pos < str.length
    · rw [if_pos hlt]
      have hlen := List.length_pos_iff.2 hvsep
      have hnext := (find_eq_some.1 (find_of_findOrEnd_lt hlt)).2.1.length_le
      rcases ih _ (by omega) hnext result' rfl with ⟨a, m, hcut, hkey, heq⟩ | ⟨hnone, heq⟩
      · exact .inl ⟨a, m, (cutFrom_iff hvsep).2 (.inr ⟨hlt, hcut⟩), hkey, heq⟩
      · rcases hput with ⟨m, hkey, hval⟩ | ⟨hnot, hval⟩
        · exact .inl ⟨pos, m, Relation.ReflTransGen.refl, hkey, heq.trans hval⟩
        · refine .inr ⟨fun a m hcut => ?_, heq.trans hval⟩
          rcases (cutFrom_iff hvsep).1 hcut with rfl | ⟨-, hrest⟩
          · exact hnot m
          · exact hnone a m hrest
    · rw [if_neg hlt]
      rcases hput with ⟨m, hkey, hval⟩ | ⟨hnot, hval⟩
      · exact .inl ⟨pos, m, Relation.ReflTransGen.refl, hkey, hval⟩
      · refine .inr ⟨fun a m hcut => ?_, hval⟩
        rcases (cutFrom_iff hvsep).1 hcut with rfl | ⟨hlt', -⟩
        · exact hnot m
        · exact absurd hlt' hlt

/-- **The map of the split** has the value of a part with the key, if there is one. -/
theorem lookup_splitToMap (str : Bytes) (trims : Bool) (hvsep : vsep ≠ []) (hdiff : vsep ≠ msep) :
    (∃ a m, Cut vsep str a ∧ HasKey str key vsep msep trims a m ∧
      (splitToMap str vsep msep trims true).lookup key = some (valueBehind str vsep msep trims m)) ∨
    ((∀ a m, Cut vsep str a → ¬HasKey str key vsep msep trims a m) ∧
      (splitToMap str vsep msep trims true).lookup key = none) := by
  unfold splitToMap
  by_cases hstr : str = []
  · -- there is no part with an `msep`
    rw [dif_pos (.inl hstr)]
    refine .inr ⟨fun a m _ h => ?_, AList.lookup_empty key⟩
    have hlen := (find_eq_some.1 h.first).2.1.length_le
    rw [hstr, List.length_nil] at hlen
    have hpos := List.length_pos_iff.2 hmsep
    omega
  · rw [dif_neg (by simp [hstr, hvsep, hmsep, hdiff])]
    have hloop := lookup_mapLoop hmsep hne trims hvsep (Nat.zero_le str.length) ∅
    rwa [AList.lookup_empty] at hloop

end Split

/-! ### What the search finds -/

/-- The search stops where the text of the key, or an `msep` behind it, is missing. -/
theorem valueLoop_eq_nil (hne : key ≠ [])
    (h : ∀ k, find str key pos = some k → find str msep (k + key.length) = none) :
    valueLoop str key vsep msep hne trims pos = [] := by
  rw [valueLoop]
  split
  next => rfl
  next k hfind =>
    split
    next => rfl
    next m hnext =>
      rw [h k hfind] at hnext
      cases hnext

theorem valueLoop_step (hne : key ≠ []) (hfind : find str key pos = some k)
    (hnext : find str msep (k + key.length) = some m) : valueLoop str key vsep msep hne trims pos =
      if isKey str key vsep trims k m then valueBehind str vsep msep trims m
      else valueLoop str key vsep msep hne trims (m + msep.length) := by
  rw [valueLoop]
  split
  next hnone =>
    rw [hfind] at hnone
    cases hnone
  next k' hfind' =>
    obtain rfl := Option.some.inj (hfind'.symm.trans hfind)
    split
    next hnone =>
      rw [hnext] at hnone
      cases hnone
    next m' hnext' =>
      obtain rfl := Option.some.inj (hnext'.symm.trans hnext)
      rfl

section Search

variable (hv : Apart key vsep str) (hm : Apart key msep str) (hne : key ≠ []) (hmsep : msep ≠ [])

include hv hne in
theorem isKey_iff (hk : Occurs key str k) (hnext : find str msep (k + key.length) = some m) :
    isKey str key vsep trims k m = true ↔ strip trims (between str (startBehind str vsep k) m) = key := by
  obtain ⟨hkm, hoccurs, -⟩ := find_eq_some.1 hnext
  exact tried_iff hk (hv.startBehind_le hk hne) hkm hoccurs.1

include hm hmsep in
/-- The first text of the key behind an `msep` is not hidden. -/
theorem visible_of_find (hpos : Bound msep str pos) (hfind : find str key pos = some k) :
    Visible str key msep k := by
  obtain ⟨hle, hk, hfirst⟩ := find_eq_some.1 hfind
  intro k' hlt hk'
  by_cases hin : pos ≤ k'
  · exact absurd hk' (hfirst k' hin hlt)
  · rcases hpos with rfl | ⟨p, hp, rfl⟩
    · exact absurd (Nat.zero_le k') hin
    · have hlen := List.length_pos_iff.2 hmsep
      rcases hm k' p hk' hp with hbefore | hbehind
      · exact ⟨p, hp, by omega, by omega⟩
      · exact absurd hbehind hin

include hm hmsep in
/-- One that is not hidden is the first one, or behind the `msep` that follows on the first one. -/
theorem Visible.eq_or_le {k' m' : ℕ} (hvisible : Visible str key msep k) (hk : Occurs key str k)
    (hk' : Occurs key str k') (hle : k' ≤ k) (hnext : find str msep (k' + key.length) = some m') :
    k = k' ∨ m' + msep.length ≤ k := by
  rcases hle.lt_or_eq with hlt | rfl
  · obtain ⟨-, hm', hfirst⟩ := find_eq_some.1 hnext
    obtain ⟨j, hj, hkj, hjk⟩ := hvisible k' hlt hk'
    have hlen := List.length_pos_iff.2 hmsep
    have hbehind : k' + key.length ≤ j := (hm k' j hk' hj).resolve_right (by omega)
    have hle' : m' ≤ j := Nat.le_of_not_lt fun hlt' => hfirst j hbehind hlt' hj
    rcases hm k m' hk hm' with h | h
    · omega
    · exact .inr h
  · exact .inl rfl

include hv hm hmsep in
theorem valueLoop_cases (trims : Bool) (hpos : Bound msep str pos) :
    (∃ k m, pos ≤ k ∧ Stands str key vsep msep trims k m ∧
      valueLoop str key vsep msep hne trims pos = valueBehind str vsep msep trims m) ∨
    ((∀ k m, pos ≤ k → ¬Stands str key vsep msep trims k m) ∧ valueLoop str key vsep msep hne trims pos = []) := by
  induction hn : str.length - pos using Nat.strong_induction_on generalizing pos with
  | _ n ih =>
    cases hfind : find str key pos with
    | none =>
      exact .inr ⟨fun k m hle h => find_eq_none.1 hfind k hle h.occurs, valueLoop_eq_nil hne fun k hk => by
        rw [hfind] at hk
        cases hk⟩
    | some k' =>
      obtain ⟨hle, hk', hfirst⟩ := find_eq_some.1 hfind
      have hfront : ∀ {k m}, pos ≤ k → Stands str key vsep msep trims k m → k' ≤ k := fun hpos' h =>
        Nat.le_of_not_lt fun hlt => hfirst _ hpos' hlt h.occurs
      cases hnext : find str msep (k' + key.length) with
      | none =>
        refine .inr ⟨fun k m hpos' h => ?_, valueLoop_eq_nil hne fun k hk => ?_⟩
        · have hkm := (find_eq_some.1 h.next).1
          have hkk := hfront hpos' h
          exact find_eq_none.1 hnext m (by omega) (find_eq_some.1 h.next).2.1
        · obtain rfl := Option.some.inj (hfind.symm.trans hk)
          exact hnext
      | some m' =>
        obtain ⟨hkm, hm', -⟩ := find_eq_some.1 hnext
        rw [valueLoop_step hne hfind hnext]
        split_ifs with hkey
        · exact .inl ⟨k', m', hle, ⟨hk', visible_of_find hm hmsep hpos hfind, hnext,
            (isKey_iff hv hne hk' hnext).1 hkey⟩, rfl⟩
        · have hlen := List.length_pos_iff.2 hne
          have hlt := hk'.length_le
          rcases ih _ (by omega) (.inr ⟨m', hm', rfl⟩) rfl with ⟨k, m, hle', h, heq⟩ | ⟨hnone, heq⟩
          · exact .inl ⟨k, m, by omega, h, heq⟩
          · refine .inr ⟨fun k m hpos' h => ?_, heq⟩
            rcases Visible.eq_or_le hm hmsep h.visible h.occurs hk' (hfront hpos' h) hnext with rfl | hbehind
            · obtain rfl := Option.some.inj (hnext.symm.trans h.next)
              exact hkey ((isKey_iff hv hne hk' hnext).2 h.key)
            · exact hnone k m hbehind h

/-! ### The key of a part -/

include hv hne in
/-- What stands around a key that stands alone. -/
theorem Stands.filler (h : Stands str key vsep msep trims k m) :
    Filler trims (between str (startBehind str vsep k) k) ∧ Filler trims (between str (k + key.length) m) := by
  have hsplit := h.occurs.between_split (hv.startBehind_le h.occurs hne) (find_eq_some.1 h.next).1
  have hkey := h.key
  rw [hsplit] at hkey
  exact (strip_append_iff (strip_of_eq h.key) hne).1 hkey

include hv hne in
/-- The search takes the key of a part that is not hidden for the key. -/
theorem HasKey.stands (h : HasKey str key vsep msep trims a m) (ha : Bound vsep str a)
    (hvisible : Visible str key msep a) : ∃ k, Stands str key vsep msep trims k m := by
  obtain ⟨ham, hm', hfirst⟩ := find_eq_some.1 h.first
  have hstrip := strip_of_eq h.key
  obtain ⟨k, hak, hkm, hk, hfront, hback⟩ := exists_occurs_of_strip ham hm'.1 h.key
  have hstart := hv.startBehind_le hk hne
  refine ⟨k, hk, fun k' hlt hk' => ?_, find_eq_some.2 ⟨hkm, hm', fun j hj hlt => hfirst j (by omega) hlt⟩, ?_⟩
  · by_cases hin : a ≤ k'
    · exact absurd hfront (not_filler_of_occurs hne hstrip hk' hin hlt)
    · obtain ⟨j, hj, hkj, hja⟩ := hvisible k' (Nat.not_le.1 hin) hk'
      exact ⟨j, hj, hkj, by omega⟩
  · rw [hk.between_split hstart hkm]
    refine strip_append hstrip hne (fun x hx => hfront x ?_) hback
    exact between_subset (ha.le_startBehind hak) hstart hx

include hv hne in
/-- And it takes nothing else in front of the same `msep` for it. -/
theorem HasKey.visible (h : HasKey str key vsep msep trims a m) (ha : Bound vsep str a)
    (hstands : Stands str key vsep msep trims k m) : Visible str key msep a := by
  obtain ⟨ham, hm', hfirst⟩ := find_eq_some.1 h.first
  have hstrip := strip_of_eq h.key
  have hlen := List.length_pos_iff.2 hne
  obtain ⟨k₀, hak, hkm, hk₀, -, -⟩ := exists_occurs_of_strip ham hm'.1 h.key
  have hle : a ≤ k := by
    by_contra hlt
    rcases ha with rfl | ⟨p, hp, rfl⟩
    · exact hlt (Nat.zero_le k)
    · -- the text of the key in the part is among the blanks behind the other one
      have hbefore := (hv k p hstands.occurs hp).resolve_right (by omega)
      exact not_filler_of_occurs hne hstrip hk₀ (by omega) (by omega) (hstands.filler hv hne).2
  intro k' hlt hk'
  obtain ⟨j, hj, hkj, hjk⟩ := hstands.visible k' (by omega) hk'
  have hkm' := (find_eq_some.1 hstands.next).1
  exact ⟨j, hj, hkj, Nat.lt_of_not_le fun haj => hfirst j haj (by omega) hj⟩

/-! ### Both -/

include hne hmsep in
theorem getValueFromStrKV_eq (hvsep : vsep ≠ []) (hdiff : vsep ≠ msep) (hnotv : ∀ i, ¬Occurs vsep key i)
    (hnotm : ∀ i, ¬Occurs msep key i) :
    getValueFromStrKV str key vsep msep trims = valueLoop str key vsep msep hne trims 0 := by
  have hfindv : find key vsep 0 = none := find_eq_none.2 fun i _ => hnotv i
  have hfindm : find key msep 0 = none := find_eq_none.2 fun i _ => hnotm i
  rw [getValueFromStrKV, dif_neg (by simp [hne, hvsep, hmsep, hdiff]), if_neg (by simp [hfindv, hfindm])]

include hv hm hmsep in
theorem valueLoop_agrees_iff (hvsep : vsep ≠ []) (hdiff : vsep ≠ msep)
    (honce : AtMostOnce str key vsep msep trims)
    (hparts : ∀ k m, Stands str key vsep msep trims k m → ∃ a, Cut vsep str a ∧ HasKey str key vsep msep trims a m) :
    valueLoop str key vsep msep hne trims 0 = ((splitToMap str vsep msep trims true).lookup key).getD [] ↔
      ∀ a m, Cut vsep str a → HasKey str key vsep msep trims a m →
        Visible str key msep a ∨ valueBehind str vsep msep trims m = [] := by
  rcases lookup_splitToMap hmsep hne str trims hvsep hdiff with
    ⟨a, m, hcut, hkey, hlookup⟩ | ⟨hnone, hlookup⟩
  · have hsame : ∀ {a' m'}, Cut vsep str a' → HasKey str key vsep msep trims a' m' → a' = a ∧ m' = m := by
      intro a' m' hcut' hkey'
      obtain rfl := honce a m a' m' hcut hkey hcut' hkey'
      exact ⟨rfl, Option.some.inj (hkey'.first.symm.trans hkey.first)⟩
    have hone : (∀ a m, Cut vsep str a → HasKey str key vsep msep trims a m →
        Visible str key msep a ∨ valueBehind str vsep msep trims m = []) ↔
          Visible str key msep a ∨ valueBehind str vsep msep trims m = [] := by
      refine ⟨fun h => h a m hcut hkey, fun h a' m' hcut' hkey' => ?_⟩
      obtain ⟨rfl, rfl⟩ := hsame hcut' hkey'
      exact h
    rw [hlookup, hone, Option.getD_some]
    rcases valueLoop_cases hv hm hne hmsep trims (.inl rfl) with
      ⟨k, m', -, hstands, heq⟩ | ⟨hnever, heq⟩
    · -- the search takes a part for that of the key, and there is only one
      obtain ⟨a', hcut', hkey'⟩ := hparts k m' hstands
      obtain ⟨rfl, rfl⟩ := hsame hcut' hkey'
      exact iff_of_true heq (.inl (hkey.visible hv hne hcut.bound hstands))
    · rw [heq]
      have hhidden : ¬Visible str key msep a := fun hvisible =>
        have ⟨k, hstands⟩ := hkey.stands hv hne hcut.bound hvisible
        hnever k m (Nat.zero_le k) hstands
      rw [or_iff_right hhidden, eq_comm]
  · rw [hlookup, Option.getD_none]
    refine iff_of_true ?_ fun a m hcut hkey => absurd hkey (hnone a m hcut)
    rcases valueLoop_cases hv hm hne hmsep trims (.inl rfl) with ⟨k, m, -, hstands, -⟩ | ⟨-, heq⟩
    · obtain ⟨a, hcut, hkey⟩ := hparts k m hstands
      exact absurd hkey (hnone a m hcut)
    · exact heq

theorem filler_of_occurs {t : Bytes} {b j : ℕ} (hj : Occurs t str j) (ha : a ≤ j) (hb : j + t.length ≤ b)
    (h : Filler trims (between str a b)) : Filler trims t := by
  intro x hx
  refine h x ?_
  rw [hj.between_split ha hb]
  simp [hx]

include hv hm hne in
/-- Where separators neither overlap nor are trimmed away, what stands like a key is the key of a part. -/
theorem Stands.hasKey (h : Stands str key vsep msep trims k m) (hvsep : vsep ≠ []) (hseparate : Separate vsep str)
    (hclear : Apart msep vsep str) (hv' : ¬Filler trims vsep) (hm' : ¬Filler trims msep) :
    Cut vsep str (startBehind str vsep k) ∧ HasKey str key vsep msep trims (startBehind str vsep k) m := by
  obtain ⟨hkm, hoccurs, hfirst⟩ := find_eq_some.1 h.next
  obtain ⟨hfront, hback⟩ := h.filler hv hne
  have hstart := hv.startBehind_le h.occurs hne
  have hlen := List.length_pos_iff.2 hne
  refine ⟨hseparate.cut_of_bound hvsep (bound_startBehind _ _ _), ?_, ?_, h.key⟩
  · refine find_eq_some.2 ⟨by omega, hoccurs, fun j hj hlt hocc => ?_⟩
    rcases hm k j h.occurs hocc with hle | hle
    · exact hfirst j hle hlt hocc
    · exact hm' (filler_of_occurs hocc hj hle hfront)
  · by_contra hend
    have hwhole := hoccurs.length_le
    obtain ⟨hj, hocc, -⟩ := find_eq_some.1 (find_of_findOrEnd_lt (Nat.lt_of_lt_of_le (Nat.not_le.1 hend) hwhole))
    rcases hv k _ h.occurs hocc with hle | hle
    · rcases hclear m _ hoccurs hocc with hle' | hle'
      · exact hend hle'
      · exact hv' (filler_of_occurs hocc hle hle' hback)
    · have hlen' := List.length_pos_iff.2 hvsep
      exact not_occurs_of_startBehind_le hj (by omega) hvsep hocc

end Search

section Bytes

variable {x y : UInt8} (hxy : x ≠ y) (hx : x ≠ 32) (hy : y ≠ 32) (hxkey : x ∉ key) (hykey : y ∉ key)

include hxy hx hy hxkey hykey

theorem Stands.hasKey_singleton (hne : key ≠ []) (h : Stands str key [x] [y] trims k m) :
    ∃ a, Cut [x] str a ∧ HasKey str key [x] [y] trims a m := by
  have hclear : ∀ {z : UInt8}, z ≠ 32 → ¬Filler trims [z] := fun hz hfiller => hz (hfiller _ (by simp)).2
  have hapart : Apart [y] [x] str := apart_singleton (by simpa using hxy) str
  exact ⟨_, h.hasKey (apart_singleton hxkey str) (apart_singleton hykey str) hne (by simp)
    (separate_singleton x str) hapart (hclear hx) (hclear hy)⟩

/-- For separators of one byte, like `&` and `=`, nothing but the text of the key can be in the way. -/
theorem getValueFromStrKV_agrees_singleton (hne : key ≠ []) (honce : AtMostOnce str key [x] [y] trims) :
    getValueFromStrKV str key [x] [y] trims = ((splitToMap str [x] [y] trims true).lookup key).getD [] ↔
      ∀ a m, Cut [x] str a → HasKey str key [x] [y] trims a m →
        Visible str key [y] a ∨ valueBehind str [x] [y] trims m = [] := by
  have hdiff : [x] ≠ [y] := by simpa using hxy
  rw [getValueFromStrKV_eq hne (by simp) (by simp) hdiff (not_occurs_singleton hxkey) (not_occurs_singleton hykey)]
  exact valueLoop_agrees_iff (apart_singleton hxkey str) (apart_singleton hykey str) hne (by simp) (by simp) hdiff
    honce fun k m h => h.hasKey_singleton hxy hx hy hxkey hykey hne

end Bytes

/-! ### The search with separators of one byte -/

theorem strip_eq_ite (trims : Bool) (w : Bytes) : (if trims then trim else id) w = strip trims w := by
  cases trims <;> rfl

/-- The text between a position and the next byte of a kind. -/
theorem between_findOrEnd_singleton (str : Bytes) (c : UInt8) (pos : ℕ) :
    between str pos (findOrEnd str [c] pos) = (str.drop pos).takeWhile (· != c) := by
  by_cases hmem : c ∈ str.drop pos
  · obtain ⟨t, w, hdrop, ht⟩ := List.eq_append_cons_of_mem hmem
    rw [findOrEnd_of_find (find_singleton hdrop ht), between_of_le (Nat.le_add_right _ _), hdrop,
      Nat.add_sub_cancel_left, List.take_left, Splitting.takeWhile_of_notMem ht]
    simp
  · have htake : (str.drop pos).takeWhile (· != c) = str.drop pos :=
      List.takeWhile_eq_self_iff.2 fun x hx => by simpa using fun heq : x = c => hmem (heq ▸ hx)
    rw [findOrEnd, find_singleton_of_notMem hmem, Option.getD_none, between_length, htake]

/-- What is tried at a place, in bytes. -/
theorem isKey_singleton {vsep msep : UInt8} {pre t w : Bytes} (hne : key ≠ []) (hv : vsep ∉ key)
    (hstr : str = pre ++ key ++ (t ++ msep :: w))
    (hnext : find str [msep] (pre.length + key.length) = some (pre.length + key.length + t.length)) :
    isKey str key [vsep] trims pre.length (pre.length + key.length + t.length) = true ↔
      strip trims (pre.rtakeWhile (· != vsep) ++ key ++ t) = key := by
  have hk : Occurs key str pre.length := occurs_of_append _ _ hstr
  have hapart : Apart key [vsep] str := apart_singleton hv str
  have hnot : ¬Occurs [vsep] str pre.length := fun hoccurs => by
    have hlen := List.length_pos_iff.2 hne
    rcases hapart _ _ hk hoccurs with h | h
    · omega
    · rw [List.length_singleton] at h
      omega
  have htake : str.take pre.length = pre := by
    rw [hstr, List.append_assoc]
    exact List.take_left
  have hbetween : between str (pre.length + key.length) (pre.length + key.length + t.length) = t := by
    rw [between_of_le (Nat.le_add_right _ _), Nat.add_sub_cancel_left, hstr, ← List.length_append, List.drop_left,
      List.take_left]
  rw [isKey_iff hapart hne hk hnext, hk.between_split (hapart.startBehind_le hk hne) (Nat.le_add_right _ _),
    between_startBehind_singleton hk.1 hnot, htake, hbetween]

theorem valueLoop_singleton {vsep msep : UInt8} (hne : key ≠ []) (hv : vsep ∉ key) (before : Bytes) {rest : Bytes}
    (hstr : str = before ++ rest) : valueLoop str key [vsep] [msep] hne trims before.length =
      searchStrKV key vsep msep trims before rest := by
  induction hn : rest.length using Nat.strong_induction_on generalizing before rest with
  | _ n ih =>
    have hfinds : find str key before.length = ((str.drop before.length).dropInfix? key).map fun r =>
        before.length + r.1.length := find_eq_dropInfix? (by rw [hstr]; simp)
    have hrest : str.drop before.length = rest := by rw [hstr, List.drop_left]
    rw [hrest] at hfinds
    cases hdrop : rest.dropInfix? key with
    | none =>
      rw [hdrop, Option.map_none] at hfinds
      rw [searchStrKV_eq_nil fun r hr => by simp [hdrop] at hr, valueLoop_eq_nil hne fun k hk => by simp [hfinds] at hk]
    | some r =>
      obtain ⟨skipped, behind⟩ := r
      rw [hdrop, Option.map_some, ← List.length_append] at hfinds
      have hsplit : str = before ++ skipped ++ key ++ behind := by
        rw [hstr, (Splitting.dropInfix?_eq_some.1 hdrop).1]
        simp only [List.append_assoc]
      have hbehind : str.drop ((before ++ skipped).length + key.length) = behind := by
        rw [hsplit, ← List.length_append, List.drop_left]
      by_cases hmem : msep ∈ behind
      · obtain ⟨t, w, rfl, ht⟩ := List.eq_append_cons_of_mem hmem
        have hnext := find_singleton hbehind ht
        have hdone : str = before ++ skipped ++ key ++ t ++ [msep] ++ w := by
          simpa only [List.append_assoc, List.singleton_append] using hsplit
        have hlen : (before ++ skipped).length + key.length + t.length + [msep].length =
            (before ++ skipped ++ key ++ t ++ [msep]).length := by
          simp only [List.length_append]
        have hleft : str.drop (before ++ skipped ++ key ++ t ++ [msep]).length = w := by rw [hdone, List.drop_left]
        have hshorter : w.length < n := by
          have hlength := congrArg List.length (Splitting.dropInfix?_eq_some.1 hdrop).1
          rw [List.length_append, List.length_append, List.length_append, List.length_cons] at hlength
          omega
        have htake : (t ++ msep :: w).takeWhile (· != msep) = t := by
          rw [Splitting.takeWhile_of_notMem ht]
          simp
        have htail : ((t ++ msep :: w).dropWhile (· != msep)).tail = w := by
          rw [Splitting.dropWhile_of_notMem ht]
          simp
        rw [valueLoop_step hne hfinds hnext, searchStrKV_step hdrop hmem, htake, htail, strip_eq_ite, strip_eq_ite,
          valueBehind, between_findOrEnd_singleton, hlen, hleft, ih _ hshorter _ hdone rfl]
        exact if_congr (isKey_singleton hne hv hsplit hnext) rfl rfl
      · rw [searchStrKV_eq_nil fun r hr => by
          obtain rfl := Option.some.inj (hdrop.symm.trans hr)
          exact hmem]
        refine valueLoop_eq_nil hne fun k hk => ?_
        obtain rfl := Option.some.inj (hfinds.symm.trans hk)
        exact find_singleton_of_notMem (by rwa [hbehind])

/-- It is the search for separators of one byte. -/
theorem getValueFromStrKV_singleton (str key : Bytes) (vsep msep : UInt8) (trims : Bool) :
    getValueFromStrKV str key [vsep] [msep] trims = Util.getValueFromStrKV str key vsep msep trims := by
  rw [getValueFromStrKV, Util.getValueFromStrKV]
  by_cases h : key = [] ∨ vsep = msep
  · rw [dif_pos (by simpa using h), if_pos h]
  · have hfind : ((find key [vsep] 0).isSome || (find key [msep] 0).isSome) = true ↔ vsep ∈ key ∨ msep ∈ key := by
      rw [Bool.or_eq_true, isSome_find_singleton, isSome_find_singleton]
    rw [dif_neg (by simpa using h), if_neg h]
    by_cases hmem : vsep ∈ key ∨ msep ∈ key
    · rw [if_pos (hfind.2 hmem), if_pos hmem]
    · rw [if_neg (mt hfind.1 hmem), if_neg hmem]
      exact valueLoop_singleton (fun hkey => h (.inl hkey)) (fun hv => hmem (.inl hv)) [] rfl

/-! ### A key that is found, and one that is not -/

/-- The parts of a string with one separator. -/
theorem cut_two {s : Bytes} {x : UInt8} {b : ℕ} (hfind : findOrEnd s [x] 0 = b)
    (hlast : findOrEnd s [x] (b + 1) = s.length) (hcut : Cut [x] s a) : a = 0 ∨ a = b + 1 := by
  rcases (cutFrom_iff (by simp)).1 hcut with rfl | ⟨-, hrest⟩
  · exact .inl rfl
  · rw [hfind] at hrest
    rcases (cutFrom_iff (by simp)).1 hrest with rfl | ⟨hlt, -⟩
    · exact .inr rfl
    · exact absurd hlt (by rw [List.length_singleton, hlast]; exact Nat.lt_irrefl _)

/-- A string of two parts whose second one has the key. -/
theorem eq_of_hasKey {s key : Bytes} {x y : UInt8} {b : ℕ} (m₀ : ℕ) (hfind : findOrEnd s [x] 0 = b)
    (hlast : findOrEnd s [x] (b + 1) = s.length) (hmsep : find s [y] 0 = some m₀)
    (hfirst : strip trims (between s 0 m₀) ≠ key) (hcut : Cut [x] s a) (hkey : HasKey s key [x] [y] trims a m) :
    a = b + 1 := by
  rcases cut_two hfind hlast hcut with rfl | rfl
  · obtain rfl := Option.some.inj (hkey.first.symm.trans hmsep)
    exact absurd hkey.key hfirst
  · rfl

end AimRT.Util.StringView

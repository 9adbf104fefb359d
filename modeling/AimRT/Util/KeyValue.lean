import AimRT.Lib.Splitting
import AimRT.Util.Context

/-!
# The value of a key

`GetValueFromStrKV` finds the value of a key in a string like `a=1&b=2` without splitting it: it searches for the text
of the key, takes the part up to the next `=` for what the text belongs to, and goes on behind that `=` when this is not
the key.  So it does not see a key when its text occurs before, behind the last `=` and in front of the part of the key.
-/

namespace AimRT.Util

open AimRT.Lib Splitting

/-! ### The search -/

/-- The loop of `GetValueFromStrKV`, with what is before the position from which it searches and what is behind it; the
part of a position begins behind the last `vsep` before it. -/
def searchStrKV (key : Bytes) (vsep msep : UInt8) (trims : Bool) (before rest : Bytes) : Bytes :=
  match _hfind : rest.dropInfix? key with
  | none => []
  | some (skipped, behind) =>
    if _hmsep : msep ∈ behind then
      let strip : Bytes → Bytes := if trims then trim else id
      let realKey := (before ++ skipped).rtakeWhile (· != vsep) ++ key ++ behind.takeWhile (· != msep)
      let val := (behind.dropWhile (· != msep)).tail
      if strip realKey = key then strip (val.takeWhile (· != vsep))
      else searchStrKV key vsep msep trims (before ++ skipped ++ key ++ behind.takeWhile (· != msep) ++ [msep]) val
    else []
termination_by rest.length
decreasing_by
  have hrest := (dropInfix?_eq_some.1 _hfind).1
  have hdrop : (behind.dropWhile (· != msep)).length ≤ behind.length := (List.dropWhile_suffix _).length_le
  have hne : behind ≠ [] := List.ne_nil_of_mem _hmsep
  have hpos := List.length_pos_iff.2 hne
  rw [hrest, List.length_append, List.length_append, List.length_tail]
  omega

/-- `GetValueFromStrKV` for separators of one byte. -/
def getValueFromStrKV (str key : Bytes) (vsep msep : UInt8) (trims : Bool) : Bytes :=
  if key = [] ∨ vsep = msep then []
  else if vsep ∈ key ∨ msep ∈ key then []
  else searchStrKV key vsep msep trims [] str

/-! ### Parameters -/

/-- A parameter of a query, and the pieces of text between the `=` before its part, or the beginning, and the part. -/
structure Param where
  key : Bytes
  value : Bytes
  ahead : List Bytes
  deriving DecidableEq, Repr

/-- The parameters in the parts of a query: each is split at its first `=`, and a part without one has none. -/
def paramsFrom : (ahead parts : List Bytes) → List Param
  | _, [] => []
  | ahead, part :: parts =>
    if 61 ∈ part then
      ⟨trim (part.takeWhile (· != 61)), trim (part.dropWhile (· != 61)).tail, ahead⟩ ::
        paramsFrom [part.rtakeWhile (· != 61)] parts
    else paramsFrom (ahead ++ [part]) parts

def params (query : Bytes) : List Param := paramsFrom [] (query.splitOn 38)

/-- The text of a key hides a parameter. -/
def Param.hiddenBy (p : Param) (key : Bytes) : Bool := p.ahead.any fun piece => (piece.dropInfix? key).isSome

/-- The value of the first parameter that is looked for, empty where there is none. -/
def firstValue (wanted : Param → Bool) (ps : List Param) : Bytes := ((ps.find? wanted).map Param.value).getD []

/-- The value of a key in a query, when it has one that is not empty. -/
def valueOf (query key : Bytes) : Bytes := firstValue (fun p => p.key == key && p.value != []) (params query)

/-- The value of the first parameter with a key that its text does not hide. -/
def firstSeen (key : Bytes) : List Param → Bytes := firstValue fun p => p.key == key && !p.hiddenBy key

def seenValueOf (query key : Bytes) : Bytes := firstSeen key (params query)

/-! ### The parameters behind an `=` -/

theorem paramsFrom_append {ahead blanks parts : List Bytes} (h : ∀ part ∈ blanks, 61 ∉ part) :
    paramsFrom ahead (blanks ++ parts) = paramsFrom (ahead ++ blanks) parts := by
  induction blanks generalizing ahead with
  | nil => rw [List.nil_append, List.append_nil]
  | cons part blanks ih =>
    rw [List.cons_append, paramsFrom, if_neg (h part List.mem_cons_self),
      ih fun p hp => h p (List.mem_cons_of_mem _ hp), List.append_assoc, List.singleton_append]

theorem paramsFrom_blank {ahead parts : List Bytes} (h : ∀ part ∈ parts, 61 ∉ part) : paramsFrom ahead parts = [] := by
  rw [← List.append_nil parts, paramsFrom_append h, paramsFrom]

/-- The parameters in what is behind an `=`, where a part goes on. -/
def paramsBehind (rest : Bytes) : List Param :=
  paramsFrom [(rest.takeWhile (· != 38)).rtakeWhile (· != 61)] (rest.splitOn 38).tail

theorem params_of_notMem {rest : Bytes} (h : 61 ∉ rest) : params rest = [] :=
  paramsFrom_blank fun _ hpart => notMem_of_mem_splitOn (by decide) h hpart

theorem paramsBehind_of_notMem {rest : Bytes} (h : 61 ∉ rest) : paramsBehind rest = [] :=
  paramsFrom_blank fun _ hpart => notMem_of_mem_splitOn (by decide) h (List.mem_of_mem_tail hpart)

/-- A part with its first `=`. -/
theorem paramsFrom_cons (ahead parts : List Bytes) {t : Bytes} (ht : 61 ∉ t) (v : Bytes) :
    paramsFrom ahead ((t ++ 61 :: v) :: parts) =
      ⟨trim t, trim v, ahead⟩ :: paramsFrom [v.rtakeWhile (· != 61)] parts := by
  rw [paramsFrom, if_pos (by simp), takeWhile_of_notMem ht, dropWhile_of_notMem ht, rtakeWhile_append_sep]
  simp

/-- The parts of a text with an `=` in its last part. -/
theorem splitOn_append_eq {t : Bytes} (ht : 38 ∉ t) (w : Bytes) :
    (t ++ 61 :: w).splitOn 38 = (t ++ 61 :: w.takeWhile (· != 38)) :: (w.splitOn 38).tail := by
  have happend : t ++ 61 :: w = (t ++ [61]) ++ w := by simp
  rw [happend, splitOn_append_of_notMem (by simpa using ht), splitOn_head w 38]
  simp

/-- An `=` in the part that goes on. -/
theorem paramsBehind_append {t : Bytes} (ht : 38 ∉ t) (w : Bytes) : paramsBehind (t ++ 61 :: w) = paramsBehind w := by
  have htake : (t ++ 61 :: w).takeWhile (· != 38) = t ++ 61 :: w.takeWhile (· != 38) := by
    rw [takeWhile_of_notMem ht]
    simp
  rw [paramsBehind, splitOn_append_eq ht, htake, rtakeWhile_append_sep]
  rfl

/-- An `=` in the first part. -/
theorem params_append {t : Bytes} (ht : 38 ∉ t) (h61 : 61 ∉ t) (w : Bytes) :
    params (t ++ 61 :: w) = ⟨trim t, trim (w.takeWhile (· != 38)), []⟩ :: paramsBehind w := by
  rw [params, splitOn_append_eq ht, paramsFrom_cons _ _ h61]
  rfl

/-- An `=` in a later part, the first one behind those of `u`. -/
theorem params_append_sep {u t : Bytes} (hu : 61 ∉ u) (ht : 38 ∉ t) (h61 : 61 ∉ t) (w : Bytes) :
    params (u ++ 38 :: t ++ 61 :: w) =
      ⟨trim t, trim (w.takeWhile (· != 38)), u.splitOn 38⟩ :: paramsBehind w := by
  rw [params, List.append_assoc, List.cons_append, List.splitOn_append_cons_self, splitOn_append_eq ht,
    paramsFrom_append fun _ hpart => notMem_of_mem_splitOn (by decide) hu hpart, paramsFrom_cons _ _ h61,
    List.nil_append]
  rfl

theorem paramsBehind_append_sep {u t : Bytes} (hu : 61 ∉ u) (ht : 38 ∉ t) (h61 : 61 ∉ t) (w : Bytes) :
    paramsBehind (u ++ 38 :: t ++ 61 :: w) =
      ⟨trim t, trim (w.takeWhile (· != 38)), u.splitOn 38⟩ :: paramsBehind w := by
  have hhead : (u ++ 38 :: t ++ 61 :: w).takeWhile (· != 38) = u.takeWhile (· != 38) := by
    rw [List.append_assoc, List.cons_append, takeWhile_append_sep]
  have hpart : 61 ∉ u.takeWhile (· != 38) := fun hmem => hu ((List.takeWhile_prefix _).subset hmem)
  have htail : ∀ part ∈ (u.splitOn 38).tail, 61 ∉ part :=
    fun _ hp => notMem_of_mem_splitOn (by decide) hu (List.mem_of_mem_tail hp)
  rw [paramsBehind, hhead, rtakeWhile_of_notMem hpart, List.append_assoc, List.cons_append,
    List.splitOn_append_cons_self, splitOn_append_eq ht,
    List.tail_append_of_ne_nil (List.splitOn_ne_nil _ _), paramsFrom_append htail, paramsFrom_cons _ _ h61,
    List.singleton_append, ← splitOn_head]
  rfl

/-! ### What the search finds -/

theorem firstValue_cons (wanted : Param → Bool) (p : Param) (ps : List Param) :
    firstValue wanted (p :: ps) = if wanted p then p.value else firstValue wanted ps := by
  unfold firstValue
  rw [List.find?_cons]
  cases wanted p <;> rfl

theorem firstSeen_cons (key : Bytes) (p : Param) (ps : List Param) : firstSeen key (p :: ps) =
    if p.key = key ∧ p.hiddenBy key = false then p.value else firstSeen key ps := by
  rw [firstSeen, firstValue_cons]
  simp

theorem infix_trim (s : Bytes) : trim s <:+: s := by
  have hback : trim s <+: s.dropWhile (· == 32) := by
    rw [← List.reverse_suffix, trim, List.reverse_reverse]
    exact List.dropWhile_suffix _
  exact hback.isInfix.trans (List.dropWhile_suffix _).isInfix

/-- `Trim` takes away nothing but blanks. -/
theorem mem_trim {s : Bytes} {b : UInt8} (hb : b ∈ s) (hne : b ≠ 32) : b ∈ trim s := by
  have hmem : ∀ l : Bytes, b ∈ l → b ∈ l.dropWhile (· == 32) := by
    intro l hl
    rw [← List.takeWhile_append_dropWhile (p := (· == 32)) (l := l), List.mem_append] at hl
    refine hl.resolve_left fun htake => hne ?_
    simpa using List.mem_takeWhile_imp htake
  rw [trim, List.mem_reverse]
  exact hmem _ (List.mem_reverse.2 (hmem _ hb))

section Key

variable {key : Bytes} (hamp : 38 ∉ key) (heq : 61 ∉ key)

include hamp in
theorem Param.hiddenBy_iff (k v ahead : Bytes) :
    (Param.mk k v (ahead.splitOn 38)).hiddenBy key = true ↔ key <:+: ahead := by
  rw [infix_iff_exists_part hamp, Param.hiddenBy, List.any_eq_true]
  refine exists_congr fun piece => and_congr_right fun _ => ?_
  rw [Option.isSome_iff_ne_none, ne_eq, dropInfix?_eq_none, not_not]

theorem searchStrKV_eq_nil {vsep msep : UInt8} {trims : Bool} {before rest : Bytes}
    (h : ∀ r, rest.dropInfix? key = some r → msep ∉ r.2) : searchStrKV key vsep msep trims before rest = [] := by
  rw [searchStrKV]
  split
  · rfl
  next skipped behind hfind => rw [dif_neg (h _ hfind)]

theorem searchStrKV_step {vsep msep : UInt8} {trims : Bool} {before rest : Bytes} {r : Bytes × Bytes}
    (h : rest.dropInfix? key = some r) (hmem : msep ∈ r.2) : searchStrKV key vsep msep trims before rest =
      if (if trims then trim else id)
          ((before ++ r.1).rtakeWhile (· != vsep) ++ key ++ r.2.takeWhile (· != msep)) = key then
        (if trims then trim else id) ((r.2.dropWhile (· != msep)).tail.takeWhile (· != vsep))
      else
        searchStrKV key vsep msep trims (before ++ r.1 ++ key ++ r.2.takeWhile (· != msep) ++ [msep])
          (r.2.dropWhile (· != msep)).tail := by
  rw [searchStrKV]
  split
  next hnone =>
    rw [hnone] at h
    cases h
  next skipped behind hfind =>
    rw [hfind] at h
    obtain rfl := Option.some.inj h
    rw [dif_pos hmem]

theorem searchStrKV_eq_ite {before rest : Bytes} {r : Bytes × Bytes} (h : rest.dropInfix? key = some r)
    (hmem : 61 ∈ r.2) : searchStrKV key 38 61 true before rest =
      if trim ((before ++ r.1).rtakeWhile (· != 38) ++ key ++ r.2.takeWhile (· != 61)) = key then
        trim ((r.2.dropWhile (· != 61)).tail.takeWhile (· != 38))
      else
        searchStrKV key 38 61 true (before ++ r.1 ++ key ++ r.2.takeWhile (· != 61) ++ [61])
          (r.2.dropWhile (· != 61)).tail :=
  searchStrKV_step h hmem

/-- Without another `=` nothing is found. -/
theorem searchStrKV_of_notMem (before : Bytes) {rest : Bytes} (h : 61 ∉ rest) :
    searchStrKV key 38 61 true before rest = [] := by
  refine searchStrKV_eq_nil fun r hr hmem => h ?_
  rw [(dropInfix?_eq_some.1 hr).1]
  exact List.mem_append_right _ hmem

include heq in
/-- A text without the key is skipped together with the `=` behind it. -/
theorem searchStrKV_of_none (before : Bytes) {t w : Bytes} (h : t.dropInfix? key = none) :
    searchStrKV key 38 61 true before (t ++ 61 :: w) = searchStrKV key 38 61 true (before ++ t ++ [61]) w := by
  have hfind := dropInfix?_append_sep_of_none (w := w) heq h
  cases hw : w.dropInfix? key with
  | none =>
    rw [hw] at hfind
    rw [searchStrKV_eq_nil fun r hr => by simp [hfind] at hr, searchStrKV_eq_nil fun r hr => by simp [hw] at hr]
  | some r =>
    rw [hw, Option.map_some] at hfind
    by_cases hmem : 61 ∈ r.2
    · rw [searchStrKV_eq_ite hfind hmem, searchStrKV_eq_ite hw hmem]
      simp only [List.append_assoc, List.cons_append, List.nil_append]
    · rw [searchStrKV_eq_nil, searchStrKV_eq_nil]
      · intro r' hr'
        obtain rfl := Option.some.inj (hw.symm.trans hr')
        exact hmem
      · intro r' hr'
        obtain rfl := Option.some.inj (hfind.symm.trans hr')
        exact hmem

include heq in
/-- A text with the key is tried, and then skipped like that. -/
theorem searchStrKV_of_some (before : Bytes) {t w skipped a : Bytes} (ht : 61 ∉ t)
    (h : t.dropInfix? key = some (skipped, a)) :
    searchStrKV key 38 61 true before (t ++ 61 :: w) =
      if trim ((before ++ skipped).rtakeWhile (· != 38) ++ key ++ a) = key then trim (w.takeWhile (· != 38))
      else searchStrKV key 38 61 true (before ++ t ++ [61]) w := by
  have htext := (dropInfix?_eq_some.1 h).1
  have ha : 61 ∉ a := fun hmem => ht (by rw [htext]; exact List.mem_append_right _ hmem)
  have htake : (a ++ 61 :: w).takeWhile (· != 61) = a := by
    rw [takeWhile_of_notMem ha]
    simp
  have hdrop : (a ++ 61 :: w).dropWhile (· != 61) = 61 :: w := by
    rw [dropWhile_of_notMem ha]
    simp
  rw [searchStrKV_eq_ite (dropInfix?_append_sep_of_some heq h) (by simp), htake, hdrop, List.tail_cons, htext]
  simp only [List.append_assoc]

/-- A text that has more than a key around it. -/
theorem trim_ne_of_mem {s : Bytes} {b : UInt8} (hb : b ∈ s) (hne : b ≠ 32) (hkey : b ∉ key) : trim s ≠ key := by
  rintro rfl
  exact hkey (mem_trim hb hne)

theorem trim_ne_of_none {t : Bytes} (h : t.dropInfix? key = none) : trim t ≠ key := by
  rintro rfl
  exact dropInfix?_eq_none.1 h (infix_trim t)

include heq in
/-- The text of a part in front of an `=`, behind the last `&`. -/
theorem searchStrKV_part {before t w : Bytes} (hamp' : 38 ∉ t) (h61 : 61 ∉ t)
    (hbefore : before.rtakeWhile (· != 38) = []) :
    searchStrKV key 38 61 true before (t ++ 61 :: w) =
      if trim t = key then trim (w.takeWhile (· != 38)) else searchStrKV key 38 61 true (before ++ t ++ [61]) w := by
  cases hfind : t.dropInfix? key with
  | none => rw [searchStrKV_of_none heq before hfind, if_neg (trim_ne_of_none hfind)]
  | some r =>
    obtain ⟨p, s⟩ := r
    have htext := (dropInfix?_eq_some.1 hfind).1
    have hp : 38 ∉ p := fun hmem => hamp' (by rw [htext]; simp [hmem])
    rw [searchStrKV_of_some heq before h61 hfind, rtakeWhile_append_of_notMem _ hp, hbefore, List.nil_append, ← htext]

include hamp heq in
/-- The text of some parts in front of an `=`: the last one is tried when the key is not in the others. -/
theorem searchStrKV_parts (before : Bytes) {u t w : Bytes} (hamp' : 38 ∉ t) (hu : 61 ∉ u) (h61 : 61 ∉ t) :
    searchStrKV key 38 61 true before (u ++ 38 :: t ++ 61 :: w) =
      if trim t = key ∧ ¬ key <:+: u then trim (w.takeWhile (· != 38))
      else searchStrKV key 38 61 true (before ++ (u ++ 38 :: t) ++ [61]) w := by
  have hmem61 : 61 ∉ u ++ 38 :: t := by simp [hu, h61]
  cases hfind : u.dropInfix? key with
  | some r =>
    obtain ⟨p, s⟩ := r
    have hoccurs : key <:+: u := ⟨p, s, (dropInfix?_eq_some.1 hfind).1.symm⟩
    rw [searchStrKV_of_some heq before hmem61 (dropInfix?_append_sep_of_some hamp hfind),
      if_neg (trim_ne_of_mem (by simp) (by decide) hamp), if_neg fun h => h.2 hoccurs]
  | none =>
    have hoccurs := dropInfix?_eq_none.1 hfind
    have hwhole := dropInfix?_append_sep_of_none (w := t) hamp hfind
    cases htail : t.dropInfix? key with
    | none =>
      rw [htail, Option.map_none] at hwhole
      rw [searchStrKV_of_none heq before hwhole, if_neg fun h => trim_ne_of_none htail h.1]
    | some r =>
      obtain ⟨p, s⟩ := r
      rw [htail, Option.map_some] at hwhole
      have htext := (dropInfix?_eq_some.1 htail).1
      have hp : 38 ∉ p := fun hmem => hamp' (by rw [htext]; simp [hmem])
      rw [searchStrKV_of_some heq before hmem61 hwhole, ← List.append_assoc, rtakeWhile_append_sep,
        rtakeWhile_of_notMem hp, ← htext]
      simp only [hoccurs, not_false_eq_true, and_true]

include hamp heq in
/-- At the beginning and behind an `=`, the search finds the first parameter there with the key that is not hidden. -/
theorem searchStrKV_eq {before rest : Bytes} :
    (before = [] → searchStrKV key 38 61 true before rest = firstSeen key (params rest)) ∧
      (61 ∈ before.rtakeWhile (· != 38) →
        searchStrKV key 38 61 true before rest = firstSeen key (paramsBehind rest)) := by
  induction hn : rest.length using Nat.strong_induction_on generalizing before rest with
  | _ n ih =>
    by_cases hmem : 61 ∈ rest
    · obtain ⟨t, w, rfl, ht⟩ := List.eq_append_cons_of_mem hmem
      have hnext : searchStrKV key 38 61 true (before ++ t ++ [61]) w = firstSeen key (paramsBehind w) := by
        refine (ih w.length (by simp at hn; omega) rfl).2 ?_
        rw [List.rtakeWhile_concat_pos (· != 38) _ _ (by decide)]
        simp
      by_cases hpart : 38 ∈ t
      · obtain ⟨u, v, rfl, hv⟩ := exists_last_sep hpart
        have hu61 : 61 ∉ u := fun h => ht (by simp [h])
        have hv61 : 61 ∉ v := fun h => ht (by simp [h])
        have hhidden : (Param.mk (trim v) (trim (w.takeWhile (· != 38))) (u.splitOn 38)).hiddenBy key = false ↔
            ¬ key <:+: u := by
          rw [← Bool.not_eq_true, Param.hiddenBy_iff hamp]
        rw [searchStrKV_parts hamp heq before hv hu61 hv61, hnext, params_append_sep hu61 hv hv61,
          paramsBehind_append_sep hu61 hv hv61, firstSeen_cons]
        simp only [hhidden, implies_true, and_self]
      · constructor
        · rintro rfl
          rw [searchStrKV_part heq hpart ht rfl, hnext, params_append hpart ht, firstSeen_cons]
          simp [Param.hiddenBy]
        · intro hbefore
          rw [paramsBehind_append hpart, ← hnext]
          cases hfind : t.dropInfix? key with
          | none => rw [searchStrKV_of_none heq before hfind]
          | some r =>
            obtain ⟨p, s⟩ := r
            have hp : 38 ∉ p := fun h => hpart (by rw [(dropInfix?_eq_some.1 hfind).1]; simp [h])
            rw [searchStrKV_of_some heq before ht hfind, rtakeWhile_append_of_notMem _ hp]
            exact if_neg (trim_ne_of_mem (by simp [hbefore]) (by decide) heq)
    · rw [searchStrKV_of_notMem before hmem, params_of_notMem hmem, paramsBehind_of_notMem hmem]
      exact ⟨fun _ => rfl, fun _ => rfl⟩

include hamp heq in
/-- **What `GetValueFromStrKV` finds** is the value of the first parameter with the key that the text of the key does
not hide. -/
theorem getValueFromStrKV_eq (hne : key ≠ []) (query : Bytes) :
    getValueFromStrKV query key 38 61 true = seenValueOf query key := by
  rw [getValueFromStrKV, if_neg (by simp [hne]), if_neg (by simp [hamp, heq])]
  exact (searchStrKV_eq hamp heq).1 rfl

end Key

example : valueOf (ascii "a=1& b =2=3&c&d=4") (ascii "b") = ascii "2=3" := by decide

end AimRT.Util

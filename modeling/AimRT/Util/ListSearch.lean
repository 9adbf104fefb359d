import Mathlib.Data.List.DropRight
import AimRT.Lib.StringView
import AimRT.Util.Context

/-!
# Elements of a list

`SplitToVec` splits a string at a separator of any length, and `CheckIfInList` looks for an element without splitting:
at every place of the text of the key it takes what stands between the last separator in front and the next one behind
for the element, and goes on behind this one when it is not the key.

The split takes the separators from the left, so that it does not use one that overlaps the one before, where the
search does; and the search loses its way where the text of the key overlaps a separator.
-/

namespace AimRT.Util.StringView

open AimRT.Lib AimRT.Lib.StringView

/-! ### Trimming -/

/-- `Trim`, where it is asked for. -/
def strip (trims : Bool) (s : Bytes) : Bytes := if trims then trim s else s

/-- What is trimmed away. -/
def Filler (trims : Bool) (s : Bytes) : Prop := ∀ x ∈ s, trims = true ∧ x = 32

variable {trims : Bool} {s w key : Bytes}

theorem trim_eq (s : Bytes) : trim s = (s.dropWhile (· == 32)).rdropWhile (· == 32) := rfl

theorem filler_nil (trims : Bool) : Filler trims [] := fun _ hx => absurd hx List.not_mem_nil

theorem filler_false_iff : Filler false s ↔ s = [] := by
  rw [Filler, List.eq_nil_iff_forall_not_mem]
  exact forall_congr' fun x => by simp

/-- What is left is the text without the blanks around it. -/
theorem exists_eq_append_strip (trims : Bool) (w : Bytes) :
    ∃ l r, w = l ++ strip trims w ++ r ∧ Filler trims l ∧ Filler trims r := by
  cases trims with
  | false => exact ⟨[], [], by simp [strip], filler_nil _, filler_nil _⟩
  | true =>
    refine ⟨w.takeWhile (· == 32), (w.dropWhile (· == 32)).rtakeWhile (· == 32), ?_, fun x hx => ?_, fun x hx => ?_⟩
    · rw [strip, if_pos rfl, trim_eq, List.append_assoc, List.rdropWhile_append_rtakeWhile,
        List.takeWhile_append_dropWhile]
    · exact ⟨rfl, by simpa using List.mem_takeWhile_imp hx⟩
    · exact ⟨rfl, by simpa using List.mem_rtakeWhile_imp hx⟩

theorem trim_trim (w : Bytes) : trim (trim w) = trim w := by
  have hdrop : (trim w).dropWhile (· == 32) = trim w := by
    rw [List.dropWhile_eq_self_iff]
    intro hpos
    obtain ⟨v, hv⟩ : trim w <+: w.dropWhile (· == 32) := by
      rw [trim_eq]
      exact List.rdropWhile_prefix _ _
    have hhead := List.head?_dropWhile_not (· == 32) w
    rw [← hv, List.head?_append_of_ne_nil _ (List.ne_nil_of_length_pos hpos),
      List.head?_eq_getElem?, List.getElem?_eq_getElem hpos] at hhead
    simpa using hhead
  calc trim (trim w) = ((trim w).dropWhile (· == 32)).rdropWhile (· == 32) := trim_eq _
    _ = (trim w).rdropWhile (· == 32) := by rw [hdrop]
    _ = trim w := by rw [trim_eq, List.rdropWhile_idempotent]

/-- What is left of a text is trimmed. -/
theorem strip_of_eq (h : strip trims w = key) : strip trims key = key := by
  subst h
  cases trims with
  | false => rfl
  | true => exact trim_trim w

theorem trim_eq_self (h : trim key = key) :
    key.dropWhile (· == 32) = key ∧ key.rdropWhile (· == 32) = key := by
  have hprefix : trim key <+: key.dropWhile (· == 32) := by
    rw [trim_eq]
    exact List.rdropWhile_prefix _ _
  have hsuffix := List.dropWhile_suffix (l := key) (· == 32)
  have hdrop : key.dropWhile (· == 32) = key := by
    refine hsuffix.eq_of_length (Nat.le_antisymm hsuffix.length_le ?_)
    have hlen := hprefix.length_le
    rwa [h] at hlen
  refine ⟨hdrop, ?_⟩
  rw [trim_eq, hdrop] at h
  exact h

/-- A key that is trimmed does not begin with what is trimmed away. -/
theorem head_of_strip (h : strip trims key = key) {x : UInt8} (hx : key.head? = some x) : ¬(trims = true ∧ x = 32) := by
  rintro ⟨rfl, rfl⟩
  obtain ⟨k, rfl⟩ := List.head?_eq_some_iff.1 hx
  have hdrop := (trim_eq_self h).1
  have hlen := congrArg List.length hdrop
  have hle := (List.dropWhile_suffix (l := k) (· == 32)).length_le
  rw [List.dropWhile_cons_of_pos rfl, List.length_cons] at hlen
  omega

theorem getLast_of_strip (h : strip trims key = key) {x : UInt8} (hx : key.getLast? = some x) :
    ¬(trims = true ∧ x = 32) := by
  rintro ⟨rfl, rfl⟩
  obtain ⟨k, rfl⟩ := List.getLast?_eq_some_iff.1 hx
  have hdrop := (trim_eq_self h).2
  have hlen := congrArg List.length hdrop
  have hle := (List.rdropWhile_prefix (l := k) (· == 32)).length_le
  rw [List.rdropWhile_concat_pos _ _ _ rfl, List.length_append, List.length_singleton] at hlen
  omega

theorem strip_append (hkey : strip trims key = key) (hne : key ≠ []) {l r : Bytes} (hl : Filler trims l)
    (hr : Filler trims r) : strip trims (l ++ key ++ r) = key := by
  cases trims with
  | false =>
    rw [filler_false_iff.1 hl, filler_false_iff.1 hr]
    simp [strip]
  | true =>
    obtain ⟨hfront, hback⟩ := trim_eq_self hkey
    have hdrop : (l ++ key ++ r).dropWhile (· == 32) = key ++ r := by
      rw [List.append_assoc, List.dropWhile_append_of_pos fun x hx => by simpa using (hl x hx).2,
        List.dropWhile_append, hfront, if_neg (by simpa using hne)]
    rw [strip, if_pos rfl, trim_eq, hdrop, List.rdropWhile, List.reverse_append,
      List.dropWhile_append_of_pos fun x hx => by simpa using (hr x (List.mem_reverse.1 hx)).2]
    exact hback

/-- A key that stands behind blanks stands there once. -/
theorem eq_nil_of_filler_front (hkey : strip trims key = key) (hne : key ≠ []) {l l' m : Bytes} (hl : Filler trims l')
    (heq : l' ++ key = l ++ key ++ m) : m = [] := by
  obtain ⟨x, hx⟩ := Option.ne_none_iff_exists'.1 (mt List.head?_eq_none_iff.1 hne)
  obtain ⟨k, hk⟩ := List.head?_eq_some_iff.1 hx
  have hlen := congrArg List.length heq
  rw [List.append_assoc] at heq
  simp only [List.length_append] at hlen
  rcases List.append_eq_append_iff.1 heq with ⟨t, rfl, -⟩ | ⟨t, rfl, hrest⟩
  · rw [List.length_append] at hlen
    exact List.length_eq_zero_iff.1 (by omega)
  · cases t with
    | nil => simpa using hrest
    | cons z t =>
      -- the key begins in what stands in front of it
      rw [hk] at hrest
      obtain ⟨rfl, -⟩ := List.cons.inj hrest
      exact absurd (hl x (by simp)) (head_of_strip hkey hx)

/-- Only blanks stand behind a key, and it does not end in them. -/
theorem eq_nil_of_filler_back (hkey : strip trims key = key) (hne : key ≠ []) {l l' m : Bytes} (hm : Filler trims m)
    (heq : l ++ key = l' ++ key ++ m) : m = [] := by
  obtain ⟨y, hy⟩ := Option.ne_none_iff_exists'.1 (mt List.getLast?_eq_none_iff.1 hne)
  obtain ⟨k, hk⟩ := List.getLast?_eq_some_iff.1 hy
  rcases List.eq_nil_or_concat m with rfl | ⟨m, z, rfl⟩
  · rfl
  · rw [hk, List.concat_eq_append, ← List.append_assoc, ← List.append_assoc] at heq
    obtain ⟨-, hlast⟩ := List.append_inj' heq rfl
    obtain rfl := (List.cons.inj hlast).1
    exact absurd (hm y (by simp)) (getLast_of_strip hkey hy)

/-- **A key is left** of a text with the key in it, exactly when nothing else but blanks is around it. -/
theorem strip_append_iff (hkey : strip trims key = key) (hne : key ≠ []) {l r : Bytes} :
    strip trims (l ++ key ++ r) = key ↔ Filler trims l ∧ Filler trims r := by
  refine ⟨fun h => ?_, fun h => strip_append hkey hne h.1 h.2⟩
  obtain ⟨l', r', heq, hl, hr⟩ := exists_eq_append_strip trims (l ++ key ++ r)
  rw [h] at heq
  rcases List.append_eq_append_iff.1 heq with ⟨m, hm, hrest⟩ | ⟨m, hm, hrest⟩
  · obtain rfl := eq_nil_of_filler_front hkey hne hl hm
    rw [List.append_nil] at hm
    rw [List.nil_append] at hrest
    obtain rfl := List.append_cancel_right hm
    exact ⟨hl, hrest ▸ hr⟩
  · obtain rfl := eq_nil_of_filler_back hkey hne (fun x hx => hr x (hrest ▸ List.mem_append_left r hx)) hm
    rw [List.append_nil] at hm
    rw [List.nil_append] at hrest
    obtain rfl := List.append_cancel_right hm
    exact ⟨hl, hrest ▸ hr⟩

/-! ### The split -/

/-- The loop of `SplitToVec`, from the start of a piece. -/
def splitLoop (source sep : Bytes) (hsep : sep ≠ []) (trims clear : Bool) (posStart : ℕ) : List Bytes :=
  let posEnd := findOrEnd source sep posStart
  let subStr := strip trims (between source posStart posEnd)
  let rest :=
    if posEnd < source.length then splitLoop source sep hsep trims clear (posEnd + sep.length) else []
  if clear = true ∧ subStr = [] then rest else subStr :: rest
termination_by source.length - posStart
decreasing_by
  rename_i hlt
  have hle := (find_eq_some.1 (find_of_findOrEnd_lt hlt)).1
  have hpos := List.length_pos_iff.2 hsep
  omega

/-- `SplitToVec`. -/
def splitToVec (source sep : Bytes) (trims clear : Bool) : List Bytes :=
  if h : source = [] ∨ sep = [] then []
  else splitLoop source sep (fun hsep => h (.inr hsep)) trims clear 0

/-! ### The search -/

/-- What is tried at a place of the text of the key. -/
def isElement (str key sep : Bytes) (trims : Bool) (keyPos : ℕ) : Bool :=
  let keyStartPos := startBehind str sep keyPos
  let keyEndPos := findOrEnd str sep (keyPos + key.length)
  if trims then trim (between str keyStartPos keyEndPos) = key
  else keyStartPos = keyPos ∧ keyEndPos = keyPos + key.length

/-- The loop of `CheckIfInList`, from the position at which it searches. -/
def checkLoop (str key sep : Bytes) (hkey : key ≠ []) (trims : Bool) (pos : ℕ) : Bool :=
  match _hfind : find str key pos with
  | none => false
  | some keyPos =>
    if isElement str key sep trims keyPos then true
    else checkLoop str key sep hkey trims (findOrEnd str sep (keyPos + key.length) + sep.length)
termination_by str.length - pos
decreasing_by
  obtain ⟨hle, hoccurs, -⟩ := find_eq_some.1 _hfind
  have hlen := hoccurs.length_le
  have hend : keyPos + key.length ≤ findOrEnd str sep (keyPos + key.length) := le_findOrEnd hlen
  have hpos := List.length_pos_iff.2 hkey
  omega

/-- `CheckIfInList`. -/
def checkIfInList (str key sep : Bytes) (trims : Bool) : Bool :=
  if h : key = [] ∨ sep = [] then false
  else if (find key sep 0).isSome then false
  else checkLoop str key sep (fun hkey => h (.inl hkey)) trims 0

/-! ### Elements -/

/-- The key is what stands between one of some positions and the next separator. -/
def IsIn (starts : ℕ → Prop) (str key sep : Bytes) (trims : Bool) : Prop :=
  ∃ a, starts a ∧ strip trims (between str a (findOrEnd str sep a)) = key

variable {str sep : Bytes} {k pos a : ℕ}

/-- What the split takes for an element. -/
theorem mem_splitLoop (hsep : sep ≠ []) (hne : key ≠ []) (pos : ℕ) :
    key ∈ splitLoop str sep hsep trims true pos ↔
      ∃ a, CutFrom sep str pos a ∧ strip trims (between str a (findOrEnd str sep a)) = key := by
  induction hn : str.length - pos using Nat.strong_induction_on generalizing pos with
  | _ n ih =>
    have hrest : key ∈ (if findOrEnd str sep pos < str.length then
          splitLoop str sep hsep trims true (findOrEnd str sep pos + sep.length) else []) ↔
        findOrEnd str sep pos < str.length ∧
          ∃ a, CutFrom sep str (findOrEnd str sep pos + sep.length) a ∧
            strip trims (between str a (findOrEnd str sep a)) = key := by
      split_ifs with hlt
      · have hle := (find_eq_some.1 (find_of_findOrEnd_lt hlt)).1
        have hlen := List.length_pos_iff.2 hsep
        rw [ih _ (by omega) _ rfl, and_iff_right hlt]
      · simp [hlt]
    have hcuts : (∃ a, CutFrom sep str pos a ∧ strip trims (between str a (findOrEnd str sep a)) = key) ↔
        strip trims (between str pos (findOrEnd str sep pos)) = key ∨ findOrEnd str sep pos < str.length ∧
          ∃ a, CutFrom sep str (findOrEnd str sep pos + sep.length) a ∧
            strip trims (between str a (findOrEnd str sep a)) = key := by
      have hcut : ∀ a, CutFrom sep str pos a ↔ a = pos ∨
          findOrEnd str sep pos < str.length ∧ CutFrom sep str (findOrEnd str sep pos + sep.length) a :=
        fun _ => cutFrom_iff hsep
      simp only [hcut, or_and_right, exists_or, exists_eq_left, and_assoc, exists_and_left]
    rw [hcuts, splitLoop]
    by_cases hnil : strip trims (between str pos (findOrEnd str sep pos)) = []
    · rw [if_pos ⟨rfl, hnil⟩, hrest, hnil, or_iff_right (Ne.symm hne)]
    · rw [if_neg fun h => hnil h.2, List.mem_cons, hrest, eq_comm]

theorem mem_splitToVec (hsep : sep ≠ []) (hne : key ≠ []) :
    key ∈ splitToVec str sep trims true ↔ IsIn (Cut sep str) str key sep trims := by
  unfold splitToVec
  by_cases hstr : str = []
  · -- there is nothing to be split
    subst hstr
    rw [dif_pos (.inl rfl)]
    refine iff_of_false List.not_mem_nil ?_
    rintro ⟨a, -, heq⟩
    refine hne (heq.symm.trans ?_)
    have hbetween : between [] a (findOrEnd [] sep a) = ([] : Bytes) := by
      unfold between
      split_ifs <;> simp
    rw [hbetween]
    cases trims <;> rfl
  · rw [dif_neg (by simp [hstr, hsep])]
    exact mem_splitLoop hsep hne 0

/-- For a separator of one byte it is the split at that byte. -/
theorem splitLoop_singleton (c : UInt8) (hpos : pos ≤ str.length) :
    splitLoop str [c] (List.cons_ne_nil _ _) true true pos = Util.splitToVec (str.drop pos) c := by
  induction hn : str.length - pos using Nat.strong_induction_on generalizing pos with
  | _ n ih =>
    rw [splitLoop]
    by_cases hmem : c ∈ str.drop pos
    · obtain ⟨t, w, hdrop, ht⟩ := List.eq_append_cons_of_mem hmem
      have hlen := congrArg List.length hdrop
      rw [List.length_drop, List.length_append, List.length_cons] at hlen
      have hpiece : between str pos (pos + t.length) = t := by
        rw [between_of_le (Nat.le_add_right _ _), hdrop, Nat.add_sub_cancel_left, List.take_left]
      have hrest : str.drop (pos + t.length + [c].length) = w := by
        rw [Nat.add_assoc, ← List.drop_drop, hdrop, List.drop_append, List.length_singleton]
        simp
      have hlt : pos + t.length < str.length := by omega
      rw [findOrEnd_of_find (find_singleton hdrop ht), hpiece, if_pos hlt,
        ih _ (by rw [List.length_singleton]; omega) (by rw [List.length_singleton]; omega) rfl, hrest, hdrop,
        Util.splitToVec, Util.splitToVec, List.splitOn_append_cons_self_of_not_mem ht, List.map_cons]
      by_cases hnil : trim t = []
      · rw [if_pos ⟨rfl, hnil⟩, List.filter_cons_of_neg (by simp [hnil])]
      · rw [if_neg fun h => hnil h.2, List.filter_cons_of_pos (by simp [hnil])]
        rfl
    · have hend : findOrEnd str [c] pos = str.length := by
        rw [findOrEnd, find_singleton_of_notMem hmem, Option.getD_none]
      rw [hend, between_length, if_neg (Nat.lt_irrefl _), Util.splitToVec, List.splitOn_eq_singleton hmem]
      by_cases hnil : trim (str.drop pos) = []
      · simp [strip, hnil]
      · simp [strip, hnil]

theorem splitToVec_singleton (c : UInt8) : splitToVec str [c] true true = Util.splitToVec str c := by
  unfold splitToVec
  by_cases hstr : str = []
  · subst hstr
    rfl
  · rw [dif_neg (by simp [hstr])]
    exact splitLoop_singleton c (Nat.zero_le _)

/-! ### What the search tries -/

/-- The text of the key does not stand within what is trimmed away. -/
theorem not_filler_of_occurs {b : ℕ} (hne : key ≠ []) (hkey : strip trims key = key) (hk : Occurs key str k)
    (ha : a ≤ k) (hb : k < b) : ¬Filler trims (between str a b) := by
  intro hfiller
  obtain ⟨x, hx⟩ := Option.ne_none_iff_exists'.1 (mt List.head?_eq_none_iff.1 hne)
  refine head_of_strip hkey hx (hfiller x ?_)
  have hmem : x ∈ between str k (k + 1) := by
    obtain ⟨key', rfl⟩ := List.head?_eq_some_iff.1 hx
    obtain ⟨-, rest, hrest⟩ := hk
    rw [between_of_le (Nat.le_add_right k 1), ← hrest, Nat.add_sub_cancel_left]
    simp
  have hle : k + 1 ≤ b := hb
  rw [between_append ha (Nat.le_of_lt hb), between_append (Nat.le_succ k) hle]
  simp [hmem]

/-- Where the key is left of a piece, it stands alone in it. -/
theorem exists_occurs_of_strip {b : ℕ} (hab : a ≤ b) (hb : b ≤ str.length)
    (heq : strip trims (between str a b) = key) :
    ∃ k, a ≤ k ∧ k + key.length ≤ b ∧ Occurs key str k ∧ Filler trims (between str a k) ∧
      Filler trims (between str (k + key.length) b) := by
  obtain ⟨l, r, hlr, hl, hr⟩ := exists_eq_append_strip trims (between str a b)
  rw [heq] at hlr
  have hk : Occurs key str (a + l.length) := occurs_of_between hab (hab.trans hb) hlr
  have hlen := congrArg List.length hlr
  rw [length_between hab hb] at hlen
  simp only [List.length_append] at hlen
  have hkb : a + l.length + key.length ≤ b := by omega
  have hsplit := hk.between_split (Nat.le_add_right a l.length) hkb
  rw [hlr, List.append_assoc, List.append_assoc] at hsplit
  have hlengths : l.length = (between str a (a + l.length)).length := by
    rw [length_between (Nat.le_add_right _ _) hk.1, Nat.add_sub_cancel_left]
  obtain ⟨hfront, hrest⟩ := List.append_inj hsplit hlengths
  rw [hfront] at hl
  rw [List.append_cancel_left hrest] at hr
  exact ⟨a + l.length, Nat.le_add_right _ _, hkb, hk, hl, hr⟩

/-- What is tried is whether the key is left of a piece around it. -/
theorem tried_iff {b : ℕ} (hk : Occurs key str k) (ha : a ≤ k) (hb : k + key.length ≤ b) (hlen : b ≤ str.length) :
    (if trims then decide (trim (between str a b) = key) else decide (a = k ∧ b = k + key.length)) = true ↔
      strip trims (between str a b) = key := by
  cases trims with
  | true => exact decide_eq_true_iff
  | false =>
    refine decide_eq_true_iff.trans ?_
    show a = k ∧ b = k + key.length ↔ between str a b = key
    constructor
    · rintro ⟨rfl, rfl⟩
      exact hk.between_eq
    · intro heq
      have hlength := congrArg List.length heq
      rw [length_between (by omega) hlen] at hlength
      omega

section Search

variable (hapart : Apart key sep str) (hne : key ≠ []) (hsep : sep ≠ [])

theorem key_le_findOrEnd (hk : Occurs key str k) : k + key.length ≤ findOrEnd str sep (k + key.length) :=
  le_findOrEnd hk.length_le

include hapart hne

theorem isElement_iff_strip (hk : Occurs key str k) : isElement str key sep trims k = true ↔
    strip trims (between str (startBehind str sep k) (findOrEnd str sep (k + key.length))) = key := by
  exact tried_iff hk (hapart.startBehind_le hk hne) (key_le_findOrEnd hk) (findOrEnd_le _ _ _)

/-- It is the key when only blanks are around it. -/
theorem isElement_iff (hk : Occurs key str k) : isElement str key sep trims k = true ↔
    strip trims key = key ∧ Filler trims (between str (startBehind str sep k) k) ∧
      Filler trims (between str (k + key.length) (findOrEnd str sep (k + key.length))) := by
  have hsplit := hk.between_split (hapart.startBehind_le hk hne)
    (key_le_findOrEnd hk : k + key.length ≤ findOrEnd str sep (k + key.length))
  rw [isElement_iff_strip hapart hne hk, hsplit]
  constructor
  · intro h
    have hkey := strip_of_eq h
    exact ⟨hkey, (strip_append_iff hkey hne).1 h⟩
  · rintro ⟨hkey, h⟩
    exact (strip_append_iff hkey hne).2 h

/-- The search does not go past an element. -/
theorem skip_le {k' : ℕ} (hk : Occurs key str k) (hk' : Occurs key str k') (hlt : k' < k)
    (helement : isElement str key sep trims k = true) : findOrEnd str sep (k' + key.length) + sep.length ≤ k := by
  obtain ⟨hkey, hfront, -⟩ := (isElement_iff hapart hne hk).1 helement
  have hstart := hapart.startBehind_le hk hne
  by_cases hin : startBehind str sep k ≤ k'
  · exact absurd hfront (not_filler_of_occurs hne hkey hk' hin hlt)
  · rcases bound_startBehind str sep k with hzero | ⟨p, hp, hstart'⟩
    · omega
    · -- a separator is between the two
      rcases hapart k' p hk' hp with hbefore | hbehind
      · have hend := findOrEnd_le_of_occurs hp hbefore
        omega
      · omega

theorem checkLoop_iff (pos : ℕ) : checkLoop str key sep hne trims pos = true ↔
    ∃ k, pos ≤ k ∧ Occurs key str k ∧ isElement str key sep trims k = true := by
  induction hn : str.length - pos using Nat.strong_induction_on generalizing pos with
  | _ n ih =>
    rw [checkLoop]
    split
    next hfind =>
      refine iff_of_false Bool.false_ne_true ?_
      rintro ⟨k, hpos, hk, -⟩
      exact find_eq_none.1 hfind k hpos hk
    next k' hfind =>
      obtain ⟨hle, hk', hfirst⟩ := find_eq_some.1 hfind
      split_ifs with helement
      · exact iff_of_true rfl ⟨k', hle, hk', helement⟩
      · have hend : k' + key.length ≤ findOrEnd str sep (k' + key.length) := key_le_findOrEnd hk'
        have hlen := List.length_pos_iff.2 hne
        have hlt := hk'.length_le
        rw [ih _ (by omega) _ rfl]
        constructor
        · rintro ⟨k, hpos, hk, hkelement⟩
          exact ⟨k, by omega, hk, hkelement⟩
        · rintro ⟨k, hpos, hk, hkelement⟩
          refine ⟨k, ?_, hk, hkelement⟩
          rcases lt_trichotomy k k' with hlt' | rfl | hgt
          · exact absurd hk (hfirst k hpos hlt')
          · exact absurd hkelement helement
          · exact skip_le hapart hne hk hk' hgt hkelement

include hsep

/-- What the search takes for an element. -/
theorem exists_isElement_iff : (∃ k, Occurs key str k ∧ isElement str key sep trims k = true) ↔
    IsIn (Bound sep str) str key sep trims := by
  constructor
  · rintro ⟨k, hk, helement⟩
    refine ⟨startBehind str sep k, bound_startBehind _ _ _, ?_⟩
    have hnone : ∀ j, startBehind str sep k ≤ j → j < k + key.length → ¬Occurs sep str j := by
      intro j hj hlt hoccurs
      by_cases hjk : j ≤ k
      · exact not_occurs_of_startBehind_le hj hjk hsep hoccurs
      · rcases hapart k j hk hoccurs with h | h <;> omega
    rw [findOrEnd_eq_of_not_occurs (by have := hapart.startBehind_le hk hne; omega) hnone]
    exact (isElement_iff_strip hapart hne hk).1 helement
  · rintro ⟨a, ha, heq⟩
    obtain ⟨k, hak, hkb, hk, hfront, hback⟩ :=
      exists_occurs_of_strip (le_findOrEnd ha.le) (findOrEnd_le _ _ _) heq
    have hends : findOrEnd str sep a = findOrEnd str sep (k + key.length) :=
      findOrEnd_eq_of_not_occurs (by omega) fun j hj hlt => not_occurs_of_lt_findOrEnd hj (by omega)
    refine ⟨k, hk, (isElement_iff hapart hne hk).2 ⟨strip_of_eq heq, fun x hx => hfront x ?_, ?_⟩⟩
    · exact between_subset (ha.le_startBehind hak) (hapart.startBehind_le hk hne) hx
    · rwa [← hends]

theorem checkIfInList_iff (hnot : ∀ i, ¬Occurs sep key i) :
    checkIfInList str key sep trims = true ↔ IsIn (Bound sep str) str key sep trims := by
  have hfind : find key sep 0 = none := find_eq_none.2 fun i _ => hnot i
  rw [checkIfInList, dif_neg (by simp [hne, hsep]), if_neg (by simp [hfind]), checkLoop_iff hapart hne,
    ← exists_isElement_iff hapart hne hsep]
  simp

end Search

/-- Where no separators overlap either, they agree. -/
theorem checkIfInList_iff_mem_splitToVec (hapart : Apart key sep str) (hseparate : Separate sep str) (hne : key ≠ [])
    (hsep : sep ≠ []) (hnot : ∀ i, ¬Occurs sep key i) :
    checkIfInList str key sep trims = true ↔ key ∈ splitToVec str sep trims true := by
  rw [checkIfInList_iff hapart hne hsep hnot, mem_splitToVec hsep hne]
  exact ⟨fun ⟨a, ha, heq⟩ => ⟨a, hseparate.cut_of_bound hsep ha, heq⟩, fun ⟨a, ha, heq⟩ => ⟨a, ha.bound, heq⟩⟩

end AimRT.Util.StringView

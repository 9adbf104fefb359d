import Mathlib.Data.List.TakeWhile
import AimRT.Util.Decimal

/-!
# Remapped function names

`Ros2RpcBackend::GetRemappedFuncName` replaces the placeholders `{n}` of a remapping rule by the groups of a match.  It
rewrites the text that it searches, and where the search goes on behind a replacement is computed from the position of
the placeholder relative to the place where the last search began.  So from the second replacement on a part of what was
already made is searched again (`CleanFrom`): as many bytes as stood before that place.
-/

namespace AimRT.Ros2

open AimRT.Lib AimRT.Util

/-! ### Placeholders -/

/-- A match of `\{(\d+)\}` at the beginning of a text: its digits, and what is behind it. -/
def placeholderAt : Bytes → Option (Bytes × Bytes)
  | [] => none
  | c :: text =>
    match text.dropWhile isDigit with
    | [] => none
    | d :: behind =>
      if c = 123 ∧ d = 125 ∧ text.takeWhile isDigit ≠ [] then some (text.takeWhile isDigit, behind) else none

/-- `placeholder_match`: the text in front of the match, the digits and the text behind it. -/
structure PlaceholderMatch where
  skipped : Bytes
  digits : Bytes
  behind : Bytes
  deriving DecidableEq, Repr

namespace PlaceholderMatch

def position (p : PlaceholderMatch) : ℕ := p.skipped.length

def length (p : PlaceholderMatch) : ℕ := p.digits.length + 2

/-- The text that was searched. -/
def text (p : PlaceholderMatch) : Bytes := p.skipped ++ 123 :: (p.digits ++ 125 :: p.behind)

/-- The match in a longer text. -/
def behindText (u : Bytes) (p : PlaceholderMatch) : PlaceholderMatch := { p with skipped := u ++ p.skipped }

end PlaceholderMatch

/-- `std::regex_search` for a placeholder: the first one. -/
def searchPlaceholder : Bytes → Option PlaceholderMatch
  | [] => none
  | c :: text =>
    match placeholderAt (c :: text) with
    | some (digits, behind) => some ⟨[], digits, behind⟩
    | none => (searchPlaceholder text).map (PlaceholderMatch.behindText [c])

theorem placeholderAt_eq_some {text digits behind : Bytes} : placeholderAt text = some (digits, behind) ↔
    text = 123 :: (digits ++ 125 :: behind) ∧ isDigitStr digits = true := by
  constructor
  · intro h
    unfold placeholderAt at h
    split at h
    · cases h
    next c rest =>
      have hsplit := List.takeWhile_append_dropWhile (p := isDigit) (l := rest)
      split at h
      · cases h
      next d behind' hdrop =>
        split_ifs at h with hcond
        obtain ⟨rfl, rfl, hne⟩ := hcond
        obtain ⟨rfl, rfl⟩ := Prod.mk.inj (Option.some.inj h)
        rw [hdrop] at hsplit
        exact ⟨by rw [hsplit], isDigitStr_iff.2 ⟨hne, fun c hc => List.mem_takeWhile_imp hc⟩⟩
  · rintro ⟨rfl, hdigits⟩
    obtain ⟨hne, hall⟩ := isDigitStr_iff.1 hdigits
    have htake : (digits ++ 125 :: behind).takeWhile isDigit = digits := by
      rw [List.takeWhile_append_of_pos hall, List.takeWhile_cons_of_neg (by decide), List.append_nil]
    have hdrop : (digits ++ 125 :: behind).dropWhile isDigit = 125 :: behind := by
      rw [List.dropWhile_append_of_pos hall, List.dropWhile_cons_of_neg (by decide)]
    simp only [placeholderAt, hdrop, htake]
    exact if_pos ⟨trivial, trivial, hne⟩

/-- No placeholder begins in `u`, in front of `rest`. -/
def Free (u rest : Bytes) : Prop := ∀ i < u.length, placeholderAt ((u ++ rest).drop i) = none

instance (u rest : Bytes) : Decidable (Free u rest) := inferInstanceAs (Decidable (∀ i < u.length, _))

theorem free_nil (rest : Bytes) : Free [] rest := fun _ h => absurd h (Nat.not_lt_zero _)

theorem free_cons {c : UInt8} {u rest : Bytes} :
    Free (c :: u) rest ↔ placeholderAt (c :: (u ++ rest)) = none ∧ Free u rest := by
  constructor
  · exact fun h => ⟨h 0 (by simp), fun i hi => h (i + 1) (by simpa using hi)⟩
  · rintro ⟨hhead, htail⟩ i hi
    cases i with
    | zero => exact hhead
    | succ i => exact htail i (by simpa using hi)

/-- A placeholder begins with a brace. -/
theorem free_of_notMem {u : Bytes} (h : 123 ∉ u) (rest : Bytes) : Free u rest := by
  induction u with
  | nil => exact free_nil rest
  | cons c u ih =>
    rw [List.mem_cons, not_or] at h
    refine free_cons.2 ⟨Option.eq_none_iff_forall_ne_some.2 fun m hm => h.1 ?_, ih h.2⟩
    exact (List.cons.inj (placeholderAt_eq_some.1 hm).1).1.symm

theorem searchPlaceholder_append {u rest : Bytes} (h : Free u rest) :
    searchPlaceholder (u ++ rest) = (searchPlaceholder rest).map (PlaceholderMatch.behindText u) := by
  induction u with
  | nil =>
    rw [List.nil_append]
    cases searchPlaceholder rest <;> rfl
  | cons c u ih =>
    obtain ⟨hhead, htail⟩ := free_cons.1 h
    simp only [List.cons_append, searchPlaceholder, hhead, ih htail, Option.map_map]
    rfl

/-- What the search finds: a placeholder, and none before it. -/
theorem searchPlaceholder_eq_some {text : Bytes} {p : PlaceholderMatch} (h : searchPlaceholder text = some p) :
    text = p.text ∧ isDigitStr p.digits = true ∧ Free p.skipped (123 :: (p.digits ++ 125 :: p.behind)) := by
  induction text generalizing p with
  | nil => cases h
  | cons c text ih =>
    unfold searchPlaceholder at h
    split at h
    next digits behind hat =>
      obtain rfl := Option.some.inj h
      obtain ⟨htext, hdigits⟩ := placeholderAt_eq_some.1 hat
      exact ⟨htext, hdigits, free_nil _⟩
    next hat =>
      obtain ⟨q, hq, rfl⟩ := Option.map_eq_some_iff.1 h
      obtain ⟨rfl, hdigits, hfree⟩ := ih hq
      exact ⟨rfl, hdigits, free_cons.2 ⟨hat, hfree⟩⟩

/-- A placeholder that begins in `u` is found in `u`. -/
theorem exists_of_not_free {u rest : Bytes} (h : ¬ Free u rest) :
    ∃ p, searchPlaceholder (u ++ rest) = some p ∧ p.skipped.length < u.length := by
  induction u with
  | nil => exact absurd (free_nil rest) h
  | cons c u ih =>
    rw [List.cons_append, searchPlaceholder]
    cases hat : placeholderAt (c :: (u ++ rest)) with
    | some m => exact ⟨_, rfl, by simp⟩
    | none =>
      obtain ⟨p, hp, hlt⟩ := ih fun hfree => h (free_cons.2 ⟨hat, hfree⟩)
      exact ⟨_, congrArg (Option.map _) hp, by simpa [PlaceholderMatch.behindText] using hlt⟩

theorem behind_length_lt {text : Bytes} {p : PlaceholderMatch} (h : searchPlaceholder text = some p) :
    p.behind.length < text.length := by
  rw [(searchPlaceholder_eq_some h).1, PlaceholderMatch.text]
  simp only [List.length_append, List.length_cons]
  omega

/-- The placeholders of a rule. -/
def placeholders (rule : Bytes) : List PlaceholderMatch :=
  match _h : searchPlaceholder rule with
  | none => []
  | some p => p :: placeholders p.behind
termination_by rule.length
decreasing_by exact behind_length_lt _h

theorem placeholders_of_none {rule : Bytes} (h : searchPlaceholder rule = none) : placeholders rule = [] := by
  rw [placeholders]
  split
  · rfl
  next p hp => cases h.symm.trans hp

theorem placeholders_of_some {rule : Bytes} {p : PlaceholderMatch} (h : searchPlaceholder rule = some p) :
    placeholders rule = p :: placeholders p.behind := by
  rw [placeholders]
  split
  next hnone => cases h.symm.trans hnone
  next q hq => rw [Option.some.inj (h.symm.trans hq)]

/-! ### Replacement -/

/-- The groups of a match, where the match itself is group 0; `match.size()` is a 64-bit number. -/
structure Match where
  groups : List Bytes
  size_lt : groups.length < 2 ^ 64

/-- The end of `GetRemappedFuncName` before the placeholders are replaced. -/
inductive EarlyEnd where
  /-- `return input_string` -/
  | inputString
  /-- an exception, which is thrown again -/
  | exception
  deriving DecidableEq, Repr

/-- `std::stoul` of digits. -/
def stoul (digits : Bytes) : Except EarlyEnd ℕ :=
  if decimalValue digits < 2 ^ 64 then return decimalValue digits else throw .exception

/-- `replaced_func_name` and the offset of `search_start`. -/
structure Remapping where
  replacedFuncName : Bytes
  searchStart : ℕ
  deriving DecidableEq, Repr

/-- The body of the loop, for a placeholder. -/
def Remapping.replace (m : Match) (st : Remapping) (p : PlaceholderMatch) : Except EarlyEnd Remapping := do
  let index ← stoul p.digits
  match m.groups[index]? with
  | none => throw .inputString
  | some group => return {
      replacedFuncName := st.replacedFuncName.take (p.position + st.searchStart) ++ group ++
        st.replacedFuncName.drop (p.position + st.searchStart + p.length)
      searchStart := p.position + group.length }

/-- The loop, which need not end. -/
def remapLoop (m : Match) : ℕ → Remapping → Option (Except EarlyEnd Bytes)
  | 0, _ => none
  | fuel + 1, st =>
    match searchPlaceholder (st.replacedFuncName.drop st.searchStart) with
    | none => some (.ok st.replacedFuncName)
    | some p =>
      match st.replace m p with
      | .error e => some (.error e)
      | .ok st' => remapLoop m fuel st'

/-- `std::regex_search` of an expression in a text: the match, if there is one, or an exception. -/
abbrev RegexSearch := (expr text : Bytes) → Except Unit (Option Match)

/-- `replaced_func_name`, before the type of the message is added. -/
def replacedFuncName (regexSearch : RegexSearch) (fuel : ℕ) (inputString matchingRule remappingRule : Bytes) :
    Option (Except EarlyEnd Bytes) :=
  if remappingRule = [] then some (.error .inputString)
  else if matchingRule = [] then some (.error .inputString)
  else
    match regexSearch matchingRule inputString with
    | .error _ => some (.error .exception)
    | .ok none => some (.error .inputString)
    | .ok (some m) => remapLoop m fuel ⟨remappingRule, 0⟩

/-- The function name begins with the type of the message. -/
def addMsgType (inputString name : Bytes) : Bytes :=
  let msgType := inputString.takeWhile (· != 47)
  if msgType.isPrefixOf name then name else msgType ++ name

/-- `GetRemappedFuncName`; `none` where the exception is thrown again. -/
def getRemappedFuncName (regexSearch : RegexSearch) (fuel : ℕ) (inputString matchingRule remappingRule : Bytes) :
    Option (Option Bytes) :=
  (replacedFuncName regexSearch fuel inputString matchingRule remappingRule).map fun
    | .ok name => some (addMsgType inputString name)
    | .error .inputString => some inputString
    | .error .exception => none

/-! ### Substitution -/

/-- The text of a placeholder's group. -/
def Match.group (m : Match) (digits : Bytes) : Bytes := (m.groups[decimalValue digits]?).getD []

/-- A rule with the groups in the place of its placeholders. -/
def substituteFrom (m : Match) : (rest : Bytes) → List PlaceholderMatch → Bytes
  | rest, [] => rest
  | _, p :: ps => p.skipped ++ m.group p.digits ++ substituteFrom m p.behind ps

def substitute (m : Match) (rule : Bytes) : Bytes := substituteFrom m rule (placeholders rule)

/-- All placeholders of the rule have groups. -/
def InRange (m : Match) (ps : List PlaceholderMatch) : Prop := ∀ p ∈ ps, decimalValue p.digits < m.groups.length

instance (m : Match) (ps : List PlaceholderMatch) : Decidable (InRange m ps) :=
  inferInstanceAs (Decidable (∀ p ∈ ps, _ < _))

/-- With `out` made so far, the search goes on at `start` and finds no placeholder that begins in `out`; where it goes
on next is as far from the end of `out` as `start` was from its beginning. -/
def CleanFrom (m : Match) : (out : Bytes) → (start : ℕ) → (rest : Bytes) → List PlaceholderMatch → Prop
  | out, start, rest, [] => Free (out.drop start) rest
  | out, start, rest, p :: ps =>
    Free (out.drop start) rest ∧
      CleanFrom m (out ++ p.skipped ++ m.group p.digits) ((out ++ p.skipped ++ m.group p.digits).length - start)
        p.behind ps

instance decidableCleanFrom (m : Match) : ∀ out start rest ps, Decidable (CleanFrom m out start rest ps)
  | _, _, _, [] => inferInstanceAs (Decidable (Free _ _))
  | out, start, _, p :: ps =>
    have := decidableCleanFrom m (out ++ p.skipped ++ m.group p.digits)
      ((out ++ p.skipped ++ m.group p.digits).length - start) p.behind ps
    inferInstanceAs (Decidable (_ ∧ _))

/-- No text that was made is taken for a placeholder. -/
def Clean (m : Match) (rule : Bytes) : Prop := CleanFrom m [] 0 rule (placeholders rule)

theorem InRange.of_cons {m : Match} {p : PlaceholderMatch} {ps : List PlaceholderMatch} (h : InRange m (p :: ps)) :
    InRange m ps := fun q hq => h q (List.mem_cons_of_mem _ hq)

/-! ### One replacement -/

section Loop

variable {m : Match}

theorem getElem?_group {digits : Bytes} (h : decimalValue digits < m.groups.length) :
    m.groups[decimalValue digits]? = some (m.group digits) := by
  rw [Match.group, List.getElem?_eq_getElem h]
  rfl

theorem group_mem {digits : Bytes} (h : decimalValue digits < m.groups.length) : m.group digits ∈ m.groups :=
  List.mem_of_getElem? (getElem?_group h)

/-- A replacement with a group that is there. -/
theorem replace_eq {front : Bytes} {p : PlaceholderMatch} (h : decimalValue p.digits < m.groups.length) :
    Remapping.replace m ⟨front ++ p.text, front.length⟩ p =
      .ok ⟨front ++ p.skipped ++ m.group p.digits ++ p.behind, p.skipped.length + (m.group p.digits).length⟩ := by
  have hstoul : stoul p.digits = .ok (decimalValue p.digits) := if_pos (h.trans m.size_lt)
  have htake : (front ++ p.text).take (p.position + front.length) = front ++ p.skipped := by
    have hsplit : front ++ p.text = (front ++ p.skipped) ++ 123 :: (p.digits ++ 125 :: p.behind) := by
      simp [PlaceholderMatch.text]
    rw [hsplit, List.take_left']
    simp [PlaceholderMatch.position, Nat.add_comm]
  have hdrop : (front ++ p.text).drop (p.position + front.length + p.length) = p.behind := by
    have hsplit : front ++ p.text = (front ++ p.skipped ++ 123 :: (p.digits ++ [125])) ++ p.behind := by
      simp [PlaceholderMatch.text]
    rw [hsplit, List.drop_left']
    simp [PlaceholderMatch.position, PlaceholderMatch.length]
    omega
  unfold Remapping.replace
  rw [hstoul]
  change (match m.groups[decimalValue p.digits]? with | none => _ | some group => _) = _
  rw [getElem?_group h]
  simp only [htake, hdrop]
  rfl

/-- A replacement ends the loop, or the group is there. -/
theorem lt_of_replace {st st' : Remapping} {p : PlaceholderMatch} (h : st.replace m p = .ok st') :
    decimalValue p.digits < m.groups.length := by
  unfold Remapping.replace stoul at h
  split_ifs at h with hlt
  · by_contra hge
    have hnone : m.groups[decimalValue p.digits]? = none := List.getElem?_eq_none (Nat.not_lt.1 hge)
    change (match m.groups[decimalValue p.digits]? with | none => _ | some group => _) = _ at h
    rw [hnone] at h
    cases h
  · cases h

/-- More fuel does not change how the loop ends. -/
theorem remapLoop_add {fuel : ℕ} {st : Remapping} {r : Except EarlyEnd Bytes} (h : remapLoop m fuel st = some r)
    (n : ℕ) : remapLoop m (fuel + n) st = some r := by
  induction fuel generalizing st with
  | zero => cases h
  | succ fuel ih =>
    rw [Nat.succ_add, remapLoop]
    rw [remapLoop] at h
    split
    next hsearch => simpa only [hsearch] using h
    next p hsearch =>
      simp only [hsearch] at h
      split
      next e hst => simpa only [hst] using h
      next st' hst =>
        simp only [hst] at h
        exact ih h

theorem remapLoop_of_none {fuel : ℕ} {name : Bytes} {start : ℕ} (h : searchPlaceholder (name.drop start) = none) :
    remapLoop m (fuel + 1) ⟨name, start⟩ = some (.ok name) := by
  rw [remapLoop, h]

theorem remapLoop_of_some (fuel : ℕ) (front : Bytes) {text : Bytes} {p : PlaceholderMatch}
    (h : searchPlaceholder text = some p) (hlt : decimalValue p.digits < m.groups.length) :
    remapLoop m (fuel + 1) ⟨front ++ text, front.length⟩ =
      remapLoop m fuel
        ⟨front ++ p.skipped ++ m.group p.digits ++ p.behind, p.skipped.length + (m.group p.digits).length⟩ := by
  rw [remapLoop, List.drop_left, h]
  dsimp only
  rw [(searchPlaceholder_eq_some h).1, replace_eq hlt]

/-! ### The whole loop -/

variable {out rest : Bytes} {start : ℕ} {p : PlaceholderMatch} {ps : List PlaceholderMatch}

theorem search_of_placeholders_nil (h : placeholders rest = []) : searchPlaceholder rest = none := by
  cases hsearch : searchPlaceholder rest with
  | none => rfl
  | some p =>
    rw [placeholders_of_some hsearch] at h
    cases h

theorem search_of_placeholders_cons (h : placeholders rest = p :: ps) :
    searchPlaceholder rest = some p ∧ placeholders p.behind = ps := by
  cases hsearch : searchPlaceholder rest with
  | none =>
    rw [placeholders_of_none hsearch] at h
    cases h
  | some q =>
    rw [placeholders_of_some hsearch] at h
    obtain ⟨rfl, rfl⟩ := List.cons.inj h
    exact ⟨rfl, rfl⟩

/-- The search in what is searched again and the rest of the rule. -/
theorem search_drop (hstart : start ≤ out.length) (hfree : Free (out.drop start) rest) :
    searchPlaceholder ((out ++ rest).drop start) =
      (searchPlaceholder rest).map (PlaceholderMatch.behindText (out.drop start)) := by
  rw [List.drop_append_of_le_length hstart, searchPlaceholder_append hfree]

/-- The loop replaces the next placeholder of the rule. -/
theorem remapLoop_step {fuel : ℕ} (hstart : start ≤ out.length) (hfree : Free (out.drop start) rest)
    (hsearch : searchPlaceholder rest = some p) (hlt : decimalValue p.digits < m.groups.length) :
    remapLoop m (fuel + 1) ⟨out ++ rest, start⟩ =
      remapLoop m fuel ⟨out ++ p.skipped ++ m.group p.digits ++ p.behind,
        (out ++ p.skipped ++ m.group p.digits).length - start⟩ := by
  have hfound := searchPlaceholder_append hfree
  rw [hsearch, Option.map_some] at hfound
  have hfront : (out.take start).length = start := List.length_take_of_le hstart
  have hname : out.take start ++ (out.drop start ++ rest) = out ++ rest := by
    rw [← List.append_assoc, List.take_append_drop]
  have hstep := remapLoop_of_some fuel (out.take start) hfound hlt
  rw [hname, hfront] at hstep
  rw [hstep]
  simp only [PlaceholderMatch.behindText, ← List.append_assoc, List.take_append_drop]
  congr 2
  simp only [List.length_append, List.length_drop]
  omega

/-- As long as nothing that was made is taken for a placeholder, the loop ends with the groups in their places. -/
theorem remapLoop_of_cleanFrom (hps : placeholders rest = ps) (hin : InRange m ps) (hstart : start ≤ out.length)
    (h : CleanFrom m out start rest ps) :
    remapLoop m (ps.length + 1) ⟨out ++ rest, start⟩ = some (.ok (out ++ substituteFrom m rest ps)) := by
  induction ps generalizing out start rest with
  | nil =>
    refine remapLoop_of_none ?_
    rw [search_drop hstart h, search_of_placeholders_nil hps]
    rfl
  | cons p ps ih =>
    obtain ⟨hfree, hclean⟩ := h
    obtain ⟨hsearch, hbehind⟩ := search_of_placeholders_cons hps
    rw [List.length_cons, remapLoop_step hstart hfree hsearch (hin p List.mem_cons_self),
      ih hbehind hin.of_cons (Nat.sub_le _ _) hclean, substituteFrom]
    simp only [List.append_assoc]

/-! ### Braces -/

/-- No group has a brace. -/
def Braceless (m : Match) : Prop := ∀ g ∈ m.groups, 123 ∉ g

theorem count_text (p : PlaceholderMatch) (h : isDigitStr p.digits = true) :
    p.text.count 123 = p.skipped.count 123 + 1 + p.behind.count 123 := by
  have hdigits : p.digits.count 123 = 0 :=
    List.count_eq_zero_of_not_mem fun hmem => absurd ((isDigitStr_iff.1 h).2 _ hmem) (by decide)
  rw [PlaceholderMatch.text, List.count_append, List.count_cons_self, List.count_append, hdigits,
    List.count_cons_of_ne (by decide)]
  omega

theorem count_group (hm : Braceless m) (digits : Bytes) : (m.group digits).count 123 = 0 := by
  refine List.count_eq_zero_of_not_mem ?_
  by_cases h : decimalValue digits < m.groups.length
  · exact hm _ (group_mem h)
  · rw [Match.group, List.getElem?_eq_none (Nat.not_lt.1 h)]
    exact List.not_mem_nil

/-- Each placeholder of the rule has one brace, which is replaced. -/
theorem count_substituteFrom (hm : Braceless m) (hps : placeholders rest = ps) :
    (substituteFrom m rest ps).count 123 + ps.length = rest.count 123 := by
  induction ps generalizing rest with
  | nil => rfl
  | cons p ps ih =>
    obtain ⟨hsearch, hbehind⟩ := search_of_placeholders_cons hps
    obtain ⟨htext, hdigits, -⟩ := searchPlaceholder_eq_some hsearch
    have hrest := ih hbehind
    rw [htext, count_text p hdigits, substituteFrom, List.count_append, List.count_append, count_group hm,
      List.length_cons]
    omega

/-- Text without a brace in front does not change the placeholders. -/
theorem length_placeholders_append {c : Bytes} (h : 123 ∉ c) (rest : Bytes) :
    (placeholders (c ++ rest)).length = (placeholders rest).length := by
  have hsearch := searchPlaceholder_append (free_of_notMem h rest)
  cases hrest : searchPlaceholder rest with
  | none =>
    rw [hrest] at hsearch
    rw [placeholders_of_none hsearch, placeholders_of_none hrest]
  | some p =>
    rw [hrest] at hsearch
    rw [placeholders_of_some hsearch, placeholders_of_some hrest]
    rfl

/-- A placeholder that begins in `u` takes nothing but digits and its last brace from the text behind `u`. -/
theorem exists_behind {u : Bytes} (h : searchPlaceholder (u ++ rest) = some p) (hlt : p.skipped.length < u.length) :
    ∃ x c rest', p.behind = x ++ rest' ∧ rest = c ++ rest' ∧ 123 ∉ c := by
  obtain ⟨htext, hdigits, -⟩ := searchPlaceholder_eq_some h
  have hsplit : (p.skipped ++ [123]) ++ ((p.digits ++ [125]) ++ p.behind) = u ++ rest := by
    rw [htext, PlaceholderMatch.text]
    simp
  have hnot : 123 ∉ p.digits ++ [125] := by
    rw [List.mem_append, not_or]
    exact ⟨fun hmem => absurd ((isDigitStr_iff.1 hdigits).2 _ hmem) (by decide), by decide⟩
  rcases List.append_eq_append_iff.1 hsplit with ⟨v, -, hv⟩ | ⟨v, hv, hrest⟩
  · rcases List.append_eq_append_iff.1 hv with ⟨x, -, hx⟩ | ⟨c, hc, hrest⟩
    · exact ⟨x, [], rest, hx, rfl, List.not_mem_nil⟩
    · exact ⟨[], c, p.behind, rfl, hrest, fun hmem => hnot (by rw [hc]; exact List.mem_append_right _ hmem)⟩
  · -- the first brace is in `u`
    have hlen := congrArg List.length hv
    simp only [List.length_append, List.length_singleton] at hlen
    obtain rfl : v = [] := List.length_eq_zero_iff.1 (by omega)
    exact ⟨[], _, p.behind, rfl, hrest, hnot⟩

/-- Where the loop ends, it has gone on behind the placeholder that was found. -/
theorem remapLoop_found {fuel : ℕ} {final : Bytes} (hstart : start ≤ out.length)
    (hsearch : searchPlaceholder (out.drop start ++ rest) = some p)
    (h : remapLoop m (fuel + 1) ⟨out ++ rest, start⟩ = some (.ok final)) :
    decimalValue p.digits < m.groups.length ∧
      remapLoop m fuel ⟨out.take start ++ p.skipped ++ m.group p.digits ++ p.behind,
        p.skipped.length + (m.group p.digits).length⟩ = some (.ok final) := by
  have hname : out ++ rest = out.take start ++ (out.drop start ++ rest) := by
    rw [← List.append_assoc, List.take_append_drop]
  have hfront : (out.take start).length = start := List.length_take_of_le hstart
  have hlt : decimalValue p.digits < m.groups.length := by
    rw [remapLoop, List.drop_append_of_le_length hstart, hsearch] at h
    dsimp only at h
    split at h
    · cases h
    next st' hst => exact lt_of_replace hst
  have hstep := remapLoop_of_some fuel (out.take start) hsearch hlt
  rw [← hname, hfront] at hstep
  exact ⟨hlt, hstep.symm.trans h⟩

/-- There is a brace less then. -/
theorem count_found (hm : Braceless m) (hsearch : searchPlaceholder (out.drop start ++ rest) = some p) :
    (out ++ rest).count 123 = (out.take start ++ p.skipped ++ m.group p.digits ++ p.behind).count 123 + 1 := by
  have hname : out ++ rest = out.take start ++ (out.drop start ++ rest) := by
    rw [← List.append_assoc, List.take_append_drop]
  obtain ⟨htext, hdigits, -⟩ := searchPlaceholder_eq_some hsearch
  rw [hname, htext, List.count_append, count_text p hdigits]
  simp only [List.count_append, count_group hm]
  omega

/-- Where the loop ends, a brace was replaced for each placeholder that was left of the rule, and another one for text
that was taken for a placeholder. -/
theorem count_of_remapLoop (hm : Braceless m) {fuel : ℕ} {final : Bytes} (hstart : start ≤ out.length)
    (h : remapLoop m fuel ⟨out ++ rest, start⟩ = some (.ok final)) :
    final.count 123 + (placeholders rest).length + (if Free (out.drop start) rest then 0 else 1) ≤
      (out ++ rest).count 123 := by
  induction fuel generalizing out rest start with
  | zero => cases h
  | succ fuel ih =>
    by_cases hfree : Free (out.drop start) rest
    · rw [if_pos hfree]
      cases hsearch : searchPlaceholder rest with
      | none =>
        have hdrop := search_drop hstart hfree
        rw [hsearch] at hdrop
        rw [remapLoop_of_none hdrop] at h
        obtain rfl := Except.ok.inj (Option.some.inj h)
        rw [placeholders_of_none hsearch]
        rfl
      | some p =>
        have hfound := searchPlaceholder_append hfree
        rw [hsearch, Option.map_some] at hfound
        have hcount := count_found hm hfound
        have hloop := (remapLoop_found hstart hfound h).2
        have hle := ih (by simp) hloop
        rw [placeholders_of_some hsearch, List.length_cons, hcount]
        change _ + (placeholders p.behind).length + _ ≤ _ at hle
        omega
    · rw [if_neg hfree]
      obtain ⟨p, hfound, hlt⟩ := exists_of_not_free hfree
      have hcount := count_found hm hfound
      have hloop := (remapLoop_found hstart hfound h).2
      obtain ⟨x, c, rest', hbehind, hrest, hc⟩ := exists_behind hfound hlt
      rw [hbehind, ← List.append_assoc] at hloop hcount
      have hle := ih (by simp; omega) hloop
      rw [hrest, length_placeholders_append hc, ← hrest, hcount]
      omega

/-- With the groups in their places, no brace was replaced but those of the placeholders. -/
theorem free_of_remapLoop (hm : Braceless m) {fuel : ℕ} (hps : placeholders rest = ps) (hstart : start ≤ out.length)
    (h : remapLoop m fuel ⟨out ++ rest, start⟩ = some (.ok (out ++ substituteFrom m rest ps))) :
    Free (out.drop start) rest := by
  by_contra hnot
  have hle := count_of_remapLoop hm hstart h
  have hcount := count_substituteFrom hm hps
  rw [if_neg hnot, List.count_append, List.count_append, hps] at hle
  omega

theorem cleanFrom_of_remapLoop (hm : Braceless m) {fuel : ℕ} (hps : placeholders rest = ps) (hin : InRange m ps)
    (hstart : start ≤ out.length)
    (h : remapLoop m fuel ⟨out ++ rest, start⟩ = some (.ok (out ++ substituteFrom m rest ps))) :
    CleanFrom m out start rest ps := by
  induction ps generalizing fuel out start rest with
  | nil => exact free_of_remapLoop hm hps hstart h
  | cons p ps ih =>
    have hfree := free_of_remapLoop hm hps hstart h
    obtain ⟨hsearch, hbehind⟩ := search_of_placeholders_cons hps
    refine ⟨hfree, ?_⟩
    cases fuel with
    | zero => cases h
    | succ fuel =>
      rw [remapLoop_step hstart hfree hsearch (hin p List.mem_cons_self)] at h
      refine ih hbehind hin.of_cons (Nat.sub_le _ _) (h.trans ?_)
      rw [substituteFrom]
      simp only [List.append_assoc]

/-! ### Groups that are placeholders -/

/-- A placeholder behind `u` is found there at the latest. -/
theorem not_free_of_placeholderAt {t : Bytes} {r : Bytes × Bytes} (ht : placeholderAt t = some r) (u b : Bytes) :
    ¬ Free (u ++ t) b := by
  obtain ⟨digits, behind⟩ := r
  obtain ⟨rfl, hdigits⟩ := placeholderAt_eq_some.1 ht
  intro hfree
  have hnone := hfree u.length (by simp)
  rw [List.append_assoc, List.drop_left] at hnone
  have hsome : placeholderAt (123 :: (digits ++ 125 :: behind) ++ b) = some (digits, behind ++ b) :=
    placeholderAt_eq_some.2 ⟨by simp, hdigits⟩
  cases hnone.symm.trans hsome

/-- When all groups are one placeholder, the loop does not end any more once one of them is searched again, in a text
where the search goes on at least as far from the beginning as this placeholder is long. -/
theorem remapLoop_ne_ok {t : Bytes} {r : Bytes × Bytes} (ht : placeholderAt t = some r)
    (hgroups : ∀ g ∈ m.groups, g = t) (fuel : ℕ) {a b : Bytes} (hle : t.length ≤ start)
    (hstart : start ≤ a.length) (final : Bytes) :
    remapLoop m fuel ⟨a ++ t ++ b, start⟩ ≠ some (.ok final) := by
  induction fuel generalizing a b start with
  | zero => nofun
  | succ fuel ih =>
    intro h
    obtain ⟨p, hfound, -⟩ := exists_of_not_free (not_free_of_placeholderAt ht (a.drop start) b)
    have hat : start ≤ (a ++ t).length := by
      rw [List.length_append]
      omega
    rw [← List.drop_append_of_le_length hstart] at hfound
    obtain ⟨hlt, hloop⟩ := remapLoop_found hat hfound h
    rw [hgroups _ (group_mem hlt)] at hloop
    -- the placeholder that was put in is not before the place where the search goes on
    refine ih (Nat.le_add_left _ _) ?_ hloop
    rw [List.length_append, List.length_take_of_le hat]
    omega

/-- Where nothing is searched again. -/
theorem remapLoop_at_end (fuel : ℕ) (out : Bytes) (hsearch : searchPlaceholder rest = some p)
    (hlt : decimalValue p.digits < m.groups.length) : remapLoop m (fuel + 1) ⟨out ++ rest, out.length⟩ =
      remapLoop m fuel ⟨out ++ p.skipped ++ m.group p.digits ++ p.behind,
        p.skipped.length + (m.group p.digits).length⟩ := by
  rw [remapLoop_step (Nat.le_refl _) (by rw [List.drop_length]; exact free_nil _) hsearch hlt]
  congr 2
  simp only [List.length_append]
  omega

/-- The second replacement leads there. -/
theorem remapLoop_ne_ok_of_two {t : Bytes} {r : Bytes × Bytes} (ht : placeholderAt t = some r)
    (hgroups : ∀ g ∈ m.groups, g = t) {q : PlaceholderMatch} (hps : placeholders rest = p :: q :: ps)
    (hin : InRange m (p :: q :: ps)) (fuel : ℕ) (final : Bytes) : remapLoop m fuel ⟨rest, 0⟩ ≠ some (.ok final) := by
  obtain ⟨hp, hbehind⟩ := search_of_placeholders_cons hps
  obtain ⟨hq, -⟩ := search_of_placeholders_cons hbehind
  have hpin := hin p List.mem_cons_self
  have hqin := hin q (List.mem_cons_of_mem _ List.mem_cons_self)
  have hfirst : ∀ fuel, remapLoop m (fuel + 1) ⟨rest, 0⟩ =
      remapLoop m fuel ⟨p.skipped ++ t ++ p.behind, (p.skipped ++ t).length⟩ := by
    intro fuel
    have hstep := remapLoop_at_end fuel [] hp hpin
    rw [hgroups _ (group_mem hpin), List.nil_append, List.nil_append, ← List.length_append] at hstep
    exact hstep
  intro h
  rcases fuel with _ | _ | fuel
  · cases h
  · rw [hfirst] at h
    cases h
  · rw [hfirst, remapLoop_at_end fuel _ hq hqin, hgroups _ (group_mem hqin)] at h
    refine remapLoop_ne_ok ht hgroups fuel (Nat.le_add_left _ _) ?_ final h
    simp only [List.length_append]
    omega

/-- One placeholder is replaced in a text where nothing was made before it. -/
theorem cleanFrom_of_length_le (h : ps.length ≤ 1) : CleanFrom m [] 0 rest ps := by
  match ps, h with
  | [], _ => exact free_nil _
  | [p], _ =>
    refine ⟨free_nil _, ?_⟩
    rw [CleanFrom, Nat.sub_zero, List.drop_length]
    exact free_nil _

/-- The rules that get the groups of every match into their places are those with at most one placeholder. -/
theorem forall_substitute_iff {rule : Bytes} {n : ℕ} (hn : n < 2 ^ 64)
    (hin : ∀ p ∈ placeholders rule, decimalValue p.digits < n) :
    (∀ m : Match, m.groups.length = n → ∃ fuel, remapLoop m fuel ⟨rule, 0⟩ = some (.ok (substitute m rule))) ↔
      (placeholders rule).length ≤ 1 := by
  constructor
  · intro h
    by_contra hgt
    obtain ⟨p, q, ps, hps⟩ : ∃ p q ps, placeholders rule = p :: q :: ps := by
      match hps : placeholders rule with
      | [] => simp [hps] at hgt
      | [p] => simp [hps] at hgt
      | p :: q :: ps => exact ⟨p, q, ps, rfl⟩
    have hlen : (List.replicate n (ascii "{0}")).length < 2 ^ 64 := by rwa [List.length_replicate]
    obtain ⟨fuel, hloop⟩ := h ⟨_, hlen⟩ List.length_replicate
    have hat : placeholderAt (ascii "{0}") = some (ascii "0", []) := by decide
    refine remapLoop_ne_ok_of_two hat (fun g => List.eq_of_mem_replicate) hps (fun p hp => ?_) fuel _ hloop
    rw [List.length_replicate]
    exact hin p (hps ▸ hp)
  · intro h m hm
    have hrange : InRange m (placeholders rule) := fun p hp => (hin p hp).trans_eq hm.symm
    exact ⟨_, remapLoop_of_cleanFrom rfl hrange (Nat.le_refl 0) (cleanFrom_of_length_le h)⟩

end Loop

/-! ### The name before the type of the message is added -/

/-- The loop ends, and the rule has the groups of the match in the place of its placeholders. -/
def Substitutes (regexSearch : RegexSearch) (inputString matchingRule remappingRule : Bytes) (m : Match) : Prop :=
  ∃ fuel, replacedFuncName regexSearch fuel inputString matchingRule remappingRule =
    some (.ok (substitute m remappingRule))

theorem Substitutes.getRemappedFuncName {regexSearch : RegexSearch} {inputString matchingRule remappingRule : Bytes}
    {m : Match} (h : Substitutes regexSearch inputString matchingRule remappingRule m) :
    ∃ fuel, getRemappedFuncName regexSearch fuel inputString matchingRule remappingRule =
      some (some (addMsgType inputString (substitute m remappingRule))) := by
  obtain ⟨fuel, h⟩ := h
  refine ⟨fuel, ?_⟩
  rw [Ros2.getRemappedFuncName, h]
  rfl

/-- The name begins with the type of the message then. -/
theorem isPrefix_addMsgType (inputString name : Bytes) :
    inputString.takeWhile (· != 47) <+: addMsgType inputString name := by
  unfold addMsgType
  dsimp only
  split_ifs with h
  · exact List.isPrefixOf_iff_prefix.1 h
  · exact List.prefix_append _ _

section Rule

variable {regexSearch : RegexSearch} {inputString matchingRule remappingRule : Bytes} {m : Match}
  (hremapping : remappingRule ≠ []) (hmatching : matchingRule ≠ [])
  (hmatch : regexSearch matchingRule inputString = .ok (some m))

include hremapping hmatching hmatch in
theorem replacedFuncName_eq (fuel : ℕ) : replacedFuncName regexSearch fuel inputString matchingRule remappingRule =
    remapLoop m fuel ⟨remappingRule, 0⟩ := by
  rw [replacedFuncName, if_neg hremapping, if_neg hmatching, hmatch]

include hremapping hmatching hmatch in
/-- **Main result.**  The groups of a match come into the places of the placeholders, when no text that was made is
taken for a placeholder; with groups without braces, only then. -/
theorem substitutes_iff (hin : InRange m (placeholders remappingRule)) :
    (Clean m remappingRule → Substitutes regexSearch inputString matchingRule remappingRule m) ∧
      (Braceless m → (Substitutes regexSearch inputString matchingRule remappingRule m ↔ Clean m remappingRule)) := by
  have hsound : Clean m remappingRule → Substitutes regexSearch inputString matchingRule remappingRule m := by
    intro h
    have hclean : CleanFrom m [] 0 remappingRule (placeholders remappingRule) := h
    have hloop := remapLoop_of_cleanFrom rfl hin (Nat.le_refl 0) hclean
    exact ⟨_, (replacedFuncName_eq hremapping hmatching hmatch _).trans hloop⟩
  refine ⟨hsound, fun hm => ⟨?_, hsound⟩⟩
  rintro ⟨fuel, h⟩
  rw [replacedFuncName_eq hremapping hmatching hmatch] at h
  have hloop : remapLoop m fuel ⟨[] ++ remappingRule, 0⟩ =
      some (.ok ([] ++ substituteFrom m remappingRule (placeholders remappingRule))) := h
  exact cleanFrom_of_remapLoop hm rfl hin (Nat.le_refl 0) hloop

end Rule

/-- `(.*)/(.*)/(.*)` and the name of a function. -/
def funcNameMatch : Match where
  groups := [ascii "pb:/test_pb_service/test_pb_func", ascii "pb:", ascii "test_pb_service", ascii "test_pb_func"]
  size_lt := by decide

theorem placeholders_one_three : placeholders (ascii "{1}/{3}") =
    [⟨[], ascii "1", ascii "/{3}"⟩, ⟨ascii "/", ascii "3", []⟩] := by
  have hfirst : searchPlaceholder (ascii "{1}/{3}") = some ⟨[], ascii "1", ascii "/{3}"⟩ := by decide
  have hsecond : searchPlaceholder (ascii "/{3}") = some ⟨ascii "/", ascii "3", []⟩ := by decide
  rw [placeholders_of_some hfirst, placeholders_of_some hsecond, placeholders_of_none rfl]

/-- A service is taken out of the name of a function. -/
theorem substitutes_service : Substitutes (fun _ _ => .ok (some funcNameMatch))
    (ascii "pb:/test_pb_service/test_pb_func") (ascii "(.*)/(.*)/(.*)") (ascii "{1}/{3}") funcNameMatch := by
  refine (substitutes_iff (by decide) (by decide) rfl ?_).1 ?_
  · rw [placeholders_one_three]
    decide
  · rw [Clean, placeholders_one_three]
    decide

/-- `(.*)` and a name that is a placeholder. -/
def wholeMatch (inputString : Bytes) : Match where
  groups := [inputString, inputString]
  size_lt := by simp

theorem placeholders_one_one :
    placeholders (ascii "{1}{1}") = [⟨[], ascii "1", ascii "{1}"⟩, ⟨[], ascii "1", []⟩] := by
  have hfirst : searchPlaceholder (ascii "{1}{1}") = some ⟨[], ascii "1", ascii "{1}"⟩ := by decide
  have hsecond : searchPlaceholder (ascii "{1}") = some ⟨[], ascii "1", []⟩ := by decide
  rw [placeholders_of_some hfirst, placeholders_of_some hsecond, placeholders_of_none rfl]

/-- With a name that is a placeholder, the loop does not end. -/
theorem placeholder_is_not_substituted : ¬ ∀ (regexSearch : RegexSearch)
    (inputString matchingRule remappingRule : Bytes) (m : Match), remappingRule ≠ [] → matchingRule ≠ [] →
    regexSearch matchingRule inputString = .ok (some m) → InRange m (placeholders remappingRule) →
    Substitutes regexSearch inputString matchingRule remappingRule m := by
  intro h
  have hrange : InRange (wholeMatch (ascii "{1}")) (placeholders (ascii "{1}{1}")) := by
    rw [placeholders_one_one]
    decide
  obtain ⟨fuel, hname⟩ := h (fun _ text => .ok (some (wholeMatch text))) (ascii "{1}") (ascii "(.*)") (ascii "{1}{1}") _
    (by decide) (by decide) rfl hrange
  rw [placeholders_one_one] at hrange
  have hat : placeholderAt (ascii "{1}") = some (ascii "1", []) := by decide
  exact remapLoop_ne_ok_of_two hat (by simp [wholeMatch]) placeholders_one_one hrange fuel _ hname

-- A brace of the rule and a group without braces.
example : remapLoop ⟨[ascii "pb:/a/3", ascii "pb:", ascii "a", ascii "3"], by decide⟩ 4 ⟨ascii "/{2}/{{3}}", 0⟩ =
    some (.ok (ascii "/a/3")) := by decide

end AimRT.Ros2

import Mathlib.Data.List.Basic
import Mathlib.Tactic

/-!
# Binary search

The loop that halves an interval of positions until one is left.  Where the positions that are passed over
come first, it ends at the first of the others, or at the upper end when there is no other below it.  So a
list in which these elements come first loses exactly them, given that the upper end is not in front of the
first of the others.
-/

namespace AimRT.Lib.BinarySearch

/-- The loop on `low` and `high`, for so many rounds: the half is taken that the middle tells. -/
def searchFrom (isBefore : ℕ → Bool) : ℕ → ℕ → ℕ → ℕ
  | 0, low, _ => low
  | rounds + 1, low, high =>
    if low < high then
      let mid := low + (high - low) / 2
      if isBefore mid then searchFrom isBefore rounds (mid + 1) high else searchFrom isBefore rounds low mid
    else low

/-- No more rounds are needed than there are positions. -/
def search (isBefore : ℕ → Bool) (low high : ℕ) : ℕ := searchFrom isBefore (high - low) low high

theorem searchFrom_eq {isBefore : ℕ → Bool} {k rounds low high : ℕ}
    (hbefore : ∀ i < high, (isBefore i = true ↔ i < k)) (hrounds : high - low ≤ rounds) (hlow : low ≤ high)
    (hk : low ≤ k) : searchFrom isBefore rounds low high = min k high := by
  induction rounds generalizing low high with
  | zero =>
    rw [searchFrom]
    omega
  | succ rounds ih =>
    rw [searchFrom]
    dsimp only
    split_ifs with hlt hmid
    · have hlt' := (hbefore _ (by omega)).1 hmid
      exact ih hbefore (by omega) (by omega) (by omega)
    · have hge : ¬low + (high - low) / 2 < k := fun h => hmid ((hbefore _ (by omega)).2 h)
      rw [ih (fun i hi => hbefore i (by omega)) (by omega) (by omega) hk]
      omega
    · omega

variable {α : Type} {before : α → Bool}

/-- The elements that are passed over come first. -/
def ComeFirst (before : α → Bool) (l : List α) : Prop := l.Pairwise fun x y => before y = true → before x = true

/-- How many they are. -/
def countFirst (before : α → Bool) (l : List α) : ℕ := l.findIdx fun x => !before x

theorem countFirst_le (l : List α) : countFirst before l ≤ l.length := List.findIdx_le_length

theorem countFirst_cons (x : α) (l : List α) :
    countFirst before (x :: l) = if before x then countFirst before l + 1 else 0 := by
  unfold countFirst
  rw [List.findIdx_cons]
  cases before x <;> rfl

theorem filter_eq_drop {l : List α} (h : ComeFirst before l) :
    l.filter (fun x => !before x) = l.drop (countFirst before l) := by
  induction l with
  | nil => rfl
  | cons x l ih =>
    obtain ⟨hx, hl⟩ := List.pairwise_cons.1 h
    rw [countFirst_cons, List.filter_cons]
    cases hb : before x with
    | true => exact ih hl
    | false =>
      have hrest : ∀ y ∈ l, (!before y) = true := by
        intro y hy
        cases hby : before y with
        | true => exact absurd (hx y hy hby) (by rw [hb]; exact Bool.false_ne_true)
        | false => rfl
      simp [List.filter_eq_self.2 hrest]

theorem before_getElem_iff {l : List α} (h : ComeFirst before l) {i : ℕ} (hi : i < l.length) :
    before l[i] = true ↔ i < countFirst before l := by
  induction l generalizing i with
  | nil => exact absurd hi (Nat.not_lt_zero i)
  | cons x l ih =>
    obtain ⟨hx, hl⟩ := List.pairwise_cons.1 h
    rw [countFirst_cons]
    cases i with
    | zero => cases hb : before x <;> simp [hb]
    | succ i =>
      have hi' : i < l.length := Nat.lt_of_succ_lt_succ hi
      rw [List.getElem_cons_succ, ih hl hi']
      cases hb : before x with
      | true => simp
      | false =>
        refine iff_of_false (fun hlt => ?_) (by simp)
        have hby := (ih hl hi').2 hlt
        rw [hx _ (List.getElem_mem hi') hby] at hb
        cases hb

/-- The search over a list, up to a position that may be in front of the first element that stays. -/
theorem search_list {l : List α} (h : ComeFirst before l) {isBefore : ℕ → Bool} {high : ℕ} (hhigh : high ≤ l.length)
    (hread : ∀ i, (hi : i < l.length) → isBefore i = before l[i]) :
    search isBefore 0 high = min (countFirst before l) high := by
  refine searchFrom_eq (fun i hi => ?_) le_rfl (Nat.zero_le high) (Nat.zero_le _)
  have hi' : i < l.length := lt_of_lt_of_le hi hhigh
  rw [hread i hi', before_getElem_iff h hi']

end AimRT.Lib.BinarySearch

import AimRT.Lib.Run

/-!
# Fair runs

An infinite run of a system, whose steps a scheduler chooses.  What stays true until a step of some kind is taken is true
when such a step is taken, as the scheduler chooses each kind again and again, and a weight that no step makes larger is
constant from some place on.
-/

namespace AimRT.Lib.Fair

variable {S O : Type} (step : S → O → S)

/-- The state behind the first `n` steps. -/
def stateAt (s : S) (σ : ℕ → O) (n : ℕ) : S := ((List.range n).map σ).foldl step s

/-- Steps of a kind are chosen again and again. -/
def Often (σ : ℕ → O) (Kind : O → Prop) : Prop := ∀ n, ∃ m ≥ n, Kind (σ m)

variable {step} {s : S} {σ : ℕ → O}

theorem stateAt_succ (n : ℕ) : stateAt step s σ (n + 1) = step (stateAt step s σ n) (σ n) := by
  rw [stateAt, List.range_succ, List.map_append, List.foldl_append]
  rfl

theorem stateAt_inv (Inv : S → Prop) (hstep : ∀ {s}, Inv s → ∀ op, Inv (step s op)) (h : Inv s) (n : ℕ) :
    Inv (stateAt step s σ n) :=
  (Run.allHold_of_inv Inv (fun h => h) hstep h _).last

/-- What all steps behind the first `n` keep. -/
theorem holds_of_le {P : ℕ → Prop} {n m : ℕ} (hnm : n ≤ m) (hkeep : ∀ k ≥ n, P k → P (k + 1)) (h : P n) : P m := by
  induction m, hnm using Nat.le_induction with
  | base => exact h
  | succ k hk ih => exact hkeep k hk ih

/-- What is true until a step of the kind is taken is true when one is taken. -/
theorem exists_next {Kind : O → Prop} (hoften : Often σ Kind) {P : ℕ → Prop} {n : ℕ}
    (hkeep : ∀ k ≥ n, ¬ Kind (σ k) → P k → P (k + 1)) (h : P n) : ∃ m ≥ n, Kind (σ m) ∧ P m := by
  classical
  have hex : ∃ m, n ≤ m ∧ Kind (σ m) := hoften n
  refine ⟨Nat.find hex, (Nat.find_spec hex).1, (Nat.find_spec hex).2, ?_⟩
  -- before the first step of the kind all steps are of other kinds
  have hbefore : ∀ m, n ≤ m → m ≤ Nat.find hex → P m := by
    intro m hm
    induction m, hm using Nat.le_induction with
    | base => exact fun _ => h
    | succ k hk ih => exact fun hle => hkeep k hk (fun hkind => Nat.find_min hex hle ⟨hk, hkind⟩) (ih (Nat.le_of_succ_le hle))
  exact hbefore _ (Nat.find_spec hex).1 le_rfl

/-- A weight that no step makes larger. -/
theorem eventually_const (weight : ℕ → ℕ) (hstep : ∀ n, weight (n + 1) ≤ weight n) :
    ∃ n, ∀ m ≥ n, weight m = weight n := by
  have hanti : Antitone weight := antitone_nat_of_succ_le hstep
  obtain ⟨n, hn⟩ := WellFounded.has_min (measure weight).wf Set.univ ⟨0, trivial⟩
  exact ⟨n, fun m hm => le_antisymm (hanti hm) (not_lt.1 (hn.2 m trivial))⟩

end AimRT.Lib.Fair

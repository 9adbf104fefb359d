import Mathlib.Tactic

/-!
# Bindings

Each of the nodes may be bound to an earlier one, to which it hands on what it is given.  From each node the way ends
at one that is not bound, its target.
-/

namespace AimRT.Lib.Binding

variable (bind : ℕ → Option ℕ)

/-- Whatever a node is bound to comes before it. -/
def Earlier : Prop := ∀ {i j}, bind i = some j → j < i

def target (i : ℕ) : ℕ :=
  match bind i with
  | none => i
  | some j => if j < i then target j else i

variable {bind} {i j : ℕ}

theorem target_of_none (h : bind i = none) : target bind i = i := by
  rw [target, h]

theorem target_of_some (hbind : Earlier bind) (h : bind i = some j) : target bind i = target bind j := by
  conv_lhs => rw [target, h]
  exact if_pos (hbind h)

/-- **Induction on the way.**  What is true of the nodes that are not bound, and comes to each other node from the one
it is bound to, is true of all. -/
theorem Earlier.rec_on {P : ℕ → Prop} (hbind : Earlier bind) (hnone : ∀ {i}, bind i = none → P i)
    (hsome : ∀ {i j}, bind i = some j → P j → P i) (i : ℕ) : P i := by
  induction i using Nat.strong_induction_on with
  | _ i ih =>
    cases h : bind i with
    | none => exact hnone h
    | some j => exact hsome h (ih j (hbind h))

theorem bind_target (hbind : Earlier bind) (i : ℕ) : bind (target bind i) = none := by
  induction i using hbind.rec_on with
  | hnone h =>
    rw [target_of_none h]
    exact h
  | hsome h ih =>
    rw [target_of_some hbind h]
    exact ih

theorem target_target (hbind : Earlier bind) (i : ℕ) : target bind (target bind i) = target bind i :=
  target_of_none (bind_target hbind i)

/-- What each node takes over from the one it is bound to, it has from its target. -/
theorem eq_target {α : Type} {f : ℕ → α} (hbind : Earlier bind) (hf : ∀ {i j}, bind i = some j → f i = f j) (i : ℕ) :
    f i = f (target bind i) := by
  induction i using hbind.rec_on with
  | hnone h => rw [target_of_none h]
  | hsome h ih =>
    rw [target_of_some hbind h, hf h]
    exact ih

end AimRT.Lib.Binding

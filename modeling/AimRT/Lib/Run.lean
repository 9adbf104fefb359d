import Mathlib.Tactic

/-!
# Runs

A system that takes one step after the other.  When all the steps of a run meet a condition that keeps
an invariant, a property that the invariant implies holds in all its states; where, under the
invariant, a step that violates the condition ends in a state without the property, the converse is
true too.
-/

namespace AimRT.Lib.Run

variable {S O : Type} (step : S → O → S)

/-- All steps of a run meet a condition. -/
def AllMeet (Meets : S → O → Prop) : S → List O → Prop
  | _, [] => True
  | s, op :: ops => Meets s op ∧ AllMeet Meets (step s op) ops

/-- All states of a run have a property. -/
def AllHold (Holds : S → Prop) : S → List O → Prop
  | s, [] => Holds s
  | s, op :: ops => Holds s ∧ AllHold Holds (step s op) ops

variable {step} {Holds : S → Prop} {Meets : S → O → Prop}

theorem AllHold.head {s : S} : ∀ {ops : List O}, AllHold step Holds s ops → Holds s
  | [], h => h
  | _ :: _, h => h.1

theorem AllHold.last {s : S} : ∀ {ops : List O}, AllHold step Holds s ops → Holds (ops.foldl step s)
  | [], h => h
  | _ :: _, h => h.2.last

theorem AllHold.take {s : S} {ops : List O} (h : AllHold step Holds s ops) (n : ℕ) :
    AllHold step Holds s (ops.take n) := by
  induction ops generalizing s n with
  | nil => rwa [List.take_nil]
  | cons op ops ih =>
    cases n with
    | zero => exact h.head
    | succ n => exact ⟨h.1, ih h.2 n⟩

theorem allMeet_of_forall {ops : List O} (h : ∀ op ∈ ops, ∀ s, Meets s op) (s : S) : AllMeet step Meets s ops := by
  induction ops generalizing s with
  | nil => trivial
  | cons op ops ih =>
    exact ⟨h op List.mem_cons_self s, ih (fun op' hop' => h op' (List.mem_cons_of_mem _ hop')) _⟩

theorem AllMeet.imp {Meets' : S → O → Prop} {s : S} {ops : List O} (h : AllMeet step Meets s ops)
    (himp : ∀ op ∈ ops, ∀ s, Meets s op → Meets' s op) : AllMeet step Meets' s ops := by
  induction ops generalizing s with
  | nil => trivial
  | cons op ops ih =>
    exact ⟨himp op List.mem_cons_self s h.1, ih h.2 fun op' hop' => himp op' (List.mem_cons_of_mem _ hop')⟩

/-- Where a step leads to a state with the property and is fine itself exactly when it meets the condition. -/
theorem allHold_and_allMeet_iff {Fine : S → O → Prop}
    (hstep : ∀ {s}, Holds s → ∀ op, Holds (step s op) ∧ Fine s op ↔ Meets s op) {s : S} (h : Holds s) (ops : List O) :
    AllHold step Holds s ops ∧ AllMeet step Fine s ops ↔ AllMeet step Meets s ops := by
  induction ops generalizing s with
  | nil => exact ⟨fun _ => trivial, fun _ => ⟨h, trivial⟩⟩
  | cons op ops ih =>
    constructor
    · rintro ⟨hholds, hfine⟩
      have hnext : Holds (step s op) := hholds.2.head
      exact ⟨(hstep h op).1 ⟨hnext, hfine.1⟩, (ih hnext).1 ⟨hholds.2, hfine.2⟩⟩
    · rintro ⟨hmeets, hrest⟩
      obtain ⟨hnext, hop⟩ := (hstep h op).2 hmeets
      obtain ⟨hholds, hfine⟩ := (ih hnext).2 hrest
      exact ⟨⟨h, hholds⟩, hop, hfine⟩

variable (Inv : S → Prop)

theorem allHold_of_allMeet (hholds : ∀ {s}, Inv s → Holds s)
    (hstep : ∀ {s}, Inv s → ∀ {op}, Meets s op → Inv (step s op)) {s : S} {ops : List O} (h : Inv s)
    (hmeets : AllMeet step Meets s ops) : AllHold step Holds s ops := by
  induction ops generalizing s with
  | nil => exact hholds h
  | cons op ops ih => exact ⟨hholds h, ih (hstep h hmeets.1) hmeets.2⟩

theorem allHold_of_inv (hholds : ∀ {s}, Inv s → Holds s)
    (hstep : ∀ {s}, Inv s → ∀ op, Inv (step s op)) {s : S} (h : Inv s) (ops : List O) :
    AllHold step Holds s ops :=
  allHold_of_allMeet Inv hholds (fun hinv op _ => hstep hinv op) h (allMeet_of_forall (fun _ _ _ => trivial) s)

/-- Two conditions that are the same under an invariant. -/
theorem allMeet_iff_of_inv {Meets' : S → O → Prop} (hstep : ∀ {s}, Inv s → ∀ op, Inv (step s op))
    (hiff : ∀ {s}, Inv s → ∀ op, Meets s op ↔ Meets' s op) {s : S} (h : Inv s) (ops : List O) :
    AllMeet step Meets s ops ↔ AllMeet step Meets' s ops := by
  induction ops generalizing s with
  | nil => rfl
  | cons op ops ih => exact and_congr (hiff h op) (ih (hstep h op))

/-- Where all the steps of the run meet another condition. -/
theorem allHold_iff_allMeet_of {Fine : S → O → Prop} (hholds : ∀ {s}, Inv s → Holds s)
    (hstep : ∀ {s}, Inv s → ∀ {op}, Fine s op → Meets s op → Inv (step s op))
    (hmeets : ∀ {s}, Inv s → ∀ {op}, Fine s op → Holds (step s op) → Meets s op) {s : S} {ops : List O} (h : Inv s)
    (hfine : AllMeet step Fine s ops) : AllHold step Holds s ops ↔ AllMeet step Meets s ops := by
  induction ops generalizing s with
  | nil => exact ⟨fun _ => trivial, fun _ => hholds h⟩
  | cons op ops ih =>
    constructor
    · intro hrun
      have hop : Meets s op := hmeets h hfine.1 hrun.2.head
      exact ⟨hop, (ih (hstep h hfine.1 hop) hfine.2).1 hrun.2⟩
    · intro hrun
      exact ⟨hholds h, (ih (hstep h hfine.1 hrun.1) hfine.2).2 hrun.2⟩

theorem allHold_iff_allMeet (hholds : ∀ {s}, Inv s → Holds s)
    (hstep : ∀ {s}, Inv s → ∀ {op}, Meets s op → Inv (step s op))
    (hmeets : ∀ {s}, Inv s → ∀ {op}, Holds (step s op) → Meets s op) {s : S} (h : Inv s) (ops : List O) :
    AllHold step Holds s ops ↔ AllMeet step Meets s ops :=
  allHold_iff_allMeet_of Inv hholds (fun hinv _ _ hop => hstep hinv hop) (fun hinv _ _ hrun => hmeets hinv hrun) h
    (allMeet_of_forall (fun _ _ _ => trivial) s)

/-- A property that, once lost, does not come back. -/
theorem allHold_iff_last (hstep : ∀ {s}, Inv s → ∀ op, Inv (step s op))
    (hback : ∀ {s}, Inv s → ∀ op, Holds (step s op) → Holds s) {s : S} (h : Inv s) (ops : List O) :
    AllHold step Holds s ops ↔ Holds (ops.foldl step s) := by
  refine ⟨AllHold.last, fun hlast => ?_⟩
  induction ops generalizing s with
  | nil => exact hlast
  | cons op ops ih =>
    have hrest := ih (hstep h op) hlast
    exact ⟨hback h op hrest.head, hrest⟩

end AimRT.Lib.Run

import Mathlib.Tactic

/-!
# Ownership ledgers

What a piece of code does with resources that it acquires: a ledger lists what it has acquired, handed
over and released.  A ledger is settled when everything acquired was handed over or released just
once.

Code that holds one resource at a time has, at every moment, one resource open and the others settled;
`Ledger.Holds` is this invariant.
-/

namespace AimRT.Lib

inductive Transfer (ι : Type) where
  | acquire (i : ι)
  | handOver (i : ι)
  | release (i : ι)
  deriving DecidableEq, Repr

abbrev Ledger (ι : Type) := List (Transfer ι)

namespace Ledger

open Transfer

variable {ι : Type} [DecidableEq ι] {l : Ledger ι} {i j : ι}

/-- How often `i` was handed over or released. -/
def disposals (l : Ledger ι) (i : ι) : ℕ := l.count (handOver i) + l.count (release i)

/-- Everything acquired was handed over or released just once. -/
def Settled (l : Ledger ι) : Prop := ∀ i, acquire i ∈ l → l.disposals i = 1

@[simp] theorem disposals_nil (i : ι) : disposals [] i = 0 := rfl

@[simp] theorem disposals_append (l l' : Ledger ι) (i : ι) :
    (l ++ l').disposals i = l.disposals i + l'.disposals i := by
  simp only [disposals, List.count_append]
  omega

@[simp] theorem disposals_acquire (i j : ι) : disposals [acquire j] i = 0 := by
  simp [disposals]

@[simp] theorem disposals_handOver (i j : ι) : disposals [handOver j] i = if j = i then 1 else 0 := by
  by_cases h : j = i <;> simp [disposals, h]

@[simp] theorem disposals_release (i j : ι) : disposals [release j] i = if j = i then 1 else 0 := by
  by_cases h : j = i <;> simp [disposals, h]

theorem settled_nil : Settled ([] : Ledger ι) := fun _ hi => nomatch hi

theorem disposals_eq_zero_of_acquires {is : List ι} (i : ι) :
    disposals (is.map acquire) i = 0 := by
  induction is with
  | nil => rfl
  | cons j is ih =>
    have := disposals_append [acquire j] (is.map acquire) i
    rwa [disposals_acquire, ih] at this

theorem not_settled_acquire (i : ι) : ¬ Settled [acquire i] := by
  intro h
  have := h i (List.mem_singleton_self _)
  rw [disposals_acquire] at this
  cases this

/-- A resource that is acquired and released at once. -/
theorem settled_acquire_release_iff (hacquire : acquire i ∉ l) (hdisposals : l.disposals i = 0) :
    Settled (acquire i :: release i :: l) ↔ l.Settled := by
  have hcons : ∀ j, disposals (acquire i :: release i :: l) j =
      (if i = j then 1 else 0) + l.disposals j := by
    intro j
    show disposals ([acquire i] ++ ([release i] ++ l)) j = _
    rw [disposals_append, disposals_append, disposals_acquire, disposals_release, Nat.zero_add]
  constructor
  · intro h j hj
    have hij : i ≠ j := fun heq => hacquire (heq ▸ hj)
    have := h j (List.mem_cons_of_mem _ (List.mem_cons_of_mem _ hj))
    rwa [hcons, if_neg hij, Nat.zero_add] at this
  · intro h j hj
    rw [hcons]
    by_cases hij : i = j
    · subst hij
      rw [if_pos rfl, hdisposals]
    · have hj : acquire j ∈ l := by simpa [Ne.symm hij] using hj
      rw [if_neg hij, h j hj]

/-- `i` is open: it was acquired, and all but it is settled. -/
structure Holds (l : Ledger ι) (i : ι) : Prop where
  acquired : acquire i ∈ l
  unsettled : l.disposals i = 0
  others : ∀ j, j ≠ i → acquire j ∈ l → l.disposals j = 1
  /-- What was not acquired was not disposed of either. -/
  fresh : ∀ j, acquire j ∉ l → l.disposals j = 0

/-- Nothing is open. -/
structure Idle (l : Ledger ι) : Prop where
  settled : l.Settled
  fresh : ∀ j, acquire j ∉ l → l.disposals j = 0

theorem idle_nil : Idle ([] : Ledger ι) := ⟨settled_nil, fun _ _ => rfl⟩

theorem Idle.acquire (h : l.Idle) (hi : Transfer.acquire i ∉ l) :
    Holds (l ++ [Transfer.acquire i]) i where
  acquired := by simp
  unsettled := by
    rw [disposals_append, disposals_acquire, h.fresh i hi]
  others := by
    intro j hj hmem
    have hj' : Transfer.acquire j ∈ l := by simpa [hj] using hmem
    rw [disposals_append, disposals_acquire, h.settled j hj']
  fresh := by
    intro j hmem
    have hj : Transfer.acquire j ∉ l := fun hl => hmem (List.mem_append_left _ hl)
    rw [disposals_append, disposals_acquire, h.fresh j hj]

/-- What is open is disposed of, in either way. -/
theorem Holds.dispose (h : l.Holds i) {t : Transfer ι} (ht : t = handOver i ∨ t = release i) :
    Idle (l ++ [t]) := by
  have hmem : ∀ j, Transfer.acquire j ∈ l ++ [t] ↔ Transfer.acquire j ∈ l := by
    intro j
    rcases ht with rfl | rfl <;> simp
  have hdisposals : ∀ j, disposals (l ++ [t]) j = l.disposals j + if i = j then 1 else 0 := by
    intro j
    rw [disposals_append]
    rcases ht with rfl | rfl
    · rw [disposals_handOver]
    · rw [disposals_release]
  constructor
  · intro j hj
    rw [hdisposals]
    by_cases hij : i = j
    · subst hij
      rw [if_pos rfl, h.unsettled]
    · rw [if_neg hij, h.others j (Ne.symm hij) ((hmem j).1 hj)]
  · intro j hj
    have hj' : Transfer.acquire j ∉ l := fun hl => hj ((hmem j).2 hl)
    have hij : i ≠ j := fun heq => hj' (heq ▸ h.acquired)
    rw [hdisposals, if_neg hij, h.fresh j hj']

end Ledger

end AimRT.Lib

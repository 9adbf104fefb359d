import Mathlib.Tactic

/-!
# Shared pointers

A shared pointer counts its owners and calls its deleter when the last of them is gone.  Who the owners are
is for the code that uses it to say: `Leads n ops n'` holds of operations that lead from `n` owners to `n'`,
each made by an owner.  Under such operations the count is that of the owners, and the deleter has been
called once if there are none, and not at all before (`Counts.run`).
-/

namespace AimRT.Lib

/-- An owner makes a copy, or goes. -/
inductive PtrOp where
  | copy
  | drop
  deriving DecidableEq, Repr

/-- What the owners of a `std::shared_ptr` share. -/
structure SharedPtr where
  useCount : ℕ
  /-- How often the deleter was called. -/
  deletions : ℕ
  deriving DecidableEq, Repr

namespace SharedPtr

/-- A new pointer has one owner. -/
def new : SharedPtr := ⟨1, 0⟩

def step (p : SharedPtr) : PtrOp → SharedPtr
  | .copy => { p with useCount := p.useCount + 1 }
  | .drop => ⟨p.useCount - 1, if p.useCount = 1 then p.deletions + 1 else p.deletions⟩

def run (p : SharedPtr) (ops : List PtrOp) : SharedPtr := ops.foldl step p

/-- The pointer has counted its owners. -/
structure Counts (p : SharedPtr) (owners : ℕ) : Prop where
  useCount : p.useCount = owners
  deletions : p.deletions = if owners = 0 then 1 else 0

/-- The operations of owners, from `n` of them to `n'`. -/
def Leads : ℕ → List PtrOp → ℕ → Prop
  | n, [], n' => n = n'
  | n, .copy :: ops, n' => 0 < n ∧ Leads (n + 1) ops n'
  | n, .drop :: ops, n' => 0 < n ∧ Leads (n - 1) ops n'

variable {p : SharedPtr} {n n' k : ℕ} {ops : List PtrOp}

theorem new_counts : new.Counts 1 := ⟨rfl, rfl⟩

theorem Counts.copy (hp : p.Counts n) (hn : 0 < n) : (p.step .copy).Counts (n + 1) := by
  refine ⟨congrArg (· + 1) hp.useCount, ?_⟩
  rw [if_neg (Nat.succ_ne_zero n)]
  exact hp.deletions.trans (if_neg hn.ne')

theorem Counts.drop (hp : p.Counts n) (hn : 0 < n) : (p.step .drop).Counts (n - 1) := by
  refine ⟨congrArg (· - 1) hp.useCount, ?_⟩
  have hzero : p.deletions = 0 := hp.deletions.trans (if_neg hn.ne')
  have hlast : n - 1 = 0 ↔ n = 1 := by omega
  simp only [step, hp.useCount, hzero, hlast, Nat.zero_add]

/-- **The deleter is called once**, when there are no owners any more. -/
theorem Counts.run (hp : p.Counts n) (h : Leads n ops n') : (p.run ops).Counts n' := by
  induction ops generalizing p n with
  | nil =>
    obtain rfl : n = n' := h
    exact hp
  | cons op ops ih =>
    cases op with
    | copy => exact ih (hp.copy h.1) h.2
    | drop => exact ih (hp.drop h.1) h.2

/-- Other owners do not matter. -/
theorem Leads.add (h : Leads n ops n') (k : ℕ) : Leads (n + k) ops (n' + k) := by
  induction ops generalizing n with
  | nil =>
    obtain rfl : n = n' := h
    rfl
  | cons op ops ih =>
    have hpos : 0 < n + k := by
      cases op <;> exact Nat.add_pos_left h.1 k
    cases op with
    | copy =>
      refine ⟨hpos, ?_⟩
      rw [Nat.add_right_comm]
      exact ih h.2
    | drop =>
      refine ⟨hpos, ?_⟩
      rw [Nat.sub_add_comm h.1]
      exact ih h.2

theorem leads_drops (n k : ℕ) : Leads (n + k) (List.replicate k .drop) n := by
  induction k with
  | zero => rfl
  | succ k ih => exact ⟨Nat.succ_pos _, ih⟩

theorem leads_copy (hn : 0 < n) : Leads n [.copy] (n + 1) := ⟨hn, rfl⟩

end SharedPtr

/-- What one element of a list adds to a sum. -/
theorem exists_sum_map_set {T : Type} (f : T → ℕ) {l : List T} {i : ℕ} {t : T} (h : l[i]? = some t) :
    ∃ m, (l.map f).sum = f t + m ∧ ∀ t', ((l.set i t').map f).sum = f t' + m := by
  induction l generalizing i with
  | nil => cases h
  | cons u l ih =>
    cases i with
    | zero =>
      obtain rfl := Option.some.inj h
      exact ⟨(l.map f).sum, by simp, by simp⟩
    | succ i =>
      obtain ⟨m, hm, hset⟩ := ih h
      refine ⟨f u + m, ?_, fun t' => ?_⟩
      · rw [List.map_cons, List.sum_cons, hm, Nat.add_left_comm]
      · rw [List.set_cons_succ, List.map_cons, List.sum_cons, hset, Nat.add_left_comm]

end AimRT.Lib

import Mathlib.Data.Multiset.Filter
import Mathlib.Tactic

/-!
# Alarm queues

The reference behaviour of a timer service: a clock that counts ticks and a bag of pending entries,
each due at one tick.  A tick hands out what is due and moves the clock on.  An entry may be added
at any time for the current tick or a later one.

`Run.fired_eq` is the law a user of such a service relies on: over any run, what the tick `c` hands
out is exactly what was ever added for `c`.
-/

namespace AimRT.Lib

/-- A clock and the entries that wait for it; `due e` is the tick at which `e` is handed out. -/
structure AlarmQueue (ε : Type*) where
  now : ℕ
  pending : Multiset ε

namespace AlarmQueue

variable {ε : Type*} (due : ε → ℕ)

/-- The empty queue at tick `0`. -/
def init : AlarmQueue ε := ⟨0, 0⟩

/-- One more entry waits. -/
def add (q : AlarmQueue ε) (e : ε) : AlarmQueue ε := { q with pending := e ::ₘ q.pending }

/-- What the next tick hands out. -/
def dueNow (q : AlarmQueue ε) : Multiset ε := q.pending.filter fun e => due e = q.now

/-- One tick: what is due now is gone. -/
def tick (q : AlarmQueue ε) : AlarmQueue ε :=
  ⟨q.now + 1, q.pending.filter fun e => due e ≠ q.now⟩

/-- The runs of a queue, with all that was added and what each tick handed out. -/
inductive Run : AlarmQueue ε → Multiset ε → List (Multiset ε) → Prop
  | init : Run init 0 []
  | add {q : AlarmQueue ε} {added : Multiset ε} {fired : List (Multiset ε)} {e : ε} :
      Run q added fired → q.now ≤ due e → Run (q.add e) (e ::ₘ added) fired
  | tick {q : AlarmQueue ε} {added : Multiset ε} {fired : List (Multiset ε)} :
      Run q added fired → Run (q.tick due) added (fired ++ [q.dueNow due])

variable {due} {q : AlarmQueue ε} {added : Multiset ε} {fired : List (Multiset ε)}

theorem Run.length_eq (h : Run due q added fired) : fired.length = q.now := by
  induction h with
  | init => rfl
  | add _ _ ih => exact ih
  | tick _ ih => simp [AlarmQueue.tick, ih]

/-- What is pending is what was added for a tick that has not come. -/
theorem Run.pending_eq (h : Run due q added fired) :
    q.pending = added.filter fun e => q.now ≤ due e := by
  induction h with
  | init => rfl
  | @add q added fired e _ hle ih =>
    show e ::ₘ q.pending = (e ::ₘ added).filter fun e => q.now ≤ due e
    rw [ih]
    exact (Multiset.filter_cons_of_pos (p := fun e => q.now ≤ due e) added hle).symm
  | @tick q added fired _ ih =>
    show q.pending.filter _ = added.filter _
    rw [ih, Multiset.filter_filter]
    exact Multiset.filter_congr fun e _ => by
      simp only [AlarmQueue.tick]
      omega

/-- **The law of an alarm queue.**  The tick `c` hands out exactly the entries added for `c`. -/
theorem Run.fired_eq (h : Run due q added fired) :
    ∀ c (hc : c < fired.length), fired[c] = added.filter fun e => due e = c := by
  induction h with
  | init => intro c hc; simp at hc
  | @add q added fired e hr hle ih =>
    intro c hc
    have hlt : c < q.now := hr.length_eq ▸ hc
    rw [ih c hc, Multiset.filter_cons_of_neg]
    omega
  | @tick q added fired hr ih =>
    intro c hc
    rcases Nat.lt_or_ge c fired.length with hlt | hge
    · rw [List.getElem_append_left hlt, ih c hlt]
    · have hcn : c = q.now := by
        have := hr.length_eq
        simp only [List.length_append, List.length_singleton] at hc
        omega
      subst hcn
      rw [List.getElem_append_right hge]
      simp only [List.getElem_singleton, dueNow]
      rw [hr.pending_eq, Multiset.filter_filter]
      exact Multiset.filter_congr fun e _ => by omega

/-- The law for lists that were handed out in some order. -/
theorem Run.fired_perm {lists : List (List ε)} {entries : List ε}
    (h : Run due q entries (lists.map ((↑) : List ε → Multiset ε))) (c : ℕ) (hc : c < lists.length) :
    lists[c].Perm (entries.filter fun e => due e = c) := by
  have hfired := h.fired_eq c (by simpa using hc)
  rw [← Multiset.coe_eq_coe]
  simpa using hfired

end AlarmQueue

end AimRT.Lib

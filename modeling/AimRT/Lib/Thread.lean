import Mathlib.Logic.Hydra
import Mathlib.Tactic

/-!
# Threads and pending calls

Concurrent code that completes *calls*.  A call has a callback; the callback is to be called, and may
be set to empty.  A table keeps calls as records under ids, so that one thread can leave a call to
whichever thread takes the record.

A thread is the tree of what it may still do; it branches at the answers it gets, from the shared
state or from outside code.  A pool makes a step by any of its threads, and new threads come with new
calls and with messages that arrive.
-/

namespace AimRT.Lib

/-! ### Threads -/

/-- What a thread has still to do.  `C` are the calls, `I` the ids of the table, `S` what a callback
is called with, and `A q` the answers of outside code to the request `q`. -/
inductive Thread (C I S : Type) {Q : Type} (A : Q → Type) : Type
  | done
  /-- The thread goes on for ever without any effect. -/
  | hang
  | ask (q : Q) (k : A q → Thread C I S A)
  /-- Calls the callback of `c`; `h` is what follows if it is empty. -/
  | invoke (c : C) (s : S) (k h : Thread C I S A)
  /-- Sets the callback of `c` to empty. -/
  | clear (c : C) (k : Thread C I S A)
  /-- Records `c` under `i`, unless there is a record. -/
  | emplace (i : I) (c : C) (k : Bool → Thread C I S A)
  /-- Takes the record under `i` out of the table. -/
  | take (i : I) (k : Option C → Thread C I S A)
  /-- Takes the next number of a counter. -/
  | fetchAdd (k : ℕ → Thread C I S A)
  | spawn (t k : Thread C I S A)
  | lock (k : Thread C I S A)
  | unlock (k : Thread C I S A)

/-- What the threads share.  `cleared` are the calls whose callback is empty, `completions` the calls
of callbacks and `emptyCalls` those that found the callback empty. -/
structure Shared (C I S : Type) where
  counter : ℕ
  table : List (I × C)
  cleared : List C
  completions : List (C × S)
  emptyCalls : List C
  locked : Bool
  deriving DecidableEq, Repr

variable {C I S Q M : Type} {A : Q → Type}

def Shared.init : Shared C I S := ⟨0, [], [], [], [], false⟩

namespace Thread

/-- Nothing to do, or waiting for the lock. -/
def Stuck (locked : Bool) : Thread C I S A → Prop
  | done => True
  | hang => True
  | lock _ => locked = true
  | _ => False

variable [DecidableEq C] [DecidableEq I]

/-- The next step of a thread, where outside code gives the answers `f`. -/
def step (f : ∀ q, A q) (m : Shared C I S) :
    Thread C I S A → Option (List (Thread C I S A) × Shared C I S)
  | done => none
  | hang => none
  | ask q k => some ([k (f q)], m)
  | invoke c s k h =>
    if c ∈ m.cleared then some ([h], { m with emptyCalls := m.emptyCalls ++ [c] })
    else some ([k], { m with completions := m.completions ++ [(c, s)] })
  | clear c k => some ([k], { m with cleared := c :: m.cleared })
  | emplace i c k =>
    match m.table.find? (fun r => r.1 = i) with
    | some _ => some ([k false], m)
    | none => some ([k true], { m with table := (i, c) :: m.table })
  | take i k =>
    match m.table.find? (fun r => r.1 = i) with
    | some r => some ([k (some r.2)], { m with table := m.table.eraseP (fun r => r.1 = i) })
    | none => some ([k none], m)
  | fetchAdd k => some ([k m.counter], { m with counter := m.counter + 1 })
  | spawn t k => some ([t, k], m)
  | lock k => if m.locked then none else some ([k], { m with locked := true })
  | unlock k => some ([k], { m with locked := false })

end Thread

/-! ### Code -/

/-- A piece of a thread: `k` is what follows it, and `h` what follows an exception it throws. -/
def Code (C I S : Type) {Q : Type} (A : Q → Type) (α : Type) :=
  (k : α → Thread C I S A) → (h : Thread C I S A) → Thread C I S A

namespace Code

variable {α β : Type}

instance : Monad (Code C I S A) where
  pure a := fun k _ => k a
  bind x f := fun k h => x (fun a => f a k h) h

def throw : Code C I S A α := fun _ h => h

/-- The result of outside code that throws where it has none. -/
def orThrow : Option α → Code C I S A α
  | some a => pure a
  | none => throw

/-- `try x catch y`. -/
def tryCatch (x y : Code C I S A α) : Code C I S A α := fun k h => x k (y k h)

def hang : Code C I S A α := fun _ _ => .hang

def ask (q : Q) : Code C I S A (A q) := fun k _ => .ask q k

/-- Calls the callback of `c`; an empty one throws. -/
def invoke (c : C) (s : S) : Code C I S A Unit := fun k h => .invoke c s (k ()) h

def clear (c : C) : Code C I S A Unit := fun k _ => .clear c (k ())

def emplace (i : I) (c : C) : Code C I S A Bool := fun k _ => .emplace i c k

def take (i : I) : Code C I S A (Option C) := fun k _ => .take i k

def fetchAdd : Code C I S A ℕ := fun k _ => .fetchAdd k

/-- An exception that nobody catches ends the thread. -/
def toThread (x : Code C I S A Unit) : Thread C I S A := x (fun _ => .done) .done

def spawn (x : Code C I S A Unit) : Code C I S A Unit := fun k _ => .spawn x.toThread (k ())

def lock : Code C I S A Unit := fun k _ => .lock (k ())

def unlock : Code C I S A Unit := fun k _ => .unlock (k ())

@[simp] theorem pure_apply (a : α) (k : α → Thread C I S A) (h : Thread C I S A) :
    (pure a : Code C I S A α) k h = k a := rfl

@[simp] theorem bind_apply (x : Code C I S A α) (f : α → Code C I S A β)
    (k : β → Thread C I S A) (h : Thread C I S A) :
    (x >>= f) k h = x (fun a => f a k h) h := rfl

@[simp] theorem tryCatch_apply (x y : Code C I S A α) (k : α → Thread C I S A)
    (h : Thread C I S A) : tryCatch x y k h = x k (y k h) := rfl

end Code

/-! ### Pools -/

/-- The threads that new calls and messages bring. -/
structure System (C I S : Type) {Q : Type} (A : Q → Type) (M : Type) where
  invoke : C → Code C I S A Unit
  handle : M → Code C I S A Unit

structure Pool (C I S : Type) {Q : Type} (A : Q → Type) where
  threads : List (Thread C I S A)
  shared : Shared C I S
  started : List C

/-- A call is made, a message arrives, or a thread makes a step. -/
inductive Move (C M : Type) {Q : Type} (A : Q → Type) where
  | start (c : C)
  | deliver (x : M)
  | run (i : ℕ) (f : ∀ q, A q)

namespace Pool

def init : Pool C I S A := ⟨[], .init, []⟩

/-- No thread can make a step. -/
def Quiescent (P : Pool C I S A) : Prop := ∀ t ∈ P.threads, t.Stuck P.shared.locked

/-- No call is completed twice, no empty callback is called, a completed call has no record, and when
no thread can make a step every call is completed. -/
structure ExactlyOnce (P : Pool C I S A) : Prop where
  nodup : (P.shared.completions.map Prod.fst).Nodup
  emptyCalls_eq : P.shared.emptyCalls = []
  notRecorded : ∀ p ∈ P.shared.completions, ∀ i, (i, p.1) ∉ P.shared.table
  completed : P.Quiescent → ∀ c ∈ P.started, ∃ s, (c, s) ∈ P.shared.completions

/-- A thread that has ended without a callback leaves its call behind. -/
theorem not_exactlyOnce_done (c : C) :
    ¬ ExactlyOnce (⟨[.done], .init, [c]⟩ : Pool C I S A) := by
  intro h
  have hquiescent : Quiescent (⟨[.done], .init, [c]⟩ : Pool C I S A) := by
    intro t ht
    rw [List.mem_singleton.1 ht]
    trivial
  obtain ⟨s, hs⟩ := h.completed hquiescent c List.mem_cons_self
  cases hs

variable [DecidableEq C] [DecidableEq I] {M : Type}

def step (sys : System C I S A M) (P : Pool C I S A) : Move C M A → Option (Pool C I S A)
  | .start c =>
    if c ∈ P.started then none
    else some { P with
      threads := (sys.invoke c).toThread :: P.threads
      started := c :: P.started }
  | .deliver x => some { P with threads := (sys.handle x).toThread :: P.threads }
  | .run i f => do
    let t ← P.threads[i]?
    let (ts, m) ← t.step f P.shared
    return { P with threads := ts ++ P.threads.eraseIdx i, shared := m }

/-- A run of a pool; no value where a move is not possible. -/
def run (sys : System C I S A M) : Pool C I S A → List (Move C M A) → Option (Pool C I S A)
  | P, [] => some P
  | P, move :: moves => do
    let P ← step sys P move
    run sys P moves

end Pool

/-! ### Progress -/

namespace Thread

/-- The threads that a step can leave behind. -/
inductive Child : Thread C I S A → Thread C I S A → Prop
  | ask {q : Q} {k} (a : A q) : Child (k a) (.ask q k)
  | invoke {c : C} {s : S} {k h} : Child k (.invoke c s k h)
  | empty {c : C} {s : S} {k h} : Child h (.invoke c s k h)
  | clear {c : C} {k} : Child k (.clear c k)
  | emplace {i : I} {c : C} {k} (b : Bool) : Child (k b) (.emplace i c k)
  | take {i : I} {k} (c : Option C) : Child (k c) (.take i k)
  | fetchAdd {k} (n : ℕ) : Child (k n) (.fetchAdd k)
  | spawned {t k} : Child t (.spawn t k)
  | spawn {t k} : Child k (.spawn t k)
  | lock {k} : Child k (.lock k)
  | unlock {k} : Child k (.unlock k)

theorem wellFounded_child : WellFounded (Child (C := C) (I := I) (S := S) (A := A)) := by
  refine ⟨fun t => ?_⟩
  induction t with
  | done => exact ⟨_, fun t ht => nomatch ht⟩
  | hang => exact ⟨_, fun t ht => nomatch ht⟩
  | ask q k ih =>
    refine ⟨_, fun t ht => ?_⟩
    cases ht with
    | ask a => exact ih a
  | invoke c s k h ihk ihh =>
    refine ⟨_, fun t ht => ?_⟩
    cases ht with
    | invoke => exact ihk
    | empty => exact ihh
  | clear c k ih =>
    refine ⟨_, fun t ht => ?_⟩
    cases ht with
    | clear => exact ih
  | emplace i c k ih =>
    refine ⟨_, fun t ht => ?_⟩
    cases ht with
    | emplace b => exact ih b
  | take i k ih =>
    refine ⟨_, fun t ht => ?_⟩
    cases ht with
    | take c => exact ih c
  | fetchAdd k ih =>
    refine ⟨_, fun t ht => ?_⟩
    cases ht with
    | fetchAdd n => exact ih n
  | spawn t k iht ihk =>
    refine ⟨_, fun t ht => ?_⟩
    cases ht with
    | spawned => exact iht
    | spawn => exact ihk
  | lock k ih =>
    refine ⟨_, fun t ht => ?_⟩
    cases ht with
    | lock => exact ih
  | unlock k ih =>
    refine ⟨_, fun t ht => ?_⟩
    cases ht with
    | unlock => exact ih

variable [DecidableEq C] [DecidableEq I] {t : Thread C I S A} {m m' : Shared C I S}
  {f : ∀ q, A q} {ts : List (Thread C I S A)}

theorem child_of_step (h : t.step f m = some (ts, m')) : ∀ t' ∈ ts, Child t' t := by
  -- every statement but `spawn` leaves one thread
  have hone : ∀ {u : Thread C I S A} {m₁ : Shared C I S}, Child u t →
      some ([u], m₁) = some (ts, m') → ∀ t' ∈ ts, Child t' t := by
    intro u m₁ hu heq t' ht'
    obtain ⟨rfl, -⟩ := Prod.mk.inj (Option.some.inj heq)
    rw [List.mem_singleton.1 ht']
    exact hu
  cases t with
  | done => cases h
  | hang => cases h
  | ask q k => exact hone (.ask _) h
  | invoke c s k hempty =>
    rw [step] at h
    split at h
    · exact hone .empty h
    · exact hone .invoke h
  | clear c k => exact hone .clear h
  | emplace i c k =>
    rw [step] at h
    split at h
    · exact hone (.emplace false) h
    · exact hone (.emplace true) h
  | take i k =>
    rw [step] at h
    split at h
    · exact hone (.take _) h
    · exact hone (.take none) h
  | fetchAdd k => exact hone (.fetchAdd _) h
  | spawn t k =>
    obtain ⟨rfl, -⟩ := Prod.mk.inj (Option.some.inj h)
    intro t' ht'
    rcases List.mem_cons.1 ht' with rfl | ht'
    · exact .spawned
    · rw [List.mem_singleton.1 ht']
      exact .spawn
  | lock k =>
    rw [step] at h
    split at h
    · cases h
    · exact hone .lock h
  | unlock k => exact hone .unlock h

theorem exists_step_of_not_stuck (f : ∀ q, A q) (h : ¬ t.Stuck m.locked) :
    ∃ ts m', t.step f m = some (ts, m') := by
  cases t with
  | done => exact absurd trivial h
  | hang => exact absurd trivial h
  | invoke c s k h =>
    rw [step]
    split <;> exact ⟨_, _, rfl⟩
  | emplace i c k =>
    rw [step]
    split <;> exact ⟨_, _, rfl⟩
  | take i k =>
    rw [step]
    split <;> exact ⟨_, _, rfl⟩
  | lock k =>
    have hfree : m.locked = false := by simpa [Stuck] using h
    exact ⟨_, _, by rw [step, hfree]; rfl⟩
  | _ => exact ⟨_, _, rfl⟩

end Thread

namespace Pool

variable [DecidableEq C] [DecidableEq I] {sys : System C I S A M}

/-- Steps of threads alone take the pool to a state in which no thread can make one. -/
def Finishes (sys : System C I S A M) (f : ∀ q, A q) (P : Pool C I S A) : Prop :=
  ∃ schedule : List ℕ, ∃ P', P.run sys (schedule.map fun i => .run i f) = some P' ∧ P'.Quiescent

/-- **Progress.**  Every step replaces a thread by parts of it. -/
theorem finishes (sys : System C I S A M) (f : ∀ q, A q) (P : Pool C I S A) :
    P.Finishes sys f := by
  have hwf := (Thread.wellFounded_child (C := C) (I := I) (S := S) (A := A)).cutExpand
  induction hts : (P.threads : Multiset (Thread C I S A)) using hwf.induction generalizing P with
  | h ts ih =>
    subst hts
    by_cases hquiescent : P.Quiescent
    · exact ⟨[], P, rfl, hquiescent⟩
    · simp only [Quiescent, not_forall] at hquiescent
      obtain ⟨t, ht, hstuck⟩ := hquiescent
      obtain ⟨i, hi, rfl⟩ := List.mem_iff_getElem.1 ht
      obtain ⟨ts, m, hts⟩ := Thread.exists_step_of_not_stuck f hstuck
      let P₁ : Pool C I S A := { P with threads := ts ++ P.threads.eraseIdx i, shared := m }
      have hstep : P.step sys (.run i f) = some P₁ := by
        simp [Pool.step, List.getElem?_eq_getElem hi, hts, P₁]
      have hcut : Relation.CutExpand Thread.Child
          (P₁.threads : Multiset (Thread C I S A)) P.threads := by
        refine ⟨ts, P.threads[i], Thread.child_of_step hts, ?_⟩
        simp only [P₁, Multiset.coe_add, ← Multiset.coe_singleton, Multiset.coe_eq_coe]
        have hperm : (P.threads.eraseIdx i ++ [P.threads[i]]).Perm P.threads :=
          (List.perm_append_singleton _ _).trans (List.getElem_cons_eraseIdx_perm hi)
        rw [List.append_assoc]
        exact (hperm.append_left ts).trans List.perm_append_comm
      obtain ⟨schedule, P', hrun, hP'⟩ := ih _ hcut P₁ rfl
      refine ⟨i :: schedule, P', ?_, hP'⟩
      rw [List.map_cons, Pool.run, hstep]
      exact hrun

end Pool

/-! ### Threads that call no callback -/

namespace Thread

/-- With the answers `f`, the thread and those that it spawns call no callback. -/
def Silent (f : ∀ q, A q) : Thread C I S A → Prop
  | done => True
  | hang => True
  | ask q k => Silent f (k (f q))
  | invoke .. => False
  | clear _ k => Silent f k
  | emplace _ _ k => ∀ b, Silent f (k b)
  | take _ k => ∀ c, Silent f (k c)
  | fetchAdd k => ∀ n, Silent f (k n)
  | spawn t k => Silent f t ∧ Silent f k
  | lock k => Silent f k
  | unlock k => Silent f k

variable [DecidableEq C] [DecidableEq I] {t : Thread C I S A} {m m' : Shared C I S}
  {f : ∀ q, A q} {ts : List (Thread C I S A)}

theorem Silent.step (h : t.Silent f) (hstep : t.step f m = some (ts, m')) :
    (∀ t' ∈ ts, t'.Silent f) ∧ m'.completions = m.completions := by
  -- every statement but `spawn` leaves one thread
  have hone : ∀ {u : Thread C I S A} {m₁ : Shared C I S}, some ([u], m₁) = some (ts, m') →
      u.Silent f → m₁.completions = m.completions →
        (∀ t' ∈ ts, t'.Silent f) ∧ m'.completions = m.completions := by
    intro u m₁ heq hu hm
    obtain ⟨rfl, rfl⟩ := Prod.mk.inj (Option.some.inj heq)
    refine ⟨fun t' ht' => ?_, hm⟩
    rwa [List.mem_singleton.1 ht']
  cases t with
  | done => cases hstep
  | hang => cases hstep
  | ask q k => exact hone hstep h rfl
  | invoke c s k hempty => exact h.elim
  | clear c k => exact hone hstep h rfl
  | emplace i c k =>
    rw [Thread.step] at hstep
    split at hstep
    · exact hone hstep (h false) rfl
    · exact hone hstep (h true) rfl
  | take i k =>
    rw [Thread.step] at hstep
    split at hstep
    · exact hone hstep (h _) rfl
    · exact hone hstep (h none) rfl
  | fetchAdd k => exact hone hstep (h _) rfl
  | spawn t k =>
    obtain ⟨rfl, rfl⟩ := Prod.mk.inj (Option.some.inj hstep)
    refine ⟨fun t' ht' => ?_, rfl⟩
    rcases List.mem_cons.1 ht' with rfl | ht'
    · exact h.1
    · rw [List.mem_singleton.1 ht']
      exact h.2
  | lock k =>
    rw [Thread.step] at hstep
    split at hstep
    · cases hstep
    · exact hone hstep h rfl
  | unlock k => exact hone hstep h rfl

end Thread

namespace Pool

variable [DecidableEq C] [DecidableEq I] {sys : System C I S A M} {P P' : Pool C I S A}
  {f : ∀ q, A q}

/-- Silent threads complete nothing. -/
theorem run_of_silent (schedule : List ℕ) (h : ∀ t ∈ P.threads, t.Silent f)
    (hrun : P.run sys (schedule.map fun i => .run i f) = some P') :
    P'.shared.completions = P.shared.completions ∧ P'.started = P.started := by
  induction schedule generalizing P with
  | nil =>
    obtain rfl := Option.some.inj hrun
    exact ⟨rfl, rfl⟩
  | cons i schedule ih =>
    obtain ⟨P₁, hstep, hrun⟩ := Option.bind_eq_some_iff.1 hrun
    obtain ⟨t, ht, hstep⟩ := Option.bind_eq_some_iff.1 hstep
    obtain ⟨⟨ts, m⟩, hts, hstep⟩ := Option.bind_eq_some_iff.1 hstep
    obtain rfl := Option.some.inj hstep
    obtain ⟨hi, rfl⟩ := List.getElem?_eq_some_iff.1 ht
    obtain ⟨hsilent, hm⟩ := (h _ (List.getElem_mem hi)).step hts
    have hrest : ∀ t' ∈ ts ++ P.threads.eraseIdx i, t'.Silent f := by
      intro t' ht'
      rcases List.mem_append.1 ht' with ht' | ht'
      · exact hsilent t' ht'
      · exact h t' (List.mem_of_mem_eraseIdx ht')
    obtain ⟨hcompletions, hstarted⟩ := ih hrest hrun
    exact ⟨hcompletions.trans hm, hstarted⟩

/-- **A call whose thread is silent** is left behind. -/
theorem exists_run_of_silent {c : C} (h : (sys.invoke c).toThread.Silent f) :
    ∃ schedule : List ℕ, ∃ P, (⟨[(sys.invoke c).toThread], .init, [c]⟩ : Pool C I S A).run sys
      (schedule.map fun i => .run i f) = some P ∧
        P.Quiescent ∧ P.started = [c] ∧ P.shared.completions = [] := by
  obtain ⟨schedule, P, hrun, hquiescent⟩ := finishes sys f ⟨[(sys.invoke c).toThread], .init, [c]⟩
  have hsilent : ∀ t ∈ [(sys.invoke c).toThread], t.Silent f := by
    intro t ht
    rwa [List.mem_singleton.1 ht]
  obtain ⟨hcompletions, hstarted⟩ := run_of_silent schedule hsilent hrun
  exact ⟨schedule, P, hrun, hquiescent, hstarted, hcompletions⟩

end Pool

end AimRT.Lib

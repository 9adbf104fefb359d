import Mathlib.Tactic

/-!
# Chains of filters

A *filter* is a program that is given an argument and a continuation.  It may act, ask outside code for
an answer, hand a task to another thread, and call its continuation for a result, in its own call or in a
task.  In a chain the continuation of a filter runs the next filter, and that of the last one a handler.
What this means is a program without continuations, `nest`.

A pool runs programs as threads in any order, and logs what they do.  `Prog.Emits` says of a program
what it emits, in whatever order its threads take turns; it is proved by following the program, and
`Pool.emits_run` carries it over to pools.  `Prog.Emits.calling` says what a filter and its continuation
emit together.
-/

namespace AimRT.Lib.Chain

/-! ### Programs -/

/-- A program that acts by `A` and calls its continuation with arguments in `W`; the results of both are
in `R`. -/
inductive Prog (W R A : Type) : Type
  | ret (r : R)
  | act (a : A) (p : Prog W R A)
  /-- Goes on with the answer of outside code. -/
  | ask (k : ℕ → Prog W R A)
  | next (w : W) (k : R → Prog W R A)
  /-- Hands the task `t` to another thread; nothing waits for its result. -/
  | fork (t p : Prog W R A)

abbrev Filter (W R A : Type) := W → Prog W R A

/-- A handler has no continuation. -/
abbrev Handler (W R A : Type) := W → Prog Empty R A

variable {W R A B : Type}

namespace Prog

/-- Goes on with the result. -/
def andThen : Prog W R A → (R → Prog W R A) → Prog W R A
  | ret r, q => q r
  | act a p, q => act a (p.andThen q)
  | ask k, q => ask fun n => (k n).andThen q
  | next w k, q => next w fun r => (k r).andThen q
  | fork t p, q => fork t (p.andThen q)

/-- The program whose continuation is `h`. -/
def calling (h : Handler W R A) : Prog W R A → Prog Empty R A
  | ret r => ret r
  | act a p => act a (p.calling h)
  | ask k => ask fun n => (k n).calling h
  | next w k => (h w).andThen fun r => (k r).calling h
  | fork t p => fork (t.calling h) (p.calling h)

/-- The program with other acts. -/
def mapAct (f : A → B) : Prog W R A → Prog W R B
  | ret r => ret r
  | act a p => act (f a) (p.mapAct f)
  | ask k => ask fun n => (k n).mapAct f
  | next w k => next w fun r => (k r).mapAct f
  | fork t p => fork (t.mapAct f) (p.mapAct f)

@[simp] theorem andThen_ret (p : Prog W R A) : p.andThen ret = p := by
  induction p with
  | ret r => rfl
  | act a p ih => rw [andThen, ih]
  | ask k ih => exact congrArg ask (funext ih)
  | next w k ih => exact congrArg (next w) (funext ih)
  | fork t p _ ih => rw [andThen, ih]

end Prog

/-- A chain as one handler; the first of the filters is the outermost. -/
def nest (h : Handler W R A) : List (Filter W R A) → Handler W R A
  | [] => h
  | f :: fs => fun w => (f w).calling (nest h fs)

theorem nest_append (h : Handler W R A) (fs gs : List (Filter W R A)) :
    nest h (fs ++ gs) = nest (nest h gs) fs := by
  induction fs with
  | nil => rfl
  | cons f fs ih => rw [List.cons_append, nest, nest, ih]

/-! ### Pools -/

/-- Threads, and what they have done. -/
structure Pool (T A : Type) where
  threads : List T
  log : List A

/-- What a step of a thread leaves: what it has still to do, new threads, and what it did. -/
structure Stepped (T A : Type) where
  thread : T
  forked : List T
  logged : List A

/-- A step of a thread, where outside code answers `n`. -/
def Prog.step (n : ℕ) : Prog Empty R A → Option (Stepped (Prog Empty R A) A)
  | .ret _ => none
  | .act a p => some ⟨p, [], [a]⟩
  | .ask k => some ⟨k n, [], []⟩
  | .next w _ => w.elim
  | .fork t p => some ⟨p, [t], []⟩

def Prog.result : Prog Empty R A → Option R
  | .ret r => some r
  | _ => none

namespace Pool

variable {T : Type}

def start (t : T) : Pool T A := ⟨[t], []⟩

section

variable (next : ℕ → T → Option (Stepped T A))

/-- A step of the thread `i`. -/
def step (P : Pool T A) (i n : ℕ) : Option (Pool T A) := do
  let t ← P.threads[i]?
  let s ← next n t
  return ⟨P.threads.set i s.thread ++ s.forked, P.log ++ s.logged⟩

def run (P : Pool T A) : List (ℕ × ℕ) → Option (Pool T A)
  | [] => some P
  | (i, n) :: moves => do (← P.step next i n).run moves

/-- No thread can go on. -/
def Finished (P : Pool T A) : Prop := ∀ t ∈ P.threads, ∀ n, next n t = none

end

variable {next : ℕ → T → Option (Stepped T A)} {P Q : Pool T A}

theorem step_eq_some {i n : ℕ} : P.step next i n = some Q ↔
    ∃ t s, P.threads[i]? = some t ∧ next n t = some s ∧
      Q = ⟨P.threads.set i s.thread ++ s.forked, P.log ++ s.logged⟩ := by
  simp only [step, Option.bind_eq_bind, Option.bind_eq_some_iff, Option.pure_def, Option.some.injEq]
  constructor
  · rintro ⟨t, ht, s, hs, e⟩
    exact ⟨t, s, ht, hs, e.symm⟩
  · rintro ⟨t, s, ht, hs, e⟩
    exact ⟨t, ht, s, hs, e.symm⟩

theorem run_append {moves moves' : List (ℕ × ℕ)} :
    P.run next (moves ++ moves') = (P.run next moves).bind fun Q => Q.run next moves' := by
  induction moves generalizing P with
  | nil => rfl
  | cons m moves ih =>
    simp only [List.cons_append, run, Option.bind_eq_bind, ih, Option.bind_assoc]

end Pool

theorem Prog.step_andThen {p : Prog Empty R A} {n : ℕ} {s : Stepped (Prog Empty R A) A}
    (h : p.step n = some s) (q : R → Prog Empty R A) :
    (p.andThen q).step n = some ⟨s.thread.andThen q, s.forked, s.logged⟩ := by
  cases p with
  | ret r => cases h
  | next w k => exact w.elim
  | act a p =>
    obtain rfl := Option.some.inj h
    rfl
  | ask k =>
    obtain rfl := Option.some.inj h
    rfl
  | fork t p =>
    obtain rfl := Option.some.inj h
    rfl

@[simp] theorem Prog.step_eq_none {p : Prog Empty R A} {n : ℕ} : p.step n = none ↔ ∃ r, p = .ret r := by
  cases p with
  | next w k => exact w.elim
  | _ => simp [Prog.step]

/-! ### What a program emits -/

/-- Which acts and calls of the continuation are emissions; the others do not matter. -/
structure Selection (W A B : Type) where
  act : A → Option B
  call : W → Option B

/-- What is left of a set of words behind the letters `l`. -/
def behind (S : Set (List B)) (l : List B) : Set (List B) := {l' | l ++ l' ∈ S}

@[simp] theorem mem_behind {S : Set (List B)} {l l' : List B} : l' ∈ behind S l ↔ l ++ l' ∈ S := Iff.rfl

@[simp] theorem behind_nil (S : Set (List B)) : behind S [] = S := rfl

theorem behind_append (S : Set (List B)) (l l' : List B) :
    behind S (l ++ l') = behind (behind S l) l' := by
  ext l''
  simp

theorem behind_mono {S S' : Set (List B)} (h : S ⊆ S') (l : List B) : behind S l ⊆ behind S' l :=
  fun _ hl' => h hl'

namespace Prog

variable {σ : Selection W A B} {S S' : Set (List B)} {p : Prog W R A}

/-- The emissions of `p` make a word of `S`, in whatever order its threads take turns: they all come from
one thread of control, from which they may pass to a task. -/
def Emits (σ : Selection W A B) : Set (List B) → Prog W R A → Prop
  | S, ret _ => [] ∈ S
  | S, act a p => p.Emits σ (behind S (σ.act a).toList)
  | S, ask k => ∀ n, (k n).Emits σ S
  | S, next w k => ∀ r, (k r).Emits σ (behind S (σ.call w).toList)
  | S, fork t p => (t.Emits σ S ∧ p.Emits σ {[]}) ∨ (t.Emits σ {[]} ∧ p.Emits σ S)

theorem Emits.mono (hp : p.Emits σ S) (h : S ⊆ S') : p.Emits σ S' := by
  induction p generalizing S S' with
  | ret => exact h hp
  | act a p ih => exact ih hp (behind_mono h _)
  | ask k ih => exact fun n => ih n (hp n) h
  | next w k ih => exact fun r => ih r (hp r) (behind_mono h _)
  | fork t p iht ihp =>
    exact hp.imp (fun hp => ⟨iht hp.1 h, hp.2⟩) fun hp => ⟨hp.1, ihp hp.2 h⟩

/-- A program can end. -/
theorem Emits.nonempty [Inhabited R] (hp : p.Emits σ S) : S.Nonempty := by
  induction p generalizing S with
  | ret => exact ⟨[], hp⟩
  | act a p ih =>
    obtain ⟨l, hl⟩ := ih hp
    exact ⟨_, hl⟩
  | ask k ih => exact ih 0 (hp 0)
  | next w k ih =>
    obtain ⟨l, hl⟩ := ih default (hp default)
    exact ⟨_, hl⟩
  | fork t p iht ihp => exact hp.elim (fun hp => iht hp.1) fun hp => ihp hp.2

theorem behind_quiet {l : List B} (h : (behind {[]} l).Nonempty) : l = [] := by
  obtain ⟨l', hl'⟩ := h
  exact List.append_eq_nil_iff.1 hl' |>.1

/-- A program may end with one that emits nothing. -/
theorem Emits.andThen {q : R → Prog W R A} (hp : p.Emits σ S) (hq : ∀ r, (q r).Emits σ {[]}) :
    (p.andThen q).Emits σ S := by
  induction p generalizing S with
  | ret r => exact (hq r).mono (Set.singleton_subset_iff.2 hp)
  | act a p ih => exact ih hp
  | ask k ih => exact fun n => ih n (hp n)
  | next w k ih => exact fun r => ih r (hp r)
  | fork t p _ ih => exact hp.imp (fun hp => ⟨hp.1, ih hp.2⟩) fun hp => ⟨hp.1, ih hp.2⟩

/-- What emits nothing may come first. -/
theorem Emits.quiet_andThen [Inhabited R] {q : R → Prog W R A} (hp : p.Emits σ {[]})
    (hq : ∀ r, (q r).Emits σ S) : (p.andThen q).Emits σ S := by
  induction p with
  | ret r => exact hq r
  | act a p ih =>
    have hp : p.Emits σ (behind {[]} (σ.act a).toList) := hp
    have e := behind_quiet hp.nonempty
    rw [e] at hp
    change (p.andThen q).Emits σ (behind S (σ.act a).toList)
    rw [e]
    exact ih hp
  | ask k ih => exact fun n => ih n (hp n)
  | next w k ih =>
    intro r
    have hk : (k r).Emits σ (behind {[]} (σ.call w).toList) := hp r
    have e := behind_quiet hk.nonempty
    rw [e] at hk
    change ((k r).andThen q).Emits σ (behind S (σ.call w).toList)
    rw [e]
    exact ih r hk
  | fork t p _ ih =>
    have hp : t.Emits σ {[]} ∧ p.Emits σ {[]} := hp.elim id id
    exact Or.inr ⟨hp.1, ih hp.2⟩

end Prog

/-! ### What a pool emits -/

/-- The selection of the acts of programs without continuation. -/
def acts (sel : A → Option B) : Selection Empty A B := ⟨sel, Empty.elim⟩

section Pool

variable {sel : A → Option B} {S : Set (List B)}

namespace Prog

variable {p : Prog Empty R A} {s : Stepped (Prog Empty R A) A} {n : ℕ}

/-- **A step of a program.**  What is left to emit is left to the thread or to a new one. -/
theorem Emits.step (hp : p.Emits (acts sel) S) (h : p.step n = some s) :
    (s.thread.Emits (acts sel) (behind S (s.logged.filterMap sel)) ∧
        ∀ t ∈ s.forked, t.Emits (acts sel) {[]}) ∨
      (s.thread.Emits (acts sel) {[]} ∧
        ∃ t, s.forked = [t] ∧ t.Emits (acts sel) (behind S (s.logged.filterMap sel))) := by
  cases p with
  | ret => cases h
  | act a p =>
    obtain rfl := Option.some.inj h
    refine Or.inl ⟨?_, by simp⟩
    have e : [a].filterMap sel = (sel a).toList := by
      cases h : sel a <;> simp [h]
    rw [e]
    exact hp
  | ask k =>
    obtain rfl := Option.some.inj h
    exact Or.inl ⟨hp n, by simp⟩
  | next w p => exact w.elim
  | fork t p =>
    obtain rfl := Option.some.inj h
    rcases hp with ⟨ht, hp⟩ | ⟨ht, hp⟩
    · exact Or.inr ⟨hp, t, rfl, ht⟩
    · exact Or.inl ⟨hp, by simpa using ht⟩

theorem Emits.step_quiet [Inhabited R] (hp : p.Emits (acts sel) {[]}) (h : p.step n = some s) :
    s.thread.Emits (acts sel) {[]} ∧ (∀ t ∈ s.forked, t.Emits (acts sel) {[]}) ∧
      s.logged.filterMap sel = [] := by
  rcases hp.step h with ⟨hs, hf⟩ | ⟨hs, t, hf, ht⟩
  · have e := behind_quiet hs.nonempty
    rw [e] at hs
    exact ⟨hs, hf, e⟩
  · have e := behind_quiet ht.nonempty
    rw [e] at ht
    refine ⟨hs, ?_, e⟩
    simpa [hf] using ht

end Prog

/-- One of the threads emits a word of `S`, and the others nothing. -/
def Carries (sel : A → Option B) (S : Set (List B)) : List (Prog Empty R A) → Prop
  | [] => False
  | p :: ts => (p.Emits (acts sel) S ∧ ∀ t ∈ ts, t.Emits (acts sel) {[]}) ∨
      (p.Emits (acts sel) {[]} ∧ Carries sel S ts)

variable {ts us : List (Prog Empty R A)}

theorem Carries.append_quiet (hts : Carries sel S ts) (hus : ∀ t ∈ us, t.Emits (acts sel) {[]}) :
    Carries sel S (ts ++ us) := by
  induction ts with
  | nil => exact hts.elim
  | cons p ts ih =>
    rcases hts with ⟨hp, hts⟩ | ⟨hp, hts⟩
    · refine Or.inl ⟨hp, fun t ht => ?_⟩
      exact (List.mem_append.1 ht).elim (hts t) (hus t)
    · exact Or.inr ⟨hp, ih hts⟩

theorem Carries.quiet_append (hts : ∀ t ∈ ts, t.Emits (acts sel) {[]}) (hus : Carries sel S us) :
    Carries sel S (ts ++ us) := by
  induction ts with
  | nil => exact hus
  | cons p ts ih =>
    rw [List.forall_mem_cons] at hts
    exact Or.inr ⟨hts.1, ih hts.2⟩

/-- What holds of the threads holds when one of them has made a step. -/
theorem Carries.step [Inhabited R] (hts : Carries sel S ts) {i n : ℕ} {p : Prog Empty R A}
    {s : Stepped (Prog Empty R A) A} (hi : ts[i]? = some p) (hs : p.step n = some s) :
    Carries sel (behind S (s.logged.filterMap sel)) (ts.set i s.thread ++ s.forked) := by
  induction ts generalizing i with
  | nil => exact hts.elim
  | cons q ts ih =>
    cases i with
    | zero =>
      obtain rfl := Option.some.inj hi
      rcases hts with ⟨hp, hts⟩ | ⟨hp, hts⟩
      · rcases hp.step hs with ⟨hp, hf⟩ | ⟨hp, t, hf, ht⟩
        · refine Or.inl ⟨hp, fun t ht => ?_⟩
          exact (List.mem_append.1 ht).elim (hts t) (hf t)
        · rw [hf]
          exact Or.inr ⟨hp, Carries.quiet_append hts (Or.inl ⟨ht, by simp⟩)⟩
      · obtain ⟨hp, hf, e⟩ := hp.step_quiet hs
        rw [e]
        exact Or.inr ⟨hp, hts.append_quiet hf⟩
    | succ i =>
      rcases hts with ⟨hq, hts⟩ | ⟨hq, hts⟩
      · obtain ⟨hp, hf, e⟩ := (hts p (List.mem_of_getElem? hi)).step_quiet hs
        rw [e]
        refine Or.inl ⟨hq, fun t ht => ?_⟩
        rcases List.mem_append.1 ht with ht | ht
        · rcases List.mem_or_eq_of_mem_set ht with ht | rfl
          · exact hts t ht
          · exact hp
        · exact hf t ht
      · exact Or.inr ⟨hq, ih hts hi⟩

theorem Carries.nil_mem (hts : Carries sel S ts) (h : ∀ p ∈ ts, ∃ r, p = .ret r) : [] ∈ S := by
  induction ts with
  | nil => exact hts.elim
  | cons p ts ih =>
    rw [List.forall_mem_cons] at h
    rcases hts with ⟨hp, -⟩ | ⟨-, hts⟩
    · obtain ⟨r, rfl⟩ := h.1
      exact hp
    · exact ih hts h.2

theorem Carries.nonempty [Inhabited R] (hts : Carries sel S ts) : S.Nonempty := by
  induction ts with
  | nil => exact hts.elim
  | cons p ts ih => exact hts.elim (fun hp => hp.1.nonempty) fun hts => ih hts.2

theorem Prog.emits_mapAct {A' : Type} {f : A' → A} (hf : ∀ a, sel (f a) = none) (p : Prog Empty R A') :
    (p.mapAct f).Emits (acts sel) {[]} := by
  induction p with
  | ret r => rfl
  | act a p ih =>
    change (p.mapAct f).Emits (acts sel) (behind {[]} (sel (f a)).toList)
    rw [hf]
    exact ih
  | ask k ih => exact ih
  | next w k => exact w.elim
  | fork t p iht ihp => exact Or.inr ⟨iht, ihp⟩

namespace Pool

variable {P Q : Pool (Prog Empty R A) A}

/-- **One step**: what is left to emit gets shorter by what is emitted. -/
theorem step_carries [Inhabited R] {i n : ℕ} (h : P.step Prog.step i n = some Q)
    (hP : Carries sel (behind S (P.log.filterMap sel)) P.threads) :
    Carries sel (behind S (Q.log.filterMap sel)) Q.threads := by
  obtain ⟨p, s, hp, hs, rfl⟩ := step_eq_some.1 h
  rw [List.filterMap_append, behind_append]
  exact hP.step hp hs

theorem run_carries [Inhabited R] {moves : List (ℕ × ℕ)} (h : P.run Prog.step moves = some Q)
    (hP : Carries sel (behind S (P.log.filterMap sel)) P.threads) :
    Carries sel (behind S (Q.log.filterMap sel)) Q.threads := by
  induction moves generalizing P with
  | nil =>
    obtain rfl := Option.some.inj h
    exact hP
  | cons m moves ih =>
    obtain ⟨P', hP', h⟩ := Option.bind_eq_some_iff.1 h
    exact ih h (step_carries hP' hP)

/-- **What a pool emits.**  In every run what is emitted can be extended to a word of the program, and
when all threads have ended it is such a word. -/
theorem emits_run [Inhabited R] {p : Prog Empty R A} (hp : p.Emits (acts sel) S) {moves : List (ℕ × ℕ)}
    (h : (start p).run Prog.step moves = some Q) :
    (∃ l, Q.log.filterMap sel ++ l ∈ S) ∧ (Q.Finished Prog.step → Q.log.filterMap sel ∈ S) := by
  have hQ := run_carries (S := S) h (Or.inl ⟨hp, by simp⟩)
  refine ⟨hQ.nonempty, fun hf => ?_⟩
  simpa using hQ.nil_mem fun p hp => Prog.step_eq_none.1 (hf p hp 0)

end Pool

end Pool

/-! ### Pools end -/

namespace Prog

/-- The number of steps, when the answers are `0`. -/
def size : Prog Empty R A → ℕ
  | ret _ => 0
  | act _ p => p.size + 1
  | ask k => (k 0).size + 1
  | next w _ => w.elim
  | fork t p => t.size + p.size + 1

theorem exists_step {p : Prog Empty R A} (hp : ¬∃ r, p = ret r) :
    ∃ s, p.step 0 = some s ∧ s.thread.size + (s.forked.map size).sum < p.size := by
  cases p with
  | ret r => exact (hp ⟨r, rfl⟩).elim
  | act a p => exact ⟨_, rfl, by simp [size]⟩
  | ask k => exact ⟨_, rfl, by simp [size]⟩
  | next w p => exact w.elim
  | fork t p => exact ⟨_, rfl, by simp [size]; omega⟩

end Prog

theorem sum_set_lt {ts : List (Prog Empty R A)} {i : ℕ} {p q : Prog Empty R A} {m : ℕ}
    (hi : ts[i]? = some p) (h : q.size + m < p.size) :
    ((ts.set i q).map Prog.size).sum + m < (ts.map Prog.size).sum := by
  induction ts generalizing i with
  | nil => cases hi
  | cons r ts ih =>
    cases i with
    | zero =>
      obtain rfl := Option.some.inj hi
      simp only [List.set_cons_zero, List.map_cons, List.sum_cons]
      omega
    | succ i =>
      have hts := ih (i := i) hi
      simp only [List.set_cons_succ, List.map_cons, List.sum_cons]
      omega

/-- Every pool can be run until all its threads have ended. -/
theorem Pool.exists_finish (P : Pool (Prog Empty R A) A) :
    ∃ moves Q, P.run Prog.step moves = some Q ∧ Q.Finished Prog.step := by
  induction h : (P.threads.map Prog.size).sum using Nat.strong_induction_on generalizing P with
  | _ N ih =>
    by_cases hP : P.Finished Prog.step
    · exact ⟨[], P, rfl, hP⟩
    · obtain ⟨p, hp, hne⟩ : ∃ p ∈ P.threads, ¬∃ r, p = .ret r := by simpa [Finished] using hP
      obtain ⟨i, hi, rfl⟩ := List.getElem_of_mem hp
      obtain ⟨s, hs, hlt⟩ := Prog.exists_step hne
      have hi := List.getElem?_eq_getElem hi
      have hstep : P.step Prog.step i 0 = some _ := step_eq_some.2 ⟨_, s, hi, hs, rfl⟩
      have hsum : ((P.threads.set i s.thread ++ s.forked).map Prog.size).sum < N := by
        rw [← h, List.map_append, List.sum_append]
        exact sum_set_lt hi hlt
      obtain ⟨moves, Q, hrun, hQ⟩ := ih _ hsum ⟨_, P.log ++ s.logged⟩ rfl
      exact ⟨(i, 0) :: moves, Q, by rw [run, hstep]; exact hrun, hQ⟩

/-! ### A filter and its continuation -/

section Calling

variable {sel : A → Option B} {S : Set (List B)} {h : Handler W R A}

/-- The acts and the calls of the continuation of a filter. -/
def passes (sel : A → Option B) : Selection W A (B ⊕ W) := ⟨fun a => (sel a).map .inl, fun w => some (.inr w)⟩

/-- The words over acts and calls that become words of `S` where the calls run `h`: there is at most one
call, and it comes last, since it may still be going on when the filter goes on. -/
def Hands (sel : A → Option B) (h : Handler W R A) (S : Set (List B)) : Set (List (B ⊕ W)) :=
  {l | (∃ u ∈ S, l = u.map .inl) ∨
    ∃ u w, (h w).Emits (acts sel) (behind S u) ∧ l = u.map .inl ++ [.inr w]}

theorem behind_hands {o : Option B} :
    behind (Hands sel h S) (o.map .inl).toList ⊆ Hands sel h (behind S o.toList) := by
  intro l hl
  cases o with
  | none => exact hl
  | some b =>
    rcases hl with ⟨u, hu, e⟩ | ⟨u, w, hw, e⟩
    · cases u with
      | nil => cases e
      | cons b' u =>
        obtain ⟨rfl, rfl⟩ : b = b' ∧ l = u.map .inl := by simpa using e
        exact Or.inl ⟨u, hu, rfl⟩
    · cases u with
      | nil => simp at e
      | cons b' u =>
        obtain ⟨rfl, rfl⟩ : b = b' ∧ l = u.map Sum.inl ++ [Sum.inr w] := by simpa using e
        exact Or.inr ⟨u, w, hw, rfl⟩

theorem behind_hands_inr {w : W} {l : List (B ⊕ W)} (hl : l ∈ behind (Hands sel h S) [.inr w]) :
    l = [] ∧ (h w).Emits (acts sel) S := by
  rcases hl with ⟨u, hu, e⟩ | ⟨u, w', hw, e⟩
  · cases u <;> simp at e
  · cases u with
    | nil =>
      obtain ⟨rfl, rfl⟩ : w = w' ∧ l = [] := by simpa using e
      exact ⟨rfl, hw⟩
    | cons b u => simp at e

theorem Prog.Emits.calling_quiet {p : Prog W R A} (hp : p.Emits (passes sel) {[]}) :
    p.Emits (passes sel) (Hands sel h {[]}) :=
  hp.mono (Set.singleton_subset_iff.2 (Or.inl ⟨[], rfl, rfl⟩))

/-- **A filter and its continuation.** -/
theorem Prog.Emits.calling [Inhabited R] {p : Prog W R A} (hp : p.Emits (passes sel) (Hands sel h S)) :
    (p.calling h).Emits (acts sel) S := by
  induction p generalizing S with
  | ret =>
    rcases hp with ⟨u, hu, e⟩ | ⟨u, w, -, e⟩
    · obtain rfl : u = [] := by simpa using e.symm
      exact hu
    · simp at e
  | act a p ih =>
    have hp : p.Emits (passes sel) _ := hp
    exact ih (hp.mono behind_hands)
  | ask k ih => exact fun n => ih n (hp n)
  | next w k ih =>
    have hk : ∀ r, (k r).Emits (passes sel) (behind (Hands sel h S) [.inr w]) := hp
    obtain ⟨l, hl⟩ := (hk default).nonempty
    refine (behind_hands_inr hl).2.andThen fun r => ih r ((hk r).mono fun l hl => ?_)
    exact Or.inl ⟨[], rfl, (behind_hands_inr hl).1⟩
  | fork t p iht ihp =>
    rcases hp with ⟨ht, hp⟩ | ⟨ht, hp⟩
    · exact Or.inl ⟨iht ht, ihp hp.calling_quiet⟩
    · exact Or.inr ⟨iht ht.calling_quiet, ihp hp⟩

end Calling

/-! ### The number of calls -/

section Calls

variable {p : Prog W R A}

/-- The calls of the continuation. -/
def calls : Selection W A Unit := ⟨fun _ => none, fun _ => some ()⟩

/-- The continuation is called once at the most, in whatever thread. -/
def Prog.CallsAtMostOnce (p : Prog W R A) : Prop := p.Emits calls {l | l.length ≤ 1}

def Prog.NeverCalls (p : Prog W R A) : Prop := p.Emits calls {[]}

theorem Prog.not_neverCalls_next [Inhabited R] {w : W} {k : R → Prog W R A} :
    ¬(next w k).NeverCalls := by
  intro h
  obtain ⟨l, hl⟩ := (h default).nonempty
  cases hl

theorem Prog.NeverCalls.callsAtMostOnce (hp : p.NeverCalls) : p.CallsAtMostOnce :=
  hp.mono (Set.singleton_subset_iff.2 (by simp))

theorem Prog.CallsAtMostOnce.neverCalls {w : W} {k : R → Prog W R A}
    (h : (next w k).CallsAtMostOnce) (r : R) : (k r).NeverCalls := by
  refine Emits.mono (h r) fun l hl => ?_
  have hl : (() :: l).length ≤ 1 := hl
  simpa using hl

/-- What never calls its continuation does not depend on it. -/
theorem Prog.NeverCalls.calling_eq [Inhabited R] (hp : p.NeverCalls) (h h' : Handler W R A) :
    p.calling h = p.calling h' := by
  induction p with
  | ret r => rfl
  | act a p ih => exact congrArg (act a) (ih hp)
  | ask k ih => exact congrArg ask (funext fun n => ih n (hp n))
  | next w k => exact (not_neverCalls_next hp).elim
  | fork t p iht ihp =>
    have hp : t.NeverCalls ∧ p.NeverCalls := hp.elim id id
    exact congrArg₂ fork (iht hp.1) (ihp hp.2)

end Calls

/-! ### Filters in one thread -/

namespace Prog

variable {σ : Selection W A B} {S T : Set (List B)} {p : Prog W R A}

/-- As `Emits`, where the tasks emit nothing. -/
def EmitsSync (σ : Selection W A B) : Set (List B) → Prog W R A → Prop
  | S, ret _ => [] ∈ S
  | S, act a p => p.EmitsSync σ (behind S (σ.act a).toList)
  | S, ask k => ∀ n, (k n).EmitsSync σ S
  | S, next w k => ∀ r, (k r).EmitsSync σ (behind S (σ.call w).toList)
  | S, fork t p => t.Emits σ {[]} ∧ p.EmitsSync σ S

theorem EmitsSync.emits (hp : p.EmitsSync σ S) : p.Emits σ S := by
  induction p generalizing S with
  | ret r => exact hp
  | act a p ih => exact ih hp
  | ask k ih => exact fun n => ih n (hp n)
  | next w k ih => exact fun r => ih r (hp r)
  | fork t p _ ih => exact Or.inr ⟨hp.1, ih hp.2⟩

theorem EmitsSync.andThen {q : R → Prog W R A} (hp : p.EmitsSync σ T)
    (hq : ∀ r, ∀ l ∈ T, (q r).EmitsSync σ (behind S l)) : (p.andThen q).EmitsSync σ S := by
  induction p generalizing S T with
  | ret r => exact hq r [] hp
  | act a p ih =>
    refine ih hp fun r l hl => ?_
    rw [← behind_append]
    exact hq r _ hl
  | ask k ih => exact fun n => ih n (hp n) hq
  | next w k ih =>
    refine fun r => ih r (hp r) fun r l hl => ?_
    rw [← behind_append]
    exact hq r _ hl
  | fork t p _ ih => exact ⟨hp.1, ih hp.2 hq⟩

end Prog

/-- The words made from one over acts and calls, where the call of `w` leaves a word of `K w`. -/
def expand (K : W → Set (List B)) : List (B ⊕ W) → Set (List B)
  | [] => {[]}
  | .inl b :: l => {u | ∃ v ∈ expand K l, u = b :: v}
  | .inr w :: l => {u | ∃ k ∈ K w, ∃ v ∈ expand K l, u = k ++ v}

section Sync

variable {sel : A → Option B} {S : Set (List B)} {h : Handler W R A}

/-- **A filter and its continuation, in one thread.** -/
theorem Prog.EmitsSync.calling [Inhabited R] {p : Prog W R A} {T : Set (List (B ⊕ W))}
    {K : W → Set (List B)} (hp : p.EmitsSync (passes sel) T)
    (hh : ∀ w, (h w).EmitsSync (acts sel) (K w)) (hT : ∀ l ∈ T, expand K l ⊆ S) :
    (p.calling h).EmitsSync (acts sel) S := by
  induction p generalizing S T with
  | ret r => exact hT [] hp rfl
  | act a p ih =>
    have hp : p.EmitsSync (passes sel) (behind T ((sel a).map .inl).toList) := hp
    refine ih hp fun l hl u hu => ?_
    change (sel a).toList ++ u ∈ S
    cases ha : sel a with
    | none =>
      rw [ha] at hl
      exact hT l hl hu
    | some b =>
      rw [ha] at hl
      exact hT _ hl ⟨u, hu, rfl⟩
  | ask k ih => exact fun n => ih n (hp n) hT
  | next w k ih =>
    refine (hh w).andThen fun r u hu => ih r (hp r) fun l hl v hv => ?_
    exact hT _ hl ⟨u, hu, v, hv, rfl⟩
  | fork t p _ ih => exact ⟨hp.1.calling_quiet.calling, ih hp.2 hT⟩

end Sync

/-! ### What a chain emits -/

section Nest

variable {sel : A → Option B} {h : Handler W R A} {fs : List (Filter W R A)}
  {entry exit : Filter W R A → List B}

/-- The words with `e` before the one call, and `x` behind it. -/
def around (e x : List B) : Set (List (B ⊕ W)) := {l | ∃ w, l = e.map .inl ++ .inr w :: x.map .inl}

theorem expand_map_inl {K : W → Set (List B)} {u : List B} : expand K (u.map .inl) = {u} := by
  induction u with
  | nil => rfl
  | cons b u ih =>
    ext v
    simp [expand, ih]

theorem expand_around {e k x : List B} {l : List (B ⊕ W)} (hl : l ∈ around e x) :
    expand (fun _ => {k}) l = {e ++ k ++ x} := by
  obtain ⟨w, rfl⟩ := hl
  induction e with
  | nil =>
    ext v
    simp [expand, expand_map_inl]
  | cons b e ih =>
    ext v
    simp [expand, ih]

/-- **A chain whose filters call their continuation once**, in the thread in which they are called. -/
theorem nest_emitsSync [Inhabited R] {k : List B}
    (hfs : ∀ f ∈ fs, ∀ w, (f w).EmitsSync (passes sel) (around (entry f) (exit f)))
    (hh : ∀ w, (h w).EmitsSync (acts sel) {k}) (w : W) :
    (nest h fs w).EmitsSync (acts sel) {fs.flatMap entry ++ k ++ fs.reverse.flatMap exit} := by
  induction fs generalizing w with
  | nil => simpa [nest] using hh w
  | cons f fs ih =>
    rw [List.forall_mem_cons] at hfs
    refine (hfs.1 w).calling (ih hfs.2) fun l hl => ?_
    rw [expand_around hl]
    simp

/-- **A chain whose filters call their continuation once**, in whatever thread. -/
theorem nest_emits [Inhabited R] {S : Set (List B)}
    (hfs : ∀ f ∈ fs, ∀ w, (f w).Emits (passes sel) (around (entry f) []))
    (hh : ∀ w, (h w).Emits (acts sel) S) (w : W) :
    (nest h fs w).Emits (acts sel) {l | ∃ k ∈ S, l = fs.flatMap entry ++ k} := by
  induction fs generalizing w with
  | nil => simpa [nest] using hh w
  | cons f fs ih =>
    rw [List.forall_mem_cons] at hfs
    refine Prog.Emits.calling ((hfs.1 w).mono ?_)
    rintro l ⟨w', rfl⟩
    refine Or.inr ⟨entry f, w', (ih hfs.2 w').mono ?_, rfl⟩
    rintro _ ⟨k, hk, rfl⟩
    exact ⟨k, hk, by simp⟩

/-- A filter that hands each value of `kept` on once, as a value of `kept`. -/
def PassesOnce (sel : A → Option B) (kept : Set W) (f : Filter W R A) : Prop :=
  ∀ w ∈ kept, (f w).Emits (passes sel) {l | ∃ w' ∈ kept, l = [.inr w']}

theorem nest_passesOnce [Inhabited R] {kept : Set W} {S : Set (List B)}
    (hfs : ∀ f ∈ fs, PassesOnce sel kept f) (hh : ∀ w ∈ kept, (h w).Emits (acts sel) S) :
    ∀ w ∈ kept, (nest h fs w).Emits (acts sel) S := by
  induction fs with
  | nil => exact hh
  | cons f fs ih =>
    rw [List.forall_mem_cons] at hfs
    intro w hw
    refine Prog.Emits.calling ((hfs.1 w hw).mono ?_)
    rintro l ⟨w', hw', rfl⟩
    exact Or.inr ⟨[], w', ih hfs.2 w' hw', rfl⟩

end Nest

end AimRT.Lib.Chain

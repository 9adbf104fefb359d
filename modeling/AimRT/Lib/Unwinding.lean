import AimRT.Lib.Chain

/-!
# Unwinding pools

Threads of one kind that take more steps than those of another: some of their steps are *silent*.  When
a map sends each thread to one of the other kind, silent steps do not change the image, and a thread can
always be run silently until it does what its image does, then the pools have the same runs up to the
silent steps.
-/

namespace AimRT.Lib.Chain

/-! ### Silent steps -/

variable {A T T' : Type} {next : ℕ → T → Option (Stepped T A)}
  {next' : ℕ → T' → Option (Stepped T' A)} {Inv : T → Prop} {u : T → T'}

def Stepped.map (u : T → T') (s : Stepped T A) : Stepped T' A := ⟨u s.thread, s.forked.map u, s.logged⟩

def Pool.map (u : T → T') (P : Pool T A) : Pool T' A := ⟨P.threads.map u, P.log⟩

/-- A step of a thread that its image does not see. -/
def Silent (next : ℕ → T → Option (Stepped T A)) (u : T → T') (t t' : T) : Prop :=
  next 0 t = some ⟨t', [], []⟩ ∧ u t' = u t

/-- Threads of the one kind unwind to threads of the other: a step is silent or one of the image, and
after some silent steps a thread does what its image does. -/
structure Unwinds (next : ℕ → T → Option (Stepped T A)) (next' : ℕ → T' → Option (Stepped T' A))
    (Inv : T → Prop) (u : T → T') : Prop where
  inv : ∀ {n t s}, Inv t → next n t = some s → Inv s.thread ∧ ∀ t' ∈ s.forked, Inv t'
  step : ∀ {n t s}, Inv t → next n t = some s →
    s.forked = [] ∧ s.logged = [] ∧ u s.thread = u t ∨ next' n (u t) = some (s.map u)
  settle : ∀ {t}, Inv t → ∃ t', Relation.ReflTransGen (Silent next u) t t' ∧
    ∀ n, next' n (u t') = (next n t').map (Stepped.map u)

theorem set_same {ts : List T} {i : ℕ} {t : T} (hi : ts[i]? = some t) : ts.set i t = ts := by
  obtain ⟨h, rfl⟩ := List.getElem?_eq_some_iff.1 hi
  exact List.set_getElem_self h

theorem image_eq {t t' : T} (h : Relation.ReflTransGen (Silent next u) t t') : u t' = u t := by
  induction h with
  | refl => rfl
  | tail _ hs ih => rw [hs.2, ih]

theorem run_silent {t t' : T} (h : Relation.ReflTransGen (Silent next u) t t') {P : Pool T A} {i : ℕ}
    (hi : P.threads[i]? = some t) :
    ∃ moves, P.run next moves = some ⟨P.threads.set i t', P.log⟩ := by
  induction h using Relation.ReflTransGen.head_induction_on generalizing P with
  | refl => exact ⟨[], by rw [set_same hi]; rfl⟩
  | @head _ t₁ hs _ ih =>
    have hstep := Pool.step_eq_some.2 ⟨_, _, hi, hs.1, rfl⟩
    obtain ⟨hlt, -⟩ := List.getElem?_eq_some_iff.1 hi
    obtain ⟨moves, hrun⟩ := ih (P := ⟨P.threads.set i t₁ ++ [], P.log ++ []⟩) (by simp [hlt])
    refine ⟨(i, 0) :: moves, ?_⟩
    rw [Pool.run, hstep]
    simpa using hrun

/-! ### Runs -/

namespace Unwinds

variable (hu : Unwinds next next' Inv u) {P Q : Pool T A}
include hu

theorem inv_step {i n : ℕ} (hP : ∀ t ∈ P.threads, Inv t) (h : P.step next i n = some Q) :
    ∀ t ∈ Q.threads, Inv t := by
  obtain ⟨t, s, ht, hs, rfl⟩ := Pool.step_eq_some.1 h
  obtain ⟨hs, hf⟩ := hu.inv (hP t (List.mem_of_getElem? ht)) hs
  intro t' ht'
  rcases List.mem_append.1 ht' with ht' | ht'
  · rcases List.mem_or_eq_of_mem_set ht' with ht' | rfl
    · exact hP t' ht'
    · exact hs
  · exact hf t' ht'

theorem inv_run {moves : List (ℕ × ℕ)} (hP : ∀ t ∈ P.threads, Inv t)
    (h : P.run next moves = some Q) : ∀ t ∈ Q.threads, Inv t := by
  induction moves generalizing P with
  | nil =>
    obtain rfl := Option.some.inj h
    exact hP
  | cons m moves ih =>
    obtain ⟨P', hP', h⟩ := Option.bind_eq_some_iff.1 h
    exact ih (hu.inv_step hP hP') h

theorem map_step {i n : ℕ} (hP : ∀ t ∈ P.threads, Inv t) (h : P.step next i n = some Q) :
    Q.map u = P.map u ∨ (P.map u).step next' i n = some (Q.map u) := by
  obtain ⟨t, s, ht, hs, rfl⟩ := Pool.step_eq_some.1 h
  have hi : (P.map u).threads[i]? = some (u t) := by simp [Pool.map, ht]
  rcases hu.step (hP t (List.mem_of_getElem? ht)) hs with ⟨hf, hl, e⟩ | hs'
  · refine Or.inl ?_
    have hset : (P.threads.map u).set i (u t) = P.threads.map u := set_same hi
    simp [Pool.map, hf, hl, List.map_set, e, hset]
  · refine Or.inr (Pool.step_eq_some.2 ⟨_, _, hi, hs', ?_⟩)
    simp [Pool.map, Stepped.map, List.map_set]

/-- **Runs unwind to runs.** -/
theorem map_run {moves : List (ℕ × ℕ)} (hP : ∀ t ∈ P.threads, Inv t)
    (h : P.run next moves = some Q) : ∃ moves', (P.map u).run next' moves' = some (Q.map u) := by
  induction moves generalizing P with
  | nil =>
    obtain rfl := Option.some.inj h
    exact ⟨[], rfl⟩
  | cons m moves ih =>
    obtain ⟨P', hP', h⟩ := Option.bind_eq_some_iff.1 h
    obtain ⟨moves', hrun⟩ := ih (hu.inv_step hP hP') h
    rcases hu.map_step hP hP' with e | hstep
    · exact ⟨moves', by rw [← e, hrun]⟩
    · refine ⟨m :: moves', ?_⟩
      rw [Pool.run, hstep]
      exact hrun

theorem lift_step {i n : ℕ} {Q' : Pool T' A} (hP : ∀ t ∈ P.threads, Inv t)
    (h : (P.map u).step next' i n = some Q') :
    ∃ moves Q, P.run next moves = some Q ∧ Q.map u = Q' := by
  obtain ⟨t', s', hi, hs', rfl⟩ := Pool.step_eq_some.1 h
  obtain ⟨t, ht, rfl⟩ : ∃ t, P.threads[i]? = some t ∧ u t = t' := by simpa [Pool.map] using hi
  obtain ⟨t₁, hsil, hag⟩ := hu.settle (hP t (List.mem_of_getElem? ht))
  rw [← image_eq hsil, hag, Option.map_eq_some_iff] at hs'
  obtain ⟨s, hs, rfl⟩ := hs'
  obtain ⟨moves, hrun⟩ := run_silent hsil ht
  obtain ⟨hlt, -⟩ := List.getElem?_eq_some_iff.1 ht
  have hi' : (P.threads.set i t₁)[i]? = some t₁ := by simp [hlt]
  have hstep := (Pool.step_eq_some (P := ⟨P.threads.set i t₁, P.log⟩)).2 ⟨t₁, s, hi', hs, rfl⟩
  refine ⟨moves ++ [(i, n)], ⟨(P.threads.set i t₁).set i s.thread ++ s.forked, P.log ++ s.logged⟩, ?_, ?_⟩
  · rw [Pool.run_append, hrun]
    simp [Pool.run, hstep]
  · simp [Pool.map, Stepped.map, List.map_set]

/-- **Runs of the image are images of runs.** -/
theorem lift_run {moves : List (ℕ × ℕ)} {Q' : Pool T' A} (hP : ∀ t ∈ P.threads, Inv t)
    (h : (P.map u).run next' moves = some Q') :
    ∃ moves' Q, P.run next moves' = some Q ∧ Q.map u = Q' := by
  induction moves generalizing P with
  | nil => exact ⟨[], P, rfl, Option.some.inj h⟩
  | cons m moves ih =>
    obtain ⟨P', hP', h⟩ := Option.bind_eq_some_iff.1 h
    obtain ⟨moves₁, Q₁, hrun₁, rfl⟩ := hu.lift_step hP hP'
    obtain ⟨moves₂, Q, hrun, hQ⟩ := ih (hu.inv_run hP hrun₁) h
    refine ⟨moves₁ ++ moves₂, Q, ?_, hQ⟩
    rw [Pool.run_append, hrun₁]
    exact hrun

theorem map_finished (hP : ∀ t ∈ P.threads, Inv t) (h : P.Finished next) :
    (P.map u).Finished next' := by
  intro t' ht' n
  obtain ⟨t, ht, rfl⟩ := List.mem_map.1 ht'
  obtain ⟨t₁, hsil, hag⟩ := hu.settle (hP t ht)
  obtain rfl : t = t₁ := by
    rcases hsil.cases_head with e | ⟨t₂, hs, -⟩
    · exact e
    · cases (h t ht 0).symm.trans hs.1
  rw [hag, h t ht n]
  rfl

/-- Where the image cannot go on, the pool can be run until it cannot either. -/
theorem lift_finished (hP : ∀ t ∈ P.threads, Inv t) (h : (P.map u).Finished next') :
    ∃ moves Q, P.run next moves = some Q ∧ Q.map u = P.map u ∧ Q.Finished next := by
  -- the first `k` threads have been run
  have hk : ∀ k : ℕ, ∃ moves, ∃ Q : Pool T A, P.run next moves = some Q ∧ Q.map u = P.map u ∧
      ∀ i < k, ∀ t : T, Q.threads[i]? = some t → ∀ n, next n t = none := by
    intro k
    induction k with
    | zero => exact ⟨[], P, rfl, rfl, by simp⟩
    | succ k ih =>
      obtain ⟨moves, Q, hrun, hQ, hended⟩ := ih
      cases ht : Q.threads[k]? with
      | none =>
        refine ⟨moves, Q, hrun, hQ, fun i hi t hit => ?_⟩
        rcases Nat.lt_succ_iff_lt_or_eq.1 hi with hi | rfl
        · exact hended i hi t hit
        · cases ht.symm.trans hit
      | some t =>
        have hmem := List.mem_of_getElem? ht
        obtain ⟨t₁, hsil, hag⟩ := hu.settle (hu.inv_run hP hrun t hmem)
        obtain ⟨moves', hrun'⟩ := run_silent hsil ht
        have hnone : ∀ n, next n t₁ = none := by
          intro n
          have hut : u t ∈ (P.map u).threads := hQ ▸ List.mem_map_of_mem hmem
          have := h (u t) hut n
          rw [← image_eq hsil, hag] at this
          simpa using this
        refine ⟨moves ++ moves', _, by rw [Pool.run_append, hrun]; exact hrun', ?_, fun i hi t' hit => ?_⟩
        · rw [← hQ, Pool.map, Pool.map, List.map_set, image_eq hsil, set_same (by simp [ht])]
        · rcases Nat.lt_succ_iff_lt_or_eq.1 hi with hi | rfl
          · rw [List.getElem?_set_ne (by omega)] at hit
            exact hended i hi t' hit
          · obtain ⟨hlt, -⟩ := List.getElem?_eq_some_iff.1 ht
            obtain rfl : t₁ = t' := by simpa [hlt] using hit
            exact hnone
  obtain ⟨moves, Q, hrun, hQ, hended⟩ := hk P.threads.length
  refine ⟨moves, Q, hrun, hQ, fun t ht n => ?_⟩
  obtain ⟨i, hi, rfl⟩ := List.getElem_of_mem ht
  have hlen : Q.threads.length = P.threads.length := by
    simpa [Pool.map] using congrArg (fun P => P.threads.length) hQ
  exact hended i (hlen ▸ hi) _ (List.getElem?_eq_getElem hi) n

end Unwinds

end AimRT.Lib.Chain

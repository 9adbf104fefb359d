import AimRT.Lib.Run

/-!
# Mutexes and scopes

Threads that lock and unlock mutexes.  A scoped guard unlocks its mutex at the end of its scope, also if the mutex was
unlocked inside the scope: such an end is *spent*.  In a `Balanced` program a thread locks only what it does not hold,
and unlocks only what it holds, but for the spent ends.  Threads with balanced programs keep the discipline of mutexes
for as long as no spent end is reached (`disciplined_iff`): every unlock is made by the thread that holds the mutex, no
thread locks one it holds, and no mutex is held by two threads.
-/

namespace AimRT.Lib.Mutex

open Lib.Run

variable {M S C : Type}

/-- A program over the mutexes `M` and the shared data `S`.  `act` is one access to the data, or to outside code, whose
answer is a number. -/
inductive Prog (M S : Type) : Type
  | done
  | lock (m : M) (p : Prog M S)
  | unlock (m : M) (p : Prog M S)
  /-- The end of the scope of a guard. -/
  | leave (m : M) (spent : Bool) (p : Prog M S)
  | act (f : ℕ → S → S) (k : ℕ → S → Prog M S)

/-- A thread, with the mutexes it has locked and not unlocked. -/
structure Thread (M S : Type) where
  held : List M
  prog : Prog M S

/-- What a thread must not do with a mutex. -/
inductive Fault (M : Type) where
  | unlockNotHeld (i : ℕ) (m : M)
  | lockHeld (i : ℕ) (m : M)
  deriving DecidableEq, Repr

structure Pool (M S : Type) where
  data : S
  owner : M → Option ℕ
  threads : List (Thread M S)
  faults : List (Fault M)

/-- A new thread, or a step of a thread with an answer of outside code. -/
inductive Op (C : Type) where
  | call (c : C)
  | run (i answer : ℕ)
  deriving DecidableEq, Repr

def Pool.init (data : S) : Pool M S := ⟨data, fun _ => none, [], []⟩

variable [DecidableEq M]

namespace Pool

/-- `unlock`, also of a mutex that the thread does not hold. -/
def release (P : Pool M S) (i : ℕ) (held : List M) (m : M) (p : Prog M S) : Pool M S where
  data := P.data
  owner := Function.update P.owner m none
  threads := P.threads.set i ⟨held.filter (· ≠ m), p⟩
  faults := if P.owner m = some i then P.faults else P.faults ++ [.unlockNotHeld i m]

/-- The next step of a thread. -/
def runThread (P : Pool M S) (i answer : ℕ) (t : Thread M S) : Pool M S :=
  match t.prog with
  | .done => P
  | .lock m p =>
    match P.owner m with
    | none => { P with owner := Function.update P.owner m (some i), threads := P.threads.set i ⟨m :: t.held, p⟩ }
    | some j => if j = i then { P with faults := P.faults ++ [.lockHeld i m] } else P
  | .unlock m p => P.release i t.held m p
  | .leave m _ p => P.release i t.held m p
  | .act f k => { P with data := f answer P.data, threads := P.threads.set i ⟨t.held, k answer P.data⟩ }

/-- The calls `C` run the programs `prog`. -/
def step (prog : C → Prog M S) (P : Pool M S) : Op C → Pool M S
  | .call c => { P with threads := P.threads ++ [⟨[], prog c⟩] }
  | .run i answer =>
    match P.threads[i]? with
    | none => P
    | some t => P.runThread i answer t

/-- **The discipline of mutexes.** -/
structure Disciplined (P : Pool M S) : Prop where
  noFault : P.faults = []
  exclusive : ∀ {m : M} {i j : ℕ} {t t' : Thread M S}, P.threads[i]? = some t → P.threads[j]? = some t' →
    m ∈ t.held → m ∈ t'.held → i = j

/-- No thread reaches the end of the scope of a guard whose mutex was unlocked inside. -/
def NotSpent (P : Pool M S) : Op C → Prop
  | .run i _ => ∀ held m p, P.threads[i]? ≠ some ⟨held, .leave m true p⟩
  | .call _ => True

end Pool

/-- A thread that holds `held` locks what it does not hold, and unlocks what it holds, but for spent ends of scopes. -/
def Balanced : (held : List M) → Prog M S → Prop
  | _, .done => True
  | held, .lock m p => m ∉ held ∧ Balanced (m :: held) p
  | held, .unlock m p => m ∈ held ∧ Balanced (held.filter (· ≠ m)) p
  | held, .leave m true p => m ∉ held ∧ Balanced held p
  | held, .leave m false p => m ∈ held ∧ Balanced (held.filter (· ≠ m)) p
  | held, .act _ k => ∀ n s, Balanced held (k n s)

namespace Pool

/-- The threads are balanced, and agree with the mutexes about who holds them. -/
structure Inv (P : Pool M S) : Prop where
  balanced : ∀ {i : ℕ} {t : Thread M S}, P.threads[i]? = some t → Balanced t.held t.prog
  holds : ∀ {i : ℕ} {t : Thread M S}, P.threads[i]? = some t → ∀ m, m ∈ t.held ↔ P.owner m = some i
  bound : ∀ {m : M} {i : ℕ}, P.owner m = some i → i < P.threads.length
  noFault : P.faults = []

variable {P : Pool M S} {prog : C → Prog M S} {i : ℕ} {t : Thread M S}

theorem inv_init (data : S) : Inv (init (M := M) data) where
  balanced := nofun
  holds := nofun
  bound := nofun
  noFault := rfl

theorem Inv.disciplined (h : Inv P) : Disciplined P where
  noFault := h.noFault
  exclusive := by
    intro m i j t t' ht ht' hm hm'
    have hi := (h.holds ht m).1 hm
    rw [(h.holds ht' m).1 hm', Option.some.injEq] at hi
    exact hi.symm

/-- A thread goes on, and the mutexes have the owners that the threads say they have. -/
theorem Inv.set (h : Inv P) {i : ℕ} (hlt : i < P.threads.length) (t' : Thread M S)
    (hbalanced : Balanced t'.held t'.prog) {owner : M → Option ℕ} (howner : ∀ m, m ∈ t'.held ↔ owner m = some i)
    (hothers : ∀ m j, j ≠ i → (owner m = some j ↔ P.owner m = some j)) {data : S} :
    Inv { data := data, owner := owner, threads := P.threads.set i t', faults := P.faults } := by
  refine ⟨?_, ?_, ?_, h.noFault⟩
  · intro j u hu
    rcases eq_or_ne j i with rfl | hne
    · rw [List.getElem?_set_self hlt, Option.some.injEq] at hu
      exact hu ▸ hbalanced
    · rw [List.getElem?_set_ne hne.symm] at hu
      exact h.balanced hu
  · intro j u hu m
    rcases eq_or_ne j i with rfl | hne
    · rw [List.getElem?_set_self hlt, Option.some.injEq] at hu
      exact hu ▸ howner m
    · rw [List.getElem?_set_ne hne.symm] at hu
      exact (h.holds hu m).trans (hothers m j hne).symm
  · intro m j hj
    rw [List.length_set]
    rcases eq_or_ne j i with rfl | hne
    · exact hlt
    · exact h.bound ((hothers m j hne).1 hj)

/-- A mutex changes hands between a thread and nobody. -/
theorem Inv.handOver (h : Inv P) (ht : P.threads[i]? = some t) {m : M} {owner : Option ℕ}
    (hbefore : P.owner m = none ∨ P.owner m = some i) (hafter : owner = none ∨ owner = some i) (t' : Thread M S)
    (hbalanced : Balanced t'.held t'.prog) (hself : m ∈ t'.held ↔ owner = some i)
    (hrest : ∀ m', m' ≠ m → (m' ∈ t'.held ↔ m' ∈ t.held)) :
    Inv { P with owner := Function.update P.owner m owner, threads := P.threads.set i t' } := by
  have hlt : i < P.threads.length := (List.getElem?_eq_some_iff.1 ht).1
  refine h.set hlt t' hbalanced (fun m' => ?_) fun m' j hj => ?_
  · rcases eq_or_ne m' m with rfl | hne
    · rw [Function.update_self, hself]
    · rw [Function.update_of_ne hne, hrest m' hne, h.holds ht m']
  · rcases eq_or_ne m' m with rfl | hne
    · rw [Function.update_self]
      rcases hbefore with hbefore | hbefore <;> rcases hafter with rfl | rfl <;> simp [hbefore, Ne.symm hj]
    · rw [Function.update_of_ne hne]

theorem Inv.release (h : Inv P) (ht : P.threads[i]? = some t) {m : M} (hm : m ∈ t.held) {p : Prog M S}
    (hp : Balanced (t.held.filter (· ≠ m)) p) : Inv (P.release i t.held m p) := by
  have howner := (h.holds ht m).1 hm
  rw [Pool.release, if_pos howner]
  exact h.handOver ht (.inr howner) (.inl rfl) ⟨_, p⟩ hp (by simp) fun m' hne => by simp [hne]

theorem Inv.runThread (h : Inv P) (ht : P.threads[i]? = some t) {answer : ℕ}
    (hspent : ∀ m p, t.prog ≠ .leave m true p) : Inv (P.runThread i answer t) := by
  have hbalanced := h.balanced ht
  have hlt : i < P.threads.length := (List.getElem?_eq_some_iff.1 ht).1
  cases hprog : t.prog with
  | done =>
    simp only [Pool.runThread, hprog]
    exact h
  | lock m p =>
    rw [hprog] at hbalanced
    obtain ⟨hfree, hp⟩ := hbalanced
    simp only [Pool.runThread, hprog]
    cases howner : P.owner m with
    | none =>
      exact h.handOver ht (.inl howner) (.inr rfl) ⟨_, p⟩ hp (by simp) fun m' hne => by simp [hne]
    | some j =>
      have hne : j ≠ i := by
        rintro rfl
        exact hfree ((h.holds ht m).2 howner)
      simp only [if_neg hne]
      exact h
  | unlock m p =>
    rw [hprog] at hbalanced
    simp only [Pool.runThread, hprog]
    exact h.release ht hbalanced.1 hbalanced.2
  | leave m spent p =>
    rw [hprog] at hbalanced
    cases spent with
    | true => exact absurd hprog (hspent m p)
    | false =>
      simp only [Pool.runThread, hprog]
      exact h.release ht hbalanced.1 hbalanced.2
  | act f k =>
    rw [hprog] at hbalanced
    simp only [Pool.runThread, hprog]
    have hholds := h.holds ht
    exact h.set hlt ⟨t.held, k answer P.data⟩ (hbalanced answer P.data) hholds fun m j _ => Iff.rfl

theorem Inv.step (h : Inv P) (hprog : ∀ c, Balanced [] (prog c)) {op : Op C} (hspent : NotSpent P op) :
    Inv (P.step prog op) := by
  cases op with
  | call c =>
    have hcases : ∀ {j u}, (P.threads ++ [⟨[], prog c⟩])[j]? = some u →
        P.threads[j]? = some u ∨ P.threads.length ≤ j ∧ u = ⟨[], prog c⟩ := by
      intro j u hu
      rw [List.getElem?_append] at hu
      split_ifs at hu with hlt
      · exact .inl hu
      · exact .inr ⟨not_lt.1 hlt, List.mem_singleton.1 (List.mem_of_getElem? hu)⟩
    refine ⟨?_, ?_, ?_, h.noFault⟩
    · intro j u hu
      rcases hcases hu with hold | ⟨-, rfl⟩
      · exact h.balanced hold
      · exact hprog c
    · intro j u hu m
      rcases hcases hu with hold | ⟨hge, rfl⟩
      · exact h.holds hold m
      · simp only [List.not_mem_nil, false_iff]
        intro howner
        exact absurd (h.bound howner) (not_lt.2 hge)
    · intro m j hj
      rw [Pool.step, List.length_append]
      exact Nat.lt_add_right _ (h.bound hj)
  | run i answer =>
    cases ht : P.threads[i]? with
    | none =>
      simp only [Pool.step, ht]
      exact h
    | some t =>
      simp only [Pool.step, ht]
      refine h.runThread ht fun m p heq => hspent t.held m p ?_
      rw [ht, ← heq]

/-- A spent end of a scope unlocks a mutex that the thread does not hold. -/
theorem Inv.notSpent (h : Inv P) {op : Op C} (hdisciplined : Disciplined (P.step prog op)) : NotSpent P op := by
  cases op with
  | call c => trivial
  | run i answer =>
    intro held m p ht
    have hfree : m ∉ held := (h.balanced ht).1
    have hfault : (P.step prog (.run i answer)).faults = P.faults ++ [Fault.unlockNotHeld i m] := by
      simp only [Pool.step, ht, Pool.runThread, Pool.release]
      rw [if_neg fun howner => hfree ((h.holds ht m).2 howner)]
    rw [hdisciplined.noFault, h.noFault] at hfault
    exact absurd hfault (by simp)

/-- **The discipline holds in all states of a run if and only if no spent end of a scope is reached.** -/
theorem disciplined_iff (hprog : ∀ c, Balanced [] (prog c)) (data : S) (ops : List (Op C)) :
    AllHold (Pool.step prog) Disciplined (init data) ops ↔ AllMeet (Pool.step prog) NotSpent (init data) ops :=
  allHold_iff_allMeet Inv Inv.disciplined (fun h _ hspent => h.step hprog hspent)
    (fun h _ hdisciplined => h.notSpent hdisciplined) (inv_init data) ops

end Pool

end AimRT.Lib.Mutex

import AimRT.Lib.Thread

/-!
# Completing every call exactly once

The duty to complete a call is never shared: a thread owes it, or a record carries it, or the call is
completed.  A thread that makes a record has to see to it that the record will be taken, by itself or
by a thread that it spawns.

`Thread.Keeps` says that a thread keeps the duties it has, whatever the answers it gets.  If the
threads of new calls owe their call and keep it, and those of messages keep the empty duty, then every
run completes every call exactly once.
-/

namespace AimRT.Lib

variable {C I S Q M : Type} {A : Q → Type}

/-! ### Duties -/

/-- What a thread has to do: `owes` is the call it has to complete or to record, `collects` an id
whose record it has to take; `completed` is the call it has just completed, and `locks` says that it
holds the lock. -/
structure Duty (C I : Type) where
  owes : Option C := none
  collects : Option I := none
  completed : Option C := none
  locks : Bool := false

/-- How the duty of a thread can be shared with one that it spawns. -/
inductive Duty.Split (d : Duty C I) : Duty C I → Duty C I → Prop
  | keep : Split d {} d
  | owes : Split d { owes := d.owes } { d with owes := none }
  | collects : Split d { collects := d.collects } { d with collects := none }

/-- Nothing left to do. -/
structure Duty.Idle (d : Duty C I) : Prop where
  owes : d.owes = none
  collects : d.collects = none
  locks : d.locks = false

/-- What a run relies on and guarantees: the answers and the messages that may come, the ids a call
may be recorded under, and what a callback may be called with. -/
structure Contract (C I S : Type) {Q : Type} (A : Q → Type) (M : Type) where
  answer : ∀ q, A q → Prop
  message : M → Prop
  record : I → C → Prop
  status : C → S → Prop

/-- Nothing is relied on. -/
def Contract.any : Contract C I S A M := ⟨fun _ _ => True, fun _ => True, fun _ _ => True, fun _ _ => True⟩

/-- Outside code gives the answers `f`. -/
def Contract.outcomes (f : ∀ q, A q) : Contract C I S A M where
  answer := fun q a => a = f q
  message := fun _ => True
  record := fun _ _ => True
  status := fun _ _ => True

namespace Thread

/-- The thread keeps the duty. -/
def Keeps (K : Contract C I S A M) : Thread C I S A → Duty C I → Prop
  | done, d => d.Idle
  | hang, d => d.Idle
  | ask q k, d => ∀ a, K.answer q a → Keeps K (k a) d
  | invoke c s k _, d =>
    d.owes = some c ∧ K.status c s ∧ Keeps K k { d with owes := none, completed := some c }
  | clear c k, d => d.completed = some c ∧ Keeps K k d
  | emplace i c k, d =>
    d.owes = some c ∧ d.collects = none ∧ K.record i c ∧ Keeps K (k false) d ∧
      Keeps K (k true) { d with owes := none, collects := some i }
  | take i k, d =>
    d.owes = none ∧ (∀ j, d.collects = some j → j = i) ∧ Keeps K (k none) { d with collects := none } ∧
      ∀ c, K.record i c → Keeps K (k (some c)) { d with owes := some c, collects := none }
  | fetchAdd k, d => ∀ n, Keeps K (k n) d
  | spawn t k, d => ∃ d₁ d₂, d.Split d₁ d₂ ∧ Keeps K t d₁ ∧ Keeps K k d₂
  | lock k, d => d.locks = false ∧ Keeps K k { d with locks := true }
  | unlock k, d => d.locks = true ∧ Keeps K k { d with locks := false }

end Thread

/-- A branch of the code. -/
theorem Code.keeps_ite {α : Type} {K : Contract C I S A M} {d : Duty C I} {p : Prop} [Decidable p]
    {x y : Code C I S A α} {k : α → Thread C I S A} {h : Thread C I S A}
    (hx : p → (x k h).Keeps K d) (hy : ¬ p → (y k h).Keeps K d) :
    ((if p then x else y) k h).Keeps K d := by
  by_cases hp : p
  · rw [if_pos hp]
    exact hx hp
  · rw [if_neg hp]
    exact hy hp

/-- A result of outside code, or its exception. -/
theorem Code.keeps_orThrow {α : Type} {K : Contract C I S A M} {d : Duty C I} {a : Option α}
    {k : α → Thread C I S A} {h : Thread C I S A} (hk : ∀ a, (k a).Keeps K d) (hh : h.Keeps K d) :
    (Code.orThrow a k h).Keeps K d := by
  cases a with
  | none => exact hh
  | some a => exact hk a

/-! ### Accounts -/

/-- The calls that the duties owe. -/
def owed (ds : List (Duty C I)) : List C := ds.filterMap Duty.owes

/-- The table, the completions and the duties of all threads account for every call. -/
structure Accounts [DecidableEq C] (K : Contract C I S A M) (started : List C) (m : Shared C I S)
    (ds : List (Duty C I)) : Prop where
  nodup : started.Nodup
  ids_nodup : (m.table.map Prod.fst).Nodup
  count : ∀ c, (owed ds).count c + (m.table.map Prod.snd).count c +
    (m.completions.map Prod.fst).count c = started.count c
  record : ∀ r ∈ m.table, K.record r.1 r.2
  collected : ∀ r ∈ m.table, ∃ d ∈ ds, d.collects = some r.1
  completed : ∀ d ∈ ds, ∀ c, d.completed = some c → c ∈ m.completions.map Prod.fst
  cleared : ∀ c ∈ m.cleared, c ∈ m.completions.map Prod.fst
  emptyCalls : m.emptyCalls = []
  status : ∀ p ∈ m.completions, K.status p.1 p.2
  locks : (ds.map Duty.locks).count true = if m.locked then 1 else 0

namespace Accounts

variable [DecidableEq C] {K : Contract C I S A M} {started : List C} {m : Shared C I S}
  {d : Duty C I} {ds ds' : List (Duty C I)} {c : C} {i : I} {s : S}

theorem init : Accounts K [] Shared.init [] := by
  constructor <;> simp [Shared.init, owed]

theorem perm (h : Accounts K started m ds) (hperm : ds.Perm ds') : Accounts K started m ds' where
  nodup := h.nodup
  ids_nodup := h.ids_nodup
  count := by
    intro c
    have hc : (owed ds').count c = (owed ds).count c := ((hperm.filterMap _).count_eq c).symm
    rw [hc]
    exact h.count c
  record := h.record
  collected := by
    intro r hr
    obtain ⟨d, hd, heq⟩ := h.collected r hr
    exact ⟨d, hperm.mem_iff.1 hd, heq⟩
  completed := fun d hd => h.completed d (hperm.mem_iff.2 hd)
  cleared := h.cleared
  emptyCalls := h.emptyCalls
  status := h.status
  locks := by
    have hc := (hperm.map Duty.locks).count_eq true
    rw [← hc]
    exact h.locks

/-- A call that a thread owes is not completed. -/
theorem not_mem_of_owes (h : Accounts K started m (d :: ds)) (hd : d.owes = some c) :
    c ∉ m.completions.map Prod.fst := by
  intro hmem
  have hpos := List.count_pos_iff.2 hmem
  have hle := List.nodup_iff_count_le_one.1 h.nodup c
  have hcount := h.count c
  have howed : (owed (d :: ds)).count c = (owed ds).count c + 1 := by
    simp [owed, hd]
  omega

/-- A change of the duty of a thread that leaves what it has completed. -/
theorem completed_cons (h : Accounts K started m (d :: ds)) {d' : Duty C I}
    (hd' : d'.completed = d.completed) :
    ∀ e ∈ d' :: ds, ∀ c', e.completed = some c' → c' ∈ m.completions.map Prod.fst := by
  intro e he c' hc'
  rcases List.mem_cons.1 he with rfl | he
  · exact h.completed d List.mem_cons_self c' (hd' ▸ hc')
  · exact h.completed e (List.mem_cons_of_mem _ he) c' hc'

/-- A thread that does not use the shared state may forget what it has completed, and share its duty
with a thread that it spawns. -/
theorem split (h : Accounts K started m (d :: ds)) {d₁ d₂ : Duty C I} (hd : d.Split d₁ d₂) :
    Accounts K started m (d₁ :: d₂ :: ds) := by
  refine ⟨h.nodup, h.ids_nodup, ?_, h.record, ?_, ?_, h.cleared, h.emptyCalls, h.status, ?_⟩
  · intro c
    rw [← h.count c]
    cases hd <;> cases hd' : d.owes <;> simp [owed, hd']
  · intro r hr
    obtain ⟨d', hd', heq⟩ := h.collected r hr
    rcases List.mem_cons.1 hd' with hd' | hd'
    · rw [hd'] at heq
      cases hd with
      | keep => exact ⟨d, by simp, heq⟩
      | owes => exact ⟨{ d with owes := none }, by simp, heq⟩
      | collects => exact ⟨{ collects := d.collects }, by simp, heq⟩
    · exact ⟨d', by simp [hd'], heq⟩
  · intro d' hd' c hc
    simp only [List.mem_cons] at hd'
    rcases hd' with rfl | rfl | hd'
    · cases hd <;> cases hc
    · refine h.completed d List.mem_cons_self c ?_
      cases hd <;> exact hc
    · exact h.completed d' (List.mem_cons_of_mem _ hd') c hc
  · rw [← h.locks]
    cases hd <;> simp

/-- A callback is called by the thread that owes the call. -/
theorem invoke (h : Accounts K started m (d :: ds)) (hd : d.owes = some c) (hs : K.status c s) :
    Accounts K started { m with completions := m.completions ++ [(c, s)] }
      ({ d with owes := none, completed := some c } :: ds) := by
  refine ⟨h.nodup, h.ids_nodup, ?_, h.record, ?_, ?_, ?_, h.emptyCalls, ?_, h.locks⟩
  · intro c'
    rw [← h.count c']
    simp only [owed, List.filterMap_cons, hd, List.map_append, List.map_cons, List.map_nil,
      List.count_append, List.count_cons, List.count_nil]
    omega
  · intro r hr
    obtain ⟨d', hd', heq⟩ := h.collected r hr
    rcases List.mem_cons.1 hd' with hd' | hd'
    · exact ⟨_, List.mem_cons_self, hd' ▸ heq⟩
    · exact ⟨d', List.mem_cons_of_mem _ hd', heq⟩
  · intro d' hd' c' hc'
    simp only [List.map_append, List.mem_append]
    rcases List.mem_cons.1 hd' with rfl | hd'
    · obtain rfl := Option.some.inj hc'
      simp
    · exact Or.inl (h.completed d' (List.mem_cons_of_mem _ hd') c' hc')
  · intro c' hc'
    simp only [List.map_append, List.mem_append]
    exact Or.inl (h.cleared c' hc')
  · intro p hp
    rcases List.mem_append.1 hp with hp | hp
    · exact h.status p hp
    · rw [List.mem_singleton.1 hp]
      exact hs

theorem clear (h : Accounts K started m (d :: ds)) (hd : d.completed = some c) :
    Accounts K started { m with cleared := c :: m.cleared } (d :: ds) := by
  refine ⟨h.nodup, h.ids_nodup, h.count, h.record, h.collected, h.completed, ?_, h.emptyCalls,
    h.status, h.locks⟩
  intro c' hc'
  rcases List.mem_cons.1 hc' with rfl | hc'
  · exact h.completed d List.mem_cons_self c' hd
  · exact h.cleared c' hc'

/-- The call goes over to the record, and the thread has to collect it. -/
theorem emplace (h : Accounts K started m (d :: ds)) (hd : d.owes = some c)
    (hcollects : d.collects = none) (hr : K.record i c) (hnone : ∀ r ∈ m.table, r.1 ≠ i) :
    Accounts K started { m with table := (i, c) :: m.table }
      ({ d with owes := none, collects := some i } :: ds) := by
  refine ⟨h.nodup, ?_, ?_, ?_, ?_, ?_, h.cleared, h.emptyCalls, h.status, h.locks⟩
  · rw [List.map_cons, List.nodup_cons]
    refine ⟨fun hmem => ?_, h.ids_nodup⟩
    obtain ⟨r, hr, heq⟩ := List.mem_map.1 hmem
    exact hnone r hr heq
  · intro c'
    rw [← h.count c']
    simp only [owed, List.filterMap_cons, hd, List.map_cons, List.count_cons]
    omega
  · intro r hmem
    rcases List.mem_cons.1 hmem with rfl | hmem
    · exact hr
    · exact h.record r hmem
  · intro r hmem
    rcases List.mem_cons.1 hmem with rfl | hmem
    · exact ⟨_, List.mem_cons_self, rfl⟩
    · obtain ⟨d', hd', heq⟩ := h.collected r hmem
      rcases List.mem_cons.1 hd' with rfl | hd'
      · rw [hcollects] at heq
        cases heq
      · exact ⟨d', List.mem_cons_of_mem _ hd', heq⟩
  · exact h.completed_cons rfl

/-- A thread that finds no record under its id has nothing to collect. -/
theorem take_none (h : Accounts K started m (d :: ds)) (hcollects : ∀ j, d.collects = some j → j = i)
    (hnone : ∀ r ∈ m.table, r.1 ≠ i) : Accounts K started m ({ d with collects := none } :: ds) := by
  refine ⟨h.nodup, h.ids_nodup, h.count, h.record, ?_, ?_, h.cleared, h.emptyCalls, h.status, h.locks⟩
  · intro r hr
    obtain ⟨d', hd', heq⟩ := h.collected r hr
    rcases List.mem_cons.1 hd' with rfl | hd'
    · exact absurd (hcollects _ heq) (hnone r hr)
    · exact ⟨d', List.mem_cons_of_mem _ hd', heq⟩
  · exact h.completed_cons rfl

/-- The record that is taken is the only one under its id. -/
theorem take_some (h : Accounts K started m (d :: ds)) {l₁ l₂ : List (I × C)}
    (htable : m.table = l₁ ++ (i, c) :: l₂) (hd : d.owes = none)
    (hcollects : ∀ j, d.collects = some j → j = i) :
    Accounts K started { m with table := l₁ ++ l₂ }
      ({ d with owes := some c, collects := none } :: ds) := by
  have hmem : ∀ r ∈ l₁ ++ l₂, r ∈ m.table := by
    intro r hr
    rw [htable]
    rcases List.mem_append.1 hr with hr | hr
    · exact List.mem_append_left _ hr
    · exact List.mem_append_right _ (List.mem_cons_of_mem _ hr)
  have hids : (i :: (l₁ ++ l₂).map Prod.fst).Nodup := by
    have hperm : (m.table.map Prod.fst).Perm (i :: (l₁ ++ l₂).map Prod.fst) := by
      rw [htable]
      exact (List.perm_middle.map Prod.fst)
    exact hperm.nodup_iff.1 h.ids_nodup
  obtain ⟨hother, hids⟩ := List.nodup_cons.1 hids
  refine ⟨h.nodup, hids, ?_, fun r hr => h.record r (hmem r hr), ?_, ?_, h.cleared, h.emptyCalls,
    h.status, h.locks⟩
  · intro c'
    rw [← h.count c', htable]
    simp only [owed, List.filterMap_cons, hd, List.map_append, List.map_cons, List.count_append,
      List.count_cons]
    omega
  · intro r hr
    obtain ⟨d', hd', heq⟩ := h.collected r (hmem r hr)
    rcases List.mem_cons.1 hd' with rfl | hd'
    · exact absurd (List.mem_map.2 ⟨r, hr, hcollects _ heq⟩) hother
    · exact ⟨d', List.mem_cons_of_mem _ hd', heq⟩
  · exact h.completed_cons rfl

theorem lock (h : Accounts K started m (d :: ds)) (hd : d.locks = false) (hfree : m.locked = false) :
    Accounts K started { m with locked := true } ({ d with locks := true } :: ds) := by
  refine ⟨h.nodup, h.ids_nodup, h.count, h.record, ?_, ?_, h.cleared, h.emptyCalls, h.status, ?_⟩
  · simpa using h.collected
  · simpa using h.completed
  · have := h.locks
    simp only [hfree, List.map_cons, hd, List.count_cons] at this
    simp only [List.map_cons, List.count_cons]
    simp at this ⊢
    exact this

theorem unlock (h : Accounts K started m (d :: ds)) (hd : d.locks = true) :
    Accounts K started { m with locked := false } ({ d with locks := false } :: ds) := by
  refine ⟨h.nodup, h.ids_nodup, h.count, h.record, ?_, ?_, h.cleared, h.emptyCalls, h.status, ?_⟩
  · simpa using h.collected
  · simpa using h.completed
  · have := h.locks
    simp only [List.map_cons, hd, List.count_cons_self] at this
    simp only [List.map_cons, List.count_cons]
    split at this <;> simp at this ⊢
    exact this

theorem count_succ (h : Accounts K started m ds) :
    Accounts K started { m with counter := m.counter + 1 } ds :=
  ⟨h.nodup, h.ids_nodup, h.count, h.record, h.collected, h.completed, h.cleared, h.emptyCalls,
    h.status, h.locks⟩

/-- A new call is owed by its thread. -/
theorem start (h : Accounts K started m ds) (hc : c ∉ started) :
    Accounts K (c :: started) m ({ owes := some c } :: ds) := by
  refine ⟨List.nodup_cons.2 ⟨hc, h.nodup⟩, h.ids_nodup, ?_, h.record, ?_, ?_, h.cleared, h.emptyCalls,
    h.status, ?_⟩
  · intro c'
    simp only [owed, List.filterMap_cons, List.count_cons]
    have := h.count c'
    unfold owed at this
    omega
  · simpa using h.collected
  · simpa using h.completed
  · simpa using h.locks

/-- A new message brings a thread without a duty. -/
theorem deliver (h : Accounts K started m ds) : Accounts K started m ({} :: ds) := by
  refine ⟨h.nodup, h.ids_nodup, ?_, h.record, ?_, ?_, h.cleared, h.emptyCalls, h.status, ?_⟩
  · simpa [owed] using h.count
  · simpa using h.collected
  · simpa using h.completed
  · simpa using h.locks

end Accounts

/-! ### Steps and runs -/

section Runs

variable [DecidableEq C] [DecidableEq I] {K : Contract C I S A M} {started : List C}
  {m m' : Shared C I S} {d : Duty C I} {ds : List (Duty C I)} {t : Thread C I S A}
  {ts : List (Thread C I S A)} {f : ∀ q, A q}

omit [DecidableEq C] in
theorem table_find?_eq_none {i : I} (h : m.table.find? (fun r => r.1 = i) = none) :
    ∀ r ∈ m.table, r.1 ≠ i := by
  intro r hr
  simpa using List.find?_eq_none.1 h r hr

/-- The threads of a pool keep their duties, and the duties account for every call. -/
def Keeping (K : Contract C I S A M) (started : List C) (m : Shared C I S)
    (ts : List (Thread C I S A)) (ds : List (Duty C I)) : Prop :=
  ∃ ds', List.Forall₂ (Thread.Keeps K) ts ds' ∧ Accounts K started m (ds' ++ ds)

omit [DecidableEq I] in
theorem keeping_one (hk : t.Keeps K d) (h : Accounts K started m (d :: ds)) :
    Keeping K started m [t] ds :=
  ⟨[d], .cons hk .nil, h⟩

/-- **One step of a thread.** -/
theorem Thread.Keeps.step (hk : t.Keeps K d) (h : Accounts K started m (d :: ds))
    (hf : ∀ q, K.answer q (f q)) (hstep : t.step f m = some (ts, m')) :
    Keeping K started m' ts ds := by
  cases t with
  | done => cases hstep
  | hang => cases hstep
  | ask q k =>
    obtain ⟨rfl, rfl⟩ := Prod.mk.inj (Option.some.inj hstep)
    exact keeping_one (hk (f q) (hf q)) h
  | invoke c s k hempty =>
    obtain ⟨howes, hs, hk⟩ := hk
    have hc : c ∉ m.cleared := fun hmem => h.not_mem_of_owes howes (h.cleared c hmem)
    rw [Thread.step, if_neg hc] at hstep
    obtain ⟨rfl, rfl⟩ := Prod.mk.inj (Option.some.inj hstep)
    exact keeping_one hk (h.invoke howes hs)
  | clear c k =>
    obtain ⟨hcompleted, hk⟩ := hk
    obtain ⟨rfl, rfl⟩ := Prod.mk.inj (Option.some.inj hstep)
    exact keeping_one hk (h.clear hcompleted)
  | emplace i c k =>
    obtain ⟨howes, hcollects, hr, hfalse, htrue⟩ := hk
    rw [Thread.step] at hstep
    split at hstep
    · obtain ⟨rfl, rfl⟩ := Prod.mk.inj (Option.some.inj hstep)
      exact keeping_one hfalse h
    · rename_i hfind
      obtain ⟨rfl, rfl⟩ := Prod.mk.inj (Option.some.inj hstep)
      exact keeping_one htrue (h.emplace howes hcollects hr (table_find?_eq_none hfind))
  | take i k =>
    obtain ⟨howes, hcollects, hnone, hsome⟩ := hk
    rw [Thread.step] at hstep
    split at hstep
    · rename_i r hfind
      obtain ⟨hr, l₁, l₂, htable, hl₁⟩ := List.find?_eq_some_iff_append.1 hfind
      have hri : r.1 = i := by simpa using hr
      obtain ⟨rfl, rfl⟩ := Prod.mk.inj (Option.some.inj hstep)
      have herase : m.table.eraseP (fun r => r.1 = i) = l₁ ++ l₂ := by
        rw [htable, List.eraseP_append_right _ (by simpa using hl₁),
          List.eraseP_cons_of_pos (by simpa using hri)]
      have hrecord : K.record i r.2 := by
        rw [← hri]
        exact h.record r (by rw [htable]; exact List.mem_append_right _ List.mem_cons_self)
      refine keeping_one (hsome r.2 hrecord) ?_
      rw [herase]
      refine h.take_some ?_ howes hcollects
      rw [htable, ← hri]
    · rename_i hfind
      obtain ⟨rfl, rfl⟩ := Prod.mk.inj (Option.some.inj hstep)
      exact keeping_one hnone (h.take_none hcollects (table_find?_eq_none hfind))
  | fetchAdd k =>
    obtain ⟨rfl, rfl⟩ := Prod.mk.inj (Option.some.inj hstep)
    exact keeping_one (hk m.counter) h.count_succ
  | spawn t k =>
    obtain ⟨d₁, d₂, hsplit, ht, hk⟩ := hk
    obtain ⟨rfl, rfl⟩ := Prod.mk.inj (Option.some.inj hstep)
    exact ⟨[d₁, d₂], .cons ht (.cons hk .nil), h.split hsplit⟩
  | lock k =>
    obtain ⟨hlocks, hk⟩ := hk
    rw [Thread.step] at hstep
    split at hstep
    · cases hstep
    · rename_i hfree
      obtain ⟨rfl, rfl⟩ := Prod.mk.inj (Option.some.inj hstep)
      exact keeping_one hk (h.lock hlocks (by simpa using hfree))
  | unlock k =>
    obtain ⟨hlocks, hk⟩ := hk
    obtain ⟨rfl, rfl⟩ := Prod.mk.inj (Option.some.inj hstep)
    exact keeping_one hk (h.unlock hlocks)

theorem forall₂_eraseIdx {α β : Type} {R : α → β → Prop} {l : List α} {l' : List β}
    (h : List.Forall₂ R l l') (i : ℕ) : List.Forall₂ R (l.eraseIdx i) (l'.eraseIdx i) := by
  induction h generalizing i with
  | nil => exact .nil
  | cons hr h ih =>
    cases i with
    | zero => exact h
    | succ i => exact .cons hr (ih i)

/-- A move whose answers and messages the contract allows. -/
def Move.Allowed (K : Contract C I S A M) : Move C M A → Prop
  | .start _ => True
  | .deliver x => K.message x
  | .run _ f => ∀ q, K.answer q (f q)

omit [DecidableEq C] [DecidableEq I] in
theorem Move.allowed_any (move : Move C M A) :
    move.Allowed (Contract.any : Contract C I S A M) := by
  cases move with
  | start c => trivial
  | deliver x => trivial
  | run i f => exact fun _ => trivial

omit [DecidableEq C] [DecidableEq I] in
/-- The steps of a schedule whose answers the contract allows. -/
theorem Move.allowed_of_mem_runs (hf : ∀ q, K.answer q (f q)) (schedule : List ℕ) :
    ∀ move ∈ schedule.map fun i => (.run i f : Move C M A), move.Allowed K := by
  intro move hmove
  obtain ⟨i, -, rfl⟩ := List.mem_map.1 hmove
  exact hf

/-- New calls and messages bring threads that keep their duty. -/
structure System.Sound (sys : System C I S A M) (K : Contract C I S A M) : Prop where
  invoke : ∀ c, (sys.invoke c).toThread.Keeps K { owes := some c }
  handle : ∀ x, K.message x → (sys.handle x).toThread.Keeps K {}

variable {sys : System C I S A M} {P P' : Pool C I S A}

/-- **One move of a pool.** -/
theorem Pool.step_keeping {move : Move C M A} (hsys : sys.Sound K) (hmove : move.Allowed K)
    (h : Keeping K P.started P.shared P.threads []) (hstep : P.step sys move = some P') :
    Keeping K P'.started P'.shared P'.threads [] := by
  obtain ⟨ds, hkeeps, hacc⟩ := h
  rw [List.append_nil] at hacc
  cases move with
  | start c =>
    rw [Pool.step] at hstep
    split at hstep
    · cases hstep
    · rename_i hc
      obtain rfl := Option.some.inj hstep
      refine ⟨{ owes := some c } :: ds, .cons (hsys.invoke c) hkeeps, ?_⟩
      rw [List.append_nil]
      exact hacc.start hc
  | deliver x =>
    obtain rfl := Option.some.inj hstep
    refine ⟨{} :: ds, .cons (hsys.handle x hmove) hkeeps, ?_⟩
    rw [List.append_nil]
    exact hacc.deliver
  | run i f =>
    obtain ⟨t, ht, hstep⟩ := Option.bind_eq_some_iff.1 hstep
    obtain ⟨⟨ts, m⟩, hts, hstep⟩ := Option.bind_eq_some_iff.1 hstep
    obtain rfl := Option.some.inj hstep
    obtain ⟨hi, rfl⟩ := List.getElem?_eq_some_iff.1 ht
    have hids : i < ds.length := hkeeps.length_eq ▸ hi
    have hkeep : (P.threads[i]).Keeps K ds[i] := (List.forall₂_iff_get.1 hkeeps).2 i hi hids
    have hperm : ds.Perm (ds[i] :: ds.eraseIdx i) := (List.getElem_cons_eraseIdx_perm hids).symm
    obtain ⟨ds', hkeeps', hacc'⟩ := hkeep.step (hacc.perm hperm) hmove hts
    refine ⟨ds' ++ ds.eraseIdx i, List.rel_append hkeeps' ?_, ?_⟩
    · exact forall₂_eraseIdx hkeeps i
    · rwa [List.append_nil]

/-- **A run of a pool.** -/
theorem Pool.run_keeping {moves : List (Move C M A)} (hsys : sys.Sound K)
    (hmoves : ∀ move ∈ moves, move.Allowed K)
    (h : Keeping K P.started P.shared P.threads []) (hrun : P.run sys moves = some P') :
    Keeping K P'.started P'.shared P'.threads [] := by
  induction moves generalizing P with
  | nil =>
    obtain rfl := Option.some.inj hrun
    exact h
  | cons move moves ih =>
    obtain ⟨P₁, hstep, hrun⟩ := Option.bind_eq_some_iff.1 hrun
    obtain ⟨hmove, hmoves⟩ := List.forall_mem_cons.1 hmoves
    exact ih hmoves (Pool.step_keeping hsys hmove h hstep) hrun

omit [DecidableEq C] [DecidableEq I] in
/-- A stuck thread that keeps its duty is idle, or waits for the lock with its duty. -/
theorem Thread.Keeps.idle_of_stuck {locked : Bool} (hk : t.Keeps K d) (hstuck : t.Stuck locked) :
    d.Idle ∨ (locked = true ∧ d.locks = false) := by
  cases t with
  | done => exact Or.inl hk
  | hang => exact Or.inl hk
  | lock k => exact Or.inr ⟨hstuck, hk.1⟩
  | _ => exact hstuck.elim

omit [DecidableEq I] in
/-- When no thread can make a step all duties are done. -/
theorem Keeping.idle {ds : List (Duty C I)} (hkeeps : List.Forall₂ (Thread.Keeps K) ts ds)
    (h : Accounts K started m ds) (hstuck : ∀ t ∈ ts, t.Stuck m.locked) : ∀ d ∈ ds, d.Idle := by
  have hidle : ∀ d ∈ ds, d.Idle ∨ (m.locked = true ∧ d.locks = false) := by
    intro d hd
    obtain ⟨i, hi, rfl⟩ := List.mem_iff_getElem.1 hd
    have hts : i < ts.length := hkeeps.length_eq.symm ▸ hi
    have hkeep : (ts[i]).Keeps K ds[i] := (List.forall₂_iff_get.1 hkeeps).2 i hts hi
    exact hkeep.idle_of_stuck (hstuck _ (List.getElem_mem hts))
  -- the lock is free: nobody who could hold it is left
  have hfree : m.locked = false := by
    have hcount : (ds.map Duty.locks).count true = 0 := by
      refine List.count_eq_zero.2 fun hmem => ?_
      obtain ⟨d, hd, hlocks⟩ := List.mem_map.1 hmem
      rcases hidle d hd with h | h
      · exact absurd (hlocks.symm.trans h.locks) (by simp)
      · exact absurd (hlocks.symm.trans h.2) (by simp)
    have hlocks := h.locks
    rw [hcount] at hlocks
    cases hm : m.locked with
    | false => rfl
    | true => simp [hm] at hlocks
  intro d hd
  rcases hidle d hd with h | h
  · exact h
  · rw [hfree] at h
    cases h.1

omit [DecidableEq I] in
theorem Keeping.exactlyOnce (h : Keeping K P.started P.shared P.threads []) : P.ExactlyOnce := by
  obtain ⟨ds, hkeeps, h⟩ := h
  rw [List.append_nil] at h
  have hle := fun c => List.nodup_iff_count_le_one.1 h.nodup c
  refine ⟨?_, h.emptyCalls, ?_, ?_⟩
  · refine List.nodup_iff_count_le_one.2 fun c => ?_
    have := h.count c
    have := hle c
    omega
  · intro p hp i hrecord
    have hcompleted := List.count_pos_iff.2 (List.mem_map_of_mem (f := Prod.fst) hp)
    have hrecorded := List.count_pos_iff.2 (List.mem_map_of_mem (f := Prod.snd) hrecord)
    have := h.count p.1
    have := hle p.1
    simp only at hrecorded
    omega
  · intro hquiescent c hc
    have hidle := Keeping.idle hkeeps h hquiescent
    have howed : owed ds = [] := by
      refine List.filterMap_eq_nil_iff.2 fun d hd => (hidle d hd).owes
    have htable : P.shared.table = [] := by
      refine List.eq_nil_iff_forall_not_mem.2 fun r hr => ?_
      obtain ⟨d, hd, hcollects⟩ := h.collected r hr
      rw [(hidle d hd).collects] at hcollects
      cases hcollects
    have hcount := h.count c
    rw [howed, htable, List.count_eq_one_of_mem h.nodup hc] at hcount
    have hpos : 0 < (P.shared.completions.map Prod.fst).count c := by
      simp at hcount
      omega
    obtain ⟨p, hp, rfl⟩ := List.mem_map.1 (List.count_pos_iff.1 hpos)
    exact ⟨p.2, hp⟩

/-- **Main result.**  Every run whose moves the contract allows completes every call exactly once, and
calls the callbacks as the contract says. -/
theorem System.Sound.exactlyOnce {moves : List (Move C M A)} (hsys : sys.Sound K)
    (hmoves : ∀ move ∈ moves, move.Allowed K) (hrun : Pool.init.run sys moves = some P) :
    P.ExactlyOnce ∧ ∀ p ∈ P.shared.completions, K.status p.1 p.2 := by
  have h : Keeping K P.started P.shared P.threads [] :=
    Pool.run_keeping hsys hmoves ⟨[], .nil, Accounts.init⟩ hrun
  refine ⟨h.exactlyOnce, ?_⟩
  obtain ⟨ds, -, h⟩ := h
  exact h.status

end Runs

end AimRT.Lib

import AimRT.Lib.AlarmQueue

/-!
# The timing wheel

`TimingWheelTool`, its `Tick` and `borrow_func`, and the loop of `ExecuteAt` that picks a level.
The two executors that have a timing wheel share this code except for two index computations, which
are parameters here:

* `slot size scale tickCount` is the slot `borrow_func` moves a task to when it comes down a level
  (undefined where it divides by zero);
* `pos diff x` is the slot number `ExecuteAt` computes at a level from the remaining distance `diff`
  and the second quantity `x` it divides along.

`Sound` is the invariant: the next slot of a level of weight `P` (the product of the sizes below it)
has the absolute number `a`, every task is in the window of its level under the number
`tickCount / P`, and a task of a higher level will be moved to the right slot when it comes down.
`tick_sound` and `executeAtLoop_sound` are the step lemmas.
-/

namespace AimRT.Executor

open AimRT.Lib

variable {α : Type}

/-! ### The data -/

/-- The options of an executor with a timing wheel, and the time point at which its timer thread
starts. -/
structure WheelOptions where
  dtCount : ℕ
  wheelSize : List ℕ
  startTimePoint : ℕ
  dtCount_pos : 0 < dtCount
  wheelSize_ne : wheelSize ≠ []
  two_le : ∀ n ∈ wheelSize, 2 ≤ n

/-- A task with its tick count since the start time. -/
structure TaskWithTimestamp (α : Type) where
  tickCount : ℕ
  task : α
  deriving DecidableEq, Repr

abbrev TaskList (α : Type) := List (TaskWithTimestamp α)

/-- One level of the wheel. -/
structure TimingWheelTool (α : Type) where
  currentPos : ℕ
  scale : ℕ
  wheel : List (TaskList α)

/-- `timing_task_map_` and `timing_task_map_pos_`: one entry `(key, task)` for each element of
`timing_task_map_[key]`, in the order of insertion. -/
structure TimingTaskMap (α : Type) where
  pos : ℕ
  entries : List (ℕ × TaskWithTimestamp α)

/-- The list stored under a key, empty where the map has no such key. -/
def TimingTaskMap.find (m : TimingTaskMap α) (key : ℕ) : TaskList α :=
  (m.entries.filter fun e => e.1 = key).map Prod.snd

def TimingTaskMap.erase (m : TimingTaskMap α) (key : ℕ) : TimingTaskMap α :=
  { m with entries := m.entries.filter fun e => e.1 ≠ key }

def TimingTaskMap.emplaceBack (m : TimingTaskMap α) (key : ℕ) (τ : TaskWithTimestamp α) :
    TimingTaskMap α :=
  { m with entries := m.entries ++ [(key, τ)] }

/-- The subtraction of `uint64_t`. -/
def usub (a b : ℕ) : ℕ := (a + 2 ^ 64 - b) % 2 ^ 64

theorem usub_of_le {a b : ℕ} (hle : b ≤ a) (ha : a < 2 ^ 64) : usub a b = a - b := by
  unfold usub
  omega

/-- The tick for which `ExecuteAt` schedules a task: `virtual_tp / dt_count_`. -/
def WheelOptions.targetTick (o : WheelOptions) (tp : ℕ) : ℕ :=
  usub tp o.startTimePoint / o.dtCount

theorem WheelOptions.targetTick_lt (o : WheelOptions) (tp : ℕ) : o.targetTick tp < 2 ^ 64 :=
  (Nat.div_le_self _ _).trans_lt (Nat.mod_lt _ (by decide))

/-- A call that is not late takes the branch that schedules. -/
theorem WheelOptions.not_late {o : WheelOptions} {tp cur : ℕ} (h : cur ≤ o.targetTick tp) :
    ¬ usub tp o.startTimePoint < cur * o.dtCount % 2 ^ 64 := by
  have hle : cur * o.dtCount ≤ usub tp o.startTimePoint :=
    (Nat.le_div_iff_mul_le o.dtCount_pos).1 h
  have hmod : cur * o.dtCount % 2 ^ 64 ≤ cur * o.dtCount := Nat.mod_le _ _
  omega

/-- The unsigned `%`; a remainder by zero is undefined behaviour. -/
def umod (a b : ℕ) : Option ℕ := if b = 0 then none else some (a % b)

/-- `wheel[i].emplace_back(τ)`; an index out of range is undefined behaviour. -/
def TimingWheelTool.emplaceBack (w : TimingWheelTool α) (i : ℕ) (τ : TaskWithTimestamp α) :
    Option (TimingWheelTool α) :=
  if i < w.wheel.length then some { w with wheel := w.wheel.modify i (· ++ [τ]) } else none

/-- The levels as `Initialize` makes them. -/
def initLevels : (ii curScale : ℕ) → List ℕ → List (TimingWheelTool α)
  | _, _, [] => []
  | ii, curScale, size :: sizes =>
    { currentPos := if ii = 0 then 0 else 1
      scale := curScale * size % 2 ^ 64
      wheel := List.replicate size [] } :: initLevels (ii + 1) (curScale * size % 2 ^ 64) sizes

def initTaskMap : TimingTaskMap α := { pos := 1, entries := [] }

/-- The sizes of the levels that the loop of `ExecuteAt` passes at a remaining distance `diff`. -/
def levelsBelow : (diff : ℕ) → List ℕ → List ℕ
  | _, [] => []
  | diff, size :: sizes => if diff < size then [] else size :: levelsBelow (diff / size) sizes

/-! ### Ticks -/

section Tick

variable (slot : (size scale tickCount : ℕ) → Option ℕ)

/-- The loop of `borrow_func`: the tasks that come down are moved to their slots one by one. -/
def respread : TimingWheelTool α → TaskList α → Option (TimingWheelTool α)
  | w, [] => some w
  | w, τ :: ts => do
    let i ← slot w.wheel.length w.scale τ.tickCount
    let w ← w.emplaceBack i τ
    respread w ts

/-- `Tick` of the first of the given levels.  When its position wraps, `borrow_func` takes the task
list of a `Tick` of the next level; above the last level (the case `[]`) it takes the list of the
map instead. -/
def tick : List (TimingWheelTool α) → TimingTaskMap α →
    Option (TaskList α × List (TimingWheelTool α) × TimingTaskMap α)
  | [], m =>
    let taskList := m.find m.pos
    some (taskList, [], { m.erase m.pos with pos := m.pos + 1 })
  | w :: ws, m => do
    let taskList ← w.wheel[w.currentPos]?
    let w := { w with wheel := w.wheel.set w.currentPos [], currentPos := w.currentPos + 1 }
    if w.currentPos = w.wheel.length then
      let (borrowed, ws, m) ← tick ws m
      let w ← respread slot { w with currentPos := 0 } borrowed
      return (taskList, w :: ws, m)
    else
      return (taskList, w :: ws, m)

end Tick

/-! ### Scheduling -/

/-- The loop of `ExecuteAt` over the levels, from the level at which the remaining distance is
`diff`. -/
def executeAtLoop (pos : (diff x : ℕ) → ℕ) (τ : TaskWithTimestamp α) : (diff x : ℕ) →
    List (TimingWheelTool α) → TimingTaskMap α →
    Option (List (TimingWheelTool α) × TimingTaskMap α)
  | diff, x, [], m => some ([], m.emplaceBack (pos diff x) τ)
  | diff, x, w :: ws, m => do
    let size := w.wheel.length
    if diff < size then
      let i ← umod (pos diff x) size
      let w ← w.emplaceBack i τ
      return (w :: ws, m)
    else
      let (ws, m) ← executeAtLoop pos τ (diff / size) (x / size) ws m
      return (w :: ws, m)

/-! ### What is pending -/

/-- All tasks on the given levels and in the map. -/
def pending : List (TimingWheelTool α) → TimingTaskMap α → TaskList α
  | [], m => m.entries.map Prod.snd
  | w :: ws, m => w.wheel.flatten ++ pending ws m

@[simp] theorem pending_nil (m : TimingTaskMap α) : pending [] m = m.entries.map Prod.snd := rfl

@[simp] theorem pending_cons (w : TimingWheelTool α) (ws : List (TimingWheelTool α))
    (m : TimingTaskMap α) : pending (w :: ws) m = w.wheel.flatten ++ pending ws m := rfl

theorem pending_initLevels (sizes : List ℕ) :
    ∀ ii c, pending (initLevels ii c sizes) (initTaskMap (α := α)) = [] := by
  induction sizes with
  | nil => intro ii c; rfl
  | cons size sizes ih =>
    intro ii c
    simp [initLevels, ih]

theorem flatten_set_nil {β : Type} {l : List (List β)} {i : ℕ} (hi : i < l.length) :
    l.flatten.Perm (l[i] ++ (l.set i []).flatten) := by
  rw [List.set_eq_take_cons_drop [] hi]
  conv_lhs => rw [← List.take_append_drop i l, List.drop_eq_getElem_cons hi]
  simp only [List.flatten_append, List.flatten_cons, List.nil_append]
  exact List.perm_append_comm_assoc _ _ _

theorem flatten_modify_append {β : Type} {l : List (List β)} {i : ℕ} (hi : i < l.length) (b : β) :
    (l.modify i (· ++ [b])).flatten.Perm (l.flatten ++ [b]) := by
  rw [List.modify_eq_take_cons_drop hi]
  conv_rhs => rw [← List.take_append_drop i l, List.drop_eq_getElem_cons hi]
  simp only [List.flatten_append, List.flatten_cons, List.append_assoc]
  exact ((List.perm_append_comm.append_left _).append_left _)

/-! ### One level -/

/-- Two numbers of one window of length `n` with the same remainder are equal. -/
theorem eq_of_mod_eq {n a k : ℕ} (hlo : a ≤ k) (hhi : k < a + n) (h : k % n = a % n) : k = a := by
  have hdvd : n ∣ k - a := (Nat.modEq_iff_dvd' hlo).1 h.symm
  have := Nat.eq_zero_of_dvd_of_lt hdvd (by omega)
  omega

/-- A level of weight `P` whose next slot has the absolute number `a`. -/
structure LevelSound (P a : ℕ) (w : TimingWheelTool α) : Prop where
  two_le : 2 ≤ w.wheel.length
  /-- The scale is the weight of the next level, in 64 bits. -/
  scale_eq : w.scale = P * w.wheel.length % 2 ^ 64
  pos_eq : w.currentPos = a % w.wheel.length
  /-- A task is in the window of the level and in the slot of its number. -/
  window : ∀ p ts, w.wheel[p]? = some ts → ∀ τ ∈ ts, a ≤ τ.tickCount / P ∧
    τ.tickCount / P < a + w.wheel.length ∧ τ.tickCount / P % w.wheel.length = p

variable {P a : ℕ} {w : TimingWheelTool α}

theorem LevelSound.emplaceBack (h : LevelSound P a w) {τ : TaskWithTimestamp α}
    (hlo : a ≤ τ.tickCount / P) (hhi : τ.tickCount / P < a + w.wheel.length) :
    ∃ w', w.emplaceBack (τ.tickCount / P % w.wheel.length) τ = some w' ∧ LevelSound P a w' ∧
      w'.wheel.length = w.wheel.length ∧ w'.scale = w.scale ∧
      w'.wheel.flatten.Perm (w.wheel.flatten ++ [τ]) := by
  have hlen := h.two_le
  have hi : τ.tickCount / P % w.wheel.length < w.wheel.length := Nat.mod_lt _ (by omega)
  refine ⟨_, if_pos hi, ⟨?_, ?_, ?_, ?_⟩, ?_, rfl, flatten_modify_append hi τ⟩
  · simpa using h.two_le
  · simpa using h.scale_eq
  · simpa using h.pos_eq
  · intro p ts hts σ hσ
    simp only [List.length_modify]
    rw [List.getElem?_modify] at hts
    obtain ⟨ts₀, hts₀, rfl⟩ := Option.map_eq_some_iff.1 hts
    by_cases hp : τ.tickCount / P % w.wheel.length = p
    · rw [if_pos hp] at hσ
      rcases List.mem_append.1 hσ with hσ | hσ
      · exact h.window p ts₀ hts₀ σ hσ
      · rw [List.mem_singleton.1 hσ]
        exact ⟨hlo, hhi, hp⟩
    · rw [if_neg hp] at hσ
      exact h.window p ts₀ hts₀ σ hσ
  · simp

/-- The next slot holds what is due, and the level without it is sound one slot later. -/
theorem LevelSound.pop (h : LevelSound P a w) :
    ∃ ts, w.wheel[w.currentPos]? = some ts ∧ (∀ τ ∈ ts, τ.tickCount / P = a) ∧
      w.wheel.flatten.Perm (ts ++ (w.wheel.set w.currentPos []).flatten) ∧
      LevelSound P (a + 1) { w with
        wheel := w.wheel.set w.currentPos []
        currentPos := (a + 1) % w.wheel.length } := by
  have hlen := h.two_le
  have hpos : w.currentPos < w.wheel.length := by
    rw [h.pos_eq]
    exact Nat.mod_lt _ (by omega)
  have hget : w.wheel[w.currentPos]? = some w.wheel[w.currentPos] := List.getElem?_eq_getElem hpos
  refine ⟨_, hget, ?_, flatten_set_nil hpos, ⟨?_, ?_, ?_, ?_⟩⟩
  · intro τ hτ
    obtain ⟨hlo, hhi, hmod⟩ := h.window _ _ hget τ hτ
    rw [h.pos_eq] at hmod
    exact eq_of_mod_eq hlo hhi hmod
  · simpa using h.two_le
  · simpa using h.scale_eq
  · simp
  · intro p ts hts τ hτ
    simp only [List.length_set]
    rw [List.getElem?_set] at hts
    by_cases hp : w.currentPos = p
    · rw [if_pos hp, if_pos hpos] at hts
      obtain rfl := Option.some.inj hts
      simp at hτ
    · rw [if_neg hp] at hts
      obtain ⟨hlo, hhi, hmod⟩ := h.window p ts hts τ hτ
      refine ⟨?_, by omega, hmod⟩
      -- the slot of the number `a` is the one that was emptied
      rcases Nat.lt_or_ge a (τ.tickCount / P) with hlt | hge
      · exact hlt
      · have : τ.tickCount / P = a := by omega
        rw [this] at hmod
        exact absurd (h.pos_eq.trans hmod) hp

variable (slot : (size scale tickCount : ℕ) → Option ℕ)

theorem LevelSound.respread (h : LevelSound P a w) {ts : TaskList α}
    (hwin : ∀ τ ∈ ts, a ≤ τ.tickCount / P ∧ τ.tickCount / P < a + w.wheel.length)
    (hslot : ∀ τ ∈ ts, slot w.wheel.length w.scale τ.tickCount =
      some (τ.tickCount / P % w.wheel.length)) :
    ∃ w', respread slot w ts = some w' ∧ LevelSound P a w' ∧
      w'.wheel.length = w.wheel.length ∧ w'.scale = w.scale ∧
      w'.wheel.flatten.Perm (w.wheel.flatten ++ ts) := by
  induction ts generalizing w with
  | nil => exact ⟨w, rfl, h, rfl, rfl, by simp⟩
  | cons τ ts ih =>
    obtain ⟨hlo, hhi⟩ := hwin τ List.mem_cons_self
    obtain ⟨w₁, h₁, hs₁, hlen₁, hscale₁, hperm₁⟩ := h.emplaceBack hlo hhi
    obtain ⟨w₂, h₂, hs₂, hlen₂, hscale₂, hperm₂⟩ := ih hs₁
      (fun σ hσ => hlen₁ ▸ hwin σ (List.mem_cons_of_mem _ hσ))
      (fun σ hσ => by rw [hlen₁, hscale₁]; exact hslot σ (List.mem_cons_of_mem _ hσ))
    refine ⟨w₂, ?_, hs₂, hlen₂.trans hlen₁, hscale₂.trans hscale₁, ?_⟩
    · simp [Executor.respread, hslot τ List.mem_cons_self, h₁, h₂]
    · have := hperm₂.trans (hperm₁.append_right ts)
      simpa using this

/-! ### All levels -/

/-- The levels from weight `P` on are sound, the first one with the next slot number `a`; and each
task above a level will be moved to the slot of its number in this level. -/
def Sound : (P a : ℕ) → List (TimingWheelTool α) → TimingTaskMap α → Prop
  | P, a, [], m => m.pos = a ∧ ∀ e ∈ m.entries, a ≤ e.1 ∧ e.2.tickCount / P = e.1
  | P, a, w :: ws, m => LevelSound P a w ∧
    (∀ τ ∈ pending ws m, slot w.wheel.length w.scale τ.tickCount =
      some (τ.tickCount / P % w.wheel.length)) ∧
    Sound (P * w.wheel.length) (a / w.wheel.length + 1) ws m

/-- The sizes of the levels. -/
def sizesOf (ws : List (TimingWheelTool α)) : List ℕ := ws.map fun w => w.wheel.length

@[simp] theorem sizesOf_nil : sizesOf ([] : List (TimingWheelTool α)) = [] := rfl

@[simp] theorem sizesOf_cons (w : TimingWheelTool α) (ws : List (TimingWheelTool α)) :
    sizesOf (w :: ws) = w.wheel.length :: sizesOf ws := rfl

theorem sizesOf_initLevels (sizes : List ℕ) :
    ∀ ii c, sizesOf (initLevels (α := α) ii c sizes) = sizes := by
  induction sizes with
  | nil => intro ii c; rfl
  | cons size sizes ih => intro ii c; simp [initLevels, ih]

theorem sound_initLevels_succ {sizes : List ℕ} (hsizes : ∀ n ∈ sizes, 2 ≤ n) :
    ∀ ii P, Sound slot P 1 (initLevels (α := α) (ii + 1) (P % 2 ^ 64) sizes) initTaskMap := by
  induction sizes with
  | nil => intro ii P; simp [Sound, initLevels, initTaskMap]
  | cons size sizes ih =>
    intro ii P
    have hsize : 2 ≤ size := hsizes size List.mem_cons_self
    have hnext := ih (fun n hn => hsizes n (List.mem_cons_of_mem _ hn)) (ii + 1) (P * size)
    refine ⟨⟨by simpa using hsize, by simp [Nat.mod_mul_mod], ?_, ?_⟩, ?_, ?_⟩
    · simp [Nat.mod_eq_of_lt (show 1 < size by omega)]
    · intro p ts hts τ hτ
      rw [List.eq_of_mem_replicate (List.mem_of_getElem? hts)] at hτ
      simp at hτ
    · simp [pending_initLevels]
    · simpa [Nat.mod_mul_mod, Nat.div_eq_of_lt (show 1 < size by omega)] using hnext

/-- `Initialize` makes sound levels. -/
theorem sound_init {size : ℕ} {sizes : List ℕ} (hsizes : ∀ n ∈ size :: sizes, 2 ≤ n) :
    Sound slot 1 0 (initLevels (α := α) 0 1 (size :: sizes)) initTaskMap := by
  have hsize : 2 ≤ size := hsizes size List.mem_cons_self
  have hnext := sound_initLevels_succ (α := α) slot
    (fun n hn => hsizes n (List.mem_cons_of_mem _ hn)) 0 size
  refine ⟨⟨by simpa using hsize, by simp, by simp, ?_⟩, ?_, ?_⟩
  · intro p ts hts τ hτ
    rw [List.eq_of_mem_replicate (List.mem_of_getElem? hts)] at hτ
    simp at hτ
  · simp [pending_initLevels]
  · simpa using hnext

/-- What is popped from the next level belongs to the window that begins now. -/
theorem window_of_div_eq {n a k : ℕ} (h : a % n + 1 = n) (hk : k / n = a / n + 1) :
    a + 1 ≤ k ∧ k < a + 1 + n := by
  have ha := Nat.div_add_mod a n
  have hk' := Nat.div_add_mod k n
  have hlt : k % n < n := Nat.mod_lt _ (by omega)
  rw [hk, Nat.mul_succ] at hk'
  omega

theorem succ_div_mod_of_wrap {n a : ℕ} (h : a % n + 1 = n) :
    (a + 1) / n = a / n + 1 ∧ (a + 1) % n = 0 := by
  refine (Nat.div_mod_unique (by omega)).2 ⟨?_, by omega⟩
  have := Nat.div_add_mod a n
  rw [Nat.mul_succ]
  omega

theorem succ_div_mod_of_lt {n a : ℕ} (h : a % n + 1 < n) :
    (a + 1) / n = a / n ∧ (a + 1) % n = a % n + 1 := by
  refine (Nat.div_mod_unique (by omega)).2 ⟨?_, h⟩
  have := Nat.div_add_mod a n
  omega

theorem tick_sound {ws : List (TimingWheelTool α)} {m : TimingTaskMap α} :
    ∀ {P a}, Sound slot P a ws m → ∃ out ws' m', tick slot ws m = some (out, ws', m') ∧
      Sound slot P (a + 1) ws' m' ∧ sizesOf ws' = sizesOf ws ∧
      (pending ws m).Perm (out ++ pending ws' m') ∧ ∀ τ ∈ out, τ.tickCount / P = a := by
  induction ws generalizing m with
  | nil =>
    intro P a h
    obtain ⟨hpos, hent⟩ := h
    refine ⟨_, _, _, rfl, ⟨?_, ?_⟩, rfl, ?_, ?_⟩
    · simp [hpos]
    · intro e he
      simp only [TimingTaskMap.erase, List.mem_filter, decide_eq_true_eq] at he
      obtain ⟨hlo, hkey⟩ := hent e he.1
      exact ⟨by omega, hkey⟩
    · simp only [TimingTaskMap.find, TimingTaskMap.erase, pending_nil, ← List.map_append]
      refine List.Perm.map _ ?_
      simpa using (List.filter_append_perm (fun e => decide (e.1 = m.pos)) m.entries).symm
    · intro τ hτ
      simp only [TimingTaskMap.find, List.mem_map, List.mem_filter, decide_eq_true_eq] at hτ
      obtain ⟨e, ⟨he, hkey⟩, rfl⟩ := hτ
      rw [(hent e he).2, hkey, hpos]
  | cons w ws ih =>
    intro P a h
    obtain ⟨hw, hslot, hws⟩ := h
    obtain ⟨ts, hts, hdue, hperm, hw'⟩ := hw.pop
    have hlen := hw.two_le
    have hmod : a % w.wheel.length < w.wheel.length := Nat.mod_lt _ (by omega)
    rw [tick, hts]
    simp only [Option.bind_eq_bind, Option.bind_some, List.length_set]
    by_cases hcur : w.currentPos + 1 = w.wheel.length
    · -- the position wraps: what the next level pops is the coming window of this one
      have hwrap := hcur
      rw [hw.pos_eq] at hwrap
      obtain ⟨hdiv, hzero⟩ := succ_div_mod_of_wrap hwrap
      obtain ⟨borrowed, ws', m', htick, hws', hsizes, hperm', hdue'⟩ := ih hws
      rw [hzero] at hw'
      have hwin : ∀ τ ∈ borrowed, a + 1 ≤ τ.tickCount / P ∧
          τ.tickCount / P < a + 1 + w.wheel.length := by
        intro τ hτ
        have := hdue' τ hτ
        rw [← Nat.div_div_eq_div_mul] at this
        exact window_of_div_eq hwrap this
      obtain ⟨w₁, hspread, hw₁, hlen₁, hscale₁, hperm₁⟩ := hw'.respread slot
        (fun τ hτ => by simpa using hwin τ hτ)
        (fun τ hτ => by simpa using hslot τ (hperm'.mem_iff.2 (List.mem_append_left _ hτ)))
      simp only [List.length_set] at hlen₁ hscale₁
      rw [if_pos hcur, htick]
      simp only [Option.bind_some]
      rw [hspread]
      refine ⟨_, _, _, rfl, ⟨hw₁, ?_, ?_⟩, ?_, ?_, hdue⟩
      · intro τ hτ
        rw [hlen₁, hscale₁]
        exact hslot τ (hperm'.mem_iff.2 (List.mem_append_right _ hτ))
      · rwa [hlen₁, hdiv]
      · simp [hlen₁, hsizes]
      · refine (hperm.append hperm').trans ?_
        have hrest := hperm₁.symm.append_right (pending ws' m')
        simpa using hrest.append_left ts
    · have hlt : a % w.wheel.length + 1 < w.wheel.length := by
        rw [hw.pos_eq] at hcur
        omega
      obtain ⟨hdiv, hsucc⟩ := succ_div_mod_of_lt hlt
      rw [if_neg hcur]
      refine ⟨_, _, _, rfl, ⟨?_, ?_, ?_⟩, ?_, ?_, hdue⟩
      · rwa [hsucc, ← hw.pos_eq] at hw'
      · simpa using hslot
      · simpa [hdiv] using hws
      · simp
      · simpa using hperm.append_right (pending ws m)

/-- No pending task has been passed by. -/
theorem Sound.le_of_mem_pending {ws : List (TimingWheelTool α)} {m : TimingTaskMap α} :
    ∀ {P a}, Sound slot P a ws m → ∀ τ ∈ pending ws m, a ≤ τ.tickCount / P := by
  induction ws with
  | nil =>
    intro P a h τ hτ
    obtain ⟨e, he, rfl⟩ := List.mem_map.1 hτ
    obtain ⟨hlo, hkey⟩ := h.2 e he
    rwa [hkey]
  | cons w ws ih =>
    intro P a h τ hτ
    obtain ⟨hw, _, hws⟩ := h
    have hlen := hw.two_le
    rcases List.mem_append.1 hτ with hτ | hτ
    · obtain ⟨ts, hts, hτ⟩ := List.mem_flatten.1 hτ
      obtain ⟨p, hp⟩ := List.mem_iff_getElem?.1 hts
      exact (hw.window p ts hp τ hτ).1
    · have hnext := ih hws τ hτ
      rw [← Nat.div_div_eq_div_mul] at hnext
      have hlt : a / w.wheel.length < τ.tickCount / P / w.wheel.length := hnext
      exact (Nat.lt_of_div_lt_div hlt).le

/-! ### A task finds its level -/

/-- On the way down the levels from weight `P` on, `ExecuteAt` comes to a level whose window holds
the number of the task and computes that number; and the levels it passes will move the task to
the right slot. -/
def OnTime (pos : (diff x : ℕ) → ℕ) (T : ℕ) : (P a diff x : ℕ) → List (TimingWheelTool α) → Prop
  | P, a, diff, x, [] => a ≤ T / P ∧ pos diff x = T / P
  | P, a, diff, x, w :: ws =>
    if diff < w.wheel.length then
      a ≤ T / P ∧ T / P < a + w.wheel.length ∧ pos diff x = T / P
    else
      slot w.wheel.length w.scale T = some (T / P % w.wheel.length) ∧
        OnTime pos T (P * w.wheel.length) (a / w.wheel.length + 1) (diff / w.wheel.length)
          (x / w.wheel.length) ws

theorem executeAtLoop_sound {pos : (diff x : ℕ) → ℕ} {τ : TaskWithTimestamp α}
    {ws : List (TimingWheelTool α)} {m : TimingTaskMap α} : ∀ {P a diff x},
    Sound slot P a ws m → OnTime slot pos τ.tickCount P a diff x ws →
    ∃ ws' m', executeAtLoop pos τ diff x ws m = some (ws', m') ∧ Sound slot P a ws' m' ∧
      sizesOf ws' = sizesOf ws ∧ (pending ws' m').Perm (pending ws m ++ [τ]) := by
  induction ws with
  | nil =>
    intro P a diff x h ht
    obtain ⟨hlo, hpos⟩ := ht
    refine ⟨_, _, rfl, ⟨h.1, ?_⟩, rfl, by simp [TimingTaskMap.emplaceBack]⟩
    intro e he
    rcases List.mem_append.1 he with he | he
    · exact h.2 e he
    · rw [List.mem_singleton.1 he, hpos]
      exact ⟨hlo, rfl⟩
  | cons w ws ih =>
    intro P a diff x h ht
    obtain ⟨hw, hslot, hws⟩ := h
    have hlen := hw.two_le
    rw [executeAtLoop]
    rw [OnTime] at ht
    by_cases hdiff : diff < w.wheel.length
    · rw [if_pos hdiff] at ht
      obtain ⟨hlo, hhi, hpos⟩ := ht
      obtain ⟨w', hw', hs', hlen', hscale', hperm'⟩ := hw.emplaceBack hlo hhi
      have hmod : umod (pos diff x) w.wheel.length = some (τ.tickCount / P % w.wheel.length) := by
        rw [umod, if_neg (by omega), hpos]
      simp only [if_pos hdiff, hmod, Option.bind_eq_bind, Option.bind_some, hw']
      refine ⟨_, _, rfl, ⟨hs', ?_, ?_⟩, ?_, ?_⟩
      · rwa [hlen', hscale']
      · rwa [hlen']
      · simp [hlen']
      · refine (hperm'.append_right (pending ws m)).trans ?_
        simpa using (List.perm_append_singleton τ (pending ws m)).symm.append_left w.wheel.flatten
    · rw [if_neg hdiff] at ht
      obtain ⟨ws', m', hloop, hs', hsizes', hperm'⟩ := ih hws ht.2
      simp only [if_neg hdiff, hloop]
      refine ⟨_, _, rfl, ⟨hw, ?_, hs'⟩, by simp [hsizes'], ?_⟩
      · intro σ hσ
        rcases List.mem_append.1 (hperm'.mem_iff.1 hσ) with hσ | hσ
        · exact hslot σ hσ
        · rw [List.mem_singleton.1 hσ]
          exact ht.1
      · simpa using hperm'.append_left w.wheel.flatten

/-! ### The wheel refines an alarm queue -/

/-- The levels and the map hold what an alarm queue holds. -/
structure WheelRefines (o : WheelOptions) (ws : List (TimingWheelTool α)) (m : TimingTaskMap α)
    (q : AlarmQueue (TaskWithTimestamp α)) : Prop where
  sound : Sound slot 1 q.now ws m
  sizes : sizesOf ws = o.wheelSize
  pending_eq : (pending ws m : Multiset (TaskWithTimestamp α)) = q.pending

theorem wheelRefines_init (o : WheelOptions) :
    WheelRefines slot o (initLevels (α := α) 0 1 o.wheelSize) initTaskMap AlarmQueue.init := by
  refine ⟨?_, sizesOf_initLevels _ _ _, by simp [pending_initLevels, AlarmQueue.init]⟩
  cases hsize : o.wheelSize with
  | nil => exact absurd hsize o.wheelSize_ne
  | cons size sizes => exact sound_init slot (hsize ▸ o.two_le)

variable {slot} {o : WheelOptions} {ws : List (TimingWheelTool α)} {m : TimingTaskMap α}
  {q : AlarmQueue (TaskWithTimestamp α)}

theorem WheelRefines.tick (h : WheelRefines slot o ws m q) :
    ∃ out ws' m', Executor.tick slot ws m = some (out, ws', m') ∧
      (out : Multiset _) = q.dueNow (·.tickCount) ∧
      WheelRefines slot o ws' m' (q.tick (·.tickCount)) := by
  obtain ⟨out, ws', m', htick, hs', hsizes, hperm, hdue⟩ := tick_sound slot h.sound
  have hout : ∀ τ ∈ (out : Multiset (TaskWithTimestamp α)), τ.tickCount = q.now := by
    simpa using hdue
  have hrest : ∀ τ ∈ (pending ws' m' : Multiset (TaskWithTimestamp α)), τ.tickCount ≠ q.now := by
    intro τ hτ
    have := hs'.le_of_mem_pending slot τ hτ
    simp only [Nat.div_one] at this
    omega
  have hsplit : q.pending = ↑out + ↑(pending ws' m') := by
    rw [← h.pending_eq, Multiset.coe_add]
    exact Multiset.coe_eq_coe.2 hperm
  refine ⟨out, ws', m', htick, ?_, ⟨hs', hsizes.trans h.sizes, ?_⟩⟩
  · rw [AlarmQueue.dueNow, hsplit, Multiset.filter_add, Multiset.filter_eq_self.2 hout,
      Multiset.filter_eq_nil.2 hrest, Multiset.add_zero]
  · rw [AlarmQueue.tick, hsplit, Multiset.filter_add, Multiset.filter_eq_self.2 hrest,
      Multiset.filter_eq_nil.2 fun τ hτ => not_not.2 (hout τ hτ), Multiset.zero_add]

theorem WheelRefines.executeAtLoop (h : WheelRefines slot o ws m q) {pos : (diff x : ℕ) → ℕ}
    {τ : TaskWithTimestamp α} {diff x : ℕ} (ht : OnTime slot pos τ.tickCount 1 q.now diff x ws) :
    ∃ ws' m', Executor.executeAtLoop pos τ diff x ws m = some (ws', m') ∧
      WheelRefines slot o ws' m' (q.add τ) := by
  obtain ⟨ws', m', hloop, hs', hsizes, hperm⟩ := executeAtLoop_sound slot h.sound ht
  refine ⟨ws', m', hloop, hs', hsizes.trans h.sizes, ?_⟩
  rw [AlarmQueue.add, ← h.pending_eq, Multiset.coe_eq_coe.2 hperm]
  simp

/-- Two levels of three and two slots, and a tick of one nanosecond. -/
def wheel32 : WheelOptions where
  dtCount := 1
  wheelSize := [3, 2]
  startTimePoint := 0
  dtCount_pos := by decide
  wheelSize_ne := by decide
  two_le := by decide

end AimRT.Executor

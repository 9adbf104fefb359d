import AimRT.Executor.TimingWheel

/-!
# When the tasks of a timing wheel come out

Whatever is in a timing wheel, the levels turn in the same way: the next slot of a level has the number `a`, and the
level above is at `a / size + 1`.  So it is settled for each task in a slot when it comes out, whether that is the tick
it is meant for or another one: it leaves its level under the first number from `a` on that has its slot (`numberFrom`),
comes to the slot that `borrow_func` computes for it, and goes on from there (`lower`).  A task that the map keeps under
a key below its position stays there.

`dues` lists the tasks with these ticks.  `tick_placed` and `executeAtLoop_placed` are the step lemmas; no task has to
be in the right place for them, only the slots that `borrow_func` computes must exist.
-/

namespace AimRT.Executor

open AimRT.Lib

variable {α : Type}

/-! ### Numbers of a slot -/

/-- The first number from `a` on that has the slot `p`, of `n` slots. -/
def numberFrom (a n p : ℕ) : ℕ := a + (p + (n - a % n)) % n

variable {a n p k : ℕ}

theorem numberFrom_lt (hn : 0 < n) : numberFrom a n p < a + n :=
  Nat.add_lt_add_left (Nat.mod_lt _ hn) a

theorem numberFrom_mod (hp : p < n) : numberFrom a n p % n = p := by
  have hdiv := Nat.div_add_mod a n
  have hlt : a % n < n := Nat.mod_lt _ (by omega)
  have hsum : a + (p + (n - a % n)) = p + n * (a / n + 1) := by
    rw [Nat.mul_succ]
    omega
  rw [numberFrom, Nat.add_mod_mod, hsum, Nat.add_mul_mod_self_left, Nat.mod_eq_of_lt hp]

/-- The numbers of a window of `n` are told apart by their slots. -/
theorem numberFrom_eq (hn : 0 < n) (hlo : a ≤ k) (hhi : k < a + n) : numberFrom a n (k % n) = k := by
  have hmod : numberFrom a n (k % n) % n = k % n := numberFrom_mod (Nat.mod_lt _ hn)
  have hge : a ≤ numberFrom a n (k % n) := Nat.le_add_right _ _
  have hlt : numberFrom a n (k % n) < a + n := numberFrom_lt hn
  rcases Nat.le_total k (numberFrom a n (k % n)) with hle | hle
  · exact eq_of_mod_eq hle (by omega) hmod
  · exact (eq_of_mod_eq hle (by omega) hmod.symm).symm

/-- A slot that is not the next one keeps its number. -/
theorem numberFrom_succ (hp : p < n) (hne : p ≠ a % n) : numberFrom (a + 1) n p = numberFrom a n p := by
  have hmod : numberFrom a n p % n = p := numberFrom_mod hp
  have hge : a ≤ numberFrom a n p := Nat.le_add_right _ _
  have hlt : numberFrom a n p < a + n := numberFrom_lt (by omega)
  have hnext : a ≠ numberFrom a n p := by
    intro heq
    rw [← heq] at hmod
    exact hne hmod.symm
  have hsame := numberFrom_eq (n := n) (a := a + 1) (k := numberFrom a n p) (by omega) (by omega) (by omega)
  rwa [hmod] at hsame

/-- A slot of the window that begins. -/
theorem numberFrom_wrap (hwrap : a % n = 0) (hp : p < n) : numberFrom a n p = a + p := by
  rw [numberFrom, hwrap, Nat.sub_zero, Nat.add_mod_right, Nat.mod_eq_of_lt hp]

/-! ### The ticks at which tasks come out -/

/-- The tasks of a level whose next slot has the number `a`, each with the tick at which it comes out, where a task that
leaves the level under the number `k` comes out at `down k tickCount`. -/
def TimingWheelTool.dues (down : ℕ → ℕ → ℕ) (a : ℕ) (w : TimingWheelTool α) : List (ℕ × TaskWithTimestamp α) :=
  (w.wheel.mapIdx fun p ts => ts.map fun τ => (down (numberFrom a w.wheel.length p) τ.tickCount, τ)).flatten

variable (slot : (size scale tickCount : ℕ) → Option ℕ)

/-- A task that leaves the level above under the number `k` comes to a slot of this one, and leaves it from there. -/
def lower (size scale : ℕ) (down : ℕ → ℕ → ℕ) (k tickCount : ℕ) : ℕ :=
  down (k * size + (slot size scale tickCount).getD 0) tickCount

/-- All tasks that will come out. -/
def dues : (down : ℕ → ℕ → ℕ) → (a : ℕ) → List (TimingWheelTool α) → TimingTaskMap α →
    List (ℕ × TaskWithTimestamp α)
  | down, _, [], m => (m.entries.filter fun e => m.pos ≤ e.1).map fun e => (down e.1 e.2.tickCount, e.2)
  | down, a, w :: ws, m =>
    w.dues down a ++ dues (lower slot w.wheel.length w.scale down) (a / w.wheel.length + 1) ws m

theorem dues_nil (down : ℕ → ℕ → ℕ) (a : ℕ) (m : TimingTaskMap α) : dues slot down a [] m =
    (m.entries.filter fun e => m.pos ≤ e.1).map fun e => (down e.1 e.2.tickCount, e.2) := rfl

theorem dues_cons (down : ℕ → ℕ → ℕ) (a : ℕ) (w : TimingWheelTool α) (ws : List (TimingWheelTool α))
    (m : TimingTaskMap α) : dues slot down a (w :: ws) m =
      w.dues down a ++ dues slot (lower slot w.wheel.length w.scale down) (a / w.wheel.length + 1) ws m := rfl

/-- A level of weight `P` whose next slot has the number `a`, whatever is in it. -/
structure LevelPlaced (P a : ℕ) (w : TimingWheelTool α) : Prop where
  two_le : 2 ≤ w.wheel.length
  scale_eq : w.scale = P * w.wheel.length % 2 ^ 64
  pos_eq : w.currentPos = a % w.wheel.length

/-- `borrow_func` computes a slot that the level has. -/
def HasSlot (size scale tickCount : ℕ) : Prop := ∃ i < size, slot size scale tickCount = some i

/-- The levels are placed, and the tasks above a level have a slot in it. -/
def Placed : (down : ℕ → ℕ → ℕ) → (P a : ℕ) → List (TimingWheelTool α) → TimingTaskMap α → Prop
  | _, _, a, [], m => m.pos = a
  | down, P, a, w :: ws, m => LevelPlaced P a w ∧
    (∀ e ∈ dues slot (lower slot w.wheel.length w.scale down) (a / w.wheel.length + 1) ws m,
      HasSlot slot w.wheel.length w.scale e.2.tickCount) ∧
    Placed (lower slot w.wheel.length w.scale down) (P * w.wheel.length) (a / w.wheel.length + 1) ws m

/-! ### One level -/

variable {P : ℕ} {w : TimingWheelTool α}

theorem mapIdx_modify_append {β : Type} (f : ℕ → α → β) (l : List (List α)) (i : ℕ) (b : α) :
    (l.modify i (· ++ [b])).mapIdx (fun p ts => ts.map (f p)) =
      (l.mapIdx fun p ts => ts.map (f p)).modify i (· ++ [f i b]) := by
  refine List.ext_getElem (by simp) fun j hj _ => ?_
  rw [List.getElem_mapIdx, List.getElem_modify, List.getElem_modify, List.getElem_mapIdx]
  by_cases hji : i = j
  · subst hji
    simp
  · simp [hji]

theorem LevelPlaced.emplaceBack (h : LevelPlaced P a w) (down : ℕ → ℕ → ℕ) {i : ℕ} (hi : i < w.wheel.length)
    (τ : TaskWithTimestamp α) :
    ∃ w', w.emplaceBack i τ = some w' ∧ LevelPlaced P a w' ∧ w'.wheel.length = w.wheel.length ∧
      w'.scale = w.scale ∧
      (w'.dues down a).Perm (w.dues down a ++ [(down (numberFrom a w.wheel.length i) τ.tickCount, τ)]) := by
  refine ⟨_, if_pos hi, ⟨?_, ?_, ?_⟩, by simp, rfl, ?_⟩
  · simpa using h.two_le
  · simpa using h.scale_eq
  · simpa using h.pos_eq
  · simp only [TimingWheelTool.dues, List.length_modify]
    rw [mapIdx_modify_append fun p (σ : TaskWithTimestamp α) =>
      (down (numberFrom a w.wheel.length p) σ.tickCount, σ)]
    exact flatten_modify_append (by simpa using hi) _

/-- The next slot is handed out, and the level without it is placed one slot later. -/
theorem LevelPlaced.pop (h : LevelPlaced P a w) :
    ∃ ts, w.wheel[w.currentPos]? = some ts ∧
      LevelPlaced P (a + 1) { w with
        wheel := w.wheel.set w.currentPos []
        currentPos := (a + 1) % w.wheel.length } ∧
      ∀ down, (w.dues down a).Perm (ts.map (fun τ => (down a τ.tickCount, τ)) ++
        TimingWheelTool.dues down (a + 1) { w with
          wheel := w.wheel.set w.currentPos []
          currentPos := (a + 1) % w.wheel.length }) := by
  have hlen := h.two_le
  have hpos : w.currentPos < w.wheel.length := by
    rw [h.pos_eq]
    exact Nat.mod_lt _ (by omega)
  refine ⟨_, List.getElem?_eq_getElem hpos, ⟨?_, ?_, ?_⟩, fun down => ?_⟩
  · simpa using h.two_le
  · simpa using h.scale_eq
  · simp
  · have hnext : numberFrom a w.wheel.length w.currentPos = a := by
      rw [h.pos_eq]
      exact numberFrom_eq (by omega) (Nat.le_refl a) (by omega)
    have hrest : (w.wheel.set w.currentPos []).mapIdx
          (fun p ts => ts.map fun τ => (down (numberFrom a w.wheel.length p) τ.tickCount, τ)) =
        (w.wheel.set w.currentPos []).mapIdx
          (fun p ts => ts.map fun τ => (down (numberFrom (a + 1) w.wheel.length p) τ.tickCount, τ)) := by
      refine List.ext_getElem (by simp) fun p hp _ => ?_
      simp only [List.getElem_mapIdx, List.getElem_set]
      by_cases hnow : w.currentPos = p
      · simp [hnow]
      · have hkeep : numberFrom (a + 1) w.wheel.length p = numberFrom a w.wheel.length p :=
          numberFrom_succ (by simpa using hp) (h.pos_eq ▸ Ne.symm hnow)
        rw [if_neg hnow, hkeep]
    have hsplit := flatten_set_nil (l := w.wheel.mapIdx fun p ts =>
      ts.map fun τ => (down (numberFrom a w.wheel.length p) τ.tickCount, τ)) (i := w.currentPos) (by simpa using hpos)
    simp only [TimingWheelTool.dues, List.length_set]
    rw [← hrest, List.mapIdx_set]
    simpa [hnext] using hsplit

theorem LevelPlaced.respread (h : LevelPlaced P a w) (hwrap : a % w.wheel.length = 0) (down : ℕ → ℕ → ℕ)
    {ts : TaskList α} (hslot : ∀ τ ∈ ts, HasSlot slot w.wheel.length w.scale τ.tickCount) :
    ∃ w', respread slot w ts = some w' ∧ LevelPlaced P a w' ∧ w'.wheel.length = w.wheel.length ∧
      w'.scale = w.scale ∧
      (w'.dues down a).Perm (w.dues down a ++ ts.map fun τ =>
        (down (a + (slot w.wheel.length w.scale τ.tickCount).getD 0) τ.tickCount, τ)) := by
  induction ts generalizing w with
  | nil => exact ⟨w, rfl, h, rfl, rfl, by simp⟩
  | cons τ ts ih =>
    obtain ⟨i, hi, hτ⟩ := hslot τ List.mem_cons_self
    obtain ⟨w₁, h₁, hp₁, hlen₁, hscale₁, hperm₁⟩ := h.emplaceBack down hi τ
    obtain ⟨w₂, h₂, hp₂, hlen₂, hscale₂, hperm₂⟩ := ih hp₁ (hlen₁ ▸ hwrap)
      (fun σ hσ => by rw [hlen₁, hscale₁]; exact hslot σ (List.mem_cons_of_mem _ hσ))
    refine ⟨w₂, ?_, hp₂, hlen₂.trans hlen₁, hscale₂.trans hscale₁, ?_⟩
    · simp [Executor.respread, hτ, h₁, h₂]
    · rw [hlen₁, hscale₁] at hperm₂
      rw [numberFrom_wrap hwrap hi] at hperm₁
      refine hperm₂.trans ?_
      simpa [hτ] using hperm₁.append_right (ts.map fun σ =>
        (down (a + (slot w.wheel.length w.scale σ.tickCount).getD 0) σ.tickCount, σ))

/-! ### All levels -/

theorem placed_initLevels_succ {sizes : List ℕ} (hsizes : ∀ n ∈ sizes, 2 ≤ n) : ∀ ii P down,
    Placed slot down P 1 (initLevels (α := α) (ii + 1) (P % 2 ^ 64) sizes) initTaskMap ∧
      dues slot down 1 (initLevels (α := α) (ii + 1) (P % 2 ^ 64) sizes) initTaskMap = [] := by
  induction sizes with
  | nil => intro ii P down; exact ⟨rfl, rfl⟩
  | cons size sizes ih =>
    intro ii P down
    have hsize : 2 ≤ size := hsizes size List.mem_cons_self
    obtain ⟨hplaced, hdues⟩ := ih (fun n hn => hsizes n (List.mem_cons_of_mem _ hn)) (ii + 1) (P * size)
      (lower slot size (P * size % 2 ^ 64) down)
    simp only [Nat.reducePow] at hplaced hdues
    have hone : 1 / size + 1 = 1 := by rw [Nat.div_eq_of_lt (by omega)]
    refine ⟨⟨⟨by simpa using hsize, by simp [Nat.mod_mul_mod], ?_⟩, ?_, ?_⟩, ?_⟩
    · simp [Nat.mod_eq_of_lt (show 1 < size by omega)]
    · simp [hone, Nat.mod_mul_mod, hdues]
    · simpa [hone, Nat.mod_mul_mod] using hplaced
    · simp [initLevels, dues_cons, hone, Nat.mod_mul_mod, hdues, TimingWheelTool.dues]

/-- `Initialize` places the levels. -/
theorem placed_init {size : ℕ} {sizes : List ℕ} (hsizes : ∀ n ∈ size :: sizes, 2 ≤ n) (down : ℕ → ℕ → ℕ) :
    Placed slot down 1 0 (initLevels (α := α) 0 1 (size :: sizes)) initTaskMap ∧
      dues slot down 0 (initLevels (α := α) 0 1 (size :: sizes)) initTaskMap = [] := by
  have hsize : 2 ≤ size := hsizes size List.mem_cons_self
  obtain ⟨hplaced, hdues⟩ := placed_initLevels_succ (α := α) slot
    (fun n hn => hsizes n (List.mem_cons_of_mem _ hn)) 0 size (lower slot size (size % 2 ^ 64) down)
  simp only [Nat.reducePow, Nat.zero_add] at hplaced hdues
  refine ⟨⟨⟨by simpa using hsize, by simp, by simp⟩, ?_, ?_⟩, ?_⟩
  · simp [hdues]
  · simpa using hplaced
  · simp [initLevels, dues_cons, hdues, TimingWheelTool.dues]

/-- The map hands out what it keeps under the key of its position. -/
theorem dues_map (down : ℕ → ℕ → ℕ) (m : TimingTaskMap α) :
    (dues slot down m.pos [] m).Perm ((m.find m.pos).map (fun τ => (down m.pos τ.tickCount, τ)) ++
      dues slot down (m.pos + 1) [] { m.erase m.pos with pos := m.pos + 1 }) := by
  have hsplit := List.filter_append_perm (fun e => decide (e.1 = m.pos)) (m.entries.filter fun e => m.pos ≤ e.1)
  have hnow : ((m.entries.filter fun e => m.pos ≤ e.1).filter fun e => decide (e.1 = m.pos)) =
      m.entries.filter fun e => decide (e.1 = m.pos) := by
    rw [List.filter_filter]
    refine List.filter_congr fun e _ => ?_
    rw [← Bool.decide_and, decide_eq_decide]
    omega
  have hlater : ((m.entries.filter fun e => m.pos ≤ e.1).filter fun e => !decide (e.1 = m.pos)) =
      (m.entries.filter fun e => e.1 ≠ m.pos).filter fun e => m.pos + 1 ≤ e.1 := by
    rw [List.filter_filter, List.filter_filter]
    refine List.filter_congr fun e _ => ?_
    rw [← decide_not, ← Bool.decide_and, ← Bool.decide_and, decide_eq_decide]
    omega
  rw [hnow, hlater] at hsplit
  refine (hsplit.symm.map fun e => (down e.1 e.2.tickCount, e.2)).trans (List.Perm.of_eq ?_)
  rw [List.map_append, TimingTaskMap.find, List.map_map]
  refine congrArg (· ++ _) (List.map_congr_left fun e he => ?_)
  simp only [Function.comp_apply, Prod.mk.injEq, and_true]
  rw [of_decide_eq_true (List.mem_filter.1 he).2]

/-- **A tick** hands out what is due at it. -/
theorem tick_placed {ws : List (TimingWheelTool α)} {m : TimingTaskMap α} :
    ∀ {down P a}, Placed slot down P a ws m → ∃ out ws' m', tick slot ws m = some (out, ws', m') ∧
      Placed slot down P (a + 1) ws' m' ∧ sizesOf ws' = sizesOf ws ∧
      (dues slot down a ws m).Perm
        (out.map (fun τ => (down a τ.tickCount, τ)) ++ dues slot down (a + 1) ws' m') := by
  induction ws generalizing m with
  | nil =>
    intro down P a hpos
    obtain rfl : m.pos = a := hpos
    exact ⟨_, _, _, rfl, rfl, rfl, dues_map slot down m⟩
  | cons w ws ih =>
    intro down P a h
    obtain ⟨hw, hslot, hws⟩ := h
    obtain ⟨ts, hts, hw', hperm⟩ := hw.pop
    have hlen := hw.two_le
    have hmod : a % w.wheel.length < w.wheel.length := Nat.mod_lt _ (by omega)
    rw [tick, hts]
    simp only [Option.bind_eq_bind, Option.bind_some, List.length_set]
    by_cases hcur : w.currentPos + 1 = w.wheel.length
    · -- the position wraps: what the level above hands out comes to the slots of the window that begins
      have hwrap := hcur
      rw [hw.pos_eq] at hwrap
      obtain ⟨hdiv, hzero⟩ := succ_div_mod_of_wrap hwrap
      obtain ⟨borrowed, ws', m', htick, hws', hsizes, hperm'⟩ := ih hws
      rw [hzero] at hw' hperm
      have hmul : a + 1 = (a / w.wheel.length + 1) * w.wheel.length := by
        rw [← hdiv, Nat.div_mul_cancel (Nat.dvd_of_mod_eq_zero hzero)]
      have hborrowed : ∀ τ ∈ borrowed, HasSlot slot w.wheel.length w.scale τ.tickCount := fun τ hτ =>
        hslot _ (hperm'.mem_iff.2 (List.mem_append_left _ (List.mem_map_of_mem hτ)))
      obtain ⟨w₁, hspread, hw₁, hlen₁, hscale₁, hperm₁⟩ :=
        hw'.respread slot (by simpa using hzero) down (by simpa using hborrowed)
      simp only [List.length_set] at hlen₁ hscale₁
      rw [if_pos hcur, htick]
      simp only [Option.bind_some]
      rw [hspread]
      refine ⟨_, _, _, rfl, ⟨hw₁, ?_, ?_⟩, ?_, ?_⟩
      · intro e he
        rw [hlen₁, hscale₁, hdiv] at he
        rw [hlen₁, hscale₁]
        exact hslot e (hperm'.mem_iff.2 (List.mem_append_right _ he))
      · rwa [hlen₁, hscale₁, hdiv]
      · simp [hlen₁, hsizes]
      · rw [dues_cons, dues_cons, hlen₁, hscale₁, hdiv]
        refine ((hperm down).append hperm').trans ?_
        have hrest := hperm₁.symm.append_right
          (dues slot (lower slot w.wheel.length w.scale down) (a / w.wheel.length + 1 + 1) ws' m')
        simp only [List.length_set, hmul] at hrest ⊢
        simpa [lower] using hrest.append_left (ts.map fun τ => (down a τ.tickCount, τ))
    · have hlt : a % w.wheel.length + 1 < w.wheel.length := by
        rw [hw.pos_eq] at hcur
        omega
      obtain ⟨hdiv, hsucc⟩ := succ_div_mod_of_lt hlt
      rw [if_neg hcur]
      refine ⟨_, _, _, rfl, ⟨?_, ?_, ?_⟩, ?_, ?_⟩
      · rwa [hsucc, ← hw.pos_eq] at hw'
      · simpa [hdiv] using hslot
      · simpa [hdiv] using hws
      · simp
      · rw [hsucc, ← hw.pos_eq] at hperm
        simpa [dues_cons, hdiv] using (hperm down).append_right
          (dues slot (lower slot w.wheel.length w.scale down) (a / w.wheel.length + 1) ws m)

/-- What comes out later leaves its level under a number that is still to come. -/
theorem exists_le_of_mem_dues {ws : List (TimingWheelTool α)} {m : TimingTaskMap α} :
    ∀ {down P a}, Placed slot down P a ws m → ∀ e ∈ dues slot down a ws m, ∃ k, a ≤ k ∧ e.1 = down k e.2.tickCount := by
  induction ws with
  | nil =>
    intro down P a hpos e he
    obtain ⟨entry, hentry, rfl⟩ := List.mem_map.1 he
    obtain rfl : m.pos = a := hpos
    exact ⟨entry.1, of_decide_eq_true (List.mem_filter.1 hentry).2, rfl⟩
  | cons w ws ih =>
    intro down P a h e he
    obtain ⟨hw, -, hws⟩ := h
    have hlen := hw.two_le
    rcases List.mem_append.1 he with he | he
    · obtain ⟨l, hl, hel⟩ := List.mem_flatten.1 he
      obtain ⟨p, hp, rfl⟩ := List.mem_mapIdx.1 hl
      obtain ⟨τ, -, rfl⟩ := List.mem_map.1 hel
      exact ⟨numberFrom a w.wheel.length p, Nat.le_add_right _ _, rfl⟩
    · obtain ⟨k, hk, hek⟩ := ih hws e he
      refine ⟨_, ?_, hek⟩
      have hdiv := Nat.div_add_mod a w.wheel.length
      have hmod : a % w.wheel.length < w.wheel.length := Nat.mod_lt _ (by omega)
      have hmul : (a / w.wheel.length + 1) * w.wheel.length ≤ k * w.wheel.length := Nat.mul_le_mul_right _ hk
      rw [Nat.succ_mul, Nat.mul_comm] at hmul
      omega

/-- The position of the map when the next slot of the first level has the number `a`. -/
def mapPos : (a : ℕ) → (sizes : List ℕ) → ℕ
  | a, [] => a
  | a, size :: sizes => mapPos (a / size + 1) sizes

theorem pos_eq_of_placed {ws : List (TimingWheelTool α)} {m : TimingTaskMap α} :
    ∀ {down P a}, Placed slot down P a ws m → m.pos = mapPos a (sizesOf ws) := by
  induction ws with
  | nil => exact fun h => h
  | cons w ws ih => exact fun h => ih h.2.2

/-! ### Scheduling -/

variable (pos : (diff x : ℕ) → ℕ)

/-- The tick at which a task comes out that is given to `ExecuteAt`, from the level of weight `P` on whose next slot has
the number `a`; none where the map keeps it below its position. -/
def dueAt (tickCount : ℕ) : (down : ℕ → ℕ → ℕ) → (P a diff x : ℕ) → (sizes : List ℕ) → Option ℕ
  | down, _, a, diff, x, [] => if a ≤ pos diff x then some (down (pos diff x) tickCount) else none
  | down, P, a, diff, x, size :: sizes =>
    if diff < size then some (down (numberFrom a size (pos diff x % size)) tickCount)
    else dueAt tickCount (lower slot size (P * size % 2 ^ 64) down) (P * size) (a / size + 1) (diff / size) (x / size)
      sizes

section DueAt

variable (tickCount : ℕ) (down : ℕ → ℕ → ℕ) (P a diff x size : ℕ) (sizes : List ℕ)

theorem dueAt_nil : dueAt slot pos tickCount down P a diff x [] =
    if a ≤ pos diff x then some (down (pos diff x) tickCount) else none := rfl

theorem dueAt_cons : dueAt slot pos tickCount down P a diff x (size :: sizes) =
    if diff < size then some (down (numberFrom a size (pos diff x % size)) tickCount)
    else dueAt slot pos tickCount (lower slot size (P * size % 2 ^ 64) down) (P * size) (a / size + 1) (diff / size)
      (x / size) sizes := rfl

end DueAt

/-- The levels that `ExecuteAt` passes have a slot for the task. -/
def HasSlots (tickCount : ℕ) : (P diff : ℕ) → (sizes : List ℕ) → Prop
  | _, _, [] => True
  | P, diff, size :: sizes =>
    diff < size ∨
      HasSlot slot size (P * size % 2 ^ 64) tickCount ∧ HasSlots tickCount (P * size) (diff / size) sizes

theorem executeAtLoop_placed {τ : TaskWithTimestamp α} {ws : List (TimingWheelTool α)} {m : TimingTaskMap α} :
    ∀ {down P a diff x}, Placed slot down P a ws m →
    ((dueAt slot pos τ.tickCount down P a diff x (sizesOf ws)).isSome = true →
      HasSlots slot τ.tickCount P diff (sizesOf ws)) →
    ∃ ws' m', executeAtLoop pos τ diff x ws m = some (ws', m') ∧ Placed slot down P a ws' m' ∧
      sizesOf ws' = sizesOf ws ∧
      (dues slot down a ws' m').Perm (dues slot down a ws m ++
        (dueAt slot pos τ.tickCount down P a diff x (sizesOf ws)).toList.map fun d => (d, τ)) := by
  induction ws with
  | nil =>
    intro down P a diff x hpos _
    refine ⟨_, _, rfl, hpos, rfl, List.Perm.of_eq ?_⟩
    obtain rfl : m.pos = a := hpos
    show ((m.entries ++ [(pos diff x, τ)]).filter fun e => decide (m.pos ≤ e.1)).map _ = _
    simp only [dues_nil, List.filter_append, List.map_append, sizesOf_nil, dueAt_nil]
    split_ifs with hle <;> simp [hle]
  | cons w ws ih =>
    intro down P a diff x h hslots
    obtain ⟨hw, hslot, hws⟩ := h
    have hlen := hw.two_le
    rw [executeAtLoop]
    rw [sizesOf_cons, dueAt_cons, ← hw.scale_eq] at hslots ⊢
    by_cases hdiff : diff < w.wheel.length
    · have hmod : pos diff x % w.wheel.length < w.wheel.length := Nat.mod_lt _ (by omega)
      obtain ⟨w', hw', hp', hlen', hscale', hperm'⟩ := hw.emplaceBack down hmod τ
      simp only [if_pos hdiff, umod, if_neg (show w.wheel.length ≠ 0 by omega), Option.bind_eq_bind, Option.bind_some,
        hw']
      refine ⟨_, _, rfl, ⟨hp', ?_, ?_⟩, ?_, ?_⟩
      · rwa [hlen', hscale']
      · rwa [hlen', hscale']
      · simp [hlen']
      · rw [dues_cons, dues_cons, hlen', hscale']
        refine (hperm'.append_right _).trans ?_
        simpa using (List.perm_append_singleton _ _).symm.append_left (w.dues down a)
    · rw [if_neg hdiff] at hslots ⊢
      obtain ⟨ws', m', hloop, hp', hsizes', hperm'⟩ := ih hws fun hsome => by
        obtain hlt | ⟨-, hrest⟩ := hslots hsome
        · exact absurd hlt hdiff
        · exact hrest
      simp only [if_neg hdiff, hloop]
      refine ⟨_, _, rfl, ⟨hw, ?_, hp'⟩, by simp [hsizes'], ?_⟩
      · intro e he
        rcases List.mem_append.1 (hperm'.mem_iff.1 he) with hold | hnew
        · exact hslot e hold
        · obtain ⟨d, hd, rfl⟩ := List.mem_map.1 hnew
          obtain hlt | ⟨hhas, -⟩ := hslots (Option.isSome_iff_exists.2 ⟨d, Option.mem_toList.1 hd⟩)
          · exact absurd hlt hdiff
          · rwa [← hw.scale_eq] at hhas
      · rw [dues_cons, dues_cons, List.append_assoc]
        exact hperm'.append_left (w.dues down a)

/-- A task comes out unless it passes all levels and the map is beyond its key. -/
theorem isSome_dueAt_iff {tickCount : ℕ} {sizes : List ℕ} : ∀ {down P a diff x},
    (dueAt slot pos tickCount down P a diff x sizes).isSome = true ↔
      (levelsBelow diff sizes = sizes → mapPos a sizes ≤ pos (diff / sizes.prod) (x / sizes.prod)) := by
  induction sizes with
  | nil =>
    intro down P a diff x
    simp [dueAt_nil, levelsBelow, mapPos]
  | cons size sizes ih =>
    intro down P a diff x
    rw [dueAt_cons]
    by_cases hdiff : diff < size
    · simp [levelsBelow, hdiff]
    · rw [if_neg hdiff, ih]
      simp [levelsBelow, hdiff, mapPos, Nat.div_div_eq_div_mul]

/-- A task does not come out before the next slot of its level. -/
theorem exists_le_of_dueAt {tickCount : ℕ} {sizes : List ℕ} : ∀ {down P a diff x d}, (∀ n ∈ sizes, 2 ≤ n) →
    dueAt slot pos tickCount down P a diff x sizes = some d → ∃ k, a ≤ k ∧ d = down k tickCount := by
  induction sizes with
  | nil =>
    intro down P a diff x d _ hd
    simp only [dueAt_nil, Option.ite_none_right_eq_some, Option.some.injEq] at hd
    exact ⟨_, hd.1, hd.2.symm⟩
  | cons size sizes ih =>
    intro down P a diff x d hsizes hd
    have hsize : 2 ≤ size := hsizes size List.mem_cons_self
    rw [dueAt_cons] at hd
    by_cases hdiff : diff < size
    · rw [if_pos hdiff, Option.some.injEq] at hd
      exact ⟨_, Nat.le_add_right _ _, hd.symm⟩
    · rw [if_neg hdiff] at hd
      obtain ⟨k, hk, rfl⟩ := ih (fun n hn => hsizes n (List.mem_cons_of_mem _ hn)) hd
      refine ⟨_, ?_, rfl⟩
      have hdiv := Nat.div_add_mod a size
      have hmod : a % size < size := Nat.mod_lt _ (by omega)
      have hmul : (a / size + 1) * size ≤ k * size := Nat.mul_le_mul_right _ hk
      rw [Nat.succ_mul, Nat.mul_comm] at hmul
      omega

/-! ### The wheel refines an alarm queue of these ticks -/

/-- The levels and the map hold what an alarm queue holds, under the ticks at which it comes out. -/
structure WheelKeeps (o : WheelOptions) (ws : List (TimingWheelTool α)) (m : TimingTaskMap α)
    (q : AlarmQueue (ℕ × TaskWithTimestamp α)) : Prop where
  placed : Placed slot (fun k _ => k) 1 q.now ws m
  sizes : sizesOf ws = o.wheelSize
  dues_eq : (dues slot (fun k _ => k) q.now ws m : Multiset (ℕ × TaskWithTimestamp α)) = q.pending

theorem wheelKeeps_init (o : WheelOptions) :
    WheelKeeps slot o (initLevels (α := α) 0 1 o.wheelSize) initTaskMap AlarmQueue.init := by
  cases hsize : o.wheelSize with
  | nil => exact absurd hsize o.wheelSize_ne
  | cons size sizes =>
    obtain ⟨hplaced, hdues⟩ := placed_init (α := α) slot (hsize ▸ o.two_le) fun k _ => k
    refine ⟨hplaced, ?_, ?_⟩
    · rw [hsize]
      exact sizesOf_initLevels _ _ _
    · simp [AlarmQueue.init, hdues]

variable {slot pos} {o : WheelOptions} {ws : List (TimingWheelTool α)} {m : TimingTaskMap α}
  {q : AlarmQueue (ℕ × TaskWithTimestamp α)}

theorem WheelKeeps.tick (h : WheelKeeps slot o ws m q) :
    ∃ out ws' m', Executor.tick slot ws m = some (out, ws', m') ∧
      (out.map fun τ => (q.now, τ) : Multiset (ℕ × TaskWithTimestamp α)) = q.dueNow Prod.fst ∧
      WheelKeeps slot o ws' m' (q.tick Prod.fst) := by
  obtain ⟨out, ws', m', htick, hplaced, hsizes, hperm⟩ := tick_placed slot h.placed
  have hnow : ∀ e ∈ (out.map fun τ => (q.now, τ) : Multiset (ℕ × TaskWithTimestamp α)), e.1 = q.now := by
    intro e he
    obtain ⟨τ, -, rfl⟩ := List.mem_map.1 (Multiset.mem_coe.1 he)
    rfl
  have hlater : ∀ e ∈ (dues slot (fun k _ => k) (q.now + 1) ws' m' : Multiset (ℕ × TaskWithTimestamp α)),
      e.1 ≠ q.now := by
    intro e he
    obtain ⟨k, hk, hek⟩ := exists_le_of_mem_dues slot hplaced e (Multiset.mem_coe.1 he)
    omega
  have hsplit : q.pending = (out.map fun τ => (q.now, τ) : Multiset (ℕ × TaskWithTimestamp α)) +
      dues slot (fun k _ => k) (q.now + 1) ws' m' := by
    rw [← h.dues_eq, Multiset.coe_add]
    exact Multiset.coe_eq_coe.2 hperm
  refine ⟨out, ws', m', htick, ?_, ⟨hplaced, hsizes.trans h.sizes, ?_⟩⟩
  · rw [AlarmQueue.dueNow, hsplit, Multiset.filter_add, Multiset.filter_eq_self.2 hnow,
      Multiset.filter_eq_nil.2 hlater, Multiset.add_zero]
  · rw [AlarmQueue.tick, hsplit, Multiset.filter_add, Multiset.filter_eq_self.2 hlater,
      Multiset.filter_eq_nil.2 fun e he => not_not.2 (hnow e he), Multiset.zero_add]

/-- The queue with one more task, which is not in it if it never comes out. -/
def withDue (q : AlarmQueue (ℕ × TaskWithTimestamp α)) (τ : TaskWithTimestamp α) :
    Option ℕ → AlarmQueue (ℕ × TaskWithTimestamp α)
  | none => q
  | some d => q.add (d, τ)

@[simp] theorem withDue_now (q : AlarmQueue (ℕ × TaskWithTimestamp α)) (τ : TaskWithTimestamp α) (due : Option ℕ) :
    (withDue q τ due).now = q.now := by
  cases due <;> rfl

theorem WheelKeeps.executeAtLoop (h : WheelKeeps slot o ws m q) (pos : (diff x : ℕ) → ℕ) (τ : TaskWithTimestamp α)
    (diff x : ℕ)
    (hslots : (dueAt slot pos τ.tickCount (fun k _ => k) 1 q.now diff x o.wheelSize).isSome = true →
      HasSlots slot τ.tickCount 1 diff o.wheelSize) :
    ∃ ws' m', Executor.executeAtLoop pos τ diff x ws m = some (ws', m') ∧
      WheelKeeps slot o ws' m'
        (withDue q τ (dueAt slot pos τ.tickCount (fun k _ => k) 1 q.now diff x o.wheelSize)) := by
  obtain ⟨ws', m', hloop, hplaced, hsizes, hperm⟩ :=
    executeAtLoop_placed slot pos (x := x) h.placed (by rw [h.sizes]; exact hslots)
  refine ⟨ws', m', hloop, ?_⟩
  rw [h.sizes] at hperm hsizes
  have hcoe := Multiset.coe_eq_coe.2 hperm
  cases hdue : dueAt slot pos τ.tickCount (fun k _ => k) 1 q.now diff x o.wheelSize with
  | none =>
    rw [hdue] at hcoe
    exact ⟨hplaced, hsizes, hcoe.trans (by simpa [withDue] using h.dues_eq)⟩
  | some d =>
    rw [hdue] at hcoe
    refine ⟨hplaced, hsizes, hcoe.trans ?_⟩
    rw [withDue, AlarmQueue.add, ← h.dues_eq]
    simp

theorem le_of_dueAt {tickCount now diff x d : ℕ}
    (hdue : dueAt slot pos tickCount (fun k _ => k) 1 now diff x o.wheelSize = some d) : now ≤ d := by
  obtain ⟨k, hk, rfl⟩ := exists_le_of_dueAt slot pos o.two_le hdue
  exact hk

end AimRT.Executor

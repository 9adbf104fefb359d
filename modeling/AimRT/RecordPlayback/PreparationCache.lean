import AimRT.Lib.Run
import AimRT.RecordPlayback.RecordAction

/-!
# The preparation window

While nothing is recorded the records go to `cur_cache_`.  When a record is further from the first one there
than the window, the cache becomes `last_cache_`, and what this one held is dropped.

Nothing of the window is lost as long as everything that is dropped is older than the window before the newest
record (`Older`); then the newest record that is kept is the newest of all.  Records that arrive in the order
of their timestamps are dropped in this way.  A record that is late is not: it may be the first one of
`cur_cache_`, or come before the first one, where the difference of the timestamps wraps around.
-/

namespace AimRT.RecordPlayback

/-- The action with the tasks that `AddRecord` left to the executor, and the records that it has cached. -/
structure Preparing (D F : Type) where
  action : RecordAction D F
  queue : List (OneRecord D) := []
  added : List (OneRecord D) := []

namespace Preparing

open RecordAction Lib.Run

variable {D F : Type} (env : Env D F)

/-- A publisher calls `AddRecord`, or the executor runs a task, whichever it takes. -/
inductive Op (D : Type) where
  | publish (r : OneRecord D)
  | execute (i : ℕ)
  deriving DecidableEq, Repr

def step (y : Preparing D F) : Op D → Preparing D F
  | .publish r =>
    { y with
      action := addRecord r y.action
      queue := if accepts y.action r then y.queue ++ [r] else y.queue }
  | .execute i =>
    match y.queue[i]? with
    | none => y
    | some r =>
      { action := recordTask env r y.action
        queue := y.queue.eraseIdx i
        added := y.added ++ [r] }

/-! ### The window -/

/-- A record is within the window before another one. -/
def Within (window : UInt64) (newest r : OneRecord D) : Prop :=
  newest.logTimestamp.toNat ≤ r.logTimestamp.toNat + window.toNat

instance (window : UInt64) (newest : OneRecord D) : DecidablePred (Within window newest) := fun r => by
  unfold Within; infer_instance

def Newest (l : List (OneRecord D)) (newest : OneRecord D) : Prop :=
  newest ∈ l ∧ ∀ r ∈ l, r.logTimestamp.toNat ≤ newest.logTimestamp.toNat

/-- **The window is kept**: of the records that were added the caches hold those that are within the window
before the newest one cached, each as often as it was added. -/
def Retains (y : Preparing D F) : Prop :=
  ∀ newest, Newest (cached y.action) newest →
    ((cached y.action).filter fun r => Within y.action.maxPreparationDurationNs newest r).Perm
      (y.added.filter fun r => Within y.action.maxPreparationDurationNs newest r)

/-- All of some records are older than the window before one of the others. -/
def Older (window : UInt64) (dropped kept : List (OneRecord D)) : Prop :=
  ∀ r ∈ dropped, ∃ n ∈ kept, ¬Within window n r

/-- When a step drops the last cache, all of its records are older than the window before the newest record of
the current cache. -/
def DropsOld (y : Preparing D F) : Op D → Prop
  | .publish _ => True
  | .execute i => ∀ r, y.queue[i]? = some r → swaps y.action r →
      Older y.action.maxPreparationDurationNs y.action.lastCache (y.action.curCache ++ [r])

theorem exists_newest {l : List (OneRecord D)} (h : l ≠ []) : ∃ newest, Newest l newest := by
  obtain ⟨newest, hmem, hmax⟩ := Set.exists_max_image {r | r ∈ l} (fun r => r.logTimestamp.toNat)
    (List.finite_toSet l) (List.exists_mem_of_ne_nil l h)
  exact ⟨newest, hmem, hmax⟩

theorem Older.filter_eq_nil {window : UInt64} {dropped kept : List (OneRecord D)} (h : Older window dropped kept)
    {newest : OneRecord D} (hnewest : Newest kept newest) :
    dropped.filter (fun r => Within window newest r) = [] := by
  rw [List.filter_eq_nil_iff]
  intro r hr hwithin
  obtain ⟨n, hn, hold⟩ := h r hr
  have hle := hnewest.2 n hn
  have hwithin := of_decide_eq_true hwithin
  unfold Within at hold hwithin
  omega

/-! ### Runs -/

/-- The state of a signal mode that does not record, with all that was added and what was dropped of it. -/
structure Inv (y : Preparing D F) : Prop where
  state : y.action.state = .start
  mode : y.action.options.mode = .signal
  idle : y.action.recordingFlag = false
  added : ∃ dropped, y.added = dropped ++ cached y.action ∧
    Older y.action.maxPreparationDurationNs dropped (cached y.action)

theorem Inv.retains {y : Preparing D F} (h : Inv y) : Retains y := by
  obtain ⟨dropped, hadded, hold⟩ := h.added
  intro newest hnewest
  rw [hadded, List.filter_append, hold.filter_eq_nil hnewest, List.nil_append]

/-- What a task does in this state. -/
theorem recordTask_idle {s : RecordAction D F} (hstate : s.state = .start) (hmode : s.options.mode = .signal)
    (hidle : s.recordingFlag = false) (r : OneRecord D) : recordTask env r s = cacheRecord r s := by
  simp [recordTask, takeRecord, stopOverdue, overdue, hstate, hmode, hidle]

theorem Inv.publish {y : Preparing D F} (h : Inv y) (r : OneRecord D) : Inv (step env y (.publish r)) := by
  obtain ⟨runtime, log, hadd⟩ := addRecord_eq r y.action
  simp only [step, hadd]
  exact ⟨h.state, h.mode, h.idle, h.added⟩

theorem cacheRecord_frame (r : OneRecord D) (s : RecordAction D F) :
    (cacheRecord r s).state = s.state ∧ (cacheRecord r s).options = s.options ∧
      (cacheRecord r s).recordingFlag = s.recordingFlag ∧
      (cacheRecord r s).maxPreparationDurationNs = s.maxPreparationDurationNs := by
  unfold cacheRecord
  split_ifs <;> exact ⟨rfl, rfl, rfl, rfl⟩

theorem cached_cacheRecord_of_swaps {r : OneRecord D} {s : RecordAction D F} (h : swaps s r = true) :
    cached (cacheRecord r s) = s.curCache ++ [r] := by
  simp [cacheRecord, h, cached]

theorem cached_cacheRecord_of_not_swaps {r : OneRecord D} {s : RecordAction D F} (h : swaps s r = false) :
    cached (cacheRecord r s) = cached s ++ [r] := by
  simp [cacheRecord, h, cached]

/-- What was dropped before is older than what is dropped now, or than what is kept. -/
theorem Older.trans {window : UInt64} {dropped last cur : List (OneRecord D)} {r : OneRecord D}
    (h : Older window dropped (last ++ cur)) (hlast : Older window last (cur ++ [r])) :
    Older window (dropped ++ last) (cur ++ [r]) := by
  intro x hx
  rcases List.mem_append.1 hx with hx | hx
  · obtain ⟨n, hn, hold⟩ := h x hx
    rcases List.mem_append.1 hn with hn | hn
    · obtain ⟨n', hn', hold'⟩ := hlast n hn
      refine ⟨n', hn', ?_⟩
      unfold Within at hold hold' ⊢
      omega
    · exact ⟨n, List.mem_append_left _ hn, hold⟩
  · exact hlast x hx

theorem Older.append_right {window : UInt64} {dropped kept : List (OneRecord D)} (h : Older window dropped kept)
    (rest : List (OneRecord D)) : Older window dropped (kept ++ rest) := by
  intro x hx
  obtain ⟨n, hn, hold⟩ := h x hx
  exact ⟨n, List.mem_append_left _ hn, hold⟩

/-- The task that the executor takes puts its record into the cache. -/
theorem Inv.step_execute {y : Preparing D F} (h : Inv y) {i : ℕ} {r : OneRecord D} (hr : y.queue[i]? = some r) :
    step env y (.execute i) =
      { action := cacheRecord r y.action, queue := y.queue.eraseIdx i, added := y.added ++ [r] } := by
  simp only [step, hr, recordTask_idle env h.state h.mode h.idle]

theorem Inv.execute {y : Preparing D F} (h : Inv y) {i : ℕ} (hmeets : DropsOld y (.execute i)) :
    Inv (step env y (.execute i)) := by
  cases hr : y.queue[i]? with
  | none => simpa only [step, hr] using h
  | some r =>
    obtain ⟨dropped, hadded, hold⟩ := h.added
    obtain ⟨hstate, hoptions, hidle, hwindow⟩ := cacheRecord_frame r y.action
    rw [h.step_execute env hr]
    refine ⟨hstate.trans h.state, ?_, hidle.trans h.idle, ?_⟩
    · dsimp only
      rw [hoptions, h.mode]
    · dsimp only
      rw [hwindow]
      cases hswaps : swaps y.action r with
      | true =>
        rw [cached_cacheRecord_of_swaps hswaps]
        refine ⟨dropped ++ y.action.lastCache, by rw [hadded]; simp [cached], ?_⟩
        exact hold.trans (hmeets r hr hswaps)
      | false =>
        rw [cached_cacheRecord_of_not_swaps hswaps]
        exact ⟨dropped, by rw [hadded]; simp, hold.append_right [r]⟩

theorem Inv.step {y : Preparing D F} (h : Inv y) {op : Op D} (hmeets : DropsOld y op) : Inv (step env y op) := by
  cases op with
  | publish r => exact h.publish env r
  | execute i => exact h.execute env hmeets

/-- A step that drops a record of the window ends in a state without it. -/
theorem dropsOld_of_retains {y : Preparing D F} (h : Inv y) {op : Op D} (hretains : Retains (Preparing.step env y op)) :
    DropsOld y op := by
  cases op with
  | publish r => trivial
  | execute i =>
    intro r hr hswaps
    obtain ⟨dropped, hadded, -⟩ := h.added
    obtain ⟨-, -, -, hwindow⟩ := cacheRecord_frame r y.action
    obtain ⟨newest, hnewest⟩ := exists_newest (l := y.action.curCache ++ [r]) (by simp)
    rw [h.step_execute env hr] at hretains
    have hperm := hretains newest (by dsimp only; rwa [cached_cacheRecord_of_swaps hswaps])
    dsimp only at hperm
    rw [cached_cacheRecord_of_swaps hswaps, hwindow, hadded, cached, List.append_assoc, List.append_assoc,
      List.filter_append dropped, List.filter_append y.action.lastCache] at hperm
    have hlength := hperm.length_eq
    rw [List.length_append, List.length_append] at hlength
    have hnone : (y.action.lastCache.filter
        fun x => Within y.action.maxPreparationDurationNs newest x) = [] := List.length_eq_zero_iff.1 (by omega)
    intro x hx
    refine ⟨newest, hnewest.1, fun hwithin => ?_⟩
    exact List.filter_eq_nil_iff.1 hnone x hx (decide_eq_true hwithin)

/-- The caches as a start or a clear leaves them. -/
structure Cleared (y : Preparing D F) : Prop where
  state : y.action.state = .start
  mode : y.action.options.mode = .signal
  idle : y.action.recordingFlag = false
  last : y.action.lastCache = []
  cur : y.action.curCache = []
  added : y.added = []

theorem Cleared.inv {y : Preparing D F} (h : Cleared y) : Inv y := by
  refine ⟨h.state, h.mode, h.idle, [], ?_, fun r hr => absurd hr List.not_mem_nil⟩
  rw [h.added, cached, h.last, h.cur]
  rfl

/-- **The preparation window.**  Whatever the publishers add and the executor takes in any order: the window is
kept in all states of a run exactly when all the caches that it drops are older than the window. -/
theorem retains_iff {y : Preparing D F} (h : Cleared y) (ops : List (Op D)) :
    AllHold (step env) Retains y ops ↔ AllMeet (step env) DropsOld y ops :=
  allHold_iff_allMeet Inv Inv.retains (fun hinv => Inv.step env hinv) (dropsOld_of_retains env) h.inv ops

/-! ### A late record -/

/-- The record of a timestamp. -/
def recordAt (logTimestamp : UInt64) : OneRecord ℕ where
  topicIndex := 0
  logTimestamp := logTimestamp
  pubTimestamp := 0
  pubSequence := 0
  buffer := 0

/-- A window of ten nanoseconds, and a publisher whose second record is before the first one. -/
def lateRecords : Preparing ℕ (ℕ × ℕ) where
  action :=
    { options := { mode := .signal }, state := .start, maxPreparationDurationNs := 10, estimatedOverhead := (3, 2) }
  queue := [100, 99, 101, 100].map recordAt

/-- Four records within two nanoseconds of each other: two times the difference wraps around, and the second
time the first two of them are dropped. -/
theorem not_allHold_retains :
    Cleared lateRecords ∧
      ¬AllHold (step (quietEnv (fun _ => 0) fun _ _ => false)) Retains lateRecords (List.replicate 4 (.execute 0)) := by
  refine ⟨⟨rfl, rfl, rfl, rfl, rfl, rfl⟩, fun h => ?_⟩
  have hnewest : Newest ([101, 100].map recordAt) (recordAt 101) := by
    refine ⟨List.mem_cons_self, fun r hr => ?_⟩
    fin_cases hr <;> decide
  have hlength := (h.last (recordAt 101) hnewest).length_eq
  exact absurd hlength (by decide)

/-- The first two of them alone are kept. -/
theorem retains_two :
    AllHold (step (quietEnv (fun _ => 0) fun _ _ => false)) Retains lateRecords [.execute 0, .execute 0] := by
  refine (retains_iff _ ⟨rfl, rfl, rfl, rfl, rfl, rfl⟩ _).2 ⟨?_, ?_, trivial⟩
  all_goals
    intro r _ _ x hx
    exact absurd hx List.not_mem_nil

/-! ### Records in order -/

/-- The task that the executor takes has a record that is not before those that are cached. -/
def InOrder (y : Preparing D F) : Op D → Prop
  | .publish _ => True
  | .execute i => ∀ r, y.queue[i]? = some r → ∀ x ∈ cached y.action, x.logTimestamp.toNat ≤ r.logTimestamp.toNat

def Sorted (l : List (OneRecord D)) : Prop := l.Pairwise fun x y => x.logTimestamp.toNat ≤ y.logTimestamp.toNat

theorem dropsOld_of_inOrder {y : Preparing D F} (hsorted : Sorted (cached y.action)) {op : Op D}
    (horder : InOrder y op) : DropsOld y op := by
  cases op with
  | publish r => trivial
  | execute i =>
    intro r hr hswaps x hx
    have hxr := horder r hr x (List.mem_append_left _ hx)
    refine ⟨r, List.mem_append_right _ List.mem_cons_self, fun hwithin => ?_⟩
    unfold Within at hwithin
    simp only [swaps, decide_eq_true_eq, UInt64.lt_iff_toNat_lt] at hswaps
    cases hcur : y.action.curCache with
    | nil =>
      simp only [hcur, List.nil_append, List.head?_cons, Option.getD_some, UInt64.sub_self] at hswaps
      exact absurd hswaps (Nat.not_lt_zero _)
    | cons first rest =>
      have hfirst : first ∈ y.action.curCache := by rw [hcur]; exact List.mem_cons_self
      have hxfirst := (List.pairwise_append.1 hsorted).2.2 x hx first hfirst
      have hle := horder r hr first (List.mem_append_right _ hfirst)
      simp only [hcur, List.cons_append, List.head?_cons, Option.getD_some] at hswaps
      rw [UInt64.toNat_sub_of_le _ _ (UInt64.le_iff_toNat_le.2 hle)] at hswaps
      omega

theorem sorted_step {y : Preparing D F} (h : Inv y) (hsorted : Sorted (cached y.action)) {op : Op D}
    (horder : InOrder y op) : Sorted (cached (step env y op).action) := by
  cases op with
  | publish r =>
    obtain ⟨runtime, log, hadd⟩ := addRecord_eq r y.action
    simp only [step, hadd]
    exact hsorted
  | execute i =>
    cases hr : y.queue[i]? with
    | none => simpa only [step, hr] using hsorted
    | some r =>
      have hall : Sorted (cached y.action ++ [r]) := by
        refine List.pairwise_append.2 ⟨hsorted, List.pairwise_singleton _ _, fun x hx z hz => ?_⟩
        rw [List.mem_singleton.1 hz]
        exact horder r hr x hx
      rw [h.step_execute env hr]
      dsimp only
      cases hswaps : swaps y.action r with
      | true =>
        rw [cached_cacheRecord_of_swaps hswaps]
        rw [cached, List.append_assoc] at hall
        exact (List.pairwise_append.1 hall).2.1
      | false =>
        rwa [cached_cacheRecord_of_not_swaps hswaps]

/-- Records that the executor takes in the order of their timestamps keep the window. -/
theorem retains_of_inOrder {y : Preparing D F} (h : Cleared y) {ops : List (Op D)}
    (horder : AllMeet (step env) InOrder y ops) : AllHold (step env) Retains y ops := by
  refine allHold_of_allMeet (fun y => Inv y ∧ Sorted (cached y.action)) (fun hinv => hinv.1.retains) ?_
    ⟨h.inv, ?_⟩ horder
  · rintro y ⟨hinv, hsorted⟩ op hop
    exact ⟨hinv.step env (dropsOld_of_inOrder hsorted hop), sorted_step env hinv hsorted hop⟩
  · rw [cached, h.last, h.cur]
    exact List.Pairwise.nil

end Preparing

end AimRT.RecordPlayback

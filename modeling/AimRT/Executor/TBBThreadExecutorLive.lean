import AimRT.Executor.TBBThreadExecutor

/-!
# The end of the tbb thread executor

What `Shutdown` waits for.  A worker that waits in `pop` does not see `state_`, so `Shutdown` aborts its wait, and does
so again, since the worker may have come to `pop` behind the first time.  A worker that runs tasks goes on until the
queue is empty.

Each call gets nearer to its end with its steps, but for the loop of `Shutdown` and its join, and when the calls have
come so far nobody pushes a task and `state_` stays as it is.  From there the workers and the queue get nearer to the
end.

* `ended_of_fair`: with a fair scheduler all workers come to their end behind `Shutdown`, and all calls return.
-/

namespace AimRT.Executor.TBBThreadExecutor

open Lib.Fair Lib.Places

variable {α : Type}

/-! ### The calls -/

/-- How far a call is from its end. -/
def Call.weight : Call α → ℕ
  | .checkInit _ => 4
  | .checkStart _ => 3
  | .count _ => 2
  | .uncount => 1
  | .push _ => 1
  | .start => 1
  | .exchange => 3
  | .loadNum => 2
  | .abort => 2
  | .join => 1
  | .returned => 0

/-- The call is in the loop of `Shutdown`, joins, or has returned. -/
def Call.quiet : Call α → Bool
  | .loadNum => true
  | .abort => true
  | .join => true
  | .returned => true
  | _ => false

def callsWeight (y : TBBThreadExecutor α) : ℕ := (y.calls.map Call.weight).sum

def Op.isNewCall : Op α → Bool
  | .execute _ => true
  | .start => true
  | .shutdown => true
  | _ => false

section Calls

variable {y : TBBThreadExecutor α} {i : ℕ} {c : Call α} {w : Worker α} {threw : Bool}

theorem step_call (hi : y.calls[i]? = some c) :
    y.step (.call i) = { (y.callStep c).2 with calls := y.calls.set i (y.callStep c).1 } := by
  simp only [step, hi]

theorem step_worker (hi : y.workers[i]? = some w) :
    y.step (.worker i threw) =
      { (y.workerStep threw w).2 with workers := y.workers.set i (y.workerStep threw w).1 } := by
  simp only [step, hi]

theorem weight_callStep (c : Call α) :
    (y.callStep c).1.weight < c.weight ∨ c.quiet = true ∧ (y.callStep c).1.weight ≤ c.weight := by
  have hite : ∀ {P : Prop} [Decidable P] {a b : Call α} (n : ℕ), a.weight ≤ n → b.weight ≤ n →
      (if P then a else b).weight ≤ n := by
    intro P _ a b n ha hb
    split_ifs
    · exact ha
    · exact hb
  cases c with
  | checkInit task => exact .inl (Nat.lt_succ_of_le (hite 3 (Nat.le_succ 2) le_rfl))
  | checkStart task => exact .inl (Nat.lt_succ_of_le (hite 2 le_rfl (Nat.zero_le 2)))
  | count task => exact .inl (Nat.lt_succ_of_le (hite 1 le_rfl le_rfl))
  | uncount => exact .inl Nat.zero_lt_one
  | push task => exact .inl Nat.zero_lt_one
  | start => exact .inl Nat.zero_lt_one
  | exchange => exact .inl (Nat.lt_succ_of_le (hite 2 (Nat.zero_le 2) le_rfl))
  | loadNum => exact .inr ⟨rfl, hite 2 (Nat.le_succ 1) le_rfl⟩
  | abort => exact .inr ⟨rfl, le_rfl⟩
  | join => exact .inr ⟨rfl, hite 1 (Nat.zero_le 1) le_rfl⟩
  | returned => exact .inr ⟨rfl, le_rfl⟩

/-- Of a call that is quiet the others see the abort only. -/
theorem callStep_of_quiet (h : c.quiet = true) :
    (y.callStep c).2 = y ∨ c = .abort ∧ (y.callStep c).2 = { y with workers := y.workers.map Worker.aborted } := by
  cases c with
  | loadNum => exact .inl rfl
  | abort => exact .inr ⟨rfl, rfl⟩
  | join => exact .inl rfl
  | returned => exact .inl rfl
  | _ => cases h

theorem workerStep_calls (w : Worker α) :
    (y.workerStep threw w).2.calls = y.calls ∧ (y.workerStep threw w).2.state = y.state := by
  have htake : ∀ (run : α → Worker α) (empty : Worker α),
      (y.take run empty).2.calls = y.calls ∧ (y.take run empty).2.state = y.state := by
    intro run empty
    unfold take
    split <;> exact ⟨rfl, rfl⟩
  cases w with
  | tryPop => exact htake _ _
  | pop => exact htake _ _
  | blocked => exact htake _ _
  | _ => exact ⟨rfl, rfl⟩

theorem calls_step_worker (i : ℕ) (threw : Bool) : (y.step (.worker i threw)).calls = y.calls := by
  cases hi : y.workers[i]? with
  | none => simp only [step, hi]
  | some w =>
    rw [step_worker hi]
    exact (workerStep_calls w).1

theorem callsWeight_step_le {op : Op α} (hop : op.isNewCall = false) : (y.step op).callsWeight ≤ y.callsWeight := by
  cases op with
  | call i =>
    cases hi : y.calls[i]? with
    | none => simp only [step, hi, le_refl]
    | some c =>
      rw [step_call hi]
      have hsum := sum_map_set (q := (y.callStep c).1) Call.weight hi
      show ((y.calls.set i (y.callStep c).1).map Call.weight).sum ≤ (y.calls.map Call.weight).sum
      rcases weight_callStep (y := y) c with hlt | ⟨-, hle⟩
      · omega
      · omega
  | worker i threw => rw [callsWeight, calls_step_worker, callsWeight]
  | _ => cases hop

/-- A call may get its turn only at a place that is quiet, or that is nearer to the end. -/
def Quiet (y : TBBThreadExecutor α) : Op α → Prop
  | .call i => ∀ c, y.calls[i]? = some c → c.quiet = true ∧ (y.callStep c).1.weight = c.weight
  | .worker _ _ => True
  | _ => False

theorem quiet_of_callsWeight_eq {op : Op α} (hop : op.isNewCall = false)
    (hweight : (y.step op).callsWeight = y.callsWeight) : y.Quiet op := by
  cases op with
  | call i =>
    intro c hi
    rw [step_call hi] at hweight
    replace hweight : ((y.calls.set i (y.callStep c).1).map Call.weight).sum = (y.calls.map Call.weight).sum := hweight
    have hsum := sum_map_set (q := (y.callStep c).1) Call.weight hi
    rw [hweight] at hsum
    have heq := (Nat.add_left_cancel hsum).symm
    rcases weight_callStep (y := y) c with hlt | ⟨hquiet, -⟩
    · exact absurd heq hlt.ne
    · exact ⟨hquiet, heq⟩
  | worker i threw => trivial
  | _ => cases hop

theorem Quiet.state {op : Op α} (h : y.Quiet op) : (y.step op).state = y.state := by
  cases op with
  | call i =>
    cases hi : y.calls[i]? with
    | none => simp only [step, hi]
    | some c =>
      rw [step_call hi]
      rcases callStep_of_quiet (y := y) (h c hi).1 with heq | ⟨-, heq⟩
      · rw [heq]
      · rw [heq]
  | worker i threw =>
    cases hi : y.workers[i]? with
    | none => simp only [step, hi]
    | some w =>
      rw [step_worker hi]
      exact (workerStep_calls w).2
  | _ => exact h.elim

theorem Quiet.calls {op : Op α} (h : y.Quiet op) (hop : op ≠ .call i) (hi : y.calls[i]? = some c) :
    (y.step op).calls[i]? = some c := by
  cases op with
  | call j =>
    cases hj : y.calls[j]? with
    | none => simp only [step, hj, hi]
    | some c' =>
      have hne : j ≠ i := fun heq => hop (congrArg Op.call heq)
      rw [step_call hj]
      exact (List.getElem?_set_ne hne).trans hi
  | worker j threw =>
    rw [calls_step_worker]
    exact hi
  | _ => exact h.elim

end Calls

/-! ### The workers -/

/-- How far a worker is from its end behind `Shutdown`. -/
def Worker.weight : Worker α → ℕ
  | .pop => 7
  | .blocked => 6
  | .starting => 5
  | .tryRun _ => 5
  | .popRun _ => 5
  | .tryUncount => 4
  | .popUncount => 4
  | .tryPop => 3
  | .checkState => 2
  | .ending => 1
  | .ended => 0

/-- Each task in the queue takes a worker back by two steps. -/
def weight (y : TBBThreadExecutor α) : ℕ := 3 * y.queue.length + (y.workers.map Worker.weight).sum

section Workers

variable {y : TBBThreadExecutor α} {i : ℕ} {c : Call α} {w : Worker α} {threw : Bool}

/-- The worker is at its end, or waits for a task. -/
def Stays (y : TBBThreadExecutor α) (w : Worker α) : Prop := w = .ended ∨ w = .blocked ∧ y.queue = []

theorem weight_workerStep (hstate : y.state = .shutdown) (w : Worker α) (threw : Bool) :
    y.Stays w ∧ y.workerStep threw w = (w, y) ∨
      3 * (y.workerStep threw w).2.queue.length + (y.workerStep threw w).1.weight < 3 * y.queue.length + w.weight := by
  have htake : ∀ {run : α → Worker α} {empty : Worker α}, (∀ task, (run task).weight = 5) →
      3 ≤ w.weight → y.queue ≠ [] ∨ empty.weight < w.weight →
      3 * (y.take run empty).2.queue.length + (y.take run empty).1.weight < 3 * y.queue.length + w.weight := by
    intro run empty hrun hw hempty
    unfold take
    split
    · rename_i hqueue
      have hlt := hempty.resolve_left (not_not_intro hqueue)
      rw [hqueue]
      exact Nat.add_lt_add_left hlt _
    · rename_i task queue hqueue
      rw [hqueue, hrun, List.length_cons]
      show 3 * queue.length + 5 < 3 * (queue.length + 1) + w.weight
      omega
  cases w with
  | starting => exact .inr (Nat.add_lt_add_left (by decide : 3 < 5) _)
  | tryPop => exact .inr (htake (fun _ => rfl) le_rfl (.inr (by decide : 2 < 3)))
  | tryRun task =>
    cases threw with
    | false => exact .inr (Nat.add_lt_add_left (by decide : 4 < 5) _)
    | true => exact .inr (Nat.add_lt_add_left (by decide : 2 < 5) _)
  | tryUncount => exact .inr (Nat.add_lt_add_left (by decide : 3 < 4) _)
  | checkState =>
    unfold workerStep
    rw [if_pos hstate]
    exact .inr (Nat.add_lt_add_left (by decide : 1 < 2) _)
  | pop => exact .inr (htake (fun _ => rfl) (by decide : 3 ≤ 7) (.inr (by decide : 6 < 7)))
  | blocked =>
    by_cases hqueue : y.queue = []
    · refine .inl ⟨.inr ⟨rfl, hqueue⟩, ?_⟩
      unfold workerStep take
      rw [hqueue]
    · exact .inr (htake (fun _ => rfl) (by decide : 3 ≤ 6) (.inl hqueue))
  | popRun task =>
    cases threw with
    | false => exact .inr (Nat.add_lt_add_left (by decide : 4 < 5) _)
    | true => exact .inr (Nat.add_lt_add_left (by decide : 3 < 5) _)
  | popUncount => exact .inr (Nat.add_lt_add_left (by decide : 3 < 4) _)
  | ending => exact .inr (Nat.add_lt_add_left (by decide : 0 < 1) _)
  | ended => exact .inl ⟨.inl rfl, rfl⟩

theorem weight_aborted_le (w : Worker α) : w.aborted.weight ≤ w.weight := by
  cases w with
  | blocked => exact (by decide : 3 ≤ 6)
  | _ => exact le_rfl

/-- Behind a step of a worker it weighs less, or nothing has changed. -/
theorem weight_worker (hstate : y.state = .shutdown) (hi : y.workers[i]? = some w) (threw : Bool) :
    y.Stays w ∧ y.step (.worker i threw) = y ∨ (y.step (.worker i threw)).weight < y.weight := by
  rw [step_worker hi]
  rcases weight_workerStep hstate w threw with ⟨hstays, heq⟩ | hlt
  · rw [heq]
    obtain ⟨hlt, hw⟩ := List.getElem?_eq_some_iff.1 hi
    refine .inl ⟨hstays, ?_⟩
    rw [← hw, List.set_getElem_self]
  · have hsum := sum_map_set (q := (y.workerStep threw w).1) Worker.weight hi
    right
    show 3 * (y.workerStep threw w).2.queue.length +
      ((y.workers.set i (y.workerStep threw w).1).map Worker.weight).sum <
        3 * y.queue.length + (y.workers.map Worker.weight).sum
    omega

theorem weight_abort_le (y : TBBThreadExecutor α) :
    ({ y with workers := y.workers.map Worker.aborted } : TBBThreadExecutor α).weight ≤ y.weight := by
  refine Nat.add_le_add_left ?_ _
  rw [List.map_map]
  exact List.sum_le_sum fun w _ => weight_aborted_le w

theorem weight_abort_lt (h : .blocked ∈ y.workers) :
    ({ y with workers := y.workers.map Worker.aborted } : TBBThreadExecutor α).weight < y.weight := by
  refine Nat.add_lt_add_left ?_ _
  rw [List.map_map]
  exact List.sum_lt_sum _ _ (fun w _ => weight_aborted_le w) ⟨.blocked, h, (by decide : 3 < 6)⟩

theorem Quiet.weight_le {op : Op α} (h : y.Quiet op) (hstate : y.state = .shutdown) :
    (y.step op).weight ≤ y.weight := by
  cases op with
  | call i =>
    cases hi : y.calls[i]? with
    | none => simp only [step, hi, le_refl]
    | some c =>
      rw [step_call hi]
      rcases callStep_of_quiet (y := y) (h c hi).1 with heq | ⟨-, heq⟩
      · rw [heq]
        exact le_rfl
      · rw [heq]
        exact weight_abort_le y
  | worker i threw =>
    cases hi : y.workers[i]? with
    | none => simp only [step, hi, le_refl]
    | some w =>
      rcases weight_worker hstate hi threw with ⟨-, heq⟩ | hlt
      · rw [heq]
      · exact hlt.le
  | _ => exact h.elim

/-- A worker that is not aborted stays where it is until its turn. -/
theorem Quiet.workers {op : Op α} (h : y.Quiet op) (hop : ∀ threw, op ≠ .worker i threw) (hw : w ≠ .blocked)
    (hi : y.workers[i]? = some w) : (y.step op).workers[i]? = some w := by
  cases op with
  | call j =>
    cases hj : y.calls[j]? with
    | none => simp only [step, hj, hi]
    | some c =>
      rw [step_call hj]
      show (y.callStep c).2.workers[i]? = some w
      rcases callStep_of_quiet (y := y) (h c hj).1 with heq | ⟨-, heq⟩
      · rw [heq, hi]
      · rw [heq, List.getElem?_map, hi]
        cases w with
        | blocked => exact absurd rfl hw
        | _ => rfl
  | worker j threw =>
    cases hj : y.workers[j]? with
    | none => simp only [step, hj, hi]
    | some w' =>
      have hne : j ≠ i := by
        rintro rfl
        exact hop threw rfl
      rw [step_worker hj]
      exact (List.getElem?_set_ne hne).trans hi
  | _ => exact h.elim

/-- Nobody ends the wait of a worker without a change of the weight. -/
theorem Quiet.blocked {op : Op α} (h : y.Quiet op) (hstate : y.state = .shutdown)
    (hweight : (y.step op).weight = y.weight) (hi : y.workers[i]? = some .blocked) :
    (y.step op).workers[i]? = some .blocked := by
  cases op with
  | call j =>
    cases hj : y.calls[j]? with
    | none => simp only [step, hj, hi]
    | some c =>
      rw [step_call hj] at hweight ⊢
      rcases callStep_of_quiet (y := y) (h c hj).1 with heq | ⟨-, heq⟩
      · rw [heq]
        exact hi
      · rw [heq] at hweight
        exact absurd hweight (weight_abort_lt (List.mem_of_getElem? hi)).ne
  | worker j threw =>
    cases hj : y.workers[j]? with
    | none => simp only [step, hj, hi]
    | some w' =>
      rcases weight_worker hstate hj threw with ⟨-, heq⟩ | hlt
      · rw [heq, hi]
      · exact absurd hweight hlt.ne
  | _ => exact h.elim

end Workers

/-! ### Fair runs -/

/-- A scheduler that goes on to choose each call and each worker. -/
structure FairSchedule (σ : ℕ → Op α) : Prop where
  call : ∀ i, Often σ fun op => op = .call i
  worker : ∀ i, Often σ fun op => ∃ threw, op = .worker i threw

/-- A run behind `Shutdown` in which nothing gets nearer to its end from some place on. -/
structure Settled (σ : ℕ → Op α) (at' : ℕ → TBBThreadExecutor α) (n : ℕ) : Prop where
  inv : ∀ m, Inv (at' m)
  succ : ∀ m, at' (m + 1) = (at' m).step (σ m)
  state : ∀ m ≥ n, (at' m).state = .shutdown
  quiet : ∀ m ≥ n, (at' m).Quiet (σ m)
  weight : ∀ m ≥ n, ((at' m).step (σ m)).weight = (at' m).weight

section Settled

variable {σ : ℕ → Op α} {at' : ℕ → TBBThreadExecutor α} {n m i : ℕ} {c : Call α} {w : Worker α}

/-- A call that was made gets its turn. -/
theorem Settled.exists_call (h : Settled σ at' n) (hfair : FairSchedule σ) (hm : m ≥ n)
    (hi : (at' m).calls[i]? = some c) : ∃ k ≥ m, σ k = .call i ∧ (at' k).calls[i]? = some c :=
  exists_next (hfair.call i) (P := fun k => (at' k).calls[i]? = some c) (fun k hk hop hc => by
    rw [h.succ]
    exact (h.quiet k (hm.le.trans hk)).calls hop hc) hi

theorem Settled.blocked (h : Settled σ at' n) (hm : m ≥ n) (hi : (at' m).workers[i]? = some .blocked) {k : ℕ}
    (hk : k ≥ m) : (at' k).workers[i]? = some .blocked :=
  holds_of_le (P := fun k => (at' k).workers[i]? = some .blocked) hk (fun j hj hb => by
    have hjn : j ≥ n := hm.le.trans hj
    rw [h.succ]
    exact (h.quiet j hjn).blocked (h.state j hjn) (h.weight j hjn) hb) hi

/-- A call of `Shutdown` aborts a wait at its turn, or goes on to it. -/
theorem Settled.not_blocked (h : Settled σ at' n) (hfair : FairSchedule σ) (hm : m ≥ n) :
    (at' m).workers[i]? ≠ some .blocked := by
  intro hi
  have hwaits : 0 < (at' m).workers.countP Worker.waits :=
    List.countP_pos_iff.2 ⟨.blocked, List.mem_of_getElem? hi, rfl⟩
  obtain ⟨c, hc, hloops⟩ := List.countP_pos_iff.1 ((h.inv m).aborts (h.state m hm) hwaits)
  obtain ⟨j, hj⟩ := List.mem_iff_getElem?.1 hc
  -- no call comes to its abort
  have habort : ∀ k ≥ m, (at' k).calls[j]? ≠ some .abort := by
    intro k hk hkj
    obtain ⟨l, hl, hop, hlj⟩ := h.exists_call hfair (hm.le.trans hk) hkj
    have hml : m ≤ l := hk.le.trans hl
    have hweight := h.weight l (hm.le.trans hml)
    rw [hop, step_call hlj] at hweight
    exact absurd hweight (weight_abort_lt (List.mem_of_getElem? (h.blocked hm hi hml))).ne
  cases c with
  | abort => exact habort m le_rfl hj
  | loadNum =>
    obtain ⟨k, hk, hop, hkj⟩ := h.exists_call hfair hm hj
    have hnum : (at' k).workThreadNum ≠ 0 := by
      rw [(h.inv k).threads]
      exact (List.countP_pos_iff.2 ⟨.blocked, List.mem_of_getElem? (h.blocked hm hi hk), rfl⟩).ne'
    refine habort (k + 1) (Nat.le_succ_of_le hk) ?_
    rw [h.succ, hop, step_call hkj]
    unfold callStep
    rw [if_neg hnum]
    exact List.getElem?_set_self (List.getElem?_eq_some_iff.1 hkj).1
  | _ => cases hloops

theorem Settled.ended (h : Settled σ at' n) (hfair : FairSchedule σ) (hm : m ≥ n)
    (hi : (at' m).workers[i]? = some w) : w = .ended := by
  have hw : w ≠ .blocked := by
    rintro rfl
    exact h.not_blocked hfair hm hi
  obtain ⟨k, hk, ⟨threw, hop⟩, hkw⟩ := exists_next (hfair.worker i)
    (P := fun k => (at' k).workers[i]? = some w) (fun k hk hop hkw => by
      rw [h.succ]
      exact (h.quiet k (hm.le.trans hk)).workers (fun threw heq => hop ⟨threw, heq⟩) hw hkw) hi
  have hkn : k ≥ n := hm.le.trans hk
  have hweight := h.weight k hkn
  rw [hop] at hweight
  rcases weight_worker (h.state k hkn) hkw threw with ⟨hended | ⟨hblocked, -⟩, -⟩ | hlt
  · exact hended
  · exact absurd hblocked hw
  · exact absurd hweight hlt.ne

theorem Settled.all_ended (h : Settled σ at' n) (hfair : FairSchedule σ) (hm : m ≥ n) :
    ∀ w ∈ (at' m).workers, w = .ended := fun w hw => by
  obtain ⟨i, hi⟩ := List.mem_iff_getElem?.1 hw
  exact h.ended hfair hm hi

/-- Without workers the loop of `Shutdown` ends, and its join. -/
theorem Settled.returned (h : Settled σ at' n) (hfair : FairSchedule σ) (hm : m ≥ n)
    (hi : (at' m).calls[i]? = some c) : c = .returned := by
  have hloop : ∀ k ≥ n, (at' k).calls[i]? ≠ some .loadNum := by
    intro k hk hki
    obtain ⟨l, hl, hop, hli⟩ := h.exists_call hfair hk hki
    have hln : l ≥ n := hk.le.trans hl
    have hquiet := h.quiet l hln
    rw [hop] at hquiet
    have hweight := (hquiet .loadNum hli).2
    have hnum : (at' l).workThreadNum = 0 := by
      rw [(h.inv l).threads]
      refine List.countP_eq_zero.2 fun w hw => ?_
      rw [h.all_ended hfair hln w hw]
      exact Bool.false_ne_true
    unfold callStep at hweight
    rw [if_pos hnum] at hweight
    cases hweight
  obtain ⟨k, hk, hop, hki⟩ := h.exists_call hfair hm hi
  have hkn : k ≥ n := hm.le.trans hk
  have hquiet := h.quiet k hkn
  rw [hop] at hquiet
  obtain ⟨hc, hweight⟩ := hquiet c hki
  cases c with
  | returned => rfl
  | loadNum => exact absurd hki (hloop k hkn)
  | abort =>
    refine absurd ?_ (hloop (k + 1) (Nat.le_succ_of_le hkn))
    rw [h.succ, hop, step_call hki]
    exact List.getElem?_set_self (List.getElem?_eq_some_iff.1 hki).1
  | join =>
    have hall : (at' k).workers.all Worker.isEnded = true := List.all_eq_true.2 fun w hw => by
      rw [h.all_ended hfair hkn w hw]
      rfl
    unfold callStep at hweight
    rw [if_pos hall] at hweight
    cases hweight
  | _ => cases hc

end Settled

/-- **With a fair scheduler `Shutdown` comes to its end**: each task returns or throws, no more calls are made, and when
`state_` is `kShutdown` then, all workers end and all calls return. -/
theorem ended_of_fair (options : Options) (σ : ℕ → Op α) (hfair : FairSchedule σ)
    (hcalls : ∃ n, ∀ m ≥ n, (σ m).isNewCall = false) :
    ∃ n, ∀ m ≥ n, (stateAt step (init options) σ m).state = .shutdown →
      (∀ w ∈ (stateAt step (init options) σ m).workers, w = .ended) ∧
        ∀ c ∈ (stateAt step (init options) σ m).calls, c = .returned := by
  have hinv : ∀ n, Inv (stateAt step (init options) σ n) :=
    stateAt_inv Inv (fun h op => h.step op) (inv_init options)
  have hsucc : ∀ n, stateAt step (init options) σ (n + 1) = step (stateAt step (init options) σ n) (σ n) :=
    stateAt_succ
  generalize stateAt step (init options) σ = at' at hinv hsucc ⊢
  obtain ⟨n₀, hnone⟩ := hcalls
  -- first the calls come as far as they can
  obtain ⟨n₁, hcallsWeight⟩ := eventually_const (fun k => (at' (n₀ + k)).callsWeight) fun k => by
    show (at' (n₀ + k + 1)).callsWeight ≤ _
    rw [hsucc]
    exact callsWeight_step_le (hnone _ (Nat.le_add_right n₀ k))
  have hquiet : ∀ m ≥ n₀ + n₁, (at' m).Quiet (σ m) := by
    intro m hm
    obtain ⟨k, rfl⟩ := Nat.exists_eq_add_of_le ((Nat.le_add_right n₀ n₁).trans hm)
    have hk : k ≥ n₁ := Nat.le_of_add_le_add_left hm
    refine quiet_of_callsWeight_eq (hnone _ (Nat.le_add_right n₀ k)) ?_
    rw [← hsucc]
    exact (hcallsWeight (k + 1) (Nat.le_succ_of_le hk)).trans (hcallsWeight k hk).symm
  have hstate : ∀ m ≥ n₀ + n₁, (at' m).state = (at' (n₀ + n₁)).state := fun m hm =>
    holds_of_le (P := fun k => (at' k).state = (at' (n₀ + n₁)).state) hm (fun k hk heq => by
      rw [hsucc, (hquiet k hk).state, heq]) rfl
  by_cases hshutdown : (at' (n₀ + n₁)).state = .shutdown
  · -- then the workers and the queue
    obtain ⟨n₂, hweight⟩ := eventually_const (fun k => (at' (n₀ + n₁ + k)).weight) fun k => by
      have hle : n₀ + n₁ + k ≥ n₀ + n₁ := Nat.le_add_right _ k
      show (at' (n₀ + n₁ + k + 1)).weight ≤ _
      rw [hsucc]
      exact (hquiet _ hle).weight_le ((hstate _ hle).trans hshutdown)
    have hbehind : ∀ {m}, m ≥ n₀ + n₁ + n₂ → m ≥ n₀ + n₁ := fun hm => (Nat.le_add_right _ n₂).trans hm
    have hsettled : Settled σ at' (n₀ + n₁ + n₂) := by
      refine ⟨hinv, hsucc, fun m hm => (hstate m (hbehind hm)).trans hshutdown, fun m hm => hquiet m (hbehind hm), ?_⟩
      intro m hm
      obtain ⟨k, rfl⟩ := Nat.exists_eq_add_of_le (hbehind hm)
      have hk : k ≥ n₂ := Nat.le_of_add_le_add_left hm
      rw [← hsucc]
      exact (hweight (k + 1) (Nat.le_succ_of_le hk)).trans (hweight k hk).symm
    refine ⟨n₀ + n₁ + n₂, fun m hm _ => ⟨hsettled.all_ended hfair hm, fun c hc => ?_⟩⟩
    obtain ⟨i, hi⟩ := List.mem_iff_getElem?.1 hc
    exact hsettled.returned hfair hm hi
  · exact ⟨n₀ + n₁, fun m hm hm' => absurd ((hstate m hm).symm.trans hm') hshutdown⟩

/-- A task, `Shutdown`, and then a step of each call and of each worker in turn. -/
def inTurn (n : ℕ) : Op ℕ :=
  match n with
  | 0 => .execute 7
  | 1 => .shutdown
  | n + 2 => if n.unpair.2 % 2 = 0 then .call n.unpair.1 else .worker n.unpair.1 false

theorem ended_of_inTurn :
    ∃ n, ∀ m ≥ n, (stateAt step (init ⟨2, 100, true⟩) inTurn m).state = .shutdown →
      (∀ w ∈ (stateAt step (init ⟨2, 100, true⟩) inTurn m).workers, w = .ended) ∧
        ∀ c ∈ (stateAt step (init ⟨2, 100, true⟩) inTurn m).calls, c = .returned := by
  refine ended_of_fair ⟨2, 100, true⟩ inTurn ⟨fun i n => ?_, fun i n => ?_⟩ ⟨2, fun m hm => ?_⟩
  · have hle : n ≤ Nat.pair i (2 * n) := (Nat.le_mul_of_pos_left n Nat.two_pos).trans (Nat.right_le_pair i _)
    refine ⟨Nat.pair i (2 * n) + 2, hle.trans (Nat.le_add_right _ 2), ?_⟩
    rw [inTurn, Nat.unpair_pair, if_pos (Nat.mul_mod_right 2 n)]
  · have hle : n ≤ Nat.pair i (2 * n + 1) :=
      (Nat.le_succ_of_le (Nat.le_mul_of_pos_left n Nat.two_pos)).trans (Nat.right_le_pair i _)
    refine ⟨Nat.pair i (2 * n + 1) + 2, hle.trans (Nat.le_add_right _ 2), false, ?_⟩
    rw [inTurn, Nat.unpair_pair, if_neg (by omega)]
  · obtain ⟨k, rfl⟩ := Nat.exists_eq_add_of_le' hm
    rw [inTurn]
    split_ifs
    · rfl
    · rfl

end AimRT.Executor.TBBThreadExecutor

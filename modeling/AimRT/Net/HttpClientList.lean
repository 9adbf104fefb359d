import AimRT.Net.AsioHttpClient
import Mathlib.Data.Finset.Card

/-!
# The list of sessions of the http clients

A search erases the sessions that have been shut down, as far as it gets.  `AsioHttpClient` puts a session into its list
when it has created it.  `AsioHttp2Client` puts a connection into its list whenever it is going to use it, also when it
has found it there: the list has a connection once more for each call that reuses it.
-/

namespace AimRT.Net

open AimRT.Lib

namespace HttpClient

/-- The sessions that are running or not yet cleaned up. -/
def present (s : HttpClient) : Finset ℕ :=
  (Finset.range s.sessionNum).filter fun ptr => (s.sessions ptr).isStarted = true ∨ ptr ∈ s.sessionPtrList

/-- No session is in the list twice, and so it is no longer than there are sessions. -/
structure ListsOnce (s : HttpClient) : Prop where
  nodup : s.sessionPtrList.Nodup
  length_le : s.sessionPtrList.length ≤ s.present.card

/-- The second client takes a connection from its list, and puts it there again. -/
def Reuses (kind : ClientKind) (s : HttpClient) (op : ClientOp) : Prop :=
  kind = .http2 ∧ op = .runMgr ∧ ∃ r i ptr, s.mgr = .idle r i ptr ∧ (s.sessions ptr).isStarted = true

/-! ### The invariant -/

/-- The session that a search has found and looks at. -/
def SearchCo.found : SearchCo → Option ℕ
  | .free => none
  | .loop _ _ => none
  | .running _ _ ptr => some ptr
  | .idle _ _ ptr => some ptr

/-- What holds in all states of a run without reuse; nothing but the search changes the list while it goes on. -/
structure ListInv (s : HttpClient) : Prop where
  nodup : s.sessionPtrList.Nodup
  lt : ∀ ptr ∈ s.sessionPtrList, ptr < s.sessionNum
  found : ∀ ptr ∈ SearchCo.found s.mgr, ptr ∈ s.sessionPtrList

variable {kind : ClientKind} {s s' : HttpClient} {op : ClientOp}

theorem listInv_started : started.ListInv := ⟨List.nodup_nil, nofun, nofun⟩

theorem ListInv.listsOnce (h : s.ListInv) : s.ListsOnce := by
  refine ⟨h.nodup, ?_⟩
  rw [← List.toFinset_card_of_nodup h.nodup]
  refine Finset.card_le_card fun ptr hptr => ?_
  have hmem := List.mem_toFinset.1 hptr
  exact Finset.mem_filter.2 ⟨Finset.mem_range.2 (h.lt ptr hmem), .inr hmem⟩

/-- A step that leaves the list and the search alone. -/
theorem ListInv.same (h : s.ListInv) (hlist : s'.sessionPtrList = s.sessionPtrList)
    (hnum : s'.sessionNum = s.sessionNum) (hmgr : s'.mgr = s.mgr) : s'.ListInv := by
  refine ⟨?_, ?_, ?_⟩
  · rw [hlist]
    exact h.nodup
  · rw [hlist, hnum]
    exact h.lt
  · rw [hlist, hmgr]
    exact h.found

/-- A search that goes on with the sessions that are left in the list. -/
theorem ListInv.search (h : s.ListInv) (hlist : s'.sessionPtrList.Sublist s.sessionPtrList)
    (hnum : s'.sessionNum = s.sessionNum) (hmgr : ∀ ptr ∈ SearchCo.found s'.mgr, ptr ∈ s'.sessionPtrList) :
    s'.ListInv := by
  refine ⟨h.nodup.sublist hlist, fun ptr hptr => ?_, hmgr⟩
  rw [hnum]
  exact h.lt ptr (hlist.subset hptr)

/-- A new session is not in the list yet. -/
theorem ListInv.create (h : s.ListInv) (r : ℕ) : (s.create kind r).ListInv := by
  unfold HttpClient.create
  split_ifs
  · have hnew : s.sessionNum ∉ s.sessionPtrList := fun hmem => Nat.lt_irrefl _ (h.lt _ hmem)
    refine ⟨by simpa using h.nodup.concat hnew, fun ptr hptr => ?_, nofun⟩
    rcases List.mem_append.1 hptr with hold | hlast
    · exact Nat.lt_succ_of_lt (h.lt ptr hold)
    · rw [List.mem_singleton.1 hlast]
      exact Nat.lt_succ_self _
  · exact h.search (List.Sublist.refl _) rfl nofun

/-- The second client has the connection in its list twice when it uses it again. -/
theorem not_nodup_select {r ptr : ℕ} (hptr : ptr ∈ s.sessionPtrList) :
    ¬(s.select .http2 r ptr).sessionPtrList.Nodup := by
  intro hnodup
  have hconcat : (s.sessionPtrList.concat ptr).Nodup := by rwa [List.concat_eq_append]
  exact (List.nodup_concat _ _).1 hconcat |>.1 hptr

theorem ListInv.runMgr (h : s.ListInv) (hmeets : ¬Reuses kind s .runMgr) : (s.runMgr kind).ListInv := by
  unfold HttpClient.runMgr
  split
  next => exact h
  next r i hmgr =>
    split
    next => exact h.create r
    next ptr hget =>
      have hmem := List.mem_of_getElem? hget
      split_ifs
      · exact h.search (List.Sublist.refl _) rfl fun ptr' hptr' => Option.mem_some_iff.1 hptr' ▸ hmem
      · refine h.search (List.eraseIdx_sublist _ _) rfl ?_
        dsimp only
        rw [hmgr]
        exact fun ptr' hptr' => absurd hptr' (Option.not_mem_none ptr')
  next r i ptr hmgr =>
    have hmem : ptr ∈ s.sessionPtrList := h.found ptr (by rw [hmgr]; rfl)
    split_ifs
    · exact h.search (List.Sublist.refl _) rfl fun ptr' hptr' => Option.mem_some_iff.1 hptr' ▸ hmem
    · exact h.search (List.Sublist.refl _) rfl fun ptr' hptr' => absurd hptr' (Option.not_mem_none ptr')
  next r i ptr hmgr =>
    split_ifs with hstarted
    · cases kind with
      | http maxSessionNum =>
        exact h.search (List.Sublist.refl _) rfl fun ptr' hptr' => absurd hptr' (Option.not_mem_none ptr')
      | http2 => exact absurd ⟨rfl, rfl, r, i, ptr, hmgr, hstarted⟩ hmeets
    · exact h.search (List.Sublist.refl _) rfl fun ptr' hptr' => absurd hptr' (Option.not_mem_none ptr')

/-- The strands of the sessions do not touch the list. -/
theorem ListInv.step (h : s.ListInv) (hmeets : ¬Reuses kind s op) : (s.step kind op).ListInv := by
  cases op with
  | runMgr => exact h.runMgr hmeets
  | call r =>
    simp only [HttpClient.step, HttpClient.call]
    split_ifs <;> exact h.same rfl rfl rfl
  | start r =>
    simp only [HttpClient.step, HttpClient.start]
    split_ifs
    · exact h
    · exact h.search (List.Sublist.refl _) rfl nofun
    · exact h.same rfl rfl rfl
  | begin r =>
    simp only [HttpClient.step, HttpClient.begin]
    split
    next => split_ifs <;> exact h.same rfl rfl rfl
    next => exact h
  | send r =>
    simp only [HttpClient.step, HttpClient.send]
    split <;> exact h.same rfl rfl rfl
  | exchangeFails r =>
    simp only [HttpClient.step, HttpClient.exchangeFails]
    split <;> exact h.same rfl rfl rfl
  | arrive r q =>
    simp only [HttpClient.step, HttpClient.arrive]
    split
    next => split_ifs <;> exact h.same rfl rfl rfl
    next => exact h
  | finish r =>
    simp only [HttpClient.step, HttpClient.finish]
    split
    next =>
      split
      next => exact h
      next => cases kind <;> exact h.same rfl rfl rfl
    next => exact h
  | complete r =>
    simp only [HttpClient.step, HttpClient.complete]
    split
    next => exact h.same rfl rfl rfl
    next => split <;> exact h.same rfl rfl rfl
    next => exact h
  | needEof r =>
    simp only [HttpClient.step, HttpClient.needEof]
    split <;> exact h.same rfl rfl rfl
  | timerExpires ptr => exact h.same rfl rfl rfl
  | shutdown =>
    simp only [HttpClient.step, HttpClient.shutdown]
    split_ifs <;> exact h.same rfl rfl rfl
  | clear =>
    simp only [HttpClient.step, HttpClient.clear]
    split_ifs with hnot
    · exact h
    · rw [not_or, not_not] at hnot
      refine h.search (List.nil_sublist _) rfl ?_
      dsimp only
      rw [hnot.2]
      exact nofun

/-- A step that reuses a connection breaks the property. -/
theorem ListInv.not_reuses (h : s.ListInv) (hholds : (s.step kind op).ListsOnce) : ¬Reuses kind s op := by
  rintro ⟨rfl, rfl, r, i, ptr, hmgr, hstarted⟩
  have hptr : ptr ∈ s.sessionPtrList := h.found ptr (by rw [hmgr]; rfl)
  have hstep : s.step .http2 .runMgr = s.select .http2 r ptr := by
    simp [HttpClient.step, HttpClient.runMgr, hmgr, hstarted]
  rw [hstep] at hholds
  exact not_nodup_select hptr hholds.nodup

/-! ### Runs -/

/-- **No session is in the list twice**, in all states of a run, if and only if no step of the run reuses a connection
of the second client; for the first client that is so in every run. -/
theorem listsOnce_iff (ops : List ClientOp) :
    (∀ maxSessionNum, Run.AllHold (step (.http maxSessionNum)) ListsOnce started ops) ∧
      (Run.AllHold (step .http2) ListsOnce started ops ↔
        Run.AllMeet (step .http2) (fun s op => ¬Reuses .http2 s op) started ops) := by
  constructor
  · intro maxSessionNum
    have hnever : ∀ (s : HttpClient) (op : ClientOp), ¬Reuses (.http maxSessionNum) s op := by
      rintro s op ⟨hkind, -⟩
      cases hkind
    exact Run.allHold_of_inv ListInv ListInv.listsOnce (fun h op => h.step (hnever _ op)) listInv_started ops
  · exact Run.allHold_iff_allMeet ListInv ListInv.listsOnce (fun h _ hmeets => h.step hmeets)
      (fun h _ hholds => h.not_reuses hholds) listInv_started ops

/-- One call after the other, with one connection. -/
def twoCalls : List ClientOp :=
  [.call 0, .start 0, .runMgr, .begin 0, .send 0, .arrive 0 0, .finish 0, .complete 0, .call 1, .start 1, .runMgr,
    .runMgr, .runMgr]

/-- The connection is in the list once for each of the calls. -/
theorem not_listsOnce : ¬∀ ops, Run.AllHold (step .http2) ListsOnce started ops := by
  intro h
  have hlist : (twoCalls.foldl (step .http2) started).sessionPtrList = [0, 0] := by decide
  have hnodup := (h twoCalls).last.nodup
  rw [hlist] at hnodup
  exact absurd hnodup (by decide)

end HttpClient

end AimRT.Net

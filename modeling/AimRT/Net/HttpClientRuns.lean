import AimRT.Net.HttpClientInv

/-!
# The runs of the http clients

Every step keeps the invariant, where no connection is selected before its last response is taken; a
step that selects one gives it two requests.
-/

namespace AimRT.Net

open AimRT.Lib

namespace HttpClient

variable {kind : ClientKind} {s : HttpClient}

theorem Inv.create (h : s.Inv kind) {r : ℕ} (hcall : s.mgr.call = some r) :
    (s.create kind r).Inv kind := by
  have hr : s.calls r = .called := h.mgrCall hcall
  unfold HttpClient.create
  split
  next hroom =>
    have hunused : ∀ a, (s.calls a).session ≠ some s.sessionNum := fun a ha =>
      absurd (h.lt ha) (Nat.lt_irrefl _)
    have hpost := h.free.extend.post hr (Nat.lt_succ_self _) hunused
      (by simp [ClientSession.started]) (by simp [ClientSession.started]) rfl
    refine hpost.setList (fun ptr hptr => ?_) fun hkind => ?_
    · rcases List.mem_append.1 hptr with hptr | hptr
      · exact Nat.lt_succ_of_lt (h.list ptr hptr)
      · exact List.mem_singleton.1 hptr ▸ Nat.lt_succ_self _
    · subst hkind
      rw [List.length_append]
      exact of_decide_eq_true hroom
  · exact h.free.setCall (hr ▸ rfl) rfl (fun hco => by cases hco) fun hcall' => by cases hcall'

/-- A session whose idle flag is set has no call, or one that has set it. -/
theorem Fits.eq_restored {r ptr : ℕ} {sess : ClientSession} {co : CallCo} (h : Fits kind r sess co)
    (hco : co.session = some ptr) (hflag : sess.idleFlag) : co = .restored ptr := by
  cases co with
  | posted p => exact absurd h.2.1 (by simp [hflag])
  | exchanging p => exact absurd h.2.1 (by simp [hflag])
  | waiting p => exact absurd h.2.1 (by simp [hflag])
  | taken p rsp => exact absurd h.2.1 (by simp [hflag])
  | restored p => exact congrArg CallCo.restored (Option.some.inj hco)
  | _ => cases hco

/-- The search takes the idle flag of a session. -/
theorem Inv.takeFlag (h : s.Inv kind) {r i ptr : ℕ} (hm : s.mgr = .running r i ptr)
    (hflag : (s.sessions ptr).idleFlag) :
    { s.setSession ptr { s.sessions ptr with idleFlag := false } with mgr := .idle r i ptr }.Inv kind := by
  have hothers : ∀ {a}, (s.calls a).session = some ptr → s.calls a = .restored ptr := fun ha =>
    (h.fits ha).eq_restored ha hflag
  have hsessions : ∀ p, (s.setSession ptr { s.sessions ptr with idleFlag := false }).sessions p =
      if p = ptr then { s.sessions ptr with idleFlag := false } else s.sessions p := fun p =>
    Function.update_apply ..
  refine ⟨h.one, h.lt, fun {a p} ha => ?_, h.returned, fun {p} hp hunused => ?_, fun hcall => ?_,
    (fun hrunning => by cases hrunning), fun hidle => ?_, h.list, h.bounded⟩
  · dsimp only
    rw [hsessions]
    split
    next heq =>
      subst heq
      have hfits := h.fits ha
      rw [hothers ha] at hfits
      exact (hothers ha : s.calls a = _) ▸ hfits
    · exact h.fits ha
  · dsimp only
    rw [hsessions]
    split
    next heq => exact heq ▸ h.clean hp hunused
    · exact h.clean hp hunused
  · cases hcall
    exact h.mgrCall (by rw [hm]; rfl)
  · cases hidle
    refine ⟨h.mgrRunning hm, ?_, hothers⟩
    dsimp only
    rw [hsessions, if_pos rfl]

/-- A search step; a session is selected where no call uses it. -/
theorem Inv.runMgr (h : s.Inv kind) (hmeets : s.Meets .runMgr) : (s.runMgr kind).Inv kind := by
  unfold HttpClient.runMgr
  split
  · exact h
  next r i hm =>
    have hcall : s.mgr.call = some r := by rw [hm]; rfl
    split
    · exact h.create hcall
    next ptr hptr =>
      split
      · refine h.setMgr (fun hr => ?_) (fun hr => ?_) fun hr => by cases hr
        · cases hr
          exact h.mgrCall hcall
        · cases hr
          exact h.list ptr (List.mem_of_getElem? hptr)
      · refine h.setList (fun p hp => h.list p (List.eraseIdx_subset hp)) fun hkind => ?_
        exact Nat.le_trans (List.length_eraseIdx_le _ _) (h.bounded hkind)
  next r i ptr hm =>
    have hcall : s.mgr.call = some r := by rw [hm]; rfl
    split
    next hflag => exact h.takeFlag hm hflag
    · exact h.next hcall (i + 1)
  next r i ptr hm =>
    have hcall : s.mgr.call = some r := by rw [hm]; rfl
    obtain ⟨hlt, hflag, hothers⟩ := h.mgrIdle hm
    split
    next hstarted =>
      have hpost := h.free.post (h.mgrCall hcall) hlt
        (fun a ha => hmeets rfl hm hstarted a (hothers ha)) hstarted hflag rfl
      refine hpost.setList ?_ ?_
      · intro p hp
        cases kind with
        | http maxSessionNum => exact h.list p hp
        | http2 =>
          rcases List.mem_append.1 hp with hp | hp
          · exact h.list p hp
          · exact List.mem_singleton.1 hp ▸ hlt
      · rintro maxSessionNum rfl
        exact h.bounded rfl
    · exact h.next hcall (i + 1)

/-! ### The exchange -/

theorem Inv.fail (h : s.Inv kind) {r ptr : ℕ} (hr : (s.calls r).session = some ptr) :
    (s.fail r ptr).Inv kind :=
  h.move hr (.inr rfl) (fun hco => by cases hco) (fun hco => by cases hco)
    (fun _ => ⟨fun _ => rfl, fun hnot => by cases hnot⟩) fun _ => ⟨rfl, rfl⟩

/-- The session of a call, and what holds of both. -/
theorem Inv.fits_of_eq (h : s.Inv kind) {r ptr : ℕ} {co : CallCo} (hr : s.calls r = co)
    (hco : co.session = some ptr) : (s.calls r).session = some ptr ∧ Fits kind r (s.sessions ptr) co := by
  subst hr
  exact ⟨hco, h.fits hco⟩

/-- A call goes on with its session. -/
theorem Inv.goOn (h : s.Inv kind) {r ptr : ℕ} {co co' : CallCo} {sess : ClientSession} (hr : s.calls r = co)
    (hco : co.session = some ptr) (hnot : co ≠ .restored ptr) (hco' : co'.session = some ptr)
    (hfits : Fits kind r sess co') : (s.move r ptr co' sess).Inv kind := by
  refine h.move (h.fits_of_eq hr hco).1 (.inl hco') (fun _ => hfits) (fun hreturned => ?_) (fun hnone => ?_)
    fun hrestored => absurd (hr.symm.trans hrestored) hnot
  · rw [hreturned] at hco'
    cases hco'
  · cases hnone.symm.trans hco'

theorem Inv.begin (h : s.Inv kind) (r : ℕ) : (s.begin r).Inv kind := by
  unfold HttpClient.begin
  split
  next ptr hr =>
    obtain ⟨hsession, hfits⟩ := h.fits_of_eq hr rfl
    split
    · have hmove : (s.move r ptr (.exchanging ptr) (s.sessions ptr)).Inv kind := h.goOn hr rfl nofun rfl hfits
      rwa [HttpClient.move, setSession, Function.update_eq_self] at hmove
    · exact h.fail hsession
  · exact h

theorem Inv.send (h : s.Inv kind) (r : ℕ) : (s.send r).Inv kind := by
  unfold HttpClient.send
  split
  next ptr hr =>
    obtain ⟨-, hnot, hflag, hsent, hresponses⟩ := h.fits_of_eq hr rfl
    refine h.goOn hr rfl nofun rfl ⟨hnot, hflag, ?_⟩
    rw [hsent, hresponses]
    rfl
  · exact h

theorem Inv.exchangeFails (h : s.Inv kind) (r : ℕ) : (s.exchangeFails r).Inv kind := by
  unfold HttpClient.exchangeFails
  split
  next ptr hr => exact h.fail (by rw [hr]; rfl)
  next ptr hr => exact h.fail (by rw [hr]; rfl)
  · exact h

theorem setSession_eq_move {r : ℕ} {co : CallCo} (hr : s.calls r = co) (ptr : ℕ)
    (sess : ClientSession) : s.setSession ptr sess = s.move r ptr co sess := by
  rw [HttpClient.move, HttpClient.setCall, setSession, ← hr, Function.update_eq_self]

/-- The only request that is sent is that of the call itself. -/
theorem Inv.arrive (h : s.Inv kind) (r q : ℕ) : (s.arrive r q).Inv kind := by
  unfold HttpClient.arrive
  split
  next ptr hr =>
    obtain ⟨-, hnot, hflag, hcontent⟩ := h.fits_of_eq hr rfl
    dsimp only
    split
    next hq =>
      have hsent : (s.sessions ptr).sent = [r] ∧ (s.sessions ptr).responses = [] := by
        rcases List.append_eq_singleton_iff.1 hcontent with ⟨hnil, -⟩ | hsent
        · simp [hnil] at hq
        · exact hsent
      obtain rfl : q = r := by simpa [hsent.1] using hq
      rw [setSession_eq_move hr]
      refine h.goOn hr rfl nofun rfl ⟨hnot, hflag, ?_⟩
      simp [hsent.1, hsent.2]
    · exact h
  · exact h

theorem Inv.finish (h : s.Inv kind) (r : ℕ) : (s.finish kind r).Inv kind := by
  unfold HttpClient.finish
  split
  next ptr hr =>
    obtain ⟨-, hnot, hflag, hcontent⟩ := h.fits_of_eq hr rfl
    dsimp only
    split
    · exact h
    next rsp responses hresponses =>
      obtain ⟨hsent, rfl, rfl⟩ : (s.sessions ptr).sent = [] ∧ rsp = r ∧ responses = [] := by
        rw [hresponses] at hcontent
        rcases List.append_eq_singleton_iff.1 hcontent with ⟨hsent, hone⟩ | ⟨-, hnil⟩
        · exact ⟨hsent, (List.cons.inj hone).1, (List.cons.inj hone).2⟩
        · cases hnil
      cases kind with
      | http maxSessionNum => exact h.goOn hr rfl nofun rfl ⟨hnot, hflag, hsent, rfl, rfl⟩
      | http2 => exact h.goOn hr rfl nofun rfl ⟨hnot, rfl, hsent, hresponses⟩
  · exact h

theorem Inv.complete (h : s.Inv kind) (r : ℕ) : (s.complete r).Inv kind := by
  unfold HttpClient.complete
  split
  next ptr rsp hr =>
    obtain ⟨hsession, hnot, -, hsent, hresponses, rfl⟩ := h.fits_of_eq hr rfl
    refine h.move hsession (.inr rfl) (fun hco => by cases hco) (fun hco => by cases hco; rfl)
      (fun _ => ⟨fun hfailed => ?_, fun _ => ⟨hsent, hresponses⟩⟩) fun hco => by cases hr.symm.trans hco
    cases hnot.symm.trans hfailed
  next ptr hr =>
    obtain ⟨hsession, hnot, -, hsent, hresponses⟩ := h.fits_of_eq hr rfl
    split
    next rsp hone =>
      obtain rfl : r = rsp := by simpa [hresponses] using hone
      refine h.move hsession (.inr rfl) (fun hco => by cases hco) (fun hco => by cases hco; rfl)
        (fun _ => ⟨fun hfailed => ?_, fun _ => ⟨hsent, rfl⟩⟩) fun _ => ⟨rfl, rfl⟩
      cases hnot.symm.trans hfailed
    · exact h.fail hsession
  · exact h

theorem Inv.step (h : s.Inv kind) {op : ClientOp} (hmeets : s.Meets op) : (s.step kind op).Inv kind := by
  cases op with
  | call r =>
    dsimp only [HttpClient.step, HttpClient.call]
    split
    next hr =>
      exact h.setCall (by rw [hr]; rfl) rfl (fun hco => by cases hco) fun _ => rfl
    · exact h
  | start r =>
    dsimp only [HttpClient.step, HttpClient.start]
    split
    · exact h
    next hready =>
      obtain ⟨hfree, hr⟩ := not_or.1 hready
      replace hr := not_not.1 hr
      split
      · refine h.setMgr (fun hcall => ?_) (fun hm => by cases hm) fun hm => by cases hm
        cases hcall
        exact hr
      · refine h.setCall (by rw [hr]; rfl) rfl (fun hco => by cases hco) fun hcall => ?_
        rw [not_not.1 hfree] at hcall
        cases hcall
  | runMgr => exact h.runMgr hmeets
  | begin r => exact h.begin r
  | send r => exact h.send r
  | exchangeFails r => exact h.exchangeFails r
  | arrive r q => exact h.arrive r q
  | finish r => exact h.finish r
  | complete r => exact h.complete r
  | needEof r =>
    dsimp only [HttpClient.step, HttpClient.needEof]
    split
    · exact h.setSession_same (sameBut_shutdown _)
    · exact h
  | timerExpires ptr => exact h.setSession_same (sameBut_timerExpires _)
  | shutdown =>
    dsimp only [HttpClient.step, HttpClient.shutdown]
    split
    · exact ⟨h.one, h.lt, h.fits, h.returned, h.clean, h.mgrCall, h.mgrRunning, h.mgrIdle, h.list, h.bounded⟩
    · exact h
  | clear =>
    dsimp only [HttpClient.step, HttpClient.clear]
    split
    · exact h
    · have hclosing : { s with closing := s.closing - 1 }.Inv kind :=
        ⟨h.one, h.lt, h.fits, h.returned, h.clean, h.mgrCall, h.mgrRunning, h.mgrIdle, h.list, h.bounded⟩
      have hsame : ∀ ptr, SameBut (s.sessions ptr)
          (if s.sessionPtrList.contains ptr then (s.sessions ptr).shutdown else s.sessions ptr) := by
        intro ptr
        split
        · exact sameBut_shutdown _
        · exact .refl _
      exact (hclosing.same hsame).setList (by simp) fun _ => Nat.zero_le _

/-- A session that is selected while its last call still has to take the response has two requests. -/
theorem Inv.meets_of_holds (h : s.Inv kind) {op : ClientOp} (hholds : (s.step kind op).Holds kind) :
    s.Meets op := by
  rintro rfl r i ptr hm hstarted r' hr'
  have hr : s.calls r = .called := h.mgrCall (by rw [hm]; rfl)
  have hne : r' ≠ r := by
    rintro rfl
    cases hr.symm.trans hr'
  have hstep : s.runMgr kind = s.select kind r ptr := by
    simp [HttpClient.runMgr, hm, hstarted]
  rw [HttpClient.step, hstep] at hholds
  refine hne (@Holds.exclusive _ _ hholds r' r ptr ?_ ?_)
  · simp [select, HttpClient.setCall, hne, hr', CallCo.active, CallCo.session]
  · simp [select, HttpClient.setCall, CallCo.active, CallCo.session]

/-- The first client never sets the flag before it takes the response. -/
theorem Inv.meets_http {maxSessionNum : ℕ} (h : s.Inv (.http maxSessionNum)) (op : ClientOp) :
    s.Meets op := by
  rintro rfl r i ptr - - r' hr'
  have hfits : Fits (.http maxSessionNum) r' (s.sessions ptr) (.restored ptr) :=
    hr' ▸ h.fits (by rw [hr']; rfl)
  cases hfits.2.1

/-- **A pooled connection carries one call at a time**, in all states of every run of the first client,
and of the second one where no connection is selected before its last response is taken. -/
theorem pooledConnection_iff (ops : List ClientOp) :
    (∀ maxSessionNum, started.AllHold (.http maxSessionNum) ops) ∧
      (started.AllHold .http2 ops ↔ started.AllMeet .http2 ops) :=
  ⟨fun maxSessionNum => Run.allHold_of_inv (Inv (.http maxSessionNum)) Inv.holds
      (fun h op => h.step (h.meets_http op)) (inv_started _) ops,
    Run.allHold_iff_allMeet (Inv .http2) Inv.holds Inv.step Inv.meets_of_holds (inv_started _) ops⟩

/-- The second call selects the connection of the first one, whose response is still to be taken. -/
theorem not_pooledConnection : ¬ started.AllHold .http2 [.call 0, .start 0, .runMgr, .begin 0, .send 0,
    .arrive 0 0, .finish 0, .call 1, .start 1, .runMgr, .runMgr, .runMgr] := by
  rintro ⟨-, -, -, -, -, -, -, -, -, -, -, -, hholds⟩
  exact absurd (@Holds.exclusive _ _ hholds 0 1 0 (by decide) (by decide)) (by decide)

end HttpClient

end AimRT.Net

import AimRT.Net.AsioHttpClient

/-!
# The invariant of the http clients

The idle flag of a session is a token: it is set, a search holds it, or the session has a call.  Only
a call of the second client that has set the flag and has still to take its response is without it.

What a step does to the invariant depends on what it changes: a call with its session, sessions
alone, the search, or a call without a session.
-/

namespace AimRT.Net

namespace HttpClient

variable (kind : ClientKind) (s : HttpClient)

/-- Nothing of a request is left in a session. -/
def Clean (sess : ClientSession) : Prop :=
  (sess.failed → sess.isStarted = false) ∧ (sess.failed = false → sess.sent = [] ∧ sess.responses = [])

/-- What holds of the call `r` where it stands, with its session. -/
def Fits (r : ℕ) (sess : ClientSession) : CallCo → Prop
  | .posted _ => sess.failed = false ∧ sess.idleFlag = false ∧ sess.sent = [] ∧ sess.responses = []
  | .exchanging _ => sess.failed = false ∧ sess.idleFlag = false ∧ sess.sent = [] ∧ sess.responses = []
  | .waiting _ => sess.failed = false ∧ sess.idleFlag = false ∧ sess.sent ++ sess.responses = [r]
  | .taken _ rsp =>
    sess.failed = false ∧ sess.idleFlag = false ∧ sess.sent = [] ∧ sess.responses = [] ∧ rsp = r
  | .restored _ => sess.failed = false ∧ kind = .http2 ∧ sess.sent = [] ∧ sess.responses = [r]
  | .returned rsp => rsp = r
  | _ => True

/-- What holds in all states of a run whose steps meet the condition. -/
structure Inv : Prop where
  one : ∀ {r r' ptr}, (s.calls r).session = some ptr → (s.calls r').session = some ptr → r = r'
  lt : ∀ {r ptr}, (s.calls r).session = some ptr → ptr < s.sessionNum
  fits : ∀ {r ptr}, (s.calls r).session = some ptr → Fits kind r (s.sessions ptr) (s.calls r)
  returned : ∀ {r rsp}, s.calls r = .returned rsp → rsp = r
  clean : ∀ {ptr}, ptr < s.sessionNum → (∀ r, (s.calls r).session ≠ some ptr) → Clean (s.sessions ptr)
  mgrCall : ∀ {r}, s.mgr.call = some r → s.calls r = .called
  mgrRunning : ∀ {r i ptr}, s.mgr = .running r i ptr → ptr < s.sessionNum
  mgrIdle : ∀ {r i ptr}, s.mgr = .idle r i ptr → ptr < s.sessionNum ∧
    (s.sessions ptr).idleFlag = false ∧
      ∀ {r'}, (s.calls r').session = some ptr → s.calls r' = .restored ptr
  list : ∀ ptr ∈ s.sessionPtrList, ptr < s.sessionNum
  bounded : ∀ {maxSessionNum}, kind = .http maxSessionNum → s.sessionPtrList.length ≤ maxSessionNum

variable {kind} {s}

theorem session_of_active {co : CallCo} {ptr : ℕ} (h : co.active = some ptr) : co.session = some ptr := by
  cases co with
  | taken ptr rsp => cases h
  | _ => exact h

theorem Fits.not_failed {r ptr : ℕ} {sess : ClientSession} {co : CallCo} (h : Fits kind r sess co)
    (hco : co.session = some ptr) : sess.failed = false := by
  cases co with
  | posted ptr => exact h.1
  | exchanging ptr => exact h.1
  | waiting ptr => exact h.1
  | taken ptr rsp => exact h.1
  | restored ptr => exact h.1
  | _ => cases hco

theorem Inv.holds (h : s.Inv kind) : s.Holds kind where
  exclusive hr hr' := h.one (session_of_active hr) (session_of_active hr')
  own := h.returned
  neverAgain {r ptr} hfailed hactive := by
    have hnot := (h.fits (session_of_active hactive)).not_failed (session_of_active hactive)
    rw [hnot] at hfailed
    cases hfailed
  bounded := h.bounded

theorem inv_started (kind : ClientKind) : started.Inv kind where
  one h := by cases h
  lt h := by cases h
  fits h := by cases h
  returned h := by cases h
  clean h := by cases h
  mgrCall h := by cases h
  mgrRunning h := by cases h
  mgrIdle h := by cases h
  list := by simp [started]
  bounded _ := Nat.zero_le _

theorem move_calls (r ptr : ℕ) (co : CallCo) (sess : ClientSession) (a : ℕ) :
    (s.move r ptr co sess).calls a = if a = r then co else s.calls a := Function.update_apply ..

theorem move_sessions (r ptr : ℕ) (co : CallCo) (sess : ClientSession) (p : ℕ) :
    (s.move r ptr co sess).sessions p = if p = ptr then sess else s.sessions p :=
  Function.update_apply ..

/-- A call that uses a session does something with it, or stops to use it. -/
theorem Inv.move (h : s.Inv kind) {r ptr : ℕ} {co : CallCo} {sess : ClientSession}
    (hr : (s.calls r).session = some ptr) (hsession : co.session = some ptr ∨ co.session = none)
    (hfits : co.session = some ptr → Fits kind r sess co)
    (hreturned : ∀ {rsp}, co = .returned rsp → rsp = r) (hclean : co.session = none → Clean sess)
    (hrestored : s.calls r = .restored ptr →
      sess.idleFlag = (s.sessions ptr).idleFlag ∧ co.session = none) :
    (s.move r ptr co sess).Inv kind := by
  -- no call uses a session that it has not used before
  have hold : ∀ {a p}, ((s.move r ptr co sess).calls a).session = some p →
      (s.calls a).session = some p := by
    intro a p ha
    rw [move_calls] at ha
    split at ha
    next heq =>
      subst heq
      rcases hsession with hsome | hnone
      · rwa [← ha, hsome] at *
      · cases hnone.symm.trans ha
    · exact ha
  have hcalls : ∀ {a}, a ≠ r → (s.move r ptr co sess).calls a = s.calls a := fun hne => by
    rw [move_calls, if_neg hne]
  refine ⟨fun ha hb => h.one (hold ha) (hold hb), fun ha => h.lt (hold ha), fun {a p} ha => ?_,
    fun {a rsp} ha => ?_, fun {p} hp hunused => ?_, fun {a} ha => ?_, h.mgrRunning, fun {a i p} ha => ?_,
    h.list, h.bounded⟩
  · have hlast := hold ha
    rw [move_sessions]
    by_cases hne : a = r
    · subst hne
      cases hr.symm.trans hlast
      rw [move_calls, if_pos rfl] at ha ⊢
      rw [if_pos rfl]
      exact hfits ha
    · have hp : p ≠ ptr := fun hp => hne (h.one (hp ▸ hlast) hr)
      rw [hcalls hne, if_neg hp]
      exact h.fits hlast
  · by_cases hne : a = r
    · subst hne
      rw [move_calls, if_pos rfl] at ha
      exact hreturned ha
    · exact h.returned (hcalls hne ▸ ha)
  · rw [move_sessions]
    split
    next heq =>
      subst heq
      have hco := hunused r
      rw [move_calls, if_pos rfl] at hco
      exact hclean (hsession.resolve_left hco)
    next hne =>
      refine h.clean hp fun a ha => ?_
      by_cases har : a = r
      · subst har
        exact hne (Option.some.inj (ha.symm.trans hr))
      · exact hunused a (hcalls har ▸ ha)
  · have hne : a ≠ r := by
      rintro rfl
      rw [h.mgrCall ha] at hr
      cases hr
    rw [hcalls hne]
    exact h.mgrCall ha
  · obtain ⟨hlt, hflag, hothers⟩ := h.mgrIdle ha
    rw [move_sessions]
    split
    next heq =>
      subst heq
      obtain ⟨hsame, hnone⟩ := hrestored (hothers hr)
      refine ⟨hlt, hsame.trans hflag, fun {b} hb => ?_⟩
      cases h.one (hold hb) hr
      rw [move_calls, if_pos rfl, hnone] at hb
      cases hb
    next hne =>
      refine ⟨hlt, hflag, fun {b} hb => ?_⟩
      have hbr : b ≠ r := by
        rintro rfl
        exact hne (Option.some.inj ((hold hb).symm.trans hr))
      rw [hcalls hbr]
      exact hothers (hold hb)

/-- A session that changes in nothing but its state, which is not started again, and its ticks. -/
structure SameBut (sess sess' : ClientSession) : Prop where
  idleFlag : sess'.idleFlag = sess.idleFlag
  sent : sess'.sent = sess.sent
  responses : sess'.responses = sess.responses
  failed : sess'.failed = sess.failed
  stopped : sess.isStarted = false → sess'.isStarted = false

theorem SameBut.refl (sess : ClientSession) : SameBut sess sess := ⟨rfl, rfl, rfl, rfl, id⟩

theorem sameBut_shutdown (sess : ClientSession) : SameBut sess sess.shutdown :=
  ⟨rfl, rfl, rfl, rfl, fun _ => rfl⟩

theorem sameBut_timerExpires (sess : ClientSession) : SameBut sess sess.timerExpires := by
  unfold ClientSession.timerExpires
  split
  · exact .refl sess
  · split
    · exact ⟨rfl, rfl, rfl, rfl, id⟩
    · exact sameBut_shutdown sess

theorem Fits.same {r : ℕ} {sess sess' : ClientSession} (h : SameBut sess sess') {co : CallCo}
    (hfits : Fits kind r sess co) : Fits kind r sess' co := by
  unfold Fits at *
  rwa [h.idleFlag, h.sent, h.responses, h.failed]

theorem Inv.same (h : s.Inv kind) {sessions : ℕ → ClientSession}
    (hsame : ∀ ptr, SameBut (s.sessions ptr) (sessions ptr)) :
    { s with sessions := sessions }.Inv kind where
  one := h.one
  lt := h.lt
  fits ha := (h.fits ha).same (hsame _)
  returned := h.returned
  clean {ptr} hp hunused := by
    obtain ⟨hstopped, hempty⟩ := h.clean hp hunused
    refine ⟨fun hfailed => ?_, fun hnot => ?_⟩
    · exact (hsame ptr).stopped (hstopped ((hsame ptr).failed ▸ hfailed))
    · rw [(hsame ptr).sent, (hsame ptr).responses]
      exact hempty ((hsame ptr).failed ▸ hnot)
  mgrCall := h.mgrCall
  mgrRunning := h.mgrRunning
  mgrIdle {_ _ ptr} hm := by
    obtain ⟨hlt, hflag, hothers⟩ := h.mgrIdle hm
    exact ⟨hlt, (hsame ptr).idleFlag.trans hflag, hothers⟩
  list := h.list
  bounded := h.bounded

theorem Inv.setSession_same (h : s.Inv kind) {ptr : ℕ} {sess : ClientSession}
    (hsame : SameBut (s.sessions ptr) sess) : (s.setSession ptr sess).Inv kind := by
  refine h.same fun p => ?_
  rw [Function.update_apply]
  split
  next heq => exact heq ▸ hsame
  · exact .refl _

/-- The search of the list goes on, or ends. -/
theorem Inv.setMgr (h : s.Inv kind) {mgr : SearchCo} (hcall : ∀ {r}, mgr.call = some r → s.calls r = .called)
    (hrunning : ∀ {r i ptr}, mgr = .running r i ptr → ptr < s.sessionNum)
    (hidle : ∀ {r i ptr}, mgr ≠ .idle r i ptr) : { s with mgr := mgr }.Inv kind where
  one := h.one
  lt := h.lt
  fits := h.fits
  returned := h.returned
  clean := h.clean
  mgrCall := hcall
  mgrRunning := hrunning
  mgrIdle hm := absurd hm hidle
  list := h.list
  bounded := h.bounded

theorem Inv.free (h : s.Inv kind) : { s with mgr := .free }.Inv kind :=
  h.setMgr (fun hcall => by cases hcall) (fun hm => by cases hm) fun hm => by cases hm

theorem Inv.next (h : s.Inv kind) {r : ℕ} (hcall : s.mgr.call = some r) (i : ℕ) :
    { s with mgr := .loop r i }.Inv kind := by
  refine h.setMgr (fun hr => ?_) (fun hm => by cases hm) fun hm => by cases hm
  cases hr
  exact h.mgrCall hcall

/-- A call that uses no session goes on without one. -/
theorem Inv.setCall (h : s.Inv kind) {r : ℕ} {co : CallCo} (hr : (s.calls r).session = none)
    (hco : co.session = none) (hreturned : ∀ {rsp}, co = .returned rsp → rsp = r)
    (hmgr : s.mgr.call = some r → co = .called) : (s.setCall r co).Inv kind := by
  have hcalls : ∀ a, (s.setCall r co).calls a = if a = r then co else s.calls a := fun a =>
    Function.update_apply ..
  have hsession : ∀ a, ((s.setCall r co).calls a).session = (s.calls a).session := by
    intro a
    rw [hcalls]
    split
    next heq => rw [heq, hr, hco]
    · rfl
  have hused : ∀ {a ptr}, (s.calls a).session = some ptr → (s.setCall r co).calls a = s.calls a := by
    intro a ptr ha
    rw [hcalls, if_neg fun heq => by rw [heq, hr] at ha; cases ha]
  refine ⟨fun ha hb => h.one (hsession _ ▸ ha) (hsession _ ▸ hb), fun ha => h.lt (hsession _ ▸ ha),
    fun {a ptr} ha => ?_, fun {a rsp} ha => ?_, fun hp hunused => ?_, fun {a} ha => ?_, h.mgrRunning,
    fun {a i ptr} hm => ?_, h.list, h.bounded⟩
  · rw [hsession] at ha
    rw [hused ha]
    exact h.fits ha
  · rw [hcalls] at ha
    split at ha
    next heq => exact heq ▸ hreturned ha
    · exact h.returned ha
  · exact h.clean hp fun a ha => hunused a ((hsession a).trans ha)
  · rw [hcalls]
    split
    next heq => exact hmgr (heq ▸ ha)
    · exact h.mgrCall ha
  · obtain ⟨hlt, hflag, hothers⟩ := h.mgrIdle hm
    refine ⟨hlt, hflag, fun {b} hb => ?_⟩
    rw [hsession] at hb
    rw [hused hb]
    exact hothers hb

theorem Inv.setList (h : s.Inv kind) {l : List ℕ} (hl : ∀ ptr ∈ l, ptr < s.sessionNum)
    (hbounded : ∀ {maxSessionNum}, kind = .http maxSessionNum → l.length ≤ maxSessionNum) :
    { s with sessionPtrList := l }.Inv kind :=
  ⟨h.one, h.lt, h.fits, h.returned, h.clean, h.mgrCall, h.mgrRunning, h.mgrIdle, hl, hbounded⟩

/-- A call gets a session that no call uses. -/
theorem Inv.post (h : s.Inv kind) {r ptr : ℕ} (hr : s.calls r = .called) (hptr : ptr < s.sessionNum)
    (hunused : ∀ a, (s.calls a).session ≠ some ptr) (hstarted : (s.sessions ptr).isStarted)
    (hflag : (s.sessions ptr).idleFlag = false) (hfree : s.mgr = .free) :
    (s.setCall r (.posted ptr)).Inv kind := by
  have hcalls : ∀ a, (s.setCall r (.posted ptr)).calls a = if a = r then .posted ptr else s.calls a :=
    fun a => Function.update_apply ..
  have hcases : ∀ {a p}, ((s.setCall r (.posted ptr)).calls a).session = some p →
      (a = r ∧ p = ptr) ∨ (a ≠ r ∧ (s.calls a).session = some p) := by
    intro a p ha
    rw [hcalls] at ha
    split at ha
    next heq => exact .inl ⟨heq, (Option.some.inj ha).symm⟩
    next hne => exact .inr ⟨hne, ha⟩
  obtain ⟨hstopped, hempty⟩ := h.clean hptr hunused
  have hnot : (s.sessions ptr).failed = false := by
    by_contra hfailed
    rw [Bool.not_eq_false] at hfailed
    rw [hstopped hfailed] at hstarted
    cases hstarted
  refine ⟨fun {a b p} ha hb => ?_, fun {a p} ha => ?_, fun {a p} ha => ?_, fun {a rsp} ha => ?_,
    fun {p} hp hnone => ?_, fun hcall => ?_, h.mgrRunning, fun hm => ?_, h.list, h.bounded⟩
  · rcases hcases ha with ⟨rfl, rfl⟩ | ⟨-, ha'⟩
    · rcases hcases hb with ⟨rfl, -⟩ | ⟨-, hb'⟩
      · rfl
      · exact absurd hb' (hunused b)
    · rcases hcases hb with ⟨rfl, rfl⟩ | ⟨-, hb'⟩
      · exact absurd ha' (hunused a)
      · exact h.one ha' hb'
  · rcases hcases ha with ⟨-, rfl⟩ | ⟨-, ha⟩
    · exact hptr
    · exact h.lt ha
  · rcases hcases ha with ⟨rfl, rfl⟩ | ⟨hne, ha⟩
    · rw [hcalls, if_pos rfl]
      exact ⟨hnot, hflag, hempty hnot⟩
    · rw [hcalls, if_neg hne]
      exact h.fits ha
  · rw [hcalls] at ha
    split at ha
    · cases ha
    · exact h.returned ha
  · refine h.clean hp fun a ha => hnone a ?_
    rw [hcalls, if_neg fun heq => by rw [heq, hr] at ha; cases ha]
    exact ha
  · rw [show (s.setCall r (.posted ptr)).mgr = .free from hfree] at hcall
    cases hcall
  · rw [show (s.setCall r (.posted ptr)).mgr = .free from hfree] at hm
    cases hm

/-- One session more, which no call uses. -/
theorem Inv.extend (h : s.Inv kind) : { s with
    sessionNum := s.sessionNum + 1
    sessions := Function.update s.sessions s.sessionNum .started }.Inv kind := by
  have hsessions : ∀ {ptr}, ptr < s.sessionNum →
      Function.update s.sessions s.sessionNum .started ptr = s.sessions ptr := fun hptr =>
    Function.update_of_ne (Nat.ne_of_lt hptr) ..
  refine ⟨h.one, fun ha => Nat.lt_succ_of_lt (h.lt ha), fun ha => ?_, h.returned, fun {ptr} hp hnone => ?_,
    h.mgrCall, fun hm => Nat.lt_succ_of_lt (h.mgrRunning hm), fun hm => ?_,
    fun ptr hptr => Nat.lt_succ_of_lt (h.list ptr hptr), h.bounded⟩
  · dsimp only
    rw [hsessions (h.lt ha)]
    exact h.fits ha
  · rcases Nat.lt_succ_iff_lt_or_eq.1 hp with hlt | rfl
    · dsimp only
      rw [hsessions hlt]
      exact h.clean hlt hnone
    · dsimp only
      rw [Function.update_self]
      exact ⟨fun hfailed => (by cases hfailed), fun _ => ⟨rfl, rfl⟩⟩
  · obtain ⟨hlt, hflag, hothers⟩ := h.mgrIdle hm
    refine ⟨Nat.lt_succ_of_lt hlt, ?_, hothers⟩
    dsimp only
    rw [hsessions hlt]
    exact hflag

end HttpClient

end AimRT.Net

import AimRT.Net.HttpChannelPublish

/-!
# Runs of publishing coroutines

The steps of the coroutines that share a request keep the invariant where they meet the condition, and
a step that violates it is seen in the next state.  With one url there is nobody to share with.
-/

namespace AimRT.Net

open AimRT.Lib AimRT.Util AimRT.Rpc
open HttpField

namespace HttpPublish

variable {p : HttpPublication} {s : HttpPublish} {i j : ℕ} {co : PublishCo}

/-! ### The invariant -/

/-- The host in the fields is that of the coroutine that set it last. -/
structure Inv (p : HttpPublication) (s : HttpPublish) : Prop extends Holds p s where
  body : s.body = p.data.flatten
  host : ∀ {i}, s.lastSet = some i → Fields.find foldName s.fields host = some (hostOf p i)
  lastSet : ∀ {i}, (s.cos i).hasSet = true → s.lastSet.isSome = true
  contentLength : ∀ {i}, s.cos i = .sending →
    Fields.find foldName s.fields contentLength = some (ascii (toString p.data.flatten.length))
  exited : ∀ {i}, p.urls.length ≤ i → s.cos i = .exited

@[simp] theorem setCo_cos_self : (s.setCo i co).cos i = co := Function.update_self ..

theorem setCo_cos_of_ne (h : j ≠ i) : (s.setCo i co).cos j = s.cos j := Function.update_of_ne h ..

theorem inv_publish : Inv p (publish p) where
  right := by
    intro i req hreq
    simp only [publish] at hreq
    split at hreq <;> cases hreq
  unchanged := by
    intro i j hwriting
    simp only [publish] at hwriting
    split at hwriting <;> cases hwriting
  body := by
    show copyBody p.rooms p.data = _
    rw [copyBody_eq, p.rooms_sum, List.take_length]
  host := by simp [publish]
  lastSet := by
    intro i hset
    simp only [publish] at hset
    split at hset <;> cases hset
  contentLength := by
    intro i hsending
    simp only [publish] at hsending
    split at hsending <;> cases hsending
  exited := fun hle => if_neg (Nat.not_lt.2 hle)

theorem Holds.isWriting_eq_false (h : Holds p s) (hi : (s.cos i).isChanging = true) :
    (s.cos j).isWriting = false := by
  rw [← Bool.not_eq_true]
  intro hj
  rw [h.unchanged hj] at hi
  cases hi

/-- Where a coroutine may go. -/
structure Fits (p : HttpPublication) (s : HttpPublish) (i : ℕ) (co : PublishCo) : Prop where
  right : ∀ {req}, co.request = some req → Right p i req := by simp
  isWriting : co.isWriting = true → ∀ j, (s.cos j).isChanging = false := by simp
  isChanging : co.isChanging = true → ∀ j, (s.cos j).isWriting = false := by simp
  hasSet : co.hasSet = true → s.lastSet.isSome = true := by simp
  sending : co = .sending → Fields.find foldName s.fields contentLength =
    some (ascii (toString p.data.flatten.length)) := by simp

theorem fits_exited : Fits p s i .exited := {}

/-- A step of one coroutine that leaves the fields alone. -/
theorem Inv.setCo (h : Inv p s) (hi : s.cos i ≠ .exited) (hfits : Fits p s i co) :
    Inv p (s.setCo i co) where
  right := by
    intro j req hreq
    by_cases hj : j = i
    · subst hj
      exact hfits.right (by rwa [setCo_cos_self] at hreq)
    · exact h.right (by rwa [setCo_cos_of_ne hj] at hreq)
  unchanged := by
    intro j k hj
    by_cases hji : j = i <;> by_cases hki : k = i
    · rw [hji, setCo_cos_self] at hj
      rw [hki, setCo_cos_self]
      exact co.isChanging_of_isWriting hj
    · rw [hji, setCo_cos_self] at hj
      rw [setCo_cos_of_ne hki]
      exact hfits.isWriting hj k
    · rw [setCo_cos_of_ne hji] at hj
      rw [hki, setCo_cos_self, ← Bool.not_eq_true]
      intro hk
      rw [hfits.isChanging hk j] at hj
      cases hj
    · rw [setCo_cos_of_ne hji] at hj
      rw [setCo_cos_of_ne hki]
      exact h.unchanged hj
  body := h.body
  host := h.host
  lastSet := by
    intro j hj
    by_cases hji : j = i
    · exact hfits.hasSet (by rwa [hji, setCo_cos_self] at hj)
    · exact h.lastSet (by rwa [setCo_cos_of_ne hji] at hj)
  contentLength := by
    intro j hj
    by_cases hji : j = i
    · exact hfits.sending (by rwa [hji, setCo_cos_self] at hj)
    · exact h.contentLength (by rwa [setCo_cos_of_ne hji] at hj)
  exited := by
    intro j hle
    by_cases hji : j = i
    · exact absurd (h.exited (hji ▸ hle)) hi
    · rw [setCo_cos_of_ne hji]
      exact h.exited hle

/-- A change of the fields. -/
theorem Inv.setFields (h : Inv p s) {fields : HttpFields} {lastSet : Option ℕ}
    (hhost : ∀ {i}, lastSet = some i → Fields.find foldName fields HttpField.host = some (hostOf p i))
    (hlast : s.lastSet.isSome = true → lastSet.isSome = true)
    (hlength : Fields.find foldName s.fields HttpField.contentLength =
        some (ascii (toString p.data.flatten.length)) →
      Fields.find foldName fields HttpField.contentLength =
        some (ascii (toString p.data.flatten.length))) :
    Inv p { s with fields := fields, lastSet := lastSet } :=
  { toHolds := ⟨h.right, h.unchanged⟩
    body := h.body
    host := hhost
    lastSet := fun hset => hlast (h.lastSet hset)
    contentLength := fun hsending => hlength (h.contentLength hsending)
    exited := h.exited }

/-! ### The steps -/

theorem Inv.getClient (h : Inv p s) {isFound : Bool} (hmeets : Meets p s (.getClient i isFound)) :
    Inv p (s.getClient p i isFound) := by
  unfold HttpPublish.getClient
  split_ifs with hwaiting hfound
  · exact h
  · have hi := not_not.1 hwaiting
    have hnext : Inv p (s.setCo i .setting) :=
      h.setCo (by simp [hi]) {
        right := by simp
        isWriting := by simp
        isChanging := fun _ => hmeets hi hfound
        hasSet := by simp
        sending := by simp }
    exact { hnext with }
  · exact h.setCo (by simp [not_not.1 hwaiting]) fits_exited

theorem Inv.setHost (h : Inv p s) : Inv p (s.setHost p i) := by
  unfold HttpPublish.setHost
  split_ifs with hsetting
  · exact h
  · have hi := not_not.1 hsetting
    have hfields : Inv p { s with
        fields := Fields.set foldName s.fields HttpField.host (hostOf p i), lastSet := some i } := by
      refine h.setFields (fun {j} hj => ?_) (fun _ => rfl) fun hlength => ?_
      · rw [← Option.some.inj hj]
        exact Fields.find_set_self
      · rw [Fields.find_set (by decide)]
        exact hlength
    have hwriting : ∀ j, (s.cos j).isWriting = false := fun j => h.isWriting_eq_false (by rw [hi]; rfl)
    exact hfields.setCo (by simp [hi]) {
      right := by simp
      isWriting := by simp
      isChanging := fun _ => hwriting
      hasSet := fun _ => rfl
      sending := by simp }

theorem Inv.preparePayload (h : Inv p s) : Inv p (s.preparePayload i) := by
  unfold HttpPublish.preparePayload
  split_ifs with hpreparing
  · exact h
  · have hi := not_not.1 hpreparing
    have hfind : ∀ {name}, foldName name ≠ foldName transferEncoding →
        Fields.find foldName (HttpFields.preparePayload s.body.length s.fields) name =
          Fields.find foldName (Fields.set foldName s.fields HttpField.contentLength
            (ascii (toString s.body.length))) name := fun hname =>
      HttpFields.setNotChunked.find_apply hname
    have hlength : Fields.find foldName (HttpFields.preparePayload s.body.length s.fields)
        HttpField.contentLength = some (ascii (toString p.data.flatten.length)) := by
      rw [hfind (by decide), Fields.find_set_self, h.body]
    have hfields : Inv p { s with
        fields := HttpFields.preparePayload s.body.length s.fields, lastSet := s.lastSet } := by
      refine h.setFields (fun {j} hj => ?_) id fun _ => hlength
      rw [hfind (by decide), Fields.find_set (by decide)]
      exact h.host hj
    have hset : s.lastSet.isSome = true := h.lastSet (i := i) (by rw [hi]; rfl)
    exact hfields.setCo (by simp [hi]) {
      right := by simp
      isWriting := by simp
      isChanging := by simp
      hasSet := fun _ => hset
      sending := fun _ => hlength }

theorem Inv.beginWrite (h : Inv p s) (hmeets : Meets p s (.beginWrite i)) :
    Inv p (s.beginWrite i) := by
  unfold HttpPublish.beginWrite
  split_ifs with hsending hraced
  · exact h
  · exact absurd (hmeets (not_not.1 hsending)).1 (by simp [hraced])
  · have hi := not_not.1 hsending
    obtain ⟨-, hchanging, hhost⟩ := hmeets hi
    refine h.setCo (by simp [hi]) {
      right := fun {req} hreq => ?_
      isWriting := fun _ => hchanging
      isChanging := by simp
      hasSet := by simp
      sending := by simp }
    obtain ⟨j, hj⟩ := Option.isSome_iff_exists.1 (h.lastSet (i := i) (by rw [hi]; rfl))
    refine ⟨s.fields, ?_, ?_, h.contentLength hi⟩
    · rw [← h.body]
      exact (Option.some.inj hreq).symm
    · rw [← hhost j hj]
      exact h.host hj

theorem Inv.endWrite (h : Inv p s) : Inv p (s.endWrite i) := by
  unfold HttpPublish.endWrite
  split
  next req hi =>
    refine h.setCo (by simp [hi]) {
      right := fun {req'} hreq => ?_
      isWriting := by simp
      isChanging := by simp
      hasSet := by simp
      sending := by simp }
    exact h.right (i := i) (by rw [hi]; exact hreq)
  · exact h

theorem Inv.fails (h : Inv p s) : Inv p (s.fails i) := by
  have hexit : ∀ (hi : s.cos i ≠ .exited), Inv p (s.setCo i .exited) := fun hi =>
    h.setCo hi fits_exited
  unfold HttpPublish.fails
  split
  next hi => exact hexit (by simp [hi])
  next hi => exact hexit (by simp [hi])
  · exact h

theorem Inv.step (h : Inv p s) {op : PublishOp} (hmeets : Meets p s op) : Inv p (s.step p op) := by
  cases op with
  | getClient i isFound => exact h.getClient hmeets
  | setHost i => exact h.setHost
  | preparePayload i => exact h.preparePayload
  | beginWrite i => exact h.beginWrite hmeets
  | endWrite i => exact h.endWrite
  | fails i => exact h.fails

/-! ### Steps that violate the condition -/

theorem meets_getClient (h : Holds p (s.getClient p i true)) (hi : s.cos i = .waiting) :
    (s.cos j).isWriting = false := by
  rw [HttpPublish.getClient, if_neg (not_not.2 hi), if_pos rfl] at h
  by_cases hj : j = i
  · rw [hj, hi]
    rfl
  · have hset : ((s.setCo i .setting).cos i).isChanging = true := by rw [setCo_cos_self]; rfl
    have hwriting := h.isWriting_eq_false (j := j) hset
    rwa [show HttpPublish.cos _ j = (s.setCo i .setting).cos j from rfl, setCo_cos_of_ne hj] at hwriting

theorem Inv.meets_beginWrite (h : Inv p s) (hholds : Holds p (s.beginWrite i))
    (hi : s.cos i = .sending) : s.raced = false ∧ (∀ j, (s.cos j).isChanging = false) ∧
      ∀ j, s.lastSet = some j → hostOf p j = hostOf p i := by
  rw [HttpPublish.beginWrite, if_neg (not_not.2 hi)] at hholds
  have hwrite := hholds.right (i := i) (by rw [setCo_cos_self]; rfl)
  obtain ⟨fields, hreq, hhost, -⟩ := hwrite
  split_ifs at hreq with hraced
  obtain ⟨rfl, -⟩ := Prod.ext_iff.1 (Option.some.inj hreq)
  refine ⟨Bool.eq_false_iff.2 hraced, fun j => ?_, fun j hj => ?_⟩
  · by_cases hji : j = i
    · rw [hji, hi]
      rfl
    · have hchanging := hholds.unchanged (i := i) (j := j) (by rw [setCo_cos_self]; rfl)
      rwa [setCo_cos_of_ne hji] at hchanging
  · exact Option.some.inj ((h.host hj).symm.trans hhost)

theorem Inv.meets (h : Inv p s) {op : PublishOp} (hholds : Holds p (s.step p op)) : Meets p s op := by
  cases op with
  | getClient i isFound =>
    rintro hi rfl j
    exact meets_getClient hholds hi
  | beginWrite i => exact h.meets_beginWrite hholds
  | _ => trivial

theorem allHold_iff_allMeet (ops : List PublishOp) :
    Run.AllHold (step p) (Holds p) (publish p) ops ↔ Run.AllMeet (step p) (Meets p) (publish p) ops :=
  Run.allHold_iff_allMeet (Inv p) (fun h => h.toHolds) (fun h _ => h.step) (fun h _ => h.meets)
    inv_publish ops

/-! ### One url -/

/-- No other coroutine has touched the request. -/
structure Alone (p : HttpPublication) (s : HttpPublish) : Prop extends Inv p s where
  raced : s.raced = false
  eq_zero : ∀ {i}, s.lastSet = some i → i = 0

theorem Inv.eq_zero (h : Inv p s) (hle : p.urls.length ≤ 1) (hi : s.cos i ≠ .exited) : i = 0 := by
  by_contra hne
  exact hi (h.exited (by omega))

theorem Alone.meets (h : Alone p s) (hle : p.urls.length ≤ 1) (op : PublishOp) : Meets p s op := by
  have hother : ∀ {i j}, s.cos i ≠ .exited → j ≠ i → s.cos j = .exited := fun hi hne => by
    by_contra hj
    exact hne ((h.toInv.eq_zero hle hj).trans (h.toInv.eq_zero hle hi).symm)
  cases op with
  | getClient i isFound =>
    intro hi _ j
    by_cases hj : j = i
    · rw [hj, hi]
      rfl
    · rw [hother (by simp [hi]) hj]
      rfl
  | beginWrite i =>
    intro hi
    refine ⟨h.raced, fun j => ?_, fun j hj => ?_⟩
    · by_cases hji : j = i
      · rw [hji, hi]
        rfl
      · rw [hother (by simp [hi]) hji]
        rfl
    · rw [h.eq_zero hj, h.toInv.eq_zero hle (i := i) (by simp [hi])]
  | _ => trivial

theorem raced_step {op : PublishOp} (hop : ∀ i isFound, op ≠ .getClient i isFound) :
    (s.step p op).raced = s.raced := by
  cases op with
  | getClient i isFound => exact absurd rfl (hop i isFound)
  | setHost i => rw [step, setHost]; split_ifs <;> rfl
  | preparePayload i => rw [step, preparePayload]; split_ifs <;> rfl
  | beginWrite i => rw [step, beginWrite]; split <;> rfl
  | endWrite i => rw [step, endWrite]; split <;> rfl
  | fails i => rw [step, fails]; split <;> rfl

theorem lastSet_step {op : PublishOp} (hop : ∀ i, op ≠ .setHost i) :
    (s.step p op).lastSet = s.lastSet := by
  cases op with
  | setHost i => exact absurd rfl (hop i)
  | getClient i isFound => rw [step, getClient]; split_ifs <;> rfl
  | preparePayload i => rw [step, preparePayload]; split_ifs <;> rfl
  | beginWrite i => rw [step, beginWrite]; split <;> rfl
  | endWrite i => rw [step, endWrite]; split <;> rfl
  | fails i => rw [step, fails]; split <;> rfl

theorem Alone.raced_getClient (h : Alone p s) (hle : p.urls.length ≤ 1) (isFound : Bool) :
    (s.getClient p i isFound).raced = false := by
  unfold getClient
  split_ifs with hwaiting hfound
  · exact h.raced
  · have hi := not_not.1 hwaiting
    have hzero : i = 0 := h.toInv.eq_zero hle (by simp [hi])
    refine Bool.or_eq_false_iff.2 ⟨h.raced, List.any_eq_false.2 fun j hj => ?_⟩
    -- the only coroutine is the one that has waited
    have hjzero : j = 0 := by
      have := List.mem_range.1 hj
      omega
    rw [hjzero, ← hzero, hi]
    simp
  · exact h.raced

theorem Alone.step (h : Alone p s) (hle : p.urls.length ≤ 1) (op : PublishOp) :
    Alone p (s.step p op) where
  toInv := h.toInv.step (h.meets hle op)
  raced := by
    cases op with
    | getClient i isFound => exact h.raced_getClient hle isFound
    | _ => exact (raced_step (by simp)).trans h.raced
  eq_zero := by
    intro j hj
    cases op with
    | setHost i =>
      rw [HttpPublish.step, setHost] at hj
      split_ifs at hj with hsetting
      · exact h.eq_zero hj
      · rw [← Option.some.inj hj]
        exact h.toInv.eq_zero hle (by simp [not_not.1 hsetting])
    | _ => exact h.eq_zero ((lastSet_step (by simp)).symm.trans hj)

/-- The second coroutine gets its client while the first one writes. -/
def overlap : List PublishOp :=
  [.getClient 0 true, .setHost 0, .preparePayload 0, .beginWrite 0, .getClient 1 true]

theorem not_allHold_overlap (h : 1 < p.urls.length) :
    ¬ Run.AllHold (HttpPublish.step p) (Holds p) (publish p) overlap := by
  rw [allHold_iff_allMeet]
  rintro ⟨-, -, -, -, hmeets, -⟩
  have hzero : 0 < p.urls.length := by omega
  have hwriting := hmeets (by simp [HttpPublish.step, getClient, setHost, preparePayload, beginWrite,
    setCo, publish, h, hzero]) rfl 0
  simp [HttpPublish.step, getClient, setHost, preparePayload, beginWrite, setCo, publish, hzero,
    PublishCo.isWriting] at hwriting

/-- In a run of the coroutines every server gets the right request, and nobody changes it while it is
written, exactly when every step meets the condition; and all runs are such exactly when there is no
more than one url. -/
theorem ownRequest_iff (p : HttpPublication) :
    (∀ ops, Run.AllHold (HttpPublish.step p) (Holds p) (publish p) ops ↔
      Run.AllMeet (HttpPublish.step p) (Meets p) (publish p) ops) ∧
      ((∀ ops, Run.AllHold (HttpPublish.step p) (Holds p) (publish p) ops) ↔ p.urls.length ≤ 1) := by
  refine ⟨allHold_iff_allMeet, fun h => ?_, fun hle => ?_⟩
  · by_contra hlt
    exact not_allHold_overlap (Nat.not_le.1 hlt) (h overlap)
  · have halone : Alone p (publish p) := ⟨inv_publish, rfl, by simp [publish]⟩
    exact Run.allHold_of_inv (Alone p) (fun h => h.toHolds) (fun h => h.step hle) halone

/-- Two servers, and a message of two buffers that goes into one. -/
def twoServers : HttpPublication where
  ctx := ∅
  serializationType := ascii "json"
  urls := [⟨ascii "a", ascii "80", []⟩, ⟨ascii "b", ascii "80", []⟩]
  data := [[1, 2], [3]]
  rooms := [3]
  rooms_sum := rfl

/-- The first server gets the host of the second one. -/
theorem not_ownRequest : ¬ Run.AllHold (HttpPublish.step twoServers) (Holds twoServers)
    (publish twoServers) [.getClient 0 true, .setHost 0, .preparePayload 0, .getClient 1 true,
      .setHost 1, .preparePayload 1, .beginWrite 0] := by
  rintro ⟨-, -, -, -, -, -, -, hholds⟩
  obtain ⟨fields, hreq, hhost, -⟩ := @Holds.right _ _ hholds 0 _ rfl
  obtain ⟨rfl, -⟩ := Prod.ext_iff.1 (Option.some.inj hreq)
  exact absurd hhost (by decide)

end HttpPublish

end AimRT.Net

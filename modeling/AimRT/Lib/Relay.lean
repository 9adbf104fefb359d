import AimRT.Lib.Run

/-!
# Relays

What comes to a node is passed on to the nodes behind it, and the messages that are under way are passed on in any
order.  If each node has one source at most, a message comes once to each node behind the first one, or the first one
is on a cycle and there is always a message under way.
-/

namespace AimRT.Lib.Relay

open Relation

variable {K : Type} (next : K → List K)

/-- `b` is behind `a`. -/
def Passes (a b : K) : Prop := b ∈ next a

/-- Each node comes behind one node only, and once. -/
structure OneSource : Prop where
  nodup : ∀ a, (next a).Nodup
  unique : ∀ {a b c : K}, c ∈ next a → c ∈ next b → a = b

/-- The messages that are under way, each by its node, and those that were passed on. -/
structure Messages (K : Type) where
  pending : List K
  handled : List K
  deriving DecidableEq, Repr

def start (k : K) : Messages K := ⟨[k], []⟩

/-- The message `i` of those under way is passed on. -/
def step (r : Messages K) (i : ℕ) : Messages K :=
  match r.pending[i]? with
  | none => r
  | some a => ⟨r.pending.eraseIdx i ++ next a, r.handled ++ [a]⟩

def run (k : K) (ops : List ℕ) : Messages K := ops.foldl (step next) (start k)

/-- All messages that there have been. -/
def Messages.published (r : Messages K) : List K := r.handled ++ r.pending

/-- What was published is the first message, and what was passed on. -/
structure Inv (k : K) (r : Messages K) : Prop where
  published : r.published.Perm (k :: r.handled.flatMap next)
  reached : ∀ a ∈ r.published, ReflTransGen (Passes next) k a

variable {next} {k : K} {r : Messages K}

theorem inv_start : Inv next k (start k) :=
  ⟨List.Perm.refl _, fun a ha => by rw [List.mem_singleton.1 ha]⟩

theorem published_step {a : K} {i : ℕ} (hi : r.pending[i]? = some a) :
    (step next r i).published.Perm (r.published ++ next a) := by
  obtain ⟨hlt, ha⟩ := List.getElem?_eq_some_iff.1 hi
  have hperm : ([a] ++ r.pending.eraseIdx i).Perm r.pending := ha ▸ List.getElem_cons_eraseIdx_perm hlt
  simp only [step, hi, Messages.published]
  rw [List.append_assoc, List.append_assoc, ← List.append_assoc [a]]
  exact ((hperm.append_right _).append_left _)

theorem Inv.step (h : Inv next k r) (i : ℕ) : Inv next k (step next r i) := by
  cases hi : r.pending[i]? with
  | none =>
    rw [Relay.step, hi]
    exact h
  | some a =>
    have hpublished : (Relay.step next r i).published.Perm (r.published ++ next a) := published_step hi
    have ha : ReflTransGen (Passes next) k a :=
      h.reached a (List.mem_append_right _ (List.mem_of_getElem? hi))
    refine ⟨?_, fun b hb => ?_⟩
    · have hhandled : (Relay.step next r i).handled = r.handled ++ [a] := by rw [Relay.step, hi]
      rw [hhandled, List.flatMap_append, List.flatMap_singleton]
      exact hpublished.trans (h.published.append_right _)
    · rcases List.mem_append.1 (hpublished.mem_iff.1 hb) with hb | hb
      · exact h.reached b hb
      · exact ha.tail hb

theorem inv_run (k : K) (ops : List ℕ) : Inv next k (run next k ops) := by
  suffices h : ∀ r, Inv next k r → Inv next k (ops.foldl (Relay.step next) r) from h _ inv_start
  intro r h
  induction ops generalizing r with
  | nil => exact h
  | cons i ops ih => exact ih _ (h.step i)

section OneSource

variable [DecidableEq K]

/-- A node is published once by itself, and once whenever its source passes a message on. -/
theorem Inv.count_eq (h : Inv next k r) (a : K) :
    r.published.count a = (if k = a then 1 else 0) + (r.handled.flatMap next).count a := by
  rw [h.published.count_eq, List.count_cons]
  rw [Nat.add_comm]
  simp only [beq_iff_eq]

theorem OneSource.count_flatMap (hone : OneSource next) {a b : K} (hab : Passes next a b) (l : List K) :
    (l.flatMap next).count b = l.count a := by
  induction l with
  | nil => rfl
  | cons c l ih =>
    rw [List.flatMap_cons, List.count_append, ih, List.count_cons, Nat.add_comm]
    congr 1
    by_cases hca : c = a
    · rw [hca, List.count_eq_one_of_mem (hone.nodup a) hab, if_pos (beq_self_eq_true a)]
    · rw [List.count_eq_zero_of_not_mem fun hb => hca (hone.unique hb hab), if_neg]
      exact fun heq => hca (beq_iff_eq.1 heq)

theorem Inv.count_le (h : Inv next k r) (hone : OneSource next) (hacyclic : ¬ TransGen (Passes next) k k) {a : K}
    (ha : ReflTransGen (Passes next) k a) : r.published.count a ≤ 1 := by
  -- by induction on the way from the first node, with the source of each node
  induction ha with
  | refl =>
    have hzero : (r.handled.flatMap next).count k = 0 := by
      refine List.count_eq_zero_of_not_mem fun hk => ?_
      obtain ⟨b, hb, hbk⟩ := List.mem_flatMap.1 hk
      exact hacyclic (.tail' (h.reached b (List.mem_append_left _ hb)) hbk)
    rw [h.count_eq, hzero, if_pos rfl]
  | tail hkb hbc ih =>
    rename_i b c
    have hne : k ≠ c := by
      rintro rfl
      exact hacyclic (.tail' hkb hbc)
    rw [h.count_eq, if_neg hne, Nat.zero_add, hone.count_flatMap hbc]
    refine le_trans ?_ ih
    rw [Messages.published, List.count_append]
    exact Nat.le_add_right _ _

/-- Where the first node is on no cycle, no node gets the message twice. -/
theorem Inv.nodup (h : Inv next k r) (hone : OneSource next) (hacyclic : ¬ TransGen (Passes next) k k) :
    r.published.Nodup :=
  List.nodup_iff_count_le_one.2 fun a => by
    by_cases ha : a ∈ r.published
    · exact h.count_le hone hacyclic (h.reached a ha)
    · rw [List.count_eq_zero_of_not_mem ha]
      exact Nat.zero_le 1

/-- Where the first node is on a cycle, there is always a message under way. -/
theorem Inv.acyclic (h : Inv next k r) (hone : OneSource next) (hdone : r.pending = []) :
    ¬ TransGen (Passes next) k k := by
  have hhandled : r.published = r.handled := by rw [Messages.published, hdone, List.append_nil]
  have hcount : ∀ a b, Passes next a b → r.published.count b = (if k = b then 1 else 0) + r.published.count a := by
    intro a b hab
    rw [h.count_eq, hone.count_flatMap hab, ← hhandled]
  -- the nodes behind the first one get the message at least as often
  have hle : ∀ a, ReflTransGen (Passes next) k a → r.published.count k ≤ r.published.count a := by
    intro a ha
    induction ha with
    | refl => exact le_rfl
    | tail _ hbc ih =>
      rw [hcount _ _ hbc]
      exact ih.trans (Nat.le_add_left _ _)
  intro hcycle
  obtain ⟨a, hka, hak⟩ := TransGen.tail'_iff.1 hcycle
  have hk := hcount a k hak
  rw [if_pos rfl] at hk
  have hka := hle a hka
  omega

end OneSource

/-- When no message is under way, those that there were have come to all nodes behind the first. -/
theorem Inv.mem_published_iff (h : Inv next k r) (hdone : r.pending = []) (a : K) :
    a ∈ r.published ↔ ReflTransGen (Passes next) k a := by
  have hhandled : r.published = r.handled := by rw [Messages.published, hdone, List.append_nil]
  refine ⟨h.reached a, fun ha => ?_⟩
  induction ha with
  | refl => exact h.published.mem_iff.2 List.mem_cons_self
  | tail _ hbc ih =>
    rw [hhandled] at ih
    exact h.published.mem_iff.2 (List.mem_cons_of_mem _ (List.mem_flatMap.2 ⟨_, ih, hbc⟩))

/-! ### How long it takes -/

/-- There is a message to pass on. -/
def Pending (r : Messages K) (i : ℕ) : Prop := i < r.pending.length

theorem length_handled {ops : List ℕ} (r : Messages K) (h : Run.AllMeet (step next) Pending r ops) :
    (ops.foldl (step next) r).handled.length = r.handled.length + ops.length := by
  induction ops generalizing r with
  | nil => rfl
  | cons i ops ih =>
    have hstep : ∃ a, (step next r i).handled = r.handled ++ [a] := by
      simp only [step, List.getElem?_eq_getElem h.1]
      exact ⟨_, rfl⟩
    obtain ⟨a, hstep⟩ := hstep
    rw [List.foldl_cons, ih _ h.2, hstep, List.length_append, List.length_cons]
    exact Nat.add_right_comm _ _ _

theorem allMeet_replicate (h : ∀ ops, (run next k ops).pending ≠ []) (n : ℕ) :
    Run.AllMeet (step next) Pending (start k) (List.replicate n 0) := by
  suffices hfrom : ∀ ops, Run.AllMeet (step next) Pending (run next k ops) (List.replicate n 0) from hfrom []
  induction n with
  | zero => exact fun _ => trivial
  | succ n ih =>
    intro ops
    refine ⟨List.length_pos_of_ne_nil (h ops), ?_⟩
    have hnext := ih (ops ++ [0])
    rw [run, List.foldl_append] at hnext
    exact hnext

/-- In whatever order the messages are passed on, it comes to an end if the first node is on no cycle, and only then. -/
theorem bounded_iff [DecidableEq K] (hone : OneSource next) {nodes : List K}
    (hnodes : ∀ a, ReflTransGen (Passes next) k a → a ∈ nodes) :
    (∃ n, ∀ ops, Run.AllMeet (step next) Pending (start k) ops → ops.length ≤ n) ↔
      ¬ TransGen (Passes next) k k := by
  constructor
  · rintro ⟨n, hn⟩ hcycle
    have hpending : ∀ ops, (run next k ops).pending ≠ [] := fun ops hdone =>
      (inv_run k ops).acyclic hone hdone hcycle
    have hlength := hn _ (allMeet_replicate hpending (n + 1))
    rw [List.length_replicate] at hlength
    exact Nat.not_succ_le_self n hlength
  · intro hacyclic
    refine ⟨nodes.length, fun ops hops => ?_⟩
    have hinv : Inv next k (run next k ops) := inv_run k ops
    have hhandled : ops.length = (run next k ops).handled.length := by
      rw [run, length_handled _ hops]
      exact (Nat.zero_add _).symm
    have hsub : (run next k ops).published ⊆ nodes := fun a ha => hnodes a (hinv.reached a ha)
    have hlength := ((hinv.nodup hone hacyclic).subperm hsub).length_le
    rw [Messages.published, List.length_append, ← hhandled] at hlength
    exact (Nat.le_add_right _ _).trans hlength

end AimRT.Lib.Relay

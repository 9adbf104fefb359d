import Mathlib.Logic.Function.Basic
import AimRT.Lib.LittleEndian

/-!
# Regular expressions with captures

Backtracking regular expressions over bytes: classes of characters, their greedy repetition, sequences,
options and capturing groups.  A matcher tries its ways in order; the captures of a match are those of
the first way that takes all of the input: often the first one of all (`First`).
-/

namespace AimRT.Lib

/-- What the groups have captured. -/
abbrev Captures := ℕ → Option Bytes

inductive Regex where
  /-- One character of a class. -/
  | char (p : UInt8 → Bool)
  /-- Characters of a class, as many as possible first. -/
  | star (p : UInt8 → Bool)
  | seq (r r' : Regex)
  /-- With `r` first, then without. -/
  | opt (r : Regex)
  | group (i : ℕ) (r : Regex)

namespace Regex

def plus (p : UInt8 → Bool) : Regex := seq (char p) (star p)

/-- What a greedy repetition may leave of an input, the shortest first. -/
def starRests (p : UInt8 → Bool) : Bytes → List Bytes
  | [] => [[]]
  | b :: s => if p b then starRests p s ++ [b :: s] else [b :: s]

/-- What `s` begins with in front of `rest`. -/
def taken (s rest : Bytes) : Bytes := s.take (s.length - rest.length)

/-- The ways to take something from the front of an input, with the captures and what is left. -/
def run : Regex → Captures → Bytes → List (Captures × Bytes)
  | char _, _, [] => []
  | char p, c, b :: s => if p b then [(c, s)] else []
  | star p, c, s => (starRests p s).map fun rest => (c, rest)
  | seq r r', c, s => (run r c s).flatMap fun m => run r' m.1 m.2
  | opt r, c, s => run r c s ++ [(c, s)]
  | group i r, c, s =>
    (run r c s).map fun m => (Function.update m.1 i (some (taken s m.2)), m.2)

section Ways

variable (p : UInt8 → Bool) (r r' : Regex) (i : ℕ) (c : Captures) (b : UInt8) (s : Bytes)

theorem run_char_nil : run (char p) c [] = [] := rfl

theorem run_char_cons : run (char p) c (b :: s) = if p b then [(c, s)] else [] := rfl

theorem run_star : run (star p) c s = (starRests p s).map fun rest => (c, rest) := rfl

theorem run_seq : run (seq r r') c s = (run r c s).flatMap fun m => run r' m.1 m.2 := rfl

theorem run_opt : run (opt r) c s = run r c s ++ [(c, s)] := rfl

theorem run_group :
    run (group i r) c s = (run r c s).map fun m => (Function.update m.1 i (some (taken s m.2)), m.2) := rfl

end Ways

/-- The captures of the first way that takes all of the input. -/
def regexMatch (r : Regex) (s : Bytes) : Option Captures :=
  ((r.run (fun _ => none) s).find? fun m => m.2.isEmpty).map Prod.fst

variable {p : UInt8 → Bool} {r r' : Regex} {c c' : Captures} {s rest : Bytes}

@[simp] theorem taken_append (s rest : Bytes) : taken (s ++ rest) rest = s := by
  simp [taken]

theorem mem_starRests : rest ∈ starRests p s ↔ ∃ u, s = u ++ rest ∧ ∀ b ∈ u, p b := by
  induction s with
  | nil =>
    constructor
    · intro h
      rw [List.mem_singleton.1 h]
      exact ⟨[], rfl, nofun⟩
    · rintro ⟨u, hu, -⟩
      simp [starRests, (List.append_eq_nil_iff.1 hu.symm).2]
  | cons b s ih =>
    have hself : ∃ u, b :: s = u ++ (b :: s) ∧ ∀ b ∈ u, p b := ⟨[], rfl, nofun⟩
    unfold starRests
    split
    next hb =>
      rw [List.mem_append, ih, List.mem_singleton]
      constructor
      · rintro (⟨u, rfl, hu⟩ | rfl)
        · exact ⟨b :: u, rfl, List.forall_mem_cons.2 ⟨hb, hu⟩⟩
        · exact hself
      · rintro ⟨u, hu, hp⟩
        cases u with
        | nil => exact .inr hu.symm
        | cons b' u =>
          obtain ⟨-, rfl⟩ := List.cons.inj hu
          exact .inl ⟨u, rfl, fun b hmem => hp b (List.mem_cons_of_mem _ hmem)⟩
    next hb =>
      rw [List.mem_singleton]
      constructor
      · rintro rfl
        exact hself
      · rintro ⟨u, hu, hp⟩
        cases u with
        | nil => exact hu.symm
        | cons b' u =>
          obtain ⟨rfl, -⟩ := List.cons.inj hu
          exact absurd (hp b List.mem_cons_self) hb

theorem mem_run_char : (c', rest) ∈ run (char p) c s ↔ ∃ b, s = b :: rest ∧ p b ∧ c' = c := by
  cases s with
  | nil => simp [run_char_nil]
  | cons b s =>
    rw [run_char_cons]
    split
    next hb =>
      simp only [List.mem_singleton, Prod.mk.injEq]
      constructor
      · rintro ⟨rfl, rfl⟩
        exact ⟨b, rfl, hb, rfl⟩
      · rintro ⟨b', heq, -, rfl⟩
        exact ⟨rfl, (List.cons.inj heq).2.symm⟩
    next hb =>
      constructor
      · nofun
      · rintro ⟨b', heq, hb', -⟩
        exact absurd ((List.cons.inj heq).1 ▸ hb') hb

theorem mem_run_star :
    (c', rest) ∈ run (star p) c s ↔ (∃ u, s = u ++ rest ∧ ∀ b ∈ u, p b) ∧ c' = c := by
  simp only [run_star, List.mem_map, Prod.mk.injEq, mem_starRests]
  constructor
  · rintro ⟨rest', h, rfl, rfl⟩
    exact ⟨h, rfl⟩
  · rintro ⟨h, rfl⟩
    exact ⟨rest, h, rfl, rfl⟩

theorem mem_run_seq {m : Captures × Bytes} :
    m ∈ run (seq r r') c s ↔ ∃ c' s', (c', s') ∈ run r c s ∧ m ∈ run r' c' s' := by
  simp [run_seq, List.mem_flatMap]

theorem mem_run_opt {m : Captures × Bytes} :
    m ∈ run (opt r) c s ↔ m ∈ run r c s ∨ m = (c, s) := by
  simp [run_opt]

theorem mem_run_group {i : ℕ} : (c', rest) ∈ run (group i r) c s ↔
    ∃ c'', (c'', rest) ∈ run r c s ∧ c' = Function.update c'' i (some (taken s rest)) := by
  simp only [run_group, List.mem_map, Prod.mk.injEq, Prod.exists]
  constructor
  · rintro ⟨c'', rest', h, rfl, rfl⟩
    exact ⟨c'', h, rfl⟩
  · rintro ⟨c'', h, rfl⟩
    exact ⟨c'', rest, h, rfl, rfl⟩

theorem mem_run_of_regexMatch (h : r.regexMatch s = some c) : (c, []) ∈ r.run (fun _ => none) s := by
  unfold regexMatch at h
  obtain ⟨m, hm, rfl⟩ := Option.map_eq_some_iff.1 h
  have hempty : m.2.isEmpty := by simpa using List.find?_some hm
  have hmem := List.mem_of_find?_eq_some hm
  rwa [← List.isEmpty_iff.1 hempty]

/-! ### The first way -/

/-- The way that is tried first takes `u` from the front of `u ++ rest`, and leaves the captures `c'`. -/
def First (r : Regex) (c : Captures) (u rest : Bytes) (c' : Captures) : Prop :=
  (run r c (u ++ rest)).head? = some (c', rest)

variable {u v : Bytes} {c'' : Captures}

theorem head?_starRests (hu : ∀ b ∈ u, p b = true) (hrest : ∀ b ∈ rest.head?, p b = false) :
    (starRests p (u ++ rest)).head? = some rest := by
  induction u with
  | nil =>
    cases rest with
    | nil => rfl
    | cons b rest => simp [starRests, hrest b rfl]
  | cons b u ih =>
    have htail := ih fun b hb => hu b (List.mem_cons_of_mem _ hb)
    simp [starRests, hu b List.mem_cons_self, htail]

theorem first_char {b : UInt8} (hb : p b = true) : First (char p) c [b] rest c := by
  simp [First, run_char_cons, hb]

theorem first_star (hu : ∀ b ∈ u, p b = true) (hrest : ∀ b ∈ rest.head?, p b = false) :
    First (star p) c u rest c := by
  simp [First, run_star, head?_starRests hu hrest]

theorem First.seq (h : First r c u (v ++ rest) c') (h' : First r' c' v rest c'') :
    First (seq r r') c (u ++ v) rest c'' := by
  obtain ⟨ms, hms⟩ := List.head?_eq_some_iff.1 h
  obtain ⟨ms', hms'⟩ := List.head?_eq_some_iff.1 h'
  rw [First, List.append_assoc, run_seq, hms, List.flatMap_cons, hms']
  rfl

/-- The last of a sequence. -/
theorem First.seq_end (h : First r c u v c') (h' : First r' c' v [] c'') :
    First (Regex.seq r r') c (u ++ v) [] c'' :=
  First.seq (by rwa [List.append_nil]) h'

theorem First.group (h : First r c u rest c') (i : ℕ) :
    First (group i r) c u rest (Function.update c' i (some u)) := by
  obtain ⟨ms, hms⟩ := List.head?_eq_some_iff.1 h
  simp [First, run_group, hms]

theorem First.opt (h : First r c u rest c') : First (opt r) c u rest c' := by
  obtain ⟨ms, hms⟩ := List.head?_eq_some_iff.1 h
  simp [First, run_opt, hms]

/-- Where there is no way, an option takes nothing. -/
theorem first_opt_of_nil (h : run r c s = []) : First (opt r) c [] s c := by
  simp [First, run_opt, h]

theorem first_plus (hu : ∀ b ∈ u, p b = true) (hne : u ≠ []) (hrest : ∀ b ∈ rest.head?, p b = false) :
    First (plus p) c u rest c := by
  obtain ⟨b, u, rfl⟩ := List.exists_cons_of_ne_nil hne
  have htail : First (star p) c u rest c := first_star (fun b hb => hu b (List.mem_cons_of_mem _ hb)) hrest
  exact First.seq (u := [b]) (first_char (hu b List.mem_cons_self)) htail

/-- When the first way takes all of the input, its captures are those of the match. -/
theorem First.regexMatch (h : First r (fun _ => none) s [] c) : r.regexMatch s = some c := by
  obtain ⟨ms, hms⟩ := List.head?_eq_some_iff.1 h
  rw [List.append_nil] at hms
  simp [Regex.regexMatch, hms]

/-! ### The search -/

/-- What stands at the beginning of a text: the captures of the first way, and the rest. -/
def front (r : Regex) (s : Bytes) : Option (Captures × Bytes) := (r.run (fun _ => none) s).head?

theorem First.front (h : First r (fun _ => none) u rest c) : r.front (u ++ rest) = some (c, rest) := h

/-- What stands at the beginning is one of the ways. -/
theorem mem_run_of_front (h : r.front s = some (c, rest)) : (c, rest) ∈ r.run (fun _ => none) s :=
  List.mem_of_head? h

/-- A match in a text. -/
structure Match where
  position : ℕ
  length : ℕ
  captures : Captures

/-- `std::regex_search`: the first position at which there is a way to match. -/
def regexSearch (r : Regex) : Bytes → Option Match
  | [] => (r.front []).map fun m => ⟨0, 0, m.1⟩
  | b :: s =>
    match r.front (b :: s) with
    | some (c, rest) => some ⟨0, (b :: s).length - rest.length, c⟩
    | none => (regexSearch r s).map fun m => { m with position := m.position + 1 }

theorem regexSearch_eq_none (h : r.regexSearch s = none) {i : ℕ} (hi : i ≤ s.length) : r.front (s.drop i) = none := by
  induction s generalizing i with
  | nil =>
    rw [List.drop_nil]
    exact Option.map_eq_none_iff.1 h
  | cons b s ih =>
    rw [regexSearch] at h
    split at h
    · cases h
    next hfront =>
      cases i with
      | zero => exact hfront
      | succ i => exact ih (Option.map_eq_none_iff.1 h) (Nat.le_of_succ_le_succ hi)

/-- What is found is a match, and there is none in front of it. -/
theorem regexSearch_eq_some {m : Match} (h : r.regexSearch s = some m) :
    ∃ u v rest, s = u ++ v ∧ m.position = u.length ∧ r.front v = some (m.captures, rest) ∧
      m.length = v.length - rest.length ∧ ∀ i < u.length, r.front (s.drop i) = none := by
  induction s generalizing m with
  | nil =>
    obtain ⟨⟨c, rest⟩, hfront, rfl⟩ := Option.map_eq_some_iff.1 h
    exact ⟨[], [], rest, rfl, rfl, hfront, (Nat.zero_sub _).symm, fun i hi => absurd hi (Nat.not_lt_zero i)⟩
  | cons b s ih =>
    rw [regexSearch] at h
    split at h
    next c rest hfront =>
      obtain rfl := Option.some.inj h
      exact ⟨[], b :: s, rest, rfl, rfl, hfront, rfl, fun i hi => absurd hi (Nat.not_lt_zero i)⟩
    next hfront =>
      obtain ⟨m', hm', rfl⟩ := Option.map_eq_some_iff.1 h
      obtain ⟨u, v, rest, rfl, hpos, hmatch, hlen, hnone⟩ := ih hm'
      refine ⟨b :: u, v, rest, rfl, congrArg (· + 1) hpos, hmatch, hlen, fun i hi => ?_⟩
      cases i with
      | zero => exact hfront
      | succ i => exact hnone i (Nat.lt_of_succ_lt_succ hi)

end Regex

end AimRT.Lib

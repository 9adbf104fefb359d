import AimRT.Lib.Regex
import AimRT.Lib.Splitting

/-!
# Environment variables in a text

`ReplaceEnvVars` replaces the first `${name}` of a text by the value of the variable and goes on behind what it has put
there, so that values are not searched themselves.

A name that is found may have a zero in it, and `getenv` takes it up to there: such a name is that of no variable, but
what is in front of its zero may be one.
-/

namespace AimRT.Util

open AimRT.Lib AimRT.Lib.Regex

/-! ### The code -/

/-- The variables of the process; their names and values are C strings. -/
structure Environment where
  get : Bytes → Option Bytes
  name_ne_nil : ∀ {name val : Bytes}, get name = some val → name ≠ []
  zero_notMem_name : ∀ {name val : Bytes}, get name = some val → 0 ∉ name
  zero_notMem_val : ∀ {name val : Bytes}, get name = some val → 0 ∉ val

/-- `c_str()` where a C string is read: up to the first zero. -/
def cString (s : Bytes) : Bytes := s.takeWhile (· != 0)

/-- `std::getenv(env_name.c_str())`, and the empty string for a null pointer. -/
def Environment.envVal (env : Environment) (envName : Bytes) : Bytes := (env.get (cString envName)).getD []

/-- `\$\{([^}]+)\}`. -/
def envPattern : Regex :=
  seq (char (· == 36)) (seq (char (· == 123)) (seq (group 1 (plus (· != 125))) (char (· == 125))))

/-- `result.replace(pos, len, val)`. -/
def replace (result : Bytes) (pos len : ℕ) (val : Bytes) : Bytes := result.take pos ++ val ++ result.drop (pos + len)

/-! ### What the pattern matches -/

/-- What stands for a variable. -/
def placeholder (name : Bytes) : Bytes := 36 :: 123 :: (name ++ [125])

@[simp] theorem placeholder_length (name : Bytes) : (placeholder name).length = name.length + 3 := by
  simp [placeholder]

variable {s v name rest : Bytes} {c : Captures} {m : Match}

/-- **The pattern** matches a name that is not empty, up to the first brace that closes. -/
theorem front_envPattern : front envPattern v = some (c, rest) ↔
    ∃ name, v = placeholder name ++ rest ∧ name ≠ [] ∧ 125 ∉ name ∧
      c = Function.update (fun _ => none) 1 (some name) := by
  constructor
  · intro h
    have hmem := mem_run_of_front h
    simp only [envPattern, mem_run_seq, mem_run_char, mem_run_group, plus, mem_run_star, beq_iff_eq, bne_iff_ne] at hmem
    obtain ⟨-, -, ⟨-, rfl, rfl, rfl⟩, -, -, ⟨-, rfl, rfl, rfl⟩, -, -,
      ⟨-, ⟨-, s, ⟨b, rfl, hb, rfl⟩, ⟨u, rfl, hu⟩, rfl⟩, rfl⟩, -, rfl, rfl, rfl⟩ := hmem
    refine ⟨b :: u, by simp [placeholder], List.cons_ne_nil b u, ?_, ?_⟩
    · simp only [List.mem_cons, not_or]
      exact ⟨Ne.symm hb, fun hmem => hu _ hmem rfl⟩
    · have htaken : taken (b :: (u ++ 125 :: rest)) (125 :: rest) = b :: u := taken_append (b :: u) (125 :: rest)
      rw [htaken]
  · rintro ⟨name, rfl, hne, hbrace, rfl⟩
    have hname : ∀ b ∈ name, (b != 125) = true := fun b hb => by simpa using fun heq : b = 125 => hbrace (heq ▸ hb)
    have hplus : First (plus (· != 125)) (fun _ => none) name (125 :: rest) (fun _ => none) :=
      first_plus hname hne (by simp)
    have hclose : First (char (· == 125)) (Function.update (fun _ => none) 1 (some name)) [125] rest
      (Function.update (fun _ => none) 1 (some name)) := first_char (by decide)
    have hbody := First.seq (hplus.group 1) hclose
    have hopen : First (char (· == 123)) (fun _ => none) [123] (name ++ [125] ++ rest) (fun _ => none) :=
      first_char (by decide)
    have hdollar : First (char (· == 36)) (fun _ => none) [36] ([123] ++ (name ++ [125]) ++ rest) (fun _ => none) :=
      first_char (by decide)
    exact (First.seq hdollar (First.seq hopen hbody)).front

theorem captures_one (h : c = Function.update (fun _ => none) 1 (some name)) : (c 1).getD [] = name := by
  rw [h, Function.update_self, Option.getD_some]

/-- A match that is found, and what is in front of it and behind it. -/
theorem search_eq_some (h : regexSearch envPattern s = some m) :
    ∃ u name rest, s = u ++ (placeholder name ++ rest) ∧ name ≠ [] ∧ 125 ∉ name ∧ m.position = u.length ∧
      m.length = (placeholder name).length ∧ (m.captures 1).getD [] = name ∧
      ∀ i < u.length, front envPattern (s.drop i) = none := by
  obtain ⟨u, v, rest, hs, hpos, hfront, hlen, hnone⟩ := regexSearch_eq_some h
  obtain ⟨name, rfl, hne, hbrace, hc⟩ := front_envPattern.1 hfront
  refine ⟨u, name, rest, hs, hne, hbrace, hpos, ?_, captures_one hc, hnone⟩
  rw [hlen, List.length_append, Nat.add_sub_cancel]

/-! ### The loop -/

/-- The loop of `ReplaceEnvVars`. -/
def replaceLoop (env : Environment) (result : Bytes) (curPos : ℕ) : Bytes :=
  match _hsearch : regexSearch envPattern (result.drop curPos) with
  | none => result
  | some m =>
    let envName := (m.captures 1).getD []
    let envVal := env.envVal envName
    replaceLoop env (replace result (curPos + m.position) m.length envVal) (curPos + (m.position + envVal.length))
termination_by result.length - curPos
decreasing_by
  obtain ⟨u, name, rest, hs, -, -, hpos, hlen, -⟩ := search_eq_some _hsearch
  have hlength := congrArg List.length hs
  simp only [List.length_drop, List.length_append, placeholder_length] at hlength hlen
  simp only [replace, List.length_append, List.length_take, List.length_drop]
  omega

def replaceEnvVars (env : Environment) (input : Bytes) : Bytes := replaceLoop env input 0

/-! ### What a text says -/

/-- A name and what is behind it, where a placeholder begins. -/
def placeholderAt : Bytes → Option (Bytes × Bytes)
  | a :: b :: s =>
    if a = 36 ∧ b = 123 ∧ 125 ∈ s ∧ s.takeWhile (· != 125) ≠ [] then
      some (s.takeWhile (· != 125), (s.dropWhile (· != 125)).tail)
    else none
  | _ => none

theorem placeholderAt_eq_some :
    placeholderAt v = some (name, rest) ↔ v = placeholder name ++ rest ∧ name ≠ [] ∧ 125 ∉ name := by
  constructor
  · intro h
    unfold placeholderAt at h
    split at h
    next a b s =>
      split_ifs at h with hcond
      obtain ⟨rfl, rfl, hmem, hne⟩ := hcond
      obtain ⟨rfl, rfl⟩ := Prod.mk.inj (Option.some.inj h)
      obtain ⟨t, w, rfl, ht⟩ := List.eq_append_cons_of_mem hmem
      have htake : (t ++ 125 :: w).takeWhile (· != 125) = t := by
        rw [Splitting.takeWhile_of_notMem ht]
        simp
      have hdrop : (t ++ 125 :: w).dropWhile (· != 125) = 125 :: w := by
        rw [Splitting.dropWhile_of_notMem ht]
        simp
      rw [htake] at hne ⊢
      rw [hdrop]
      exact ⟨by simp [placeholder], hne, ht⟩
    · cases h
  · rintro ⟨rfl, hne, hbrace⟩
    have htake : (name ++ 125 :: rest).takeWhile (· != 125) = name := by
      rw [Splitting.takeWhile_of_notMem hbrace]
      simp
    have hdrop : (name ++ 125 :: rest).dropWhile (· != 125) = 125 :: rest := by
      rw [Splitting.dropWhile_of_notMem hbrace]
      simp
    have hmem : 125 ∈ name ++ 125 :: rest := by simp
    have hv : placeholder name ++ rest = 36 :: 123 :: (name ++ 125 :: rest) := by simp [placeholder]
    rw [hv, placeholderAt, htake, hdrop, if_pos ⟨rfl, rfl, hmem, hne⟩]
    rfl

theorem placeholderAt_length (h : placeholderAt v = some (name, rest)) : rest.length < v.length := by
  obtain ⟨rfl, -⟩ := placeholderAt_eq_some.1 h
  rw [List.length_append, placeholder_length]
  omega

/-- Where no placeholder begins, the pattern does not match. -/
theorem placeholderAt_eq_none_iff : placeholderAt v = none ↔ front envPattern v = none := by
  simp only [Option.eq_none_iff_forall_ne_some, ne_eq, Prod.forall, placeholderAt_eq_some, front_envPattern]
  constructor
  · rintro h c rest ⟨name, hv, hne, hbrace, -⟩
    exact h name rest ⟨hv, hne, hbrace⟩
  · rintro h name rest ⟨hv, hne, hbrace⟩
    exact h _ rest ⟨name, hv, hne, hbrace, rfl⟩

/-- A letter, or a placeholder with its name. -/
inductive Piece where
  | letter (b : UInt8)
  | envVar (name : Bytes)
  deriving DecidableEq, Repr

/-- A text read from left to right. -/
def pieces : Bytes → List Piece
  | [] => []
  | b :: s =>
    match _hplaceholder : placeholderAt (b :: s) with
    | some (name, rest) => .envVar name :: pieces rest
    | none => .letter b :: pieces s
termination_by s => s.length
decreasing_by
  · exact placeholderAt_length _hplaceholder
  · exact Nat.lt_succ_self _

/-- What becomes of a piece. -/
def Piece.expand (value : Bytes → Bytes) : Piece → Bytes
  | .letter b => [b]
  | .envVar name => value name

/-- Every placeholder of a text is replaced by the value of its name, which is not looked at again. -/
def expandAll (value : Bytes → Bytes) (input : Bytes) : Bytes := (pieces input).flatMap (Piece.expand value)

/-- The value of a variable, and nothing if it is unset. -/
def Environment.value (env : Environment) (name : Bytes) : Bytes := (env.get name).getD []

variable {value : Bytes → Bytes} {b : UInt8} {u : Bytes}

theorem expandAll_nil : expandAll value [] = [] := by
  rw [expandAll, pieces]
  rfl

theorem expandAll_placeholder (hne : name ≠ []) (hbrace : 125 ∉ name) :
    expandAll value (placeholder name ++ rest) = value name ++ expandAll value rest := by
  have hat : placeholderAt (placeholder name ++ rest) = some (name, rest) := placeholderAt_eq_some.2 ⟨rfl, hne, hbrace⟩
  have hpieces : pieces (placeholder name ++ rest) = .envVar name :: pieces rest := by
    rw [placeholder] at hat ⊢
    rw [List.cons_append, pieces]
    split
    next name' rest' heq =>
      rw [← List.cons_append, hat] at heq
      cases heq
      rfl
    next heq =>
      rw [← List.cons_append, hat] at heq
      cases heq
  rw [expandAll, hpieces]
  rfl

theorem expandAll_letter (h : placeholderAt (b :: s) = none) : expandAll value (b :: s) = b :: expandAll value s := by
  have hpieces : pieces (b :: s) = .letter b :: pieces s := by
    rw [pieces]
    split
    next name rest heq => rw [h] at heq; cases heq
    · rfl
  rw [expandAll, hpieces]
  rfl

/-- A text in which no placeholder begins is copied. -/
theorem expandAll_append (h : ∀ i < u.length, front envPattern ((u ++ s).drop i) = none) :
    expandAll value (u ++ s) = u ++ expandAll value s := by
  induction u with
  | nil => rfl
  | cons b u ih =>
    have hhead : placeholderAt (b :: (u ++ s)) = none := placeholderAt_eq_none_iff.2 (h 0 (Nat.succ_pos _))
    rw [List.cons_append, expandAll_letter hhead, ih fun i hi => h (i + 1) (Nat.succ_lt_succ hi), List.cons_append]

theorem expandAll_of_search_none (h : regexSearch envPattern s = none) : expandAll value s = s := by
  have hcopy : expandAll value (s ++ []) = s ++ expandAll value [] :=
    expandAll_append fun i hi => by rw [List.append_nil]; exact regexSearch_eq_none h hi.le
  rwa [expandAll_nil, List.append_nil] at hcopy

/-! ### One pass -/

/-- **The loop** leaves what is in front of its position, and replaces all placeholders behind it. -/
theorem replaceLoop_eq (env : Environment) (result : Bytes) (curPos : ℕ) (hpos : curPos ≤ result.length) :
    replaceLoop env result curPos = result.take curPos ++ expandAll env.envVal (result.drop curPos) := by
  fun_induction replaceLoop env result curPos with
  | case1 result curPos hsearch => rw [expandAll_of_search_none hsearch, List.take_append_drop]
  | case2 result curPos m hsearch envName envVal ih =>
    obtain ⟨u, name, rest, hs, hne, hbrace, hposition, hlen, hname, hnone⟩ := search_eq_some hsearch
    have hlength := congrArg List.length hs
    rw [List.length_drop, List.length_append, List.length_append] at hlength
    rw [hs] at hnone
    -- what is in front of the placeholder, and what is behind it
    have hfront : result.take (curPos + m.position) = result.take curPos ++ u := by
      rw [List.take_add, hs, hposition, List.take_left]
    have hback : result.drop (curPos + m.position + m.length) = rest := by
      rw [Nat.add_assoc, ← List.drop_drop, hs, hposition, hlen, ← List.append_assoc, ← List.length_append,
        List.drop_left]
    have hreplace : replace result (curPos + m.position) m.length envVal =
        result.take curPos ++ u ++ envVal ++ rest := by
      rw [replace, hfront, hback]
    have hcur : curPos + (m.position + envVal.length) = (result.take curPos ++ u ++ envVal).length := by
      simp only [List.length_append, List.length_take]
      omega
    rw [hreplace, hcur] at ih ⊢
    rw [ih (List.prefix_append _ rest).length_le, List.take_left, List.drop_left, hs,
      expandAll_append hnone, expandAll_placeholder hne hbrace]
    show _ = result.take curPos ++ (u ++ (env.envVal name ++ expandAll env.envVal rest))
    rw [← hname, List.append_assoc, List.append_assoc]

theorem replaceEnvVars_eq (env : Environment) (input : Bytes) :
    replaceEnvVars env input = expandAll env.envVal input := by
  rw [replaceEnvVars, replaceLoop_eq env input 0 (Nat.zero_le _), List.take_zero, List.drop_zero, List.nil_append]

/-! ### Names with a zero -/

theorem cString_of_notMem (h : 0 ∉ name) : cString name = name :=
  List.takeWhile_eq_self_iff.2 fun x hx => by simpa using fun heq : x = 0 => h (heq ▸ hx)

/-- A name without a zero is looked up as it is. -/
theorem Environment.envVal_of_notMem (env : Environment) (h : 0 ∉ name) : env.envVal name = env.value name := by
  rw [envVal, value, cString_of_notMem h]

/-- A name with a zero is that of no variable. -/
theorem Environment.value_of_mem (env : Environment) (h : 0 ∈ name) : env.value name = [] := by
  rw [value]
  cases hget : env.get name with
  | none => rfl
  | some val => exact absurd h (env.zero_notMem_name hget)

/-- Two ways to expand pieces, of which the one gives at least as much as the other for every piece. -/
theorem flatMap_eq_iff {A B : Type} {f g : A → List B} {l : List A} (h : ∀ x ∈ l, g x = f x ∨ g x = []) :
    l.flatMap f = l.flatMap g ↔ ∀ x ∈ l, f x = g x := by
  constructor
  · intro heq
    induction l with
    | nil => exact fun x hx => absurd hx List.not_mem_nil
    | cons a l ih =>
      have hle : (l.flatMap g).length ≤ (l.flatMap f).length := by
        rw [List.length_flatMap, List.length_flatMap]
        refine List.sum_le_sum fun x hx => ?_
        rcases h x (List.mem_cons_of_mem a hx) with hx | hx
        · rw [hx]
        · rw [hx]
          exact Nat.zero_le _
      rw [List.flatMap_cons, List.flatMap_cons] at heq
      have hlen := congrArg List.length heq
      rw [List.length_append, List.length_append] at hlen
      have hhead : f a = g a := by
        rcases h a List.mem_cons_self with ha | ha
        · exact ha.symm
        · rw [ha, List.length_nil] at hlen
          rw [ha]
          exact List.length_eq_zero_iff.1 (by omega)
      rw [hhead] at heq
      have htail := ih (fun x hx => h x (List.mem_cons_of_mem a hx)) (List.append_cancel_left heq)
      exact List.forall_mem_cons.2 ⟨hhead, htail⟩
  · exact fun hall => List.flatMap_congr hall

/-- **Replacing environment variables** is the reading of the text with all values put in, exactly when no name with a
zero has the name of a variable, with something in it, in front of the zero. -/
theorem replaceEnvVars_eq_iff (env : Environment) (input : Bytes) :
    replaceEnvVars env input = expandAll env.value input ↔
      ∀ name, .envVar name ∈ pieces input → 0 ∈ name → env.value (cString name) = [] := by
  have hpieces : ∀ piece ∈ pieces input, piece.expand env.value = piece.expand env.envVal ∨
      piece.expand env.value = [] := by
    intro piece _
    cases piece with
    | letter b => exact .inl rfl
    | envVar name =>
      by_cases hzero : 0 ∈ name
      · exact .inr (env.value_of_mem hzero)
      · exact .inl (env.envVal_of_notMem hzero).symm
  rw [replaceEnvVars_eq, expandAll, expandAll, flatMap_eq_iff hpieces]
  constructor
  · intro h name hmem hzero
    exact (h _ hmem).trans (env.value_of_mem hzero)
  · intro h piece hmem
    cases piece with
    | letter b => rfl
    | envVar name =>
      by_cases hzero : 0 ∈ name
      · exact (h name hmem hzero).trans (env.value_of_mem hzero).symm
      · exact env.envVal_of_notMem hzero

/-- `A` is the one variable, and its value is `v`. -/
def oneVariable : Environment where
  get name := if name = [65] then some [118] else none
  name_ne_nil := by
    intro name val h
    split_ifs at h with hname
    rw [hname]
    exact List.cons_ne_nil _ _
  zero_notMem_name := by
    intro name val h
    split_ifs at h with hname
    rw [hname]
    decide
  zero_notMem_val := by
    intro name val h
    split_ifs at h with hname
    rw [← Option.some.inj h]
    decide

/-- The name is `A`, a zero and `B`: it is replaced by the value of `A`. -/
theorem not_replaceEnvVars_eq :
    ¬ ∀ (env : Environment) (input : Bytes), replaceEnvVars env input = expandAll env.value input := by
  intro h
  have hinput := h oneVariable (placeholder [65, 0, 66])
  have hexpand : ∀ value : Bytes → Bytes, expandAll value (placeholder [65, 0, 66]) = value [65, 0, 66] := by
    intro value
    have happend : expandAll value (placeholder [65, 0, 66] ++ []) = value [65, 0, 66] ++ expandAll value [] :=
      expandAll_placeholder (by decide) (by decide)
    rwa [expandAll_nil, List.append_nil, List.append_nil] at happend
  rw [replaceEnvVars_eq, hexpand, hexpand] at hinput
  exact absurd hinput (by decide)

end AimRT.Util

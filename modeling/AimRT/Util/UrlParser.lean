import AimRT.Lib.Regex
import AimRT.Util.Context

/-!
# Parsing a url

`ParseUrl` matches a url with the regular expression
`^(([^:\/?#]+)://)?(([^\/?#]*))?([^?#]*)(\?([^#]*))?(#(.*))?` and takes its parts from the captures.
-/

namespace AimRT.Util

open AimRT.Lib

/-- `[^chars]`. -/
def noneOf (chars : Bytes) (b : UInt8) : Bool := !chars.contains b

/-- The dot: everything but a line terminator. -/
def anyChar : UInt8 → Bool := noneOf [10, 13]

def litChar (b : UInt8) : Regex := .char (· == b)

/-- The regular expression; a match begins at the beginning anyway. -/
def urlRegex : Regex :=
  .seq (.opt (.group 1 (.seq (.group 2 (.plus (noneOf (ascii ":/?#"))))
    (.seq (litChar 58) (.seq (litChar 47) (litChar 47))))))
  (.seq (.opt (.group 3 (.group 4 (.star (noneOf (ascii "/?#"))))))
  (.seq (.group 5 (.star (noneOf (ascii "?#"))))
  (.seq (.opt (.group 6 (.seq (litChar 63) (.group 7 (.star (noneOf (ascii "#")))))))
    (.opt (.group 8 (.seq (litChar 35) (.group 9 (.star anyChar))))))))

structure Url where
  protocol : Bytes
  host : Bytes
  service : Bytes
  path : Bytes
  query : Bytes
  fragment : Bytes
  deriving DecidableEq, Repr

/-- A part that has not matched is empty. -/
def parseUrl (urlStr : Bytes) : Option Url := do
  let m ← urlRegex.regexMatch urlStr
  let auth := (m 4).getD []
  return {
    protocol := (m 2).getD []
    host := auth.takeWhile (· != 58)
    service := (auth.dropWhile (· != 58)).tail
    path := (m 5).getD []
    query := (m 7).getD []
    fragment := (m 9).getD [] }

example : parseUrl (ascii "http://127.0.0.1:80/a/b.html?k=v#all") = some ⟨ascii "http",
    ascii "127.0.0.1", ascii "80", ascii "/a/b.html", ascii "k=v", ascii "all"⟩ := by decide

/-! ### A url that begins with a slash -/

/-- The characters of a path. -/
def isPathChar : UInt8 → Bool := noneOf (ascii "?#")

variable {c c' : Captures} {s rest : Bytes}

/-- There is no protocol. -/
theorem run_protocol_slash (c : Captures) (s : Bytes) : Regex.run (.opt (.group 1
    (.seq (.group 2 (.plus (noneOf (ascii ":/?#"))))
      (.seq (litChar 58) (.seq (litChar 47) (litChar 47)))))) c (47 :: s) = [(c, 47 :: s)] := rfl

/-- The authority is empty. -/
theorem run_auth_slash (c : Captures) (s : Bytes) :
    Regex.run (.opt (.group 3 (.group 4 (.star (noneOf (ascii "/?#")))))) c (47 :: s) =
      [(Function.update (Function.update c 4 (some [])) 3 (some []), 47 :: s), (c, 47 :: s)] := by
  have hslash : noneOf (ascii "/?#") 47 = false := by decide
  simp [Regex.run_opt, Regex.run_group, Regex.run_star, Regex.starRests, Regex.taken, hslash]

/-- A query or a fragment that is captured leaves the path alone, and begins with its own character. -/
theorem run_tail {i : ℕ} {r : Regex} {b : UInt8} (hi : i ≠ 5) (hr : ∀ c c' s rest,
    (c', rest) ∈ Regex.run r c s → c' 5 = c 5) (h : (c', rest) ∈ Regex.run
      (.opt (.group i (.seq (litChar b) r))) c s) :
    c' 5 = c 5 ∧ (rest = s ∨ ∃ s', s = b :: s') := by
  rcases Regex.mem_run_opt.1 h with hgroup | hskip
  · obtain ⟨c'', hseq, rfl⟩ := Regex.mem_run_group.1 hgroup
    obtain ⟨c₁, s₁, hchar, hrest⟩ := Regex.mem_run_seq.1 hseq
    obtain ⟨b', rfl, hb, rfl⟩ := Regex.mem_run_char.1 hchar
    rw [beq_iff_eq] at hb
    subst hb
    refine ⟨?_, .inr ⟨s₁, rfl⟩⟩
    rw [Function.update_of_ne (Ne.symm hi)]
    exact hr _ _ _ _ hrest
  · obtain ⟨rfl, rfl⟩ := Prod.mk.inj hskip
    exact ⟨rfl, .inl rfl⟩

theorem run_group_star {i : ℕ} {p : UInt8 → Bool} (hi : i ≠ 5) (c c' : Captures) (s rest : Bytes)
    (h : (c', rest) ∈ Regex.run (.group i (.star p)) c s) : c' 5 = c 5 := by
  obtain ⟨c'', hstar, rfl⟩ := Regex.mem_run_group.1 h
  obtain ⟨-, rfl⟩ := Regex.mem_run_star.1 hstar
  exact Function.update_of_ne (Ne.symm hi) _ _

/-- The path is everything up to the query or the fragment. -/
theorem path_of_slash {url : Url} (h : parseUrl (47 :: s) = some url) :
    url.path = (47 :: s).takeWhile isPathChar := by
  unfold parseUrl at h
  obtain ⟨m, hm, hurl⟩ := Option.bind_eq_some_iff.1 h
  have hpath : url.path = (m 5).getD [] := by
    rw [← Option.some.inj hurl]
  obtain ⟨c₁, s₁, h₁, hm₁⟩ := Regex.mem_run_seq.1 (Regex.mem_run_of_regexMatch hm)
  rw [run_protocol_slash, List.mem_singleton] at h₁
  obtain ⟨rfl, rfl⟩ := Prod.mk.inj h₁
  obtain ⟨c₂, s₂, h₂, hm₂⟩ := Regex.mem_run_seq.1 hm₁
  have hs₂ : s₂ = 47 :: s := by
    rw [run_auth_slash] at h₂
    simp only [List.mem_cons, Prod.mk.injEq, List.not_mem_nil, or_false] at h₂
    rcases h₂ with ⟨-, h⟩ | ⟨-, h⟩ <;> exact h
  subst hs₂
  obtain ⟨c₃, s₃, h₃, hm₃⟩ := Regex.mem_run_seq.1 hm₂
  obtain ⟨c₃', hstar, rfl⟩ := Regex.mem_run_group.1 h₃
  obtain ⟨⟨u, hu, hup⟩, rfl⟩ := Regex.mem_run_star.1 hstar
  obtain ⟨c₄, s₄, h₄, h₅⟩ := Regex.mem_run_seq.1 hm₃
  obtain ⟨hc₄, hs₄⟩ := run_tail (by decide) (run_group_star (by decide)) h₄
  obtain ⟨hc₅, hs₅⟩ := run_tail (by decide) (run_group_star (by decide)) h₅
  have hs₃ : s₃.takeWhile isPathChar = [] := by
    rcases hs₄ with rfl | ⟨s', rfl⟩
    · rcases hs₅ with rfl | ⟨s', rfl⟩ <;> rfl
    · rfl
  have htake : (u ++ s₃).takeWhile isPathChar = u ++ s₃.takeWhile isPathChar :=
    List.takeWhile_append_of_pos hup
  rw [hpath, hc₅, hc₄, Function.update_self, hu, Regex.taken_append, Option.getD_some, htake, hs₃,
    List.append_nil]

end AimRT.Util

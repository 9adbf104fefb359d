import AimRT.Util.UrlParser

/-!
# Joining a url

`JoinUrl` writes the parts of a url that are there.  On a url whose parts follow the grammar
`[protocol://][host][:service][path][?query][#fragment]` the expression of `ParseUrl` finds each of them
again, and with its first way: no part can go on into the next one.
-/

namespace AimRT.Util

open AimRT.Lib AimRT.Lib.Regex

/-- A part with the character that announces it, when there is one. -/
def announced (b : UInt8) (part : Bytes) : Bytes := if part.isEmpty then [] else b :: part

def protocolText (protocol : Bytes) : Bytes :=
  if protocol.isEmpty then [] else protocol ++ ascii "://"

/-- A path that does not begin with a slash gets one. -/
def pathText (path : Bytes) : Bytes :=
  if path.isEmpty then [] else if path.head? != some 47 then 47 :: path else path

def joinUrl (url : Url) : Bytes :=
  protocolText url.protocol ++ (url.host ++ announced 58 url.service ++ (pathText url.path ++
    (announced 63 url.query ++ announced 35 url.fragment)))

example : joinUrl ⟨ascii "http", ascii "127.0.0.1", ascii "80", ascii "a/b", [], ascii "all"⟩ =
    ascii "http://127.0.0.1:80/a/b#all" := by decide

/-- The parts follow the grammar; any of them may be empty. -/
structure Url.Proper (url : Url) : Prop where
  protocol : ∀ b ∈ url.protocol, noneOf (ascii ":/?#") b = true
  host : ∀ b ∈ url.host, noneOf (ascii ":/?#") b = true
  service : ∀ b ∈ url.service, noneOf (ascii "/?#") b = true
  path : ∀ b ∈ url.path, isPathChar b = true
  path_head : ∀ b ∈ url.path.head?, b = 47
  query : ∀ b ∈ url.query, noneOf (ascii "#") b = true
  fragment : ∀ b ∈ url.fragment, anyChar b = true

/-! ### The parts of the expression -/

def protocolRegex : Regex :=
  .opt (.group 1 (.seq (.group 2 (.plus (noneOf (ascii ":/?#"))))
    (.seq (litChar 58) (.seq (litChar 47) (litChar 47)))))

def authRegex : Regex := .opt (.group 3 (.group 4 (.star (noneOf (ascii "/?#")))))

def pathRegex : Regex := .group 5 (.star isPathChar)

/-- `(b(p*))?`. -/
def announcedRegex (i j : ℕ) (b : UInt8) (p : UInt8 → Bool) : Regex :=
  .opt (.group i (.seq (litChar b) (.group j (.star p))))

theorem urlRegex_eq : urlRegex = .seq protocolRegex (.seq authRegex (.seq pathRegex
    (.seq (announcedRegex 6 7 63 (noneOf (ascii "#"))) (announcedRegex 8 9 35 anyChar)))) := rfl

/-- The way that is tried first takes `text`, captures `part` in group `j` and leaves all but the
groups `i` and `j` alone. -/
def Finds (c : Captures) (r : Regex) (i j : ℕ) (text part rest : Bytes) : Prop :=
  ∃ c', First r c text rest c' ∧ (c' j).getD [] = part ∧ ∀ k, k ≠ i → k ≠ j → c' k = c k

variable {c : Captures} {rest part : Bytes}

theorem announced_of_ne_nil {b : UInt8} (h : part ≠ []) : announced b part = b :: part := by
  simp [announced, h]

theorem finds_announced {i j : ℕ} {b : UInt8} {p : UInt8 → Bool} (rest : Bytes) (hij : i ≠ j) (hc : c j = none)
    (hpart : ∀ b ∈ part, p b = true) (hrest : ∀ b ∈ rest.head?, p b = false)
    (hb : ∀ b' ∈ rest.head?, b' ≠ b) :
    Finds c (announcedRegex i j b p) i j (announced b part) part rest := by
  by_cases hpart_nil : part = []
  · subst hpart_nil
    refine ⟨c, first_opt_of_nil ?_, by rw [hc]; rfl, fun _ _ _ => rfl⟩
    cases rest with
    | nil => rfl
    | cons b' rest =>
      have hne : (b' == b) = false := by simpa using hb b' rfl
      simp [run_seq, run_group, run_char_cons, litChar, hne]
  · rw [announced_of_ne_nil hpart_nil]
    have hchar : First (litChar b) c [b] (part ++ rest) c := first_char (beq_self_eq_true b)
    have hstar : First (.star p) c part rest c := first_star hpart hrest
    refine ⟨_, First.opt (First.group (First.seq hchar (First.group hstar j)) i), ?_, ?_⟩
    · rw [Function.update_of_ne (Ne.symm hij), Function.update_self, Option.getD_some]
    · intro k hi hj
      rw [Function.update_of_ne hi, Function.update_of_ne hj]

theorem finds_path (hpart : ∀ b ∈ part, isPathChar b = true)
    (hrest : ∀ b ∈ rest.head?, isPathChar b = false) : Finds c pathRegex 5 5 part part rest := by
  refine ⟨_, First.group (first_star hpart hrest) 5, ?_, ?_⟩
  · rw [Function.update_self, Option.getD_some]
  · intro k hk _
    rw [Function.update_of_ne hk]

theorem finds_auth (hpart : ∀ b ∈ part, noneOf (ascii "/?#") b = true)
    (hrest : ∀ b ∈ rest.head?, noneOf (ascii "/?#") b = false) :
    Finds c authRegex 3 4 part part rest := by
  refine ⟨_, First.opt (First.group (First.group (first_star hpart hrest) 4) 3), ?_, ?_⟩
  · rw [Function.update_of_ne (by decide), Function.update_self, Option.getD_some]
  · intro k hi hj
    rw [Function.update_of_ne hi, Function.update_of_ne hj]

theorem dropWhile_of_boundary {p : UInt8 → Bool} {v : Bytes} (hv : ∀ b ∈ v, p b = true)
    (hrest : ∀ b ∈ rest.head?, p b = false) : (v ++ rest).dropWhile p = rest := by
  rw [List.dropWhile_append_of_pos hv]
  cases rest with
  | nil => rfl
  | cons b rest => rw [List.dropWhile_cons_of_neg (by simp [hrest b rfl])]

/-- Without a protocol, the text up to the first of `:/?#` is not followed by `://`. -/
theorem run_protocol_of_absent {host : Bytes} (hhost : ∀ b ∈ host, noneOf (ascii ":/?#") b = true)
    (hrest : ∀ b ∈ rest.head?, noneOf (ascii ":/?#") b = false)
    (hcolon : ∀ s, rest ≠ 58 :: 47 :: s) : Regex.run (.group 1 (.seq (.group 2 (.plus
      (noneOf (ascii ":/?#")))) (.seq (litChar 58) (.seq (litChar 47) (litChar 47))))) c
      (host ++ rest) = [] := by
  rw [List.eq_nil_iff_forall_not_mem]
  rintro ⟨c', rest'⟩ hmem
  obtain ⟨c₁, hseq, -⟩ := mem_run_group.1 hmem
  obtain ⟨c₂, s₂, hname, hlits⟩ := mem_run_seq.1 hseq
  obtain ⟨c₃, hplus, -⟩ := mem_run_group.1 hname
  obtain ⟨c₄, s₄, hchar, hstar⟩ := mem_run_seq.1 hplus
  obtain ⟨b, hb, hbp, -⟩ := mem_run_char.1 hchar
  obtain ⟨⟨u, hu, hup⟩, -⟩ := mem_run_star.1 hstar
  obtain ⟨c₅, s₅, hcolon₅, hslashes⟩ := mem_run_seq.1 hlits
  obtain ⟨c₆, s₆, hslash₆, -⟩ := mem_run_seq.1 hslashes
  obtain ⟨b₅, rfl, hb₅, -⟩ := mem_run_char.1 hcolon₅
  obtain ⟨b₆, rfl, hb₆, -⟩ := mem_run_char.1 hslash₆
  rw [beq_iff_eq] at hb₅ hb₆
  subst hb₅ hb₆ hu
  -- both texts end at the first character that cannot stand in a protocol
  have hhost_end := dropWhile_of_boundary hhost hrest
  have hname_end : (b :: u ++ 58 :: 47 :: s₆).dropWhile (noneOf (ascii ":/?#")) = 58 :: 47 :: s₆ :=
    dropWhile_of_boundary (List.forall_mem_cons.2 ⟨hbp, hup⟩) (by rintro _ ⟨⟩; decide)
  rw [hb, ← List.cons_append, hname_end] at hhost_end
  exact hcolon s₆ hhost_end.symm

theorem finds_protocol {protocol host : Bytes} (hc : c 2 = none)
    (hprotocol : ∀ b ∈ protocol, noneOf (ascii ":/?#") b = true)
    (hhost : ∀ b ∈ host, noneOf (ascii ":/?#") b = true)
    (hrest : ∀ b ∈ rest.head?, noneOf (ascii ":/?#") b = false)
    (hcolon : ∀ s, rest ≠ 58 :: 47 :: s) :
    Finds c protocolRegex 1 2 (protocolText protocol) protocol (host ++ rest) := by
  by_cases hnil : protocol = []
  · subst hnil
    exact ⟨c, first_opt_of_nil (run_protocol_of_absent hhost hrest hcolon), by rw [hc]; rfl,
      fun _ _ _ => rfl⟩
  · have htext : protocolText protocol = protocol ++ ([58] ++ ([47] ++ [47])) := by
      rw [protocolText, if_neg (by simpa using hnil)]
      rfl
    have hname : First (.plus (noneOf (ascii ":/?#"))) c protocol ([58] ++ ([47] ++ [47]) ++ (host ++ rest)) c :=
      first_plus hprotocol hnil (by rintro _ ⟨⟩; decide)
    have hlits : ∀ c', First (.seq (litChar 58) (.seq (litChar 47) (litChar 47))) c' ([58] ++ ([47] ++ [47]))
        (host ++ rest) c' := fun c' => First.seq (first_char rfl) (First.seq (first_char rfl) (first_char rfl))
    rw [htext]
    refine ⟨_, First.opt (First.group (First.seq (First.group hname 2) (hlits _)) 1), ?_, ?_⟩
    · rw [Function.update_of_ne (by decide), Function.update_self, Option.getD_some]
    · intro k hi hj
      rw [Function.update_of_ne hi, Function.update_of_ne hj]

/-! ### What a part is followed by -/

theorem head_announced (b : UInt8) (part : Bytes) : ∀ b' ∈ (announced b part).head?, b' = b := by
  unfold announced
  split
  · nofun
  · rintro _ ⟨⟩
    rfl

theorem mem_announced {b b' : UInt8} (h : b' ∈ announced b part) : b' = b ∨ b' ∈ part := by
  unfold announced at h
  split at h
  · exact absurd h (List.not_mem_nil)
  · exact List.mem_cons.1 h

theorem noneOf_of_cons {b b' : UInt8} {chars : Bytes} (h : noneOf (b' :: chars) b = true) :
    noneOf chars b = true := by
  simp only [noneOf, List.contains_cons, Bool.not_or, Bool.and_eq_true] at h
  exact h.2

theorem head_append {v w : Bytes} {P : UInt8 → Prop} (hv : ∀ b ∈ v.head?, P b)
    (hw : ∀ b ∈ w.head?, P b) : ∀ b ∈ (v ++ w).head?, P b := by
  cases v with
  | nil => exact hw
  | cons b v => exact hv

/-- The host and the service, cut at the first colon. -/
theorem auth_cut {host : Bytes} (service : Bytes) (hhost : ∀ b ∈ host, noneOf (ascii ":/?#") b = true) :
    (host ++ announced 58 service).takeWhile (· != 58) = host ∧
      ((host ++ announced 58 service).dropWhile (· != 58)).tail = service := by
  have hpos : ∀ b ∈ host, (b != 58) = true := by
    intro b hb
    by_contra hne
    have heq : b = 58 := by simpa using hne
    exact absurd (hhost b hb) (by rw [heq]; decide)
  rw [List.takeWhile_append_of_pos hpos, List.dropWhile_append_of_pos hpos]
  by_cases hnil : service = []
  · subst hnil
    exact ⟨List.append_nil host, rfl⟩
  · rw [announced_of_ne_nil hnil]
    exact ⟨by simp, by simp⟩

namespace Url.Proper

variable {url : Url}

theorem pathText_eq (h : url.Proper) : pathText url.path = url.path := by
  unfold pathText
  split
  next hempty => exact (List.isEmpty_iff.1 hempty).symm
  next hne =>
    obtain ⟨b, path, hpath⟩ := List.exists_cons_of_ne_nil (by simpa using hne)
    have hb : b = 47 := h.path_head b (by rw [hpath]; rfl)
    rw [hpath, hb]
    rfl

/-- What follows the host and the service begins with `/`, `?` or `#`. -/
theorem head_afterAuth (h : url.Proper) : ∀ b ∈ (url.path ++ (announced 63 url.query ++
    announced 35 url.fragment)).head?, b = 47 ∨ b = 63 ∨ b = 35 := by
  refine head_append (fun b hb => .inl (h.path_head b hb)) (head_append ?_ ?_)
  · exact fun b hb => .inr (.inl (head_announced 63 _ b hb))
  · exact fun b hb => .inr (.inr (head_announced 35 _ b hb))

theorem afterAuth_class (h : url.Proper) : ∀ b ∈ (url.path ++ (announced 63 url.query ++
    announced 35 url.fragment)).head?, noneOf (ascii "/?#") b = false := by
  intro b hb
  rcases h.head_afterAuth b hb with rfl | rfl | rfl <;> decide

theorem afterHost_class (h : url.Proper) : ∀ b ∈ (announced 58 url.service ++ (url.path ++
    (announced 63 url.query ++ announced 35 url.fragment))).head?,
    noneOf (ascii ":/?#") b = false := by
  refine head_append ?_ ?_
  · intro b hb
    rw [head_announced 58 _ b hb]
    decide
  · intro b hb
    rcases h.head_afterAuth b hb with rfl | rfl | rfl <;> decide

/-- What follows the host is not a colon and a slash: a service does not begin with a slash. -/
theorem afterHost_ne (h : url.Proper) (s : Bytes) : announced 58 url.service ++ (url.path ++
    (announced 63 url.query ++ announced 35 url.fragment)) ≠ 58 :: 47 :: s := by
  intro heq
  cases hservice : url.service with
  | nil =>
    rw [hservice] at heq
    have hhead := h.head_afterAuth 58 (congrArg List.head? heq)
    exact absurd hhead (by decide)
  | cons b service =>
    rw [hservice] at heq
    obtain ⟨-, heq⟩ := List.cons.inj heq
    obtain ⟨rfl, -⟩ := List.cons.inj heq
    have hslash := h.service 47 (by rw [hservice]; exact List.mem_cons_self)
    exact absurd hslash (by decide)

theorem auth_class (h : url.Proper) :
    ∀ b ∈ url.host ++ announced 58 url.service, noneOf (ascii "/?#") b = true := by
  intro b hb
  rcases List.mem_append.1 hb with hhost | hservice
  · exact noneOf_of_cons (h.host b hhost)
  · rcases mem_announced hservice with rfl | hmem
    · decide
    · exact h.service b hmem

theorem afterPath_class (url : Url) : ∀ b ∈ (announced 63 url.query ++
    announced 35 url.fragment).head?, isPathChar b = false := by
  refine head_append ?_ ?_ <;>
  · intro b hb
    rw [head_announced _ _ b hb]
    decide

/-- Parsing undoes joining. -/
theorem parseUrl_joinUrl (h : url.Proper) : parseUrl (joinUrl url) = some url := by
  obtain ⟨c₁, hprotocol, hprotocol_part, hkeep₁⟩ := finds_protocol (c := fun _ => none) rfl
    h.protocol h.host h.afterHost_class h.afterHost_ne
  obtain ⟨c₂, hauth, hauth_part, hkeep₂⟩ := finds_auth (c := c₁) h.auth_class h.afterAuth_class
  obtain ⟨c₃, hpath, hpath_part, hkeep₃⟩ := finds_path (c := c₂) h.path (afterPath_class url)
  obtain ⟨c₄, hquery, hquery_part, hkeep₄⟩ := finds_announced (c := c₃) (i := 6) (j := 7)
    (b := 63) (announced 35 url.fragment) (by decide) (by rw [hkeep₃ 7 (by decide) (by decide),
      hkeep₂ 7 (by decide) (by decide), hkeep₁ 7 (by decide) (by decide)]) h.query
    (fun b hb => by rw [head_announced 35 _ b hb]; decide)
    (fun b hb => by rw [head_announced 35 _ b hb]; decide)
  obtain ⟨c₅, hfragment, hfragment_part, hkeep₅⟩ := finds_announced (c := c₄) (i := 8) (j := 9)
    (b := 35) [] (by decide) (by rw [hkeep₄ 9 (by decide) (by decide),
      hkeep₃ 9 (by decide) (by decide), hkeep₂ 9 (by decide) (by decide),
      hkeep₁ 9 (by decide) (by decide)]) h.fragment nofun nofun
  have hmatch : urlRegex.regexMatch (joinUrl url) = some c₅ := by
    rw [urlRegex_eq, joinUrl, h.pathText_eq]
    rw [← List.append_assoc url.host] at hprotocol
    exact (hprotocol.seq_end (hauth.seq_end (hpath.seq_end (hquery.seq_end hfragment)))).regexMatch
  have hprotocol_part₅ : (c₅ 2).getD [] = url.protocol := by
    rw [hkeep₅ 2 (by decide) (by decide), hkeep₄ 2 (by decide) (by decide),
      hkeep₃ 2 (by decide) (by decide), hkeep₂ 2 (by decide) (by decide), hprotocol_part]
  have hauth_part₅ : (c₅ 4).getD [] = url.host ++ announced 58 url.service := by
    rw [hkeep₅ 4 (by decide) (by decide), hkeep₄ 4 (by decide) (by decide),
      hkeep₃ 4 (by decide) (by decide), hauth_part]
  have hpath_part₅ : (c₅ 5).getD [] = url.path := by
    rw [hkeep₅ 5 (by decide) (by decide), hkeep₄ 5 (by decide) (by decide), hpath_part]
  have hquery_part₅ : (c₅ 7).getD [] = url.query := by
    rw [hkeep₅ 7 (by decide) (by decide), hquery_part]
  obtain ⟨hhost, hservice⟩ := auth_cut url.service h.host
  rw [parseUrl, hmatch]
  simp only [Option.bind_eq_bind, Option.bind_some, hprotocol_part₅, hauth_part₅, hpath_part₅,
    hquery_part₅, hfragment_part, hhost, hservice]
  rfl

/-- No protocol, and a service with a colon of its own. -/
theorem parseUrl_joinUrl_auth : parseUrl (joinUrl ⟨[], ascii "h", ascii "8:0", ascii "//a", ascii "?", []⟩) =
    some ⟨[], ascii "h", ascii "8:0", ascii "//a", ascii "?", []⟩ :=
  parseUrl_joinUrl ⟨List.all_eq_true.1 rfl, List.all_eq_true.1 (by decide), List.all_eq_true.1 (by decide),
    List.all_eq_true.1 (by decide), fun _ hb => (Option.some.inj hb).symm, List.all_eq_true.1 (by decide),
    List.all_eq_true.1 rfl⟩

end Url.Proper

end AimRT.Util

import AimRT.Lib.LexicalPath
import AimRT.Util.UrlParser

/-!
# What the http server does with a request

`AsioHttpServer::Session` checks the method and the target of a request, parses the target, and either
has the handle of the path answer it or looks for a file under `doc_root`.

The file system is a parameter: what opening a path gives.
-/

namespace AimRT.Net.HttpServer

open AimRT.Lib AimRT.Util

inductive Verb where
  | get
  | head
  | post
  | options
  | other
  deriving DecidableEq, Repr

structure Request where
  method : Verb
  target : Bytes
  keepAlive : Bool
  deriving DecidableEq, Repr

inductive Body where
  | string (body : Bytes)
  | empty
  /-- A file, and whether it can be read; a directory can be opened but not read. -/
  | file (path : Bytes) (readable : Bool)
  deriving DecidableEq, Repr

structure Response where
  status : ℕ
  contentType : Bytes
  keepAlive : Bool
  contentLength : Option ℕ
  chunked : Bool
  body : Body
  deriving DecidableEq, Repr

/-- `need_eof()`: the connection is to be closed behind the response, because it is not kept alive or
because nothing else says where the response ends. -/
def Response.needEof (rsp : Response) : Bool :=
  if rsp.status = 204 ∨ rsp.status = 304 ∨ rsp.status / 100 = 1 ∨ rsp.contentLength.isSome ∨
      rsp.chunked then
    !rsp.keepAlive
  else true

/-- A response of the session itself, prepared. -/
def stringResponse (status : ℕ) (req : Request) (body : Bytes) : Response where
  status := status
  contentType := ascii "text/html"
  keepAlive := req.keepAlive
  contentLength := some body.length
  chunked := false
  body := .string body

def badRequestHandle (req : Request) (info : Bytes) : Response := stringResponse 400 req info

def notFoundHandle (req : Request) (info : Bytes) : Response :=
  stringResponse 404 req (ascii "The resource '" ++ info ++ ascii "' was not found.")

def serverErrorHandle (req : Request) (info : Bytes) : Response :=
  stringResponse 500 req (ascii "An error occurred: '" ++ info ++ ascii "'")

/-- No value where the request is good. -/
def checkBadRequest (req : Request) : Option Bytes :=
  if req.method = .other then some (ascii "UnSupport HTTP-method")
  else if req.target = [] ∨ req.target.head? ≠ some LexicalPath.slash ∨
      LexicalPath.dotDot <:+: req.target then
    some (ascii "Illegal request-target")
  else none

/-- `base` without a slash at its end. -/
def stripSlash (base : Bytes) : Bytes :=
  if base.getLast? = some LexicalPath.slash then base.dropLast else base

def pathCat (base path : Bytes) : Bytes := if base = [] then path else stripSlash base ++ path

/-- The path that is opened; no value where `path.back()` of an empty path is evaluated. -/
def filePath (docRoot path : Bytes) : Option Bytes :=
  path.getLast?.map fun back =>
    pathCat docRoot path ++ if back = LexicalPath.slash then ascii "index.html" else []

/-- What a C function takes a string for. -/
def cStr (s : Bytes) : Bytes := s.takeWhile (· != 0)

def toLower (c : UInt8) : UInt8 := if 65 ≤ c ∧ c ≤ 90 then c + 32 else c

/-- `path.substr(path.rfind('.'))`, empty where there is no dot. -/
def extension (path : Bytes) : Bytes :=
  if path.contains 46 then 46 :: (path.reverse.takeWhile (· != 46)).reverse else []

def mimeTypes : List (String × String) :=
  [(".htm", "text/html"), (".html", "text/html"), (".php", "text/html"), (".css", "text/css"),
    (".txt", "text/plain"), (".js", "application/javascript"), (".json", "application/json"),
    (".xml", "application/xml"), (".swf", "application/x-shockwave-flash"), (".flv", "video/x-flv"),
    (".png", "image/png"), (".jpe", "image/jpeg"), (".jpeg", "image/jpeg"), (".jpg", "image/jpeg"),
    (".gif", "image/gif"), (".bmp", "image/bmp"), (".ico", "image/vnd.microsoft.icon"),
    (".tiff", "image/tiff"), (".tif", "image/tiff"), (".svg", "image/svg+xml"),
    (".svgz", "image/svg+xml")]

def mimeType (path : Bytes) : Bytes :=
  match mimeTypes.find? fun t => ascii t.1 == (extension path).map toLower with
  | some t => ascii t.2
  | none => ascii "application/text"

/-- What `body.open` gives. -/
inductive OpenResult where
  | opened (size : ℕ) (readable : Bool)
  | noSuchFileOrDirectory
  | failed (message : Bytes)
  deriving DecidableEq, Repr

/-- Where a request goes. -/
inductive Route where
  | respond (rsp : Response)
  | handle (path : Bytes)
  /-- To the file that is opened, for the path of the url. -/
  | file (opened : Option Bytes) (path : Bytes)
  deriving DecidableEq, Repr

/-- `hasHandle` is whether the dispatcher has a handle for a path. -/
def route (docRoot : Bytes) (hasHandle : Bytes → Bool) (req : Request) : Route :=
  match checkBadRequest req with
  | some info => .respond (badRequestHandle req info)
  | none =>
    match parseUrl req.target with
    | none => .respond (badRequestHandle req (ascii "Can not parse url"))
    | some url =>
      if hasHandle url.path then .handle url.path
      else if docRoot = [] then .respond (notFoundHandle req url.path)
      else .file (filePath docRoot url.path) url.path

/-- The response to a request for a file. -/
def fileResponse (req : Request) (opened path : Bytes) : OpenResult → Response
  | .noSuchFileOrDirectory => notFoundHandle req path
  | .failed message => serverErrorHandle req message
  | .opened size readable =>
    { status := 200
      contentType := mimeType opened
      keepAlive := req.keepAlive
      contentLength := some size
      chunked := false
      body := if req.method = .head then .empty else .file opened readable }

/-! ### The files that are opened -/

variable {docRoot : Bytes} {hasHandle : Bytes → Bool} {req : Request} {opened : Option Bytes}
  {path : Bytes}

/-- A string that a path inside the document root goes on with. -/
structure Confined (docRoot file rest : Bytes) : Prop where
  eq : file = stripSlash docRoot ++ rest
  slash : rest.head? = some LexicalPath.slash
  noDotDot : LexicalPath.dotDot ∉ LexicalPath.components rest
  inside : LexicalPath.Inside docRoot file

theorem stripSlash_cases (docRoot : Bytes) : stripSlash docRoot = docRoot ∨
    docRoot = stripSlash docRoot ++ [LexicalPath.slash] := by
  unfold stripSlash
  split
  next hlast => exact .inr (List.dropLast_append_getLast? _ hlast).symm
  · exact .inl rfl

theorem normal_stripSlash (docRoot : Bytes) :
    LexicalPath.normal docRoot = LexicalPath.normal (stripSlash docRoot) := by
  rcases stripSlash_cases docRoot with hstrip | hstrip
  · rw [hstrip]
  · by_cases hnil : stripSlash docRoot = []
    · rw [hstrip, hnil]
      rfl
    · conv_lhs => rw [hstrip]
      exact LexicalPath.normal_append_slash hnil

/-- What begins with a slash and has no `..` among its components is confined. -/
theorem confined_of_slash (docRoot : Bytes) {rest : Bytes}
    (hrest : LexicalPath.dotDot ∉ LexicalPath.components (LexicalPath.slash :: rest)) :
    Confined docRoot (stripSlash docRoot ++ LexicalPath.slash :: rest) (LexicalPath.slash :: rest) where
  eq := rfl
  slash := rfl
  noDotDot := hrest
  inside := by
    unfold LexicalPath.Inside
    rw [normal_stripSlash]
    exact LexicalPath.inside_append_slash _ fun hmem => hrest (List.mem_cons_of_mem _ hmem)

theorem dotDot_not_mem_of_not_infix {s t : Bytes} (h : ¬ LexicalPath.dotDot <:+: t) (hst : s <:+: t) :
    LexicalPath.dotDot ∉ LexicalPath.components s := fun hmem =>
  h ((LexicalPath.infix_of_mem_components hmem).trans hst)

/-- Behind the slash at the end of a path comes one component more. -/
theorem dotDot_not_mem_index {s t : Bytes} (h : ¬ LexicalPath.dotDot <:+: t) (hst : s <:+: t)
    (hslash : s.getLast? = some LexicalPath.slash) :
    LexicalPath.dotDot ∉ LexicalPath.components (s ++ ascii "index.html") := by
  obtain ⟨u, rfl⟩ : ∃ u, s = u ++ [LexicalPath.slash] := by
    refine ⟨s.dropLast, (List.dropLast_append_getLast? _ ?_).symm⟩
    rw [hslash]
    rfl
  have hu : u <:+: t := (List.prefix_append u _).isInfix.trans hst
  rw [List.append_assoc, List.singleton_append, LexicalPath.components_append_slash, List.mem_append]
  rintro (hmem | hmem)
  · exact dotDot_not_mem_of_not_infix h hu hmem
  · revert hmem
    decide

theorem cStr_append_of_not_mem {s : Bytes} (h : 0 ∉ s) (t : Bytes) : cStr (s ++ t) = s ++ cStr t :=
  List.takeWhile_append_of_pos fun _ hb => bne_iff_ne.2 fun hzero => h (hzero ▸ hb)

theorem cStr_append_of_mem {s : Bytes} (h : 0 ∈ s) (t : Bytes) : cStr (s ++ t) = cStr s := by
  induction s with
  | nil => cases h
  | cons b s ih =>
    unfold cStr
    rw [List.cons_append, List.takeWhile_cons, List.takeWhile_cons]
    split
    next hb =>
      have hs : 0 ∈ s := (List.mem_cons.1 h).resolve_left fun hzero => by simp [← hzero] at hb
      exact congrArg (b :: ·) (ih hs)
    · rfl

theorem infix_cStr (s : Bytes) : cStr s <:+: s := (List.takeWhile_prefix _).isInfix

theorem mem_of_mem_stripSlash {b : UInt8} (h : b ∈ stripSlash docRoot) : b ∈ docRoot := by
  unfold stripSlash at h
  split at h
  · exact List.dropLast_subset _ h
  · exact h

theorem head_and_not_dotDot_of_good (h : checkBadRequest req = none) :
    req.target.head? = some LexicalPath.slash ∧ ¬ LexicalPath.dotDot <:+: req.target := by
  unfold checkBadRequest at h
  split at h
  · cases h
  split at h
  · cases h
  next hgood =>
    rw [not_or, not_or, not_not] at hgood
    exact hgood.2

theorem target_of_good (h : checkBadRequest req = none) :
    ∃ s, req.target = LexicalPath.slash :: s := by
  obtain ⟨hhead, -⟩ := head_and_not_dotDot_of_good h
  cases htarget : req.target with
  | nil => simp [htarget] at hhead
  | cons b s =>
    rw [htarget, List.head?_cons, Option.some.injEq] at hhead
    exact ⟨s, by rw [hhead]⟩

theorem not_dotDot_of_good (h : checkBadRequest req = none) :
    ¬ LexicalPath.dotDot <:+: req.target := (head_and_not_dotDot_of_good h).2

/-- What is appended to a path: nothing, or the index behind a slash. -/
theorem file_rest {target : Bytes} (h : ¬ LexicalPath.dotDot <:+: target) (hpath : path <:+: target)
    {back : UInt8} (hback : path.getLast? = some back) : ∃ index,
    (if back = LexicalPath.slash then ascii "index.html" else []) = index ∧
      LexicalPath.dotDot ∉ LexicalPath.components (path ++ index) ∧
      LexicalPath.dotDot ∉ LexicalPath.components (cStr (path ++ index)) := by
  have hcStr : ∀ index, cStr index = index →
      LexicalPath.dotDot ∉ LexicalPath.components (path ++ index) →
      LexicalPath.dotDot ∉ LexicalPath.components (cStr (path ++ index)) := by
    intro index hindex hrest
    by_cases hzero : 0 ∈ path
    · rw [cStr_append_of_mem hzero]
      exact dotDot_not_mem_of_not_infix h ((infix_cStr path).trans hpath)
    · rwa [cStr_append_of_not_mem hzero, hindex]
  split
  next hslash =>
    have hrest := dotDot_not_mem_index h hpath (hslash ▸ hback)
    exact ⟨_, rfl, hrest, hcStr _ (by decide) hrest⟩
  · have hrest : LexicalPath.dotDot ∉ LexicalPath.components (path ++ []) := by
      rw [List.append_nil]
      exact dotDot_not_mem_of_not_infix h hpath
    exact ⟨[], rfl, hrest, hcStr [] rfl hrest⟩

/-- **The files that are opened are confined to the document root**, as strings and as the C functions
take them, and `back()` is evaluated on a path that is not empty. -/
theorem confined_of_route (h : route docRoot hasHandle req = .file opened path) :
    path ≠ [] ∧ ∃ file rest, opened = some file ∧ Confined docRoot file rest ∧
      (0 ∉ docRoot → Confined docRoot (cStr file) (cStr rest)) := by
  unfold route at h
  split at h
  · cases h
  next hgood =>
  split at h
  · cases h
  next url hurl =>
  split at h
  · cases h
  split at h
  · cases h
  next hdocRoot =>
  obtain ⟨rfl, rfl⟩ := Route.file.inj h
  obtain ⟨s, htarget⟩ := target_of_good hgood
  have hdots : ¬ LexicalPath.dotDot <:+: req.target := not_dotDot_of_good hgood
  have hpath : url.path = LexicalPath.slash :: s.takeWhile isPathChar :=
    path_of_slash (htarget ▸ hurl)
  have hprefix : url.path <:+: req.target := by
    rw [hpath, htarget]
    exact (List.takeWhile_prefix (l := LexicalPath.slash :: s) isPathChar).isInfix
  obtain ⟨back, hback⟩ : ∃ back, url.path.getLast? = some back := by
    rw [hpath, List.getLast?_cons]
    exact ⟨_, rfl⟩
  obtain ⟨index, hindex, hrest⟩ := file_rest hdots hprefix hback
  refine ⟨hpath ▸ List.cons_ne_nil _ _, stripSlash docRoot ++ (url.path ++ index),
    url.path ++ index, ?_, ?_, fun hzero => ?_⟩
  · rw [filePath, hback, Option.map_some, pathCat, if_neg hdocRoot, hindex, List.append_assoc]
  · rw [hpath] at hrest ⊢
    exact confined_of_slash docRoot hrest.1
  · rw [cStr_append_of_not_mem fun hmem => hzero (mem_of_mem_stripSlash hmem)]
    rw [hpath] at hrest ⊢
    exact confined_of_slash docRoot hrest.2

/-- The directory `a` of the document root `./www/`. -/
theorem confined_index : ascii "/a/" ≠ [] ∧ ∃ file rest,
    some (ascii "./www/a/index.html") = some file ∧ Confined (ascii "./www/") file rest ∧
      (0 ∉ ascii "./www/" → Confined (ascii "./www/") (cStr file) (cStr rest)) :=
  @confined_of_route (ascii "./www/") (fun _ => false) ⟨.get, ascii "/a/?x=1", true⟩
    (some (ascii "./www/a/index.html")) (ascii "/a/") (by decide)

end AimRT.Net.HttpServer

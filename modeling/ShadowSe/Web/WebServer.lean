import ShadowSe.Web.HttpRequest
import ShadowSe.Web.ResultPage

namespace ShadowSe.WebServer

open Http

/-- The options that serving a request reads. -/
structure Options where
  maxRequestBytes : Nat := 16 * 1024
  maxQueryLength : Nat := 256
  pageTitle : Bytes := ascii "Shadow SE"

/-- What is sent, apart from the fixed headers. -/
structure Response where
  status : Nat
  statusText : Bytes
  body : Bytes
  deriving DecidableEq

/-- The `hex` lambda of `urlDecode`; `none` is its -1. -/
def hex (h : UInt8) : Option UInt8 :=
  if 48 ≤ h ∧ h ≤ 57 then some (h - 48)
  else if 97 ≤ h ∧ h ≤ 102 then some (h - 97 + 10)
  else if 65 ≤ h ∧ h ≤ 70 then some (h - 65 + 10)
  else none

/-- `urlDecode`; `none` where the source returns false. -/
def urlDecode : Bytes → Option Bytes
  | [] => some []
  | c :: rest =>
    if c = 43 then (urlDecode rest).map (32 :: ·)
    else if c = 37 then
      match rest with
      | high :: low :: rest =>
        match hex high, hex low with
        | some hi, some lo => (urlDecode rest).map ((hi <<< 4 ||| lo) :: ·)
        | _, _ => none
      | _ => none
    else (urlDecode rest).map (c :: ·)

/-- The query of a query string: its first `q` parameter, decoded and capped; a value
that does not decode leaves it empty. -/
def queryOf (opts : Options) (queryString : Bytes) : Bytes :=
  let query := match parameter (ascii "q=") queryString with
    | some value => (urlDecode value).getD []
    | none => []
  if opts.maxQueryLength < query.length then query.take opts.maxQueryLength else query

section Serving

variable (D : Type) [Double64 D]

/-- The page for a query: nothing is searched for an empty one. -/
def resultPage (order : Support.VisitOrder) (opts : Options) (ix : InvertedIndex)
    (query : Bytes) : Response :=
  let results := if query.isEmpty then [] else Engine.search D order ix query 20
  { status := 200, statusText := ascii "OK", body := renderPage opts.pageTitle query results }

def serveRequest (order : Support.VisitOrder) (opts : Options) (ix : InvertedIndex)
    (requestLine : Bytes) : Response :=
  let (method, target) := methodAndTarget requestLine
  if method ≠ ascii "GET" then
    { status := 405, statusText := ascii "Method Not Allowed"
      body := ascii "<html><body>GET only.</body></html>" }
  else if target.contains (ascii "..") then
    { status := 400, statusText := ascii "Bad Request"
      body := ascii "<html><body>Bad request.</body></html>" }
  else
    let (path, queryString) := splitTarget target
    if path ≠ ascii "/" then
      { status := 404, statusText := ascii "Not Found"
        body := ascii "<html><body><h1>404</h1><p>Not found. Try <a href=\"/\">/</a>.</p>" ++
        ascii "</body></html>" }
    else resultPage D order opts ix (queryOf opts queryString)

def handleClient (order : Support.VisitOrder) (opts : Options) (ix : InvertedIndex)
    (chunks : List Bytes) : Option Response :=
  (receive opts.maxRequestBytes [] chunks).map fun head =>
    serveRequest D order opts ix (requestLine head)

end Serving

/-- A hexadecimal digit as forms write it. -/
def upperHex (digit : UInt8) : UInt8 :=
  if digit < 10 then 48 + digit else 55 + digit

/-- The bytes that `application/x-www-form-urlencoded` keeps. -/
def isKept (c : UInt8) : Bool :=
  isalnum c || c == 45 || c == 95 || c == 46 || c == 42

def formEncodeByte (c : UInt8) : Bytes :=
  if isKept c then [c]
  else if c = 32 then [43]
  else [37, upperHex (c >>> 4), upperHex (c &&& 0x0F)]

def formEncode (s : Bytes) : Bytes :=
  s.flatMap formEncodeByte

/-- The request line of the search form for a query. -/
def formRequest (query : Bytes) : Bytes :=
  ascii "GET /?q=" ++ formEncode query ++ ascii " HTTP/1.1"

theorem formEncode_cons (c : UInt8) (s : Bytes) :
    formEncode (c :: s) = formEncodeByte c ++ formEncode s :=
  rfl

/-- What a form writes is no white space and no separator of the request, and it has dots
only for dots. -/
private theorem formEncodeByte_clean : ∀ c : UInt8, ∀ x ∈ formEncodeByte c,
    isspace x = false ∧ x ≠ 38 ∧ (x = 46 → c = 46) := by
  apply forall_byte
  decide +kernel

private theorem isKept_plain : ∀ c : UInt8, isKept c = true → c ≠ 43 ∧ c ≠ 37 := by
  apply forall_byte
  decide +kernel

private theorem hex_upperHex : ∀ c : UInt8, hex (upperHex (c >>> 4)) = some (c >>> 4) ∧
    hex (upperHex (c &&& 0x0F)) = some (c &&& 0x0F) ∧ (c >>> 4) <<< 4 ||| (c &&& 0x0F) = c := by
  apply forall_byte
  decide +kernel

private theorem formEncode_clean {s : Bytes} {x : UInt8} (member : x ∈ formEncode s) :
    isspace x = false ∧ x ≠ 38 := by
  obtain ⟨c, _, written⟩ := List.mem_flatMap.mp member
  exact ⟨(formEncodeByte_clean c x written).1, (formEncodeByte_clean c x written).2.1⟩

theorem urlDecode_plain {c : UInt8} (noPlus : c ≠ 43) (noPercent : c ≠ 37) (rest : Bytes) :
    urlDecode (c :: rest) = (urlDecode rest).map (c :: ·) := by
  rw [urlDecode.eq_def]
  simp only [if_neg noPlus, if_neg noPercent]

theorem urlDecode_plus (rest : Bytes) :
    urlDecode (43 :: rest) = (urlDecode rest).map (32 :: ·) := by
  rw [urlDecode.eq_def]
  rfl

theorem urlDecode_formEncodeByte (c : UInt8) (rest : Bytes) :
    urlDecode (formEncodeByte c ++ rest) = (urlDecode rest).map (c :: ·) := by
  unfold formEncodeByte
  split
  · rename_i kept
    obtain ⟨noPlus, noPercent⟩ := isKept_plain c kept
    rw [List.singleton_append, urlDecode_plain noPlus noPercent]
  · split
    · rename_i space
      rw [List.singleton_append, urlDecode_plus, space]
    · obtain ⟨high, low, join⟩ := hex_upperHex c
      simp only [List.cons_append, List.nil_append, urlDecode, high, low, join]
      rfl

theorem urlDecode_formEncode (s : Bytes) : urlDecode (formEncode s) = some s := by
  induction s with
  | nil => rfl
  | cons c rest ih =>
    rw [formEncode_cons, urlDecode_formEncodeByte, ih]
    rfl

theorem nextWord_append {word : Bytes} (solid : ∀ c ∈ word, isspace c = false)
    (nonempty : word ≠ []) (rest : Bytes) : nextWord (word ++ 32 :: rest) = (word, 32 :: rest) := by
  obtain ⟨first, others, rfl⟩ := List.exists_cons_of_ne_nil nonempty
  have start : isspace first = false := solid first (by simp)
  have solid' : ∀ c ∈ first :: others, (!isspace c) = true :=
    fun c member => by simp [solid c member]
  have begun : ((first :: others) ++ 32 :: rest).dropWhile isspace =
      (first :: others) ++ 32 :: rest := by
    simp [start]
  have ended : (!isspace 32) = false := rfl
  rw [nextWord, begun]
  simp only [List.takeWhile_append_of_pos solid', List.dropWhile_append_of_pos solid',
    List.takeWhile_cons, List.dropWhile_cons, ended]
  simp

theorem methodAndTarget_formRequest (query : Bytes) :
    methodAndTarget (formRequest query) = (ascii "GET", ascii "/?q=" ++ formEncode query) := by
  have shape : formRequest query = ascii "GET" ++ 32 ::
      ((ascii "/?q=" ++ formEncode query) ++ 32 :: ascii "HTTP/1.1") := by
    simp [formRequest, ascii]
  have method : ∀ c ∈ ascii "GET", isspace c = false := by decide +kernel
  have path : ∀ c ∈ ascii "/?q=", isspace c = false := by decide +kernel
  have target : ∀ c ∈ ascii "/?q=" ++ formEncode query, isspace c = false := by
    intro c member
    rcases List.mem_append.mp member with fixed | encoded
    · exact path c fixed
    · exact (formEncode_clean encoded).1
  have blank (line : Bytes) : nextWord (32 :: line) = nextWord line := rfl
  rw [methodAndTarget, shape, nextWord_append method (by decide)]
  simp only [blank, nextWord_append target (by simp [ascii])]

theorem queryOf_form (opts : Options) {query : Bytes} (short : query.length ≤ opts.maxQueryLength) :
    queryOf opts (ascii "q=" ++ formEncode query) = query := by
  have single : (38 : UInt8) ∉ ascii "q=" ++ formEncode query := by
    intro member
    rcases List.mem_append.mp member with fixed | encoded
    · revert fixed
      decide
    · exact (formEncode_clean encoded).2 rfl
  have found : parameter (ascii "q=") (ascii "q=" ++ formEncode query) =
      some (formEncode query) := by
    rw [parameter_eq_firstParameter, firstParameter, List.splitOn_eq_singleton single]
    have starts : Bytes.startsWith (ascii "q=" ++ formEncode query) (ascii "q=") = true := by
      simp [Bytes.startsWith]
    simp [starts]
  rw [queryOf, found]
  simp only [urlDecode_formEncode, Option.getD_some, if_neg (not_lt.mpr short)]

/-- A word without dots in front of a text adds no pair of dots. -/
private theorem dots_append {word : Bytes} (dotless : 46 ∉ word) (s : Bytes) :
    [46, 46] <:+: word ++ s ↔ [46, 46] <:+: s := by
  induction word with
  | nil => rfl
  | cons c rest ih =>
    simp only [List.mem_cons, not_or] at dotless
    rw [List.cons_append, List.infix_cons_iff, ih dotless.2]
    constructor
    · rintro (start | later)
      · exact absurd (List.cons_prefix_cons.mp start).1 dotless.1
      · exact later
    · exact Or.inr

private theorem dot_start (s : Bytes) : [46] <+: formEncode s ↔ [46] <+: s := by
  cases s with
  | nil => rfl
  | cons c rest =>
    by_cases dot : c = 46
    · subst dot
      have written : formEncodeByte 46 = [46] := rfl
      simp [formEncode_cons, written]
    · have nonempty : formEncodeByte c ≠ [] := by
        unfold formEncodeByte
        split_ifs <;> simp
      obtain ⟨first, tail, written⟩ := List.exists_cons_of_ne_nil nonempty
      have other : first ≠ 46 := by
        rintro rfl
        exact dot ((formEncodeByte_clean c 46 (written ▸ List.mem_cons_self)).2.2 rfl)
      simp [formEncode_cons, written, dot, other, eq_comm]

/-- The encoding has two dots in a row exactly where the query has. -/
theorem dots_formEncode (s : Bytes) : [46, 46] <:+: formEncode s ↔ [46, 46] <:+: s := by
  induction s with
  | nil => rfl
  | cons c rest ih =>
    rw [formEncode_cons]
    by_cases dot : c = 46
    · subst dot
      have written : formEncodeByte 46 = [46] := rfl
      rw [written, List.singleton_append, List.infix_cons_iff, List.infix_cons_iff, ih,
        List.cons_prefix_cons, List.cons_prefix_cons, dot_start]
    · have dotless : (46 : UInt8) ∉ formEncodeByte c :=
        fun member => dot ((formEncodeByte_clean c 46 member).2.2 rfl)
      have other : (46 : UInt8) ∉ [c] := by simpa using Ne.symm dot
      rw [dots_append dotless, ih]
      exact (dots_append other rest).symm

theorem contains_target (query : Bytes) :
    Bytes.contains (ascii "/?q=" ++ formEncode query) (ascii "..") =
      Bytes.contains query (ascii "..") := by
  have dots : ascii ".." = [46, 46] := rfl
  rw [Bool.eq_iff_iff, Bytes.contains_iff_isInfix, Bytes.contains_iff_isInfix, dots,
    dots_append (by decide), dots_formEncode]

/-- The form request for a query of any bytes that fits is answered with the result page
for exactly that query, unless the query has two dots in a row, which the filter meant
for paths refuses. -/
theorem serveRequest_formRequest_iff (D : Type) [Double64 D] (order : Support.VisitOrder)
    (opts : Options) (ix : InvertedIndex) (query : Bytes) (nonempty : query ≠ [])
    (short : query.length ≤ opts.maxQueryLength) :
    serveRequest D order opts ix (formRequest query) =
        { status := 200, statusText := ascii "OK"
          body := renderPage opts.pageTitle query (Engine.search D order ix query 20) } ↔
      Bytes.contains query (ascii "..") = false := by
  have target : splitTarget (ascii "/?q=" ++ formEncode query) =
      (ascii "/", ascii "q=" ++ formEncode query) := rfl
  have some : query.isEmpty = false := List.isEmpty_eq_false_iff.mpr nonempty
  rw [serveRequest, methodAndTarget_formRequest]
  simp only [ne_eq, not_true_eq_false, ↓reduceIte, contains_target, target,
    queryOf_form opts short, resultPage, some]
  cases Bytes.contains query (ascii "..") with
  | false => simp
  | true => simp

/-- Bytes of every kind: a letter, a blank, markup, a percent sign and a lone lead byte. -/
theorem serveRequest_formRequest_bytes :
    serveRequest ℝ .stored {} .empty (formRequest [0x61, 0x20, 0x3C, 0x25, 0xC3]) =
        { status := 200, statusText := ascii "OK"
          body := renderPage (ascii "Shadow SE") [0x61, 0x20, 0x3C, 0x25, 0xC3]
            (Engine.search ℝ .stored .empty [0x61, 0x20, 0x3C, 0x25, 0xC3] 20) } ↔
      Bytes.contains [0x61, 0x20, 0x3C, 0x25, 0xC3] (ascii "..") = false :=
  serveRequest_formRequest_iff ℝ .stored {} .empty [0x61, 0x20, 0x3C, 0x25, 0xC3] (by simp)
    (by decide)

theorem serveRequest_refuses_dots :
    serveRequest ℝ .stored {} .empty (formRequest (ascii "..")) ≠
      { status := 200, statusText := ascii "OK"
        body := renderPage (ascii "Shadow SE") (ascii "..")
          (Engine.search ℝ .stored .empty (ascii "..") 20) } := by
  intro served
  have status : (400 : Nat) = 200 := congrArg Response.status served
  cases status

end ShadowSe.WebServer

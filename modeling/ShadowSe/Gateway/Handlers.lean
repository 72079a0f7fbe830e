import ShadowSe.Crawl.Reporting
import ShadowSe.Gateway.SearchJson
import ShadowSe.Tor.ProxyPool

namespace ShadowSe

open Support Json

/-- `termCount`. -/
def InvertedIndex.termCount (ix : InvertedIndex) : Nat :=
  ix.postings_.entries.length

/-- `Engine::crawl`, on the crawler that the engine owns. -/
def Engine.crawl (opts : CrawlerOptions) (s : Crawler) (url : Bytes) : Bool × Crawler :=
  ((s.crawl.frontier.enqueue opts url 0 (-1)).1,
    { s with crawl := s.crawl.enqueue opts url 0 (-1) })

namespace JsonGateway

/-- A request without a `Range` header as the library reads it, the parameters in the order in
which they were inserted. -/
structure Request where
  method : Bytes
  path : Bytes
  params : List (Bytes × Bytes) := []
  /-- Empty where it comes as `multipart/form-data`. -/
  body : Bytes := []
  /-- The body comes as `application/x-www-form-urlencoded`. -/
  form : Bool := false
  /-- The status under which the library refuses what it cannot read: a malformed head or body,
  a target that is too long, an encoding that it does not support. -/
  refusal : Option Nat := none

structure Response where
  status : Nat
  body : Bytes
  deriving DecidableEq

/-- `get_param_value`, or nothing where `has_param` finds none. -/
def Request.param (req : Request) (key : Bytes) : Bytes :=
  ((req.params.find? fun entry => entry.1 = key).map (·.2)).getD []

def errorValue (msg : Bytes) : Value :=
  let v : Value := .null
  v.assign (ascii "error") (.string msg)

def jsonError (msg : Bytes) (code : Nat) : Response :=
  { status := code, body := (errorValue msg).dump false }

/-- What the engine gives the handlers. The getters of `statusJson` are called one by one, and a
search reads the index while others may write to it. -/
structure Readings (D : Type) where
  documentCount : Nat
  termCount : Nat
  averageDocLength : D
  crawledPages : Nat
  pendingCrawls : Nat
  running : Bool
  fetcher : Bytes
  lastTor : TorStatus
  /-- `engine_.search(q, 20)`. -/
  search : Bytes → List (ScoredDocument D)
  search_le : ∀ q, (search q).length ≤ 20

/-- `static_cast<int>` of a size. -/
def castSize (size : Nat) : Int :=
  castInt (UInt32.ofNat size)

section Handlers

variable {D : Type} [Double64 D]

def statusValue (now : Readings D) : Value :=
  let v : Value := .null
  let v := v.assign (ascii "documents") (.number (.ofInt (castSize now.documentCount)))
  let v := v.assign (ascii "terms") (.number (.ofInt (castSize now.termCount)))
  let v := v.assign (ascii "average_doc_length")
    (.number (Double64.toBinary64 now.averageDocLength))
  let v := v.assign (ascii "crawled_pages") (.number (.ofInt (castSize now.crawledPages)))
  let v := v.assign (ascii "pending_crawls") (.number (.ofInt (castSize now.pendingCrawls)))
  let v := v.assign (ascii "crawler_running") (.bool now.running)
  let v := v.assign (ascii "fetcher") (.string now.fetcher)
  v.assign (ascii "tor") (.string (ascii (if now.lastTor = .up then "up"
    else if now.lastTor = .down then "down" else "unknown")))

def statusJson (now : Readings D) : Bytes :=
  (statusValue now).dump false

/-- `searchJson` with what the search gives. -/
def Readings.searchJson (now : Readings D) (opts : Options) (query : Bytes) : Bytes :=
  let q := query.take opts.maxQueryLength
  (response q (now.search q)).dump false

/-- The member of a posted object under a key, or the message of the refusal. No error is
written for a text that parses to something else. -/
def postedString (body key : Bytes) : Except Bytes Bytes :=
  match parse body with
  | .error err => .error (ascii "invalid JSON body: " ++ err)
  | .ok (.object members) => .ok ((((Value.object members).find key).map (·.asString [])).getD [])
  | .ok _ => .error (ascii "invalid JSON body: ")

/-- The value that `handleCrawl` answers with. -/
def crawlValue (url : Bytes) (enqueued : Bool) : Value :=
  let v : Value := .null
  let v := v.assign (ascii "url") (.string url)
  v.assign (ascii "enqueued") (.bool enqueued)

def handleCrawl (copts : CrawlerOptions) (s : Crawler) (rawUrl : Bytes) : Response × Crawler :=
  let url := normalizeUrl rawUrl
  if url.isEmpty then (jsonError (ascii "a valid url is required") 400, s)
  else
    let (enqueued, s) := Engine.crawl copts s url
    ({ status := 200, body := (crawlValue url enqueued).dump false }, s)

/-- `set_payload_max_length`, and the lower limit of the library for forms. -/
def payloadMaxLength (req : Request) : Nat :=
  if req.form then 8192 else 64 * 1024

variable (opts : Options) (copts : CrawlerOptions)

/-- `routing` to the handlers that `setupHandlers` registers, by method and exact path. What is
not routed is 404, or 400 where the method has no table of routes. -/
def handle (now : Readings D) (s : Crawler) (req : Request) : Response × Crawler :=
  let dispatch (handler : Response × Crawler) : Response × Crawler :=
    -- The body is read only after the route has matched.
    if payloadMaxLength req < req.body.length then ({ status := 413, body := [] }, s)
    else handler
  let search (q : Bytes) : Response × Crawler :=
    ({ status := 200, body := now.searchJson opts q }, s)
  let notFound : Response × Crawler := ({ status := 404, body := [] }, s)
  match req.refusal with
  | some status => ({ status, body := [] }, s)
  | none =>
    if req.method = ascii "GET" ∨ req.method = ascii "HEAD" then
      if req.path = ascii "/search" then dispatch (search (req.param (ascii "q")))
      else if req.path = ascii "/crawl" then
        dispatch (handleCrawl copts s (req.param (ascii "url")))
      else if req.path = ascii "/status" then
        dispatch ({ status := 200, body := statusJson now }, s)
      else notFound
    else if req.method = ascii "POST" then
      if req.path = ascii "/search" then
        dispatch (match postedString req.body (ascii "q") with
          | .error msg => (jsonError msg 400, s)
          | .ok q => search q)
      else if req.path = ascii "/crawl" then
        dispatch (match postedString req.body (ascii "url") with
          | .error msg => (jsonError msg 400, s)
          | .ok url => handleCrawl copts s url)
      else notFound
    else if req.method = ascii "PUT" ∨ req.method = ascii "DELETE" ∨
        req.method = ascii "OPTIONS" ∨ req.method = ascii "PATCH" then notFound
    else ({ status := 400, body := [] }, s)

/-- The error handler of `setupHandlers`. -/
def errorHandler (res : Response) : Response :=
  if res.status = 404 then
    { res with body := (errorValue (ascii "not found")).dump false }
  else res

/-- `write_response_core`: the error handler comes first, and to a `HEAD` no body is written. -/
def written (req : Request) (res : Response) : Response :=
  let res := if 400 ≤ res.status then errorHandler res else res
  if req.method = ascii "HEAD" then { res with body := [] } else res

/-- `process_request`: what is written back, and the crawler after it. -/
def respond (now : Readings D) (s : Crawler) (req : Request) : Response × Crawler :=
  let (res, s) := handle opts copts now s req
  (written req res, s)

end Handlers

theorem castSize_natAbs_lt (size : Nat) : (castSize size).natAbs < 2 ^ 53 := by
  have low := (UInt32.ofNat size).toInt32.le_toInt
  have high := (UInt32.ofNat size).toInt32.toInt_lt
  unfold castSize castInt
  omega

/-- A dumped value is a JSON text of what is read back from it. -/
theorem isText_errorValue (msg : Bytes) :
    IsText paired ((errorValue msg).dump false) (.object [(ascii "error", .string msg)]) :=
  isText_dump (v := errorValue msg) false (by simp [errorValue, Value.assign, Value.numbers,
    numbersOfMembers])

theorem isText_crawlValue (url : Bytes) (enqueued : Bool) :
    IsText paired ((crawlValue url enqueued).dump false)
      (.object [(ascii "url", .string url), (ascii "enqueued", .bool enqueued)]) :=
  isText_dump (v := crawlValue url enqueued) false (by simp [crawlValue, Value.assign,
    Value.assignMember, Value.numbers, numbersOfMembers, ascii])

section Texts

variable {D : Type} [Double64 D]

theorem statusValue_eq (now : Readings D) : statusValue now = .object [
    (ascii "documents", .number (.ofInt (castSize now.documentCount))),
    (ascii "terms", .number (.ofInt (castSize now.termCount))),
    (ascii "average_doc_length", .number (Double64.toBinary64 now.averageDocLength)),
    (ascii "crawled_pages", .number (.ofInt (castSize now.crawledPages))),
    (ascii "pending_crawls", .number (.ofInt (castSize now.pendingCrawls))),
    (ascii "crawler_running", .bool now.running), (ascii "fetcher", .string now.fetcher),
    (ascii "tor", .string (ascii (if now.lastTor = .up then "up"
      else if now.lastTor = .down then "down" else "unknown")))] :=
  rfl

theorem statusValue_isFinite (now : Readings D) :
    ∀ n ∈ (statusValue now).numbers, n.isFinite = true := by
  have cast (size : Nat) : (Binary64.ofInt (castSize size)).isFinite = true :=
    Binary64.ofInt_isFinite (castSize_natAbs_lt size)
  intro n member
  simp only [statusValue_eq, Value.numbers, numbersOfMembers, List.append_nil,
    List.singleton_append, List.mem_cons, List.not_mem_nil, or_false] at member
  rcases member with rfl | rfl | rfl | rfl | rfl
  · exact cast _
  · exact cast _
  · exact Double64.toBinary64_isFinite _
  · exact cast _
  · exact cast _

end Texts

namespace Response

/-- The body is a JSON object without an error. -/
def IsAnswer (res : Response) : Prop :=
  res.status = 200 ∧ ∃ members, IsText paired res.body (.object members) ∧
    (Value.object members).find (ascii "error") = none

/-- The body is a JSON object with a message alone. -/
def IsRefusal (res : Response) (status : Nat) (msg : Bytes) : Prop :=
  res.status = status ∧ IsText paired res.body (.object [(ascii "error", .string msg)])

end Response

theorem isRefusal_jsonError (msg : Bytes) (code : Nat) : (jsonError msg code).IsRefusal code msg :=
  ⟨rfl, isText_errorValue msg⟩

theorem find_reread_none {members : List (Bytes × Value)} {key : Bytes}
    (absent : key ∉ members.map (·.1)) :
    (Value.object (rereadMembers members)).find key = none := by
  have names : (rereadMembers members).map (·.1) = members.map (·.1) := by
    induction members with
    | nil => rfl
    | cons entry rest ih =>
      rw [rereadMembers, List.map_cons, List.map_cons, ih fun member => absent (by simp [member])]
  rw [← names] at absent
  rw [Value.find, Option.map_eq_none_iff, List.find?_eq_none]
  intro entry member same
  exact absent (List.mem_map.mpr ⟨entry, member, of_decide_eq_true same⟩)

private theorem isAnswer_dump {v : Value} {members : List (Bytes × Value)}
    (shape : v = .object members) (finite : ∀ n ∈ v.numbers, n.isFinite = true)
    (absent : ascii "error" ∉ members.map (·.1)) :
    Response.IsAnswer { status := 200, body := v.dump false } := by
  have text := isText_dump false finite
  subst shape
  exact ⟨rfl, rereadMembers members, text, find_reread_none absent⟩

section Answers

variable {D : Type} [Double64 D] (order : VisitOrder) (opts : Options) (copts : CrawlerOptions)

theorem Readings.searchJson_eq {now : Readings D} {ix : InvertedIndex}
    (still : ∀ q, now.search q = Engine.search D order ix q 20) (query : Bytes) :
    now.searchJson opts query = JsonGateway.searchJson D order opts ix query := by
  rw [searchJson, still, JsonGateway.searchJson]

theorem isAnswer_searchJson (now : Readings D) (q : Bytes) :
    Response.IsAnswer { status := 200, body := now.searchJson opts q } :=
  isAnswer_dump (response_eq _ _) (response_isFinite (now.search_le _)) (by simp [ascii])

theorem isAnswer_statusJson (now : Readings D) :
    Response.IsAnswer { status := 200, body := statusJson now } :=
  isAnswer_dump (statusValue_eq now) (statusValue_isFinite now) (by simp [ascii])

theorem isAnswer_crawlValue (url : Bytes) (enqueued : Bool) :
    Response.IsAnswer { status := 200, body := (crawlValue url enqueued).dump false } :=
  ⟨rfl, _, isText_crawlValue url enqueued, rfl⟩

/-- The methods that the library looks up in a table of handlers. -/
def routedMethods : List Bytes :=
  [ascii "GET", ascii "HEAD", ascii "POST", ascii "PUT", ascii "DELETE", ascii "OPTIONS",
    ascii "PATCH"]

/-- The outcomes of a request: a response, and the crawler after it. -/
inductive Handled (now : Readings D) (s : Crawler) (req : Request) : Response × Crawler → Prop where
  | search (q : Bytes) :
    Handled now s req ({ status := 200, body := now.searchJson opts q }, s)
  | status : Handled now s req ({ status := 200, body := statusJson now }, s)
  | noUrl : Handled now s req (jsonError (ascii "a valid url is required") 400, s)
  | crawl {url : Bytes} (rawUrl : Bytes) (normal : url = normalizeUrl rawUrl) (named : url ≠ []) :
    Handled now s req
      ({ status := 200
         body := (crawlValue url (s.crawl.frontier.enqueue copts url 0 (-1)).1).dump false },
        { s with crawl := s.crawl.enqueue copts url 0 (-1) })
  | invalidBody {msg : Bytes} (key : Bytes) (posted : req.method = ascii "POST")
    (refused : postedString req.body key = .error msg) : Handled now s req (jsonError msg 400, s)
  | tooLarge (long : payloadMaxLength req < req.body.length) :
    Handled now s req ({ status := 413, body := [] }, s)
  | notFound : Handled now s req ({ status := 404, body := [] }, s)
  | noRoutes (method : req.method ∉ routedMethods) :
    Handled now s req ({ status := 400, body := [] }, s)
  | unread {status : Nat} (refused : req.refusal = some status) :
    Handled now s req ({ status, body := [] }, s)

theorem handled_handleCrawl (now : Readings D) (s : Crawler) (req : Request) (rawUrl : Bytes) :
    Handled opts copts now s req (handleCrawl copts s rawUrl) := by
  by_cases blank : normalizeUrl rawUrl = []
  · simpa [handleCrawl, blank] using Handled.noUrl
  · simpa [handleCrawl, blank, Engine.crawl] using Handled.crawl rawUrl rfl blank

theorem handled (now : Readings D) (s : Crawler) (req : Request) :
    Handled opts copts now s req (handle opts copts now s req) := by
  -- A handler that is reached, behind the limit of its body.
  have dispatched {done : Response × Crawler} (reached : Handled opts copts now s req done) :
      Handled opts copts now s req (if payloadMaxLength req < req.body.length then
        ({ status := 413, body := [] }, s) else done) := by
    split
    · exact .tooLarge ‹_›
    · exact reached
  unfold handle
  dsimp only
  split
  · exact .unread ‹_›
  split
  · split
    · exact dispatched (.search _)
    split
    · exact dispatched (handled_handleCrawl opts copts now s req _)
    split
    · exact dispatched .status
    · exact .notFound
  rename_i noGet
  split
  · rename_i posted
    split
    · refine dispatched ?_
      split
      · exact .invalidBody _ posted ‹_›
      · exact .search _
    split
    · refine dispatched ?_
      split
      · exact .invalidBody _ posted ‹_›
      · exact handled_handleCrawl opts copts now s req _
    · exact .notFound
  rename_i noPost
  split
  · exact .notFound
  · rename_i other
    refine .noRoutes fun routed => ?_
    simp only [routedMethods, List.mem_cons, List.not_mem_nil, or_false] at routed
    tauto

theorem postedString_error {body key msg : Bytes} (refused : postedString body key = .error msg) :
    ∃ err, msg = ascii "invalid JSON body: " ++ err := by
  unfold postedString at refused
  split at refused
  · exact ⟨_, (Except.error.inj refused).symm⟩
  · cases refused
  · exact ⟨[], by simpa using (Except.error.inj refused).symm⟩

/-- The error handler fills in what was not found and nothing else. -/
theorem written_eq {req : Request} (shown : req.method ≠ ascii "HEAD") {status : Nat}
    (found : status ≠ 404) (body : Bytes) :
    written req { status, body } = { status, body } := by
  simp [written, errorHandler, shown, found]

theorem written_jsonError {req : Request} (shown : req.method ≠ ascii "HEAD") (msg : Bytes) :
    written req (jsonError msg 400) = jsonError msg 400 :=
  written_eq shown (by decide) _

theorem written_notFound {req : Request} (shown : req.method ≠ ascii "HEAD") :
    written req { status := 404, body := [] } = jsonError (ascii "not found") 404 := by
  unfold written
  rw [if_neg shown]
  rfl

/-- Only the method tells a `HEAD` from a `GET`, and the handlers treat them alike. -/
theorem respond_head (now : Readings D) (s : Crawler) (req : Request) :
    respond opts copts now s { req with method := ascii "HEAD" } =
      ({ (respond opts copts now s { req with method := ascii "GET" }).1 with body := [] },
        (respond opts copts now s { req with method := ascii "GET" }).2) := by
  have alike : handle opts copts now s { req with method := ascii "HEAD" } =
      handle opts copts now s { req with method := ascii "GET" } := by
    simp [handle, payloadMaxLength, Request.param]
  have get : ascii "GET" ≠ ascii "HEAD" := by decide
  simp [respond, alike, written, get]

/-- The string that an object has under a key. -/
def memberString (members : List (Bytes × Value)) (key : Bytes) : Bytes :=
  (((Value.object members).find key).map (·.asString [])).getD []

theorem postedString_of_isText {body : Bytes} {members : List (Bytes × Value)}
    (text : IsText accepted body (.object members)) (key : Bytes) :
    postedString body key = .ok (memberString members key) := by
  rw [postedString, parse_of_isText text]
  rfl

theorem postedString_of_not_isText {body : Bytes}
    (other : ∀ members, ¬ IsText accepted body (.object members)) (key : Bytes) :
    ∃ err, postedString body key = .error (ascii "invalid JSON body: " ++ err) := by
  unfold postedString
  split
  · exact ⟨_, rfl⟩
  · rename_i members parsed
    exact absurd (isText_of_parse parsed) (other members)
  · exact ⟨[], by simp⟩

/-- The two paths that can be posted to, with the member of the body and the parameter of the
query that each reads. -/
def postedKeys : List (Bytes × Bytes) :=
  [(ascii "/search", ascii "q"), (ascii "/crawl", ascii "url")]

end Answers

/-- What is read before anything was crawled. -/
noncomputable def Readings.idle : Readings ℝ :=
  { documentCount := 0, termCount := 0, averageDocLength := 0, crawledPages := 0
    pendingCrawls := 0, running := false, fetcher := ascii "stub", lastTor := .down
    search := fun q => Engine.search ℝ .stored .empty q 20
    search_le := fun q => Engine.length_search_le ℝ .stored .empty q 20 }

/-- A posted URL, with a member that is not read. -/
def postedCrawl : List (Bytes × Value) :=
  [(ascii "url", .string (ascii "a.b")), (ascii "depth", .null)]

/-- It comes as a form. -/
def crawlRequest : Request where
  method := ascii "POST"
  path := ascii "/crawl"
  body := (Value.object postedCrawl).dump true
  form := true

end JsonGateway

end ShadowSe

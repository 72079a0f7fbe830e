import ShadowSe.Gateway.Handlers

/-! The gateway at work: requests and the crawler's own steps in any order, and what the
answers that clients read say of the crawl. -/

namespace ShadowSe

open Support Json

namespace CrawlState

variable {opts : CrawlerOptions} {s next : CrawlState}

/-- What `enqueue` returns tells whether the URL was accepted, and otherwise there is a reason. -/
theorem enqueue_answer (opts : CrawlerOptions) (s : CrawlState) (url : Bytes) (depth : UInt32)
    (priority : Int) :
    ((s.frontier.enqueue opts url depth priority).1 = true ∧
      (s.enqueue opts url depth priority).accepted = s.accepted ++ [url]) ∨
    ((s.frontier.enqueue opts url depth priority).1 = false ∧
      s.enqueue opts url depth priority = s ∧
      (s.frontier.stop_ = true ∨ s.frontier.capReached opts = true ∨
        url ∈ s.frontier.seenUrls_)) := by
  by_cases refused : s.frontier.stop_ = true ∨ s.frontier.capReached opts = true ∨
      url ∈ s.frontier.seenUrls_
  · exact .inr ⟨by simp [Frontier.enqueue_eq, refused], by simp [enqueue, Frontier.enqueue_eq,
      refused], refused⟩
  · exact .inl ⟨by simp [Frontier.enqueue_eq, refused], by simp [enqueue, Frontier.enqueue_eq,
      refused]⟩

theorem step_grows (action : CrawlStep) (taken : step opts s action = some next) :
    s.accepted <+: next.accepted ∧
      (s.frontier.stop_ = true → next.frontier.stop_ = true) := by
  refine ⟨?_, fun stopped => (stopped_step stopped action taken).1⟩
  cases action with
  | enqueue url depth priority =>
    cases Option.some.inj taken
    rcases enqueue_answer opts s url depth priority with ⟨_, grown⟩ | ⟨_, same, _⟩
    · rw [grown]
      exact List.prefix_append _ _
    · rw [same]
  | stop => cases Option.some.inj taken; exact List.prefix_refl _
  | pop worker =>
    obtain ⟨_, _, _, _, rfl⟩ := step_pop taken
    exact List.prefix_refl _
  | leave worker =>
    obtain ⟨_, _, _, rfl⟩ := step_leave taken
    exact List.prefix_refl _
  | complete worker =>
    obtain ⟨_, _, rfl⟩ := step_complete taken
    exact List.prefix_refl _
  | join =>
    obtain ⟨_, _, rfl⟩ := step_join taken
    exact List.prefix_refl _

/-- Why a URL that is offered now would be refused. -/
def Refuses (opts : CrawlerOptions) (s : CrawlState) (url : Bytes) : Prop :=
  url ∈ s.accepted ∨ opts.maxPages ≤ s.accepted.length ∨ s.frontier.stop_ = true

theorem Refuses.step {url : Bytes} (refuses : s.Refuses opts url) (action : CrawlStep)
    (taken : step opts s action = some next) : next.Refuses opts url := by
  obtain ⟨grown, still⟩ := step_grows action taken
  rcases refuses with known | full | stopped
  · exact .inl (grown.subset known)
  · exact .inr (.inl (full.trans grown.length_le))
  · exact .inr (.inr (still stopped))

theorem Accounted.refuses (books : s.Accounted opts) {url : Bytes}
    (reason : s.frontier.stop_ = true ∨ s.frontier.capReached opts = true ∨
      url ∈ s.frontier.seenUrls_) : s.Refuses opts url := by
  rcases reason with stopped | full | seen
  · exact .inr (.inr stopped)
  · rw [Frontier.capReached, decide_eq_true_iff, books.total] at full
    exact .inr (.inl full)
  · rw [books.seen, List.mem_toFinset] at seen
    exact .inl seen

end CrawlState

namespace JsonGateway

/-- What a client reads in a response: the URL of a crawl request, and whether it was queued. -/
def Response.crawlAnswer (res : Response) : Option (Bytes × Bool) :=
  match parse res.body with
  | .ok v =>
    match v.find (ascii "url"), v.find (ascii "enqueued") with
    | some (.string url), some (.bool enqueued) => some (url, enqueued)
    | _, _ => none
  | .error _ => none

/-- The crawler, the responses that are still to be written, and those that clients have read. -/
structure GatewayState where
  crawler : Crawler
  inFlight : List Response := []
  responses : List Response := []

inductive GatewayStep (D : Type) where
  /-- A thread of the library handles a request of a new connection. -/
  | request (req : Request) (now : Readings D)
  /-- The response at a place in the list is written and read. -/
  | answer (place : Nat)
  /-- The connection breaks before its response is read. -/
  | lose (place : Nat)
  /-- A step of the crawler, a worker's or another user's. -/
  | crawler (action : CrawlerStep)

/-- What responses say of URLs. -/
def answersOf (responses : List Response) : List (Bytes × Bool) :=
  responses.filterMap Response.crawlAnswer

/-- The URLs that are answered as queued. -/
def queuedOf (responses : List Response) : List Bytes :=
  ((answersOf responses).filter (·.2)).map (·.1)

namespace GatewayState

/-- The URLs that clients were told about, and whether they were queued. -/
def answers (s : GatewayState) : List (Bytes × Bool) :=
  answersOf s.responses

/-- The URLs that were answered as queued. -/
def queued (s : GatewayState) : List Bytes :=
  queuedOf s.responses

section Machine

variable {D : Type} [Double64 D] (opts : Options) (copts : CrawlerOptions) (layout : Layout)

def step (s : GatewayState) : GatewayStep D → Option GatewayState
  | .request req now =>
    let (res, crawler) := respond opts copts now s.crawler req
    some { s with crawler, inFlight := s.inFlight ++ [res] }
  | .answer place =>
    s.inFlight[place]?.map fun res =>
      { s with inFlight := s.inFlight.eraseIdx place, responses := s.responses ++ [res] }
  | .lose place =>
    s.inFlight[place]?.map fun _ => { s with inFlight := s.inFlight.eraseIdx place }
  | .crawler action =>
    (s.crawler.step copts layout action).map fun crawler => { s with crawler }

variable (D)

/-- Any number of clients, the threads that serve them, and the crawler's threads. -/
def machine : Machine GatewayState (GatewayStep D) :=
  ⟨step opts copts layout⟩

end Machine

/-- The fetcher serves a fixed site. -/
def FromSite {D : Type} (site : Bytes → FetchResult) (s : GatewayState) : GatewayStep D → Prop
  | .request .. | .answer _ | .lose _ => True
  | .crawler action => Crawler.FromSite site s.crawler action

instance {D : Type} (site : Bytes → FetchResult) (s : GatewayState) (action : GatewayStep D) :
    Decidable (FromSite site s action) :=
  match action with
  | .request .. | .answer _ | .lose _ => inferInstanceAs (Decidable True)
  | .crawler action => inferInstanceAs (Decidable (Crawler.FromSite site s.crawler action))

end GatewayState

theorem crawlAnswer_crawlValue (status : Nat) (url : Bytes) (enqueued : Bool) :
    Response.crawlAnswer { status, body := (crawlValue url enqueued).dump false } =
      some (url, enqueued) := by
  have parsed := parse_of_isText ((isText_crawlValue url enqueued).widen paired_within_accepted)
  rw [Response.crawlAnswer, parsed]
  simp [Value.find, ascii]

private theorem crawlAnswer_dump {v : Value} {members : List (Bytes × Value)} (status : Nat)
    (shape : v = .object members) (finite : ∀ n ∈ v.numbers, n.isFinite = true)
    (absent : ascii "enqueued" ∉ members.map (·.1)) :
    Response.crawlAnswer { status, body := v.dump false } = none := by
  have missing := find_reread_none absent
  have parsed := parse_dump false finite
  subst shape
  rw [Value.reread] at parsed
  simp only [Response.crawlAnswer, parsed, missing]
  split
  · rename_i impossible
    cases impossible
  · rfl

private theorem crawlAnswer_jsonError (msg : Bytes) (code : Nat) :
    (jsonError msg code).crawlAnswer = none := by
  have shape : errorValue msg = .object [(ascii "error", .string msg)] := rfl
  exact crawlAnswer_dump code shape (by simp [shape, Value.numbers, numbersOfMembers])
    (by simp [ascii])

section Handled

variable {D : Type} [Double64 D] (opts : Options) (copts : CrawlerOptions)

private theorem handle_answer (now : Readings D) (s : Crawler) (req : Request) :
    ((handle opts copts now s req).2 = s ∧
      (written req (handle opts copts now s req).1).crawlAnswer = none) ∨
    ∃ url, HttpUrl url ∧ (handle opts copts now s req).1 =
        { status := 200
          body := (crawlValue url (s.crawl.frontier.enqueue copts url 0 (-1)).1).dump false } ∧
      (handle opts copts now s req).2 = { s with crawl := s.crawl.enqueue copts url 0 (-1) } := by
  have hidden (res : Response) (silent : res.crawlAnswer = none) :
      (written req res).crawlAnswer = none := by
    have shown : (if 400 ≤ res.status then errorHandler res else res).crawlAnswer = none := by
      unfold errorHandler
      split
      · split
        · exact crawlAnswer_jsonError _ res.status
        · exact silent
      · exact silent
    unfold written
    dsimp only
    split
    · rfl
    · exact shown
  have outcome := handled opts copts now s req
  generalize handle opts copts now s req = done at outcome ⊢
  cases outcome with
  | search q =>
    exact .inl ⟨rfl, hidden _ (crawlAnswer_dump 200 (response_eq _ _)
      (response_isFinite (now.search_le _)) (by simp [ascii]))⟩
  | status =>
    exact .inl ⟨rfl, hidden _ (crawlAnswer_dump 200 (statusValue_eq now)
      (statusValue_isFinite now) (by simp [ascii]))⟩
  | noUrl => exact .inl ⟨rfl, hidden _ (crawlAnswer_jsonError _ _)⟩
  | crawl rawUrl normal named =>
    refine .inr ⟨_, ?_, rfl, rfl⟩
    rw [normal] at named ⊢
    exact httpUrl_normalizeUrl named
  | invalidBody key posted refused => exact .inl ⟨rfl, hidden _ (crawlAnswer_jsonError _ _)⟩
  | tooLarge long => exact .inl ⟨rfl, hidden _ rfl⟩
  | notFound => exact .inl ⟨rfl, hidden _ rfl⟩
  | noRoutes method => exact .inl ⟨rfl, hidden _ rfl⟩
  | unread refused => exact .inl ⟨rfl, hidden _ rfl⟩

/-- A request leaves the crawler alone and is no answer about a URL, or it offers the URL that it
is answered with; a `HEAD` offers one without an answer. -/
theorem respond_answer (now : Readings D) (s : Crawler) (req : Request) :
    ((respond opts copts now s req).2 = s ∧
      (respond opts copts now s req).1.crawlAnswer = none) ∨
    ∃ url, HttpUrl url ∧ (respond opts copts now s req).1.crawlAnswer =
        (if req.method = ascii "HEAD" then none
          else some (url, (s.crawl.frontier.enqueue copts url 0 (-1)).1)) ∧
      (respond opts copts now s req).2 =
        { s with crawl := s.crawl.enqueue copts url 0 (-1) } := by
  rcases handle_answer opts copts now s req with silent | ⟨url, web, answer, called⟩
  · exact .inl silent
  refine .inr ⟨url, web, ?_, called⟩
  change (written req (handle opts copts now s req).1).crawlAnswer = _
  rw [answer]
  split
  · rename_i head
    simp only [written, head, ↓reduceIte]
    rfl
  · rename_i shown
    rw [written_eq shown (by decide : 200 ≠ 404)]
    exact crawlAnswer_crawlValue 200 _ _

end Handled

namespace GatewayState

variable {D : Type} [Double64 D] {opts : Options} {copts : CrawlerOptions}
  {layout : Layout} {site : Bytes → FetchResult} {s next : GatewayState}

/-- All responses made, read by now or not. -/
def made (s : GatewayState) : List Response :=
  s.responses ++ s.inFlight

/-- The answers are true of the crawl. -/
structure Answered (copts : CrawlerOptions) (s : GatewayState) : Prop where
  queued : (queuedOf s.made).Subperm s.crawler.crawl.accepted
  http : ∀ answer ∈ answersOf s.made, HttpUrl answer.1
  refused : ∀ url, (url, false) ∈ answersOf s.made → s.crawler.crawl.Refuses copts url

theorem answersOf_subperm {fewer more : List Response} (less : fewer.Subperm more) :
    (answersOf fewer).Subperm (answersOf more) := by
  obtain ⟨middle, same, kept⟩ := less
  exact ⟨_, same.filterMap _, kept.filterMap _⟩

theorem queuedOf_subperm {fewer more : List Response} (less : fewer.Subperm more) :
    (queuedOf fewer).Subperm (queuedOf more) := by
  obtain ⟨middle, same, kept⟩ := answersOf_subperm less
  exact ⟨_, (same.filter _).map _, (kept.filter _).map _⟩

theorem answersOf_concat (responses : List Response) (res : Response) :
    answersOf (responses ++ [res]) = answersOf responses ++ res.crawlAnswer.toList := by
  rw [answersOf, answersOf, List.filterMap_append]
  cases told : res.crawlAnswer <;> simp [told]

/-- A run of the gateway is a run of its crawler, in which each request for a URL is a call of
`enqueue`. -/
theorem crawler_reaches {start : GatewayState}
    (reached : (machine D opts copts layout).Reaches (FromSite site) start s) :
    (Crawler.machine copts layout).Reaches (Crawler.FromSite site) start.crawler s.crawler := by
  refine reached.view (·.crawler) fun before action after served taken => ?_
  cases action with
  | request req now =>
    cases Option.some.inj taken
    rcases respond_answer opts copts now before.crawler req
      with ⟨same, _⟩ | ⟨url, _, _, called⟩
    · exact .inl same
    · exact .inr ⟨.enqueue url 0 (-1), trivial, congrArg some called.symm⟩
  | answer place =>
    obtain ⟨res, _, rfl⟩ := Option.map_eq_some_iff.mp taken
    exact .inl rfl
  | lose place =>
    obtain ⟨res, _, rfl⟩ := Option.map_eq_some_iff.mp taken
    exact .inl rfl
  | crawler action =>
    obtain ⟨crawler, done, rfl⟩ := Option.map_eq_some_iff.mp taken
    exact .inr ⟨action, served, done⟩

private theorem Answered.fewer (held : s.Answered copts) (crawler : next.crawler = s.crawler)
    (less : next.made.Subperm s.made) : next.Answered copts := by
  obtain ⟨queued, http, refused⟩ := held
  have answers := (answersOf_subperm less).subset
  rw [← crawler] at queued refused
  exact ⟨(queuedOf_subperm less).trans queued, fun answer member => http answer (answers member),
    fun url member => refused url (answers member)⟩

/-- What is true of the crawl stays true while it goes on. -/
private theorem Answered.moved (held : s.Answered copts)
    (answers : answersOf next.made = answersOf s.made)
    (moved : next.crawler.crawl = s.crawler.crawl ∨
      ∃ action, CrawlState.step copts s.crawler.crawl action = some next.crawler.crawl) :
    next.Answered copts := by
  obtain ⟨queued, http, refused⟩ := held
  rw [queuedOf, ← answers] at queued
  rw [← answers] at http refused
  rcases moved with same | ⟨action, taken⟩
  · rw [← same] at queued refused
    exact ⟨queued, http, refused⟩
  · have grown := (CrawlState.step_grows action taken).1
    exact ⟨queued.trans grown.sublist.subperm, http,
      fun url member => (refused url member).step action taken⟩

/-- The answer to an offer is what `enqueue` has found. -/
private theorem Answered.offered (held : s.Answered copts) (books : s.crawler.crawl.Accounted copts)
    {url : Bytes} (web : HttpUrl url)
    (answers : answersOf next.made =
      answersOf s.made ++ [(url, (s.crawler.crawl.frontier.enqueue copts url 0 (-1)).1)])
    (accepted : next.crawler.crawl = s.crawler.crawl.enqueue copts url 0 (-1)) :
    next.Answered copts := by
  have taken : CrawlState.step copts s.crawler.crawl (.enqueue url 0 (-1)) =
      some next.crawler.crawl := by
    rw [accepted]
    rfl
  have outcome := CrawlState.enqueue_answer copts s.crawler.crawl url 0 (-1)
  constructor
  · rw [queuedOf, answers, List.filter_append, List.map_append, accepted]
    rcases outcome with ⟨told, grown⟩ | ⟨told, same, _⟩
    · rw [grown, told]
      exact held.queued.append (List.Subperm.refl _)
    · rw [same, told]
      simpa [queuedOf] using held.queued
  · rw [answers]
    intro entry member
    rcases List.mem_append.mp member with old | new
    · exact held.http entry old
    · exact List.mem_singleton.mp new ▸ web
  · rw [answers]
    intro other member
    rcases List.mem_append.mp member with old | new
    · exact (held.refused other old).step _ taken
    · obtain ⟨rfl, told⟩ := Prod.mk.inj (List.mem_singleton.mp new)
      rcases outcome with ⟨queued, _⟩ | ⟨_, same, reason⟩
      · rw [queued] at told
        cases told
      · rw [accepted, same]
        exact books.refuses reason

theorem step_request {now : Readings D} {req : Request}
    (taken : step opts copts layout s (.request req now) = some next) :
    next = { s with
      crawler := (respond opts copts now s.crawler req).2
      inFlight := s.inFlight ++ [(respond opts copts now s.crawler req).1] } :=
  (Option.some.inj taken).symm

private theorem Answered.request (held : s.Answered copts) (books : s.crawler.crawl.Accounted copts)
    (now : Readings D) (req : Request)
    (taken : step opts copts layout s (.request req now) = some next) :
    next.Answered copts := by
  have done := step_request taken
  have crawler : next.crawler = (respond opts copts now s.crawler req).2 := by rw [done]
  have made : next.made = s.made ++ [(respond opts copts now s.crawler req).1] := by
    rw [done, GatewayState.made, GatewayState.made, List.append_assoc]
  have answers := answersOf_concat s.made (respond opts copts now s.crawler req).1
  rw [← made] at answers
  rcases respond_answer opts copts now s.crawler req
    with ⟨same, silent⟩ | ⟨url, web, answer, called⟩
  · rw [silent, Option.toList_none, List.append_nil] at answers
    exact held.moved answers (.inl (by rw [crawler, same]))
  have accepted : next.crawler.crawl = s.crawler.crawl.enqueue copts url 0 (-1) := by
    rw [crawler, called]
  rw [answer] at answers
  split at answers
  · -- The URL was offered, and nobody is told.
    rw [Option.toList_none, List.append_nil] at answers
    exact held.moved answers (.inr ⟨.enqueue url 0 (-1), congrArg some accepted.symm⟩)
  · exact held.offered books web answers accepted

/-- The gateway over a new crawler. -/
def create (copts : CrawlerOptions) (bloom : BloomFilter) (clock : Int) : GatewayState :=
  { crawler := .create copts bloom clock }

theorem answered_of_reaches {bloom : BloomFilter} {clock : Int}
    (reached : (machine D opts copts layout).Reaches (FromSite site)
      (create copts bloom clock) s) : s.Answered copts := by
  induction reached with
  | refl =>
    refine ⟨List.nil_subperm, ?_, ?_⟩
    · simp [create, made, answersOf]
    · simp [create, made, answersOf]
  | @step before after action earlier _ taken held =>
    have books := Crawler.accounted (crawler_reaches earlier).reachable
    have taken : before.step opts copts layout action = some after := taken
    cases action with
    | request req now => exact held.request books now req taken
    | answer place =>
      obtain ⟨res, there, rfl⟩ := Option.map_eq_some_iff.mp taken
      obtain ⟨inside, rfl⟩ := List.getElem?_eq_some_iff.mp there
      refine held.fewer rfl (List.Perm.subperm ?_)
      simp only [made, List.append_assoc, List.singleton_append]
      exact (List.getElem_cons_eraseIdx_perm inside).append_left _
    | lose place =>
      obtain ⟨res, _, rfl⟩ := Option.map_eq_some_iff.mp taken
      refine held.fewer rfl (List.Sublist.subperm ?_)
      exact (List.eraseIdx_sublist _ _).append_left _
    | crawler action =>
      obtain ⟨crawler, done, rfl⟩ := Option.map_eq_some_iff.mp taken
      exact held.moved rfl (Crawler.step_matches action done).crawl

/-- What the gateway answers is what happens. In every order of requests, of the threads that
write the responses and of steps of the crawler, the URLs answered as queued are accepted URLs;
each was answered so once, they are HTTP URLs and no more than the page cap. A URL answered as
not queued is known already, or the crawl is full or stopped. When the workers have gone, each
queued URL has been reported once, as a document or as an error. -/
theorem crawl_answers (opts : Options) (copts : CrawlerOptions) (layout : Layout)
    (site : Bytes → FetchResult) (bloom : BloomFilter) (clock : Int)
    (reached : (machine D opts copts layout).Reaches (FromSite site)
      (create copts bloom clock) s) :
    (∀ url ∈ s.queued, url ∈ s.crawler.crawl.accepted) ∧ s.queued.Nodup ∧
    s.queued.length ≤ copts.maxPages ∧ (∀ url ∈ s.queued, HttpUrl url) ∧
    (∀ url, (url, false) ∈ s.answers → s.crawler.crawl.Refuses copts url) ∧
    ((∀ worker ∈ s.crawler.crawl.workers, worker = .returned) →
      ∀ url ∈ s.queued, s.crawler.reported.count url = 1) := by
  have crawled := crawler_reaches reached
  have books := Crawler.accounted crawled.reachable
  obtain ⟨queued, http, refused⟩ := answered_of_reaches reached
  have read : s.responses.Subperm s.made := (List.sublist_append_left _ _).subperm
  have accepted : s.queued.Subperm s.crawler.crawl.accepted := (queuedOf_subperm read).trans queued
  have told := (answersOf_subperm read).subset
  have once : s.queued.Nodup := by
    obtain ⟨_, same, kept⟩ := accepted
    exact same.nodup_iff.mp (kept.nodup books.distinct)
  refine ⟨accepted.subset, once,
    accepted.length_le.trans books.capped, fun url member => ?_,
    fun url member => refused url (told member), fun returned url member => ?_⟩
  · obtain ⟨answer, inside, rfl⟩ := List.mem_map.mp member
    exact http answer (told (List.mem_of_mem_filter inside))
  · have reporting := Crawler.reporting crawled
    have all := reporting.perm_accepted books
      (CrawlState.staffed_of_reachable (Crawler.crawl_reachable crawled.reachable)) returned
    exact List.count_eq_one_of_mem reporting.once (all.mem_iff.mpr (accepted.subset member))

/-- A page is asked for in two ways, and the second client is the first to be answered; it is
crawled, and after a stop its workers leave. -/
noncomputable def twiceSteps : List (GatewayStep ℝ) :=
  [.request { method := ascii "GET", path := ascii "/crawl"
              params := [(ascii "url", ascii " http://a")] } .idle,
    .request { method := ascii "POST", path := ascii "/crawl"
               body := (crawlValue (ascii "a") true).dump false } .idle,
    .answer 1, .crawler (.pop 0), .crawler (.start 0), .crawler (.readLast 0),
    .crawler (.checkWait 0), .crawler (.grant 0),
    .crawler (.fetch 0 (Crawler.halfSite (ascii "http://a"))), .answer 0, .crawler .stop,
    .crawler (.index 0), .crawler (.report 0), .crawler (.follow 0), .crawler (.finish 0),
    .crawler (.leave 0), .crawler (.leave 1)]

theorem crawl_answers_twice :
    ∃ s, (machine ℝ {} Crawler.openOptions fun _ => .stored).Reaches
        (FromSite Crawler.halfSite) (create Crawler.openOptions (.create (fun _ => 0) 64 1) 0) s ∧
      s.answers = [(ascii "http://a", false), (ascii "http://a", true)] ∧
      s.crawler.crawl.Refuses Crawler.openOptions (ascii "http://a") ∧
      s.crawler.reported.count (ascii "http://a") = 1 := by
  obtain ⟨s, reached, returned, told⟩ :
      ∃ s, (machine ℝ {} Crawler.openOptions fun _ => .stored).Reaches
        (FromSite Crawler.halfSite) (create Crawler.openOptions (.create (fun _ => 0) 64 1) 0) s ∧
      (∀ worker ∈ s.crawler.crawl.workers, worker = .returned) ∧
        s.answers = [(ascii "http://a", false), (ascii "http://a", true)] :=
    Machine.exists_reaches_of_run twiceSteps (by decide +kernel)
  have answered := crawl_answers {} Crawler.openOptions (fun _ => .stored)
    Crawler.halfSite (.create (fun _ => 0) 64 1) 0 reached
  have reads : s.queued = ((answersOf s.responses).filter (·.2)).map (·.1) := rfl
  change _ = ((s.answers).filter (·.2)).map (·.1) at reads
  exact ⟨s, reached, told, answered.2.2.2.2.1 _ (by simp [told]),
    answered.2.2.2.2.2 returned _ (by simp [reads, told])⟩

end GatewayState

end JsonGateway

end ShadowSe

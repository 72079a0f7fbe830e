import ShadowSe.Crawl.FrontierRun
import ShadowSe.Crawl.Html
import ShadowSe.Crawl.Politeness
import ShadowSe.Crawl.RobotsCache
import ShadowSe.Index.InvertedIndex

/-! The crawler: workers that take a page from the frontier, ask the robots policy, wait
their turn at the domain, fetch, index, report and follow links. Each step is one locked
section, one return of the fetcher, one call of a callback, or work on a worker's own data. -/

namespace ShadowSe

open Support

/-- `domainOf`. -/
def domainOf (url : Bytes) : Bytes :=
  match url.find (ascii "://") 0 with
  | none => url
  | some scheme =>
    let hostStart := scheme + 3
    url.substr hostStart ((url.findFirstOf (ascii "/?#") hostStart).map (· - hostStart))

/-- `isRobotsUrl`. -/
def isRobotsUrl (url : Bytes) : Bool :=
  url.contains (ascii "robots.txt")

/-- The document that `process` builds from a page. -/
def pageDocument (item : Item) (html : Bytes) : Document :=
  let title := htmlExtractTitle html
  let hostStart := ((item.url.find (ascii "://") 0).map (· + 3)).getD 0
  { url := item.url
    title := if title = [] then item.url else title
    snippet := htmlExtractDescription html
    content := htmlStripTags html
    depth := item.depth
    source := if (item.url.find (ascii ".onion") hostStart).isSome then .onion else .clearWeb }

/-- Where a worker stands in `process`. -/
inductive ProcessPhase where
  | started (item : Item)
  /-- In the wait before `loadDomain`. -/
  | waitingLoad (item : Item)
  | loadDomain (item : Item)
  /-- In `loadDomain`, past its check. -/
  | loading (item : Item)
  /-- About to ask `allowed`. -/
  | deciding (item : Item)
  /-- In the wait before the page is fetched. -/
  | waitingPage (item : Item)
  | fetching (item : Item)
  /-- About to call `onErr`. -/
  | rejecting (item : Item) (error : Bytes)
  | indexing (item : Item) (html : Bytes)
  /-- In the index under `id`, and about to call `onDoc`. -/
  | reporting (item : Item) (html : Bytes) (id : Nat)
  | following (item : Item) (links : List Bytes)
  | finished
  deriving DecidableEq

/-- A page handed to the fetcher, and the policies cached at that moment. -/
structure PageFetch where
  url : Bytes
  robots : RobotsTxt

structure Crawler where
  crawl : CrawlState
  politeness : Politeness
  robots : RobotsCache
  index : InvertedIndex := .empty
  /-- The documents passed to `addDocument`, each with the id it was given. -/
  filed : List Document := []
  phases : Table Nat ProcessPhase := ∅
  /-- The documents passed to `onDoc`, and the URLs and errors passed to `onErr`. -/
  onDoc : List Document := []
  onErr : List (Bytes × Bytes) := []
  fetches : List PageFetch := []

inductive CrawlerStep where
  | enqueue (url : Bytes) (depth : UInt32) (priority : Int)
  | stop
  | join
  | tick (elapsed : Nat)
  | pop (worker : Nat)
  | leave (worker : Nat)
  /-- `hasRules`, when robots.txt applies. -/
  | start (worker : Nat)
  | readLast (worker : Nat)
  | checkWait (worker : Nat)
  | grant (worker : Nat)
  | load (worker : Nat)
  | fetchRobots (worker : Nat) (res : FetchResult)
  | storeRobots (worker : Nat)
  | decide (worker : Nat)
  | fetch (worker : Nat) (res : FetchResult)
  | index (worker : Nat)
  | report (worker : Nat)
  | follow (worker : Nat)
  | finish (worker : Nat)

namespace Crawler

def create (opts : CrawlerOptions) (bloom : BloomFilter) (clock : Int) : Crawler where
  crawl := .create bloom
  politeness := { clock }
  robots := { robots := { ua_ := opts.userAgent } }

def setPhase (s : Crawler) (worker : Nat) (phase : ProcessPhase) : Crawler :=
  { s with phases := s.phases.insert worker phase }

/-- Enter `politenessWait` for the domain of a page. -/
def beginWait (opts : CrawlerOptions) (s : Crawler) (worker : Nat) (item : Item)
    (phase : ProcessPhase) : Option Crawler :=
  (s.politeness.step opts (.call worker (domainOf item.url))).map fun politeness =>
    { s.setPhase worker phase with politeness }

/-- The links that `process` goes on to follow. -/
def linksToFollow (opts : CrawlerOptions) (item : Item) (html : Bytes) : List Bytes :=
  if item.depth + 1 ≤ opts.maxDepth then htmlExtractLinks html item.url else []

def step (opts : CrawlerOptions) (layout : Layout) (s : Crawler) : CrawlerStep → Option Crawler
  | .enqueue url depth priority =>
    (s.crawl.step opts (.enqueue url depth priority)).map fun crawl => { s with crawl }
  | .stop => (s.crawl.step opts .stop).map fun crawl => { s with crawl }
  | .join => (s.crawl.step opts .join).map fun crawl => { s with crawl }
  | .tick elapsed =>
    (s.politeness.step opts (.tick elapsed)).map fun politeness => { s with politeness }
  | .pop worker =>
    -- Only a worker outside `process` takes an item.
    match s.phases.lookup worker with
    | none =>
      (s.crawl.step opts (.pop worker)).bind fun crawl =>
        match crawl.workers[worker]? with
        | some (.processing item) => some { s.setPhase worker (.started item) with crawl }
        | _ => none
    | some _ => none
  | .leave worker => (s.crawl.step opts (.leave worker)).map fun crawl => { s with crawl }
  | .start worker =>
    match s.phases.lookup worker with
    | some (.started item) =>
      if opts.obeyRobots && !isRobotsUrl item.url then
        if !s.robots.robots.hasRules item.url then s.beginWait opts worker item (.waitingLoad item)
        else some (s.setPhase worker (.deciding item))
      else s.beginWait opts worker item (.waitingPage item)
    | _ => none
  | .readLast worker =>
    (s.politeness.step opts (.read worker)).map fun politeness => { s with politeness }
  | .checkWait worker =>
    (s.politeness.step opts (.check worker)).map fun politeness => { s with politeness }
  | .grant worker =>
    (s.politeness.step opts (.grant worker)).bind fun politeness =>
      match s.phases.lookup worker with
      | some (.waitingLoad item) =>
        some { s.setPhase worker (.loadDomain item) with politeness }
      | some (.waitingPage item) => some { s.setPhase worker (.fetching item) with politeness }
      | _ => none
  | .load worker =>
    match s.phases.lookup worker with
    | some (.loadDomain item) =>
      (s.robots.step (.call worker item.url)).map fun robots =>
        -- Without a call in progress `loadDomain` has returned.
        let phase := if (robots.calls.lookup worker).isSome then .loading item else .deciding item
        { s.setPhase worker phase with robots }
    | _ => none
  | .fetchRobots worker res =>
    (s.robots.step (.fetch worker res)).map fun robots => { s with robots }
  | .storeRobots worker =>
    match s.phases.lookup worker with
    | some (.loading item) =>
      (s.robots.step (.store worker)).map fun robots =>
        { s.setPhase worker (.deciding item) with robots }
    | _ => none
  | .decide worker =>
    match s.phases.lookup worker with
    | some (.deciding item) =>
      if !s.robots.robots.allowed item.url then
        some (s.setPhase worker (.rejecting item (ascii "blocked by robots.txt")))
      else s.beginWait opts worker item (.waitingPage item)
    | _ => none
  | .fetch worker res =>
    match s.phases.lookup worker with
    | some (.fetching item) =>
      let sent : Crawler := { s with fetches := s.fetches ++ [⟨item.url, s.robots.robots⟩] }
      if !res.ok then some (sent.setPhase worker (.rejecting item res.error))
      else some (sent.setPhase worker (.indexing item res.html))
    | _ => none
  | .index worker =>
    match s.phases.lookup worker with
    | some (.indexing item html) =>
      let doc := pageDocument item html
      let (index, id) := s.index.addDocumentLocked layout doc
      some { s.setPhase worker (.reporting item html id) with
        index
        filed := s.filed ++ [{ doc with id }] }
    | _ => none
  | .report worker =>
    match s.phases.lookup worker with
    | some (.rejecting item error) =>
      some { s.setPhase worker .finished with onErr := s.onErr ++ [(item.url, error)] }
    | some (.reporting item html id) =>
      some { s.setPhase worker (.following item (linksToFollow opts item html)) with
        onDoc := s.onDoc ++ [{ pageDocument item html with id }] }
    | _ => none
  | .follow worker =>
    match s.phases.lookup worker with
    | some (.following _ []) => some (s.setPhase worker .finished)
    | some (.following item (link :: links)) =>
      let depth := item.depth + 1
      let accepted := (s.crawl.frontier.enqueue opts link depth (castInt depth)).1
      (s.crawl.step opts (.enqueue link depth (castInt depth))).map fun crawl =>
        { s.setPhase worker (if !accepted then .finished else .following item links) with crawl }
    | _ => none
  | .finish worker =>
    match s.phases.lookup worker with
    | some .finished =>
      (s.crawl.step opts (.complete worker)).map fun crawl =>
        { s with crawl, phases := s.phases.erase worker }
    | _ => none

/-- The crawler with any number of workers, users and any behaviour of the network. -/
def machine (opts : CrawlerOptions) (layout : Layout) : Machine Crawler CrawlerStep :=
  ⟨step opts layout⟩

end Crawler

end ShadowSe

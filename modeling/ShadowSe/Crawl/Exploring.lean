import ShadowSe.Crawl.Confinement
import ShadowSe.Crawl.LinkLoop
import ShadowSe.Support.Exploration

namespace ShadowSe

open Support

/-- The page of an item at its depth. -/
def Item.place (item : Item) : Bytes × Nat :=
  (item.url, item.depth.toNat)

/-- The page has a place that a worker still has to open. -/
def ProcessPhase.Holds : ProcessPhase → Bytes × Nat → Prop
  | .started item, place | .waitingLoad item, place | .loadDomain item, place
  | .loading item, place | .deciding item, place | .waitingPage item, place
  | .fetching item, place | .indexing item _, place | .reporting item _ _, place =>
    item.place = place
  | .rejecting .., _ | .following .., _ | .finished, _ => False

/-- The link has still to be offered by a worker. -/
def ProcessPhase.Owes : ProcessPhase → (Bytes × Nat) × Bytes → Prop
  | .following item links, link => item.place = link.1 ∧ link.2 ∈ links
  | _, _ => False

/-- What a worker's phase says of the item it holds, when robots.txt is not obeyed and every
URL has one page. -/
def ProcessPhase.Tracks (opts : CrawlerOptions) (site : Bytes → FetchResult)
    (fetched : List Bytes) (item : Item) : ProcessPhase → Prop
  | .started page | .waitingPage page | .fetching page => page = item
  | .indexing page html | .reporting page html _ =>
    page = item ∧ item.url ∈ fetched ∧ (site item.url).ok = true ∧ html = (site item.url).html
  | .following page links => page = item ∧ item.url ∈ fetched ∧
    ∀ link ∈ links, link ∈ Crawler.linksToFollow opts item (site item.url).html
  | .rejecting .. | .finished => item.url ∈ fetched
  | .waitingLoad _ | .loadDomain _ | .loading _ | .deciding _ => False

/-- The URL is a link of the page within the depth budget. -/
def Leads (maxDepth : UInt32) (site : Bytes → FetchResult) (place : Bytes × Nat) (url : Bytes) :
    Prop :=
  place.2 + 1 ≤ maxDepth.toNat ∧ url ∈ htmlExtractLinks (site place.1).html place.1

namespace CrawlState

variable {opts : CrawlerOptions} {s next : CrawlState}

/-- A worker keeps its item until it reports it complete. -/
theorem processing_kept {worker : Nat} {item : Item}
    (busy : s.workers[worker]? = some (.processing item)) (action : CrawlStep)
    (away : action ≠ .complete worker) (taken : step opts s action = some next) :
    next.workers[worker]? = some (.processing item) := by
  -- Another worker's state changes.
  have other {mover : Nat} {state : WorkerState} (found : s.workers[mover]? = some state)
      (differs : state ≠ .processing item) (after : WorkerState) :
      (s.workers.set mover after)[worker]? = some (.processing item) := by
    have distinct : mover ≠ worker := by
      rintro rfl
      exact differs (Option.some.inj (found.symm.trans busy))
    rw [List.getElem?_set_ne distinct, busy]
  cases action with
  | enqueue url depth priority =>
    cases Option.some.inj taken
    rcases enqueue_cases opts s url depth priority with same | ⟨_, _, _, called⟩
    · rwa [same]
    · rw [called]
      simp only
      split
      · exact busy
      · exact (List.getElem?_append_left (List.getElem?_eq_some_iff.mp busy).1).trans busy
  | stop => cases Option.some.inj taken; exact busy
  | pop mover =>
    obtain ⟨_, _, idle, _, rfl⟩ := step_pop taken
    exact other idle nofun _
  | leave mover =>
    obtain ⟨idle, _, _, rfl⟩ := step_leave taken
    exact other idle nofun _
  | complete mover =>
    obtain ⟨_, _, rfl⟩ := step_complete taken
    have distinct : mover ≠ worker := by
      rintro rfl
      exact away rfl
    rw [List.getElem?_set_ne distinct, busy]
  | join =>
    obtain ⟨_, returned, _⟩ := step_join taken
    exact absurd (returned _ (List.mem_of_getElem? busy)) nofun

theorem history_kept (action : CrawlStep) (away : ∀ worker, action ≠ .complete worker)
    (taken : step opts s action = some next) :
    next.completed = s.completed ∧ s.handed ⊆ next.handed := by
  cases action with
  | enqueue url depth priority =>
    cases Option.some.inj taken
    rcases enqueue_cases opts s url depth priority with same | ⟨_, _, _, called⟩
    · rw [same]
      exact ⟨rfl, List.Subset.refl _⟩
    · rw [called]
      exact ⟨rfl, List.Subset.refl _⟩
  | stop => cases Option.some.inj taken; exact ⟨rfl, List.Subset.refl _⟩
  | pop worker =>
    obtain ⟨_, _, _, _, rfl⟩ := step_pop taken
    exact ⟨rfl, List.subset_append_left _ _⟩
  | leave worker =>
    obtain ⟨_, _, _, rfl⟩ := step_leave taken
    exact ⟨rfl, List.Subset.refl _⟩
  | complete worker => exact absurd rfl (away worker)
  | join =>
    obtain ⟨_, _, rfl⟩ := step_join taken
    exact ⟨rfl, List.Subset.refl _⟩

theorem mem_inFlight {worker : Nat} {item : Item}
    (busy : s.workers[worker]? = some (.processing item)) : item ∈ s.inFlight :=
  List.mem_filterMap.mpr ⟨_, List.mem_of_getElem? busy, rfl⟩

end CrawlState

namespace Crawler

variable {opts : CrawlerOptions} {layout : Layout} {site : Bytes → FetchResult}
  {s next : Crawler} {worker : Nat}

/-- The URLs passed to the fetcher so far. -/
def fetchedUrls (s : Crawler) : List Bytes :=
  s.fetches.map (·.url)

/-- The pages reported so far with the depths recorded for them. -/
def recorded (s : Crawler) : List (Bytes × Nat) :=
  s.onDoc.map fun doc => (doc.url, doc.depth.toNat)

/-- The depths the crawler knows: of pages in the queue, with a worker or reported. -/
def known (s : Crawler) : List (Bytes × Nat) :=
  (s.crawl.frontier.queue_ ++ s.crawl.inFlight).map Item.place ++ s.recorded

/-- A link of a page whose turn has come, and the links behind it. -/
structure Offer where
  item : Item
  link : Bytes
  behind : List Bytes

/-- The link that a step offers to the frontier. -/
def offering (s : Crawler) : CrawlerStep → Option Offer
  | .follow worker =>
    match s.phases.lookup worker with
    | some (.following item (link :: behind)) => some ⟨item, link, behind⟩
    | _ => none
  | _ => none

/-- The fetcher is a fixed site, no user enqueues, and no link meets a closed frontier. -/
def Undisturbed (opts : CrawlerOptions) (site : Bytes → FetchResult) (s : Crawler) :
    CrawlerStep → Prop
  | .enqueue .. => False
  | .fetch worker res => ∀ url ∈ s.fetchedUrl (.fetch worker res), res = site url
  | .follow worker => ∀ _offer ∈ s.offering (.follow worker), ¬ s.crawl.Closed opts
  | _ => True

instance (s : Crawler) (action : CrawlerStep) : Decidable (Undisturbed opts site s action) :=
  match action with
  | .enqueue .. => inferInstanceAs (Decidable False)
  | .fetch worker res =>
    inferInstanceAs (Decidable (∀ url ∈ s.fetchedUrl (.fetch worker res), res = site url))
  | .follow worker =>
    inferInstanceAs (Decidable (∀ _offer ∈ s.offering (.follow worker), ¬ s.crawl.Closed opts))
  | .stop | .join | .tick _ | .pop _ | .leave _ | .start _ | .readLast _ | .checkWait _
  | .grant _ | .load _ | .fetchRobots .. | .storeRobots _ | .decide _ | .index _
  | .report _ | .finish _ => inferInstanceAs (Decidable True)

/-- No depth overflows, and when a link is refused as already seen, it and every link behind
it are known no deeper than this page would put them. -/
def Timely (s : Crawler) (action : CrawlerStep) : Prop :=
  ∀ offer ∈ s.offering action, offer.item.depth + 1 ≠ 0 ∧
    (offer.link ∈ s.crawl.frontier.seenUrls_ → ∀ link ∈ offer.link :: offer.behind,
      link ∈ s.crawl.frontier.seenUrls_ ∧
        ∀ place ∈ s.known, place.1 = link → place.2 ≤ offer.item.depth.toNat + 1)

instance (s : Crawler) (action : CrawlerStep) : Decidable (s.Timely action) :=
  inferInstanceAs (Decidable (∀ offer ∈ s.offering action, _ ∧ (_ → ∀ link ∈ _, _ ∧
    ∀ place ∈ s.known, _ → place.2 ≤ offer.item.depth.toNat + 1)))

/-- The crawl as an exploration. -/
def exploration (opts : CrawlerOptions) (site : Bytes → FetchResult) (s : Crawler) :
    Exploration Bytes where
  seen := {url | url ∈ s.crawl.frontier.seenUrls_}
  waiting := {place | (∃ item ∈ s.crawl.frontier.queue_, item.place = place) ∨
    ∃ worker phase, s.phases.lookup worker = some phase ∧ phase.Holds place}
  opened := {place | place ∈ s.recorded}
  owed := {link | Leads opts.maxDepth site link.1 link.2 ∧
    ∃ worker phase, s.phases.lookup worker = some phase ∧ phase.Owes link}

/-- Every worker in `process` holds the item it is there for, and what is complete was
fetched. -/
structure Tracked (opts : CrawlerOptions) (site : Bytes → FetchResult) (s : Crawler) : Prop where
  phases : ∀ worker phase, s.phases.lookup worker = some phase → ∃ item,
    s.crawl.workers[worker]? = some (.processing item) ∧
      phase.Tracks opts site s.fetchedUrls item
  completed : ∀ url ∈ s.crawl.completed, url ∈ s.fetchedUrls
  fetched : ∀ url ∈ s.fetchedUrls, url ∈ s.crawl.handed

private theorem tracks_mono {fetched more : List Bytes} (grown : fetched ⊆ more) {item : Item}
    {phase : ProcessPhase} (tracks : phase.Tracks opts site fetched item) :
    phase.Tracks opts site more item := by
  cases phase with
  | rejecting page error => exact grown tracks
  | indexing page html => exact ⟨tracks.1, grown tracks.2.1, tracks.2.2⟩
  | reporting page html id => exact ⟨tracks.1, grown tracks.2.1, tracks.2.2⟩
  | following page links => exact ⟨tracks.1, grown tracks.2.1, tracks.2.2⟩
  | finished => exact grown tracks
  | _ => exact tracks

private theorem Tracked.enter (held : s.Tracked opts site) (phase : ProcessPhase) {item : Item}
    (busy : s.crawl.workers[worker]? = some (.processing item))
    (tracks : phase.Tracks opts site next.fetchedUrls item)
    (entered : next.phases = s.phases.insert worker phase) (crawl : next.crawl = s.crawl)
    (grown : s.fetchedUrls ⊆ next.fetchedUrls)
    (fetched : ∀ url ∈ next.fetchedUrls, url ∈ s.crawl.handed) : next.Tracked opts site := by
  refine ⟨fun other current found => ?_, fun url done => ?_, crawl ▸ fetched⟩
  · rw [entered, Table.lookup_insert_ite] at found
    rw [crawl]
    split at found
    · rename_i same
      subst other
      exact ⟨item, busy, Option.some.inj found ▸ tracks⟩
    · obtain ⟨page, held, tracks⟩ := held.phases other current found
      exact ⟨page, held, tracks_mono grown tracks⟩
  · exact grown (held.completed url (crawl ▸ done))

private theorem Tracked.go (held : s.Tracked opts site) (phase : ProcessPhase) {item : Item}
    (busy : s.crawl.workers[worker]? = some (.processing item))
    (tracks : phase.Tracks opts site s.fetchedUrls item)
    (entered : next.phases = s.phases.insert worker phase) (crawl : next.crawl = s.crawl)
    (fetches : next.fetches = s.fetches) : next.Tracked opts site := by
  have same : next.fetchedUrls = s.fetchedUrls := congrArg (List.map PageFetch.url) fetches
  exact held.enter phase busy (same ▸ tracks) entered crawl (same ▸ List.Subset.refl _)
    (same ▸ held.fetched)

private theorem Tracked.crawl (held : s.Tracked opts site) {crawl : CrawlState}
    (action : CrawlStep) (away : ∀ worker, action ≠ .complete worker)
    (done : s.crawl.step opts action = some crawl) : { s with crawl }.Tracked opts site := by
  obtain ⟨completed, handed⟩ := CrawlState.history_kept action away done
  refine ⟨fun worker phase found => ?_, fun url finished => ?_, fun url member => ?_⟩
  · obtain ⟨item, busy, tracks⟩ := held.phases worker phase found
    exact ⟨item, CrawlState.processing_kept busy action (away worker) done, tracks⟩
  · exact held.completed url (completed ▸ finished)
  · exact handed (held.fetched url member)

private theorem Tracked.fetch (held : s.Tracked opts site) (books : s.crawl.Accounted opts)
    {res : FetchResult} (fair : Undisturbed opts site s (.fetch worker res))
    (taken : step opts layout s (.fetch worker res) = some next) : next.Tracked opts site := by
  obtain ⟨item, fetching, answered⟩ := step_fetch taken
  obtain ⟨page, busy, rfl⟩ := held.phases worker _ fetching
  have passed : item.url ∈ s.fetchedUrl (.fetch worker res) := by simp [fetchedUrl, fetching]
  cases (fair item.url passed : res = site item.url)
  have handed : ∀ url ∈ s.fetchedUrls ++ [item.url], url ∈ s.crawl.handed := by
    intro url member
    rcases List.mem_append.mp member with old | new
    · exact held.fetched url old
    · cases List.mem_singleton.mp new
      refine books.processed.mem_iff.mpr (List.mem_append_left _ ?_)
      exact List.mem_map_of_mem (CrawlState.mem_inFlight busy)
  have answered_by (phase : ProcessPhase)
      (tracks : phase.Tracks opts site (s.fetchedUrls ++ [item.url]) item)
      (entered : next.phases = s.phases.insert worker phase) (crawl : next.crawl = s.crawl)
      (fetches : next.fetches = s.fetches ++ [⟨item.url, s.robots.robots⟩]) :
      next.Tracked opts site := by
    have urls : next.fetchedUrls = s.fetchedUrls ++ [item.url] := by simp [fetchedUrls, fetches]
    refine held.enter phase busy (urls ▸ tracks) entered crawl ?_ (urls ▸ handed)
    exact urls ▸ List.subset_append_left _ _
  rcases answered with ⟨_, rfl⟩ | ⟨succeeded, rfl⟩
  · exact answered_by (.rejecting item _) (by simp [ProcessPhase.Tracks]) rfl rfl rfl
  · refine answered_by (.indexing item (site item.url).html) ⟨rfl, ?_, succeeded, rfl⟩ rfl rfl rfl
    exact List.mem_append_right _ (List.mem_singleton_self _)

private theorem Tracked.report (held : s.Tracked opts site)
    (taken : step opts layout s (.report worker) = some next) : next.Tracked opts site := by
  rcases step_report taken with ⟨item, ⟨error, rejecting, rfl⟩ | ⟨html, id, reporting, rfl⟩⟩
  · obtain ⟨page, busy, fetched⟩ := held.phases worker _ rejecting
    exact held.go .finished busy fetched rfl rfl rfl
  · obtain ⟨page, busy, rfl, fetched, _, rfl⟩ := held.phases worker _ reporting
    exact held.go (.following item (linksToFollow opts item (site item.url).html)) busy
      ⟨rfl, fetched, fun _ member => member⟩ rfl rfl rfl

private theorem Tracked.follow (held : s.Tracked opts site)
    (taken : step opts layout s (.follow worker) = some next) : next.Tracked opts site := by
  obtain ⟨item, entered⟩ := step_follow taken
  rcases entered with ⟨following, rfl⟩ | ⟨link, links, following, rfl⟩
  · obtain ⟨page, busy, tracks⟩ := held.phases worker _ following
    exact held.go .finished busy tracks.2.1 rfl rfl rfl
  · obtain ⟨page, busy, rfl, fetched, led⟩ := held.phases worker _ following
    have offered : s.crawl.step opts (.enqueue link (item.depth + 1) (castInt (item.depth + 1))) =
        some (s.crawl.enqueue opts link (item.depth + 1) (castInt (item.depth + 1))) := rfl
    have still := CrawlState.processing_kept busy
      (.enqueue link (item.depth + 1) (castInt (item.depth + 1))) nofun offered
    refine (held.crawl (.enqueue link (item.depth + 1) (castInt (item.depth + 1))) nofun
      offered).go _ still ?_ rfl rfl rfl
    split
    · exact fetched
    · exact ⟨rfl, fetched, fun other member => led other (List.mem_cons_of_mem _ member)⟩

private theorem Tracked.finish (held : s.Tracked opts site)
    (taken : step opts layout s (.finish worker) = some next) : next.Tracked opts site := by
  obtain ⟨crawl, finished, completed, rfl⟩ := step_finish taken
  obtain ⟨page, busy, fetched⟩ := held.phases worker _ finished
  refine ⟨fun other phase found => ?_, fun url done => ?_, fun url member => ?_⟩
  · rw [Table.lookup_erase_ite] at found
    split at found
    · cases found
    · rename_i differs
      obtain ⟨item, holding, tracks⟩ := held.phases other phase found
      refine ⟨item, CrawlState.processing_kept holding (.complete worker) ?_ completed, tracks⟩
      rintro same
      cases same
      exact differs rfl
  · obtain ⟨item, present, rfl⟩ := CrawlState.step_complete completed
    cases Option.some.inj (present.symm.trans busy)
    rcases List.mem_append.mp done with old | new
    · exact held.completed url old
    · cases List.mem_singleton.mp new
      exact fetched
  · obtain ⟨item, _, rfl⟩ := CrawlState.step_complete completed
    exact held.fetched url member

private theorem Tracked.asks_none (held : s.Tracked opts site) :
    step opts layout s (.load worker) ≠ some next ∧
      step opts layout s (.storeRobots worker) ≠ some next ∧
      step opts layout s (.decide worker) ≠ some next := by
  refine ⟨fun taken => ?_, fun taken => ?_, fun taken => ?_⟩
  · obtain ⟨_, _, entered, _⟩ := step_load taken
    obtain ⟨_, _, impossible⟩ := held.phases worker _ entered
    exact impossible
  · obtain ⟨_, _, entered, _⟩ := step_storeRobots taken
    obtain ⟨_, _, impossible⟩ := held.phases worker _ entered
    exact impossible
  · obtain ⟨_, entered, _⟩ := step_decide taken
    obtain ⟨_, _, impossible⟩ := held.phases worker _ entered
    exact impossible

/-- Without robots.txt the workers go straight from the queue to the fetcher, and what they
fetch is the site. -/
theorem Tracked.step (held : s.Tracked opts site) (books : s.crawl.Accounted opts)
    (unchecked : opts.obeyRobots = false) (action : CrawlerStep)
    (fair : Undisturbed opts site s action)
    (taken : Crawler.step opts layout s action = some next) : next.Tracked opts site := by
  have waited {mover : Nat} {item page : Item} {phase : ProcessPhase}
      (busy : s.crawl.workers[mover]? = some (.processing item))
      (begun : s.beginWait opts mover page phase = some next)
      (tracks : phase.Tracks opts site s.fetchedUrls item) : next.Tracked opts site := by
    obtain ⟨politeness, _, rfl⟩ := beginWait_some begun
    exact held.go phase busy tracks rfl rfl rfl
  cases action with
  | enqueue url depth priority => exact absurd fair id
  | stop => cases Option.some.inj taken; exact held.crawl .stop nofun rfl
  | join =>
    obtain ⟨crawl, done, rfl⟩ := Option.map_eq_some_iff.mp taken
    exact held.crawl .join nofun done
  | leave worker =>
    obtain ⟨crawl, done, rfl⟩ := Option.map_eq_some_iff.mp taken
    exact held.crawl (.leave worker) nofun done
  | tick elapsed => cases Option.some.inj taken; exact ⟨held.phases, held.completed, held.fetched⟩
  | readLast worker =>
    obtain ⟨politeness, _, rfl⟩ := Option.map_eq_some_iff.mp taken
    exact ⟨held.phases, held.completed, held.fetched⟩
  | checkWait worker =>
    obtain ⟨politeness, _, rfl⟩ := Option.map_eq_some_iff.mp taken
    exact ⟨held.phases, held.completed, held.fetched⟩
  | fetchRobots worker res =>
    obtain ⟨robots, _, rfl⟩ := step_fetchRobots taken
    exact ⟨held.phases, held.completed, held.fetched⟩
  | pop worker =>
    obtain ⟨crawl, item, _, popped, busy, rfl⟩ := step_pop taken
    exact (held.crawl (.pop worker) nofun popped).go (.started item) busy rfl rfl rfl rfl
  | start worker =>
    obtain ⟨item, started, entered⟩ := step_start taken
    obtain ⟨page, busy, rfl⟩ := held.phases worker _ started
    rcases entered with ⟨obeys, _⟩ | ⟨obeys, _⟩ | ⟨_, begun⟩
    · simp [unchecked] at obeys
    · simp [unchecked] at obeys
    · exact waited busy begun rfl
  | grant worker =>
    obtain ⟨politeness, item, _, entered⟩ := step_grant taken
    rcases entered with ⟨waiting, rfl⟩ | ⟨waiting, rfl⟩
    · obtain ⟨_, _, impossible⟩ := held.phases worker _ waiting
      exact impossible.elim
    · obtain ⟨page, busy, rfl⟩ := held.phases worker _ waiting
      exact held.go (.fetching item) busy rfl rfl rfl rfl
  | load worker => exact absurd taken held.asks_none.1
  | storeRobots worker => exact absurd taken held.asks_none.2.1
  | decide worker => exact absurd taken held.asks_none.2.2
  | fetch worker res => exact held.fetch books fair taken
  | index worker =>
    obtain ⟨item, html, indexing, rfl⟩ := step_index taken
    obtain ⟨page, busy, tracks⟩ := held.phases worker _ indexing
    exact held.go (.reporting item html _) busy tracks rfl rfl rfl
  | report worker => exact held.report taken
  | follow worker => exact held.follow taken
  | finish worker => exact held.finish taken

/-- The URL has a page. -/
def Works (site : Bytes → FetchResult) (url : Bytes) : Prop :=
  (site url).ok = true

theorem exists_phase_go {before : ProcessPhase} {p : ProcessPhase → Prop}
    (found : s.phases.lookup worker = some before) (after : ProcessPhase)
    (same : p after ↔ p before) :
    (∃ w phase, (s.phases.insert worker after).lookup w = some phase ∧ p phase) ↔
      ∃ w phase, s.phases.lookup w = some phase ∧ p phase := by
  rw [Table.exists_value_insert, Table.exists_value_iff s.phases worker, found, same]
  simp

/-- A worker that holds and owes what it did before leaves the exploration as it is. -/
private theorem exploration_go {before : ProcessPhase}
    (found : s.phases.lookup worker = some before) (after : ProcessPhase)
    (entered : next.phases = s.phases.insert worker after) (crawl : next.crawl = s.crawl)
    (onDoc : next.onDoc = s.onDoc) (holds : after.Holds = before.Holds)
    (owes : ∀ link, after.Owes link ↔ before.Owes link) :
    next.exploration opts site = s.exploration opts site := by
  ext place
  · simp only [exploration, crawl]
  · simp only [exploration, crawl, entered, Set.mem_ofPred_eq]
    rw [exists_phase_go found after (p := (·.Holds place)) (by rw [holds])]
  · simp only [exploration, recorded, onDoc]
  · simp only [exploration, entered, Set.mem_ofPred_eq]
    rw [exists_phase_go found after (p := (·.Owes place)) (owes place)]

private theorem unmoved (same : next.exploration opts site = s.exploration opts site) :
    Exploration.Run (Works site) (Leads opts.maxDepth site) (s.exploration opts site)
      (next.exploration opts site) :=
  same ▸ .refl

private theorem exploration_pop
    (taken : step opts layout s (.pop worker) = some next) :
    next.exploration opts site = s.exploration opts site := by
  obtain ⟨crawl, item, outside, popped, busy, rfl⟩ := step_pop taken
  obtain ⟨first, rest, idle, queue, rfl⟩ := CrawlState.step_pop popped
  have same : first = item := by
    simpa [List.getElem?_set_self (List.getElem?_eq_some_iff.mp idle).1] using busy
  subst first
  ext place
  · rfl
  · simp only [exploration, queue, setPhase, Set.mem_ofPred_eq, Table.exists_value_insert]
    rw [Table.exists_value_iff s.phases worker, outside]
    simp [ProcessPhase.Holds, or_assoc, or_left_comm]
  · rfl
  · simp only [exploration, setPhase, Set.mem_ofPred_eq, Table.exists_value_insert]
    rw [Table.exists_value_iff s.phases worker, outside]
    simp [ProcessPhase.Owes]

private theorem exploration_finish
    (taken : step opts layout s (.finish worker) = some next) :
    next.exploration opts site = s.exploration opts site := by
  obtain ⟨crawl, finished, completed, rfl⟩ := step_finish taken
  obtain ⟨item, _, rfl⟩ := CrawlState.step_complete completed
  ext place
  · rfl
  · simp only [exploration, Set.mem_ofPred_eq, Table.exists_value_erase, Frontier.complete]
    rw [Table.exists_value_iff s.phases worker, finished]
    simp [ProcessPhase.Holds]
  · rfl
  · simp only [exploration, Set.mem_ofPred_eq, Table.exists_value_erase]
    rw [Table.exists_value_iff s.phases worker, finished]
    simp [ProcessPhase.Owes]

section Moves

variable {before after : ProcessPhase}

private theorem waiting_left {item : Item} (found : s.phases.lookup worker = some before)
    (held : ∀ place, before.Holds place ↔ item.place = place)
    (entered : next.phases = s.phases.insert worker after)
    (queue : next.crawl.frontier.queue_ = s.crawl.frontier.queue_) :
    ∀ other ∈ (s.exploration opts site).waiting,
      other ∈ (next.exploration opts site).waiting ∨ other = item.place := by
  rintro other (queued | holds)
  · exact .inl (.inl (queue ▸ queued))
  · rcases (Table.exists_value_iff s.phases worker _).mp holds with ⟨phase, own, holds⟩ | others
    · cases Option.some.inj (found.symm.trans own)
      exact .inr ((held other).mp holds).symm
    · refine .inl (.inr ?_)
      rw [entered]
      exact (Table.exists_value_insert s.phases worker after _).mpr (.inr others)

private theorem waiting_fewer (empty : ∀ place, ¬ after.Holds place)
    (entered : next.phases = s.phases.insert worker after)
    (queue : next.crawl.frontier.queue_ = s.crawl.frontier.queue_) :
    (next.exploration opts site).waiting ⊆ (s.exploration opts site).waiting := by
  rintro other (queued | holds)
  · exact .inl (queue ▸ queued)
  · rw [entered] at holds
    rcases (Table.exists_value_insert s.phases worker after _).mp holds with own | others
    · exact absurd own (empty other)
    · exact .inr ((Table.exists_value_iff s.phases worker _).mpr (.inr others))

private theorem owed_left (found : s.phases.lookup worker = some before)
    (entered : next.phases = s.phases.insert worker after) :
    ∀ link ∈ (s.exploration opts site).owed,
      link ∈ (next.exploration opts site).owed ∨ before.Owes link ∧ ¬ after.Owes link := by
  rintro link ⟨leads, owes⟩
  by_cases still : after.Owes link
  · refine .inl ⟨leads, ?_⟩
    rw [entered]
    exact (Table.exists_value_insert s.phases worker after _).mpr (.inl still)
  · rcases (Table.exists_value_iff s.phases worker _).mp owes with ⟨phase, own, owes⟩ | others
    · cases Option.some.inj (found.symm.trans own)
      exact .inr ⟨owes, still⟩
    · refine .inl ⟨leads, ?_⟩
      rw [entered]
      exact (Table.exists_value_insert s.phases worker after _).mpr (.inr others)

private theorem owed_fewer (found : s.phases.lookup worker = some before)
    (fewer : ∀ link, after.Owes link → before.Owes link)
    (entered : next.phases = s.phases.insert worker after) :
    (next.exploration opts site).owed ⊆ (s.exploration opts site).owed := by
  rintro link ⟨leads, owes⟩
  refine ⟨leads, ?_⟩
  rw [entered] at owes
  rcases (Table.exists_value_insert s.phases worker after _).mp owes with own | others
  · exact ⟨worker, before, found, fewer link own⟩
  · exact (Table.exists_value_iff s.phases worker _).mpr (.inr others)

end Moves

theorem toNat_succ_depth {depth : UInt32} (bounded : depth + 1 ≠ 0) :
    (depth + 1).toNat = depth.toNat + 1 := by
  have overflow : (depth.toNat + 1) % 2 ^ 32 ≠ 0 := by
    intro wrapped
    exact bounded (UInt32.toNat_inj.mp (by simpa using wrapped))
  have small := depth.toNat_lt
  rw [UInt32.toNat_add]
  simp only [UInt32.toNat_one]
  omega

theorem mem_linksToFollow {item : Item} {url : Bytes}
    (leads : Leads opts.maxDepth site item.place url) :
    url ∈ linksToFollow opts item (site item.url).html := by
  obtain ⟨within, linked⟩ := leads
  have bounded : item.depth + 1 ≤ opts.maxDepth := by
    have small := opts.maxDepth.toNat_lt
    simp only [Item.place] at within
    rw [UInt32.le_iff_toNat_le, UInt32.toNat_add]
    simp only [UInt32.toNat_one]
    omega
  rw [linksToFollow, if_pos bounded]
  exact linked

theorem leads_of_mem {item : Item} {url : Bytes} (bounded : item.depth + 1 ≠ 0)
    (followed : url ∈ linksToFollow opts item (site item.url).html) :
    Leads opts.maxDepth site item.place url := by
  unfold linksToFollow at followed
  split at followed
  · rename_i within
    rw [UInt32.le_iff_toNat_le, toNat_succ_depth bounded] at within
    exact ⟨within, followed⟩
  · cases followed

private theorem explores_report (held : s.Tracked opts site) {item : Item} {html : Bytes}
    {id : Nat} (reporting : s.phases.lookup worker = some (.reporting item html id))
    (same : next = { s.setPhase worker (.following item (linksToFollow opts item html)) with
      onDoc := s.onDoc ++ [{ pageDocument item html with id }] }) :
    Exploration.Step (Works site) (Leads opts.maxDepth site) (s.exploration opts site)
      (next.exploration opts site) := by
  obtain ⟨page, busy, rfl, fetched, works, rfl⟩ := held.phases worker _ reporting
  have entered : next.phases = s.phases.insert worker
      (.following item (linksToFollow opts item (site item.url).html)) := by rw [same]; rfl
  have crawl : next.crawl = s.crawl := by rw [same]; rfl
  have recorded : next.recorded = s.recorded ++ [item.place] := by
    rw [same]
    simp [Crawler.recorded, pageDocument, Item.place]
  have opened : next.exploration opts site = { s.exploration opts site with
      waiting := (next.exploration opts site).waiting
      opened := insert item.place (s.exploration opts site).opened
      owed := (s.exploration opts site).owed ∪
        {link | link.1 = item.place ∧ Leads opts.maxDepth site item.place link.2} } := by
    ext link
    · simp only [exploration, crawl]
    · rfl
    · simp [exploration, recorded, or_comm]
    · change (_ ∧ ∃ w phase, next.phases.lookup w = some phase ∧ phase.Owes link) ↔
        (_ ∧ ∃ w phase, s.phases.lookup w = some phase ∧ phase.Owes link) ∨ _
      rw [entered, Table.exists_value_insert, Table.exists_value_iff s.phases worker, reporting]
      constructor
      · rintro ⟨leads, ⟨place, _⟩ | others⟩
        · exact .inr ⟨place.symm, place ▸ leads⟩
        · exact .inl ⟨leads, .inr others⟩
      · rintro (⟨leads, ⟨_, own, owes⟩ | others⟩ | ⟨place, leads⟩)
        · cases Option.some.inj own
          exact owes.elim
        · exact ⟨leads, .inr others⟩
        · exact ⟨place.symm ▸ leads, .inl ⟨place.symm, mem_linksToFollow leads⟩⟩
  rw [opened]
  refine .opens item.place _ ?_ works ?_ ?_
  · exact .inr ⟨worker, _, reporting, rfl⟩
  · refine waiting_fewer ?_ entered (by rw [crawl])
    exact fun _ holds => holds
  · exact waiting_left reporting (fun _ => Iff.rfl) entered (by rw [crawl])

private theorem explores_fetch {res : FetchResult}
    (fair : Undisturbed opts site s (.fetch worker res))
    (taken : step opts layout s (.fetch worker res) = some next) :
    Exploration.Run (Works site) (Leads opts.maxDepth site) (s.exploration opts site)
      (next.exploration opts site) := by
  obtain ⟨item, fetching, answered⟩ := step_fetch taken
  have passed : item.url ∈ s.fetchedUrl (.fetch worker res) := by simp [fetchedUrl, fetching]
  cases (fair item.url passed : res = site item.url)
  rcases answered with ⟨failed, same⟩ | ⟨_, rfl⟩
  · have entered : next.phases = s.phases.insert worker
        (.rejecting item (site item.url).error) := by rw [same]; rfl
    have crawl : next.crawl = s.crawl := by rw [same]; rfl
    have dropped : next.exploration opts site = { s.exploration opts site with
        waiting := (next.exploration opts site).waiting } := by
      ext link
      · simp only [exploration, crawl]
      · rfl
      · rw [same]
        rfl
      · simp only [exploration, entered, Set.mem_ofPred_eq]
        rw [exists_phase_go fetching (.rejecting item _) (p := (·.Owes link)) Iff.rfl]
    rw [dropped]
    refine .single (.drops _ ?_ fun other waits => ?_)
    · exact waiting_fewer (fun _ => id) entered (by rw [crawl])
    · have left := waiting_left fetching (fun _ => Iff.rfl) entered (by rw [crawl]) other waits
      refine left.imp_right ?_
      rintro rfl works
      exact absurd (failed.symm.trans works) nofun
  · exact unmoved (exploration_go fetching (.indexing item _) rfl rfl rfl rfl fun _ => Iff.rfl)

theorem placed_known (held : s.Tracked opts site) :
    ∀ place ∈ (s.exploration opts site).placed, place ∈ s.known := by
  intro place member
  rcases member with (⟨item, queued, rfl⟩ | ⟨worker, phase, found, holds⟩) | opened
  · refine List.mem_append_left _ (List.mem_map_of_mem (List.mem_append_left _ queued))
  · obtain ⟨item, busy, tracks⟩ := held.phases worker phase found
    have same : item.place = place := by
      cases phase <;> simp_all [ProcessPhase.Tracks, ProcessPhase.Holds]
    rw [← same]
    refine List.mem_append_left _ (List.mem_map_of_mem (List.mem_append_right _ ?_))
    exact CrawlState.mem_inFlight busy
  · exact List.mem_append_right _ opened

private theorem explores_accept (held : s.Tracked opts site) {item : Item} {link : Bytes}
    {links : List Bytes}
    (following : s.phases.lookup worker = some (.following item (link :: links)))
    (bounded : item.depth + 1 ≠ 0) (fresh : link ∉ s.crawl.frontier.seenUrls_)
    (entered : next.phases = s.phases.insert worker (.following item links))
    (accepted : next.crawl.frontier =
      s.crawl.frontier.accept link (item.depth + 1) (castInt (item.depth + 1)))
    (onDoc : next.onDoc = s.onDoc) :
    Exploration.Step (Works site) (Leads opts.maxDepth site) (s.exploration opts site)
      (next.exploration opts site) := by
  obtain ⟨page, busy, rfl, fetched, led⟩ := held.phases worker _ following
  have found : next.exploration opts site = { s.exploration opts site with
      seen := insert link (s.exploration opts site).seen
      waiting := insert (link, item.place.2 + 1) (s.exploration opts site).waiting
      owed := (next.exploration opts site).owed } := by
    ext place
    · simp [exploration, accepted, Frontier.accept]
    · simp only [exploration, accepted, entered, Set.mem_ofPred_eq, Frontier.accept]
      rw [exists_phase_go following (.following item links) (p := (·.Holds place)) Iff.rfl]
      simp [Item.place, toNat_succ_depth bounded, or_assoc, eq_comm]
    · simp [exploration, recorded, onDoc]
    · rfl
  rw [found]
  refine .finds item.place link _ ?_ fresh ?_ fun other owed => ?_
  · exact ⟨leads_of_mem bounded (led link List.mem_cons_self), worker, _, following, rfl,
      List.mem_cons_self⟩
  · have fewer (other : (Bytes × Nat) × Bytes)
        (owes : (ProcessPhase.following item links).Owes other) :
        (ProcessPhase.following item (link :: links)).Owes other :=
      ⟨owes.1, List.mem_cons_of_mem _ owes.2⟩
    exact owed_fewer following fewer entered
  · refine (owed_left following entered other owed).imp_right ?_
    rintro ⟨⟨place, member⟩, gone⟩
    rcases List.mem_cons.mp member with same | later
    · exact Prod.ext place.symm same
    · exact absurd ⟨place, later⟩ gone

private theorem explores_refuse (held : s.Tracked opts site) {item : Item} {links : List Bytes}
    (following : s.phases.lookup worker = some (.following item links))
    (late : ∀ link ∈ links, link ∈ s.crawl.frontier.seenUrls_ ∧
      ∀ place ∈ s.known, place.1 = link → place.2 ≤ item.depth.toNat + 1)
    (entered : next.phases = s.phases.insert worker .finished) (crawl : next.crawl = s.crawl)
    (onDoc : next.onDoc = s.onDoc) :
    Exploration.Step (Works site) (Leads opts.maxDepth site) (s.exploration opts site)
      (next.exploration opts site) := by
  have settled : next.exploration opts site = { s.exploration opts site with
      owed := (next.exploration opts site).owed } := by
    ext place
    · simp only [exploration, crawl]
    · simp only [exploration, crawl, entered, Set.mem_ofPred_eq]
      rw [exists_phase_go following .finished (p := (·.Holds place)) Iff.rfl]
    · simp only [exploration, recorded, onDoc]
    · rfl
  rw [settled]
  refine .settles _ (owed_fewer following (fun _ => False.elim) entered) fun link owed => ?_
  refine (owed_left following entered link owed).imp_right ?_
  rintro ⟨⟨place, member⟩, _⟩
  obtain ⟨seen, shallow⟩ := late link.2 member
  refine ⟨seen, fun other placed same => ?_⟩
  rw [← place]
  exact shallow other (placed_known held other placed) same

private theorem explores_follow (held : s.Tracked opts site)
    (fair : Undisturbed opts site s (.follow worker)) (timely : s.Timely (.follow worker))
    (taken : step opts layout s (.follow worker) = some next) :
    Exploration.Run (Works site) (Leads opts.maxDepth site) (s.exploration opts site)
      (next.exploration opts site) := by
  obtain ⟨item, entered⟩ := step_follow taken
  rcases entered with ⟨following, rfl⟩ | ⟨link, links, following, same⟩
  · refine unmoved (exploration_go following .finished rfl rfl rfl rfl fun link => ?_)
    simp [ProcessPhase.Owes]
  have offer : s.offering (.follow worker) = some ⟨item, link, links⟩ := by
    simp [offering, following]
  have going : ¬ s.crawl.Closed opts := fair _ offer
  obtain ⟨bounded, late⟩ := timely _ offer
  by_cases seen : link ∈ s.crawl.frontier.seenUrls_
  · have refused : s.crawl.Closed opts ∨ link ∈ s.crawl.frontier.seenUrls_ := .inr seen
    obtain ⟨answer, kept⟩ := CrawlState.enqueue_refused (item.depth + 1) link refused
    rw [answer, kept] at same
    refine .single (explores_refuse held following (late seen) ?_ ?_ ?_)
    · rw [same]
      rfl
    · rw [same]
    · rw [same]
      rfl
  · obtain ⟨answer, added⟩ := CrawlState.enqueue_accepted (item.depth + 1) link going seen
    rw [answer] at same
    rcases CrawlState.enqueue_cases opts s.crawl link (item.depth + 1)
      (castInt (item.depth + 1)) with kept | ⟨_, _, _, called⟩
    · exact absurd (kept ▸ added) seen
    · refine .single (explores_accept held following bounded seen ?_ ?_ ?_)
      · rw [same]
        rfl
      · rw [same, called]
      · rw [same]
        rfl

/-- Every step of an undisturbed and timely crawl without robots.txt is a run of the
exploration. -/
theorem explores (held : s.Tracked opts site) (unchecked : opts.obeyRobots = false)
    (action : CrawlerStep) (fair : Undisturbed opts site s action) (timely : s.Timely action)
    (taken : step opts layout s action = some next) :
    Exploration.Run (Works site) (Leads opts.maxDepth site) (s.exploration opts site)
      (next.exploration opts site) := by
  have waited {mover : Nat} {page : Item} {before after : ProcessPhase}
      (found : s.phases.lookup mover = some before)
      (begun : s.beginWait opts mover page after = some next)
      (holds : after.Holds = before.Holds) (owes : ∀ link, after.Owes link ↔ before.Owes link) :
      Exploration.Run (Works site) (Leads opts.maxDepth site) (s.exploration opts site)
        (next.exploration opts site) := by
    obtain ⟨politeness, _, rfl⟩ := beginWait_some begun
    exact unmoved (exploration_go found after rfl rfl rfl holds owes)
  cases action with
  | enqueue url depth priority => exact absurd fair id
  | stop => cases Option.some.inj taken; exact .refl
  | join =>
    obtain ⟨crawl, done, rfl⟩ := Option.map_eq_some_iff.mp taken
    obtain ⟨_, _, rfl⟩ := CrawlState.step_join done
    exact .refl
  | leave worker =>
    obtain ⟨crawl, done, rfl⟩ := Option.map_eq_some_iff.mp taken
    obtain ⟨_, _, _, rfl⟩ := CrawlState.step_leave done
    exact .refl
  | tick elapsed => cases Option.some.inj taken; exact .refl
  | readLast worker =>
    obtain ⟨politeness, _, rfl⟩ := Option.map_eq_some_iff.mp taken
    exact .refl
  | checkWait worker =>
    obtain ⟨politeness, _, rfl⟩ := Option.map_eq_some_iff.mp taken
    exact .refl
  | fetchRobots worker res =>
    obtain ⟨robots, _, rfl⟩ := step_fetchRobots taken
    exact .refl
  | pop worker => exact unmoved (exploration_pop taken)
  | start worker =>
    obtain ⟨item, started, entered⟩ := step_start taken
    rcases entered with ⟨obeys, _⟩ | ⟨obeys, _⟩ | ⟨_, begun⟩
    · simp [unchecked] at obeys
    · simp [unchecked] at obeys
    · exact waited started begun rfl fun _ => Iff.rfl
  | grant worker =>
    obtain ⟨politeness, item, _, entered⟩ := step_grant taken
    rcases entered with ⟨waiting, rfl⟩ | ⟨waiting, rfl⟩
    · exact unmoved (exploration_go waiting (.loadDomain item) rfl rfl rfl rfl fun _ => Iff.rfl)
    · exact unmoved (exploration_go waiting (.fetching item) rfl rfl rfl rfl fun _ => Iff.rfl)
  | load worker => exact absurd taken held.asks_none.1
  | storeRobots worker => exact absurd taken held.asks_none.2.1
  | decide worker => exact absurd taken held.asks_none.2.2
  | fetch worker res => exact explores_fetch fair taken
  | index worker =>
    obtain ⟨item, html, indexing, rfl⟩ := step_index taken
    exact unmoved (exploration_go indexing (.reporting item html _) rfl rfl rfl rfl
      fun _ => Iff.rfl)
  | report worker =>
    rcases step_report taken with ⟨item, ⟨error, rejecting, rfl⟩ | ⟨html, id, reporting, same⟩⟩
    · exact unmoved (exploration_go rejecting .finished rfl rfl rfl rfl fun _ => Iff.rfl)
    · exact .single (explores_report held reporting same)
  | follow worker => exact explores_follow held fair timely taken
  | finish worker => exact unmoved (exploration_finish taken)

end Crawler

end ShadowSe

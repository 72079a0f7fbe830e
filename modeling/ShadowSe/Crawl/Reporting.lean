import ShadowSe.Crawl.Confinement
import ShadowSe.Crawl.Exploring

namespace ShadowSe

open Support

/-- What a worker's phase says of the item it holds and of the pages reported so far. -/
def ProcessPhase.Reports (opts : CrawlerOptions) (site : Bytes → FetchResult)
    (reported : List Bytes) (item : Item) : ProcessPhase → Prop
  | .started page | .waitingPage page | .fetching page => page = item ∧ item.url ∉ reported
  | .waitingLoad page | .loadDomain page | .loading page | .deciding page =>
    page = item ∧ item.url ∉ reported ∧ opts.obeyRobots = true
  | .rejecting page error => page = item ∧ item.url ∉ reported ∧
    (opts.obeyRobots = true ∧ error = ascii "blocked by robots.txt" ∨
      (site item.url).ok = false ∧ error = (site item.url).error)
  | .indexing page html | .reporting page html _ =>
    page = item ∧ item.url ∉ reported ∧ (site item.url).ok = true ∧ html = (site item.url).html
  | .following _ _ | .finished => item.url ∈ reported

namespace CrawlState

variable {opts : CrawlerOptions} {s next : CrawlState}

theorem Accounted.processing_unique (books : s.Accounted opts) {worker other : Nat}
    {item page : Item} (busy : s.workers[worker]? = some (.processing item))
    (busyToo : s.workers[other]? = some (.processing page)) (same : item.url = page.url) :
    worker = other := by
  have handed : s.handed.Nodup :=
    (List.nodup_append.mp (books.queued.nodup_iff.mp books.distinct)).2.1
  have once := (List.nodup_append.mp (books.processed.nodup_iff.mp handed)).1
  rw [inFlight, List.Nodup, List.pairwise_map, List.pairwise_filterMap] at once
  have apart {first second : Nat} {a b : Item}
      (one : s.workers[first]? = some (.processing a))
      (two : s.workers[second]? = some (.processing b)) (before : first < second) :
      a.url ≠ b.url := by
    obtain ⟨inside, held⟩ := List.getElem?_eq_some_iff.mp one
    obtain ⟨insideToo, heldToo⟩ := List.getElem?_eq_some_iff.mp two
    refine List.pairwise_iff_getElem.mp once first second inside insideToo before a ?_ b ?_
    · rw [held]
      rfl
    · rw [heldToo]
      rfl
  rcases Nat.lt_trichotomy worker other with less | equal | greater
  · exact absurd same (apart busy busyToo less)
  · exact equal
  · exact absurd same.symm (apart busyToo busy greater)

theorem processing_old {worker : Nat} {item : Item} (action : CrawlStep)
    (away : ∀ mover, action ≠ .pop mover) (taken : step opts s action = some next)
    (busy : next.workers[worker]? = some (.processing item)) :
    s.workers[worker]? = some (.processing item) := by
  have other {mover : Nat} {after : WorkerState}
      (found : (s.workers.set mover after)[worker]? = some (.processing item))
      (differs : after ≠ .processing item) :
      s.workers[worker]? = some (.processing item) := by
    rw [List.getElem?_set] at found
    split at found
    · split at found
      · exact absurd (Option.some.inj found) differs
      · cases found
    · exact found
  cases action with
  | enqueue url depth priority =>
    cases Option.some.inj taken
    rcases enqueue_cases opts s url depth priority with same | ⟨_, _, _, called⟩
    · rwa [same] at busy
    · rw [called] at busy
      simp only at busy
      split at busy
      · exact busy
      · rw [List.getElem?_append] at busy
        split at busy
        · exact busy
        · cases List.eq_of_mem_replicate (List.mem_of_getElem? busy)
  | stop => cases Option.some.inj taken; exact busy
  | pop mover => exact absurd rfl (away mover)
  | leave mover =>
    obtain ⟨_, _, _, rfl⟩ := step_leave taken
    exact other busy nofun
  | complete mover =>
    obtain ⟨_, _, rfl⟩ := step_complete taken
    exact other busy nofun
  | join =>
    obtain ⟨_, _, rfl⟩ := step_join taken
    simp at busy

end CrawlState

namespace Crawler

variable {opts : CrawlerOptions} {layout : Layout} {site : Bytes → FetchResult}
  {s next : Crawler} {worker : Nat}

/-- The pages reported so far, as documents or as errors. -/
def reported (s : Crawler) : List Bytes :=
  s.onDoc.map (·.url) ++ s.onErr.map (·.1)

/-- The fetcher serves a fixed site. -/
def FromSite (site : Bytes → FetchResult) (s : Crawler) : CrawlerStep → Prop
  | .fetch worker res => ∀ url ∈ s.fetchedUrl (.fetch worker res), res = site url
  | _ => True

instance (s : Crawler) (action : CrawlerStep) : Decidable (FromSite site s action) :=
  match action with
  | .fetch worker res =>
    inferInstanceAs (Decidable (∀ url ∈ s.fetchedUrl (.fetch worker res), res = site url))
  | .enqueue .. | .stop | .join | .tick _ | .pop _ | .leave _ | .start _ | .readLast _
  | .checkWait _ | .grant _ | .load _ | .fetchRobots .. | .storeRobots _ | .decide _ | .index _
  | .report _ | .follow _ | .finish _ => inferInstanceAs (Decidable True)

/-- The pages handed to `process` are the reported ones and those that a worker has still to
report on, and each report says what the site says. -/
structure Reporting (opts : CrawlerOptions) (site : Bytes → FetchResult) (s : Crawler) :
    Prop where
  phases : ∀ worker phase, s.phases.lookup worker = some phase → ∃ item,
    s.crawl.workers[worker]? = some (.processing item) ∧ phase.Reports opts site s.reported item
  busy : ∀ worker item, s.crawl.workers[worker]? = some (.processing item) →
    ∃ phase, s.phases.lookup worker = some phase
  once : s.reported.Nodup
  handed : ∀ url ∈ s.reported, url ∈ s.crawl.handed
  completed : ∀ url ∈ s.crawl.completed, url ∈ s.reported
  documents : ∀ doc ∈ s.onDoc, ∃ item : Item, (site item.url).ok = true ∧
    doc = { pageDocument item (site item.url).html with id := doc.id }
  errors : ∀ entry ∈ s.onErr,
    opts.obeyRobots = true ∧ entry.2 = ascii "blocked by robots.txt" ∨
      (site entry.1).ok = false ∧ entry.2 = (site entry.1).error

private theorem reports_grow {before after : List Bytes} {url : Bytes}
    (grown : after.Perm (url :: before)) {item : Item} (differs : item.url ≠ url)
    {phase : ProcessPhase} (told : phase.Reports opts site before item) :
    phase.Reports opts site after item := by
  have member : item.url ∈ after ↔ item.url ∈ before := by
    rw [grown.mem_iff, List.mem_cons]
    simp [differs]
  cases phase <;> simpa only [ProcessPhase.Reports, member] using told

private theorem Reporting.go (held : s.Reporting opts site) (phase : ProcessPhase) {item : Item}
    (busy : s.crawl.workers[worker]? = some (.processing item))
    (told : phase.Reports opts site s.reported item)
    (entered : next.phases = s.phases.insert worker phase) (crawl : next.crawl = s.crawl)
    (onDoc : next.onDoc = s.onDoc) (onErr : next.onErr = s.onErr) :
    next.Reporting opts site := by
  have same : next.reported = s.reported := by simp only [reported, onDoc, onErr]
  constructor
  · intro other current found
    rw [entered, Table.lookup_insert_ite] at found
    rw [crawl, same]
    split at found
    · rename_i equal
      subst other
      exact ⟨item, busy, Option.some.inj found ▸ told⟩
    · exact held.phases other current found
  · intro other page found
    rw [crawl] at found
    rw [entered, Table.lookup_insert_ite]
    split
    · exact ⟨phase, rfl⟩
    · exact held.busy other page found
  · exact same ▸ held.once
  · exact same ▸ crawl ▸ held.handed
  · exact same ▸ crawl ▸ held.completed
  · exact onDoc ▸ held.documents
  · exact onErr ▸ held.errors

private theorem Reporting.report (held : s.Reporting opts site) (books : s.crawl.Accounted opts)
    (phase : ProcessPhase) {item : Item}
    (busy : s.crawl.workers[worker]? = some (.processing item)) (fresh : item.url ∉ s.reported)
    (told : item.url ∈ next.reported → phase.Reports opts site next.reported item)
    (entered : next.phases = s.phases.insert worker phase) (crawl : next.crawl = s.crawl)
    (grown : next.reported.Perm (item.url :: s.reported))
    (documents : ∀ doc ∈ next.onDoc, ∃ item : Item, (site item.url).ok = true ∧
      doc = { pageDocument item (site item.url).html with id := doc.id })
    (errors : ∀ entry ∈ next.onErr,
      opts.obeyRobots = true ∧ entry.2 = ascii "blocked by robots.txt" ∨
        (site entry.1).ok = false ∧ entry.2 = (site entry.1).error) :
    next.Reporting opts site := by
  have new : item.url ∈ next.reported := grown.mem_iff.mpr List.mem_cons_self
  constructor
  · intro other current found
    rw [entered, Table.lookup_insert_ite] at found
    rw [crawl]
    split at found
    · rename_i equal
      subst other
      exact ⟨item, busy, Option.some.inj found ▸ told new⟩
    · rename_i differs
      obtain ⟨page, holding, said⟩ := held.phases other current found
      refine ⟨page, holding, reports_grow grown (fun same => differs ?_) said⟩
      exact books.processing_unique holding busy same
  · intro other page found
    rw [crawl] at found
    rw [entered, Table.lookup_insert_ite]
    split
    · exact ⟨phase, rfl⟩
    · exact held.busy other page found
  · exact grown.nodup_iff.mpr (List.nodup_cons.mpr ⟨fresh, held.once⟩)
  · intro url member
    rw [crawl]
    rcases List.mem_cons.mp (grown.mem_iff.mp member) with rfl | old
    · refine books.processed.mem_iff.mpr (List.mem_append_left _ ?_)
      exact List.mem_map_of_mem (CrawlState.mem_inFlight busy)
    · exact held.handed url old
  · intro url done
    exact grown.mem_iff.mpr (List.mem_cons_of_mem _ (held.completed url (crawl ▸ done)))
  · exact documents
  · exact errors

private theorem Reporting.crawl (held : s.Reporting opts site) {crawl : CrawlState}
    (action : CrawlStep) (stays : ∀ worker, action ≠ .complete worker)
    (away : ∀ worker, action ≠ .pop worker)
    (done : s.crawl.step opts action = some crawl) : { s with crawl }.Reporting opts site := by
  obtain ⟨completed, handed⟩ := CrawlState.history_kept action stays done
  constructor
  · intro other phase found
    obtain ⟨item, busy, told⟩ := held.phases other phase found
    exact ⟨item, CrawlState.processing_kept busy action (stays other) done, told⟩
  · exact fun other page found => held.busy other page
      (CrawlState.processing_old action away done found)
  · exact held.once
  · exact fun url member => handed (held.handed url member)
  · exact fun url finished => held.completed url (completed ▸ finished)
  · exact held.documents
  · exact held.errors

private theorem Reporting.pop (held : s.Reporting opts site) (books : s.crawl.Accounted opts)
    (taken : step opts layout s (.pop worker) = some next) : next.Reporting opts site := by
  obtain ⟨crawl, item, outside, popped, busy, rfl⟩ := step_pop taken
  have balanced := books.step (.pop worker) popped
  obtain ⟨first, rest, idle, _, rfl⟩ := CrawlState.step_pop popped
  have same : first = item := by
    have inside := (List.getElem?_eq_some_iff.mp idle).1
    rw [List.getElem?_set_self inside] at busy
    simpa using busy
  subst first
  have fresh : item.url ∉ s.reported := by
    intro reported
    have once : (s.crawl.handed ++ [item.url]).Nodup :=
      (List.nodup_append.mp (balanced.queued.nodup_iff.mp balanced.distinct)).2.1
    exact (List.nodup_append.mp once).2.2 _ (held.handed _ reported) _
      (List.mem_singleton_self _) rfl
  have moved {other : Nat} {page : Item} (apart : other ≠ worker) :
      (s.crawl.workers.set worker (.processing item))[other]? = some (.processing page) ↔
        s.crawl.workers[other]? = some (.processing page) := by
    rw [List.getElem?_set_ne (Ne.symm apart)]
  constructor
  · intro other phase found
    simp only [setPhase] at found
    rw [Table.lookup_insert_ite] at found
    split at found
    · rename_i equal
      subst other
      exact ⟨item, busy, Option.some.inj found ▸ ⟨rfl, fresh⟩⟩
    · rename_i differs
      obtain ⟨page, holding, told⟩ := held.phases other phase found
      exact ⟨page, (moved differs).mpr holding, told⟩
  · intro other page found
    simp only [setPhase]
    rw [Table.lookup_insert_ite]
    split
    · exact ⟨.started item, rfl⟩
    · rename_i differs
      exact held.busy other page ((moved differs).mp found)
  · exact held.once
  · exact fun url member => List.mem_append_left _ (held.handed url member)
  · exact held.completed
  · exact held.documents
  · exact held.errors

private theorem Reporting.finish (held : s.Reporting opts site)
    (taken : step opts layout s (.finish worker) = some next) : next.Reporting opts site := by
  obtain ⟨crawl, finished, completed, rfl⟩ := step_finish taken
  obtain ⟨item, busy, told⟩ := held.phases worker _ finished
  obtain ⟨page, present, rfl⟩ := CrawlState.step_complete completed
  cases Option.some.inj (present.symm.trans busy)
  have moved {other : Nat} {page : Item} (apart : other ≠ worker) :
      (s.crawl.workers.set worker .idle)[other]? = some (.processing page) ↔
        s.crawl.workers[other]? = some (.processing page) := by
    rw [List.getElem?_set_ne (Ne.symm apart)]
  constructor
  · intro other phase found
    rw [Table.lookup_erase_ite] at found
    split at found
    · cases found
    · rename_i differs
      obtain ⟨page, holding, said⟩ := held.phases other phase found
      exact ⟨page, (moved differs).mpr holding, said⟩
  · intro other page found
    have differs : other ≠ worker := by
      rintro rfl
      simp [List.getElem?_set_self (List.getElem?_eq_some_iff.mp present).1] at found
    rw [Table.lookup_erase_ite, if_neg differs]
    exact held.busy other page ((moved differs).mp found)
  · exact held.once
  · exact held.handed
  · intro url done
    rcases List.mem_append.mp done with old | new
    · exact held.completed url old
    · cases List.mem_singleton.mp new
      exact told
  · exact held.documents
  · exact held.errors

private theorem Reporting.decide (held : s.Reporting opts site)
    (taken : step opts layout s (.decide worker) = some next) : next.Reporting opts site := by
  obtain ⟨item, deciding, ⟨_, rfl⟩ | ⟨_, begun⟩⟩ := step_decide taken
  · obtain ⟨page, busy, rfl, fresh, obeys⟩ := held.phases worker _ deciding
    exact held.go (.rejecting item _) busy ⟨rfl, fresh, .inl ⟨obeys, rfl⟩⟩ rfl rfl rfl rfl
  · obtain ⟨page, busy, rfl, fresh, _⟩ := held.phases worker _ deciding
    obtain ⟨politeness, _, rfl⟩ := beginWait_some begun
    exact held.go (.waitingPage item) busy ⟨rfl, fresh⟩ rfl rfl rfl rfl

private theorem Reporting.fetch (held : s.Reporting opts site) {res : FetchResult}
    (fair : FromSite site s (.fetch worker res))
    (taken : step opts layout s (.fetch worker res) = some next) : next.Reporting opts site := by
  obtain ⟨item, fetching, answered⟩ := step_fetch taken
  obtain ⟨page, busy, rfl, fresh⟩ := held.phases worker _ fetching
  cases (fair item.url (by simp [fetchedUrl, fetching]) : res = site item.url)
  rcases answered with ⟨failed, rfl⟩ | ⟨succeeded, rfl⟩
  · exact held.go (.rejecting item _) busy ⟨rfl, fresh, .inr ⟨failed, rfl⟩⟩ rfl rfl rfl rfl
  · exact held.go (.indexing item (site item.url).html) busy ⟨rfl, fresh, succeeded, rfl⟩
      rfl rfl rfl rfl

private theorem Reporting.reports (held : s.Reporting opts site) (books : s.crawl.Accounted opts)
    (taken : step opts layout s (.report worker) = some next) : next.Reporting opts site := by
  rcases step_report taken with ⟨item, ⟨error, rejecting, rfl⟩ | ⟨html, id, reporting, rfl⟩⟩
  · obtain ⟨page, busy, rfl, fresh, verdict⟩ := held.phases worker _ rejecting
    refine held.report books .finished busy fresh (fun told => told) rfl rfl ?_ held.documents ?_
    · simp only [reported, setPhase, List.map_append, List.map_cons, List.map_nil]
      exact (List.append_assoc _ _ _ ▸ List.perm_append_singleton _ _)
    · intro entry member
      rcases List.mem_append.mp member with old | new
      · exact held.errors entry old
      · cases List.mem_singleton.mp new
        exact verdict
  · obtain ⟨page, busy, rfl, fresh, succeeded, rfl⟩ := held.phases worker _ reporting
    refine held.report books (.following item _) busy fresh (fun told => told) rfl rfl ?_ ?_
      held.errors
    · simp only [reported, setPhase, List.map_append, List.map_cons, List.map_nil]
      exact (List.perm_append_singleton item.url _).append_right _
    · intro doc member
      rcases List.mem_append.mp member with old | new
      · exact held.documents doc old
      · cases List.mem_singleton.mp new
        exact ⟨item, succeeded, rfl⟩

private theorem Reporting.follow (held : s.Reporting opts site)
    (taken : step opts layout s (.follow worker) = some next) : next.Reporting opts site := by
  obtain ⟨item, ⟨following, rfl⟩ | ⟨link, links, following, rfl⟩⟩ := step_follow taken
  · obtain ⟨page, busy, told⟩ := held.phases worker _ following
    exact held.go .finished busy told rfl rfl rfl rfl
  · obtain ⟨page, busy, told⟩ := held.phases worker _ following
    have offered : s.crawl.step opts (.enqueue link (item.depth + 1) (castInt (item.depth + 1))) =
        some (s.crawl.enqueue opts link (item.depth + 1) (castInt (item.depth + 1))) := rfl
    have still := CrawlState.processing_kept busy
      (.enqueue link (item.depth + 1) (castInt (item.depth + 1))) nofun offered
    refine (held.crawl (.enqueue link (item.depth + 1) (castInt (item.depth + 1))) nofun nofun
      offered).go _ still ?_ rfl rfl rfl rfl
    split
    · exact told
    · exact told

theorem Reporting.step (held : s.Reporting opts site) (books : s.crawl.Accounted opts)
    (action : CrawlerStep) (fair : FromSite site s action)
    (taken : Crawler.step opts layout s action = some next) : next.Reporting opts site := by
  have waited {mover : Nat} {item page : Item} {phase : ProcessPhase}
      (busy : s.crawl.workers[mover]? = some (.processing item))
      (begun : s.beginWait opts mover page phase = some next)
      (told : phase.Reports opts site s.reported item) : next.Reporting opts site := by
    obtain ⟨politeness, _, rfl⟩ := beginWait_some begun
    exact held.go phase busy told rfl rfl rfl rfl
  have aside (phases : next.phases = s.phases) (crawl : next.crawl = s.crawl)
      (onDoc : next.onDoc = s.onDoc) (onErr : next.onErr = s.onErr) :
      next.Reporting opts site := by
    have same : next.reported = s.reported := by simp only [reported, onDoc, onErr]
    exact ⟨phases ▸ crawl ▸ same ▸ held.phases, phases ▸ crawl ▸ held.busy, same ▸ held.once,
      same ▸ crawl ▸ held.handed, same ▸ crawl ▸ held.completed, onDoc ▸ held.documents,
      onErr ▸ held.errors⟩
  cases action with
  | enqueue url depth priority =>
    cases Option.some.inj taken
    exact held.crawl (.enqueue url depth priority) nofun nofun rfl
  | stop => cases Option.some.inj taken; exact held.crawl .stop nofun nofun rfl
  | join =>
    obtain ⟨crawl, done, rfl⟩ := Option.map_eq_some_iff.mp taken
    exact held.crawl .join nofun nofun done
  | leave worker =>
    obtain ⟨crawl, done, rfl⟩ := Option.map_eq_some_iff.mp taken
    exact held.crawl (.leave worker) nofun nofun done
  | tick elapsed => cases Option.some.inj taken; exact aside rfl rfl rfl rfl
  | readLast worker =>
    obtain ⟨politeness, _, rfl⟩ := Option.map_eq_some_iff.mp taken
    exact aside rfl rfl rfl rfl
  | checkWait worker =>
    obtain ⟨politeness, _, rfl⟩ := Option.map_eq_some_iff.mp taken
    exact aside rfl rfl rfl rfl
  | fetchRobots worker res =>
    obtain ⟨robots, _, rfl⟩ := step_fetchRobots taken
    exact aside rfl rfl rfl rfl
  | pop worker => exact held.pop books taken
  | start worker =>
    obtain ⟨item, started, entered⟩ := step_start taken
    obtain ⟨page, busy, rfl, fresh⟩ := held.phases worker _ started
    rcases entered with ⟨obeys, begun⟩ | ⟨obeys, _, rfl⟩ | ⟨_, begun⟩
    · exact waited busy begun ⟨rfl, fresh, obeys⟩
    · exact held.go (.deciding item) busy ⟨rfl, fresh, obeys⟩ rfl rfl rfl rfl
    · exact waited busy begun ⟨rfl, fresh⟩
  | grant worker =>
    obtain ⟨politeness, item, _, ⟨waiting, rfl⟩ | ⟨waiting, rfl⟩⟩ := step_grant taken
    · obtain ⟨page, busy, told⟩ := held.phases worker _ waiting
      exact held.go (.loadDomain item) busy told rfl rfl rfl rfl
    · obtain ⟨page, busy, told⟩ := held.phases worker _ waiting
      exact held.go (.fetching item) busy told rfl rfl rfl rfl
  | load worker =>
    obtain ⟨item, robots, entered, _, rfl⟩ := step_load taken
    obtain ⟨page, busy, told⟩ := held.phases worker _ entered
    refine held.go _ busy ?_ rfl rfl rfl rfl
    split
    · exact told
    · exact told
  | storeRobots worker =>
    obtain ⟨item, robots, loading, _, rfl⟩ := step_storeRobots taken
    obtain ⟨page, busy, told⟩ := held.phases worker _ loading
    exact held.go (.deciding item) busy told rfl rfl rfl rfl
  | decide worker => exact held.decide taken
  | fetch worker res => exact held.fetch fair taken
  | index worker =>
    obtain ⟨item, html, indexing, rfl⟩ := step_index taken
    obtain ⟨page, busy, told⟩ := held.phases worker _ indexing
    exact held.go (.reporting item html _) busy told rfl rfl rfl rfl
  | report worker => exact held.reports books taken
  | follow worker => exact held.follow taken
  | finish worker => exact held.finish taken

theorem reporting_create (opts : CrawlerOptions) (site : Bytes → FetchResult)
    (bloom : BloomFilter) (clock : Int) : (create opts bloom clock).Reporting opts site := by
  constructor <;> simp [create, CrawlState.create, reported]

theorem reporting {bloom : BloomFilter} {clock : Int}
    (reached : (machine opts layout).Reaches (FromSite site) (create opts bloom clock) s) :
    s.Reporting opts site := by
  induction reached with
  | refl => exact reporting_create opts site bloom clock
  | step action earlier fair taken held =>
    exact held.step (accounted earlier.reachable) action fair taken

/-- With every worker gone the pages reported are the pages accepted. -/
theorem Reporting.perm_accepted (held : s.Reporting opts site) (books : s.crawl.Accounted opts)
    (staffed : s.crawl.Staffed) (returned : ∀ worker ∈ s.crawl.workers, worker = .returned) :
    s.reported.Perm s.crawl.accepted := by
  obtain ⟨_, _, all⟩ := CrawlState.drained books staffed returned
  have completed : s.crawl.completed.Nodup := all.nodup_iff.mpr books.distinct
  have processed := books.processed
  rw [CrawlState.inFlight_of_returned returned] at processed
  refine .trans ((List.perm_ext_iff_of_nodup held.once completed).mpr fun url => ⟨?_, ?_⟩) all
  · exact fun member => processed.mem_iff.mp (held.handed url member)
  · exact held.completed url

/-- The URL of a reported document is one that the site served. -/
theorem Reporting.ok_of_mem (held : s.Reporting opts site) {url : Bytes}
    (member : url ∈ s.onDoc.map (·.url)) : (site url).ok = true := by
  obtain ⟨doc, inside, rfl⟩ := List.mem_map.mp member
  obtain ⟨item, succeeded, built⟩ := held.documents doc inside
  rw [built]
  exact succeeded

/-- At every point of every interleaving each page has been reported at most once, and not
before it was handed to `process`; what is complete has been reported, and each error is the
site's or robots.txt's. When the workers have gone every accepted page has its report; where
robots.txt is not obeyed, the documents are the accepted pages that the site serves. -/
theorem reported_once (opts : CrawlerOptions) (layout : Layout) (site : Bytes → FetchResult)
    (bloom : BloomFilter) (clock : Int)
    (reached : (machine opts layout).Reaches (FromSite site) (create opts bloom clock) s) :
    s.reported.Nodup ∧ (∀ url ∈ s.reported, url ∈ s.crawl.handed) ∧
    (∀ url ∈ s.crawl.completed, url ∈ s.reported) ∧
    (∀ url error, (url, error) ∈ s.onErr →
      opts.obeyRobots = true ∧ error = ascii "blocked by robots.txt" ∨
        (site url).ok = false ∧ error = (site url).error) ∧
    ((∀ worker ∈ s.crawl.workers, worker = .returned) →
      s.reported.Perm s.crawl.accepted ∧
        (opts.obeyRobots = false → (s.onDoc.map (·.url)).Perm
          (s.crawl.accepted.filter fun url => (site url).ok))) := by
  have held := reporting reached
  have books := accounted reached.reachable
  refine ⟨held.once, held.handed, held.completed,
    fun url error member => held.errors (url, error) member, fun returned => ?_⟩
  have all := held.perm_accepted books
    (CrawlState.staffed_of_reachable (crawl_reachable reached.reachable)) returned
  refine ⟨all, fun unchecked => .trans (.of_eq ?_) (all.filter _)⟩
  have served : (s.onDoc.map (·.url)).filter (fun url => (site url).ok) =
      s.onDoc.map (·.url) := List.filter_eq_self.mpr fun url member => held.ok_of_mem member
  have failed : (s.onErr.map (·.1)).filter (fun url => (site url).ok) = [] := by
    refine List.filter_eq_nil_iff.mpr fun url member => ?_
    obtain ⟨entry, inside, rfl⟩ := List.mem_map.mp member
    rcases held.errors entry inside with ⟨obeys, _⟩ | ⟨down, _⟩
    · simp [unchecked] at obeys
    · simp [down]
  rw [reported, List.filter_append, served, failed, List.append_nil]

/-- One page with a link to a page that is gone. -/
def halfSite (url : Bytes) : FetchResult :=
  if url = ascii "http://a" then { ok := true, html := ascii "<a href='http://x'>alpha</a>" }
  else { error := ascii "gone" }

/-- A worker fetches both pages, and after a stop all workers leave. -/
def halfSteps : List CrawlerStep :=
  [.enqueue (ascii "http://a") 0 (-1), .pop 0, .start 0, .readLast 0, .checkWait 0, .grant 0,
    .fetch 0 (halfSite (ascii "http://a")), .index 0, .report 0, .follow 0, .follow 0, .finish 0,
    .pop 1, .start 1, .readLast 1, .checkWait 1, .grant 1,
    .fetch 1 (halfSite (ascii "http://x")), .report 1, .finish 1, .stop, .leave 0, .leave 1]

def openOptions : CrawlerOptions :=
  { obeyRobots := false, domainDelay := 0 }

theorem reported_once_halfSite :
    ∃ s, (machine openOptions fun _ => .stored).Reaches (FromSite halfSite)
        (create openOptions (.create (fun _ => 0) 64 1) 0) s ∧
      s.reported = [ascii "http://a", ascii "http://x"] ∧
      s.reported.Perm s.crawl.accepted ∧
      (s.onDoc.map (·.url)).Perm (s.crawl.accepted.filter fun url => (halfSite url).ok) := by
  obtain ⟨s, reached, returned, both⟩ : ∃ s, (machine openOptions fun _ => .stored).Reaches
      (FromSite halfSite) (create openOptions (.create (fun _ => 0) 64 1) 0) s ∧
      (∀ worker ∈ s.crawl.workers, worker = .returned) ∧
        s.reported = [ascii "http://a", ascii "http://x"] :=
    Machine.exists_reaches_of_run halfSteps (by decide +kernel)
  have told := reported_once openOptions (fun _ => .stored) halfSite (.create (fun _ => 0) 64 1) 0
    reached
  obtain ⟨all, documents⟩ := told.2.2.2.2 returned
  exact ⟨s, reached, both, all, documents rfl⟩

end Crawler

end ShadowSe

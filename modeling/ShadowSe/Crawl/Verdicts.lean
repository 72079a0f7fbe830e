import ShadowSe.Crawl.Compliance
import ShadowSe.Crawl.Reporting

namespace ShadowSe

open Support

namespace RobotsTxt

variable {ua : Bytes} {site : Bytes → FetchResult} {robots : RobotsTxt}

/-- The verdict on a URL of a cache that has loaded nothing but its origin. -/
def admits (ua : Bytes) (site : Bytes → FetchResult) (url : Bytes) : Bool :=
  (loadDomain { ua_ := ua } site url).allowed url

/-- Every policy in the cache is the one that the site serves for its origin. -/
structure Mirrors (ua : Bytes) (site : Bytes → FetchResult) (robots : RobotsTxt) : Prop where
  agent : robots.ua_ = ua
  entries : ∀ origin rules, robots.entry origin = some rules →
    origin ≠ [] ∧ rules = robots.fetchedRules (site (robotsUrl origin))

theorem Mirrors.store (held : robots.Mirrors ua site) {origin : Bytes} (named : origin ≠ []) :
    (robots.store origin (robots.fetchedRules (site (robotsUrl origin)))).Mirrors ua site := by
  refine ⟨held.agent, fun query rules found => ?_⟩
  rw [entry_store] at found
  split at found
  · rename_i same
    subst query
    exact ⟨named, (Option.some.inj found).symm⟩
  · exact held.entries query rules found

theorem entry_of_any {domains : List (Bytes × DomainRules)} {origin : Bytes}
    (loaded : (domains.any fun (o, rules) => o == origin && rules.loaded) = true) :
    ∃ rules, domains.lookup origin = some rules := by
  obtain ⟨⟨o, rules⟩, member, same⟩ := List.any_eq_true.mp loaded
  obtain ⟨rfl, _⟩ : o = origin ∧ rules.loaded = true := by simpa using same
  refine Option.ne_none_iff_exists'.mp fun absent => ?_
  have other := List.lookup_eq_none_iff.mp absent (o, rules) member
  simp at other

/-- With its origin loaded a URL has the verdict that the site gives it. -/
theorem Mirrors.allowed (held : robots.Mirrors ua site) {url : Bytes}
    (loaded : robots.needsLoad (originOf url) = false) :
    robots.allowed url = admits ua site url := by
  refine allowed_congr ?_
  by_cases nameless : originOf url = []
  · have absent : robots.entry (originOf url) = none := by
      refine Option.eq_none_iff_forall_not_mem.mpr fun rules found => ?_
      exact (held.entries _ rules found).1 nameless
    rw [absent, loadDomain, nameless]
    rfl
  · have present : (robots.domains_.any fun (o, rules) => o == originOf url && rules.loaded) =
        true := by
      simpa [needsLoad, nameless] using loaded
    obtain ⟨rules, found⟩ := entry_of_any present
    have needs : needsLoad { ua_ := ua } (originOf url) = true := by simp [needsLoad, nameless]
    have same : ({ ua_ := ua } : RobotsTxt).fetchedRules (site (robotsUrl (originOf url))) =
        rules := by
      rw [(held.entries _ rules found).2, fetchedRules, fetchedRules, held.agent]
    rw [entry, found, loadDomain, if_pos needs, entry_store, if_pos rfl, same]

end RobotsTxt

namespace RobotsCache

variable {ua : Bytes} {site : Bytes → FetchResult} {s next : RobotsCache}

/-- The policies, stored or about to be stored, are the ones that the site serves. -/
structure Mirrors (ua : Bytes) (site : Bytes → FetchResult) (s : RobotsCache) : Prop where
  robots : s.robots.Mirrors ua site
  named : ∀ worker call, s.calls.lookup worker = some call → call.origin ≠ []
  fetched : ∀ worker origin res, s.calls.lookup worker = some (.fetched origin res) →
    res = site (RobotsTxt.robotsUrl origin)

/-- The site answers a fetch of a policy. -/
def Serves (site : Bytes → FetchResult) (s : RobotsCache) : LoadStep → Prop
  | .fetch worker res => ∀ origin, s.calls.lookup worker = some (.missed origin) →
    res = site (RobotsTxt.robotsUrl origin)
  | .call .. | .store _ => True

theorem Mirrors.step (held : s.Mirrors ua site) (action : LoadStep) (serves : s.Serves site action)
    (taken : RobotsCache.step s action = some next) : next.Mirrors ua site := by
  cases action with
  | call worker url =>
    rcases step_call taken with ⟨_, ⟨needs, rfl⟩ | ⟨_, rfl⟩⟩
    · have nonempty : RobotsTxt.originOf url ≠ [] := by
        rintro nameless
        simp [RobotsTxt.needsLoad, nameless] at needs
      refine ⟨held.robots, fun other call found => ?_, fun other origin res found => ?_⟩
      · rw [Table.lookup_insert_ite] at found
        split at found
        · cases Option.some.inj found
          exact nonempty
        · exact held.named other call found
      · rw [Table.lookup_insert_ite] at found
        split at found
        · cases found
        · exact held.fetched other origin res found
    · exact held
  | fetch worker res =>
    obtain ⟨origin, missed, rfl⟩ := step_fetch taken
    refine ⟨held.robots, fun other call found => ?_, fun other target answer found => ?_⟩
    · rw [Table.lookup_insert_ite] at found
      split at found
      · have named : LoadPhase.origin (.missed origin) ≠ [] := held.named worker _ missed
        cases Option.some.inj found
        exact named
      · exact held.named other call found
    · rw [Table.lookup_insert_ite] at found
      split at found
      · cases Option.some.inj found
        exact serves origin missed
      · exact held.fetched other target answer found
  | store worker =>
    obtain ⟨origin, res, fetched, rfl⟩ := step_store taken
    cases held.fetched worker origin res fetched
    refine ⟨held.robots.store (held.named worker _ fetched), fun other call found => ?_,
      fun other target answer found => ?_⟩
    · rw [Table.lookup_erase_ite] at found
      split at found
      · cases found
      · exact held.named other call found
    · rw [Table.lookup_erase_ite] at found
      split at found
      · cases found
      · exact held.fetched other target answer found

end RobotsCache

/-- `process` asks robots.txt about the URL. -/
def Checked (opts : CrawlerOptions) (url : Bytes) : Prop :=
  opts.obeyRobots = true ∧ isRobotsUrl url = false

/-- The page is handed to the fetcher: robots.txt is not obeyed, the URL contains `robots.txt`,
or the policy of its host admits it. -/
def admitted (opts : CrawlerOptions) (site : Bytes → FetchResult) (url : Bytes) : Bool :=
  !opts.obeyRobots || isRobotsUrl url || RobotsTxt.admits opts.userAgent site url

/-- The page is indexed. -/
def served (opts : CrawlerOptions) (site : Bytes → FetchResult) (url : Bytes) : Bool :=
  admitted opts site url && (site url).ok

/-- What `onErr` is told about a page that is not indexed. -/
def refusal (opts : CrawlerOptions) (site : Bytes → FetchResult) (url : Bytes) : Bytes :=
  if admitted opts site url then (site url).error else ascii "blocked by robots.txt"

/-- What a worker's phase says of the verdict on its page. -/
def ProcessPhase.Settles (opts : CrawlerOptions) (site : Bytes → FetchResult)
    (robots : RobotsCache) (worker : Nat) : ProcessPhase → Prop
  | .waitingLoad item | .loadDomain item => Checked opts item.url
  | .loading item => Checked opts item.url ∧ ∃ call, robots.calls.lookup worker = some call ∧
      call.origin = RobotsTxt.originOf item.url
  | .deciding item => Checked opts item.url ∧
      robots.robots.needsLoad (RobotsTxt.originOf item.url) = false
  | .waitingPage item | .fetching item | .indexing item _ | .reporting item _ _ =>
    admitted opts site item.url = true
  | .rejecting item error => served opts site item.url = false ∧ error = refusal opts site item.url
  | .started _ | .following .. | .finished => True

theorem admitted_of_checked {opts : CrawlerOptions} {site : Bytes → FetchResult} {url : Bytes}
    (checked : Checked opts url) :
    admitted opts site url = RobotsTxt.admits opts.userAgent site url := by
  simp [admitted, checked.1, checked.2]

namespace Crawler

variable {opts : CrawlerOptions} {layout : Layout} {site : Bytes → FetchResult}
  {s next : Crawler} {worker : Nat}

/-- Pages and policies come from a fixed site. -/
def Serves (site : Bytes → FetchResult) (s : Crawler) : CrawlerStep → Prop
  | .fetch worker res => ∀ url ∈ s.fetchedUrl (.fetch worker res), res = site url
  | .fetchRobots worker res => ∀ url ∈ s.fetchedUrl (.fetchRobots worker res), res = site url
  | _ => True

instance (s : Crawler) (action : CrawlerStep) : Decidable (Serves site s action) :=
  match action with
  | .fetch worker res =>
    inferInstanceAs (Decidable (∀ url ∈ s.fetchedUrl (.fetch worker res), res = site url))
  | .fetchRobots worker res =>
    inferInstanceAs (Decidable (∀ url ∈ s.fetchedUrl (.fetchRobots worker res), res = site url))
  | .enqueue .. | .stop | .join | .tick _ | .pop _ | .leave _ | .start _ | .readLast _
  | .checkWait _ | .grant _ | .load _ | .storeRobots _ | .decide _ | .index _ | .report _
  | .follow _ | .finish _ => inferInstanceAs (Decidable True)

theorem Serves.fromSite {action : CrawlerStep} (fair : Serves site s action) :
    FromSite site s action := by
  cases action with
  | fetch worker res => exact fair
  | _ => trivial

/-- The policies are the site's, and so is every verdict passed so far. -/
structure Settled (opts : CrawlerOptions) (site : Bytes → FetchResult) (s : Crawler) : Prop where
  robots : s.robots.Mirrors opts.userAgent site
  phases : ∀ worker phase, s.phases.lookup worker = some phase →
    phase.Settles opts site s.robots worker
  documents : ∀ doc ∈ s.onDoc, admitted opts site doc.url = true
  errors : ∀ entry ∈ s.onErr, served opts site entry.1 = false ∧
    entry.2 = refusal opts site entry.1
  fetched : ∀ url ∈ s.fetchedUrls, admitted opts site url = true

theorem step_start_checked (taken : step opts layout s (.start worker) = some next) :
    ∃ item, s.phases.lookup worker = some (.started item) ∧
      (Checked opts item.url ∧ s.beginWait opts worker item (.waitingLoad item) = some next ∨
        Checked opts item.url ∧ s.robots.robots.hasRules item.url = true ∧
          next = s.setPhase worker (.deciding item) ∨
        ¬ Checked opts item.url ∧
          s.beginWait opts worker item (.waitingPage item) = some next) := by
  simp only [step] at taken
  split at taken
  · rename_i item started
    refine ⟨item, started, ?_⟩
    have checked_iff : (opts.obeyRobots && !isRobotsUrl item.url) = true ↔
        Checked opts item.url := by
      rw [Bool.and_eq_true, Bool.not_eq_true', Checked]
    split at taken
    · rename_i asked
      have checked := checked_iff.mp asked
      split at taken
      · exact .inl ⟨checked, taken⟩
      · rename_i ruled
        exact .inr (.inl ⟨checked, by simpa using ruled, (Option.some.inj taken).symm⟩)
    · rename_i skipped
      exact .inr (.inr ⟨fun checked => skipped (checked_iff.mpr checked), taken⟩)
  · cases taken

/-- A worker enters a phase while the cache keeps what it owes the others. -/
private theorem Settled.enter (held : s.Settled opts site) (worker : Nat) (phase : ProcessPhase)
    (robots : next.robots.Mirrors opts.userAgent site)
    (settles : phase.Settles opts site next.robots worker)
    (entered : next.phases = s.phases.insert worker phase)
    (others : ∀ other current, other ≠ worker → s.phases.lookup other = some current →
      current.Settles opts site s.robots other → current.Settles opts site next.robots other)
    (documents : ∀ doc ∈ next.onDoc, admitted opts site doc.url = true)
    (errors : ∀ entry ∈ next.onErr, served opts site entry.1 = false ∧
      entry.2 = refusal opts site entry.1)
    (fetched : ∀ url ∈ next.fetchedUrls, admitted opts site url = true) :
    next.Settled opts site := by
  refine ⟨robots, fun other current found => ?_, documents, errors, fetched⟩
  rw [entered, Table.lookup_insert_ite] at found
  split at found
  · rename_i same
    subst other
    exact Option.some.inj found ▸ settles
  · rename_i differs
    exact others other current differs found (held.phases other current found)

private theorem Settled.go (held : s.Settled opts site) (worker : Nat) (phase : ProcessPhase)
    (settles : phase.Settles opts site s.robots worker)
    (entered : next.phases = s.phases.insert worker phase) (robots : next.robots = s.robots)
    (documents : ∀ doc ∈ next.onDoc, admitted opts site doc.url = true)
    (errors : ∀ entry ∈ next.onErr, served opts site entry.1 = false ∧
      entry.2 = refusal opts site entry.1)
    (fetched : ∀ url ∈ next.fetchedUrls, admitted opts site url = true) :
    next.Settled opts site :=
  held.enter worker phase (robots ▸ held.robots) (robots ▸ settles) entered
    (fun _ _ _ _ settles => robots ▸ settles) documents errors fetched

private theorem Settled.wait (held : s.Settled opts site) {item : Item} {phase : ProcessPhase}
    (begun : s.beginWait opts worker item phase = some next)
    (settles : phase.Settles opts site s.robots worker) : next.Settled opts site := by
  obtain ⟨politeness, _, rfl⟩ := beginWait_some begun
  exact held.go worker phase settles rfl rfl held.documents held.errors held.fetched

private theorem settles_frame {robots other : RobotsCache} {phase : ProcessPhase}
    (settles : phase.Settles opts site robots worker)
    (same : other.robots = robots.robots)
    (call : other.calls.lookup worker = robots.calls.lookup worker) :
    phase.Settles opts site other worker := by
  cases phase with
  | loading item => simpa only [ProcessPhase.Settles, call] using settles
  | deciding item => simpa only [ProcessPhase.Settles, same] using settles
  | _ => exact settles

private theorem Settled.start (held : s.Settled opts site)
    (taken : step opts layout s (.start worker) = some next) : next.Settled opts site := by
  rcases step_start_checked taken with
    ⟨item, _, ⟨checked, begun⟩ | ⟨checked, ruled, rfl⟩ | ⟨skipped, begun⟩⟩
  · exact held.wait begun checked
  · exact held.go worker (.deciding item) ⟨checked, RobotsTxt.needsLoad_of_hasRules ruled⟩ rfl rfl
      held.documents held.errors held.fetched
  · refine held.wait begun ?_
    rw [Checked, not_and_or, Bool.not_eq_true, Bool.not_eq_false] at skipped
    change admitted opts site item.url = true
    rcases skipped with free | named
    · simp [admitted, free]
    · simp [admitted, named]

private theorem Settled.load (held : s.Settled opts site)
    (taken : step opts layout s (.load worker) = some next) : next.Settled opts site := by
  obtain ⟨item, robots, entered, called, rfl⟩ := step_load taken
  have checked : Checked opts item.url := held.phases worker _ entered
  have mirrors := held.robots.step (.call worker item.url) trivial called
  rcases RobotsCache.step_call called with ⟨free, ⟨_, rfl⟩ | ⟨cached, rfl⟩⟩
  · refine held.enter worker (.loading item) mirrors ?_ (by simp [setPhase]) ?_ held.documents
      held.errors held.fetched
    · exact ⟨checked, .missed (RobotsTxt.originOf item.url), by simp, rfl⟩
    · intro other current differs _ settles
      exact settles_frame settles rfl (by simp [differs])
  · exact held.go worker (.deciding item) ⟨checked, cached⟩ (by simp [setPhase, free]) rfl
      held.documents held.errors held.fetched

private theorem Settled.fetchRobots (held : s.Settled opts site) {res : FetchResult}
    (fair : Serves site s (.fetchRobots worker res))
    (taken : step opts layout s (.fetchRobots worker res) = some next) :
    next.Settled opts site := by
  obtain ⟨robots, fetched, rfl⟩ := step_fetchRobots taken
  have serves : s.robots.Serves site (.fetch worker res) := by
    intro origin missed
    exact fair (RobotsTxt.robotsUrl origin) (by simp [fetchedUrl, missed])
  have mirrors := held.robots.step _ serves fetched
  obtain ⟨origin, missed, rfl⟩ := RobotsCache.step_fetch fetched
  refine ⟨mirrors, fun other phase found => ?_, held.documents, held.errors, held.fetched⟩
  have settles := held.phases other phase found
  by_cases same : other = worker
  · subst other
    cases phase with
    | loading item =>
      obtain ⟨checked, call, present, about⟩ := settles
      cases Option.some.inj (missed.symm.trans present)
      exact ⟨checked, .fetched origin res, by simp, about⟩
    | _ => exact settles
  · exact settles_frame settles rfl (by simp [same])

private theorem Settled.storeRobots (held : s.Settled opts site)
    (taken : step opts layout s (.storeRobots worker) = some next) : next.Settled opts site := by
  obtain ⟨item, robots, loading, stored, rfl⟩ := step_storeRobots taken
  have mirrors := held.robots.step (.store worker) trivial stored
  obtain ⟨origin, res, fetched, rfl⟩ := RobotsCache.step_store stored
  obtain ⟨checked, call, present, about⟩ := held.phases worker _ loading
  cases Option.some.inj (fetched.symm.trans present)
  have loaded := RobotsTxt.loaded_fetchedRules s.robots.robots res
  refine held.enter worker (.deciding item) mirrors ?_ rfl ?_ held.documents held.errors
    held.fetched
  · exact ⟨checked, RobotsTxt.needsLoad_store loaded (.inl about.symm)⟩
  · intro other current differs found settles
    cases current with
    | loading page =>
      obtain ⟨asked, call, present, about⟩ := settles
      exact ⟨asked, call, by simpa [differs] using present, about⟩
    | deciding page => exact ⟨settles.1, RobotsTxt.needsLoad_store loaded (.inr settles.2)⟩
    | _ => exact settles

/-- The cache gives a page the verdict of the site. -/
theorem Settled.allowed (held : s.Settled opts site) {item : Item}
    (deciding : s.phases.lookup worker = some (.deciding item)) :
    s.robots.robots.allowed item.url = admitted opts site item.url := by
  obtain ⟨checked, loaded⟩ := held.phases worker _ deciding
  rw [admitted_of_checked checked]
  exact held.robots.robots.allowed loaded

private theorem Settled.decide (held : s.Settled opts site)
    (taken : step opts layout s (.decide worker) = some next) : next.Settled opts site := by
  obtain ⟨item, deciding, verdict⟩ := step_decide taken
  have same := held.allowed deciding
  rcases verdict with ⟨refused, rfl⟩ | ⟨permitted, begun⟩
  · refine held.go worker (.rejecting item _) ⟨?_, ?_⟩ rfl rfl held.documents held.errors
      held.fetched
    · simp [served, same ▸ refused]
    · simp [refusal, same ▸ refused]
  · have passes : admitted opts site item.url = true := same ▸ permitted
    exact held.wait begun passes

private theorem Settled.fetch (held : s.Settled opts site) {res : FetchResult}
    (fair : Serves site s (.fetch worker res))
    (taken : step opts layout s (.fetch worker res) = some next) : next.Settled opts site := by
  obtain ⟨item, fetching, answered⟩ := step_fetch taken
  have permitted : admitted opts site item.url = true := held.phases worker _ fetching
  cases (fair item.url (by simp [fetchedUrl, fetching]) : res = site item.url)
  have fetched : ∀ url ∈ s.fetchedUrls ++ [item.url], admitted opts site url = true := by
    intro url member
    rcases List.mem_append.mp member with old | new
    · exact held.fetched url old
    · cases List.mem_singleton.mp new
      exact permitted
  rcases answered with ⟨failed, rfl⟩ | ⟨_, rfl⟩
  · refine held.go worker (.rejecting item _) ⟨?_, ?_⟩ rfl rfl held.documents held.errors
      (by simpa [fetchedUrls] using fetched)
    · simp [served, failed]
    · simp [refusal, permitted]
  · exact held.go worker (.indexing item (site item.url).html) permitted rfl rfl held.documents
      held.errors (by simpa [fetchedUrls] using fetched)

private theorem Settled.report (held : s.Settled opts site)
    (taken : step opts layout s (.report worker) = some next) : next.Settled opts site := by
  rcases step_report taken with ⟨item, ⟨error, rejecting, rfl⟩ | ⟨html, id, reporting, rfl⟩⟩
  · have verdict := held.phases worker _ rejecting
    refine held.go worker .finished trivial rfl rfl held.documents ?_ held.fetched
    intro entry member
    rcases List.mem_append.mp member with old | new
    · exact held.errors entry old
    · cases List.mem_singleton.mp new
      exact verdict
  · have permitted : admitted opts site item.url = true := held.phases worker _ reporting
    refine held.go worker (.following item (linksToFollow opts item html)) trivial rfl rfl ?_
      held.errors held.fetched
    intro doc member
    rcases List.mem_append.mp member with old | new
    · exact held.documents doc old
    · cases List.mem_singleton.mp new
      exact permitted

theorem Settled.step (held : s.Settled opts site) (action : CrawlerStep)
    (fair : Serves site s action) (taken : Crawler.step opts layout s action = some next) :
    next.Settled opts site := by
  have aside (phases : next.phases = s.phases) (robots : next.robots = s.robots)
      (onDoc : next.onDoc = s.onDoc) (onErr : next.onErr = s.onErr)
      (fetches : next.fetches = s.fetches) : next.Settled opts site := by
    refine ⟨robots ▸ held.robots, phases ▸ robots ▸ held.phases, onDoc ▸ held.documents,
      onErr ▸ held.errors, ?_⟩
    rw [fetchedUrls, fetches]
    exact held.fetched
  cases action with
  | enqueue url depth priority => cases Option.some.inj taken; exact aside rfl rfl rfl rfl rfl
  | stop => cases Option.some.inj taken; exact aside rfl rfl rfl rfl rfl
  | join =>
    obtain ⟨_, _, rfl⟩ := Option.map_eq_some_iff.mp taken
    exact aside rfl rfl rfl rfl rfl
  | leave worker =>
    obtain ⟨_, _, rfl⟩ := Option.map_eq_some_iff.mp taken
    exact aside rfl rfl rfl rfl rfl
  | tick elapsed => cases Option.some.inj taken; exact aside rfl rfl rfl rfl rfl
  | readLast worker =>
    obtain ⟨_, _, rfl⟩ := Option.map_eq_some_iff.mp taken
    exact aside rfl rfl rfl rfl rfl
  | checkWait worker =>
    obtain ⟨_, _, rfl⟩ := Option.map_eq_some_iff.mp taken
    exact aside rfl rfl rfl rfl rfl
  | pop worker =>
    obtain ⟨crawl, item, _, _, _, rfl⟩ := step_pop taken
    exact held.go worker (.started item) trivial rfl rfl held.documents held.errors held.fetched
  | start worker => exact held.start taken
  | grant worker =>
    obtain ⟨politeness, item, _, ⟨waiting, rfl⟩ | ⟨waiting, rfl⟩⟩ := step_grant taken
    · have checked : Checked opts item.url := held.phases worker _ waiting
      exact held.go worker (.loadDomain item) checked rfl rfl held.documents held.errors
        held.fetched
    · have permitted : admitted opts site item.url = true := held.phases worker _ waiting
      exact held.go worker (.fetching item) permitted rfl rfl held.documents held.errors
        held.fetched
  | load worker => exact held.load taken
  | fetchRobots worker res => exact held.fetchRobots fair taken
  | storeRobots worker => exact held.storeRobots taken
  | decide worker => exact held.decide taken
  | fetch worker res => exact held.fetch fair taken
  | index worker =>
    obtain ⟨item, html, indexing, rfl⟩ := step_index taken
    have permitted : admitted opts site item.url = true := held.phases worker _ indexing
    exact held.go worker (.reporting item html _) permitted rfl rfl held.documents held.errors
      held.fetched
  | report worker => exact held.report taken
  | follow worker =>
    obtain ⟨item, ⟨_, rfl⟩ | ⟨link, links, _, rfl⟩⟩ := step_follow taken
    · exact held.go worker .finished trivial rfl rfl held.documents held.errors held.fetched
    · refine held.go worker _ ?_ rfl rfl held.documents held.errors held.fetched
      split <;> trivial
  | finish worker =>
    obtain ⟨crawl, _, _, rfl⟩ := step_finish taken
    refine ⟨held.robots, fun other phase found => ?_, held.documents, held.errors, held.fetched⟩
    rw [Table.lookup_erase_ite] at found
    split at found
    · cases found
    · exact held.phases other phase found

theorem settled_create (opts : CrawlerOptions) (site : Bytes → FetchResult)
    (bloom : BloomFilter) (clock : Int) : (create opts bloom clock).Settled opts site := by
  refine ⟨⟨⟨rfl, ?_⟩, ?_, ?_⟩, ?_, ?_, ?_, ?_⟩ <;> simp [create, RobotsTxt.entry, fetchedUrls]

theorem settled {bloom : BloomFilter} {clock : Int}
    (reached : (machine opts layout).Reaches (Serves site) (create opts bloom clock) s) :
    s.Settled opts site :=
  reached.invariant (settled_create opts site bloom clock) fun _ action _ held fair taken =>
    held.step action fair taken

theorem Settled.onErr_eq (held : s.Settled opts site) :
    s.onErr = (s.onErr.map (·.1)).map fun url => (url, refusal opts site url) := by
  rw [List.map_map]
  refine (List.map_id _).symm.trans (List.map_congr_left fun entry member => ?_)
  exact Prod.ext rfl (held.errors entry member).2

/-- With a fixed site the verdict on a page is settled by its URL, for any number of workers in
any interleaving: only admitted pages are fetched, the documents are admitted pages that the
site serves, and each error is the one for its page. When the workers have gone, these are all
the accepted pages. -/
theorem verdicts_settled (opts : CrawlerOptions) (layout : Layout) (site : Bytes → FetchResult)
    (bloom : BloomFilter) (clock : Int)
    (reached : (machine opts layout).Reaches (Serves site) (create opts bloom clock) s) :
    (∀ url ∈ s.fetchedUrls, admitted opts site url = true) ∧
    (∀ doc ∈ s.onDoc, served opts site doc.url = true) ∧
    (∀ url error, (url, error) ∈ s.onErr →
      served opts site url = false ∧ error = refusal opts site url) ∧
    ((∀ worker ∈ s.crawl.workers, worker = .returned) →
      (s.onDoc.map (·.url)).Perm (s.crawl.accepted.filter (served opts site)) ∧
      s.onErr.Perm ((s.crawl.accepted.filter fun url => !served opts site url).map
        fun url => (url, refusal opts site url))) := by
  have verdicts := settled reached
  have held := reporting (reached.weaken fun _ _ fair => fair.fromSite)
  have books := accounted reached.reachable
  have documents : ∀ doc ∈ s.onDoc, served opts site doc.url = true := by
    intro doc member
    have ok := held.ok_of_mem (List.mem_map_of_mem member)
    rw [served, verdicts.documents doc member, ok]
    rfl
  refine ⟨verdicts.fetched, documents, fun url error member => verdicts.errors (url, error) member,
    fun returned => ?_⟩
  have all := held.perm_accepted books
    (CrawlState.staffed_of_reachable (crawl_reachable reached.reachable)) returned
  have good : ∀ url ∈ s.onDoc.map (·.url), served opts site url = true := by
    intro url member
    obtain ⟨doc, inside, rfl⟩ := List.mem_map.mp member
    exact documents doc inside
  have bad : ∀ url ∈ s.onErr.map (·.1), served opts site url = false := by
    intro url member
    obtain ⟨entry, inside, rfl⟩ := List.mem_map.mp member
    exact (verdicts.errors entry inside).1
  constructor
  · refine .trans (.of_eq ?_) (all.filter _)
    rw [reported, List.filter_append, List.filter_eq_self.mpr good,
      List.filter_eq_nil_iff.mpr fun url member => by simp [bad url member], List.append_nil]
  · have errors : (s.onErr.map (·.1)).Perm
        (s.crawl.accepted.filter fun url => !served opts site url) := by
      refine .trans (.of_eq ?_) (all.filter _)
      rw [reported, List.filter_append,
        List.filter_eq_nil_iff.mpr fun url member => by simp [good url member],
        List.filter_eq_self.mpr fun url member => by simp [bad url member], List.nil_append]
    exact .trans (.of_eq verdicts.onErr_eq) (errors.map _)

/-- A page that links to one which the host's policy closes. -/
def guardedSite (url : Bytes) : FetchResult :=
  if url = ascii "http://a/robots.txt" then
    { ok := true, html := ascii "User-agent: *\nDisallow: /x" }
  else { ok := true, html := ascii "<a href='/x'>alpha</a>" }

def eagerOptions : CrawlerOptions :=
  { domainDelay := 0 }

/-- A worker loads the policy and fetches the page, another is refused the link. -/
def guardedSteps : List CrawlerStep :=
  [.enqueue (ascii "http://a/") 0 (-1), .pop 0, .start 0, .readLast 0, .checkWait 0, .grant 0,
    .load 0, .fetchRobots 0 (guardedSite (ascii "http://a/robots.txt")), .storeRobots 0, .decide 0,
    .readLast 0, .checkWait 0, .grant 0, .fetch 0 (guardedSite (ascii "http://a/")), .index 0,
    .report 0, .follow 0, .follow 0, .finish 0, .pop 1, .start 1, .decide 1, .report 1, .finish 1,
    .stop, .leave 0, .leave 1]

theorem verdicts_settled_guardedSite :
    ∃ s, (machine eagerOptions fun _ => .stored).Reaches (Serves guardedSite)
        (create eagerOptions (.create (fun _ => 0) 64 1) 0) s ∧
      s.onErr = [(ascii "http://a/x", ascii "blocked by robots.txt")] ∧
      s.onErr.Perm ((s.crawl.accepted.filter fun url =>
          !served eagerOptions guardedSite url).map
        fun url => (url, refusal eagerOptions guardedSite url)) := by
  obtain ⟨s, reached, returned, both⟩ : ∃ s, (machine eagerOptions fun _ => .stored).Reaches
      (Serves guardedSite) (create eagerOptions (.create (fun _ => 0) 64 1) 0) s ∧
      (∀ worker ∈ s.crawl.workers, worker = .returned) ∧
        s.onErr = [(ascii "http://a/x", ascii "blocked by robots.txt")] :=
    Machine.exists_reaches_of_run guardedSteps (by decide +kernel)
  have told := verdicts_settled eagerOptions (fun _ => .stored) guardedSite
    (.create (fun _ => 0) 64 1) 0 reached
  exact ⟨s, reached, both, (told.2.2.2 returned).2⟩

end Crawler

end ShadowSe

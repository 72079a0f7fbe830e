import ShadowSe.Crawl.CrawlerRun

namespace ShadowSe

open Support

namespace RobotsTxt

private theorem any_storeEntry {origin : Bytes} {rules : DomainRules} (loaded : rules.loaded = true)
    (domains : List (Bytes × DomainRules)) (query : Bytes)
    (cached : query = origin ∨ (domains.any fun (o, r) => o == query && r.loaded) = true) :
    ((storeEntry origin rules domains).any fun (o, r) => o == query && r.loaded) = true := by
  induction domains with
  | nil =>
    rcases cached with rfl | none
    · simp [storeEntry, loaded]
    · simp at none
  | cons head rest ih =>
    obtain ⟨o, r⟩ := head
    by_cases first : o = origin
    · subst o
      rw [storeEntry, if_pos rfl, List.any_cons, Bool.or_eq_true]
      rcases cached with rfl | present
      · exact .inl (by simp [loaded])
      · rw [List.any_cons, Bool.or_eq_true] at present
        rcases present with here | later
        · exact .inl (by simp_all)
        · exact .inr later
    · rw [storeEntry, if_neg first, List.any_cons, Bool.or_eq_true]
      rcases cached with same | present
      · exact .inr (ih (.inl same))
      · rw [List.any_cons, Bool.or_eq_true] at present
        exact present.imp_right fun later => ih (.inr later)

/-- A loaded origin stays loaded, and a store loads its own. -/
theorem needsLoad_store {robots : RobotsTxt} {origin query : Bytes} {rules : DomainRules}
    (loaded : rules.loaded = true)
    (cached : query = origin ∨ robots.needsLoad query = false) :
    (robots.store origin rules).needsLoad query = false := by
  by_cases empty : query.isEmpty = true
  · simp [needsLoad, empty]
  · have present := any_storeEntry loaded robots.domains_ query
      (cached.imp_right fun cached => by simpa [needsLoad, empty] using cached)
    simp only [needsLoad, store, present, Bool.not_true, Bool.and_false]

theorem loaded_fetchedRules (robots : RobotsTxt) (res : FetchResult) :
    (robots.fetchedRules res).loaded = true := by
  unfold fetchedRules
  split <;> rfl

theorem needsLoad_of_hasRules {robots : RobotsTxt} {url : Bytes}
    (ruled : robots.hasRules url = true) : robots.needsLoad (originOf url) = false := by
  unfold hasRules at ruled
  split at ruled
  · cases ruled
  · rename_i rules found
    rw [Bool.and_eq_true] at ruled
    obtain ⟨before, after, split, _⟩ := List.lookup_eq_some_iff.mp found
    simp [needsLoad, split, ruled.1]

/-- The URL is its origin's robots.txt, or the policy of its origin was asked for and
permits it. -/
def Clears (robots : RobotsTxt) (url : Bytes) : Prop :=
  url = robotsUrl (originOf url) ∨
    robots.needsLoad (originOf url) = false ∧ robots.allowed url = true

instance (robots : RobotsTxt) (url : Bytes) : Decidable (robots.Clears url) :=
  inferInstanceAs (Decidable (_ ∨ _ ∧ _))

end RobotsTxt

/-- The origin a call of `loadDomain` is about. -/
def LoadPhase.origin : LoadPhase → Bytes
  | .missed origin | .fetched origin _ => origin

/-- The page that a worker has decided to fetch. -/
def ProcessPhase.cleared : ProcessPhase → Option Item
  | .waitingPage item | .fetching item => some item
  | _ => none

/-- What the robots cache owes to a worker in each phase. -/
def ProcessPhase.Sound (robots : RobotsCache) (worker : Nat) : ProcessPhase → Prop
  | .loading item => ∃ call, robots.calls.lookup worker = some call ∧
      call.origin = RobotsTxt.originOf item.url
  | .deciding item => robots.robots.needsLoad (RobotsTxt.originOf item.url) = false
  | .waitingPage item | .fetching item => robots.robots.Clears item.url
  | .started _ | .waitingLoad _ | .loadDomain _ | .rejecting .. | .indexing .. | .reporting ..
  | .following .. | .finished => True

namespace Crawler

/-- The page on which a step makes a worker start. -/
def starting (s : Crawler) : CrawlerStep → Option Item
  | .start worker =>
    match s.phases.lookup worker with
    | some (.started item) => some item
    | _ => none
  | _ => none

/-- The origin and the fetch of a robots policy that a step stores. -/
def storing (s : Crawler) : CrawlerStep → Option (Bytes × FetchResult)
  | .storeRobots worker => s.robots.storing (.store worker)
  | _ => none

/-- No URL passes for a robots.txt but the one of its origin, and no policy is stored
against a page that is about to be fetched. -/
def Compliant (s : Crawler) (action : CrawlerStep) : Prop :=
  (∀ item ∈ s.starting action, isRobotsUrl item.url = true →
    item.url = RobotsTxt.robotsUrl (RobotsTxt.originOf item.url)) ∧
  ∀ stored ∈ s.storing action, ∀ phase ∈ Table.values s.phases, ∀ item ∈ phase.cleared,
    RobotsTxt.originOf item.url = stored.1 →
      (s.robots.robots.store stored.1 (s.robots.robots.fetchedRules stored.2)).Clears item.url

instance (s : Crawler) (action : CrawlerStep) : Decidable (s.Compliant action) :=
  inferInstanceAs (Decidable ((∀ item ∈ _, _ → _ = _) ∧
    ∀ stored ∈ _, ∀ phase ∈ _, ∀ item ∈ ProcessPhase.cleared phase, _ = _ →
      RobotsTxt.Clears _ _))

/-- Every page fetched so far, and every page about to be fetched, is cleared. -/
structure Complies (s : Crawler) : Prop where
  phases : ∀ worker phase, s.phases.lookup worker = some phase → phase.Sound s.robots worker
  fetches : ∀ fetch ∈ s.fetches, fetch.robots.Clears fetch.url

variable {opts : CrawlerOptions} {layout : Layout} {s next : Crawler} {worker : Nat}

/-- A worker enters a phase while the cache keeps what it owes the others. -/
private theorem Complies.enter (held : s.Complies) (worker : Nat) (phase : ProcessPhase)
    (sound : phase.Sound next.robots worker)
    (entered : next.phases = s.phases.insert worker phase)
    (others : ∀ other current, other ≠ worker → s.phases.lookup other = some current →
      current.Sound s.robots other → current.Sound next.robots other)
    (fetches : ∀ fetch ∈ next.fetches, fetch.robots.Clears fetch.url) : next.Complies := by
  refine ⟨fun other current found => ?_, fetches⟩
  rw [entered, Table.lookup_insert_ite] at found
  split at found
  · rename_i same
    subst other
    exact Option.some.inj found ▸ sound
  · rename_i differs
    exact others other current differs found (held.phases other current found)

private theorem sound_frame {robots other : RobotsCache} {phase : ProcessPhase}
    (sound : phase.Sound robots worker) (same : other.robots = robots.robots)
    (call : other.calls.lookup worker = robots.calls.lookup worker) : phase.Sound other worker := by
  cases phase with
  | loading item => simpa only [ProcessPhase.Sound, call] using sound
  | deciding item => simpa only [ProcessPhase.Sound, same] using sound
  | waitingPage item => simpa only [ProcessPhase.Sound, same] using sound
  | fetching item => simpa only [ProcessPhase.Sound, same] using sound
  | _ => trivial

private theorem Complies.wait (held : s.Complies) {item : Item} {phase : ProcessPhase}
    (begun : s.beginWait opts worker item phase = some next)
    (sound : phase.Sound s.robots worker) : next.Complies := by
  obtain ⟨politeness, _, rfl⟩ := beginWait_some begun
  exact held.enter worker phase sound rfl (fun _ _ _ _ sound => sound) held.fetches

private theorem Complies.start (held : s.Complies) (obeys : opts.obeyRobots = true)
    (meets : s.Compliant (.start worker))
    (taken : step opts layout s (.start worker) = some next) : next.Complies := by
  rcases step_start taken with ⟨item, started, ⟨_, begun⟩ | ⟨_, ruled, rfl⟩ | ⟨skipped, begun⟩⟩
  · exact held.wait begun trivial
  · exact held.enter worker (.deciding item) (RobotsTxt.needsLoad_of_hasRules ruled) rfl
      (fun _ _ _ _ sound => sound) held.fetches
  · have named : isRobotsUrl item.url = true := by simpa [obeys] using skipped
    have cleared : s.robots.robots.Clears item.url :=
      .inl (meets.1 item (by simp [starting, started]) named)
    exact held.wait begun cleared

private theorem Complies.load (held : s.Complies)
    (taken : step opts layout s (.load worker) = some next) : next.Complies := by
  obtain ⟨item, robots, _, called, rfl⟩ := step_load taken
  rcases RobotsCache.step_call called with ⟨free, ⟨needs, rfl⟩ | ⟨cached, rfl⟩⟩
  · refine held.enter worker (.loading item) ?_ (by simp [setPhase]) ?_ held.fetches
    · exact ⟨.missed (RobotsTxt.originOf item.url), by simp, rfl⟩
    · intro other current differs _ sound
      exact sound_frame sound rfl (by simp [differs])
  · refine held.enter worker (.deciding item) cached (by simp [setPhase, free])
      (fun _ _ _ _ sound => sound) held.fetches

private theorem Complies.fetchRobots (held : s.Complies) {res : FetchResult}
    (taken : step opts layout s (.fetchRobots worker res) = some next) : next.Complies := by
  obtain ⟨robots, fetched, rfl⟩ := step_fetchRobots taken
  obtain ⟨origin, missed, rfl⟩ := RobotsCache.step_fetch fetched
  refine ⟨fun other phase found => ?_, held.fetches⟩
  have sound := held.phases other phase found
  by_cases same : other = worker
  · subst other
    cases phase with
    | loading item =>
      obtain ⟨call, present, about⟩ := sound
      cases Option.some.inj (missed.symm.trans present)
      exact ⟨.fetched origin res, by simp, about⟩
    | _ => exact sound
  · exact sound_frame sound rfl (by simp [same])

/-- A store loads the origin of the worker that makes it and clears the pages that are
about to be fetched. -/
private theorem Complies.storeRobots (held : s.Complies)
    (meets : s.Compliant (.storeRobots worker))
    (taken : step opts layout s (.storeRobots worker) = some next) : next.Complies := by
  obtain ⟨item, robots, loading, stored, rfl⟩ := step_storeRobots taken
  obtain ⟨origin, res, fetched, rfl⟩ := RobotsCache.step_store stored
  obtain ⟨call, present, about⟩ := held.phases worker _ loading
  cases Option.some.inj (fetched.symm.trans present)
  have loaded := RobotsTxt.loaded_fetchedRules s.robots.robots res
  refine held.enter worker (.deciding item) ?_ rfl ?_ held.fetches
  · exact RobotsTxt.needsLoad_store loaded (.inl about.symm)
  · intro other current differs found sound
    have spared := meets.2 (origin, res) (by simp [Crawler.storing, RobotsCache.storing, fetched])
      current (Table.mem_values_iff.mpr ⟨other, found⟩)
    have kept (item : Item) (cleared : item ∈ current.cleared)
        (sound : s.robots.robots.Clears item.url) :
        (s.robots.robots.store origin (s.robots.robots.fetchedRules res)).Clears item.url := by
      by_cases own : RobotsTxt.originOf item.url = origin
      · exact spared item cleared own
      · refine sound.imp_right fun before => ⟨?_, ?_⟩
        · exact RobotsTxt.needsLoad_store loaded (.inr before.1)
        · rw [← before.2]
          exact RobotsTxt.allowed_congr (by rw [RobotsTxt.entry_store, if_neg own])
    cases current with
    | loading other =>
      obtain ⟨call, present, about⟩ := sound
      exact ⟨call, by simpa [differs] using present, about⟩
    | deciding page => exact RobotsTxt.needsLoad_store loaded (.inr sound)
    | waitingPage page => exact kept page rfl sound
    | fetching page => exact kept page rfl sound
    | _ => trivial

private theorem Complies.fetch (held : s.Complies) {res : FetchResult}
    (taken : step opts layout s (.fetch worker res) = some next) : next.Complies := by
  obtain ⟨item, fetching, same⟩ := step_fetch taken
  have cleared : s.robots.robots.Clears item.url := held.phases worker _ fetching
  have fetches : ∀ fetch ∈ s.fetches ++ [⟨item.url, s.robots.robots⟩],
      fetch.robots.Clears fetch.url := by
    intro fetch member
    rcases List.mem_append.mp member with old | new
    · exact held.fetches fetch old
    · cases List.mem_singleton.mp new
      exact cleared
  rcases same with ⟨_, rfl⟩ | ⟨_, rfl⟩
  · exact held.enter worker (.rejecting item res.error) trivial rfl
      (fun _ _ _ _ sound => sound) fetches
  · exact held.enter worker (.indexing item res.html) trivial rfl (fun _ _ _ _ sound => sound)
      fetches

private theorem Complies.finish (held : s.Complies)
    (taken : step opts layout s (.finish worker) = some next) : next.Complies := by
  obtain ⟨crawl, _, _, rfl⟩ := step_finish taken
  refine ⟨fun other phase found => ?_, held.fetches⟩
  rw [Table.lookup_erase_ite] at found
  split at found
  · cases found
  · exact held.phases other phase found

theorem Complies.step (held : s.Complies) (obeys : opts.obeyRobots = true)
    (action : CrawlerStep) (meets : s.Compliant action)
    (taken : Crawler.step opts layout s action = some next) : next.Complies := by
  cases action with
  | enqueue url depth priority => cases Option.some.inj taken; exact ⟨held.phases, held.fetches⟩
  | stop => cases Option.some.inj taken; exact ⟨held.phases, held.fetches⟩
  | join =>
    obtain ⟨crawl, _, rfl⟩ := Option.map_eq_some_iff.mp taken
    exact ⟨held.phases, held.fetches⟩
  | tick elapsed => cases Option.some.inj taken; exact ⟨held.phases, held.fetches⟩
  | leave worker =>
    obtain ⟨crawl, _, rfl⟩ := Option.map_eq_some_iff.mp taken
    exact ⟨held.phases, held.fetches⟩
  | readLast worker =>
    obtain ⟨politeness, _, rfl⟩ := Option.map_eq_some_iff.mp taken
    exact ⟨held.phases, held.fetches⟩
  | checkWait worker =>
    obtain ⟨politeness, _, rfl⟩ := Option.map_eq_some_iff.mp taken
    exact ⟨held.phases, held.fetches⟩
  | pop worker =>
    obtain ⟨crawl, item, _, _, _, rfl⟩ := step_pop taken
    exact held.enter worker (.started item) trivial rfl (fun _ _ _ _ sound => sound) held.fetches
  | start worker => exact held.start obeys meets taken
  | grant worker =>
    rcases step_grant taken with ⟨politeness, item, _, ⟨_, rfl⟩ | ⟨waiting, rfl⟩⟩
    · exact held.enter worker (.loadDomain item) trivial rfl (fun _ _ _ _ sound => sound)
        held.fetches
    · have cleared : s.robots.robots.Clears item.url := held.phases worker _ waiting
      exact held.enter worker (.fetching item) cleared rfl (fun _ _ _ _ sound => sound)
        held.fetches
  | load worker => exact held.load taken
  | fetchRobots worker res => exact held.fetchRobots taken
  | storeRobots worker => exact held.storeRobots meets taken
  | decide worker =>
    rcases step_decide taken with ⟨item, deciding, ⟨_, rfl⟩ | ⟨permitted, begun⟩⟩
    · exact held.enter worker (.rejecting item (ascii "blocked by robots.txt")) trivial rfl
        (fun _ _ _ _ sound => sound) held.fetches
    · have cleared : s.robots.robots.Clears item.url :=
        .inr ⟨held.phases worker _ deciding, permitted⟩
      exact held.wait begun cleared
  | fetch worker res => exact held.fetch taken
  | index worker =>
    obtain ⟨item, html, _, rfl⟩ := step_index taken
    exact held.enter worker (.reporting item html _) trivial rfl (fun _ _ _ _ sound => sound)
      held.fetches
  | report worker =>
    obtain ⟨item, ⟨_, _, rfl⟩ | ⟨html, _, _, rfl⟩⟩ := step_report taken
    · exact held.enter worker .finished trivial rfl (fun _ _ _ _ sound => sound) held.fetches
    · exact held.enter worker (.following item (linksToFollow opts item html)) trivial rfl
        (fun _ _ _ _ sound => sound) held.fetches
  | follow worker =>
    rcases step_follow taken with ⟨item, ⟨_, rfl⟩ | ⟨link, links, _, rfl⟩⟩
    · exact held.enter worker .finished trivial rfl (fun _ _ _ _ sound => sound) held.fetches
    · refine held.enter worker _ ?_ rfl (fun _ _ _ _ sound => sound) held.fetches
      split <;> trivial
  | finish worker => exact held.finish taken

/-- With robots.txt obeyed, in every compliant run each page handed to the fetcher is its
origin's robots.txt or is permitted, at that moment, by the policy loaded for its origin. -/
theorem pages_cleared (opts : CrawlerOptions) (layout : Layout) (bloom : BloomFilter)
    (clock : Int) (obeys : opts.obeyRobots = true)
    (reached : (machine opts layout).Reaches Compliant (create opts bloom clock) s) :
    ∀ fetch ∈ s.fetches, fetch.url = RobotsTxt.robotsUrl (RobotsTxt.originOf fetch.url) ∨
      fetch.robots.needsLoad (RobotsTxt.originOf fetch.url) = false ∧
        fetch.robots.allowed fetch.url = true := by
  have complies : s.Complies :=
    reached.invariant (by constructor <;> simp [create]) fun _ action _ held meets taken =>
      held.step obeys action meets taken
  exact complies.fetches

/-- A worker loads the policy of a host, which closes one directory, and may fetch a page. -/
def loadPolicy : List CrawlerStep :=
  [.enqueue (ascii "http://h/p") 0 (-1), .pop 0, .start 0, .readLast 0, .checkWait 0, .grant 0,
    .load 0, .fetchRobots 0 RobotsCache.secretPolicy, .storeRobots 0, .decide 0]

/-- After its wait the page is fetched. -/
def fetchPage : List CrawlerStep :=
  loadPolicy ++ [.tick 100000000, .readLast 0, .checkWait 0, .grant 0, .fetch 0 { ok := true }]

theorem pages_cleared_fetchPage :
    ∃ s, ((machine {} fun _ => .stored).restrict Compliant).run
        (create {} (.create (fun _ => 0) 64 1) 1000000000) fetchPage = some s ∧
      s.fetches.length = 1 ∧
      ∀ fetch ∈ s.fetches, fetch.url = RobotsTxt.robotsUrl (RobotsTxt.originOf fetch.url) ∨
        fetch.robots.needsLoad (RobotsTxt.originOf fetch.url) = false ∧
          fetch.robots.allowed fetch.url = true :=
  ⟨_, rfl, rfl, pages_cleared {} (fun _ => .stored) (.create (fun _ => 0) 64 1) 1000000000 rfl
    (Machine.reaches_of_run fetchPage rfl)⟩

/-- A page in the closed directory whose query names robots.txt. -/
def disguisedPage : Bytes :=
  ascii "http://h/secret/?robots.txt"

/-- Another worker takes the page and fetches it without a check. -/
def fetchDisguised : List CrawlerStep :=
  loadPolicy ++ [.enqueue disguisedPage 0 (-1), .pop 1, .start 1, .tick 100000000, .readLast 1,
    .checkWait 1, .grant 1, .fetch 1 { ok := true }]

set_option maxRecDepth 2000 in
theorem fetchDisguised_not_cleared :
    ∃ s, (machine {} fun _ => .stored).run
        (create {} (.create (fun _ => 0) 64 1) 1000000000) fetchDisguised = some s ∧
      ∃ fetch ∈ s.fetches, fetch.url ≠ RobotsTxt.robotsUrl (RobotsTxt.originOf fetch.url) ∧
        fetch.robots.needsLoad (RobotsTxt.originOf fetch.url) = false ∧
          fetch.robots.allowed fetch.url = false :=
  ⟨_, rfl, by decide⟩

end Crawler

end ShadowSe

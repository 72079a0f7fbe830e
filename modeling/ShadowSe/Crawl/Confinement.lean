import Mathlib.Data.List.DropRight
import ShadowSe.Crawl.Compliance

namespace ShadowSe

open Support

/-- `normalizeUrl`. -/
def normalizeUrl (input : Bytes) : Bytes :=
  let url := trimWs input
  if url = [] then []
  else if !url.startsWith (ascii "http://") && !url.startsWith (ascii "https://") then
    ascii "http://" ++ url
  else url

def HttpUrl (url : Bytes) : Prop :=
  url.startsWith (ascii "http://") = true ∨ url.startsWith (ascii "https://") = true

instance (url : Bytes) : Decidable (HttpUrl url) :=
  inferInstanceAs (Decidable (_ ∨ _))

theorem httpUrl_iff {url : Bytes} :
    HttpUrl url ↔ ∃ rest, url = ascii "http://" ++ rest ∨ url = ascii "https://" ++ rest := by
  have starts (start : Bytes) : url.startsWith start = true ↔ ∃ rest, url = start ++ rest :=
    List.isPrefixOf_iff_prefix.trans (exists_congr fun rest => eq_comm)
  rw [HttpUrl, starts, starts, exists_or]

theorem normalizeUrl_eq {input : Bytes} (nonempty : trimWs input ≠ []) :
    normalizeUrl input =
      if HttpUrl (trimWs input) then trimWs input else ascii "http://" ++ trimWs input := by
  rw [normalizeUrl, if_neg nonempty]
  by_cases http : HttpUrl (trimWs input)
  · rw [if_pos http, if_neg]
    rcases http with plain | secure
    · simp [plain]
    · simp [secure]
  · rw [if_neg http, if_pos]
    simpa [HttpUrl] using http

/-- What is accepted from a user is an HTTP URL. -/
theorem httpUrl_normalizeUrl {input : Bytes} (nonempty : normalizeUrl input ≠ []) :
    HttpUrl (normalizeUrl input) := by
  have named : trimWs input ≠ [] := fun blank => nonempty (if_pos blank)
  rw [normalizeUrl_eq named]
  by_cases http : HttpUrl (trimWs input)
  · rwa [if_pos http]
  · rw [if_neg http]
    exact httpUrl_iff.mpr ⟨_, .inl rfl⟩

theorem trimWs_eq_rdropWhile (s : Bytes) :
    trimWs s = (s.dropWhile isspace).rdropWhile isspace := rfl

theorem dropWhile_trimWs (s : Bytes) : (trimWs s).dropWhile isspace = trimWs s := by
  rw [trimWs_eq_rdropWhile, List.dropWhile_eq_self_iff]
  intro nonempty
  have front := List.rdropWhile_prefix isspace (l := s.dropWhile isspace)
  rw [front.getElem nonempty]
  exact List.dropWhile_get_zero_not isspace s (nonempty.trans_le front.length_le)

theorem rdropWhile_trimWs (s : Bytes) : (trimWs s).rdropWhile isspace = trimWs s := by
  rw [trimWs_eq_rdropWhile, List.rdropWhile_idempotent]

theorem trimWs_trimWs (s : Bytes) : trimWs (trimWs s) = trimWs s := by
  rw [trimWs_eq_rdropWhile (trimWs s), dropWhile_trimWs, rdropWhile_trimWs]

theorem normalizeUrl_of_http {url : Bytes} (http : HttpUrl url) (trimmed : trimWs url = url) :
    normalizeUrl url = url := by
  have nonempty : url ≠ [] := by
    rintro rfl
    simp [HttpUrl, Bytes.startsWith, ascii] at http
  rw [normalizeUrl_eq (trimmed.symm ▸ nonempty), trimmed, if_pos http]

theorem normalizeUrl_normalizeUrl (input : Bytes) :
    normalizeUrl (normalizeUrl input) = normalizeUrl input := by
  by_cases empty : normalizeUrl input = []
  · rw [empty]
    rfl
  have named : trimWs input ≠ [] := fun blank => empty (if_pos blank)
  refine normalizeUrl_of_http (httpUrl_normalizeUrl empty) ?_
  rw [normalizeUrl_eq named]
  split
  · exact trimWs_trimWs input
  · have last := List.rdropWhile_eq_self_iff.mp (rdropWhile_trimWs input) named
    rw [trimWs_eq_rdropWhile]
    refine List.rdropWhile_eq_self_iff.mpr fun _ => ?_
    have started : (ascii "http://" ++ trimWs input).dropWhile isspace =
        ascii "http://" ++ trimWs input := rfl
    simpa only [started, List.getLast_append_of_ne_nil _ named] using last

theorem httpUrl_resolveLink {scheme host dir raw : Bytes}
    (http : scheme = ascii "http" ∨ scheme = ascii "https")
    (nonempty : resolveLink scheme host dir raw ≠ []) :
    HttpUrl (resolveLink scheme host dir raw) := by
  have absolute (rest : Bytes) : HttpUrl (scheme ++ (ascii "://" ++ rest)) := by
    rcases http with rfl | rfl
    · exact httpUrl_iff.mpr ⟨rest, .inl rfl⟩
    · exact httpUrl_iff.mpr ⟨rest, .inr rfl⟩
  cases raw with
  | nil => exact absurd rfl nonempty
  | cons first tail =>
    simp only [resolveLink] at nonempty ⊢
    split
    · rename_i whole
      exact (Bool.or_eq_true _ _).mp whole
    · split
      · -- "//host/path" takes the scheme of the base.
        rename_i relative
        obtain ⟨rest, split⟩ := List.isPrefixOf_iff_prefix.mp relative
        rw [← split, List.append_assoc]
        exact absolute rest
      · split
        · simp_all
        · split
          · rw [List.append_assoc, List.append_assoc]
            exact absolute _
          · rw [List.append_assoc, List.append_assoc, List.append_assoc]
            exact absolute _

theorem httpUrl_linkLoop {html scheme host dir link : Bytes} {fuel pos : Nat}
    (http : scheme = ascii "http" ∨ scheme = ascii "https")
    (found : link ∈ linkLoop html scheme host dir fuel pos) : HttpUrl link := by
  induction fuel generalizing pos with
  | zero => cases found
  | succ fuel ih =>
    simp only [linkLoop] at found
    split at found
    · cases found
    · split at found
      · cases found
      · split at found
        · exact ih found
        · split at found
          · exact ih found
          · rename_i nonempty
            rcases List.mem_cons.mp found with rfl | later
            · exact httpUrl_resolveLink http nonempty
            · exact ih later

theorem httpUrl_links {html baseUrl link : Bytes} (found : link ∈ htmlExtractLinks html baseUrl) :
    HttpUrl link := by
  unfold htmlExtractLinks at found
  simp only at found
  split at found
  · cases found
  · rename_i known
    exact httpUrl_linkLoop (or_iff_not_imp_left.mpr fun other => by simpa [other] using known) found

theorem httpUrl_robotsUrl {url : Bytes} (http : HttpUrl url)
    (nonempty : RobotsTxt.originOf url ≠ []) :
    HttpUrl (RobotsTxt.robotsUrl (RobotsTxt.originOf url)) := by
  have kept {scheme rest : Bytes} {at_ : Nat} (split : url = scheme ++ rest)
      (found : url.find (ascii "://") 0 = some at_) (length : scheme.length = at_ + 3) :
      ∃ host, RobotsTxt.robotsUrl (RobotsTxt.originOf url) = scheme ++ host := by
    simp only [RobotsTxt.originOf, found] at nonempty ⊢
    split at nonempty
    · exact absurd rfl nonempty
    · rename_i named
      rw [if_neg named, RobotsTxt.robotsUrl, List.append_assoc]
      refine ⟨_, congrArg (· ++ _) ?_⟩
      simp [Bytes.substr, split, ← length]
  obtain ⟨rest, split⟩ := httpUrl_iff.mp http
  rcases split with split | split
  · obtain ⟨host, same⟩ := kept split (by rw [split]; rfl) rfl
    exact httpUrl_iff.mpr ⟨host, .inl same⟩
  · obtain ⟨host, same⟩ := kept split (by rw [split]; rfl) rfl
    exact httpUrl_iff.mpr ⟨host, .inr same⟩

/-- What a worker still has to do with URLs is within the condition. -/
def ProcessPhase.Within (good : Bytes → UInt32 → Prop) : ProcessPhase → Prop
  | .started item | .waitingLoad item | .loadDomain item | .loading item | .deciding item
  | .waitingPage item | .fetching item | .indexing item _ | .reporting item _ _ =>
    good item.url item.depth
  | .following item links => ∀ link ∈ links, good link (item.depth + 1)
  | .rejecting .. | .finished => True

section Inherited

variable {opts : CrawlerOptions} {layout : Layout} {good : Bytes → UInt32 → Prop}

namespace CrawlState

/-- Every page queued or held by a worker is within the condition. -/
structure Confined (good : Bytes → UInt32 → Prop) (s : CrawlState) : Prop where
  queued : ∀ item ∈ s.frontier.queue_, good item.url item.depth
  held : ∀ item, .processing item ∈ s.workers → good item.url item.depth

variable {s next : CrawlState}

theorem Confined.enqueue (held : s.Confined good) {url : Bytes} {depth : UInt32}
    (sound : good url depth) (priority : Int) :
    (s.enqueue opts url depth priority).Confined good := by
  rcases enqueue_cases opts s url depth priority with same | ⟨_, _, _, called⟩
  · rwa [same]
  rw [called]
  constructor
  · intro item member
    rcases (List.mem_orderedInsert _).mp member with rfl | old
    · exact sound
    · exact held.queued item old
  · intro item member
    refine held.held item ?_
    simp only at member
    split at member
    · exact member
    · simpa using member

theorem Confined.step (held : s.Confined good) (action : CrawlStep)
    (sound : ∀ url depth priority, action = .enqueue url depth priority → good url depth)
    (taken : CrawlState.step opts s action = some next) : next.Confined good := by
  cases action with
  | enqueue url depth priority =>
    cases Option.some.inj taken
    exact held.enqueue (sound url depth priority rfl) priority
  | stop => cases Option.some.inj taken; exact ⟨held.queued, held.held⟩
  | pop worker =>
    obtain ⟨item, rest, _, queue, rfl⟩ := step_pop taken
    have queued := held.queued
    rw [queue, List.forall_mem_cons] at queued
    refine ⟨queued.2, fun other member => ?_⟩
    rcases List.mem_or_eq_of_mem_set member with old | same
    · exact held.held other old
    · cases same
      exact queued.1
  | leave worker =>
    obtain ⟨_, _, _, rfl⟩ := step_leave taken
    refine ⟨held.queued, fun item member => ?_⟩
    exact held.held item ((List.mem_or_eq_of_mem_set member).resolve_right nofun)
  | complete worker =>
    obtain ⟨_, _, rfl⟩ := step_complete taken
    refine ⟨held.queued, fun item member => ?_⟩
    exact held.held item ((List.mem_or_eq_of_mem_set member).resolve_right nofun)
  | join =>
    obtain ⟨_, _, rfl⟩ := step_join taken
    exact ⟨held.queued, fun _ member => absurd member List.not_mem_nil⟩

end CrawlState

namespace Crawler

/-- Every page in the crawl, every link on its way and every origin whose policy is being
loaded is within the condition. -/
structure Confined (good : Bytes → UInt32 → Prop) (s : Crawler) : Prop where
  crawl : s.crawl.Confined good
  phases : ∀ worker phase, s.phases.lookup worker = some phase → phase.Within good
  calls : ∀ worker call, s.robots.calls.lookup worker = some call → call.origin ≠ [] ∧
    ∃ url depth, good url depth ∧ call.origin = RobotsTxt.originOf url

variable {s next : Crawler} {worker : Nat}

private theorem Confined.enter (held : s.Confined good) (phase : ProcessPhase)
    (sound : phase.Within good) (entered : next.phases = s.phases.insert worker phase)
    (crawl : next.crawl.Confined good)
    (calls : ∀ worker call, next.robots.calls.lookup worker = some call → call.origin ≠ [] ∧
      ∃ url depth, good url depth ∧ call.origin = RobotsTxt.originOf url) :
    next.Confined good := by
  refine ⟨crawl, fun other current found => ?_, calls⟩
  rw [entered, Table.lookup_insert_ite] at found
  split at found
  · exact Option.some.inj found ▸ sound
  · exact held.phases other current found

private theorem Confined.wait (held : s.Confined good) {item : Item} (phase : ProcessPhase)
    (sound : phase.Within good) (begun : s.beginWait opts worker item phase = some next) :
    next.Confined good := by
  obtain ⟨politeness, _, rfl⟩ := beginWait_some begun
  exact held.enter phase sound rfl held.crawl held.calls

private theorem Confined.start (held : s.Confined good)
    (taken : step opts layout s (.start worker) = some next) : next.Confined good := by
  obtain ⟨item, started, entered⟩ := step_start taken
  have sound : good item.url item.depth := held.phases worker _ started
  rcases entered with ⟨_, begun⟩ | ⟨_, _, rfl⟩ | ⟨_, begun⟩
  · exact held.wait (.waitingLoad item) sound begun
  · exact held.enter (.deciding item) sound rfl held.crawl held.calls
  · exact held.wait (.waitingPage item) sound begun

private theorem Confined.grant (held : s.Confined good)
    (taken : step opts layout s (.grant worker) = some next) : next.Confined good := by
  obtain ⟨politeness, item, _, entered⟩ := step_grant taken
  rcases entered with ⟨waiting, rfl⟩ | ⟨waiting, rfl⟩
  · have sound : good item.url item.depth := held.phases worker _ waiting
    exact held.enter (.loadDomain item) sound rfl held.crawl held.calls
  · have sound : good item.url item.depth := held.phases worker _ waiting
    exact held.enter (.fetching item) sound rfl held.crawl held.calls

private theorem Confined.load (held : s.Confined good)
    (taken : step opts layout s (.load worker) = some next) : next.Confined good := by
  obtain ⟨item, robots, entered, called, rfl⟩ := step_load taken
  have sound : good item.url item.depth := held.phases worker _ entered
  refine held.enter _ ?_ rfl held.crawl ?_
  · split
    · exact sound
    · exact sound
  rcases RobotsCache.step_call called with ⟨_, ⟨needs, rfl⟩ | ⟨_, rfl⟩⟩
  · intro other call found
    simp only [Table.lookup_insert_ite] at found
    split at found
    · cases Option.some.inj found
      refine ⟨fun empty => ?_, item.url, item.depth, sound, rfl⟩
      simp [RobotsTxt.needsLoad, show RobotsTxt.originOf item.url = [] from empty] at needs
    · exact held.calls other call found
  · exact held.calls

private theorem Confined.fetchRobots (held : s.Confined good) {res : FetchResult}
    (taken : step opts layout s (.fetchRobots worker res) = some next) : next.Confined good := by
  obtain ⟨robots, fetched, rfl⟩ := step_fetchRobots taken
  obtain ⟨origin, missed, rfl⟩ := RobotsCache.step_fetch fetched
  refine ⟨held.crawl, held.phases, fun other call found => ?_⟩
  simp only [Table.lookup_insert_ite] at found
  split at found
  · cases Option.some.inj found
    exact held.calls worker (.missed origin) missed
  · exact held.calls other call found

private theorem Confined.storeRobots (held : s.Confined good)
    (taken : step opts layout s (.storeRobots worker) = some next) : next.Confined good := by
  obtain ⟨item, robots, loading, stored, rfl⟩ := step_storeRobots taken
  obtain ⟨origin, res, _, rfl⟩ := RobotsCache.step_store stored
  have sound : good item.url item.depth := held.phases worker _ loading
  refine held.enter (.deciding item) sound rfl held.crawl fun other call found => ?_
  simp only [Table.lookup_erase_ite] at found
  split at found
  · cases found
  · exact held.calls other call found

/-- A link is offered at its own depth, and the links behind it wait. -/
private theorem Confined.follow (held : s.Confined good)
    (taken : step opts layout s (.follow worker) = some next) : next.Confined good := by
  obtain ⟨item, entered⟩ := step_follow taken
  rcases entered with ⟨_, rfl⟩ | ⟨link, links, following, rfl⟩
  · exact held.enter .finished trivial rfl held.crawl held.calls
  · have sound := List.forall_mem_cons.mp (held.phases worker _ following)
    refine held.enter _ ?_ rfl (held.crawl.enqueue sound.1 _) held.calls
    split
    · trivial
    · exact sound.2

private theorem Confined.finish (held : s.Confined good)
    (taken : step opts layout s (.finish worker) = some next) : next.Confined good := by
  obtain ⟨crawl, _, completed, rfl⟩ := step_finish taken
  refine ⟨held.crawl.step (.complete worker) nofun completed, fun other phase found => ?_,
    held.calls⟩
  rw [Table.lookup_erase_ite] at found
  split at found
  · cases found
  · exact held.phases other phase found

/-- When the links of a page inherit the condition from it, every step keeps the crawl
within it, as long as users enqueue within it. -/
theorem Confined.step (held : s.Confined good)
    (inherited : ∀ item html, good item.url item.depth →
      ∀ link ∈ linksToFollow opts item html, good link (item.depth + 1))
    (action : CrawlerStep)
    (sound : ∀ url depth priority, action = .enqueue url depth priority → good url depth)
    (taken : Crawler.step opts layout s action = some next) : next.Confined good := by
  have moved {crawl : CrawlState} (step : CrawlStep) (plain : ∀ url depth priority,
      step = .enqueue url depth priority → good url depth)
      (done : s.crawl.step opts step = some crawl) : { s with crawl }.Confined good :=
    ⟨held.crawl.step step plain done, held.phases, held.calls⟩
  cases action with
  | enqueue url depth priority =>
    cases Option.some.inj taken
    refine moved (.enqueue url depth priority) (fun _ _ _ same => ?_) rfl
    cases same
    exact sound url depth priority rfl
  | stop =>
    cases Option.some.inj taken
    exact moved .stop nofun rfl
  | join =>
    obtain ⟨crawl, done, rfl⟩ := Option.map_eq_some_iff.mp taken
    exact moved .join nofun done
  | leave worker =>
    obtain ⟨crawl, done, rfl⟩ := Option.map_eq_some_iff.mp taken
    exact moved (.leave worker) nofun done
  | tick elapsed =>
    cases Option.some.inj taken
    exact ⟨held.crawl, held.phases, held.calls⟩
  | readLast worker =>
    obtain ⟨politeness, _, rfl⟩ := Option.map_eq_some_iff.mp taken
    exact ⟨held.crawl, held.phases, held.calls⟩
  | checkWait worker =>
    obtain ⟨politeness, _, rfl⟩ := Option.map_eq_some_iff.mp taken
    exact ⟨held.crawl, held.phases, held.calls⟩
  | pop worker =>
    obtain ⟨crawl, item, _, popped, busy, rfl⟩ := step_pop taken
    have confined := held.crawl.step (.pop worker) nofun popped
    have taken := confined.held item (List.mem_of_getElem? busy)
    exact held.enter (.started item) taken rfl confined held.calls
  | start worker => exact held.start taken
  | grant worker => exact held.grant taken
  | load worker => exact held.load taken
  | fetchRobots worker res => exact held.fetchRobots taken
  | storeRobots worker => exact held.storeRobots taken
  | decide worker =>
    rcases step_decide taken with ⟨item, deciding, ⟨_, rfl⟩ | ⟨_, begun⟩⟩
    · exact held.enter (.rejecting item _) trivial rfl held.crawl held.calls
    · have sound : good item.url item.depth := held.phases worker _ deciding
      exact held.wait (.waitingPage item) sound begun
  | fetch worker res =>
    rcases step_fetch taken with ⟨item, fetching, ⟨_, rfl⟩ | ⟨_, rfl⟩⟩
    · exact held.enter (.rejecting item res.error) trivial rfl held.crawl held.calls
    · have sound : good item.url item.depth := held.phases worker _ fetching
      exact held.enter (.indexing item res.html) sound rfl held.crawl held.calls
  | index worker =>
    obtain ⟨item, html, indexing, rfl⟩ := step_index taken
    have sound : good item.url item.depth := held.phases worker _ indexing
    exact held.enter (.reporting item html _) sound rfl held.crawl held.calls
  | report worker =>
    rcases step_report taken with ⟨item, ⟨_, _, rfl⟩ | ⟨html, _, reporting, rfl⟩⟩
    · exact held.enter .finished trivial rfl held.crawl held.calls
    · have sound : good item.url item.depth := held.phases worker _ reporting
      exact held.enter (.following item (linksToFollow opts item html)) (inherited item html sound)
        rfl held.crawl held.calls
  | follow worker => exact held.follow taken
  | finish worker => exact held.finish taken

end Crawler

end Inherited

namespace Crawler

variable {opts : CrawlerOptions} {layout : Layout} {s : Crawler}

/-- Users enqueue only what `Engine::crawl` makes of a nonempty normalized input. -/
def Seeded (_ : Crawler) : CrawlerStep → Prop
  | .enqueue url depth priority =>
    (∃ input, url = normalizeUrl input) ∧ url ≠ [] ∧ depth = 0 ∧ priority = -1
  | _ => True

instance (s : Crawler) (action : CrawlerStep) : Decidable (s.Seeded action) :=
  match action with
  | .enqueue url depth priority =>
    decidable_of_iff (url = normalizeUrl url ∧ url ≠ [] ∧ depth = 0 ∧ priority = -1)
      (and_congr_left' ⟨fun same => ⟨url, same⟩, fun ⟨input, same⟩ => by
        rw [same, normalizeUrl_normalizeUrl]⟩)
  | .stop | .join | .tick _ | .pop _ | .leave _ | .start _ | .readLast _ | .checkWait _
  | .grant _ | .load _ | .fetchRobots .. | .storeRobots _ | .decide _ | .fetch .. | .index _
  | .report _ | .follow _ | .finish _ => inferInstanceAs (Decidable True)

/-- The URL that a step passes to the fetcher. -/
def fetchedUrl (s : Crawler) : CrawlerStep → Option Bytes
  | .fetch worker _ =>
    match s.phases.lookup worker with
    | some (.fetching item) => some item.url
    | _ => none
  | .fetchRobots worker _ =>
    match s.robots.calls.lookup worker with
    | some (.missed origin) => some (RobotsTxt.robotsUrl origin)
    | _ => none
  | _ => none

/-- An HTTP URL within the depth budget. -/
def Permitted (opts : CrawlerOptions) (url : Bytes) (depth : UInt32) : Prop :=
  HttpUrl url ∧ depth ≤ opts.maxDepth

theorem permitted_links (item : Item) (html : Bytes) :
    ∀ link ∈ linksToFollow opts item html, Permitted opts link (item.depth + 1) := by
  intro link member
  unfold linksToFollow at member
  split at member
  · rename_i within
    exact ⟨httpUrl_links member, within⟩
  · cases member

theorem confined_of_reaches {bloom : BloomFilter} {clock : Int}
    (reached : (machine opts layout).Reaches Seeded (create opts bloom clock) s) :
    s.Confined (Permitted opts) := by
  refine reached.invariant ?_ fun before action after held seeded taken => ?_
  · exact ⟨⟨by simp [create, CrawlState.create], by simp [create, CrawlState.create]⟩,
      by simp [create], by simp [create]⟩
  · refine held.step (fun item html _ => permitted_links item html) action ?_ taken
    rintro url depth priority rfl
    obtain ⟨⟨input, rfl⟩, nonempty, rfl, _⟩ := seeded
    exact ⟨httpUrl_normalizeUrl nonempty, UInt32.zero_le⟩

/-- In every run seeded by `Engine::crawl`, whatever the pages contain, only HTTP URLs are
passed to the fetcher, for pages and for robots.txt alike, and every page is processed at a
depth within the budget. -/
theorem crawl_confined (opts : CrawlerOptions) (layout : Layout) (bloom : BloomFilter)
    (clock : Int) (s : Crawler)
    (reached : (machine opts layout).Reaches Seeded (create opts bloom clock) s) :
    (∀ action, ∀ url ∈ s.fetchedUrl action, HttpUrl url) ∧
      ∀ item ∈ s.crawl.inFlight, item.depth ≤ opts.maxDepth := by
  have confined := confined_of_reaches reached
  constructor
  · intro action url passed
    unfold fetchedUrl at passed
    split at passed
    · split at passed
      · rename_i worker _ _ item fetching
        have sound : Permitted opts item.url item.depth := confined.phases worker _ fetching
        exact Option.some.inj passed ▸ sound.1
      · cases passed
    · split at passed
      · rename_i worker _ _ origin missed
        obtain ⟨nonempty, page, depth, sound, rfl⟩ := confined.calls worker (.missed origin) missed
        exact Option.some.inj passed ▸ httpUrl_robotsUrl sound.1 nonempty
      · cases passed
    · cases passed
  · intro item member
    obtain ⟨worker, busy, holds⟩ := List.mem_filterMap.mp member
    cases worker with
    | processing held =>
      cases Option.some.inj holds
      exact (confined.crawl.held item busy).2
    | idle => cases holds
    | returned => cases holds

/-- A user's line, up to the moment at which the policy of its host is fetched. -/
def openPage : List CrawlerStep :=
  [.enqueue (normalizeUrl (ascii " h/p\n")) 0 (-1), .pop 0, .start 0, .readLast 0, .checkWait 0,
    .grant 0, .load 0]

theorem crawl_confined_openPage :
    ∃ s, ((machine {} fun _ => .stored).restrict Seeded).run
        (create {} (.create (fun _ => 0) 64 1) 1000000000) openPage = some s ∧
      s.fetchedUrl (.fetchRobots 0 {}) = some (ascii "http://h/robots.txt") ∧
      (∀ action, ∀ url ∈ s.fetchedUrl action, HttpUrl url) ∧
      ∀ item ∈ s.crawl.inFlight, item.depth ≤ 2 :=
  ⟨_, rfl, rfl, crawl_confined {} (fun _ => .stored) (.create (fun _ => 0) 64 1) 1000000000 _
    (Machine.reaches_of_run openPage rfl)⟩

end Crawler

end ShadowSe

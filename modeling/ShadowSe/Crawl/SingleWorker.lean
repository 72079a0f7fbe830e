import ShadowSe.Crawl.Scheduling
import ShadowSe.Crawl.Verdicts
import ShadowSe.Support.BreadthFirst

/-! A crawl by one worker is a breadth-first search: the priority queue is a first-in first-out
one, and what is reported, in which order and at which depth, is a function of the site. -/

namespace ShadowSe

open Support

/-- The links of a page that `process` goes on to follow. -/
def pageLinks (opts : CrawlerOptions) (site : Bytes → FetchResult) (place : Bytes × Nat) :
    List Bytes :=
  if served opts site place.1 = true ∧ place.2 + 1 ≤ opts.maxDepth.toNat then
    htmlExtractLinks (site place.1).html place.1
  else []

/-- The places of the URLs that a user enqueues before the crawl. -/
def firstPlaces (opts : CrawlerOptions) (urls : List Bytes) : List Bytes :=
  urls.eraseDups.take opts.maxPages

/-- The pages of a site, and their depths, in the order of a crawl by one worker. -/
def crawlOrder (opts : CrawlerOptions) (site : Bytes → FetchResult) (urls : List Bytes) :
    List (Bytes × Nat) :=
  breadthFirst (pageLinks opts site) opts.maxPages ((firstPlaces opts urls).map fun url => (url, 0))

theorem castInt_of_lt {depth : UInt32} (small : depth.toNat < 2 ^ 31) :
    castInt depth = depth.toNat := by
  refine BitVec.toInt_eq_toNat_of_lt ?_
  change 2 * depth.toNat < 2 ^ 32
  omega

namespace CrawlState

variable {opts : CrawlerOptions} {s : CrawlState} {found : List Bytes}
  {waiting : List (Bytes × Nat)}

/-- The queue is in the order of arrival, and nothing but a full crawl closes it. -/
structure InLine (opts : CrawlerOptions) (s : CrawlState) (found : List Bytes)
    (waiting : List (Bytes × Nat)) : Prop where
  going : s.frontier.stop_ = false
  single : s.workers.length ≤ 1
  accepted : s.accepted = found
  queue : s.frontier.queue_.map Item.place = waiting
  ordered : ∀ item ∈ s.frontier.queue_, item.priority = item.depth.toNat ∧
    item.seq < s.frontier.seq_
  shallow : ∀ item ∈ s.frontier.queue_, item.depth ≤ opts.maxDepth

theorem orderedInsert_last {queue : List Item} {item : Item}
    (last : ∀ other ∈ queue, ¬ item.comesFirst other) :
    queue.orderedInsert Item.comesFirst item = queue ++ [item] := by
  induction queue with
  | nil => rfl
  | cons first rest ih =>
    rw [List.orderedInsert_of_not_le _ _ (last first List.mem_cons_self),
      ih fun other member => last other (List.mem_cons_of_mem _ member), List.cons_append]

/-- An item no shallower than those that wait comes last. -/
theorem InLine.last (held : s.InLine opts found waiting) (item : Item)
    (arrival : item.seq = s.frontier.seq_) (priority : item.priority = item.depth.toNat)
    (deepest : ∀ place ∈ waiting, place.2 ≤ item.depth.toNat) :
    s.frontier.queue_.orderedInsert Item.comesFirst item = s.frontier.queue_ ++ [item] := by
  refine orderedInsert_last fun other member first => ?_
  obtain ⟨depth, before⟩ := held.ordered other member
  have lower : other.depth.toNat ≤ item.depth.toNat :=
    deepest other.place (held.queue ▸ List.mem_map_of_mem member)
  unfold Item.comesFirst at first
  split at first
  · omega
  · omega

/-- A call of `enqueue` takes a URL exactly when it is new and there is room, and then puts it
behind those that wait. -/
theorem InLine.enqueue (held : s.InLine opts found waiting) (books : s.Accounted opts)
    (staffed : s.Staffed) (alone : opts.workerCount ≤ 1) (url : Bytes) (depth : UInt32)
    {priority : Int} (urgency : priority = -1 ∨ priority = castInt depth)
    (within : depth ≤ opts.maxDepth) (small : depth.toNat < 2 ^ 31)
    (deepest : ∀ place ∈ waiting, place.2 ≤ depth.toNat) :
    if found.length < opts.maxPages ∧ url ∉ found then
      (s.frontier.enqueue opts url depth priority).1 = true ∧
        (s.enqueue opts url depth priority).InLine opts (found ++ [url])
          (waiting ++ [(url, depth.toNat)])
    else (s.frontier.enqueue opts url depth priority).1 = false ∧
      s.enqueue opts url depth priority = s := by
  have seen : url ∈ s.frontier.seenUrls_ ↔ url ∈ found := by
    rw [books.seen, List.mem_toFinset, held.accepted]
  have full : s.frontier.capReached opts = true ↔ ¬ found.length < opts.maxPages := by
    rw [Frontier.capReached, books.total, held.accepted, decide_eq_true_eq, Nat.not_lt]
  have refused_iff : (s.frontier.stop_ = true ∨ s.frontier.capReached opts = true ∨
      url ∈ s.frontier.seenUrls_) ↔ ¬ (found.length < opts.maxPages ∧ url ∉ found) := by
    rw [held.going, full, seen, not_and_or, not_not]
    simp
  rw [CrawlState.enqueue, Frontier.enqueue_eq]
  split
  · rename_i taken
    rw [if_neg fun refused => refused_iff.mp refused taken]
    dsimp only
    have natural : castInt depth = depth.toNat := castInt_of_lt small
    have rank : (if priority < 0 then castInt depth else priority) = depth.toNat := by
      rcases urgency with rfl | rfl
      · exact natural
      · rw [ite_self, natural]
    have last := held.last ⟨url, depth, depth.toNat, s.frontier.seq_⟩ rfl rfl deepest
    refine ⟨rfl, held.going, ?_, by rw [held.accepted], ?_, ?_, ?_⟩
    · split
      · exact held.single
      · rename_i down
        rw [staffed.running (by simpa using down)]
        simp [Nat.max_eq_left alone]
    · simp only [Frontier.accept, rank, last, List.map_append, held.queue]
      rfl
    · intro item member
      simp only [Frontier.accept, rank, last] at member ⊢
      rcases List.mem_append.mp member with old | new
      · exact (held.ordered item old).imp_right Nat.lt_succ_of_lt
      · cases List.mem_singleton.mp new
        exact ⟨rfl, Nat.lt_succ_self _⟩
    · intro item member
      simp only [Frontier.accept, rank, last] at member
      rcases List.mem_append.mp member with old | new
      · exact held.shallow item old
      · cases List.mem_singleton.mp new
        exact within
  · rename_i refused
    rw [if_pos (refused_iff.mpr refused)]
    exact ⟨rfl, rfl⟩

theorem firstPlaces_append (opts : CrawlerOptions) (urls : List Bytes) (url : Bytes) :
    firstPlaces opts (urls ++ [url]) =
      if (firstPlaces opts urls).length < opts.maxPages ∧ url ∉ firstPlaces opts urls then
        firstPlaces opts urls ++ [url]
      else firstPlaces opts urls := by
  have grown : (urls ++ [url]).eraseDups =
      urls.eraseDups ++ if url ∈ urls then [] else [url] := by
    rw [List.eraseDups_append]
    by_cases known : url ∈ urls <;> simp [List.removeAll, List.eraseDups_cons, known]
  unfold firstPlaces
  rw [grown, List.take_append]
  by_cases room : urls.eraseDups.length < opts.maxPages
  · rw [List.take_of_length_le room.le]
    by_cases known : url ∈ urls
    · simp [known]
    · rw [if_neg known, if_pos ⟨room, by simpa using known⟩, List.take_of_length_le]
      simp only [List.length_singleton]
      omega
  · have none : opts.maxPages - urls.eraseDups.length = 0 := by omega
    rw [none, List.take_zero, List.append_nil, if_neg fun taken => room ?_]
    have length := taken.1
    rw [List.length_take] at length
    omega

theorem seeded_append (bloom : BloomFilter) (seeds : List Seed) (seed : Seed) :
    seeded opts bloom (seeds ++ [seed]) = plant opts (seeded opts bloom seeds) seed := by
  simp [seeded, List.foldl_append]

theorem inLine_seeded (alone : opts.workerCount ≤ 1) (bloom : BloomFilter) (urls : List Bytes) :
    (seeded opts bloom (urls.map fun url => { url })).InLine opts (firstPlaces opts urls)
      ((firstPlaces opts urls).map fun url => (url, 0)) := by
  induction urls using List.reverseRecOn with
  | nil =>
    constructor <;> simp [seeded, create, firstPlaces]
  | append_singleton urls url held =>
    have reached : (machine opts).Reachable (create bloom)
        (seeded opts bloom (urls.map fun url => { url })) := seeded_reachable _
    have called := held.enqueue (accounted_of_reachable reached) (staffed_of_reachable reached)
      alone url 0 (.inl rfl) UInt32.zero_le (by decide) fun place member => by
        obtain ⟨_, _, rfl⟩ := List.mem_map.mp member
        exact Nat.le_refl _
    rw [List.map_append, List.map_singleton, seeded_append, plant, firstPlaces_append]
    split at called
    · rename_i taken
      rw [if_pos taken, List.map_append]
      exact called.2
    · rename_i refused
      rw [if_neg refused, called.2]
      exact held

end CrawlState

/-- The searcher is at the page of an item, before it is opened. -/
def Ahead (opts : CrawlerOptions) (turn : Turn Bytes) (item : Item) : Prop :=
  turn = .before item.place ∧ item.depth ≤ opts.maxDepth

/-- What a worker's phase says of the searcher. -/
def ProcessPhase.At (opts : CrawlerOptions) (turn : Turn Bytes) : ProcessPhase → Prop
  | .started item | .waitingLoad item | .loadDomain item | .loading item | .deciding item
  | .waitingPage item | .fetching item | .rejecting item _ | .indexing item _
  | .reporting item _ _ => Ahead opts turn item
  | .following item links => turn = .during item.place links ∧
    (links ≠ [] → item.depth.toNat + 1 ≤ opts.maxDepth.toNat)
  | .finished => ∃ place, turn = .during place []

namespace Crawler

variable {opts : CrawlerOptions} {layout : Layout} {site : Bytes → FetchResult}
  {s next : Crawler} {worker : Nat} {t : Traversal Bytes}

/-- The site is fixed, and no user enqueues or stops. -/
def Alone (site : Bytes → FetchResult) (s : Crawler) : CrawlerStep → Prop
  | .enqueue .. | .stop => False
  | action => Serves site s action

instance (s : Crawler) (action : CrawlerStep) : Decidable (Alone site s action) :=
  match action with
  | .enqueue .. | .stop => inferInstanceAs (Decidable False)
  | .fetch worker res => inferInstanceAs (Decidable (Serves site s (.fetch worker res)))
  | .fetchRobots worker res => inferInstanceAs (Decidable (Serves site s (.fetchRobots worker res)))
  | .join | .tick _ | .pop _ | .leave _ | .start _ | .readLast _ | .checkWait _ | .grant _
  | .load _ | .storeRobots _ | .decide _ | .index _ | .report _ | .follow _ | .finish _ =>
    inferInstanceAs (Decidable True)

theorem Alone.serves {action : CrawlerStep} (alone : Alone site s action) :
    Serves site s action := by
  cases action with
  | enqueue => exact alone.elim
  | stop => exact alone.elim
  | fetch => exact alone
  | fetchRobots => exact alone
  | _ => trivial

/-- What is known of every state of a crawl of a fixed site. -/
structure Surveyed (opts : CrawlerOptions) (site : Bytes → FetchResult) (s : Crawler) : Prop where
  books : s.crawl.Accounted opts
  staffed : s.crawl.Staffed
  reports : s.Reporting opts site
  verdicts : s.Settled opts site

theorem surveyed {bloom : BloomFilter} {clock : Int}
    (reached : (machine opts layout).Reaches (Serves site) (create opts bloom clock) s) :
    s.Surveyed opts site where
  books := accounted reached.reachable
  staffed := CrawlState.staffed_of_reachable (crawl_reachable reached.reachable)
  reports := reporting (reached.weaken fun _ _ fair => fair.fromSite)
  verdicts := settled reached

theorem seeded_reaches (bloom : BloomFilter) (clock : Int) (seeds : List Seed) :
    (machine opts layout).Reaches (Serves site) (create opts bloom clock)
      (seeded opts bloom clock seeds) := by
  change (machine opts layout).Reaches (Serves site) (create opts bloom clock)
    { create opts bloom clock with crawl := CrawlState.seeded opts bloom seeds }
  refine CrawlState.seeded_invariant seeds .refl fun crawl seed earlier => ?_
  exact .step (.enqueue seed.url seed.depth seed.priority) earlier trivial rfl

/-- The crawler is where the searcher is. -/
structure Follows (opts : CrawlerOptions) (site : Bytes → FetchResult) (s : Crawler)
    (t : Traversal Bytes) : Prop where
  line : s.crawl.InLine opts t.found t.waiting
  recorded : s.recorded = t.opened.filter fun place => served opts site place.1
  errors : s.onErr.map (·.1) =
    (t.opened.filter fun place => !served opts site place.1).map (·.1)
  phases : ∀ worker phase, s.phases.lookup worker = some phase → phase.At opts t.turn
  resting : t.turn = .idle ∨ ∃ worker phase, s.phases.lookup worker = some phase

theorem Follows.unique (held : s.Follows opts site t) (known : s.Surveyed opts site)
    {other : Nat} {phase current : ProcessPhase} (here : s.phases.lookup worker = some phase)
    (there : s.phases.lookup other = some current) : other = worker := by
  obtain ⟨_, busy, _⟩ := known.reports.phases worker phase here
  obtain ⟨_, busyToo, _⟩ := known.reports.phases other current there
  have inside := (List.getElem?_eq_some_iff.mp busy).1
  have insideToo := (List.getElem?_eq_some_iff.mp busyToo).1
  have single := held.line.single
  omega

private theorem Follows.enter (held : s.Follows opts site t) (known : s.Surveyed opts site)
    {before : ProcessPhase} (here : s.phases.lookup worker = some before) (phase : ProcessPhase)
    {after : Traversal Bytes} (arrives : phase.At opts after.turn)
    (entered : next.phases = s.phases.insert worker phase)
    (line : next.crawl.InLine opts after.found after.waiting)
    (recorded : next.recorded = after.opened.filter fun place => served opts site place.1)
    (errors : next.onErr.map (·.1) =
      (after.opened.filter fun place => !served opts site place.1).map (·.1)) :
    next.Follows opts site after := by
  refine ⟨line, recorded, errors, fun other current found => ?_, .inr ⟨worker, phase, ?_⟩⟩
  · rw [entered, Table.lookup_insert_ite] at found
    split at found
    · exact Option.some.inj found ▸ arrives
    · rename_i differs
      exact absurd (held.unique known here found) differs
  · rw [entered, Table.lookup_insert_ite, if_pos rfl]

private theorem Follows.go (held : s.Follows opts site t) (known : s.Surveyed opts site)
    {before : ProcessPhase} (here : s.phases.lookup worker = some before) (phase : ProcessPhase)
    (arrives : phase.At opts t.turn) (entered : next.phases = s.phases.insert worker phase)
    (crawl : next.crawl = s.crawl) (onDoc : next.onDoc = s.onDoc) (onErr : next.onErr = s.onErr) :
    next.Follows opts site t := by
  refine held.enter known here phase arrives entered (crawl ▸ held.line) ?_ (onErr ▸ held.errors)
  rw [Crawler.recorded, onDoc]
  exact held.recorded

private theorem Follows.opens (held : s.Follows opts site t) (known : s.Surveyed opts site)
    {before : ProcessPhase} (here : s.phases.lookup worker = some before) {item : Item}
    (turn : t.turn = .before item.place) (phase : ProcessPhase)
    (arrives : phase.At opts (.during item.place (pageLinks opts site item.place)))
    (entered : next.phases = s.phases.insert worker phase) (crawl : next.crawl = s.crawl)
    (recorded : next.recorded = s.recorded ++
      [item.place].filter fun place => served opts site place.1)
    (errors : next.onErr.map (·.1) = s.onErr.map (·.1) ++
      ([item.place].filter fun place => !served opts site place.1).map (·.1)) :
    ∃ after, Traversal.Step (pageLinks opts site) opts.maxPages t after ∧
      next.Follows opts site after := by
  refine ⟨_, .opens turn, held.enter known here phase arrives entered ?_ ?_ ?_⟩
  · have line := held.line
    simp only [Traversal.found, turn] at line ⊢
    exact crawl ▸ line
  · rw [recorded, held.recorded, List.filter_append]
  · rw [errors, held.errors, List.filter_append, List.map_append]

private theorem Follows.refuse (held : s.Follows opts site t) (known : s.Surveyed opts site)
    {before : ProcessPhase} (here : s.phases.lookup worker = some before) {item : Item}
    (turn : t.turn = .before item.place) (lost : served opts site item.url = false)
    (entered : next.phases = s.phases.insert worker .finished) (crawl : next.crawl = s.crawl)
    (onDoc : next.onDoc = s.onDoc) {error : Bytes}
    (onErr : next.onErr = s.onErr ++ [(item.url, error)]) :
    ∃ after, Traversal.Step (pageLinks opts site) opts.maxPages t after ∧
      next.Follows opts site after := by
  have place : served opts site item.place.1 = false := lost
  refine held.opens known here turn .finished ⟨item.place, ?_⟩ entered crawl ?_ ?_
  · simp [pageLinks, place]
  · rw [Crawler.recorded, onDoc]
    simp [place, Crawler.recorded]
  · have alone : [item.place].filter (fun place => !served opts site place.1) = [item.place] :=
      List.filter_eq_self.mpr (by simp [place])
    rw [onErr, alone, List.map_append]
    rfl

theorem linksToFollow_eq (bounded : opts.maxDepth.toNat < 2 ^ 31) {item : Item}
    (within : item.depth ≤ opts.maxDepth) (kept : served opts site item.url = true) :
    linksToFollow opts item (site item.url).html = pageLinks opts site item.place := by
  have small : item.depth.toNat ≤ opts.maxDepth.toNat := UInt32.le_iff_toNat_le.mp within
  have deeper : (item.depth + 1).toNat = item.depth.toNat + 1 := by
    rw [UInt32.toNat_add, UInt32.toNat_one]
    omega
  have place : served opts site item.place.1 = true := kept
  simp only [linksToFollow, pageLinks, UInt32.le_iff_toNat_le, deeper, place, true_and]
  rfl

private theorem Follows.pop (held : s.Follows opts site t) (known : s.Surveyed opts site)
    (taken : step opts layout s (.pop worker) = some next) :
    ∃ after, Traversal.Step (pageLinks opts site) opts.maxPages t after ∧
      next.Follows opts site after := by
  obtain ⟨crawl, item, outside, popped, busy, rfl⟩ := step_pop taken
  obtain ⟨first, rest, free, queue, rfl⟩ := CrawlState.step_pop popped
  have same : first = item := by
    have inside := (List.getElem?_eq_some_iff.mp free).1
    rw [List.getElem?_set_self inside] at busy
    simpa using busy
  subst first
  have line := held.line
  have nobody (other : Nat) (phase : ProcessPhase) : s.phases.lookup other ≠ some phase := by
    intro found
    obtain ⟨page, holding, _⟩ := known.reports.phases other phase found
    have inside := (List.getElem?_eq_some_iff.mp free).1
    have insideToo := (List.getElem?_eq_some_iff.mp holding).1
    have single := line.single
    obtain rfl : other = worker := by omega
    cases holding.symm.trans free
  have idle : t.turn = .idle := by
    refine held.resting.resolve_right ?_
    rintro ⟨other, phase, found⟩
    exact nobody other phase found
  have waits : t.waiting = item.place :: rest.map Item.place := by
    rw [← line.queue, queue, List.map_cons]
  refine ⟨_, .goes idle waits, ⟨line.going, ?_, ?_, rfl, ?_, ?_⟩, held.recorded, held.errors, ?_,
    .inr ⟨worker, .started item, ?_⟩⟩
  · simpa using line.single
  · simpa [Traversal.found, idle, waits] using line.accepted
  · exact fun other member => line.ordered other (queue ▸ List.mem_cons_of_mem _ member)
  · exact fun other member => line.shallow other (queue ▸ List.mem_cons_of_mem _ member)
  · intro other phase found
    simp only [setPhase] at found
    rw [Table.lookup_insert_ite] at found
    split at found
    · cases Option.some.inj found
      exact ⟨rfl, line.shallow item (queue ▸ List.mem_cons_self)⟩
    · exact absurd found (nobody other phase)
  · simp [setPhase]

private theorem Follows.reports (held : s.Follows opts site t) (known : s.Surveyed opts site)
    (bounded : opts.maxDepth.toNat < 2 ^ 31)
    (taken : step opts layout s (.report worker) = some next) :
    ∃ after, Traversal.Step (pageLinks opts site) opts.maxPages t after ∧
      next.Follows opts site after := by
  rcases step_report taken with ⟨item, ⟨error, here, rfl⟩ | ⟨html, id, here, rfl⟩⟩
  · have ahead : Ahead opts t.turn item := held.phases worker _ here
    exact held.refuse known here ahead.1 (known.verdicts.phases worker _ here).1 rfl rfl rfl rfl
  · obtain ⟨turn, within⟩ := held.phases worker _ here
    obtain ⟨_, _, rfl, _, succeeded, rfl⟩ := known.reports.phases worker _ here
    have permitted : admitted opts site item.url = true := known.verdicts.phases worker _ here
    have kept : served opts site item.url = true := by
      rw [served, permitted, succeeded]
      rfl
    have place : served opts site item.place.1 = true := kept
    have links := linksToFollow_eq bounded within kept
    refine held.opens known here turn (.following item _) ⟨?_, ?_⟩ rfl rfl ?_ ?_
    · rw [links]
    · rw [links, pageLinks]
      split
      · rename_i deep
        exact fun _ => deep.2
      · exact fun none => absurd rfl none
    · rw [List.filter_eq_self.mpr (by simp [place]), Crawler.recorded, List.map_append]
      rfl
    · rw [List.filter_eq_nil_iff.mpr (by simp [place]), List.map_nil, List.append_nil]
      rfl

private theorem Follows.follow (held : s.Follows opts site t) (known : s.Surveyed opts site)
    (single : opts.workerCount ≤ 1) (bounded : opts.maxDepth.toNat < 2 ^ 31)
    (orderly : ∃ order, t.Orderly (pageLinks opts site) opts.maxPages order)
    (taken : step opts layout s (.follow worker) = some next) :
    next.Follows opts site t ∨
      ∃ after, Traversal.Step (pageLinks opts site) opts.maxPages t after ∧
        next.Follows opts site after := by
  obtain ⟨item, ⟨here, rfl⟩ | ⟨link, links, here, rfl⟩⟩ := step_follow taken
  · obtain ⟨turn, _⟩ := held.phases worker _ here
    exact .inl (held.go known here .finished ⟨item.place, turn⟩ rfl rfl rfl rfl)
  · obtain ⟨turn, deep⟩ := held.phases worker _ here
    have within := deep (List.cons_ne_nil _ _)
    have deeper : (item.depth + 1).toNat = item.depth.toNat + 1 := by
      rw [UInt32.toNat_add, UInt32.toNat_one]
      omega
    obtain ⟨order, orderly⟩ := orderly
    have levels : Levels t.opened t.waiting item.place.2 := by
      have leveled := orderly.leveled
      simpa only [Traversal.Leveled, turn] using leveled
    have called := held.line.enqueue known.books known.staffed single link
      (item.depth + 1) (.inr rfl) (UInt32.le_iff_toNat_le.mpr (deeper ▸ within))
      (by omega) (fun place member => deeper ▸ (levels.near place member).2)
    refine .inr ?_
    split at called
    · rename_i room
      obtain ⟨accepted, line⟩ := called
      refine ⟨_, .takes turn room.1 room.2, held.enter known here (.following item links)
        ⟨rfl, fun _ => within⟩ (by simp [setPhase, accepted]) ?_ held.recorded held.errors⟩
      simp only [Traversal.found, turn, List.map_append, List.append_assoc, deeper] at line ⊢
      exact line
    · rename_i refused
      obtain ⟨answer, kept⟩ := called
      refine ⟨_, .refuses turn refused, held.enter known here .finished ⟨item.place, rfl⟩
        (by simp [setPhase, answer]) ?_ held.recorded held.errors⟩
      have line := held.line
      simp only [Traversal.found, turn, kept] at line ⊢
      exact line

private theorem Follows.finish (held : s.Follows opts site t) (known : s.Surveyed opts site)
    (taken : step opts layout s (.finish worker) = some next) :
    ∃ after, Traversal.Step (pageLinks opts site) opts.maxPages t after ∧
      next.Follows opts site after := by
  obtain ⟨crawl, here, completed, rfl⟩ := step_finish taken
  obtain ⟨place, turn⟩ := held.phases worker _ here
  obtain ⟨_, _, rfl⟩ := CrawlState.step_complete completed
  have line := held.line
  refine ⟨_, .leaves turn, ⟨line.going, ?_, ?_, line.queue, line.ordered, line.shallow⟩,
    held.recorded, held.errors, fun other phase found => ?_, .inl rfl⟩
  · simpa using line.single
  · simpa [Traversal.found, turn] using line.accepted
  · rw [Table.lookup_erase_ite] at found
    split at found
    · cases found
    · rename_i differs
      exact absurd (held.unique known here found) differs

/-- Every step of a crawl by one worker is at most one step of the searcher. -/
theorem Follows.step (held : s.Follows opts site t) (known : s.Surveyed opts site)
    (single : opts.workerCount ≤ 1) (bounded : opts.maxDepth.toNat < 2 ^ 31)
    (orderly : ∃ order, t.Orderly (pageLinks opts site) opts.maxPages order)
    (action : CrawlerStep) (alone : Alone site s action)
    (taken : Crawler.step opts layout s action = some next) :
    next.Follows opts site t ∨
      ∃ after, Traversal.Step (pageLinks opts site) opts.maxPages t after ∧
        next.Follows opts site after := by
  have going := held.line.going
  have aside (phases : next.phases = s.phases) (crawl : next.crawl = s.crawl)
      (onDoc : next.onDoc = s.onDoc) (onErr : next.onErr = s.onErr) :
      next.Follows opts site t := by
    refine ⟨crawl ▸ held.line, ?_, onErr ▸ held.errors, phases ▸ held.phases,
      phases ▸ held.resting⟩
    rw [Crawler.recorded, onDoc]
    exact held.recorded
  have waited {mover : Nat} {item : Item} {before phase : ProcessPhase}
      (here : s.phases.lookup mover = some before)
      (begun : s.beginWait opts mover item phase = some next)
      (arrives : phase.At opts t.turn) : next.Follows opts site t := by
    obtain ⟨politeness, _, rfl⟩ := beginWait_some begun
    exact held.go known here phase arrives rfl rfl rfl rfl
  cases action with
  | enqueue => exact alone.elim
  | stop => exact alone.elim
  | join =>
    obtain ⟨crawl, done, rfl⟩ := Option.map_eq_some_iff.mp taken
    obtain ⟨stopped, _⟩ := CrawlState.step_join done
    cases going.symm.trans stopped
  | leave worker =>
    obtain ⟨crawl, done, rfl⟩ := Option.map_eq_some_iff.mp taken
    obtain ⟨_, _, stopped, _⟩ := CrawlState.step_leave done
    cases going.symm.trans stopped
  | tick elapsed => cases Option.some.inj taken; exact .inl (aside rfl rfl rfl rfl)
  | readLast worker =>
    obtain ⟨_, _, rfl⟩ := Option.map_eq_some_iff.mp taken
    exact .inl (aside rfl rfl rfl rfl)
  | checkWait worker =>
    obtain ⟨_, _, rfl⟩ := Option.map_eq_some_iff.mp taken
    exact .inl (aside rfl rfl rfl rfl)
  | fetchRobots worker res =>
    obtain ⟨_, _, rfl⟩ := step_fetchRobots taken
    exact .inl (aside rfl rfl rfl rfl)
  | pop worker => exact .inr (held.pop known taken)
  | start worker =>
    obtain ⟨item, here, ⟨_, begun⟩ | ⟨_, _, rfl⟩ | ⟨_, begun⟩⟩ := step_start taken
    · have ahead : Ahead opts t.turn item := held.phases worker _ here
      exact .inl (waited here begun ahead)
    · have ahead : Ahead opts t.turn item := held.phases worker _ here
      exact .inl (held.go known here (.deciding item) ahead rfl rfl rfl rfl)
    · have ahead : Ahead opts t.turn item := held.phases worker _ here
      exact .inl (waited here begun ahead)
  | grant worker =>
    obtain ⟨politeness, item, _, ⟨here, rfl⟩ | ⟨here, rfl⟩⟩ := step_grant taken
    · have ahead : Ahead opts t.turn item := held.phases worker _ here
      exact .inl (held.go known here (.loadDomain item) ahead rfl rfl rfl rfl)
    · have ahead : Ahead opts t.turn item := held.phases worker _ here
      exact .inl (held.go known here (.fetching item) ahead rfl rfl rfl rfl)
  | load worker =>
    obtain ⟨item, robots, here, _, rfl⟩ := step_load taken
    have ahead : Ahead opts t.turn item := held.phases worker _ here
    refine .inl (held.go known here _ ?_ rfl rfl rfl rfl)
    split
    · exact ahead
    · exact ahead
  | storeRobots worker =>
    obtain ⟨item, robots, here, _, rfl⟩ := step_storeRobots taken
    have ahead : Ahead opts t.turn item := held.phases worker _ here
    exact .inl (held.go known here (.deciding item) ahead rfl rfl rfl rfl)
  | decide worker =>
    obtain ⟨item, here, verdict⟩ := step_decide taken
    have ahead : Ahead opts t.turn item := held.phases worker _ here
    rcases verdict with ⟨_, rfl⟩ | ⟨_, begun⟩
    · exact .inl (held.go known here (.rejecting item _) ahead rfl rfl rfl rfl)
    · exact .inl (waited here begun ahead)
  | fetch worker res =>
    obtain ⟨item, here, ⟨_, rfl⟩ | ⟨_, rfl⟩⟩ := step_fetch taken
    · have ahead : Ahead opts t.turn item := held.phases worker _ here
      exact .inl (held.go known here (.rejecting item res.error) ahead rfl rfl rfl rfl)
    · have ahead : Ahead opts t.turn item := held.phases worker _ here
      exact .inl (held.go known here (.indexing item res.html) ahead rfl rfl rfl rfl)
  | index worker =>
    obtain ⟨item, html, here, rfl⟩ := step_index taken
    have ahead : Ahead opts t.turn item := held.phases worker _ here
    exact .inl (held.go known here (.reporting item html _) ahead rfl rfl rfl rfl)
  | report worker => exact .inr (held.reports known bounded taken)
  | follow worker => exact held.follow known single bounded orderly taken
  | finish worker => exact .inr (held.finish known taken)

theorem follows_seeded (single : opts.workerCount ≤ 1) (bloom : BloomFilter) (clock : Int)
    (urls : List Bytes) :
    (seeded opts bloom clock (urls.map fun url => { url })).Follows opts site
      { waiting := (firstPlaces opts urls).map fun url => (url, 0) } := by
  have line := CrawlState.inLine_seeded single bloom urls
  refine ⟨?_, rfl, rfl, ?_, .inl rfl⟩
  · simp only [Traversal.found, List.nil_append, List.map_map, Function.comp_def, List.map_id']
    exact line
  · intro worker phase found
    simp [seeded, create] at found

/-- With nothing pending the searcher has nothing left to do. -/
theorem Follows.finished (held : s.Follows opts site t) (known : s.Surveyed opts site)
    (settled : s.crawl.frontier.pending_ = 0) : t.turn = .idle ∧ t.waiting = [] := by
  have pending := known.books.pending
  have empty : s.crawl.frontier.queue_ = [] := List.length_eq_zero_iff.mp (by omega)
  have free : s.crawl.inFlight = [] := List.length_eq_zero_iff.mp (by omega)
  constructor
  · refine held.resting.resolve_right ?_
    rintro ⟨worker, phase, found⟩
    obtain ⟨item, busy, _⟩ := known.reports.phases worker phase found
    exact List.not_mem_nil (free ▸ CrawlState.mem_inFlight busy)
  · rw [← held.line.queue, empty, List.map_nil]

/-- A crawl of a fixed site by one worker, which starts when the URLs are in the queue and is
left alone, is a breadth-first search: at every point it has reported the first pages of the
search in their order, each at its depth, the ones that the site serves as documents and the
others as errors; the depths do not decrease, and when nothing is pending every page of the
search has been reported. -/
theorem crawl_in_order (opts : CrawlerOptions) (layout : Layout) (site : Bytes → FetchResult)
    (urls : List Bytes) (bloom : BloomFilter) (clock : Int) (single : opts.workerCount ≤ 1)
    (bounded : opts.maxDepth.toNat < 2 ^ 31)
    (reached : (machine opts layout).Reaches (Alone site)
      (seeded opts bloom clock (urls.map fun url => { url })) s) :
    (crawlOrder opts site urls).Pairwise (fun place later => place.2 ≤ later.2) ∧
    ∃ opened, opened <+: crawlOrder opts site urls ∧
      s.recorded = opened.filter (fun place => served opts site place.1) ∧
      s.onErr = (opened.filter fun place => !served opts site place.1).map
        (fun place => (place.1, refusal opts site place.1)) ∧
      (s.crawl.frontier.pending_ = 0 → opened = crawlOrder opts site urls) := by
  have known {state : Crawler} (reached : (machine opts layout).Reaches (Alone site)
      (seeded opts bloom clock (urls.map fun url => { url })) state) :
      state.Surveyed opts site :=
    surveyed ((seeded_reaches bloom clock _).trans (reached.weaken fun _ _ alone => alone.serves))
  have room : (firstPlaces opts urls).length ≤ opts.maxPages := List.length_take_le _ _
  have start := Traversal.orderly_start (pageLinks opts site) room
  obtain ⟨t, moves, held⟩ := reached.simulate (follows_seeded single bloom clock urls)
    fun before action after seen earlier moves held alone taken =>
      held.step (known earlier) single bounded ⟨_, start.run moves⟩ action alone taken
  have orderly := start.run moves
  obtain ⟨level, levels⟩ : ∃ level, Levels [] _ level := start.leveled
  refine ⟨search_levels _ levels, t.opened, orderly.opened_prefix, held.recorded, ?_,
    fun settled => ?_⟩
  · rw [(known reached).verdicts.onErr_eq, held.errors, List.map_map]
    rfl
  · obtain ⟨idle, empty⟩ := held.finished (known reached) settled
    exact orderly.opened_eq idle empty

def loneOptions : CrawlerOptions :=
  { workerCount := 1, domainDelay := 0 }

/-- The only worker loads the policy, fetches the page and is refused its link. -/
def loneSteps : List CrawlerStep :=
  [.pop 0, .start 0, .readLast 0, .checkWait 0, .grant 0, .load 0,
    .fetchRobots 0 (guardedSite (ascii "http://a/robots.txt")), .storeRobots 0, .decide 0,
    .readLast 0, .checkWait 0, .grant 0, .fetch 0 (guardedSite (ascii "http://a/")), .index 0,
    .report 0, .follow 0, .follow 0, .finish 0, .pop 0, .start 0, .decide 0, .report 0, .finish 0]

theorem crawl_in_order_guardedSite :
    ∃ s, (machine loneOptions fun _ => .stored).Reaches (Alone guardedSite)
        (seeded loneOptions (.create (fun _ => 0) 64 1) 0
          ([ascii "http://a/"].map fun url => { url })) s ∧
      s.crawl.frontier.pending_ = 0 ∧
      s.recorded = [(ascii "http://a/", 0)] ∧
      crawlOrder loneOptions guardedSite [ascii "http://a/"] =
        [(ascii "http://a/", 0), (ascii "http://a/x", 1)] ∧
      s.recorded = (crawlOrder loneOptions guardedSite [ascii "http://a/"]).filter
        fun place => served loneOptions guardedSite place.1 := by
  obtain ⟨s, reached, settled, first⟩ : ∃ s, (machine loneOptions fun _ => .stored).Reaches
      (Alone guardedSite) (seeded loneOptions (.create (fun _ => 0) 64 1) 0
        ([ascii "http://a/"].map fun url => { url })) s ∧
      s.crawl.frontier.pending_ = 0 ∧ s.recorded = [(ascii "http://a/", 0)] :=
    Machine.exists_reaches_of_run loneSteps (by decide +kernel)
  obtain ⟨_, opened, _, recorded, _, all⟩ := crawl_in_order loneOptions (fun _ => .stored)
    guardedSite [ascii "http://a/"] (.create (fun _ => 0) 64 1) 0 (by decide) (by decide) reached
  exact ⟨s, reached, settled, first, by decide +kernel, all settled ▸ recorded⟩

end Crawler

end ShadowSe

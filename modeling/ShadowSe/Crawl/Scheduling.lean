import ShadowSe.Crawl.Exploring

/-! Whether the result of a crawl depends on how its workers interleave. A page that is
found first from a deeper page keeps the greater depth, and links behind a link already seen
are given up, so it does; where neither happens every crawl finds each page at its least
depth. -/

namespace ShadowSe

open Support

/-- A URL enqueued before the workers start. -/
structure Seed where
  url : Bytes
  depth : UInt32 := 0
  priority : Int := -1

/-- The options with another number of workers. -/
def CrawlerOptions.withWorkers (opts : CrawlerOptions) (count : Nat) : CrawlerOptions :=
  { opts with workerCount := count }

/-- The frontiers differ in their Bloom filters alone. -/
structure Frontier.Alike (f g : Frontier) : Prop where
  queue : f.queue_ = g.queue_
  seen : f.seenUrls_ = g.seenUrls_
  stop : f.stop_ = g.stop_
  pending : f.pending_ = g.pending_
  crawled : f.crawled_ = g.crawled_
  seq : f.seq_ = g.seq_

namespace CrawlState

variable {opts : CrawlerOptions} {bloom : BloomFilter}

/-- A user enqueues a seed. -/
def plant (opts : CrawlerOptions) (s : CrawlState) (seed : Seed) : CrawlState :=
  s.enqueue opts seed.url seed.depth seed.priority

/-- The frontier after a list of seeds. -/
def seeded (opts : CrawlerOptions) (bloom : BloomFilter) (seeds : List Seed) : CrawlState :=
  seeds.foldl (plant opts) (create bloom)

theorem frontier_enqueue (s : CrawlState) (url : Bytes) (depth : UInt32) (priority : Int) :
    (s.enqueue opts url depth priority).frontier =
      (s.frontier.enqueue opts url depth priority).2 := by
  unfold CrawlState.enqueue
  split <;> simp_all

theorem handed_enqueue (s : CrawlState) (url : Bytes) (depth : UInt32) (priority : Int) :
    (s.enqueue opts url depth priority).handed = s.handed := by
  unfold CrawlState.enqueue
  split <;> rfl

theorem alike_plant {s t : CrawlState} (alike : s.frontier.Alike t.frontier)
    {other : CrawlerOptions} (cap : opts.maxPages = other.maxPages) (seed : Seed) :
    (plant opts s seed).frontier.Alike (plant other t seed).frontier := by
  obtain ⟨queue, seen, stop, pending, crawled, seq⟩ := alike
  rw [plant, plant, frontier_enqueue, frontier_enqueue, Frontier.enqueue_eq, Frontier.enqueue_eq,
    Frontier.capReached, Frontier.capReached, stop, seen, cap, crawled, pending]
  split
  · exact ⟨queue, seen, stop, pending, crawled, seq⟩
  · constructor <;> simp [Frontier.accept, *]

/-- What the seeds leave depends neither on the Bloom filter nor on the number of workers. -/
theorem alike_seeded (seeds : List Seed) (bloom other : BloomFilter) {opts' : CrawlerOptions}
    (cap : opts.maxPages = opts'.maxPages) :
    (seeded opts bloom seeds).frontier.Alike (seeded opts' other seeds).frontier := by
  have initial : (create bloom).frontier.Alike (create other).frontier :=
    ⟨rfl, rfl, rfl, rfl, rfl, rfl⟩
  unfold seeded
  generalize create bloom = s at initial ⊢
  generalize create other = t at initial ⊢
  induction seeds generalizing s t with
  | nil => exact initial
  | cons seed rest ih => exact ih _ _ (alike_plant initial cap seed)

/-- What holds of the empty frontier and is kept by every seed holds after the seeds. -/
@[elab_as_elim]
theorem seeded_invariant {Inv : CrawlState → Prop} (seeds : List Seed)
    (initial : Inv (create bloom)) (kept : ∀ s seed, Inv s → Inv (plant opts s seed)) :
    Inv (seeded opts bloom seeds) := by
  unfold seeded
  generalize create bloom = s at initial ⊢
  induction seeds generalizing s with
  | nil => exact initial
  | cons seed rest ih => exact ih _ (kept s seed initial)

theorem seeded_reachable (seeds : List Seed) :
    (machine opts).Reachable (create bloom) (seeded opts bloom seeds) := by
  refine seeded_invariant seeds .refl fun s seed earlier => ?_
  exact .step (.enqueue seed.url seed.depth seed.priority) earlier trivial rfl

theorem handed_seeded (seeds : List Seed) : (seeded opts bloom seeds).handed = [] := by
  refine seeded_invariant seeds rfl fun s seed none => ?_
  rw [plant, handed_enqueue, none]

end CrawlState

namespace Crawler

variable {opts : CrawlerOptions} {layout : Layout} {site : Bytes → FetchResult}
  {bloom : BloomFilter} {clock : Int} {seeds : List Seed} {s t : Crawler}

def seeded (opts : CrawlerOptions) (bloom : BloomFilter) (clock : Int) (seeds : List Seed) :
    Crawler :=
  { create opts bloom clock with crawl := .seeded opts bloom seeds }

/-- A crawl of the seeds over a site, by any number of workers, ends in this state: nothing
is pending. -/
def CrawlsTo (opts : CrawlerOptions) (site : Bytes → FetchResult) (seeds : List Seed)
    (ok : Crawler → CrawlerStep → Prop) (s : Crawler) : Prop :=
  ∃ workers layout bloom clock,
    (machine (opts.withWorkers workers) layout).Reaches
      (fun state action => Undisturbed (opts.withWorkers workers) site state action ∧
        ok state action)
      (seeded (opts.withWorkers workers) bloom clock seeds) s ∧
    s.crawl.frontier.pending_ = 0

/-- The same URLs were fetched and the same depths recorded. -/
def SameResults (s t : Crawler) : Prop :=
  (∀ url, url ∈ s.fetchedUrls ↔ url ∈ t.fetchedUrls) ∧
    ∀ place, place ∈ s.recorded ↔ place ∈ t.recorded

theorem accounted_seeded (opts : CrawlerOptions) (bloom : BloomFilter) (clock : Int)
    (seeds : List Seed) : (seeded opts bloom clock seeds).crawl.Accounted opts :=
  CrawlState.accounted_of_reachable (CrawlState.seeded_reachable seeds)

theorem tracked_seeded (opts : CrawlerOptions) (site : Bytes → FetchResult) (bloom : BloomFilter)
    (clock : Int) (seeds : List Seed) : (seeded opts bloom clock seeds).Tracked opts site := by
  have processed := (accounted_seeded opts bloom clock seeds).processed
  simp only [seeded, CrawlState.handed_seeded, List.nil_perm, List.append_eq_nil_iff] at processed
  refine ⟨by simp [seeded, create], ?_, by simp [seeded, create, fetchedUrls]⟩
  simp [seeded, processed.2]

theorem mem_seen (books : s.crawl.Accounted opts) {url : Bytes} :
    url ∈ s.crawl.frontier.seenUrls_ ↔
      url ∈ s.crawl.frontier.queue_.map (·.url) ∨ url ∈ s.crawl.handed := by
  rw [books.seen, List.mem_toFinset, books.queued.mem_iff, List.mem_append]

theorem sound_seeded (opts : CrawlerOptions) (site : Bytes → FetchResult) (bloom : BloomFilter)
    (clock : Int) (seeds : List Seed) :
    Exploration.Sound (Works site) (Leads opts.maxDepth site)
      ((seeded opts bloom clock seeds).exploration opts site)
      ((seeded opts bloom clock seeds).exploration opts site) := by
  have books := accounted_seeded opts bloom clock seeds
  have handed : (seeded opts bloom clock seeds).crawl.handed = [] :=
    CrawlState.handed_seeded seeds
  have phases (worker : Nat) (phase : ProcessPhase) :
      (seeded opts bloom clock seeds).phases.lookup worker ≠ some phase := by
    simp [seeded, create]
  have waits (place : Bytes × Nat) :
      place ∈ ((seeded opts bloom clock seeds).exploration opts site).waiting ↔
        ∃ item ∈ (seeded opts bloom clock seeds).crawl.frontier.queue_, item.place = place := by
    apply or_iff_left
    rintro ⟨worker, phase, found, _⟩
    exact phases worker phase found
  have distinct : ((seeded opts bloom clock seeds).crawl.frontier.queue_.map (·.url)).Nodup := by
    have nodup := books.queued.nodup_iff.mp books.distinct
    rwa [handed, List.append_nil] at nodup
  apply Exploration.Sound.begin
  · exact Set.eq_empty_of_forall_notMem fun _ => List.not_mem_nil
  · apply Set.eq_empty_of_forall_notMem
    rintro link ⟨_, worker, phase, found, _⟩
    exact phases worker phase found
  · intro place member other second same
    obtain ⟨item, queued, rfl⟩ := (waits place).mp member
    obtain ⟨twin, queued', rfl⟩ := (waits other).mp second
    rw [List.inj_on_of_nodup_map distinct queued queued' same]
  · intro url
    refine (mem_seen books).trans ?_
    rw [handed]
    constructor
    · intro member
      obtain ⟨item, queued, rfl⟩ := List.mem_map.mp (member.resolve_right List.not_mem_nil)
      exact ⟨item.depth.toNat, (waits _).mpr ⟨item, queued, rfl⟩⟩
    · rintro ⟨depth, member⟩
      obtain ⟨item, queued, same⟩ := (waits _).mp member
      exact .inl (List.mem_map.mpr ⟨item, queued, congrArg Prod.fst same⟩)

theorem exploration_seeded (bloom bloom' : BloomFilter) (clock clock' : Int) (seeds : List Seed)
    {opts' : CrawlerOptions} (cap : opts.maxPages = opts'.maxPages)
    (depth : opts.maxDepth = opts'.maxDepth) :
    (seeded opts bloom clock seeds).exploration opts site =
      (seeded opts' bloom' clock' seeds).exploration opts' site := by
  have alike := CrawlState.alike_seeded seeds bloom bloom' cap
  ext place
  · simp only [exploration, seeded, alike.seen]
  · simp only [exploration, seeded, alike.queue, create]
  · rfl
  · simp only [exploration, seeded, depth, create]

/-- Along an undisturbed and timely crawl the books balance, the workers are tracked and the
exploration goes on. -/
theorem explored (opts : CrawlerOptions) (unchecked : opts.obeyRobots = false)
    (reached : (machine opts layout).Reaches
      (fun state action => Undisturbed opts site state action ∧ Timely state action)
      (seeded opts bloom clock seeds) s) :
    s.crawl.Accounted opts ∧ s.Tracked opts site ∧
      Exploration.Run (Works site) (Leads opts.maxDepth site)
        ((seeded opts bloom clock seeds).exploration opts site) (s.exploration opts site) := by
  refine reached.invariant ?_ ?_
  · exact ⟨accounted_seeded .., tracked_seeded .., .refl⟩
  · rintro before action after ⟨books, tracked, ran⟩ ⟨fair, timely⟩ taken
    refine ⟨?_, tracked.step books unchecked action fair taken, ?_⟩
    · rcases (step_matches action taken).crawl with same | ⟨step, done⟩
      · rwa [same]
      · exact books.step step done
    · exact ran.trans (explores tracked unchecked action fair timely taken)

/-- When nothing is pending the exploration is complete, and what was seen was fetched. -/
theorem complete_of_settled (books : s.crawl.Accounted opts) (tracked : s.Tracked opts site)
    (settled : s.crawl.frontier.pending_ = 0) :
    (s.exploration opts site).Complete ∧
      ∀ url, url ∈ s.fetchedUrls ↔ url ∈ s.crawl.frontier.seenUrls_ := by
  have pending := books.pending
  have empty : s.crawl.frontier.queue_ = [] := List.length_eq_zero_iff.mp (by omega)
  have idle : s.crawl.inFlight = [] := List.length_eq_zero_iff.mp (by omega)
  have outside (worker : Nat) (phase : ProcessPhase) :
      s.phases.lookup worker ≠ some phase := by
    intro found
    obtain ⟨item, busy, _⟩ := tracked.phases worker phase found
    exact List.not_mem_nil (idle ▸ CrawlState.mem_inFlight busy)
  refine ⟨⟨?_, ?_⟩, fun url => ⟨fun fetched => ?_, fun seen => ?_⟩⟩
  · apply Set.eq_empty_of_forall_notMem
    rintro place (⟨item, queued, _⟩ | ⟨worker, phase, found, _⟩)
    · exact List.not_mem_nil (empty ▸ queued)
    · exact outside worker phase found
  · apply Set.eq_empty_of_forall_notMem
    rintro link ⟨_, worker, phase, found, _⟩
    exact outside worker phase found
  · exact (mem_seen books).mpr (.inr (tracked.fetched url fetched))
  · have handed := ((mem_seen books).mp seen).resolve_left (by simp [empty])
    have completed := books.processed.mem_iff.mp handed
    rw [idle] at completed
    exact tracked.completed url completed

/-- Two crawls of a site from the same seeds, robots.txt aside and the page cap never
reached, fetch the same URLs and record the same depths, however many workers there are and
however they interleave, as long as in both every link refused as already seen, and every
link given up behind it, is known no deeper than one below the page. -/
theorem crawls_agree (opts : CrawlerOptions) (site : Bytes → FetchResult) (seeds : List Seed)
    (unchecked : opts.obeyRobots = false) (s t : Crawler)
    (first : CrawlsTo opts site seeds Timely s) (second : CrawlsTo opts site seeds Timely t) :
    SameResults s t := by
  obtain ⟨workers, layout, bloom, clock, reached, ended⟩ := first
  obtain ⟨workers', layout', bloom', clock', reached', ended'⟩ := second
  obtain ⟨books, tracked, ran⟩ := explored (opts.withWorkers workers) unchecked reached
  obtain ⟨books', tracked', ran'⟩ := explored (opts.withWorkers workers') unchecked reached'
  obtain ⟨complete, fetched⟩ := complete_of_settled books tracked ended
  obtain ⟨complete', fetched'⟩ := complete_of_settled books' tracked' ended'
  have sound := (sound_seeded (opts.withWorkers workers) site bloom clock seeds).run ran
  have sound' := (sound_seeded (opts.withWorkers workers') site bloom' clock' seeds).run ran'
  have begun : (seeded (opts.withWorkers workers') bloom' clock' seeds).exploration
      (opts.withWorkers workers') site =
        (seeded (opts.withWorkers workers) bloom clock seeds).exploration
          (opts.withWorkers workers) site :=
    exploration_seeded bloom' bloom clock' clock seeds rfl rfl
  rw [begun] at sound'
  have shallower (url : Bytes) (depth less : Nat) (target : Bytes)
      (leads : Leads opts.maxDepth site (url, depth) target) (shallow : less ≤ depth) :
      Leads opts.maxDepth site (url, less) target :=
    ⟨(Nat.succ_le_succ shallow).trans leads.1, leads.2⟩
  obtain ⟨opened, seen⟩ := sound.agree complete sound' complete' shallower
  constructor
  · intro url
    rw [fetched, fetched']
    exact Set.ext_iff.mp seen url
  · intro place
    exact Set.ext_iff.mp opened place

/-- A concrete run of the crawl, of which nothing is left pending. -/
theorem crawlsTo_of_run {ok : Crawler → CrawlerStep → Prop} [∀ s action, Decidable (ok s action)]
    (workers : Nat) (steps : List CrawlerStep) {holds : Crawler → Prop} [DecidablePred holds]
    (ran : (((machine (opts.withWorkers workers) fun _ => .stored).restrict fun s action =>
      Undisturbed (opts.withWorkers workers) site s action ∧ ok s action).run
        (seeded (opts.withWorkers workers) (.create (fun _ => 0) 64 1) 0 seeds) steps).any
          fun s => decide (s.crawl.frontier.pending_ = 0 ∧ holds s)) :
    ∃ s, CrawlsTo opts site seeds ok s ∧ holds s := by
  obtain ⟨s, reached, ended, held⟩ := Machine.exists_reaches_of_run steps ran
  exact ⟨s, ⟨workers, _, _, _, reached, ended⟩, held⟩

/-- A worker visits the page it has popped, up to a number of turns of its link loop. -/
def visit (site : Bytes → FetchResult) (worker : Nat) (url : Bytes) (turns : Nat) :
    List CrawlerStep :=
  [.start worker, .readLast worker, .checkWait worker, .grant worker, .fetch worker (site url),
    .index worker, .report worker] ++ List.replicate turns (.follow worker) ++ [.finish worker]

def twoSeeds : List Seed :=
  [{ url := ascii "http://a" }, { url := ascii "http://b" }]

def uncheckedOptions : CrawlerOptions :=
  { obeyRobots := false, domainDelay := 0 }

/-- Both seeds link to one page. -/
def sharedLink (url : Bytes) : FetchResult where
  ok := true
  html :=
    if url = ascii "http://a" ∨ url = ascii "http://b" then ascii "<a href='http://x'>" else []

/-- One worker takes the seeds in turn, or two workers take both and the second is faster. -/
theorem crawls_agree_sharedLink :
    ∃ s t, CrawlsTo uncheckedOptions sharedLink twoSeeds Timely s ∧
      CrawlsTo uncheckedOptions sharedLink twoSeeds Timely t ∧
      s.recorded = [(ascii "http://a", 0), (ascii "http://b", 0), (ascii "http://x", 1)] ∧
      t.recorded = [(ascii "http://b", 0), (ascii "http://a", 0), (ascii "http://x", 1)] ∧
      SameResults s t := by
  have alone : ∃ s, CrawlsTo uncheckedOptions sharedLink twoSeeds Timely s ∧
      s.recorded = [(ascii "http://a", 0), (ascii "http://b", 0), (ascii "http://x", 1)] :=
    crawlsTo_of_run 1 (.pop 0 :: visit sharedLink 0 (ascii "http://a") 2 ++
      .pop 0 :: visit sharedLink 0 (ascii "http://b") 1 ++
      .pop 0 :: visit sharedLink 0 (ascii "http://x") 1) (by decide +kernel)
  have together : ∃ t, CrawlsTo uncheckedOptions sharedLink twoSeeds Timely t ∧
      t.recorded = [(ascii "http://b", 0), (ascii "http://a", 0), (ascii "http://x", 1)] :=
    crawlsTo_of_run 2 (.pop 0 :: .pop 1 :: visit sharedLink 1 (ascii "http://b") 2 ++
      visit sharedLink 0 (ascii "http://a") 1 ++
      .pop 1 :: visit sharedLink 1 (ascii "http://x") 1) (by decide +kernel)
  obtain ⟨s, first, inTurn⟩ := alone
  obtain ⟨t, second, faster⟩ := together
  exact ⟨s, t, first, second, inTurn, faster,
    crawls_agree uncheckedOptions sharedLink twoSeeds rfl s t first second⟩

/-- A page linked from a seed, and from a page one link below the other seed. -/
def crossLinks (url : Bytes) : FetchResult where
  ok := true
  html :=
    if url = ascii "http://a" then ascii "<a href='http://x'><a href='http://y'>"
    else if url = ascii "http://b" then ascii "<a href='http://c'>"
    else if url = ascii "http://c" then ascii "<a href='http://x'>"
    else []

/-- When a second worker overtakes the one that holds the first seed, a page is recorded a
link too deep and the page behind it on the seed is never fetched. -/
theorem crawls_disagree :
    ∃ s t, uncheckedOptions.obeyRobots = false ∧
      CrawlsTo uncheckedOptions crossLinks twoSeeds (fun _ _ => True) s ∧
      CrawlsTo uncheckedOptions crossLinks twoSeeds (fun _ _ => True) t ∧
      ((ascii "http://x", 1) ∈ s.recorded ∧ (ascii "http://x", 2) ∈ t.recorded) ∧
      (ascii "http://y" ∈ s.fetchedUrls ∧ ascii "http://y" ∉ t.fetchedUrls) ∧
      ¬ SameResults s t := by
  have alone : ∃ s, CrawlsTo uncheckedOptions crossLinks twoSeeds (fun _ _ => True) s ∧
      (ascii "http://x", 1) ∈ s.recorded ∧ ascii "http://y" ∈ s.fetchedUrls :=
    crawlsTo_of_run 1 (.pop 0 :: visit crossLinks 0 (ascii "http://a") 3 ++
      .pop 0 :: visit crossLinks 0 (ascii "http://b") 2 ++
      .pop 0 :: visit crossLinks 0 (ascii "http://x") 1 ++
      .pop 0 :: visit crossLinks 0 (ascii "http://y") 1 ++
      .pop 0 :: visit crossLinks 0 (ascii "http://c") 1) (by decide +kernel)
  have overtaken : ∃ t, CrawlsTo uncheckedOptions crossLinks twoSeeds (fun _ _ => True) t ∧
      (ascii "http://x", 2) ∈ t.recorded ∧ ascii "http://y" ∉ t.fetchedUrls :=
    crawlsTo_of_run 2 (.pop 0 :: .pop 1 :: visit crossLinks 1 (ascii "http://b") 2 ++
      .pop 1 :: visit crossLinks 1 (ascii "http://c") 2 ++
      visit crossLinks 0 (ascii "http://a") 1 ++
      .pop 1 :: visit crossLinks 1 (ascii "http://x") 1) (by decide +kernel)
  obtain ⟨s, first, shallow, found⟩ := alone
  obtain ⟨t, second, deep, lost⟩ := overtaken
  exact ⟨s, t, rfl, first, second, ⟨shallow, deep⟩, ⟨found, lost⟩,
    fun same => lost ((same.1 _).mp found)⟩

end Crawler

end ShadowSe

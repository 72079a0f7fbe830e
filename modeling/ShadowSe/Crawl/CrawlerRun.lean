import ShadowSe.Crawl.Crawler

namespace ShadowSe

open Support

namespace Crawler

variable {opts : CrawlerOptions} {layout : Layout} {s next : Crawler} {worker : Nat}

theorem step_pop (taken : step opts layout s (.pop worker) = some next) :
    ∃ crawl item, s.phases.lookup worker = none ∧
      s.crawl.step opts (.pop worker) = some crawl ∧
      crawl.workers[worker]? = some (.processing item) ∧
      next = { s.setPhase worker (.started item) with crawl } := by
  simp only [step] at taken
  split at taken
  · rename_i outside
    obtain ⟨crawl, popped, entered⟩ := Option.bind_eq_some_iff.mp taken
    split at entered
    · rename_i item busy
      exact ⟨crawl, item, outside, popped, busy, (Option.some.inj entered).symm⟩
    · cases entered
  · cases taken

theorem beginWait_some {item : Item} {phase : ProcessPhase}
    (begun : s.beginWait opts worker item phase = some next) :
    ∃ politeness, s.politeness.step opts (.call worker (domainOf item.url)) = some politeness ∧
      next = { s.setPhase worker phase with politeness } := by
  obtain ⟨politeness, called, same⟩ := Option.map_eq_some_iff.mp begun
  exact ⟨politeness, called, same.symm⟩

/-- The robots step is skipped only when robots.txt is not obeyed or the URL looks like one. -/
theorem step_start (taken : step opts layout s (.start worker) = some next) :
    ∃ item, s.phases.lookup worker = some (.started item) ∧
      (opts.obeyRobots = true ∧ s.beginWait opts worker item (.waitingLoad item) = some next ∨
        opts.obeyRobots = true ∧ s.robots.robots.hasRules item.url = true ∧
          next = s.setPhase worker (.deciding item) ∨
        (opts.obeyRobots = false ∨ isRobotsUrl item.url = true) ∧
          s.beginWait opts worker item (.waitingPage item) = some next) := by
  simp only [step] at taken
  split at taken
  · rename_i item started
    refine ⟨item, started, ?_⟩
    split at taken
    · rename_i checked
      have obeys : opts.obeyRobots = true := (Bool.and_eq_true _ _ ▸ checked).1
      split at taken
      · exact .inl ⟨obeys, taken⟩
      · rename_i ruled
        exact .inr (.inl ⟨obeys, by simpa using ruled, (Option.some.inj taken).symm⟩)
    · rename_i skipped
      refine .inr (.inr ⟨?_, taken⟩)
      cases obeys : opts.obeyRobots <;> simp_all
  · cases taken

theorem step_grant (taken : step opts layout s (.grant worker) = some next) :
    ∃ politeness item, s.politeness.step opts (.grant worker) = some politeness ∧
      (s.phases.lookup worker = some (.waitingLoad item) ∧
          next = { s.setPhase worker (.loadDomain item) with politeness } ∨
        s.phases.lookup worker = some (.waitingPage item) ∧
          next = { s.setPhase worker (.fetching item) with politeness }) := by
  obtain ⟨politeness, granted, entered⟩ := Option.bind_eq_some_iff.mp taken
  split at entered
  · rename_i item waiting
    exact ⟨politeness, item, granted, .inl ⟨waiting, (Option.some.inj entered).symm⟩⟩
  · rename_i item waiting
    exact ⟨politeness, item, granted, .inr ⟨waiting, (Option.some.inj entered).symm⟩⟩
  · cases entered

theorem step_load (taken : step opts layout s (.load worker) = some next) :
    ∃ item robots, s.phases.lookup worker = some (.loadDomain item) ∧
      s.robots.step (.call worker item.url) = some robots ∧
      next = { s.setPhase worker (if (robots.calls.lookup worker).isSome then .loading item
        else .deciding item) with robots } := by
  simp only [step] at taken
  split at taken
  · rename_i item entered
    obtain ⟨robots, called, same⟩ := Option.map_eq_some_iff.mp taken
    exact ⟨item, robots, entered, called, same.symm⟩
  · cases taken

theorem step_fetchRobots {res : FetchResult}
    (taken : step opts layout s (.fetchRobots worker res) = some next) :
    ∃ robots, s.robots.step (.fetch worker res) = some robots ∧ next = { s with robots } := by
  obtain ⟨robots, fetched, same⟩ := Option.map_eq_some_iff.mp taken
  exact ⟨robots, fetched, same.symm⟩

theorem step_storeRobots (taken : step opts layout s (.storeRobots worker) = some next) :
    ∃ item robots, s.phases.lookup worker = some (.loading item) ∧
      s.robots.step (.store worker) = some robots ∧
      next = { s.setPhase worker (.deciding item) with robots } := by
  simp only [step] at taken
  split at taken
  · rename_i item entered
    obtain ⟨robots, stored, same⟩ := Option.map_eq_some_iff.mp taken
    exact ⟨item, robots, entered, stored, same.symm⟩
  · cases taken

theorem step_decide (taken : step opts layout s (.decide worker) = some next) :
    ∃ item, s.phases.lookup worker = some (.deciding item) ∧
      (s.robots.robots.allowed item.url = false ∧
          next = s.setPhase worker (.rejecting item (ascii "blocked by robots.txt")) ∨
        s.robots.robots.allowed item.url = true ∧
          s.beginWait opts worker item (.waitingPage item) = some next) := by
  simp only [step] at taken
  split at taken
  · rename_i item deciding
    refine ⟨item, deciding, ?_⟩
    split at taken
    · rename_i refused
      exact .inl ⟨by simpa using refused, (Option.some.inj taken).symm⟩
    · rename_i permitted
      exact .inr ⟨by simpa using permitted, taken⟩
  · cases taken

/-- A page is handed to the fetcher with the policies as they are now. -/
theorem step_fetch {res : FetchResult}
    (taken : step opts layout s (.fetch worker res) = some next) :
    ∃ item, s.phases.lookup worker = some (.fetching item) ∧
      (res.ok = false ∧ next = { s.setPhase worker (.rejecting item res.error) with
          fetches := s.fetches ++ [⟨item.url, s.robots.robots⟩] } ∨
        res.ok = true ∧ next = { s.setPhase worker (.indexing item res.html) with
          fetches := s.fetches ++ [⟨item.url, s.robots.robots⟩] }) := by
  simp only [step] at taken
  split at taken
  · rename_i item fetching
    refine ⟨item, fetching, ?_⟩
    split at taken
    · rename_i failed
      exact .inl ⟨by simpa using failed, (Option.some.inj taken).symm⟩
    · rename_i succeeded
      exact .inr ⟨by simpa using succeeded, (Option.some.inj taken).symm⟩
  · cases taken

theorem step_index (taken : step opts layout s (.index worker) = some next) :
    ∃ item html, s.phases.lookup worker = some (.indexing item html) ∧
      next = { s.setPhase worker (.reporting item html
          (s.index.addDocumentLocked layout (pageDocument item html)).2) with
        index := (s.index.addDocumentLocked layout (pageDocument item html)).1
        filed := s.filed ++ [{ pageDocument item html with
          id := (s.index.addDocumentLocked layout (pageDocument item html)).2 }] } := by
  simp only [step] at taken
  split at taken
  · rename_i item html indexing
    exact ⟨item, html, indexing, (Option.some.inj taken).symm⟩
  · cases taken

theorem step_report (taken : step opts layout s (.report worker) = some next) :
    ∃ item, (∃ error, s.phases.lookup worker = some (.rejecting item error) ∧
        next = { s.setPhase worker .finished with onErr := s.onErr ++ [(item.url, error)] }) ∨
      ∃ html id, s.phases.lookup worker = some (.reporting item html id) ∧
        next = { s.setPhase worker (.following item (linksToFollow opts item html)) with
          onDoc := s.onDoc ++ [{ pageDocument item html with id }] } := by
  simp only [step] at taken
  split at taken
  · rename_i item error rejecting
    exact ⟨item, .inl ⟨error, rejecting, (Option.some.inj taken).symm⟩⟩
  · rename_i item html id reporting
    exact ⟨item, .inr ⟨html, id, reporting, (Option.some.inj taken).symm⟩⟩
  · cases taken

theorem step_follow (taken : step opts layout s (.follow worker) = some next) :
    ∃ item, (s.phases.lookup worker = some (.following item []) ∧
        next = s.setPhase worker .finished) ∨
      ∃ link links, s.phases.lookup worker = some (.following item (link :: links)) ∧
        next = { s.setPhase worker (if !(s.crawl.frontier.enqueue opts link (item.depth + 1)
            (castInt (item.depth + 1))).1 then .finished else .following item links) with
          crawl := s.crawl.enqueue opts link (item.depth + 1) (castInt (item.depth + 1)) } := by
  simp only [step] at taken
  split at taken
  · rename_i item following
    exact ⟨item, .inl ⟨following, (Option.some.inj taken).symm⟩⟩
  · rename_i item link links following
    exact ⟨item, .inr ⟨link, links, following, (Option.some.inj taken).symm⟩⟩
  · cases taken

theorem step_finish (taken : step opts layout s (.finish worker) = some next) :
    ∃ crawl, s.phases.lookup worker = some .finished ∧
      s.crawl.step opts (.complete worker) = some crawl ∧
      next = { s with crawl, phases := s.phases.erase worker } := by
  simp only [step] at taken
  split at taken
  · rename_i finished
    obtain ⟨crawl, completed, same⟩ := Option.map_eq_some_iff.mp taken
    exact ⟨crawl, finished, completed, same.symm⟩
  · cases taken

/-- What a step of the crawler is to its frontier, its politeness table and its cache. -/
structure Matches (opts : CrawlerOptions) (s next : Crawler) : Prop where
  crawl : next.crawl = s.crawl ∨ ∃ step, s.crawl.step opts step = some next.crawl
  politeness : next.politeness = s.politeness ∨
    ∃ step, s.politeness.step opts step = some next.politeness
  robots : next.robots = s.robots ∨ ∃ step, s.robots.step step = some next.robots

private theorem matches_crawl (action : CrawlStep)
    (taken : (s.crawl.step opts action).map (fun crawl => { s with crawl }) = some next) :
    Matches opts s next := by
  obtain ⟨crawl, done, rfl⟩ := Option.map_eq_some_iff.mp taken
  exact ⟨.inr ⟨action, done⟩, .inl rfl, .inl rfl⟩

private theorem matches_politeness (action : WaitStep)
    (taken : (s.politeness.step opts action).map (fun politeness => { s with politeness }) =
      some next) : Matches opts s next := by
  obtain ⟨politeness, done, rfl⟩ := Option.map_eq_some_iff.mp taken
  exact ⟨.inl rfl, .inr ⟨action, done⟩, .inl rfl⟩

private theorem matches_beginWait {item : Item} {phase : ProcessPhase}
    (begun : s.beginWait opts worker item phase = some next) : Matches opts s next := by
  obtain ⟨politeness, called, rfl⟩ := beginWait_some begun
  exact ⟨.inl rfl, .inr ⟨_, called⟩, .inl rfl⟩

/-- Every step of the crawler is at most one step of each part. -/
theorem step_matches (action : CrawlerStep) (taken : step opts layout s action = some next) :
    Matches opts s next := by
  cases action with
  | enqueue url depth priority => exact matches_crawl (.enqueue url depth priority) taken
  | stop => exact matches_crawl .stop taken
  | join => exact matches_crawl .join taken
  | leave worker => exact matches_crawl (.leave worker) taken
  | tick elapsed => exact matches_politeness (.tick elapsed) taken
  | readLast worker => exact matches_politeness (.read worker) taken
  | checkWait worker => exact matches_politeness (.check worker) taken
  | pop worker =>
    obtain ⟨crawl, item, _, popped, _, rfl⟩ := step_pop taken
    exact ⟨.inr ⟨_, popped⟩, .inl rfl, .inl rfl⟩
  | start worker =>
    rcases step_start taken with ⟨item, _, ⟨_, begun⟩ | ⟨_, _, rfl⟩ | ⟨_, begun⟩⟩
    · exact matches_beginWait begun
    · exact ⟨.inl rfl, .inl rfl, .inl rfl⟩
    · exact matches_beginWait begun
  | grant worker =>
    rcases step_grant taken with ⟨politeness, item, granted, ⟨_, rfl⟩ | ⟨_, rfl⟩⟩
    · exact ⟨.inl rfl, .inr ⟨_, granted⟩, .inl rfl⟩
    · exact ⟨.inl rfl, .inr ⟨_, granted⟩, .inl rfl⟩
  | load worker =>
    obtain ⟨item, robots, _, called, rfl⟩ := step_load taken
    exact ⟨.inl rfl, .inl rfl, .inr ⟨_, called⟩⟩
  | fetchRobots worker res =>
    obtain ⟨robots, fetched, rfl⟩ := step_fetchRobots taken
    exact ⟨.inl rfl, .inl rfl, .inr ⟨_, fetched⟩⟩
  | storeRobots worker =>
    obtain ⟨item, robots, _, stored, rfl⟩ := step_storeRobots taken
    exact ⟨.inl rfl, .inl rfl, .inr ⟨_, stored⟩⟩
  | decide worker =>
    rcases step_decide taken with ⟨item, _, ⟨_, rfl⟩ | ⟨_, begun⟩⟩
    · exact ⟨.inl rfl, .inl rfl, .inl rfl⟩
    · exact matches_beginWait begun
  | fetch worker res =>
    rcases step_fetch taken with ⟨item, _, ⟨_, rfl⟩ | ⟨_, rfl⟩⟩
    · exact ⟨.inl rfl, .inl rfl, .inl rfl⟩
    · exact ⟨.inl rfl, .inl rfl, .inl rfl⟩
  | index worker =>
    obtain ⟨item, html, _, rfl⟩ := step_index taken
    exact ⟨.inl rfl, .inl rfl, .inl rfl⟩
  | report worker =>
    rcases step_report taken with ⟨item, ⟨_, _, rfl⟩ | ⟨_, _, _, rfl⟩⟩
    · exact ⟨.inl rfl, .inl rfl, .inl rfl⟩
    · exact ⟨.inl rfl, .inl rfl, .inl rfl⟩
  | follow worker =>
    rcases step_follow taken with ⟨item, ⟨_, rfl⟩ | ⟨link, links, _, rfl⟩⟩
    · exact ⟨.inl rfl, .inl rfl, .inl rfl⟩
    · exact ⟨.inr ⟨.enqueue link (item.depth + 1) (castInt (item.depth + 1)), rfl⟩, .inl rfl,
        .inl rfl⟩
  | finish worker =>
    obtain ⟨crawl, _, completed, rfl⟩ := step_finish taken
    exact ⟨.inr ⟨_, completed⟩, .inl rfl, .inl rfl⟩

/-- A run of the crawler is a run of its frontier. -/
theorem crawl_reachable {start : Crawler} (reached : (machine opts layout).Reachable start s) :
    (CrawlState.machine opts).Reachable start.crawl s.crawl :=
  reached.view (·.crawl) fun _ action _ _ taken =>
    (step_matches action taken).crawl.imp_right fun ⟨step, done⟩ => ⟨step, trivial, done⟩

theorem politeness_reachable {start : Crawler}
    (reached : (machine opts layout).Reachable start s) :
    (Politeness.machine opts).Reachable start.politeness s.politeness :=
  reached.view (·.politeness) fun _ action _ _ taken =>
    (step_matches action taken).politeness.imp_right fun ⟨step, done⟩ => ⟨step, trivial, done⟩

theorem robots_reachable {start : Crawler} (reached : (machine opts layout).Reachable start s) :
    RobotsCache.machine.Reachable start.robots s.robots :=
  reached.view (·.robots) fun _ action _ _ taken =>
    (step_matches action taken).robots.imp_right fun ⟨step, done⟩ => ⟨step, trivial, done⟩

/-- The books of the frontier balance at every point of a crawl. -/
theorem accounted {bloom : BloomFilter} {clock : Int}
    (reached : (machine opts layout).Reachable (create opts bloom clock) s) :
    s.crawl.Accounted opts :=
  CrawlState.accounted_of_reachable (crawl_reachable reached)

end Crawler

end ShadowSe

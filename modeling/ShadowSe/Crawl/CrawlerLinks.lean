import ShadowSe.Crawl.CrawlerRun
import ShadowSe.Crawl.LinkLoop

namespace ShadowSe

open Support

namespace CrawlState

variable {opts : CrawlerOptions} {depth : UInt32} {s middle : CrawlState}

theorem enqueueLinks_accepted (turn : LinkTurn)
    (others : (machine opts).run s turn.others = some middle)
    (accepted : (middle.frontier.enqueue opts turn.link depth (castInt depth)).1 = true)
    (rest : List LinkTurn) : s.enqueueLinks opts depth (turn :: rest) =
      ((middle.enqueue opts turn.link depth (castInt depth)).enqueueLinks opts depth rest).map
        fun result => { result with asked := middle :: result.asked } := by
  simp [enqueueLinks, others, accepted]

theorem enqueueLinks_refused (turn : LinkTurn)
    (others : (machine opts).run s turn.others = some middle)
    (refused : (middle.frontier.enqueue opts turn.link depth (castInt depth)).1 = false)
    (rest : List LinkTurn) : s.enqueueLinks opts depth (turn :: rest) =
      some ⟨[middle], middle.enqueue opts turn.link depth (castInt depth)⟩ := by
  simp [enqueueLinks, others, refused]

/-- The loop over some turns comes to a state in which it goes on with the rest. -/
def Resumes (opts : CrawlerOptions) (depth : UInt32) (start : CrawlState)
    (passed : List LinkTurn) (asked : List CrawlState) (middle : CrawlState) : Prop :=
  ∀ rest, start.enqueueLinks opts depth (passed ++ rest) =
    (middle.enqueueLinks opts depth rest).map fun result =>
      { result with asked := asked ++ result.asked }

end CrawlState

namespace Crawler

variable {opts : CrawlerOptions} {layout : Layout} {s next : Crawler}

@[simp] theorem lookup_setPhase (s : Crawler) {worker other : Nat} (differs : other ≠ worker)
    (phase : ProcessPhase) : (s.setPhase worker phase).phases.lookup other =
      s.phases.lookup other := by
  simp [setPhase, differs]

theorem following_kept {worker : Nat} {item : Item} {links : List Bytes}
    (following : s.phases.lookup worker = some (.following item links)) (action : CrawlerStep)
    (away : action ≠ .follow worker) (taken : step opts layout s action = some next) :
    next.phases.lookup worker = some (.following item links) := by
  -- A step that needs another phase is another worker's.
  have other {mover : Nat} {phase : Option ProcessPhase}
      (found : s.phases.lookup mover = phase)
      (differs : phase ≠ some (.following item links)) : worker ≠ mover := by
    rintro rfl
    exact differs (found.symm.trans following)
  have waited {mover : Nat} {page : Item} {phase : ProcessPhase} (differs : worker ≠ mover)
      (begun : s.beginWait opts mover page phase = some next) :
      next.phases.lookup worker = some (.following item links) := by
    obtain ⟨politeness, _, rfl⟩ := beginWait_some begun
    exact (lookup_setPhase s differs phase).trans following
  cases action with
  | enqueue url depth priority => cases Option.some.inj taken; exact following
  | stop => cases Option.some.inj taken; exact following
  | join => obtain ⟨_, _, rfl⟩ := Option.map_eq_some_iff.mp taken; exact following
  | tick elapsed => cases Option.some.inj taken; exact following
  | leave mover => obtain ⟨_, _, rfl⟩ := Option.map_eq_some_iff.mp taken; exact following
  | readLast mover => obtain ⟨_, _, rfl⟩ := Option.map_eq_some_iff.mp taken; exact following
  | checkWait mover => obtain ⟨_, _, rfl⟩ := Option.map_eq_some_iff.mp taken; exact following
  | fetchRobots mover res => obtain ⟨_, _, rfl⟩ := step_fetchRobots taken; exact following
  | pop mover =>
    obtain ⟨crawl, page, outside, _, _, rfl⟩ := step_pop taken
    exact (lookup_setPhase s (other outside (by simp)) _).trans following
  | start mover =>
    obtain ⟨page, started, step⟩ := step_start taken
    have differs := other started (by simp)
    rcases step with ⟨_, begun⟩ | ⟨_, _, rfl⟩ | ⟨_, begun⟩
    · exact waited differs begun
    · exact (lookup_setPhase s differs _).trans following
    · exact waited differs begun
  | grant mover =>
    obtain ⟨politeness, page, _, step⟩ := step_grant taken
    rcases step with ⟨waiting, rfl⟩ | ⟨waiting, rfl⟩
    · exact (lookup_setPhase s (other waiting (by simp)) _).trans following
    · exact (lookup_setPhase s (other waiting (by simp)) _).trans following
  | load mover =>
    obtain ⟨page, robots, entered, _, rfl⟩ := step_load taken
    exact (lookup_setPhase s (other entered (by simp)) _).trans following
  | storeRobots mover =>
    obtain ⟨page, robots, loading, _, rfl⟩ := step_storeRobots taken
    exact (lookup_setPhase s (other loading (by simp)) _).trans following
  | decide mover =>
    obtain ⟨page, deciding, step⟩ := step_decide taken
    have differs := other deciding (by simp)
    rcases step with ⟨_, rfl⟩ | ⟨_, begun⟩
    · exact (lookup_setPhase s differs _).trans following
    · exact waited differs begun
  | fetch mover res =>
    obtain ⟨page, fetching, step⟩ := step_fetch taken
    have differs := other fetching (by simp)
    rcases step with ⟨_, rfl⟩ | ⟨_, rfl⟩
    · exact (lookup_setPhase s differs _).trans following
    · exact (lookup_setPhase s differs _).trans following
  | index mover =>
    obtain ⟨page, html, indexing, rfl⟩ := step_index taken
    exact (lookup_setPhase s (other indexing (by simp)) _).trans following
  | report mover =>
    rcases step_report taken with ⟨page, ⟨error, reporting, rfl⟩ | ⟨html, id, reporting, rfl⟩⟩
    · exact (lookup_setPhase s (other reporting (by simp)) _).trans following
    · exact (lookup_setPhase s (other reporting (by simp)) _).trans following
  | follow mover =>
    have differs : worker ≠ mover := by
      rintro rfl
      exact away rfl
    obtain ⟨page, step⟩ := step_follow taken
    rcases step with ⟨_, rfl⟩ | ⟨link, rest, _, rfl⟩
    · exact (lookup_setPhase s differs _).trans following
    · exact (lookup_setPhase s differs _).trans following
  | finish mover =>
    obtain ⟨crawl, finished, _, rfl⟩ := step_finish taken
    rw [Table.lookup_erase_ite, if_neg (other finished (by simp)), following]

/-- How far the link loop of a worker has come. -/
inductive LoopProgress (opts : CrawlerOptions) (start : CrawlState) (worker : Nat) (item : Item)
    (links : List Bytes) (s : Crawler) : Prop where
  | inside (passed : List LinkTurn) (rest : List Bytes) (asked : List CrawlState)
      (middle : CrawlState) (others : List CrawlStep)
      (split : links = passed.map (·.link) ++ rest)
      (resumes : CrawlState.Resumes opts (item.depth + 1) start passed asked middle)
      (meanwhile : (CrawlState.machine opts).run middle others = some s.crawl)
      (following : s.phases.lookup worker = some (.following item rest))
  | ended (turns : List LinkTurn) (result : LinkResult) (all : turns.map (·.link) = links)
      (ran : start.enqueueLinks opts (item.depth + 1) turns = some result)
      (later : (CrawlState.machine opts).Reachable result.last s.crawl)

private theorem loopProgress_follow {start : CrawlState} {worker : Nat} {item : Item}
    {links rest : List Bytes} {passed : List LinkTurn} {asked : List CrawlState}
    {middle : CrawlState} {others : List CrawlStep} (split : links = passed.map (·.link) ++ rest)
    (resumes : CrawlState.Resumes opts (item.depth + 1) start passed asked middle)
    (meanwhile : (CrawlState.machine opts).run middle others = some s.crawl)
    (following : s.phases.lookup worker = some (.following item rest))
    (taken : step opts layout s (.follow worker) = some next) :
    LoopProgress opts start worker item links next := by
  obtain ⟨page, step⟩ := step_follow taken
  rcases step with ⟨found, rfl⟩ | ⟨link, behind, found, rfl⟩
  · cases Option.some.inj (found.symm.trans following)
    refine .ended passed ⟨asked ++ [], middle⟩ (by simp [split]) ?_
      (Machine.reachable_of_run meanwhile)
    have ran := resumes []
    rwa [List.append_nil] at ran
  · cases Option.some.inj (found.symm.trans following)
    cases answer : (s.crawl.frontier.enqueue opts link (item.depth + 1)
        (castInt (item.depth + 1))).1 with
    | true =>
      refine .inside (passed ++ [⟨others, link⟩]) behind (asked ++ [s.crawl]) _ []
        (by simp [split]) ?_ rfl (by simp [setPhase])
      intro more
      have offered := CrawlState.enqueueLinks_accepted ⟨others, link⟩ meanwhile answer more
      rw [List.append_assoc, List.singleton_append, resumes, offered, Option.map_map]
      refine congrFun (congrArg Option.map (funext fun result => ?_)) _
      simp
    | false =>
      have offered := CrawlState.enqueueLinks_refused ⟨others, link⟩ meanwhile answer
        (behind.map fun link => ⟨[], link⟩)
      refine .ended (passed ++ ⟨others, link⟩ :: behind.map fun link => ⟨[], link⟩)
        ⟨asked ++ [s.crawl], _⟩ (by simp [split, Function.comp_def]) ?_ .refl
      rw [resumes, offered]
      rfl

/-- Every step of the crawler takes the loop of a worker on, or leaves it where it is. -/
theorem LoopProgress.step {start : CrawlState} {worker : Nat} {item : Item} {links : List Bytes}
    (progress : LoopProgress opts start worker item links s) (action : CrawlerStep)
    (taken : Crawler.step opts layout s action = some next) :
    LoopProgress opts start worker item links next := by
  have moved := (step_matches action taken).crawl
  cases progress with
  | inside passed rest asked middle others split resumes meanwhile following =>
    by_cases own : action = .follow worker
    · subst action
      exact loopProgress_follow split resumes meanwhile following taken
    · have kept := following_kept following action own taken
      rcases moved with same | ⟨step, done⟩
      · exact .inside passed rest asked middle others split resumes (same ▸ meanwhile) kept
      · refine .inside passed rest asked middle (others ++ [step]) split resumes ?_ kept
        rw [Machine.run_append, meanwhile]
        simp [Machine.run, CrawlState.machine, done]
  | ended turns result all ran later =>
    rcases moved with same | ⟨step, done⟩
    · exact .ended turns result all ran (same ▸ later)
    · exact .ended turns result all ran (.step step later trivial done)

/-- Once a worker has left its links, what it did with them is the link loop over the
frontier, with some steps of other threads before each turn. -/
theorem followed_links {start : Crawler} {worker : Nat} {item : Item} {links : List Bytes}
    (following : start.phases.lookup worker = some (.following item links))
    (reached : (machine opts layout).Reachable start s)
    (left : ∀ rest, s.phases.lookup worker ≠ some (.following item rest)) :
    ∃ turns result, turns.map (·.link) = links ∧
      start.crawl.enqueueLinks opts (item.depth + 1) turns = some result ∧
      (CrawlState.machine opts).Reachable result.last s.crawl := by
  have progress : LoopProgress opts start.crawl worker item links s := by
    refine reached.invariant ?_ fun _ action _ progress _ taken => progress.step action taken
    refine .inside [] links [] start.crawl [] rfl (fun rest => ?_) rfl following
    simp
  cases progress with
  | inside _ rest _ _ _ _ _ _ still => exact absurd still (left rest)
  | ended turns result all ran later => exact ⟨turns, result, all, ran, later⟩

end Crawler

end ShadowSe

import ShadowSe.Crawl.FrontierRun
import ShadowSe.Crawl.Html

/-! Following the links of a page. The loop ends at the first link that `enqueue` refuses,
whatever the reason, so a link already seen can hide the new ones behind it. -/

namespace ShadowSe

open Support

/-- A link of the page, with the steps of other threads since the previous one. -/
structure LinkTurn where
  others : List CrawlStep
  link : Bytes

/-- The states in which a link's turn came, and the state after the loop. -/
structure LinkResult where
  asked : List CrawlState
  last : CrawlState

namespace CrawlState

variable {opts : CrawlerOptions} {depth : UInt32} {s next : CrawlState}

/-- The link loop of `process`, at the depth of the links. -/
def enqueueLinks (opts : CrawlerOptions) (depth : UInt32) :
    CrawlState → List LinkTurn → Option LinkResult
  | s, [] => some ⟨[], s⟩
  | s, turn :: rest =>
    ((machine opts).run s turn.others).bind fun s =>
      let accepted := (s.frontier.enqueue opts turn.link depth (castInt depth)).1
      let next := s.enqueue opts turn.link depth (castInt depth)
      if !accepted then some ⟨[s], next⟩
      else (enqueueLinks opts depth next rest).map fun result =>
        { result with asked := s :: result.asked }

/-- The links in their order, with what other threads do before each. -/
def linkTurns (others : Nat → List CrawlStep) (links : List Bytes) : List LinkTurn :=
  links.mapIdx fun i link => ⟨others i, link⟩

/-- The part of `process` that follows the links of a fetched page. -/
def followLinks (opts : CrawlerOptions) (s : CrawlState) (html url : Bytes) (depth : UInt32)
    (others : Nat → List CrawlStep) : Option LinkResult :=
  if depth + 1 ≤ opts.maxDepth then
    s.enqueueLinks opts (depth + 1) (linkTurns others (htmlExtractLinks html url))
  else some ⟨[], s⟩

/-- The crawler was stopped or the page cap is in force. -/
def Closed (opts : CrawlerOptions) (s : CrawlState) : Prop :=
  s.frontier.stop_ = true ∨ s.frontier.capReached opts = true

instance : Decidable (s.Closed opts) :=
  inferInstanceAs (Decidable (_ ∨ _))

/-- Every link is seen after the loop, unless the frontier was closed at a link's turn.
A closed frontier ends the loop and stays closed. -/
def NoneLost (opts : CrawlerOptions) (links : List Bytes) (result : LinkResult) : Prop :=
  ∀ link ∈ links, link ∈ result.last.frontier.seenUrls_ ∨
    ∃ state ∈ result.asked, state.Closed opts

instance (links : List Bytes) (result : LinkResult) : Decidable (NoneLost opts links result) :=
  inferInstanceAs (Decidable (∀ link ∈ links, _ ∨ ∃ state ∈ result.asked, state.Closed opts))

/-- The steps of a loop in which every link has its turn. -/
def linkSteps (depth : UInt32) (turns : List LinkTurn) : List CrawlStep :=
  turns.flatMap fun turn => turn.others ++ [.enqueue turn.link depth (castInt depth)]

/-- A link that is already seen when its turn comes to an open frontier has only seen
links behind it. -/
def SeenLast (opts : CrawlerOptions) (depth : UInt32) (s : CrawlState) (turns : List LinkTurn) :
    Prop :=
  ∀ before turn after, turns = before ++ turn :: after →
    ∀ state, (machine opts).run s (linkSteps depth before ++ turn.others) = some state →
      ¬ state.Closed opts → turn.link ∈ state.frontier.seenUrls_ →
        ∀ later ∈ after, later.link ∈ state.frontier.seenUrls_

theorem seen_step (action : CrawlStep) (taken : step opts s action = some next) :
    s.frontier.seenUrls_ ⊆ next.frontier.seenUrls_ := by
  cases action with
  | enqueue url depth priority =>
    cases Option.some.inj taken
    rcases enqueue_cases opts s url depth priority with same | ⟨_, _, _, called⟩
    · rw [same]
    · rw [called]
      exact Finset.subset_insert _ _
  | stop => cases Option.some.inj taken; rfl
  | pop worker => obtain ⟨_, _, _, _, rfl⟩ := step_pop taken; rfl
  | leave worker => obtain ⟨_, _, _, rfl⟩ := step_leave taken; rfl
  | complete worker => obtain ⟨_, _, rfl⟩ := step_complete taken; rfl
  | join => obtain ⟨_, _, rfl⟩ := step_join taken; rfl

theorem closed_step (closed : s.Closed opts) (action : CrawlStep)
    (taken : step opts s action = some next) : next.Closed opts := by
  cases action with
  | enqueue url depth priority =>
    cases Option.some.inj taken
    rcases enqueue_cases opts s url depth priority with same | ⟨going, room, _⟩
    · rwa [same]
    · simp only [Closed, going, Bool.false_eq_true, Frontier.capReached, decide_eq_true_eq,
        false_or] at closed
      exact absurd room (Nat.not_lt.mpr closed)
  | stop => cases Option.some.inj taken; exact .inl rfl
  | pop worker => obtain ⟨_, _, _, _, rfl⟩ := step_pop taken; exact closed
  | leave worker => obtain ⟨_, _, _, rfl⟩ := step_leave taken; exact closed
  | complete worker =>
    obtain ⟨item, _, rfl⟩ := step_complete taken
    refine closed.imp_right fun capped => ?_
    have capped : opts.maxPages ≤ s.frontier.crawled_ + s.frontier.pending_ :=
      of_decide_eq_true capped
    have later : opts.maxPages ≤ s.frontier.crawled_ + 1 + (s.frontier.pending_ - 1) := by omega
    exact decide_eq_true later
  | join => obtain ⟨_, _, rfl⟩ := step_join taken; exact closed

theorem seen_run {actions : List CrawlStep} (ran : (machine opts).run s actions = some next) :
    s.frontier.seenUrls_ ⊆ next.frontier.seenUrls_ :=
  (Machine.reachable_of_run ran).invariant (Finset.Subset.refl _)
    fun _ action _ held _ taken => held.trans (seen_step action taken)

theorem closed_run (closed : s.Closed opts) {actions : List CrawlStep}
    (ran : (machine opts).run s actions = some next) : next.Closed opts :=
  (Machine.reachable_of_run ran).invariant closed fun _ action _ held _ taken =>
    closed_step held action taken

theorem enqueue_refused (depth : UInt32) (link : Bytes)
    (refused : s.Closed opts ∨ link ∈ s.frontier.seenUrls_) :
    (s.frontier.enqueue opts link depth (castInt depth)).1 = false ∧
      s.enqueue opts link depth (castInt depth) = s := by
  have checked : s.frontier.stop_ = true ∨ s.frontier.capReached opts = true ∨
      link ∈ s.frontier.seenUrls_ := or_assoc.mp refused
  simp [CrawlState.enqueue, Frontier.enqueue_eq, checked]

theorem enqueue_accepted (depth : UInt32) (link : Bytes) (going : ¬ s.Closed opts)
    (fresh : link ∉ s.frontier.seenUrls_) :
    (s.frontier.enqueue opts link depth (castInt depth)).1 = true ∧
      link ∈ (s.enqueue opts link depth (castInt depth)).frontier.seenUrls_ := by
  have checked : ¬ (s.frontier.stop_ = true ∨ s.frontier.capReached opts = true ∨
      link ∈ s.frontier.seenUrls_) := fun refused =>
    (or_assoc.mpr refused).elim going fresh
  simp [CrawlState.enqueue, Frontier.enqueue_eq, checked, Frontier.accept]

theorem seen_enqueueLinks {turns : List LinkTurn} {result : LinkResult}
    (ran : s.enqueueLinks opts depth turns = some result) :
    s.frontier.seenUrls_ ⊆ result.last.frontier.seenUrls_ := by
  induction turns generalizing s result with
  | nil =>
    cases Option.some.inj ran
    rfl
  | cons turn rest ih =>
    obtain ⟨middle, others, continued⟩ := Option.bind_eq_some_iff.mp ran
    have reached : s.frontier.seenUrls_ ⊆
        (middle.enqueue opts turn.link depth (castInt depth)).frontier.seenUrls_ :=
      (seen_run others).trans (seen_step (.enqueue turn.link depth (castInt depth)) rfl)
    simp only at continued
    split at continued
    · cases Option.some.inj continued
      exact reached
    · obtain ⟨tail, later, same⟩ := Option.map_eq_some_iff.mp continued
      have grown : _ ⊆ tail.last.frontier.seenUrls_ := ih later
      rw [← same]
      exact reached.trans grown

theorem seenLast_cons {turn : LinkTurn} {rest : List LinkTurn} {middle : CrawlState}
    (others : (machine opts).run s turn.others = some middle) :
    SeenLast opts depth s (turn :: rest) ↔
      (¬ middle.Closed opts → turn.link ∈ middle.frontier.seenUrls_ →
        ∀ later ∈ rest, later.link ∈ middle.frontier.seenUrls_) ∧
      SeenLast opts depth (middle.enqueue opts turn.link depth (castInt depth)) rest := by
  have after (before : List LinkTurn) (steps : List CrawlStep) :
      (machine opts).run s (linkSteps depth (turn :: before) ++ steps) =
        (machine opts).run (middle.enqueue opts turn.link depth (castInt depth))
          (linkSteps depth before ++ steps) := by
    simp only [linkSteps, List.flatMap_cons, List.append_assoc, Machine.run_append _ s, others,
      Option.bind_some]
    rfl
  constructor
  · intro ordered
    refine ⟨ordered [] turn rest rfl middle others, ?_⟩
    intro before other behind split state ran
    exact ordered (turn :: before) other behind (by rw [split]; rfl) state ((after _ _).trans ran)
  · rintro ⟨first, ordered⟩ before other behind split state ran
    cases before with
    | nil =>
      obtain ⟨rfl, rfl⟩ := List.cons.inj split
      have same : middle = state := Option.some.inj (others.symm.trans ran)
      exact same ▸ first
    | cons head before =>
      obtain ⟨rfl, behindHead⟩ := List.cons.inj split
      exact ordered before other behind behindHead state ((after _ _).symm.trans ran)

theorem seenLast_of_closed (closed : s.Closed opts) (turns : List LinkTurn) :
    SeenLast opts depth s turns :=
  fun _ _ _ _ _ ran going => absurd (closed_run closed ran) going

theorem seenLast_of_seen {turns : List LinkTurn}
    (seen : ∀ turn ∈ turns, turn.link ∈ s.frontier.seenUrls_) : SeenLast opts depth s turns := by
  intro before turn after split state ran _ _ later member
  exact seen_run ran (seen later (by simp [split, member]))

/-- The loop loses no link exactly when a link seen before has only seen links behind it. -/
theorem noneLost_iff_seenLast {turns : List LinkTurn} {result : LinkResult}
    (ran : s.enqueueLinks opts depth turns = some result) :
    NoneLost opts (turns.map (·.link)) result ↔ SeenLast opts depth s turns := by
  induction turns generalizing s result with
  | nil => simp [NoneLost, SeenLast]
  | cons turn rest ih =>
    obtain ⟨middle, others, continued⟩ := Option.bind_eq_some_iff.mp ran
    rw [seenLast_cons others]
    by_cases closed : middle.Closed opts
    · obtain ⟨answer, same⟩ := enqueue_refused depth turn.link (.inl closed)
      simp only [answer, same, Bool.not_false, ↓reduceIte, Option.some.injEq] at continued ⊢
      subst continued
      exact ⟨fun _ => ⟨fun going => absurd closed going, seenLast_of_closed closed rest⟩,
        fun _ _ _ => .inr ⟨middle, List.mem_singleton_self _, closed⟩⟩
    by_cases seen : turn.link ∈ middle.frontier.seenUrls_
    · -- The loop breaks here, so what is behind must be seen already.
      have refused : middle.Closed opts ∨ turn.link ∈ middle.frontier.seenUrls_ := .inr seen
      obtain ⟨answer, same⟩ := enqueue_refused depth turn.link refused
      simp only [answer, same, Bool.not_false, ↓reduceIte, Option.some.injEq] at continued ⊢
      subst continued
      simp only [NoneLost, List.mem_singleton, exists_eq_left, closed, or_false, List.map_cons,
        List.forall_mem_cons, seen, true_and, List.forall_mem_map, not_false_eq_true,
        forall_const]
      exact ⟨fun behind => ⟨behind, seenLast_of_seen behind⟩, fun ordered => ordered.1⟩
    · obtain ⟨answer, accepted⟩ := enqueue_accepted depth turn.link closed seen
      simp only [answer, Bool.not_true, Bool.false_eq_true, ↓reduceIte] at continued
      obtain ⟨tail, later, rfl⟩ := Option.map_eq_some_iff.mp continued
      have held := seen_enqueueLinks later accepted
      rw [← ih later]
      simp [NoneLost, closed, seen, held]

theorem map_linkTurns (others : Nat → List CrawlStep) (links : List Bytes) :
    (linkTurns others links).map (·.link) = links := by
  refine List.ext_getElem (by simp [linkTurns]) fun i _ _ => ?_
  simp [linkTurns]

/-- For every page within the depth budget and whatever other threads do meanwhile, each of
its links is seen when the loop ends unless the frontier was closed, exactly when a link
already seen at its turn has only seen links behind it. -/
theorem followLinks_noneLost_iff (opts : CrawlerOptions) (s : CrawlState) (html url : Bytes)
    (depth : UInt32) (others : Nat → List CrawlStep) (result : LinkResult)
    (within : depth + 1 ≤ opts.maxDepth)
    (ran : s.followLinks opts html url depth others = some result) :
    NoneLost opts (htmlExtractLinks html url) result ↔
      SeenLast opts (depth + 1) s (linkTurns others (htmlExtractLinks html url)) := by
  rw [followLinks, if_pos within] at ran
  have settled := noneLost_iff_seenLast ran
  rwa [map_linkTurns] at settled

/-- A page is taken from the frontier. -/
def takePage : List CrawlStep :=
  [.enqueue (ascii "http://h/p") 0 (-1), .pop 0]

/-- A link back to the page does no harm in the last place. -/
theorem followLinks_keeps_links :
    ∃ s result, (machine {}).run (create (.create (fun _ => 0) 64 1)) takePage = some s ∧
      s.followLinks {} (ascii "<a href='/q'>Q</a><a href='/p'>P</a>") (ascii "http://h/p") 0
        (fun _ => []) = some result ∧
      SeenLast {} 1 s (linkTurns (fun _ => []) (htmlExtractLinks
        (ascii "<a href='/q'>Q</a><a href='/p'>P</a>") (ascii "http://h/p"))) :=
  ⟨_, _, rfl, rfl,
    (followLinks_noneLost_iff {} _ _ _ 0 _ _ (by decide) rfl).mp (by decide)⟩

/-- A page that links to itself before it links to another page. -/
def selfLinked : Bytes :=
  ascii "<a href='/p'>P</a><a href='/q'>Q</a>"

/-- The second link is lost although the frontier is open at every turn. -/
theorem followLinks_loses_link :
    ∃ s result, (machine {}).run (create (.create (fun _ => 0) 64 1)) takePage = some s ∧
      s.followLinks {} selfLinked (ascii "http://h/p") 0 (fun _ => []) = some result ∧
      ascii "http://h/q" ∈ htmlExtractLinks selfLinked (ascii "http://h/p") ∧
      ¬ NoneLost {} (htmlExtractLinks selfLinked (ascii "http://h/p")) result := by
  exact ⟨_, _, rfl, rfl, by decide, by decide⟩

end CrawlState

end ShadowSe

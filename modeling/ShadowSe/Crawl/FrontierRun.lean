import Mathlib.Data.Finset.Card
import ShadowSe.Crawl.Frontier

namespace ShadowSe

open Support

namespace CrawlState

variable {opts : CrawlerOptions} {s next : CrawlState}

/-- A call of `enqueue` changes nothing, or the frontier is open, the URL is new and it is
queued; the first accepted URL starts the workers. -/
theorem enqueue_cases (opts : CrawlerOptions) (s : CrawlState) (url : Bytes) (depth : UInt32)
    (priority : Int) :
    s.enqueue opts url depth priority = s ∨
    (s.frontier.stop_ = false ∧ s.frontier.crawled_ + s.frontier.pending_ < opts.maxPages ∧
      url ∉ s.frontier.seenUrls_ ∧
      s.enqueue opts url depth priority =
        { s with
          frontier := s.frontier.accept url depth priority
          workers := if s.frontier.running_ then s.workers
            else s.workers ++ List.replicate (max 1 opts.workerCount) .idle
          accepted := s.accepted ++ [url] }) := by
  by_cases refused : s.frontier.stop_ = true ∨ s.frontier.capReached opts = true ∨
      url ∈ s.frontier.seenUrls_
  · exact .inl (by simp [enqueue, Frontier.enqueue_eq, refused])
  · have open_ := refused
    simp only [not_or, Bool.not_eq_true, Frontier.capReached, decide_eq_false_iff_not,
      Nat.not_le] at open_
    exact .inr ⟨open_.1, open_.2.1, open_.2.2, by simp [enqueue, Frontier.enqueue_eq, refused]⟩

theorem step_pop {worker : Nat} (taken : step opts s (.pop worker) = some next) :
    ∃ item rest, s.workers[worker]? = some .idle ∧ s.frontier.queue_ = item :: rest ∧
      next = { s with
        frontier := { s.frontier with queue_ := rest }
        workers := s.workers.set worker (.processing item)
        handed := s.handed ++ [item.url] } := by
  simp only [step] at taken
  split at taken
  · rename_i item frontier idle popped
    cases queue : s.frontier.queue_ with
    | nil => simp [Frontier.pop, queue] at popped
    | cons first rest =>
      simp only [Frontier.pop, queue, Option.some.injEq, Prod.mk.injEq] at popped
      obtain ⟨rfl, rfl⟩ := popped
      exact ⟨first, rest, idle, rfl, (Option.some.inj taken).symm⟩
  · cases taken

theorem step_leave {worker : Nat} (taken : step opts s (.leave worker) = some next) :
    s.workers[worker]? = some .idle ∧ s.frontier.queue_ = [] ∧ s.frontier.stop_ = true ∧
      next = { s with workers := s.workers.set worker .returned } := by
  simp only [step] at taken
  split at taken
  · rename_i finds
    exact ⟨finds.1, finds.2.1, finds.2.2, (Option.some.inj taken).symm⟩
  · cases taken

theorem step_complete {worker : Nat} (taken : step opts s (.complete worker) = some next) :
    ∃ item, s.workers[worker]? = some (.processing item) ∧
      next = { s with
        frontier := s.frontier.complete
        workers := s.workers.set worker .idle
        completed := s.completed ++ [item.url] } := by
  simp only [step] at taken
  split at taken
  · rename_i item busy
    exact ⟨item, busy, (Option.some.inj taken).symm⟩
  · cases taken

theorem step_join (taken : step opts s .join = some next) :
    s.frontier.stop_ = true ∧ (∀ worker ∈ s.workers, worker = .returned) ∧
      next = { s with frontier := { s.frontier with running_ := false }, workers := [] } := by
  simp only [step] at taken
  split at taken
  · rename_i finds
    exact ⟨finds.1, finds.2, (Option.some.inj taken).symm⟩
  · cases taken

/-- When one worker changes, what the workers hold changes by what it held and holds. -/
theorem held_set {workers : List WorkerState} {worker : Nat} {before : WorkerState}
    (current : workers[worker]? = some before) (after : WorkerState) :
    (before.held.toList ++ (workers.set worker after).filterMap WorkerState.held).Perm
      (after.held.toList ++ workers.filterMap WorkerState.held) := by
  obtain ⟨inside, rfl⟩ := List.getElem?_eq_some_iff.mp current
  obtain ⟨left, right, split, _, replaced⟩ := @List.exists_of_set _ worker after workers inside
  have one (state : WorkerState) : (left ++ state :: right).filterMap WorkerState.held =
      left.filterMap WorkerState.held ++ (state.held.toList ++
        right.filterMap WorkerState.held) := by
    rw [List.filterMap_append]
    cases found : state.held with
    | none => simp [List.filterMap_cons_none found]
    | some item => simp [List.filterMap_cons_some found]
  generalize workers[worker] = before at split
  rw [replaced, split, one, one]
  have around (held other : List Item) (left right : List Item) :
      (held ++ (left ++ (other ++ right))).Perm (held ++ other ++ (left ++ right)) := by
    rw [List.append_assoc]
    exact (List.perm_append_comm_assoc left other right).append_left held
  exact (around _ _ _ _).trans ((List.perm_append_comm.append_right _).trans
    (around _ _ _ _).symm)

/-- The books of the frontier balance. -/
structure Accounted (opts : CrawlerOptions) (s : CrawlState) : Prop where
  pending : s.frontier.pending_ = s.frontier.queue_.length + s.inFlight.length
  crawled : s.frontier.crawled_ = s.completed.length
  queued : s.accepted.Perm (s.frontier.queue_.map (·.url) ++ s.handed)
  processed : s.handed.Perm (s.inFlight.map (·.url) ++ s.completed)
  seen : s.frontier.seenUrls_ = s.accepted.toFinset
  distinct : s.accepted.Nodup
  capped : s.accepted.length ≤ opts.maxPages

/-- Workers exist while the crawler runs, and leave it only when it is drained. -/
structure Staffed (s : CrawlState) : Prop where
  running : s.frontier.running_ = false → s.workers = []
  unstaffed : s.workers = [] → s.frontier.queue_ = []
  employed : s.frontier.running_ = true → s.workers ≠ []
  drained : .returned ∈ s.workers → s.frontier.stop_ = true ∧ s.frontier.queue_ = []

theorem accounted_create (opts : CrawlerOptions) (bloom : BloomFilter) :
    (create bloom).Accounted opts := by
  constructor <;> simp [create, inFlight]

/-- Every accepted URL is queued, being processed or crawled. -/
theorem Accounted.total (books : s.Accounted opts) :
    s.frontier.crawled_ + s.frontier.pending_ = s.accepted.length := by
  have queued := books.queued.length_eq
  have processed := books.processed.length_eq
  simp only [List.length_append, List.length_map] at queued processed
  rw [books.crawled, books.pending]
  omega

private theorem held_idle (count : Nat) :
    (List.replicate count WorkerState.idle).filterMap WorkerState.held = [] := by
  simp [WorkerState.held]

private theorem Accounted.enqueue (books : s.Accounted opts) (url : Bytes) (depth : UInt32)
    (priority : Int) : (s.enqueue opts url depth priority).Accounted opts := by
  rcases enqueue_cases opts s url depth priority with same | ⟨_, room, fresh, called⟩
  · rwa [same]
  rw [called]
  have inFlight : (if s.frontier.running_ then s.workers
      else s.workers ++ List.replicate (max 1 opts.workerCount) .idle).filterMap
        WorkerState.held = s.inFlight := by
    split
    · rfl
    · rw [List.filterMap_append, held_idle, List.append_nil, CrawlState.inFlight]
  have ordered := List.perm_orderedInsert Item.comesFirst
    ⟨url, depth, if priority < 0 then castInt depth else priority, s.frontier.seq_⟩
    s.frontier.queue_
  rw [books.total] at room
  rw [books.seen, List.mem_toFinset] at fresh
  constructor
  · simp only [Frontier.accept, CrawlState.inFlight] at inFlight ⊢
    have pending := books.pending
    rw [inFlight, ordered.length_eq, List.length_cons]
    simp only [CrawlState.inFlight] at pending
    omega
  · exact books.crawled
  · have queued := (ordered.map (·.url)).append_right s.handed
    exact List.perm_append_comm.trans ((books.queued.cons url).trans queued.symm)
  · simp only [CrawlState.inFlight, inFlight]
    exact books.processed
  · simp [Frontier.accept, books.seen]
  · exact List.perm_append_comm.nodup_iff.mpr (List.nodup_cons.mpr ⟨fresh, books.distinct⟩)
  · rw [List.length_append, List.length_singleton]
    exact room

private theorem Accounted.pop (books : s.Accounted opts) {worker : Nat}
    (taken : step opts s (.pop worker) = some next) : next.Accounted opts := by
  obtain ⟨item, rest, idle, queue, rfl⟩ := step_pop taken
  have held : ((s.workers.set worker (.processing item)).filterMap WorkerState.held).Perm
      (item :: s.inFlight) := held_set idle (.processing item)
  have handedOver : (s.handed ++ [item.url]).Perm (item.url :: s.handed) :=
    List.perm_append_comm
  constructor
  · have pending := books.pending
    have length := held.length_eq
    simp only [queue, List.length_cons, CrawlState.inFlight] at pending length ⊢
    omega
  · exact books.crawled
  · have queued := books.queued
    rw [queue, List.map_cons] at queued
    exact queued.trans (List.perm_middle.symm.trans (handedOver.symm.append_left _))
  · exact handedOver.trans ((books.processed.cons _).trans ((held.map _).symm.append_right _))
  · exact books.seen
  · exact books.distinct
  · exact books.capped

private theorem Accounted.leave (books : s.Accounted opts) {worker : Nat}
    (taken : step opts s (.leave worker) = some next) : next.Accounted opts := by
  obtain ⟨idle, _, _, rfl⟩ := step_leave taken
  have held : ((s.workers.set worker .returned).filterMap WorkerState.held).Perm s.inFlight :=
    held_set idle .returned
  constructor
  · rw [books.pending, CrawlState.inFlight, CrawlState.inFlight, held.length_eq,
      CrawlState.inFlight]
  · exact books.crawled
  · exact books.queued
  · exact books.processed.trans ((held.map _).symm.append_right _)
  · exact books.seen
  · exact books.distinct
  · exact books.capped

private theorem Accounted.complete (books : s.Accounted opts) {worker : Nat}
    (taken : step opts s (.complete worker) = some next) : next.Accounted opts := by
  obtain ⟨item, busy, rfl⟩ := step_complete taken
  have held : (item :: (s.workers.set worker .idle).filterMap WorkerState.held).Perm s.inFlight :=
    held_set busy .idle
  constructor
  · have pending := books.pending
    have length := held.length_eq
    simp only [Frontier.complete, CrawlState.inFlight, List.length_cons] at pending length ⊢
    omega
  · simp [Frontier.complete, books.crawled]
  · exact books.queued
  · refine books.processed.trans (((held.map _).symm.append_right _).trans ?_)
    rw [List.map_cons, List.cons_append]
    exact List.perm_middle.symm.trans (List.Perm.append_left _ (List.perm_append_singleton _ _).symm)
  · exact books.seen
  · exact books.distinct
  · exact books.capped

theorem inFlight_of_returned (returned : ∀ worker ∈ s.workers, worker = .returned) :
    s.inFlight = [] := by
  refine List.filterMap_eq_nil_iff.mpr fun worker member => ?_
  rw [returned worker member]
  rfl

private theorem Accounted.join (books : s.Accounted opts)
    (taken : step opts s .join = some next) : next.Accounted opts := by
  obtain ⟨_, returned, rfl⟩ := step_join taken
  have none := inFlight_of_returned returned
  have pending := books.pending
  have processed := books.processed
  rw [none] at pending processed
  exact ⟨pending, books.crawled, books.queued, processed, books.seen, books.distinct,
    books.capped⟩

theorem Accounted.step (books : s.Accounted opts) (action : CrawlStep)
    (taken : CrawlState.step opts s action = some next) : next.Accounted opts := by
  cases action with
  | enqueue url depth priority =>
    cases Option.some.inj taken
    exact books.enqueue url depth priority
  | stop =>
    cases Option.some.inj taken
    exact ⟨books.pending, books.crawled, books.queued, books.processed, books.seen,
      books.distinct, books.capped⟩
  | pop worker => exact books.pop taken
  | leave worker => exact books.leave taken
  | complete worker => exact books.complete taken
  | join => exact books.join taken

theorem accounted_of_reachable {bloom : BloomFilter}
    (reached : (machine opts).Reachable (create bloom) s) : s.Accounted opts :=
  reached.invariant (accounted_create opts bloom) fun _ action _ books _ taken =>
    books.step action taken

theorem Staffed.queue_of_returned (staffed : s.Staffed)
    (returned : ∀ worker ∈ s.workers, worker = .returned) : s.frontier.queue_ = [] := by
  cases workers : s.workers with
  | nil => exact staffed.unstaffed workers
  | cons worker rest =>
    have first : worker ∈ s.workers := by simp [workers]
    have left : .returned ∈ s.workers := returned worker first ▸ first
    exact (staffed.drained left).2

theorem Staffed.step (staffed : s.Staffed) (action : CrawlStep)
    (taken : CrawlState.step opts s action = some next) : next.Staffed := by
  have empty := staffed.queue_of_returned
  obtain ⟨running, unstaffed, employed, drained⟩ := staffed
  cases action with
  | enqueue url depth priority =>
    cases Option.some.inj taken
    rcases enqueue_cases opts s url depth priority with same | ⟨going, _, _, called⟩
    · rw [same]
      exact ⟨running, unstaffed, employed, drained⟩
    rw [called]
    have nonempty : (if s.frontier.running_ then s.workers
        else s.workers ++ List.replicate (max 1 opts.workerCount) .idle) ≠ [] := by
      split
      · rename_i up
        exact employed up
      · simp
    refine ⟨by simp [Frontier.accept], fun empty => absurd empty nonempty, fun _ => nonempty, ?_⟩
    intro member
    have stopped : s.frontier.stop_ = true := by
      refine (drained ?_).1
      simp only at member
      split at member
      · exact member
      · simpa using member
    simp [going] at stopped
  | stop =>
    cases Option.some.inj taken
    exact ⟨running, unstaffed, employed, fun member => ⟨rfl, (drained member).2⟩⟩
  | pop worker =>
    obtain ⟨item, rest, idle, queue, rfl⟩ := step_pop taken
    have nonempty : s.workers ≠ [] := by
      intro empty
      simp [empty] at idle
    refine ⟨fun down => absurd (running down) nonempty, ?_, ?_, ?_⟩
    · simp [nonempty]
    · simp [nonempty]
    · intro member
      rcases List.mem_or_eq_of_mem_set member with other | same
      · simp [(drained other).2] at queue
      · cases same
  | leave worker =>
    obtain ⟨idle, queue, stopped, rfl⟩ := step_leave taken
    exact ⟨by simpa using running, fun _ => queue, by simpa using employed,
      fun _ => ⟨stopped, queue⟩⟩
  | complete worker =>
    obtain ⟨item, busy, rfl⟩ := step_complete taken
    refine ⟨by simpa [Frontier.complete] using running,
      by simpa [Frontier.complete] using unstaffed,
      by simpa [Frontier.complete] using employed, ?_⟩
    intro member
    rcases List.mem_or_eq_of_mem_set member with other | same
    · exact drained other
    · cases same
  | join =>
    obtain ⟨stopped, returned, rfl⟩ := step_join taken
    exact ⟨fun _ => rfl, fun _ => empty returned, by simp, by simp⟩

theorem staffed_of_reachable {bloom : BloomFilter}
    (reached : (machine opts).Reachable (create bloom) s) : s.Staffed :=
  reached.invariant (by constructor <;> simp [create]) fun _ action _ staffed _ taken =>
    staffed.step action taken

theorem stopped_step (stopped : s.frontier.stop_ = true) (action : CrawlStep)
    (taken : step opts s action = some next) :
    next.frontier.stop_ = true ∧ next.accepted = s.accepted := by
  cases action with
  | enqueue url depth priority =>
    cases Option.some.inj taken
    rcases enqueue_cases opts s url depth priority with same | ⟨going, _⟩
    · rw [same]
      exact ⟨stopped, rfl⟩
    · simp [stopped] at going
  | stop =>
    cases Option.some.inj taken
    exact ⟨rfl, rfl⟩
  | pop worker =>
    obtain ⟨_, _, _, _, rfl⟩ := step_pop taken
    exact ⟨stopped, rfl⟩
  | leave worker =>
    obtain ⟨_, _, _, rfl⟩ := step_leave taken
    exact ⟨stopped, rfl⟩
  | complete worker =>
    obtain ⟨_, _, rfl⟩ := step_complete taken
    exact ⟨stopped, rfl⟩
  | join =>
    obtain ⟨_, _, rfl⟩ := step_join taken
    exact ⟨stopped, rfl⟩

theorem stopped_run {later : CrawlState} (stopped : s.frontier.stop_ = true)
    (reached : (machine opts).Reachable s later) :
    later.frontier.stop_ = true ∧ later.accepted = s.accepted := by
  refine reached.invariant (And.intro stopped rfl) ?_
  rintro _ action _ ⟨held, same⟩ _ taken
  obtain ⟨still, kept⟩ := stopped_step held action taken
  exact ⟨still, kept.trans same⟩

/-- With every worker gone after a stop, the frontier is drained and everything accepted
was processed. -/
theorem drained (books : s.Accounted opts) (staffed : s.Staffed)
    (returned : ∀ worker ∈ s.workers, worker = .returned) :
    s.frontier.queue_ = [] ∧ s.frontier.pending_ = 0 ∧ s.completed.Perm s.accepted := by
  have empty := staffed.queue_of_returned returned
  have none := inFlight_of_returned returned
  have pending := books.pending
  have queued := books.queued
  have processed := books.processed
  rw [empty] at pending queued
  rw [none] at pending processed
  exact ⟨empty, pending, (queued.trans processed).symm⟩

/-- At every point of every interleaving the counters, the queue and the seen set account
for each accepted URL once, within the page cap; a stop is final, and when the workers have
gone everything accepted has been processed, once each. -/
theorem accounting (opts : CrawlerOptions) (bloom : BloomFilter)
    (reached : (machine opts).Reachable (create bloom) s) :
    s.frontier.pending_ = s.frontier.queue_.length + s.inFlight.length ∧
    s.frontier.crawled_ + s.frontier.pending_ = s.accepted.length ∧
    s.frontier.seenUrls_.card = s.accepted.length ∧
    s.accepted.length ≤ opts.maxPages ∧
    s.handed.Nodup ∧
    (s.frontier.stop_ = true →
      (∀ later, (machine opts).Reachable s later → later.accepted = s.accepted) ∧
      ((∀ worker ∈ s.workers, worker = .returned) →
        s.frontier.queue_ = [] ∧ s.frontier.pending_ = 0 ∧
          s.completed.Perm s.accepted ∧ s.completed.Nodup)) := by
  have books := accounted_of_reachable reached
  have handed : s.handed.Nodup :=
    (List.nodup_append.mp (books.queued.nodup_iff.mp books.distinct)).2.1
  refine ⟨books.pending, books.total, ?_, books.capped, handed, fun stopped => ⟨?_, ?_⟩⟩
  · rw [books.seen, List.toFinset_card_of_nodup books.distinct]
  · exact fun later reached => (stopped_run stopped reached).2
  · intro returned
    obtain ⟨empty, settled, all⟩ := drained books (staffed_of_reachable reached) returned
    exact ⟨empty, settled, all, all.nodup_iff.mpr books.distinct⟩

/-- Two pages and a duplicate, a stop while both are being processed, a late URL. -/
def drainSteps : List CrawlStep :=
  [.enqueue (ascii "http://a/") 0 (-1), .enqueue (ascii "http://b/") 0 (-1),
    .enqueue (ascii "http://a/") 0 (-1), .pop 1, .pop 0, .stop,
    .enqueue (ascii "http://c/") 0 (-1), .complete 0, .leave 0, .complete 1, .leave 1]

theorem accounting_drain :
    ∃ s, (machine {}).run (create (.create (fun _ => 0) 64 1)) drainSteps = some s ∧
      s.frontier.queue_ = [] ∧ s.frontier.pending_ = 0 ∧
      s.completed = [ascii "http://b/", ascii "http://a/"] ∧
      s.completed.Perm s.accepted ∧ s.completed.Nodup := by
  have ran : (machine {}).run (create (.create (fun _ => 0) 64 1)) drainSteps = some _ := rfl
  have books := accounting {} (.create (fun _ => 0) 64 1) (Machine.reachable_of_run ran)
  obtain ⟨empty, settled, all, once⟩ := (books.2.2.2.2.2 rfl).2 (by decide)
  exact ⟨_, ran, empty, settled, by decide, all, once⟩

end CrawlState

end ShadowSe

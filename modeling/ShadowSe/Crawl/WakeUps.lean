import ShadowSe.Crawl.FrontierRun
import ShadowSe.Support.Monitor

/-! The worker loop at the level of `cv_`: workers that fall asleep over an empty queue, the
signals of `enqueue` and `stop`, and wake-ups nobody asked for. Each locked section is one
step. The machine refines the frontier's, where a sleeping worker is idle. -/

namespace ShadowSe

open Support

/-- Where a call of `stop` stands: the lock is released and `notify_all` not yet called,
then the call that set the flag joins the workers. -/
inductive StopCall where
  | notifying (shouldJoin : Bool)
  | joining
  | finished
  deriving DecidableEq

structure WakeState where
  frontier : Frontier
  workers : List (Duty Item) := []
  stops : List StopCall := []
  accepted : List Bytes := []
  handed : List Bytes := []
  completed : List Bytes := []

inductive WakeStep where
  /-- A call of `enqueue`; `notify_one` picks the sleeper `notified` when there is one. -/
  | enqueue (url : Bytes) (depth : UInt32) (priority : Int) (notified : Nat)
  /-- The locked part of a new call of `stop`. -/
  | stop
  /-- The call goes on to `notify_all`. -/
  | notify (call : Nat)
  /-- The worker gets the lock and evaluates the predicate of `cv_.wait`. -/
  | look (worker : Nat)
  /-- The worker wakes without a signal. -/
  | wake (worker : Nat)
  | complete (worker : Nat)
  /-- The call has joined every worker. -/
  | join (call : Nat)

/-- A step that the crawler takes on its own. -/
def WakeStep.isOwn : WakeStep → Bool
  | .notify _ | .look _ | .complete _ | .join _ => true
  | .enqueue _ _ _ _ | .stop | .wake _ => false

/-- The steps a call of `stop` is due, with those of the workers it wakes. -/
def StopCall.due (staff : Nat) : StopCall → Nat
  | .notifying _ => staff + 2
  | .joining => 1
  | .finished => 0

/-- The steps of its own that a request or a stray wake-up makes the crawler take. -/
def WakeStep.credit (opts : CrawlerOptions) : WakeStep → Nat
  | .wake _ => 1
  | .stop => max 1 opts.workerCount + 2
  | .enqueue _ _ _ _ | .notify _ | .look _ | .complete _ | .join _ => 0

namespace WakeState

def create (bloom : BloomFilter) : WakeState :=
  { frontier := { bloom_ := bloom } }

/-- The workers after the first accepted URL has started them. -/
def employ (opts : CrawlerOptions) (s : WakeState) : List (Duty Item) :=
  if s.frontier.running_ then s.workers
  else s.workers ++ List.replicate (max 1 opts.workerCount) .ready

/-- What a worker with the lock does: it takes the first item, or sleeps, or returns. -/
def look (s : WakeState) (worker : Nat) : WakeState :=
  match s.frontier.pop with
  | some (item, frontier) =>
    { s with
      frontier
      workers := s.workers.set worker (.busy item)
      handed := s.handed ++ [item.url] }
  | none =>
    { s with workers := s.workers.set worker (if s.frontier.stop_ then .gone else .asleep) }

def step (opts : CrawlerOptions) (s : WakeState) : WakeStep → Option WakeState
  | .enqueue url depth priority notified =>
    match s.frontier.enqueue opts url depth priority with
    | (false, frontier) => some { s with frontier }
    | (true, frontier) =>
      (notifyOne (s.employ opts) notified).map fun workers =>
        { s with frontier, workers, accepted := s.accepted ++ [url] }
  | .stop =>
    some { s with
      frontier := s.frontier.requestStop
      stops := s.stops ++ [.notifying !s.frontier.stop_] }
  | .notify call =>
    match s.stops[call]? with
    | some (.notifying shouldJoin) =>
      some { s with
        workers := notifyAll s.workers
        stops := s.stops.set call (if shouldJoin then .joining else .finished) }
    | _ => none
  | .look worker =>
    if s.workers[worker]? = some .ready then some (s.look worker) else none
  | .wake worker =>
    if s.workers[worker]? = some .asleep then
      some { s with workers := s.workers.set worker .ready }
    else none
  | .complete worker =>
    match s.workers[worker]? with
    | some (.busy item) =>
      some { s with
        frontier := s.frontier.complete
        workers := s.workers.set worker .ready
        completed := s.completed ++ [item.url] }
    | _ => none
  | .join call =>
    if s.stops[call]? = some .joining ∧ ∀ worker ∈ s.workers, worker = .gone then
      some { s with
        frontier := { s.frontier with running_ := false }
        workers := []
        stops := s.stops.set call .finished }
    else none

def machine (opts : CrawlerOptions) : Machine WakeState WakeStep :=
  ⟨step opts⟩

variable {opts : CrawlerOptions} {s next : WakeState}

theorem step_enqueue {url : Bytes} {depth : UInt32} {priority : Int} {notified : Nat}
    (taken : step opts s (.enqueue url depth priority notified) = some next) :
    next = s ∨
    (s.frontier.stop_ = false ∧ s.frontier.crawled_ + s.frontier.pending_ < opts.maxPages ∧
      url ∉ s.frontier.seenUrls_ ∧ ∃ told, notifyOne (s.employ opts) notified = some told ∧
      next = { s with
        frontier := s.frontier.accept url depth priority
        workers := told
        accepted := s.accepted ++ [url] }) := by
  simp only [step, Frontier.enqueue_eq] at taken
  by_cases refused : s.frontier.stop_ = true ∨ s.frontier.capReached opts = true ∨
      url ∈ s.frontier.seenUrls_
  · rw [if_pos refused] at taken
    exact .inl (Option.some.inj taken).symm
  · rw [if_neg refused] at taken
    obtain ⟨told, signalled, done⟩ := Option.map_eq_some_iff.mp taken
    simp only [not_or, Bool.not_eq_true, Frontier.capReached, decide_eq_false_iff_not,
      Nat.not_le] at refused
    exact .inr ⟨refused.1, refused.2.1, refused.2.2, told, signalled, done.symm⟩

theorem step_notify {call : Nat} (taken : step opts s (.notify call) = some next) :
    ∃ shouldJoin, s.stops[call]? = some (.notifying shouldJoin) ∧
      next = { s with
        workers := notifyAll s.workers
        stops := s.stops.set call (if shouldJoin then .joining else .finished) } := by
  simp only [step] at taken
  split at taken
  · rename_i shouldJoin current
    exact ⟨shouldJoin, current, (Option.some.inj taken).symm⟩
  · cases taken

/-- A worker that looks takes the first item; over an empty queue it sleeps, or returns
after a stop. -/
theorem step_look {worker : Nat} (taken : step opts s (.look worker) = some next) :
    s.workers[worker]? = some .ready ∧
    ((∃ item rest, s.frontier.queue_ = item :: rest ∧
      next = { s with
        frontier := { s.frontier with queue_ := rest }
        workers := s.workers.set worker (.busy item)
        handed := s.handed ++ [item.url] }) ∨
    (s.frontier.queue_ = [] ∧ s.frontier.stop_ = true ∧
      next = { s with workers := s.workers.set worker .gone }) ∨
    (s.frontier.queue_ = [] ∧ s.frontier.stop_ = false ∧
      next = { s with workers := s.workers.set worker .asleep })) := by
  simp only [step] at taken
  split at taken
  · rename_i looking
    refine ⟨looking, ?_⟩
    cases Option.some.inj taken
    cases queue : s.frontier.queue_ with
    | cons item rest => exact .inl ⟨item, rest, rfl, by simp [look, Frontier.pop, queue]⟩
    | nil =>
      cases stopped : s.frontier.stop_ with
      | true => exact .inr (.inl ⟨rfl, rfl, by simp [look, Frontier.pop, queue, stopped]⟩)
      | false => exact .inr (.inr ⟨rfl, rfl, by simp [look, Frontier.pop, queue, stopped]⟩)
  · cases taken

theorem step_wake {worker : Nat} (taken : step opts s (.wake worker) = some next) :
    s.workers[worker]? = some .asleep ∧
      next = { s with workers := s.workers.set worker .ready } := by
  simp only [step] at taken
  split at taken
  · rename_i sleeping
    exact ⟨sleeping, (Option.some.inj taken).symm⟩
  · cases taken

theorem step_complete {worker : Nat} (taken : step opts s (.complete worker) = some next) :
    ∃ item, s.workers[worker]? = some (.busy item) ∧
      next = { s with
        frontier := s.frontier.complete
        workers := s.workers.set worker .ready
        completed := s.completed ++ [item.url] } := by
  simp only [step] at taken
  split at taken
  · rename_i item busy
    exact ⟨item, busy, (Option.some.inj taken).symm⟩
  · cases taken

theorem step_join {call : Nat} (taken : step opts s (.join call) = some next) :
    s.stops[call]? = some .joining ∧ (∀ worker ∈ s.workers, worker = .gone) ∧
      next = { s with
        frontier := { s.frontier with running_ := false }
        workers := []
        stops := s.stops.set call .finished } := by
  simp only [step] at taken
  split at taken
  · rename_i joins
    exact ⟨joins.1, joins.2, (Option.some.inj taken).symm⟩
  · cases taken

/-- A worker as the frontier sees it. -/
def worker : Duty Item → WorkerState
  | .ready | .asleep => .idle
  | .busy item => .processing item
  | .gone => .returned

/-- The state without its sleepers and signals. -/
def crawl (s : WakeState) : CrawlState :=
  { frontier := s.frontier
    workers := s.workers.map worker
    accepted := s.accepted
    handed := s.handed
    completed := s.completed }

private theorem map_worker_set {workers : List (Duty Item)} {index : Nat} {before : Duty Item}
    (current : workers[index]? = some before) (after : Duty Item)
    (same : worker after = worker before) :
    (workers.set index after).map worker = workers.map worker := by
  obtain ⟨inside, rfl⟩ := List.getElem?_eq_some_iff.mp current
  rw [List.map_set, same]
  exact (List.getElem_map worker (h := by simpa)) ▸ List.set_getElem_self (by simpa)

private theorem map_worker_notifyAll (workers : List (Duty Item)) :
    (notifyAll workers).map worker = workers.map worker := by
  rw [notifyAll, List.map_map]
  refine List.map_congr_left fun duty _ => ?_
  cases duty <;> rfl

private theorem map_worker_notifyOne {workers told : List (Duty Item)} {notified : Nat}
    (signalled : notifyOne workers notified = some told) :
    told.map worker = workers.map worker := by
  rcases notifyOne_cases signalled with ⟨sleeping, rfl⟩ | ⟨_, rfl⟩
  · exact map_worker_set sleeping _ rfl
  · rfl

private theorem map_worker_employ (opts : CrawlerOptions) (s : WakeState) :
    (s.employ opts).map worker =
      if s.frontier.running_ then s.crawl.workers
      else s.crawl.workers ++ List.replicate (max 1 opts.workerCount) .idle := by
  unfold employ
  split
  · rfl
  · rw [List.map_append, List.map_replicate]
    rfl

private theorem returned_iff :
    (∀ duty ∈ s.crawl.workers, duty = .returned) ↔ ∀ duty ∈ s.workers, duty = .gone := by
  rw [crawl, List.forall_mem_map]
  refine forall₂_congr fun duty _ => ?_
  cases duty <;> simp [worker]

/-- Seen without its sleepers, a step is a step of the frontier or nothing. -/
theorem step_crawl (called : s.stops ≠ [] → s.frontier.stop_ = true) {action : WakeStep}
    (taken : step opts s action = some next) :
    next.crawl = s.crawl ∨ ∃ seen, CrawlState.step opts s.crawl seen = some next.crawl := by
  cases action with
  | enqueue url depth priority notified =>
    rcases step_enqueue taken with rfl | ⟨open_, room, fresh, told, signalled, rfl⟩
    · exact .inl rfl
    right
    refine ⟨.enqueue url depth priority, congrArg some ?_⟩
    have refused : ¬ (s.crawl.frontier.stop_ = true ∨ s.crawl.frontier.capReached opts = true ∨
        url ∈ s.crawl.frontier.seenUrls_) := by
      simp [crawl, open_, Frontier.capReached, fresh, Nat.not_le.mpr room]
    simp only [CrawlState.enqueue, Frontier.enqueue_eq, if_neg refused]
    have employed := (map_worker_notifyOne signalled).trans (map_worker_employ opts s)
    simp only [crawl] at employed ⊢
    rw [employed]
    rfl
  | stop =>
    cases Option.some.inj taken
    exact .inr ⟨.stop, rfl⟩
  | notify call =>
    obtain ⟨_, _, rfl⟩ := step_notify taken
    left
    simp only [crawl, map_worker_notifyAll]
  | look index =>
    obtain ⟨looking, found⟩ := step_look taken
    have idle : s.crawl.workers[index]? = some .idle := by
      simp [crawl, looking, worker]
    rcases found with ⟨item, rest, queue, rfl⟩ | ⟨queue, stopped, rfl⟩ | ⟨_, _, rfl⟩
    · right
      refine ⟨.pop index, ?_⟩
      have popped : s.crawl.frontier.pop = some (item, { s.frontier with queue_ := rest }) := by
        simp [crawl, Frontier.pop, queue]
      simp only [CrawlState.step, idle, popped]
      simp only [crawl, List.map_set, worker]
    · right
      refine ⟨.leave index, ?_⟩
      have leaves : s.crawl.frontier.queue_ = [] ∧ s.crawl.frontier.stop_ = true :=
        ⟨queue, stopped⟩
      simp only [CrawlState.step, if_pos (And.intro idle leaves)]
      simp only [crawl, List.map_set, worker]
    · left
      simp only [crawl, map_worker_set looking .asleep rfl]
  | wake index =>
    obtain ⟨sleeping, rfl⟩ := step_wake taken
    left
    simp only [crawl, map_worker_set sleeping .ready rfl]
  | complete index =>
    obtain ⟨item, busy, rfl⟩ := step_complete taken
    right
    refine ⟨.complete index, ?_⟩
    have processing : s.crawl.workers[index]? = some (.processing item) := by
      simp [crawl, busy, worker]
    simp only [CrawlState.step, processing]
    simp only [crawl, List.map_set, worker]
  | join call =>
    obtain ⟨joining, left_, rfl⟩ := step_join taken
    right
    refine ⟨.join, ?_⟩
    have stopped : s.crawl.frontier.stop_ = true :=
      called (List.ne_nil_of_mem (List.mem_of_getElem? joining))
    simp only [CrawlState.step, if_pos (And.intro stopped (returned_iff.mpr left_))]
    simp only [crawl, List.map_nil]

/-- No signal is lost, and no caller of `stop` is forgotten. -/
structure Alert (opts : CrawlerOptions) (s : WakeState) : Prop where
  /-- While somebody sleeps, every queued item has a worker on its way to it. -/
  served : Served s.frontier.queue_.length s.workers
  called : s.stops ≠ [] → s.frontier.stop_ = true
  /-- After a stop only a worker that is still to be notified sleeps. -/
  roused : s.frontier.stop_ = true → .asleep ∈ s.workers → .notifying true ∈ s.stops
  /-- After a stop a caller still has the join before it, unless it has made it. -/
  joins : s.frontier.stop_ = true →
    .notifying true ∈ s.stops ∨ .joining ∈ s.stops ∨ s.workers = []
  staff : s.workers.length ≤ max 1 opts.workerCount
  unstaffed : s.frontier.running_ = false → s.workers = []

theorem alert_create (opts : CrawlerOptions) (bloom : BloomFilter) :
    (create bloom).Alert opts := by
  constructor <;> simp [create, Served]

theorem length_notifyOne {workers told : List (Duty Item)} {notified : Nat}
    (signalled : notifyOne workers notified = some told) : told.length = workers.length := by
  rcases notifyOne_cases signalled with ⟨_, rfl⟩ | ⟨_, rfl⟩
  · exact List.length_set
  · rfl

private theorem asleep_of_set {workers : List (Duty Item)} {index : Nat} {after : Duty Item}
    (member : .asleep ∈ workers.set index after) (other : after ≠ .asleep) :
    .asleep ∈ workers := by
  rcases List.mem_or_eq_of_mem_set member with kept | same
  · exact kept
  · exact absurd same.symm other

private theorem mem_set_of_ne {calls : List StopCall} {call : Nat} {before other : StopCall}
    (current : calls[call]? = some before) (after : StopCall) (differs : other ≠ before)
    (member : other ∈ calls) : other ∈ calls.set call after := by
  obtain ⟨index, found⟩ := List.mem_iff_getElem?.mp member
  refine List.mem_iff_getElem?.mpr ⟨index, ?_⟩
  have elsewhere : call ≠ index := by
    rintro rfl
    rw [current] at found
    exact differs (Option.some.inj found).symm
  rw [List.getElem?_set_ne elsewhere, found]

private theorem mem_set_self {calls : List StopCall} {call : Nat} {before : StopCall}
    (current : calls[call]? = some before) (after : StopCall) : after ∈ calls.set call after :=
  List.mem_set (List.getElem?_eq_some_iff.mp current).1 after

theorem Alert.step (alert : s.Alert opts) {action : WakeStep}
    (taken : WakeState.step opts s action = some next) : next.Alert opts := by
  obtain ⟨served, called, roused, joins, staff, unstaffed⟩ := alert
  cases action with
  | enqueue url depth priority notified =>
    rcases step_enqueue taken with rfl | ⟨open_, _, _, told, signalled, rfl⟩
    · exact ⟨served, called, roused, joins, staff, unstaffed⟩
    have hired : Served s.frontier.queue_.length (s.employ opts) := by
      unfold employ
      split
      · exact served
      · exact served.spawn _
    have length : (s.employ opts).length ≤ max 1 opts.workerCount := by
      unfold employ
      split
      · exact staff
      · rename_i down
        rw [unstaffed (Bool.not_eq_true _ ▸ down), List.nil_append, List.length_replicate]
    constructor
    · have queue := (List.perm_orderedInsert Item.comesFirst
        ⟨url, depth, if priority < 0 then castInt depth else priority, s.frontier.seq_⟩
        s.frontier.queue_).length_eq
      have signal := hired.notifyOne signalled
      simp only [Frontier.accept]
      rw [queue]
      exact signal
    · exact called
    · intro stopped
      simp [Frontier.accept, open_] at stopped
    · intro stopped
      simp [Frontier.accept, open_] at stopped
    · exact (length_notifyOne signalled).trans_le length
    · simp [Frontier.accept]
  | stop =>
    cases Option.some.inj taken
    constructor
    · exact served
    · exact fun _ => rfl
    · intro _ sleeper
      cases stopped : s.frontier.stop_ with
      | true => exact List.mem_append_left _ (roused stopped sleeper)
      | false => simp
    · intro _
      cases stopped : s.frontier.stop_ with
      | true =>
        exact (joins stopped).imp (List.mem_append_left _) (Or.imp_left (List.mem_append_left _))
      | false => simp
    · exact staff
    · exact unstaffed
  | notify call =>
    obtain ⟨shouldJoin, current, rfl⟩ := step_notify taken
    have stopped := called (List.ne_nil_of_mem (List.mem_of_getElem? current))
    have nobody := asleep_notifyAll s.workers
    constructor
    · exact .awake nobody
    · exact fun _ => stopped
    · exact fun _ sleeper => absurd sleeper nobody
    · intro _
      cases shouldJoin with
      | true => exact .inr (.inl (mem_set_self current _))
      | false =>
        rcases joins stopped with first | joining | none
        · exact .inl (mem_set_of_ne current _ (by simp) first)
        · exact .inr (.inl (mem_set_of_ne current _ (by simp) joining))
        · exact .inr (.inr (by simp [none, notifyAll]))
    · simpa using staff
    · intro down
      simp [unstaffed down, notifyAll]
  | look index =>
    obtain ⟨looking, found⟩ := step_look taken
    have manned : s.workers ≠ [] := List.ne_nil_of_mem (List.mem_of_getElem? looking)
    have kept (duty : Duty Item) (stopped : s.frontier.stop_ = true) :
        .notifying true ∈ s.stops ∨ .joining ∈ s.stops ∨ s.workers.set index duty = [] := by
      simpa using joins stopped
    have down (duty : Duty Item) (down : s.frontier.running_ = false) :
        s.workers.set index duty = [] := absurd (unstaffed down) manned
    rcases found with ⟨item, rest, queue, rfl⟩ | ⟨queue, _, rfl⟩ | ⟨queue, going, rfl⟩
    · rw [queue] at served
      refine ⟨served.take looking item, called, ?_, kept _, by simpa using staff, down _⟩
      exact fun stopped sleeper => roused stopped (asleep_of_set sleeper (by simp))
    · refine ⟨?_, called, ?_, kept _, by simpa using staff, down _⟩
      · rw [queue]
        exact .empty
      · exact fun stopped sleeper => roused stopped (asleep_of_set sleeper (by simp))
    · refine ⟨?_, called, ?_, kept _, by simpa using staff, down _⟩
      · rw [queue]
        exact .empty
      · intro stopped
        simp [going] at stopped
  | wake index =>
    obtain ⟨sleeping, rfl⟩ := step_wake taken
    refine ⟨served.ready sleeping, called, ?_, by simpa using joins, by simpa using staff,
      by simpa using unstaffed⟩
    exact fun stopped sleeper => roused stopped (asleep_of_set sleeper (by simp))
  | complete index =>
    obtain ⟨item, busy, rfl⟩ := step_complete taken
    refine ⟨served.ready busy, called, ?_, by simpa [Frontier.complete] using joins,
      by simpa using staff, by simpa [Frontier.complete] using unstaffed⟩
    exact fun stopped sleeper => roused stopped (asleep_of_set sleeper (by simp))
  | join call =>
    obtain ⟨joining, _, rfl⟩ := step_join taken
    have stopped := called (List.ne_nil_of_mem (List.mem_of_getElem? joining))
    refine ⟨.awake (by simp), fun _ => stopped, by simp, fun _ => .inr (.inr rfl), by simp,
      fun _ => rfl⟩

theorem alert_of_reachable {bloom : BloomFilter}
    (reached : (machine opts).Reachable (create bloom) s) : s.Alert opts :=
  reached.invariant (alert_create opts bloom) fun _ _ _ alert _ taken => alert.step taken

/-- Every interleaving with its sleepers is one of the frontier. -/
theorem crawl_reachable {bloom : BloomFilter}
    (reached : (machine opts).Reachable (create bloom) s) :
    (CrawlState.machine opts).Reachable (CrawlState.create bloom) s.crawl := by
  induction reached with
  | refl => exact .refl
  | step action earlier _ taken seen =>
    rcases step_crawl (alert_of_reachable earlier).called taken with same | ⟨step, done⟩
    · rw [same]
      exact seen
    · exact .step step seen trivial done

/-- The crawler has no step of its own left. -/
def AtRest (opts : CrawlerOptions) (s : WakeState) : Prop :=
  ∀ action, action.isOwn = true → step opts s action = none

theorem AtRest.not_ready (rest : s.AtRest opts) : .ready ∉ s.workers := by
  intro member
  obtain ⟨index, looking⟩ := List.mem_iff_getElem?.mp member
  have blocked := rest (.look index) rfl
  simp [step, looking] at blocked

theorem AtRest.not_busy (rest : s.AtRest opts) (item : Item) : .busy item ∉ s.workers := by
  intro member
  obtain ⟨index, busy⟩ := List.mem_iff_getElem?.mp member
  have blocked := rest (.complete index) rfl
  simp [step, busy] at blocked

theorem AtRest.not_notifying (rest : s.AtRest opts) (shouldJoin : Bool) :
    .notifying shouldJoin ∉ s.stops := by
  intro member
  obtain ⟨call, current⟩ := List.mem_iff_getElem?.mp member
  have blocked := rest (.notify call) rfl
  simp [step, current] at blocked

theorem AtRest.not_joining (rest : s.AtRest opts) (gone : ∀ worker ∈ s.workers, worker = .gone) :
    .joining ∉ s.stops := by
  intro member
  obtain ⟨call, current⟩ := List.mem_iff_getElem?.mp member
  have blocked := rest (.join call) rfl
  simp only [step, if_pos (And.intro current gone)] at blocked
  cases blocked

/-- At rest a worker sleeps or has returned. -/
theorem AtRest.gone (rest : s.AtRest opts) (nobody : .asleep ∉ s.workers) :
    ∀ worker ∈ s.workers, worker = .gone := by
  intro duty member
  cases duty with
  | ready => exact absurd member rest.not_ready
  | asleep => exact absurd member nobody
  | busy item => exact absurd member (rest.not_busy item)
  | gone => rfl

theorem AtRest.inFlight (rest : s.AtRest opts) : s.crawl.inFlight = [] := by
  refine List.filterMap_eq_nil_iff.mpr fun duty member => ?_
  obtain ⟨own, present, rfl⟩ := List.mem_map.mp member
  cases own with
  | ready => rfl
  | asleep => rfl
  | busy item => exact absurd present (rest.not_busy item)
  | gone => rfl

/-- With no worker left and every call of `stop` over there is nothing to do. -/
theorem atRest_of_joined (none : s.workers = [])
    (ended : ∀ call ∈ s.stops, call = .finished) : s.AtRest opts := by
  have call_over (call : Nat) (state : StopCall) (current : s.stops[call]? = some state) :
      state = .finished := ended state (List.mem_of_getElem? current)
  intro action own
  cases action with
  | enqueue url depth priority notified => cases own
  | stop => cases own
  | wake worker => cases own
  | look worker => simp [step, none]
  | complete worker => simp [step, none]
  | notify call =>
    cases taken : step opts s (.notify call) with
    | none => rfl
    | some next =>
      obtain ⟨_, current, _⟩ := step_notify taken
      cases call_over call _ current
  | join call =>
    cases taken : step opts s (.join call) with
    | none => rfl
    | some next => cases call_over call _ (step_join taken).1

/-- No wake-up is lost. The crawler never comes to rest over a page it has accepted, and
at rest after a stop every call of it has returned and no worker is left. -/
theorem finished_of_atRest (opts : CrawlerOptions) (bloom : BloomFilter)
    (reached : (machine opts).Reachable (create bloom) s) :
    (.asleep ∈ s.workers → s.frontier.queue_.length ≤ readyCount s.workers) ∧
    (s.AtRest opts →
      s.frontier.queue_ = [] ∧ s.frontier.pending_ = 0 ∧ s.completed.Perm s.accepted ∧
      (s.frontier.stop_ = true → s.workers = [] ∧ s.frontier.running_ = false ∧
        ∀ call ∈ s.stops, call = .finished)) := by
  have alert := alert_of_reachable reached
  have books := CrawlState.accounted_of_reachable (crawl_reachable reached)
  have staffed := CrawlState.staffed_of_reachable (crawl_reachable reached)
  refine ⟨alert.served, fun rest => ?_⟩
  have queue : s.frontier.queue_ = [] := by
    by_cases sleeper : .asleep ∈ s.workers
    · exact List.length_eq_zero_iff.mp (alert.served.queued_eq_zero sleeper rest.not_ready)
    · exact staffed.queue_of_returned (returned_iff.mpr (rest.gone sleeper))
  have processed : s.handed.Perm (s.crawl.inFlight.map (·.url) ++ s.completed) := books.processed
  have queued : s.accepted.Perm (s.frontier.queue_.map (·.url) ++ s.handed) := books.queued
  have pending : s.frontier.pending_ = s.frontier.queue_.length + s.crawl.inFlight.length :=
    books.pending
  rw [rest.inFlight] at processed pending
  rw [queue] at queued pending
  refine ⟨queue, pending, (queued.trans processed).symm, fun stopped => ?_⟩
  have gone := rest.gone fun sleeper => rest.not_notifying true (alert.roused stopped sleeper)
  have joining := rest.not_joining gone
  have none : s.workers = [] := by
    rcases alert.joins stopped with first | second | none
    · exact absurd first (rest.not_notifying true)
    · exact absurd second joining
    · exact none
  refine ⟨none, ?_, fun call member => ?_⟩
  · cases running : s.frontier.running_ with
    | false => rfl
    | true => exact absurd (by simp [crawl, none]) (staffed.employed running)
  · cases call with
    | notifying shouldJoin => exact absurd member (rest.not_notifying shouldJoin)
    | joining => exact absurd member joining
    | finished => rfl

/-- Two pages for two workers: one sleeps, wakes for nothing, sleeps again and is woken for
the second page, which it takes after the stop. -/
def wakeSteps : List WakeStep :=
  [.enqueue (ascii "http://a/") 0 (-1) 0, .look 0, .look 1, .wake 1, .look 1,
    .enqueue (ascii "http://b/") 0 (-1) 1, .stop, .look 1, .complete 0, .look 0, .notify 0,
    .complete 1, .look 1, .join 0]

theorem finished_of_atRest_stopped :
    ∃ s, (machine {}).run (create (.create (fun _ => 0) 64 1)) wakeSteps = some s ∧
      s.AtRest {} ∧ s.frontier.queue_ = [] ∧ s.frontier.pending_ = 0 ∧
      s.completed = [ascii "http://a/", ascii "http://b/"] ∧ s.completed.Perm s.accepted ∧
      s.workers = [] ∧ ∀ call ∈ s.stops, call = .finished := by
  obtain ⟨s, ran, held⟩ : ∃ s, (machine {}).run (create (.create (fun _ => 0) 64 1)) wakeSteps =
      some s ∧ s.workers = [] ∧ s.stops = [.finished] ∧ s.frontier.stop_ = true ∧
        s.completed = [ascii "http://a/", ascii "http://b/"] := ⟨_, rfl, rfl, rfl, rfl, rfl⟩
  obtain ⟨none, calls, stopped, completed⟩ := held
  have rest : s.AtRest {} := atRest_of_joined none (by simp [calls])
  have finished := (finished_of_atRest {} (.create (fun _ => 0) 64 1)
    (Machine.reachable_of_run ran)).2 rest
  exact ⟨s, ran, rest, finished.1, finished.2.1, completed, finished.2.2.1,
    (finished.2.2.2 stopped).1, (finished.2.2.2 stopped).2.2⟩

/-- The steps a worker is due without further work. -/
def due : Duty Item → Nat
  | .ready => 1
  | .busy _ => 2
  | .asleep | .gone => 0

/-- What is left of the crawl: four steps for each page that can still be accepted, three
for each queued one, and what the workers, started or not, and the calls of `stop` are
due. -/
def potential (opts : CrawlerOptions) (s : WakeState) : Nat :=
  4 * (opts.maxPages - s.accepted.length) + 3 * s.frontier.queue_.length +
    (totalWeight due s.workers +
      bif s.frontier.running_ || s.frontier.stop_ then 0 else max 1 opts.workerCount) +
    totalWeight (StopCall.due (max 1 opts.workerCount)) s.stops

private theorem due_notifyOne {workers told : List (Duty Item)} {notified : Nat}
    (signalled : notifyOne workers notified = some told) :
    totalWeight due told ≤ totalWeight due workers + 1 := by
  rcases notifyOne_cases signalled with ⟨sleeping, rfl⟩ | ⟨_, rfl⟩
  · have moved := totalWeight_set due sleeping .ready
    simp only [due] at moved
    omega
  · omega

/-- A step of the crawler's own uses up potential, `enqueue` brings none, and the rest
brings its credit. -/
theorem paid (alert : s.Alert opts) (books : s.crawl.Accounted opts) {action : WakeStep}
    (taken : step opts s action = some next) :
    action.isOwn.toNat + next.potential opts ≤ s.potential opts + action.credit opts := by
  have staff := alert.staff
  cases action with
  | enqueue url depth priority notified =>
    rcases step_enqueue taken with rfl | ⟨open_, room, _, told, signalled, rfl⟩
    · simp [WakeStep.isOwn]
    have accepted : s.frontier.crawled_ + s.frontier.pending_ = s.accepted.length := books.total
    have queue := (List.perm_orderedInsert Item.comesFirst
      ⟨url, depth, if priority < 0 then castInt depth else priority, s.frontier.seq_⟩
      s.frontier.queue_).length_eq
    have woken := due_notifyOne signalled
    have hired : totalWeight due (s.employ opts) = totalWeight due s.workers +
        bif s.frontier.running_ || s.frontier.stop_ then 0 else max 1 opts.workerCount := by
      unfold employ
      cases s.frontier.running_ <;> simp [open_, due]
    rw [List.length_cons] at queue
    simp only [potential, Frontier.accept, WakeStep.isOwn, WakeStep.credit, Bool.toNat_false,
      List.length_append, List.length_singleton, Bool.true_or, cond_true] at hired woken ⊢
    rw [queue, ← hired]
    omega
  | stop =>
    cases Option.some.inj taken
    simp only [potential, Frontier.requestStop, WakeStep.isOwn, WakeStep.credit,
      Bool.toNat_false, Bool.or_true, cond_true, totalWeight_append, totalWeight_singleton,
      StopCall.due]
    omega
  | notify call =>
    obtain ⟨shouldJoin, current, rfl⟩ := step_notify taken
    have woken := totalWeight_notifyAll_le due s.workers
    have moved := totalWeight_set (StopCall.due (max 1 opts.workerCount)) current
      (if shouldJoin then .joining else .finished)
    have after : StopCall.due (max 1 opts.workerCount)
        (if shouldJoin then .joining else .finished) ≤ 1 := by
      cases shouldJoin <;> simp [StopCall.due]
    have before : StopCall.due (max 1 opts.workerCount) (.notifying shouldJoin) =
        max 1 opts.workerCount + 2 := rfl
    simp only [potential, WakeStep.isOwn, WakeStep.credit, Bool.toNat_true, due] at woken ⊢
    omega
  | look index =>
    obtain ⟨looking, found⟩ := step_look taken
    rcases found with ⟨item, rest, queue, rfl⟩ | ⟨queue, _, rfl⟩ | ⟨queue, _, rfl⟩
    · have moved := totalWeight_set due looking (.busy item)
      simp only [potential, WakeStep.isOwn, WakeStep.credit, Bool.toNat_true, due, queue,
        List.length_cons] at moved ⊢
      omega
    · have moved := totalWeight_set due looking .gone
      simp only [potential, WakeStep.isOwn, WakeStep.credit, Bool.toNat_true, due] at moved ⊢
      omega
    · have moved := totalWeight_set due looking .asleep
      simp only [potential, WakeStep.isOwn, WakeStep.credit, Bool.toNat_true, due] at moved ⊢
      omega
  | wake index =>
    obtain ⟨sleeping, rfl⟩ := step_wake taken
    have moved := totalWeight_set due sleeping .ready
    simp only [potential, WakeStep.isOwn, WakeStep.credit, Bool.toNat_false, due] at moved ⊢
    omega
  | complete index =>
    obtain ⟨item, busy, rfl⟩ := step_complete taken
    have moved := totalWeight_set due busy .ready
    simp only [potential, Frontier.complete, WakeStep.isOwn, WakeStep.credit, Bool.toNat_true,
      due] at moved ⊢
    omega
  | join call =>
    obtain ⟨joining, _, rfl⟩ := step_join taken
    have stopped := alert.called (List.ne_nil_of_mem (List.mem_of_getElem? joining))
    have moved := totalWeight_set (StopCall.due (max 1 opts.workerCount)) joining .finished
    simp only [potential, WakeStep.isOwn, WakeStep.credit, Bool.toNat_true, stopped,
      Bool.or_true, cond_true, totalWeight_nil, StopCall.due] at moved ⊢
    omega

/-- Whoever enqueues what and however often, a crawl ends: in any run the crawler takes at
most four steps of its own for each page under the cap and one for each worker, but for
those that calls of `stop` and stray wake-ups cause. -/
theorem own_steps_le (opts : CrawlerOptions) (bloom : BloomFilter) {actions : List WakeStep}
    (ran : (machine opts).run (create bloom) actions = some s) :
    (actions.map fun action => action.isOwn.toNat).sum ≤
      4 * opts.maxPages + max 1 opts.workerCount +
        (actions.map (WakeStep.credit opts)).sum := by
  have bound := Machine.cost_le_of_run (potential opts) (fun action => action.isOwn.toNat)
    (WakeStep.credit opts)
    (fun before action after (reached : (machine opts).Reachable (create bloom) before) taken =>
      .step action reached trivial taken)
    (fun before action after reached taken =>
      paid (alert_of_reachable reached)
        (CrawlState.accounted_of_reachable (crawl_reachable reached)) taken) ran .refl
  have start : (create bloom).potential opts = 4 * opts.maxPages + max 1 opts.workerCount := by
    simp [potential, create]
  omega

theorem own_steps_le_stopped :
    (wakeSteps.map fun action => action.isOwn.toNat).sum = 10 ∧
      10 ≤ 4 * 64 + max 1 2 + (1 + (max 1 2 + 2)) := by
  have ran : (machine {}).run (create (.create (fun _ => 0) 64 1)) wakeSteps = some _ := rfl
  exact ⟨rfl, own_steps_le {} (.create (fun _ => 0) 64 1) ran⟩

end WakeState

end ShadowSe

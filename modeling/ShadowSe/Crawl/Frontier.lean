import Mathlib.Data.Finset.Insert
import Mathlib.Data.List.Sort
import ShadowSe.Crawl.Bloom
import ShadowSe.Support.Machine

/-! The crawl frontier: the queue, the seen set and the counters that `mtx_` guards, and
the workers that pop from it and report back. -/

namespace ShadowSe

open Support

/-- The options of the crawler. -/
structure CrawlerOptions where
  workerCount : Nat := 2
  maxPages : Nat := 64
  maxDepth : UInt32 := 2
  /-- The least gap between fetches from a domain, in nanoseconds. -/
  domainDelay : Int := 100000000
  obeyRobots : Bool := true
  userAgent : Bytes := ascii "ShadowSE/1.0"

structure Item where
  url : Bytes
  depth : UInt32
  priority : Int
  seq : Nat
  deriving DecidableEq

/-- Lower priority first, in order of arrival among equals. -/
def Item.comesFirst (a b : Item) : Prop :=
  if a.priority ≠ b.priority then a.priority < b.priority else a.seq ≤ b.seq

instance : DecidableRel Item.comesFirst := fun a b => by
  unfold Item.comesFirst
  infer_instance

/-- `static_cast<int>` of a 32-bit depth. -/
def castInt (depth : UInt32) : Int :=
  depth.toInt32.toInt

structure Frontier where
  /-- The items in the order in which `top` yields them. -/
  queue_ : List Item := []
  seenUrls_ : Finset Bytes := ∅
  bloom_ : BloomFilter
  stop_ : Bool := false
  running_ : Bool := false
  pending_ : Nat := 0
  crawled_ : Nat := 0
  seq_ : Nat := 0

namespace Frontier

/-- The page cap is in force. -/
def capReached (opts : CrawlerOptions) (f : Frontier) : Bool :=
  opts.maxPages ≤ f.crawled_ + f.pending_

/-- The part of `enqueue` after the checks. -/
def accept (f : Frontier) (url : Bytes) (depth : UInt32) (priority : Int) : Frontier :=
  let p := if priority < 0 then castInt depth else priority
  { f with
    seenUrls_ := insert url f.seenUrls_
    bloom_ := f.bloom_.insert url
    queue_ := f.queue_.orderedInsert Item.comesFirst ⟨url, depth, p, f.seq_⟩
    seq_ := f.seq_ + 1
    pending_ := f.pending_ + 1
    running_ := true }

/-- `enqueue`. The Bloom filter is asked first and confirmed against the exact set. -/
def enqueue (opts : CrawlerOptions) (f : Frontier) (url : Bytes) (depth : UInt32)
    (priority : Int) : Bool × Frontier :=
  if f.stop_ then (false, f)
  else if f.capReached opts then (false, f)
  else if f.bloom_.maybeContains url && decide (url ∈ f.seenUrls_) then (false, f)
  else if url ∈ f.seenUrls_ then (false, f)
  else (true, f.accept url depth priority)

/-- The locked part of `stop`. -/
def requestStop (f : Frontier) : Frontier :=
  { f with stop_ := true }

/-- The item a worker takes, and the queue without it. -/
def pop (f : Frontier) : Option (Item × Frontier) :=
  match f.queue_ with
  | [] => none
  | item :: rest => some (item, { f with queue_ := rest })

/-- The bookkeeping after `process` has returned. -/
def complete (f : Frontier) : Frontier :=
  { f with pending_ := f.pending_ - 1, crawled_ := f.crawled_ + 1 }

/-- A URL is accepted exactly when the frontier is open and has not seen it; the Bloom
filter changes nothing. -/
theorem enqueue_eq (opts : CrawlerOptions) (f : Frontier) (url : Bytes) (depth : UInt32)
    (priority : Int) : f.enqueue opts url depth priority =
      if f.stop_ = true ∨ f.capReached opts = true ∨ url ∈ f.seenUrls_ then (false, f)
      else (true, f.accept url depth priority) := by
  unfold enqueue
  cases f.stop_ with
  | true => simp
  | false =>
    cases f.capReached opts with
    | true => simp
    | false =>
      by_cases seen : url ∈ f.seenUrls_
      · simp [seen]
      · simp [seen]

end Frontier

/-- What a worker thread is doing, as far as the frontier is concerned. -/
inductive WorkerState where
  | idle
  | processing (item : Item)
  | returned
  deriving DecidableEq

/-- The item a worker holds. -/
def WorkerState.held : WorkerState → Option Item
  | .processing item => some item
  | .idle | .returned => none

/-- The frontier with its worker threads. The last three fields are history: the URLs
accepted, handed to `process` and completed so far. -/
structure CrawlState where
  frontier : Frontier
  workers : List WorkerState := []
  accepted : List Bytes := []
  handed : List Bytes := []
  completed : List Bytes := []

inductive CrawlStep where
  /-- Some thread, a user's or a worker's, calls `enqueue`. -/
  | enqueue (url : Bytes) (depth : UInt32) (priority : Int)
  | stop
  | pop (worker : Nat)
  /-- The worker finds the queue empty after `stop`. -/
  | leave (worker : Nat)
  | complete (worker : Nat)
  /-- The thread that requested the stop has joined every worker. -/
  | join

namespace CrawlState

def create (bloom : BloomFilter) : CrawlState :=
  { frontier := { bloom_ := bloom } }

/-- The call with the threads it starts and its history. -/
def enqueue (opts : CrawlerOptions) (s : CrawlState) (url : Bytes) (depth : UInt32)
    (priority : Int) : CrawlState :=
  match s.frontier.enqueue opts url depth priority with
  | (false, frontier) => { s with frontier }
  | (true, frontier) =>
    { s with
      frontier
      workers := if s.frontier.running_ then s.workers
        else s.workers ++ List.replicate (max 1 opts.workerCount) .idle
      accepted := s.accepted ++ [url] }

def step (opts : CrawlerOptions) (s : CrawlState) : CrawlStep → Option CrawlState
  | .enqueue url depth priority => some (s.enqueue opts url depth priority)
  | .stop => some { s with frontier := s.frontier.requestStop }
  | .pop worker =>
    match s.workers[worker]?, s.frontier.pop with
    | some .idle, some (item, frontier) =>
      some { s with
        frontier
        workers := s.workers.set worker (.processing item)
        handed := s.handed ++ [item.url] }
    | _, _ => none
  | .leave worker =>
    if s.workers[worker]? = some .idle ∧ s.frontier.queue_ = [] ∧ s.frontier.stop_ = true then
      some { s with workers := s.workers.set worker .returned }
    else none
  | .complete worker =>
    match s.workers[worker]? with
    | some (.processing item) =>
      some { s with
        frontier := s.frontier.complete
        workers := s.workers.set worker .idle
        completed := s.completed ++ [item.url] }
    | _ => none
  | .join =>
    if s.frontier.stop_ = true ∧ ∀ worker ∈ s.workers, worker = .returned then
      some { s with frontier := { s.frontier with running_ := false }, workers := [] }
    else none

/-- The frontier driven by any number of threads. -/
def machine (opts : CrawlerOptions) : Machine CrawlState CrawlStep :=
  ⟨step opts⟩

/-- The items being processed. -/
def inFlight (s : CrawlState) : List Item :=
  s.workers.filterMap WorkerState.held

end CrawlState

end ShadowSe

import ShadowSe.Crawl.Frontier
import ShadowSe.Support.Table

/-! The gap between fetches from one domain. A call of `politenessWait` reads the time of
the last fetch in one locked section and writes the new one in another; between the two
other workers may do either. -/

namespace ShadowSe

open Support

/-- Where a call of `politenessWait` stands. -/
inductive WaitPhase where
  | waiting (domain : Bytes)
  /-- `lastFetch_` was read. -/
  | read (domain : Bytes) (last : Int)
  /-- The wait since the value read is over. -/
  | passed (domain : Bytes) (last : Int)
  deriving DecidableEq

/-- A return of `politenessWait`, with the time it records. -/
structure Grant where
  domain : Bytes
  time : Int
  deriving DecidableEq

/-- The fetch times with the clock, the call each worker is in, and the returns so far. -/
structure Politeness where
  clock : Int
  lastFetch_ : Table Bytes Int := ∅
  calls : Table Nat WaitPhase := ∅
  grants : List Grant := []

inductive WaitStep where
  | tick (elapsed : Nat)
  | call (worker : Nat) (domain : Bytes)
  | read (worker : Nat)
  | check (worker : Nat)
  | grant (worker : Nat)

namespace Politeness

/-- `opts_.domainDelay - (now - last)`. -/
def remaining (opts : CrawlerOptions) (now last : Int) : Int :=
  opts.domainDelay - (now - last)

/-- The recorded time of the last fetch, which defaults to the epoch of the clock. -/
def last (s : Politeness) (domain : Bytes) : Int :=
  (s.lastFetch_.lookup domain).getD 0

def step (opts : CrawlerOptions) (s : Politeness) : WaitStep → Option Politeness
  | .tick elapsed => some { s with clock := s.clock + elapsed }
  | .call worker domain =>
    match s.calls.lookup worker with
    | none => some { s with calls := s.calls.insert worker (.waiting domain) }
    | some _ => none
  | .read worker =>
    match s.calls.lookup worker with
    | some (.waiting domain) =>
      some { s with calls := s.calls.insert worker (.read domain (s.last domain)) }
    | _ => none
  | .check worker =>
    match s.calls.lookup worker with
    | some (.read domain last) =>
      -- A wait that is not over sleeps and starts again.
      let phase := if remaining opts s.clock last ≤ 0 then .passed domain last
        else .waiting domain
      some { s with calls := s.calls.insert worker phase }
    | _ => none
  | .grant worker =>
    match s.calls.lookup worker with
    | some (.passed domain _) =>
      some { s with
        lastFetch_ := s.lastFetch_.insert domain s.clock
        calls := s.calls.erase worker
        grants := s.grants ++ [⟨domain, s.clock⟩] }
    | _ => none

/-- The calls of any number of workers. -/
def machine (opts : CrawlerOptions) : Machine Politeness WaitStep :=
  ⟨step opts⟩

/-- Two returns for one domain are at least the delay apart. -/
def Spaced (opts : CrawlerOptions) (grants : List Grant) : Prop :=
  grants.Pairwise fun earlier later =>
    earlier.domain = later.domain → opts.domainDelay ≤ later.time - earlier.time

instance (opts : CrawlerOptions) (grants : List Grant) : Decidable (Spaced opts grants) :=
  inferInstanceAs (Decidable (grants.Pairwise fun _ _ => _ → _ ≤ _))

/-- The domain and the time read by a call that is about to record its fetch. -/
def recording (s : Politeness) : WaitStep → Option (Bytes × Int)
  | .grant worker =>
    match s.calls.lookup worker with
    | some (.passed domain last) => some (domain, last)
    | _ => none
  | .tick _ | .call .. | .read _ | .check _ => none

/-- A call that is about to record its fetch finds the time it read still recorded. -/
def ReadsCurrent (s : Politeness) (action : WaitStep) : Prop :=
  ∀ read ∈ s.recording action, s.last read.1 = read.2

instance (s : Politeness) (action : WaitStep) : Decidable (s.ReadsCurrent action) :=
  inferInstanceAs (Decidable (∀ read ∈ s.recording action, _ = _))

variable {opts : CrawlerOptions} {s next : Politeness}

theorem step_call {worker : Nat} {domain : Bytes}
    (taken : step opts s (.call worker domain) = some next) :
    next = { s with calls := s.calls.insert worker (.waiting domain) } := by
  simp only [step] at taken
  split at taken
  · exact (Option.some.inj taken).symm
  · cases taken

theorem step_read {worker : Nat} (taken : step opts s (.read worker) = some next) :
    ∃ domain, next =
      { s with calls := s.calls.insert worker (.read domain (s.last domain)) } := by
  simp only [step] at taken
  split at taken
  · exact ⟨_, (Option.some.inj taken).symm⟩
  · cases taken

/-- A check passes only when the delay has gone by since the time it read. -/
theorem step_check {worker : Nat} (taken : step opts s (.check worker) = some next) :
    ∃ phase, next = { s with calls := s.calls.insert worker phase } ∧
      ∀ domain last, phase = .passed domain last → opts.domainDelay ≤ s.clock - last := by
  simp only [step] at taken
  split at taken
  · refine ⟨_, (Option.some.inj taken).symm, fun domain last passed => ?_⟩
    split at passed
    · rename_i elapsed
      cases passed
      simp only [remaining] at elapsed
      omega
    · cases passed
  · cases taken

theorem step_grant {worker : Nat} (taken : step opts s (.grant worker) = some next) :
    ∃ domain last, s.calls.lookup worker = some (.passed domain last) ∧
      next = { s with
        lastFetch_ := s.lastFetch_.insert domain s.clock
        calls := s.calls.erase worker
        grants := s.grants ++ [⟨domain, s.clock⟩] } := by
  simp only [step] at taken
  split at taken
  · rename_i domain last passed
    exact ⟨domain, last, passed, (Option.some.inj taken).symm⟩
  · cases taken

/-- The table holds a time no earlier than any return for the domain, and a call past its
check has waited since the time it read. -/
structure Waits (opts : CrawlerOptions) (s : Politeness) : Prop where
  recorded : ∀ grant ∈ s.grants, ∃ latest, s.lastFetch_.lookup grant.domain = some latest ∧
    grant.time ≤ latest
  past : ∀ grant ∈ s.grants, grant.time ≤ s.clock
  waited : ∀ worker domain last, s.calls.lookup worker = some (.passed domain last) →
    opts.domainDelay ≤ s.clock - last
  spaced : Spaced opts s.grants

/-- A change of one worker's phase keeps the invariant when a passed check has waited. -/
private theorem Waits.setPhase (waits : s.Waits opts) (worker : Nat) (phase : WaitPhase)
    (checked : ∀ domain last, phase = .passed domain last → opts.domainDelay ≤ s.clock - last) :
    Waits opts { s with calls := s.calls.insert worker phase } := by
  refine ⟨waits.recorded, waits.past, fun other domain last passed => ?_, waits.spaced⟩
  rw [Table.lookup_insert_ite] at passed
  split at passed
  · exact checked domain last (Option.some.inj passed)
  · exact waits.waited other domain last passed

/-- A return whose read is current comes the delay after every earlier one. -/
private theorem Waits.grant (waits : s.Waits opts) {worker : Nat}
    (current : s.ReadsCurrent (.grant worker))
    (taken : step opts s (.grant worker) = some next) : next.Waits opts := by
  obtain ⟨domain, last, passed, rfl⟩ := step_grant taken
  have fresh : s.last domain = last := current (domain, last) (by simp [recording, passed])
  have waited := waits.waited worker domain last passed
  have past : ∀ grant ∈ s.grants ++ [⟨domain, s.clock⟩], grant.time ≤ s.clock := by
    intro grant member
    rcases List.mem_append.mp member with old | new
    · exact waits.past grant old
    · cases List.mem_singleton.mp new
      exact le_refl _
  refine ⟨?_, past, ?_, ?_⟩
  · intro grant member
    rw [Table.lookup_insert_ite]
    split
    · exact ⟨s.clock, rfl, past grant member⟩
    · rename_i other
      rcases List.mem_append.mp member with old | new
      · exact waits.recorded grant old
      · cases List.mem_singleton.mp new
        exact absurd rfl other
  · intro other domain last passed
    rw [Table.lookup_erase_ite] at passed
    split at passed
    · cases passed
    · exact waits.waited other domain last passed
  · refine List.pairwise_append.mpr ⟨waits.spaced, List.pairwise_singleton _ _, ?_⟩
    intro earlier member later new same
    cases List.mem_singleton.mp new
    obtain ⟨latest, found, before⟩ := waits.recorded earlier member
    have read : latest = last := by
      change earlier.domain = domain at same
      rw [← fresh, Politeness.last, ← same, found, Option.getD_some]
    change opts.domainDelay ≤ s.clock - earlier.time
    omega

theorem Waits.step (waits : s.Waits opts) (action : WaitStep) (current : s.ReadsCurrent action)
    (taken : Politeness.step opts s action = some next) : next.Waits opts := by
  cases action with
  | tick elapsed =>
    cases Option.some.inj taken
    refine ⟨waits.recorded, fun grant member => ?_, fun worker domain last passed => ?_,
      waits.spaced⟩
    · have past := waits.past grant member
      simp only
      omega
    · have waited := waits.waited worker domain last passed
      simp only
      omega
  | call worker domain =>
    rw [step_call taken]
    exact waits.setPhase worker _ (by simp)
  | read worker =>
    obtain ⟨domain, rfl⟩ := step_read taken
    exact waits.setPhase worker _ (by simp)
  | check worker =>
    obtain ⟨phase, rfl, checked⟩ := step_check taken
    exact waits.setPhase worker phase checked
  | grant worker => exact waits.grant current taken

/-- In every run in which each return still finds the time that its call read, the returns
for one domain are at least the delay apart. -/
theorem spaced_of_readsCurrent (opts : CrawlerOptions) (start : Int)
    (reached : (machine opts).Reaches ReadsCurrent { clock := start } s) :
    Spaced opts s.grants := by
  have waits : s.Waits opts :=
    reached.invariant (by constructor <;> simp [Spaced]) fun _ action _ waits current taken =>
      waits.step action current taken
  exact waits.spaced

/-- Two workers fetch from one domain in turn, the second after a full wait. -/
def takingTurns : List WaitStep :=
  [.call 0 (ascii "h"), .read 0, .check 0, .call 1 (ascii "h"), .grant 0, .read 1, .check 1,
    .tick 100000000, .read 1, .check 1, .grant 1]

theorem spaced_takingTurns :
    ∃ s, ((machine {}).restrict ReadsCurrent).run { clock := 1000000000 } takingTurns = some s ∧
      s.grants.length = 2 ∧ Spaced {} s.grants :=
  ⟨_, rfl, rfl, spaced_of_readsCurrent {} 1000000000 (Machine.reaches_of_run takingTurns rfl)⟩

/-- Two workers read before either writes, and both return at once. -/
def bothRead : List WaitStep :=
  [.call 0 (ascii "h"), .call 1 (ascii "h"), .read 0, .read 1, .check 0, .check 1, .grant 0,
    .grant 1]

theorem bothRead_not_spaced :
    ∃ s, (machine {}).run { clock := 1000000000 } bothRead = some s ∧ ¬ Spaced {} s.grants :=
  ⟨_, rfl, by decide⟩

end Politeness

end ShadowSe

import ShadowSe.Crawl.Robots
import ShadowSe.Support.Machine
import ShadowSe.Support.Table

/-! Concurrent calls of `loadDomain`. A call checks the cache in one locked section,
fetches without the lock and stores in another, without a second look at the cache. -/

namespace ShadowSe

open Support

namespace RobotsTxt

private theorem lookup_entry (o query : Bytes) (r : DomainRules)
    (rest : List (Bytes × DomainRules)) : List.lookup query ((o, r) :: rest) =
      if query = o then some r else rest.lookup query := by
  by_cases same : query = o
  · simp [same]
  · simp [List.lookup_cons, same, beq_eq_false_iff_ne.mpr same]

theorem lookup_storeEntry (origin query : Bytes) (rules : DomainRules)
    (domains : List (Bytes × DomainRules)) : (storeEntry origin rules domains).lookup query =
      if query = origin then some rules else domains.lookup query := by
  induction domains with
  | nil => exact lookup_entry origin query rules []
  | cons head rest ih =>
    obtain ⟨o, r⟩ := head
    by_cases first : o = origin
    · subst o
      by_cases same : query = origin <;> simp [storeEntry, lookup_entry, same]
    · rw [storeEntry, if_neg first, lookup_entry, lookup_entry, ih]
      by_cases same : query = origin
      · simp [same, Ne.symm first]
      · simp [same]

/-- A store sets the entry of its origin and leaves the others. -/
theorem entry_store (robots : RobotsTxt) (origin query : Bytes) (rules : DomainRules) :
    (robots.store origin rules).entry query =
      if query = origin then some rules else robots.entry query :=
  lookup_storeEntry origin query rules robots.domains_

/-- The verdict on a URL depends on the entry of its origin alone. -/
theorem allowed_congr {robots other : RobotsTxt} {url : Bytes}
    (same : robots.entry (originOf url) = other.entry (originOf url)) :
    robots.allowed url = other.allowed url := by
  simp only [allowed, same]

end RobotsTxt

/-- Where a call of `loadDomain` stands that found no policy. -/
inductive LoadPhase where
  | missed (origin : Bytes)
  | fetched (origin : Bytes) (res : FetchResult)
  deriving DecidableEq

/-- The cache with the call each worker is in. -/
structure RobotsCache where
  robots : RobotsTxt
  calls : Table Nat LoadPhase := ∅

inductive LoadStep where
  | call (worker : Nat) (url : Bytes)
  /-- The fetch returns, with whatever result. -/
  | fetch (worker : Nat) (res : FetchResult)
  | store (worker : Nat)

namespace RobotsCache

def step (s : RobotsCache) : LoadStep → Option RobotsCache
  | .call worker url =>
    match s.calls.lookup worker with
    | none =>
      let origin := RobotsTxt.originOf url
      if s.robots.needsLoad origin then
        some { s with calls := s.calls.insert worker (.missed origin) }
      else some s
    | some _ => none
  | .fetch worker res =>
    match s.calls.lookup worker with
    | some (.missed origin) =>
      some { s with calls := s.calls.insert worker (.fetched origin res) }
    | _ => none
  | .store worker =>
    match s.calls.lookup worker with
    | some (.fetched origin res) =>
      some {
        robots := s.robots.store origin (s.robots.fetchedRules res)
        calls := s.calls.erase worker }
    | _ => none

def machine : Machine RobotsCache LoadStep :=
  ⟨step⟩

/-- The origin and the fetch of a call that is about to store. -/
def storing (s : RobotsCache) : LoadStep → Option (Bytes × FetchResult)
  | .store worker =>
    match s.calls.lookup worker with
    | some (.fetched origin res) => some (origin, res)
    | _ => none
  | .call .. | .fetch .. => none

/-- A call that finds rules for its origin when it stores has fetched the same rules. -/
def StoresAlike (s : RobotsCache) (action : LoadStep) : Prop :=
  ∀ stored ∈ s.storing action, ∀ present ∈ s.robots.entry stored.1,
    present.rules ≠ [] → s.robots.fetchedRules stored.2 = present

instance (s : RobotsCache) (action : LoadStep) : Decidable (s.StoresAlike action) :=
  inferInstanceAs (Decidable (∀ stored ∈ s.storing action, ∀ present ∈ _, _ → _ = _))

variable {s next later : RobotsCache}

theorem step_call {worker : Nat} {url : Bytes} (taken : step s (.call worker url) = some next) :
    s.calls.lookup worker = none ∧
      (s.robots.needsLoad (RobotsTxt.originOf url) = true ∧
          next = { s with calls := s.calls.insert worker (.missed (RobotsTxt.originOf url)) } ∨
        s.robots.needsLoad (RobotsTxt.originOf url) = false ∧ next = s) := by
  simp only [step] at taken
  split at taken
  · rename_i free
    refine ⟨free, ?_⟩
    split at taken
    · rename_i needs
      exact .inl ⟨needs, (Option.some.inj taken).symm⟩
    · rename_i cached
      exact .inr ⟨Bool.eq_false_iff.mpr cached, (Option.some.inj taken).symm⟩
  · cases taken

theorem step_fetch {worker : Nat} {res : FetchResult}
    (taken : step s (.fetch worker res) = some next) :
    ∃ origin, s.calls.lookup worker = some (.missed origin) ∧
      next = { s with calls := s.calls.insert worker (.fetched origin res) } := by
  simp only [step] at taken
  split at taken
  · rename_i origin missed
    exact ⟨origin, missed, (Option.some.inj taken).symm⟩
  · cases taken

theorem step_store {worker : Nat} (taken : step s (.store worker) = some next) :
    ∃ origin res, s.calls.lookup worker = some (.fetched origin res) ∧
      next = {
        robots := s.robots.store origin (s.robots.fetchedRules res)
        calls := s.calls.erase worker } := by
  simp only [step] at taken
  split at taken
  · rename_i origin res fetched
    exact ⟨origin, res, fetched, (Option.some.inj taken).symm⟩
  · cases taken

theorem entry_step {origin : Bytes} {rules : DomainRules} (nonempty : rules.rules ≠ [])
    (held : s.robots.entry origin = some rules) (action : LoadStep)
    (alike : s.StoresAlike action) (taken : step s action = some next) :
    next.robots.entry origin = some rules := by
  cases action with
  | call worker url =>
    rcases step_call taken with ⟨_, ⟨_, rfl⟩ | ⟨_, rfl⟩⟩
    · exact held
    · exact held
  | fetch worker res =>
    obtain ⟨_, _, rfl⟩ := step_fetch taken
    exact held
  | store worker =>
    obtain ⟨target, res, fetched, rfl⟩ := step_store taken
    rw [RobotsTxt.entry_store]
    split
    · rename_i same
      subst target
      exact congrArg some (alike (origin, res) (by simp [storing, fetched]) rules held nonempty)
    · exact held

theorem entry_run {origin : Bytes} {rules : DomainRules} (nonempty : rules.rules ≠ [])
    (held : s.robots.entry origin = some rules) (reached : machine.Reaches StoresAlike s later) :
    later.robots.entry origin = some rules :=
  reached.invariant held fun _ action _ held alike taken =>
    entry_step nonempty held action alike taken

/-- After a call has stored the rules of a successful fetch, a run whose stores are alike
keeps them, and what they disallow stays disallowed. -/
theorem policy_kept {worker : Nat} {origin : Bytes} {res : FetchResult}
    (fetched : s.calls.lookup worker = some (.fetched origin res)) (succeeded : res.ok = true)
    (stored : machine.step s (.store worker) = some next)
    (reached : machine.Reaches StoresAlike next later) :
    ((RobotsTxt.parseBody s.robots.ua_ res.html).rules ≠ [] →
      later.robots.entry origin = some (RobotsTxt.parseBody s.robots.ua_ res.html)) ∧
    ∀ url, RobotsTxt.originOf url = origin → next.robots.allowed url = false →
      later.robots.allowed url = false := by
  obtain ⟨target, other, found, written⟩ := step_store stored
  cases Option.some.inj (found.symm.trans fetched)
  have held : next.robots.entry origin =
      some (RobotsTxt.parseBody s.robots.ua_ res.html) := by
    rw [written, RobotsTxt.entry_store, if_pos rfl, RobotsTxt.fetchedRules, if_pos succeeded]
  refine ⟨fun nonempty => entry_run nonempty held reached, fun url own refused => ?_⟩
  -- An empty rule list would have allowed the URL.
  have nonempty : (RobotsTxt.parseBody s.robots.ua_ res.html).rules ≠ [] := by
    intro empty
    simp [RobotsTxt.allowed, own, held, empty] at refused
  have same : later.robots.entry (RobotsTxt.originOf url) =
      next.robots.entry (RobotsTxt.originOf url) := by
    rw [own, held, entry_run nonempty held reached]
  rw [RobotsTxt.allowed_congr same, refused]

def secretPage : Bytes :=
  ascii "http://h/secret/page"

/-- A fetch of a policy that disallows the page. -/
def secretPolicy : FetchResult :=
  { ok := true, html := ascii "User-agent: *\nDisallow: /secret/" }

/-- Two workers miss the cache and fetch at once; one gets the policy. -/
def bothMiss (other : FetchResult) : List LoadStep :=
  [.call 0 secretPage, .call 1 secretPage, .fetch 0 secretPolicy, .fetch 1 other]

/-- The cache after a sequence of steps that are all enabled. -/
def after (steps : List LoadStep) : RobotsCache :=
  (machine.run { robots := {} } steps).getD { robots := {} }

theorem policy_kept_bothMiss :
    machine.run { robots := {} } (bothMiss secretPolicy ++ [.store 0, .store 1]) =
        some (after (bothMiss secretPolicy ++ [.store 0, .store 1])) ∧
      (after (bothMiss secretPolicy ++ [.store 0, .store 1])).robots.allowed secretPage = false := by
  have stored : machine.step (after (bothMiss secretPolicy)) (.store 0) =
    some (after (bothMiss secretPolicy ++ [.store 0])) := rfl
  have again : (machine.restrict StoresAlike).run (after (bothMiss secretPolicy ++ [.store 0]))
    [.store 1] = some (after (bothMiss secretPolicy ++ [.store 0, .store 1])) := rfl
  have kept := policy_kept rfl rfl stored (Machine.reaches_of_run [.store 1] again)
  exact ⟨rfl, kept.2 secretPage (by decide) (by decide)⟩

/-- When the second fetch fails, its store replaces the policy, and the page that the
policy disallowed is allowed. -/
theorem failedFetch_drops_policy :
    machine.run { robots := {} } (bothMiss {} ++ [.store 0]) =
        some (after (bothMiss {} ++ [.store 0])) ∧
      (after (bothMiss {})).calls.lookup 0 =
        some (.fetched (RobotsTxt.originOf secretPage) secretPolicy) ∧
      (after (bothMiss {} ++ [.store 0])).robots.allowed secretPage = false ∧
      machine.step (after (bothMiss {} ++ [.store 0])) (.store 1) =
        some (after (bothMiss {} ++ [.store 0, .store 1])) ∧
      (after (bothMiss {} ++ [.store 0, .store 1])).robots.entry
        (RobotsTxt.originOf secretPage) = some { loaded := true } ∧
      (after (bothMiss {} ++ [.store 0, .store 1])).robots.allowed secretPage = true :=
  ⟨rfl, rfl, by decide, rfl, by decide, by decide⟩

end RobotsCache

end ShadowSe

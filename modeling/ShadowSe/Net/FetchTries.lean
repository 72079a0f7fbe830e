import ShadowSe.Net.ProxyHealth
import ShadowSe.Tor.ProbeRaces
import ShadowSe.Tor.ProxyFlags

namespace ShadowSe

theorem PooledTorProxyManager.runAll_opts (o : PoolOptions) (start : Int) (calls : List PoolCall) :
    (runAll o start calls).opts_ = o := by
  have kept (pool : PooledTorProxyManager) : (calls.foldl apply pool).opts_ = pool.opts_ := by
    induction calls generalizing pool with
    | nil => rfl
    | cons call calls ih => rw [List.foldl_cons, ih, apply_opts]
  exact kept (create o start)

theorem ProbedManager.step_opts {state next : ProbedManager} {action : ManagerAction}
    (taken : machine.step state action = some next) :
    next.manager.opts_ = state.manager.opts_ := by
  cases action with
  | finishProbe call network now =>
    obtain ⟨ep, -, rfl⟩ := Option.map_eq_some_iff.mp taken
    rfl
  | addProxy ep | selectProxy url | beginProbe =>
    cases Option.some.inj taken
    rfl
  | removeProxy host port =>
    cases Option.some.inj taken
    dsimp only [DefaultTorProxyManager.removeProxy]
    split <;> rfl
  | reportSuccess host port latency =>
    cases Option.some.inj taken
    dsimp only [DefaultTorProxyManager.reportSuccess]
    split <;> rfl
  | reportFailure host port =>
    cases Option.some.inj taken
    dsimp only [DefaultTorProxyManager.reportFailure]
    split <;> rfl
  | probeEndpoint ep answer =>
    cases Option.some.inj taken
    dsimp only [DefaultTorProxyManager.probeEndpoint]
    split <;> rfl

theorem ProbedManager.run_opts {o : PoolOptions} {actions : List ManagerAction}
    {state : ProbedManager} (ran : machine.run (start o) actions = some state) :
    state.manager.opts_ = o := by
  refine (Support.Machine.reachable_of_run ran).invariant rfl ?_
  intro before action after same _ taken
  exact (step_opts taken).trans same

namespace TorProxyManager

/-- The managers that are made with these options, after any calls on them. -/
inductive MadeWith (o : PoolOptions) : TorProxyManager → Prop where
  | default {actions : List ManagerAction} {state : ProbedManager}
      (ran : ProbedManager.machine.run (.start o) actions = some state) :
      MadeWith o (.default state.manager)
  | pooled (start : Int) (calls : List PoolCall) : MadeWith o (.pooled (.runAll o start calls))

variable {o : PoolOptions} {manager : TorProxyManager} {url : Bytes}

theorem MadeWith.maxRetries_onion (made : manager.MadeWith o) (onion : isOnionUrl url = true) :
    manager.maxRetries url = o.onionRetries := by
  cases made with
  | default ran =>
    have kept := ProbedManager.run_opts ran
    change DefaultTorProxyManager.maxRetries _ url = _
    rw [DefaultTorProxyManager.maxRetries, if_pos onion, kept]
  | pooled start calls =>
    change PooledTorProxyManager.maxRetries _ url = _
    rw [PooledTorProxyManager.maxRetries, if_pos onion, PooledTorProxyManager.runAll_opts]

theorem maxRetries_lt (other : isOnionUrl url = false) (fits : manager.proxies.length < 2 ^ 64) :
    (manager.maxRetries url).toNat < 2 ^ 64 - 1 := by
  have direct : ¬ isOnionUrl url = true := by simp [other]
  cases manager with
  | default manager =>
    change (manager.maxRetries url).toNat < _
    rw [DefaultTorProxyManager.maxRetries, if_neg direct]
    decide
  | pooled pool =>
    have healthy : (pool.eps_.filter (·.healthy)).length ≤ pool.eps_.length :=
      List.length_filter_le _ _
    have fits : pool.eps_.length < 2 ^ 64 := fits
    change (pool.maxRetries url).toNat < _
    rw [PooledTorProxyManager.maxRetries, if_neg direct]
    dsimp only
    split
    · rw [UInt64.toNat_ofNat', Nat.mod_eq_of_lt (by omega)]
      omega
    · decide

end TorProxyManager

/-- A text that is read as the largest word: its number, or a minus sign and one. -/
def ReadsMax (s : Bytes) : Prop :=
  ∃ blank sign digits rest, IntegerText s blank sign digits rest ∧
    decimalValue digits = if sign = [45] then 1 else 2 ^ 64 - 1

theorem toNat_neg_eq_max_iff {n : Nat} (range : n < 2 ^ 64) :
    (-UInt64.ofNat n).toNat = 2 ^ 64 - 1 ↔ n = 1 := by
  rw [UInt64.toNat_neg, UInt64.toNat_ofNat_of_lt' range, UInt64.size]
  omega

theorem toNat_stoul_eq_max_iff {s : Bytes} :
    (∃ v, stoul s = some v ∧ v.toNat = 2 ^ 64 - 1) ↔ ReadsMax s := by
  constructor
  · rintro ⟨v, read, largest⟩
    obtain ⟨blank, sign, digits, rest, text, range, rfl⟩ := stoul_eq_some_iff.mp read
    refine ⟨blank, sign, digits, rest, text, ?_⟩
    split at largest
    · rename_i minus
      rw [if_pos minus, ← toNat_neg_eq_max_iff range, largest]
    · rename_i plus
      rw [if_neg plus, ← largest, UInt64.toNat_ofNat_of_lt' range]
  · rintro ⟨blank, sign, digits, rest, text, value⟩
    have range : decimalValue digits < 2 ^ 64 := by
      split at value
      · omega
      · omega
    refine ⟨_, stoul_eq_some_iff.mpr ⟨blank, sign, digits, rest, text, range, rfl⟩, ?_⟩
    split at value
    · rename_i minus
      rw [if_pos minus, toNat_neg_eq_max_iff range, value]
    · rename_i plus
      rw [if_neg plus, UInt64.toNat_ofNat_of_lt' range, value]

/-- The largest number of retries, as the flag sets it or leaves it. -/
def RetriesMax (cfg : Engine.Config) (value : Bytes) : Prop :=
  value = [] ∧ cfg.onionRetries.toNat = 2 ^ 64 - 1 ∨ ReadsMax value

theorem onionRetries_parseTorFlag_iff (cfg : Engine.Config) (value : Bytes) :
    (parseTorFlag cfg (ascii "--onion-retries") value).2.onionRetries.toNat = 2 ^ 64 - 1 ↔
      RetriesMax cfg value := by
  rw [parseTorFlag, if_neg (by decide), if_neg (by decide), if_pos rfl, RetriesMax,
    ← toNat_stoul_eq_max_iff]
  cases value with
  | nil => simp [stoul, scanInteger, signPart]
  | cons c rest =>
    rw [List.isEmpty_cons, if_neg Bool.false_ne_true]
    cases read : stoul (c :: rest) with
    | none => simp
    | some v => simp

namespace CurlFetcher

/-- A fetch makes an attempt or sets an error text. -/
def Fetching.Acts (state : Fetching) : Prop :=
  state.transfers ≠ [] ∨ state.result.error ≠ []

/-- A fetch of the URL is allowed an attempt, and it acts, whatever it meets. -/
def TriesOnce (manager : TorProxyManager) (url : Bytes) : Prop :=
  1 ≤ maxTries (some manager) url ∧
    ∀ strerror attempts, (fetch strerror (some manager) attempts url).Acts

section Attempt

variable (strerror : CURLcode → Bytes) (url : Bytes)

theorem fetchAttempt_acts (state : Fetching) (attempt : Attempt) :
    let after := fetchAttempt strerror url state attempt
    after.1.transfers ≠ [] ∨ after.2 = true ∧ after.1.result.error ≠ [] := by
  unfold fetchAttempt
  dsimp only
  split
  · have named : ascii
        "onion target requires Tor; no healthy SOCKS5 proxy available (run 'status')" ≠ [] := by
      decide
    exact .inr ⟨rfl, named⟩
  · split
    · have named : ascii "curl_easy_init() failed" ≠ [] := by decide
      exact .inr ⟨rfl, named⟩
    · rw [fetchOutcome_transfers]
      exact .inl (by simp)

theorem fetchLoop_acts (attempts : Nat → Attempt) (left i : Nat) (state : Fetching) :
    (fetchLoop strerror url attempts (left + 1) i state).Acts := by
  have acts := fetchAttempt_acts strerror url state (attempts i)
  rw [fetchLoop]
  dsimp only at acts ⊢
  split
  · exact acts.imp_right And.right
  · rename_i continues
    rcases acts with performed | ⟨ends, _⟩
    · exact .inl (fetchLoop_transfers_ne_nil strerror url attempts left (i + 1) performed)
    · exact absurd ends continues

end Attempt

theorem one_le_maxTries_iff (manager : TorProxyManager) (url : Bytes) :
    1 ≤ maxTries (some manager) url ↔ (manager.maxRetries url).toNat ≠ 2 ^ 64 - 1 := by
  have bound := (manager.maxRetries url).toNat_lt
  rw [maxTries, UInt64.le_iff_toNat_le, UInt64.toNat_add, UInt64.toNat_one]
  omega

theorem triesOnce_iff (manager : TorProxyManager) (url : Bytes) :
    TriesOnce manager url ↔ (manager.maxRetries url).toNat ≠ 2 ^ 64 - 1 := by
  rw [← one_le_maxTries_iff]
  refine and_iff_left_of_imp fun allowed strerror attempts => ?_
  rw [UInt64.le_iff_toNat_le, UInt64.toNat_one] at allowed
  obtain ⟨left, tries⟩ := Nat.exists_eq_succ_of_ne_zero (Nat.one_le_iff_ne_zero.mp allowed)
  rw [fetch, tries]
  exact fetchLoop_acts strerror url attempts left 0 _

/-- A fetch is allowed an attempt unless the URL is an onion one and the text of the flag is
read as the largest word, or leaves it in place. -/
theorem triesOnce_parseTorFlag_iff (cfg : Engine.Config) (value url : Bytes)
    {manager : TorProxyManager}
    (made : manager.MadeWith
      (Engine.managerOptions (parseTorFlag cfg (ascii "--onion-retries") value).2))
    (fits : manager.proxies.length < 2 ^ 64) :
    TriesOnce manager url ↔ ¬ (isOnionUrl url = true ∧ RetriesMax cfg value) := by
  rw [triesOnce_iff, ← onionRetries_parseTorFlag_iff]
  cases onion : isOnionUrl url with
  | true =>
    rw [made.maxRetries_onion onion]
    simp [Engine.managerOptions]
  | false =>
    have fewer := TorProxyManager.maxRetries_lt onion fits
    simp only [Bool.false_eq_true, false_and, not_false_eq_true, iff_true]
    omega

theorem triesOnce_parseTorFlag_three :
    TriesOnce (Engine.torManager (parseTorFlag {} (ascii "--onion-retries") (ascii "3x")).2 0)
      (ascii "http://x.onion/") := by
  refine (triesOnce_parseTorFlag_iff {} (ascii "3x") (ascii "http://x.onion/")
    (@TorProxyManager.MadeWith.default _ [] _ rfl) (by decide)).mpr ?_
  rw [← onionRetries_parseTorFlag_iff]
  decide

/-- Minus one retries leave no attempt, and the fetch returns without an error text. -/
theorem minus_one_never_tries :
    ¬ TriesOnce (Engine.torManager (parseTorFlag {} (ascii "--onion-retries") (ascii "-1")).2 0)
      (ascii "http://x.onion/") := by
  rintro ⟨allowed, -⟩
  revert allowed
  decide

end CurlFetcher

end ShadowSe

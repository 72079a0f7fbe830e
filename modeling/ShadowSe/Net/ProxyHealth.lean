import ShadowSe.Net.OnionRouting
import ShadowSe.Tor.Quarantine

namespace ShadowSe

/-- Where the first endpoint was healthy the second is. -/
def TorEndpoint.StaysHealthy (e changed : TorEndpoint) : Prop :=
  e.healthy = true → changed.healthy = true

@[simp] theorem TorEndpoint.StaysHealthy.refl (e : TorEndpoint) : e.StaysHealthy e :=
  fun healthy => healthy

instance : Std.Refl TorEndpoint.StaysHealthy :=
  ⟨TorEndpoint.StaysHealthy.refl⟩

/-- No endpoint that is healthy before is unhealthy afterwards. -/
def TorProxyManager.Spares (before after : TorProxyManager) : Prop :=
  List.Forall₂ TorEndpoint.StaysHealthy before.proxies after.proxies

theorem forall₂_staysHealthy_trans {eps middle changed : List TorEndpoint}
    (first : List.Forall₂ TorEndpoint.StaysHealthy eps middle)
    (second : List.Forall₂ TorEndpoint.StaysHealthy middle changed) :
    List.Forall₂ TorEndpoint.StaysHealthy eps changed := by
  induction first generalizing changed with
  | nil => exact second
  | cons stays _ ih =>
    cases second with
    | cons later rest => exact .cons (fun healthy => later (stays healthy)) (ih rest)

theorem forall₂_staysHealthy_set {eps : List TorEndpoint} {i : Nat} {e changed : TorEndpoint}
    (found : eps[i]? = some e) (stays : e.StaysHealthy changed) :
    List.Forall₂ TorEndpoint.StaysHealthy eps (eps.set i changed) := by
  induction eps generalizing i with
  | nil => cases found
  | cons first rest ih =>
    cases i with
    | zero =>
      cases Option.some.inj found
      exact .cons stays (List.forall₂_refl rest)
    | succ i => exact .cons (.refl first) (ih found)

namespace PooledTorProxyManager

/-- Changing the first endpoint at an address spares the list exactly when it spares it. -/
theorem forall₂_updateFirst_iff (host : Bytes) (port : UInt16)
    (change : TorEndpoint → TorEndpoint) (eps : List TorEndpoint) :
    List.Forall₂ TorEndpoint.StaysHealthy eps (updateFirst host port change eps) ↔
      ∀ e, eps.find? (fun e => e.IsAt host port) = some e → e.StaysHealthy (change e) := by
  induction eps with
  | nil => simp [updateFirst]
  | cons first rest ih =>
    rw [updateFirst, List.find?_cons]
    by_cases found : first.IsAt host port
    · simp [found, List.forall₂_cons]
    · simp [found, List.forall₂_cons, ih]

theorem forall₂_selectProxy (pool : PooledTorProxyManager) (url : Bytes) (now clock : Int)
    (reprobe : TorStatus) : List.Forall₂ TorEndpoint.StaysHealthy pool.eps_
      (pool.selectProxy url now clock reprobe).2.eps_ := by
  have candidate (pool : PooledTorProxyManager) :
      List.Forall₂ TorEndpoint.StaysHealthy pool.eps_
        (pool.selectCandidate url now clock reprobe).2.eps_ := by
    rcases pool.selectCandidate_cases url now clock reprobe with
      ⟨_, same⟩ | ⟨i, e, changed, found, _, set, _, stays, _⟩
    · rw [same]
      exact List.forall₂_refl _
    · rw [set]
      exact forall₂_staysHealthy_set found stays
  have rotated (pool : PooledTorProxyManager) :
      List.Forall₂ TorEndpoint.StaysHealthy pool.eps_ (pool.rotate now).eps_ := by
    unfold rotate
    split
    · rw [List.forall₂_map_right_iff, List.forall₂_same]
      exact fun _ _ _ => rfl
    · exact List.forall₂_refl _
  unfold selectProxy
  split
  · exact List.forall₂_refl _
  · dsimp only
    refine forall₂_staysHealthy_trans ?_ (candidate _)
    split
    · exact rotated { pool with onionRequests_ := pool.onionRequests_ + 1 }
    · exact rotated pool

theorem forall₂_reportSuccess (pool : PooledTorProxyManager) (host : Bytes) (port : UInt16)
    (latency : Int) : List.Forall₂ TorEndpoint.StaysHealthy pool.eps_
      (pool.reportSuccess host port latency).eps_ := by
  rw [reportSuccess, forall₂_updateFirst_iff]
  exact fun _ _ _ => rfl

/-- A reported failure spares every endpoint when it meets an unhealthy one or none. -/
theorem forall₂_reportFailure_iff (pool : PooledTorProxyManager) (host : Bytes) (port : UInt16)
    (now : Int) :
    List.Forall₂ TorEndpoint.StaysHealthy pool.eps_ (pool.reportFailure host port now).eps_ ↔
      ∀ e, pool.eps_.find? (fun e => e.IsAt host port) = some e → e.healthy = false := by
  rw [reportFailure, forall₂_updateFirst_iff]
  refine forall₂_congr fun e _ => ?_
  rw [TorEndpoint.StaysHealthy, ← Bool.not_eq_true]
  exact ⟨fun stays up => Bool.false_ne_true (stays up), fun down up => absurd up down⟩

end PooledTorProxyManager

namespace CurlFetcher

/-- No step of the call marks a healthy endpoint unhealthy. -/
def Fetching.SparesAll (state : Fetching) (before : TorProxyManager) : Prop :=
  (before :: state.passed).IsChain TorProxyManager.Spares

/-- The attempt performs a transfer that ends in an HTTP error, and its endpoint has a host. -/
def ReportsHttpError (url : Bytes) (ep : TorEndpoint) (attempt : Attempt) : Prop :=
  400 ≤ attempt.httpCode ∧ attempt.handle = true ∧ ep.host ≠ [] ∧
    ¬ (isOnionUrl url = true ∧ ep.port = 0)

/-- When the attempt meets an HTTP error, the endpoint that the report finds is already
unhealthy. -/
def SparesHealth (pool : PooledTorProxyManager) (url : Bytes) (attempt : Attempt) : Prop :=
  let (ep, selected) := pool.selectProxy url attempt.now attempt.clock attempt.reprobe
  ReportsHttpError url ep attempt →
    ∀ e, selected.eps_.find? (fun e => e.IsAt ep.host ep.port) = some e → e.healthy = false

section Attempt

variable (strerror : CURLcode → Bytes) (pool : PooledTorProxyManager) (url : Bytes)

theorem selectProxy_spares (now clock : Int) (reprobe : TorStatus) :
    TorProxyManager.Spares (.pooled pool) (.pooled (pool.selectProxy url now clock reprobe).2) :=
  pool.forall₂_selectProxy url now clock reprobe

/-- After a selection that spares the pool, a report is all that can harm it. -/
theorem report_sparesAll_iff {before manager : TorProxyManager} (selects : before.Spares manager)
    (result : FetchResult) (transfers : List Transfer) (ep : TorEndpoint)
    (change : TorProxyManager → TorProxyManager) :
    (Fetching.report { manager := some manager, passed := [manager], result, transfers } ep
        change).SparesAll before ↔
      (ep.host ≠ [] → manager.Spares (change manager)) := by
  unfold Fetching.report Fetching.SparesAll
  dsimp only
  split
  · rename_i nameless
    simp [selects, List.isEmpty_iff.mp nameless]
  · rename_i named
    have named : ep.host ≠ [] := fun none => named (List.isEmpty_iff.mpr none)
    simp [Fetching.pass, selects, named]

/-- A transfer that completes ends the loop; an HTTP error is reported as a failure. -/
theorem fetchOutcome_sparesAll_iff {attempt : Attempt} (completed : attempt.code = .ok)
    {selected : PooledTorProxyManager}
    (selects : TorProxyManager.Spares (.pooled pool) (.pooled selected))
    (onion : Bool) (ep : TorEndpoint) (result : FetchResult) (transfers : List Transfer) :
    let after := fetchOutcome strerror onion ep attempt
      { manager := some (.pooled selected), passed := [.pooled selected], result, transfers }
    after.2 = true ∧
      (after.1.SparesAll (.pooled pool) ↔ (400 ≤ attempt.httpCode → ep.host ≠ [] →
        ∀ e, selected.eps_.find? (fun e => e.IsAt ep.host ep.port) = some e →
          e.healthy = false)) := by
  unfold fetchOutcome
  by_cases failed : 400 ≤ attempt.httpCode
  · have unsuccessful : ¬ (attempt.code = .ok ∧ attempt.httpCode < 400) := fun success =>
      absurd success.2 (Int.not_lt.mpr failed)
    rw [if_neg unsuccessful]
    simp only [failed, if_true, true_and, forall_const]
    rw [report_sparesAll_iff selects]
    exact imp_congr_right fun _ => selected.forall₂_reportFailure_iff ep.host ep.port _
  · rw [if_pos ⟨completed, Int.not_le.mp failed⟩]
    refine ⟨rfl, iff_of_true ?_ fun error => absurd error failed⟩
    exact (report_sparesAll_iff selects result transfers ep
      (·.reportSuccess ep.host ep.port attempt.latency)).mpr fun _ =>
        selected.forall₂_reportSuccess ep.host ep.port attempt.latency

/-- A first attempt that completes, or performs no transfer, ends the loop, and it spares the
pool under the condition. -/
theorem fetchAttempt_sparesAll_iff {attempt : Attempt}
    (completed : (fetchAttempt strerror url { manager := some (.pooled pool) } attempt).1.transfers
      ≠ [] → attempt.code = .ok) :
    let after := fetchAttempt strerror url { manager := some (.pooled pool) } attempt
    after.2 = true ∧ (after.1.SparesAll (.pooled pool) ↔ SparesHealth pool url attempt) := by
  have selects := selectProxy_spares pool url attempt.now attempt.clock attempt.reprobe
  unfold SparesHealth fetchAttempt Fetching.select at *
  dsimp only [TorProxyManager.selectProxy] at *
  generalize pool.selectProxy url attempt.now attempt.clock attempt.reprobe = selection at *
  obtain ⟨ep, selected⟩ := selection
  have idle (result : FetchResult) : Fetching.SparesAll
      { manager := some (.pooled selected), passed := [.pooled selected], result } (.pooled pool) :=
    List.isChain_pair.mpr selects
  by_cases guarded : (url.contains (ascii ".onion") && (proxyOf ep).isEmpty) = true
  · rw [if_pos guarded]
    refine ⟨rfl, iff_of_true (idle _) fun reports => ?_⟩
    obtain ⟨_, _, named, routed⟩ := reports
    rw [Bool.and_eq_true, proxyOf_isEmpty, TorEndpoint.isNone, Bool.or_eq_true] at guarded
    rcases guarded.2 with nameless | portless
    · exact absurd (List.isEmpty_iff.mp nameless) named
    · exact absurd ⟨guarded.1, beq_iff_eq.mp portless⟩ routed
  rw [if_neg guarded] at completed ⊢
  cases handle : attempt.handle with
  | false =>
    refine ⟨rfl, iff_of_true (idle _) fun reports => ?_⟩
    exact Bool.noConfusion (handle.symm.trans reports.2.1)
  | true =>
    simp only [handle] at completed ⊢
    have completed : attempt.code = .ok := completed (by simp [fetchOutcome_transfers])
    obtain ⟨ends, spares⟩ := fetchOutcome_sparesAll_iff strerror pool completed selects
      (url.contains (ascii ".onion")) ep {} [transferFor url ep]
    refine ⟨ends, spares.trans ?_⟩
    have routed (named : ep.host ≠ []) : ¬ (isOnionUrl url = true ∧ ep.port = 0) := by
      intro portless
      apply guarded
      rw [proxyOf_isEmpty, TorEndpoint.isNone, portless.2]
      simpa [isOnionUrl] using portless.1
    constructor
    · exact fun unharmed reports => unharmed reports.1 reports.2.2.1
    · exact fun unharmed error named => unharmed ⟨error, handle, named, routed named⟩

theorem fetchLoop_transfers_ne_nil (attempts : Nat → Attempt) (left i : Nat) {state : Fetching}
    (performed : state.transfers ≠ []) :
    (fetchLoop strerror url attempts left i state).transfers ≠ [] := by
  refine @fetchLoop_invariant strerror url (·.transfers ≠ []) ?_ attempts left i state performed
  intro state attempt performed
  rcases fetchAttempt_transfers strerror url state attempt with same | ⟨_, more⟩
  · rw [same]
    exact performed
  · rw [more]
    exact List.append_ne_nil_of_left_ne_nil performed _

/-- A call whose transfers all complete spares the pool exactly when it makes no attempt, or
the first one meets no HTTP error that is reported for a healthy endpoint. -/
theorem fetch_sparesAll_iff (attempts : Nat → Attempt)
    (completed : ∀ i < (fetch strerror (some (.pooled pool)) attempts url).transfers.length,
      (attempts i).code = .ok) :
    (fetch strerror (some (.pooled pool)) attempts url).SparesAll (.pooled pool) ↔
      maxTries (some (.pooled pool)) url = 0 ∨ SparesHealth pool url (attempts 0) := by
  unfold fetch at completed ⊢
  cases tries : (maxTries (some (.pooled pool)) url).toNat with
  | zero =>
    have none : maxTries (some (.pooled pool)) url = 0 := UInt64.toNat_inj.mp tries
    exact iff_of_true (List.isChain_singleton _) (.inl none)
  | succ left =>
    have attempted : maxTries (some (.pooled pool)) url ≠ 0 := by
      intro none
      rw [none] at tries
      cases tries
    rw [tries] at completed
    have first : (fetchAttempt strerror url { manager := some (.pooled pool) }
        (attempts 0)).1.transfers ≠ [] → (attempts 0).code = .ok := by
      intro performed
      refine completed 0 (List.length_pos_iff.mpr ?_)
      rw [fetchLoop]
      dsimp only
      split
      · exact performed
      · exact fetchLoop_transfers_ne_nil strerror url attempts left 1 performed
    obtain ⟨ends, spares⟩ := fetchAttempt_sparesAll_iff strerror pool url first
    rw [fetchLoop]
    dsimp only
    rw [if_pos ends, spares, or_iff_right attempted]

end Attempt

theorem fetch_sparesAll_iff_found :
    (fetch (fun _ => []) (some (.pooled (.create { proxies := [{}] } 0))) (fun _ => {})
      (ascii "http://x.com/")).SparesAll (.pooled (.create { proxies := [{}] } 0)) := by
  refine (fetch_sparesAll_iff _ _ _ (fun _ => {}) fun _ _ => rfl).mpr (.inr ?_)
  exact fun reports => absurd reports.1 (by decide)

/-- A page that is not found takes the only proxy out of use. -/
theorem missing_page_harms :
    let attempt : Attempt := { httpCode := 404 }
    let state := fetch (fun _ => []) (some (.pooled (.create { proxies := [{}] } 0)))
      (fun _ => attempt) (ascii "http://x.com/")
    ¬ ((∀ i < state.transfers.length, attempt.code = .ok) →
      state.SparesAll (.pooled (.create { proxies := [{}] } 0))) := by
  intro attempt state spares
  have passed : state.passed.map TorProxyManager.proxies =
      [[{}], [{ healthy := false, consecutiveFailures := 1 }]] := by decide
  have chain := (List.isChain_map TorProxyManager.proxies).mpr (spares fun _ _ => rfl)
  rw [List.map_cons, passed] at chain
  cases chain with
  | cons_cons _ chain =>
    cases chain with
    | cons_cons harmed _ =>
      cases harmed with
      | cons stays _ => exact Bool.false_ne_true (stays rfl)

end CurlFetcher

end ShadowSe

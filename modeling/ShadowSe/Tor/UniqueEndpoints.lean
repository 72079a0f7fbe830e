import Mathlib.Data.List.Dedup
import ShadowSe.Tor.Quarantine

/-! Which pools never list an endpoint twice. Reports change the first entry with a host
and port, and the statistics count entries; both are about endpoints exactly when
entries and endpoints correspond one to one. -/

namespace ShadowSe

/-- What a caller means by an endpoint. -/
def TorEndpoint.address (ep : TorEndpoint) : Bytes × UInt16 :=
  (ep.host, ep.port)

theorem TorEndpoint.address_eq_iff {e : TorEndpoint} {host : Bytes} {port : UInt16} :
    e.address = (host, port) ↔ e.IsAt host port := by
  simp [address, IsAt]

/-- The statistics a pool fills in; its `retries_` is never counted up. -/
structure TorStats where
  proxyCount : Nat := 0
  healthyProxies : Nat := 0
  onionRequests : Nat := 0
  retries : Nat := 0
  deriving DecidableEq

namespace PooledTorProxyManager

def stats (pool : PooledTorProxyManager) : TorStats :=
  { proxyCount := pool.eps_.length
    healthyProxies := (pool.eps_.filter (·.healthy)).length
    onionRequests := pool.onionRequests_ }

/-- The hosts and ports of the entries. -/
def addresses (eps : List TorEndpoint) : List (Bytes × UInt16) :=
  eps.map (·.address)

private theorem addresses_updateFirst {host : Bytes} {port : UInt16}
    {change : TorEndpoint → TorEndpoint} (same : ∀ e, (change e).address = e.address)
    (eps : List TorEndpoint) : addresses (updateFirst host port change eps) = addresses eps := by
  induction eps with
  | nil => rfl
  | cons e rest ih =>
    unfold addresses at ih ⊢
    rw [updateFirst]
    split
    · simp [same]
    · simp [ih]

private theorem addresses_map {change : TorEndpoint → TorEndpoint}
    (same : ∀ e, (change e).address = e.address) (eps : List TorEndpoint) :
    addresses (eps.map change) = addresses eps := by
  simp [addresses, Function.comp_def, same]

private theorem addresses_rotate (pool : PooledTorProxyManager) (now : Int) :
    addresses (pool.rotate now).eps_ = addresses pool.eps_ := by
  unfold rotate
  split
  · apply addresses_map
    exact fun _ => rfl
  · rfl

theorem addresses_selectProxy (pool : PooledTorProxyManager) (url : Bytes) (now clock : Int)
    (reprobe : TorStatus) :
    addresses (pool.selectProxy url now clock reprobe).2.eps_ = addresses pool.eps_ := by
  have candidate (pool : PooledTorProxyManager) :
      addresses (pool.selectCandidate url now clock reprobe).2.eps_ = addresses pool.eps_ := by
    rcases selectCandidate_cases pool url now clock reprobe with
      ⟨_, kept⟩ | ⟨i, e, changed, found, _, stored, same, _⟩
    · rw [kept]
    · obtain ⟨inside, rfl⟩ := List.getElem?_eq_some_iff.mp found
      have within : i < (addresses pool.eps_).length := by simpa [addresses] using inside
      have own : changed.address = (addresses pool.eps_)[i] := by
        rw [TorEndpoint.address_eq_iff.mpr same]
        simp [addresses, TorEndpoint.address]
      rw [stored, addresses, List.map_set, own]
      exact List.set_getElem_self _
  unfold selectProxy
  split
  · rfl
  · rw [candidate, addresses_rotate]
    split <;> rfl

/-- Every call keeps the addresses distinct: only `addProxy` adds one, after a check. -/
theorem nodup_apply {pool : PooledTorProxyManager} (distinct : (addresses pool.eps_).Nodup)
    (call : PoolCall) : (addresses (pool.apply call).eps_).Nodup := by
  cases call with
  | addProxy ep =>
    change (addresses (pool.addProxy ep).eps_).Nodup
    unfold addProxy
    split
    · exact distinct
    · rename_i fresh
      rw [addresses, List.map_append, List.map_singleton, List.nodup_append]
      refine ⟨distinct, by simp, ?_⟩
      intro address listed added single same
      obtain ⟨e, member, rfl⟩ := List.mem_map.mp listed
      have own : e.address = ep.address := same.trans (List.mem_singleton.mp single)
      exact fresh (List.any_eq_true.mpr
        ⟨e, member, TorEndpoint.sameEndpoint_iff.mpr (TorEndpoint.address_eq_iff.mp own)⟩)
  | removeProxy host port => exact distinct.sublist (List.filter_sublist.map _)
  | selectProxy url now clock reprobe =>
    exact (addresses_selectProxy pool url now clock reprobe).symm ▸ distinct
  | reportSuccess host port latency =>
    change (addresses (updateFirst host port _ pool.eps_)).Nodup
    rw [addresses_updateFirst]
    · exact distinct
    · exact fun _ => rfl
  | reportFailure host port now =>
    change (addresses (updateFirst host port _ pool.eps_)).Nodup
    rw [addresses_updateFirst]
    · exact distinct
    · exact fun _ => rfl
  | probe result answers =>
    change (addresses (pool.eps_.mapIdx _)).Nodup
    have same : addresses (pool.eps_.mapIdx fun i e =>
        { e with healthy := (answers i).1 == .up, lastProbe := (answers i).2 }) =
        addresses pool.eps_ := by
      refine List.ext_getElem (by simp [addresses]) fun i _ _ => ?_
      simp [addresses, TorEndpoint.address]
    rwa [same]
  | probeEndpoint ep answer now =>
    change (addresses (pool.eps_.map _)).Nodup
    rwa [addresses_map]
    intro e
    split <;> rfl

theorem nodup_runAll {o : PoolOptions} (distinct : (addresses o.proxies).Nodup) (start : Int)
    (calls : List PoolCall) : (addresses (runAll o start calls).eps_).Nodup := by
  have walk : ∀ pool : PooledTorProxyManager, (addresses pool.eps_).Nodup →
      (addresses (calls.foldl apply pool).eps_).Nodup := by
    induction calls with
    | nil => exact fun _ distinct => distinct
    | cons call rest ih => exact fun pool distinct => ih _ (nodup_apply distinct call)
  exact walk (create o start) distinct

/-- Where no address is listed twice, the first match is every match. -/
theorem updateFirst_eq_map {host : Bytes} {port : UInt16} (change : TorEndpoint → TorEndpoint)
    {eps : List TorEndpoint} (distinct : (addresses eps).Nodup) :
    updateFirst host port change eps =
      eps.map fun e => if e.IsAt host port then change e else e := by
  induction eps with
  | nil => rfl
  | cons e rest ih =>
    obtain ⟨absent, distinctRest⟩ := List.nodup_cons.mp distinct
    rw [updateFirst, List.map_cons]
    split
    · rename_i found
      have untouched : rest.map (fun e => if e.IsAt host port then change e else e) = rest := by
        refine (List.map_congr_left fun other listed => ?_).trans (List.map_id rest)
        refine if_neg fun again => absent (List.mem_map.mpr ⟨other, listed, ?_⟩)
        have own : e.address = (host, port) := TorEndpoint.address_eq_iff.mpr found
        exact (TorEndpoint.address_eq_iff.mpr again).trans own.symm
      rw [untouched]
    · rw [ih distinctRest]

/-- Entries and endpoints correspond one to one, so that a report changes all entries of
its endpoint and the statistics count endpoints. -/
structure EndpointsUnique (pool : PooledTorProxyManager) : Prop where
  distinct : pool.eps_.Pairwise fun a b => ¬ (a.host = b.host ∧ a.port = b.port)
  success : ∀ host port latency, (pool.reportSuccess host port latency).eps_ =
    pool.eps_.map fun e => if e.host = host ∧ e.port = port then
      { e with healthy := true, consecutiveFailures := 0, lastLatency := latency } else e
  failure : ∀ host port now, (pool.reportFailure host port now).eps_ =
    pool.eps_.map fun e => if e.host = host ∧ e.port = port then
      { e with healthy := false, consecutiveFailures := e.consecutiveFailures + 1,
               lastProbe := now } else e
  counted : pool.stats.proxyCount = (addresses pool.eps_).dedup.length
  healthy : pool.stats.healthyProxies = (addresses (pool.eps_.filter (·.healthy))).dedup.length

theorem nodup_addresses_iff {eps : List TorEndpoint} : (addresses eps).Nodup ↔
    eps.Pairwise fun a b => ¬ (a.host = b.host ∧ a.port = b.port) := by
  rw [addresses, List.Nodup, List.pairwise_map]
  simp [TorEndpoint.address]

theorem endpointsUnique_of_nodup {pool : PooledTorProxyManager}
    (distinct : (addresses pool.eps_).Nodup) : pool.EndpointsUnique where
  distinct := nodup_addresses_iff.mp distinct
  success := fun _ _ _ => updateFirst_eq_map _ distinct
  failure := fun _ _ _ => updateFirst_eq_map _ distinct
  counted := by
    rw [distinct.dedup]
    simp [stats, addresses]
  healthy := by
    have fewer : (addresses (pool.eps_.filter (·.healthy))).Nodup :=
      distinct.sublist (List.filter_sublist.map _)
    rw [fewer.dedup]
    simp [stats, addresses]

/-- Exactly the options that list no host and port twice give a pool whose endpoints are
unique in every state that calls can reach. -/
theorem runAll_endpointsUnique_iff (o : PoolOptions) :
    (∀ start calls, (runAll o start calls).EndpointsUnique) ↔
      o.proxies.Pairwise fun a b => ¬ (a.host = b.host ∧ a.port = b.port) := by
  constructor
  · intro everywhere
    exact (everywhere 0 []).distinct
  · intro distinct start calls
    exact endpointsUnique_of_nodup (nodup_runAll (nodup_addresses_iff.mpr distinct) start calls)

/-- The default endpoint and the same one given again as an extra proxy. -/
theorem runAll_listed_twice :
    ¬ (runAll { proxies := [{}, { host := ascii "127.0.0.1", port := 9050 }] } 0
      []).EndpointsUnique := by
  intro unique
  exact absurd unique.distinct (by decide)

end PooledTorProxyManager

end ShadowSe

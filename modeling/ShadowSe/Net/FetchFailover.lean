import ShadowSe.Net.OnionRouting
import ShadowSe.Tor.RoundRobin
import ShadowSe.Tor.UniqueEndpoints

/-! Failover of a fetch over the pool. A failed attempt takes its endpoint out of the healthy
ones for the time of the cooldown, so that the next selection falls on another, until each
healthy endpoint has been tried. -/

namespace ShadowSe

/-- The address of an endpoint, whether it is healthy, and since when it has not been. -/
def TorEndpoint.health (e : TorEndpoint) : (Bytes × UInt16) × Bool × Int :=
  (e.address, e.healthy, e.lastProbe)

namespace PooledTorProxyManager

variable {pool : PooledTorProxyManager}

/-- The pool is not reconfigured by time: from here on no rotation is due at one of these times
and no failed endpoint has cooled down. -/
structure Steady (pool : PooledTorProxyManager) (times : Int → Prop) : Prop where
  unrotated : ∀ now, times now → pool.rotationDue now = false
  cooling : ∀ e ∈ pool.eps_, e.healthy = false → ∀ now, times now →
    now - e.lastProbe < pool.opts_.cooldown

/-- A selection at such a time hands out a healthy endpoint, if there is one, and changes nothing
but when it was used last. -/
theorem selectProxy_steady {times : Int → Prop} (steady : pool.Steady times) {now : Int}
    (timely : times now) (healthy : pool.healthyEndpoints ≠ []) (url : Bytes) (clock : Int)
    (reprobe : TorStatus) :
    ∃ pick e requests, pool.eps_[pick]? = some e ∧ e.healthy = true ∧
      pool.selectProxy url now clock reprobe =
        { pool with rr_ := pool.rr_ + 1, onionRequests_ := requests }.handOut pick e url clock := by
  have configured : pool.eps_ ≠ [] := fun none => healthy (by rw [healthyEndpoints, none]; rfl)
  have still : pool.rotationDue now = false := steady.unrotated now timely
  -- The count of onion requests changes nothing that the selection reads.
  have settles (requests : Nat) :
      ∃ pick e, pool.eps_[pick]? = some e ∧ e.healthy = true ∧
        ({ pool with onionRequests_ := requests }.rotate now).selectCandidate url now clock
            reprobe =
          { pool with rr_ := pool.rr_ + 1, onionRequests_ := requests }.handOut pick e url
            clock := by
    have unmoved : { pool with onionRequests_ := requests }.rotate now =
        { pool with onionRequests_ := requests } :=
      if_neg (Bool.eq_false_iff.mp still)
    obtain ⟨pick, e, listed, found, settled⟩ :=
      @selectCandidate_cooling { pool with onionRequests_ := requests } now
        (fun e member failed => steady.cooling e member failed now timely) healthy url clock reprobe
    rw [unmoved]
    exact ⟨pick, e, listed, (List.mem_filter.mp (List.mem_of_getElem? found)).2, settled⟩
  rw [selectProxy, if_neg configured]
  dsimp only
  split
  · obtain ⟨pick, e, found⟩ := settles (pool.onionRequests_ + 1)
    exact ⟨pick, e, _, found⟩
  · obtain ⟨pick, e, found⟩ := settles pool.onionRequests_
    exact ⟨pick, e, _, found⟩

theorem selectProxy_exhausted {times : Int → Prop} (steady : pool.Steady times) {now : Int}
    (timely : times now) (exhausted : pool.healthyEndpoints = []) (url : Bytes) (clock : Int)
    (reprobe : TorStatus) : (pool.selectProxy url now clock reprobe).1 = .none := by
  have still : pool.rotationDue now = false := steady.unrotated now timely
  have none : pool.candidates now = [] := by
    refine List.filter_eq_nil_iff.mpr fun i inside => ?_
    have within := List.mem_range.mp inside
    rw [List.getD_eq_getElem _ _ within]
    have member := List.getElem_mem within
    have failed : (pool.eps_[i]).healthy = false := by
      simpa using List.filter_eq_nil_iff.mp exhausted _ member
    have cooling := steady.cooling _ member failed now timely
    simpa [selectable, failed] using cooling
  have counted (requests : Nat) : { pool with onionRequests_ := requests }.rotate now =
      { pool with onionRequests_ := requests } :=
    if_neg (Bool.eq_false_iff.mp still)
  have nobody (requests : Nat) :
      ({ pool with onionRequests_ := requests }.selectCandidate url now clock reprobe).1 =
        .none := by
    have candidates : { pool with onionRequests_ := requests }.candidates now = [] := none
    simp only [selectCandidate, if_pos candidates]
  rw [selectProxy]
  split
  · rfl
  · dsimp only
    split
    · rw [counted]
      exact nobody _
    · have same := counted pool.onionRequests_
      rw [same]
      exact nobody _

def healths (pool : PooledTorProxyManager) : List ((Bytes × UInt16) × Bool × Int) :=
  pool.eps_.map TorEndpoint.health

theorem addresses_of_healths : addresses pool.eps_ = pool.healths.map (·.1) := by
  rw [healths, List.map_map]
  rfl

theorem healthy_of_healths :
    addresses pool.healthyEndpoints = (pool.healths.filter (·.2.1)).map (·.1) := by
  rw [healths, List.filter_map, List.map_map]
  rfl

theorem healths_handOut {pick : Nat} {e : TorEndpoint} (found : pool.eps_[pick]? = some e)
    (url : Bytes) (clock : Int) : (pool.handOut pick e url clock).2.healths = pool.healths := by
  obtain ⟨within, rfl⟩ := List.getElem?_eq_some_iff.mp found
  have inside : pick < (pool.eps_.map TorEndpoint.health).length := by rwa [List.length_map]
  have unchanged := List.set_getElem_self inside
  rw [List.getElem_map] at unchanged
  rw [healths, handOut, List.map_set]
  exact unchanged

theorem healths_reportFailure (distinct : (addresses pool.eps_).Nodup) (host : Bytes)
    (port : UInt16) (failedAt : Int) : (pool.reportFailure host port failedAt).healths =
      pool.healths.map fun v => if v.1 = (host, port) then (v.1, false, failedAt) else v := by
  rw [healths, reportFailure, updateFirst_eq_map _ distinct, healths, List.map_map, List.map_map]
  refine List.map_congr_left fun e _ => ?_
  by_cases here : e.IsAt host port
  · have own : e.health.1 = (host, port) := TorEndpoint.address_eq_iff.mpr here
    simp only [Function.comp_apply, if_pos here, if_pos own]
    rfl
  · have other : e.health.1 ≠ (host, port) := mt TorEndpoint.address_eq_iff.mp here
    simp only [Function.comp_apply, if_neg here, if_neg other]

/-- What a fetch relies on: the endpoints are different ones with an address, and the pool is
steady. -/
structure Serving (pool : PooledTorProxyManager) (times : Int → Prop) : Prop where
  distinct : (addresses pool.eps_).Nodup
  usable : ∀ e ∈ pool.eps_, e.isNone = false
  steady : pool.Steady times

theorem usable_of_addresses {next : PooledTorProxyManager}
    (same : addresses next.eps_ = addresses pool.eps_)
    (usable : ∀ e ∈ pool.eps_, e.isNone = false) : ∀ e ∈ next.eps_, e.isNone = false := by
  intro e member
  have listed : e.address ∈ addresses pool.eps_ := same ▸ List.mem_map_of_mem member
  obtain ⟨other, known, equal⟩ := List.mem_map.mp listed
  obtain ⟨host, port⟩ := Prod.mk.inj equal
  rw [TorEndpoint.isNone, ← host, ← port]
  exact usable other known

/-- An endpoint that was handed out and failed is no longer healthy, and nothing else changes
for the selections that are made before it has cooled down. -/
theorem Serving.failed {times later : Int → Prop} (serving : pool.Serving times) {pick : Nat}
    {e : TorEndpoint} (found : pool.eps_[pick]? = some e) (url : Bytes) (clock failedAt : Int)
    (rr : UInt64) (requests : Nat) (fewer : ∀ now, later now → times now)
    (soon : ∀ now, later now → now - failedAt < pool.opts_.cooldown)
    {next : PooledTorProxyManager}
    (shape : next = ({ pool with rr_ := rr, onionRequests_ := requests }.handOut pick e url
      clock).2.reportFailure e.host e.port failedAt) :
    next.Serving later ∧
      addresses next.healthyEndpoints = (addresses pool.healthyEndpoints).erase e.address := by
  generalize chosen : ({ pool with rr_ := rr, onionRequests_ := requests }.handOut pick e url
    clock).2 = used at shape
  have kept : used.healths = pool.healths := chosen ▸ healths_handOut found url clock
  have options : used.opts_ = pool.opts_ ∧ used.lastRotate_ = pool.lastRotate_ := by
    subst chosen
    exact ⟨rfl, rfl⟩
  have distinctUsed : (addresses used.eps_).Nodup := by
    rw [addresses_of_healths, kept, ← addresses_of_healths]
    exact serving.distinct
  have healths : next.healths =
      pool.healths.map fun v => if v.1 = e.address then (v.1, false, failedAt) else v := by
    rw [shape, healths_reportFailure distinctUsed, kept]
    rfl
  have same : addresses next.eps_ = addresses pool.eps_ := by
    rw [addresses_of_healths, addresses_of_healths, healths, List.map_map]
    refine List.map_congr_left fun v _ => ?_
    dsimp only [Function.comp_apply]
    split <;> rfl
  refine ⟨⟨same ▸ serving.distinct, usable_of_addresses same serving.usable, ?_, ?_⟩, ?_⟩
  · intro now timely
    rw [shape, reportFailure, rotationDue, options.1, options.2]
    exact serving.steady.unrotated now (fewer now timely)
  · intro other member down now timely
    have bound : next.opts_ = pool.opts_ := shape ▸ options.1
    rw [bound]
    have listed : other.health ∈ next.healths := List.mem_map_of_mem member
    rw [healths] at listed
    obtain ⟨v, known, health⟩ := List.mem_map.mp listed
    by_cases here : v.1 = e.address
    · rw [if_pos here] at health
      have probed : other.lastProbe = failedAt := (congrArg (·.2.2) health).symm
      rw [probed]
      exact soon now timely
    · rw [if_neg here] at health
      obtain ⟨before, present, rfl⟩ := List.mem_map.mp known
      have probed : other.lastProbe = before.lastProbe := (congrArg (·.2.2) health).symm
      have unhealthy : before.healthy = false := (congrArg (·.2.1) health).trans down
      rw [probed]
      exact serving.steady.cooling before present unhealthy now (fewer now timely)
  · have once : ((pool.healths.filter (·.2.1)).map (·.1)).Nodup := by
      have listed := serving.distinct
      rw [addresses_of_healths] at listed
      exact listed.sublist (List.filter_sublist.map _)
    rw [healthy_of_healths, healthy_of_healths, healths, once.erase_eq_filter, List.filter_map,
      List.map_map, List.filter_map, List.filter_filter]
    refine congrArg₂ List.map ?_ (List.filter_congr fun v _ => ?_)
    · funext v
      dsimp only [Function.comp_apply]
      split <;> rfl
    · by_cases here : v.1 = e.address
      · simp [here]
      · simp [here]

end PooledTorProxyManager

namespace CurlFetcher

open PooledTorProxyManager

/-- The transfer of an attempt is answered, with less than an HTTP error. -/
def Attempt.Succeeds (attempt : Attempt) : Prop :=
  attempt.code = .ok ∧ attempt.httpCode < 400

/-- The transfer of an attempt fails in a way that is retried. -/
def Attempt.Fails (attempt : Attempt) (url : Bytes) : Prop :=
  attempt.code ≠ .ok ∧ attempt.httpCode < 400 ∧
    (isTransientCurlError attempt.code = true ∨ isOnionUrl url = true)

instance (attempt : Attempt) : Decidable attempt.Succeeds :=
  inferInstanceAs (Decidable (_ ∧ _))

instance (attempt : Attempt) (url : Bytes) : Decidable (attempt.Fails url) :=
  inferInstanceAs (Decidable (_ ∧ _))

section Attempt

variable (strerror : CURLcode → Bytes) {pool : PooledTorProxyManager} (url : Bytes)

theorem report_pooled {state : Fetching} {selected : PooledTorProxyManager}
    (current : state.manager = some (.pooled selected)) {ep : TorEndpoint}
    (usable : ep.isNone = false) (change : TorProxyManager → TorProxyManager) :
    (state.report ep change).manager = some (change (.pooled selected)) ∧
      (state.report ep change).result = state.result := by
  have named : ep.host.isEmpty = false := by
    rw [TorEndpoint.isNone, Bool.or_eq_false_iff] at usable
    exact usable.1
  unfold Fetching.report
  rw [current]
  simp [named, Fetching.pass]

theorem fetchOutcome_cases (attempt : Attempt) {ep : TorEndpoint} (usable : ep.isNone = false)
    {state : Fetching} {selected : PooledTorProxyManager}
    (current : state.manager = some (.pooled selected)) (open_ : state.result.ok = false) :
    let after := fetchOutcome strerror (isOnionUrl url) ep attempt state
    (attempt.Succeeds ∧ after.2 = true ∧ after.1.result.ok = true) ∨
    (attempt.Fails url ∧ after.2 = false ∧ after.1.result.ok = false ∧ after.1.manager =
      some (.pooled (selected.reportFailure ep.host ep.port attempt.reportedAt))) ∨
    (¬ attempt.Succeeds ∧ ¬ attempt.Fails url ∧ after.2 = true ∧ after.1.result.ok = false) := by
  dsimp only
  unfold fetchOutcome
  by_cases success : attempt.code = .ok ∧ attempt.httpCode < 400
  · rw [if_pos success]
    exact .inl ⟨success, rfl, rfl⟩
  rw [if_neg success]
  have failed : { state with result := { state.result with
      error := fetchError strerror attempt } }.manager = some (.pooled selected) := current
  obtain ⟨manager, result⟩ := report_pooled failed usable
    (·.reportFailure ep.host ep.port attempt.reportedAt)
  have closed := (congrArg (·.ok) result).trans open_
  dsimp only
  by_cases error : attempt.httpCode ≥ 400
  · rw [if_pos error]
    exact .inr (.inr ⟨success, fun fails => absurd fails.2.1 (Int.not_lt.mpr error), rfl, closed⟩)
  rw [if_neg error]
  have low : attempt.httpCode < 400 := Int.not_le.mp error
  by_cases again : isTransientCurlError attempt.code = true ∨ isOnionUrl url = true
  · have retried : ¬ (!isTransientCurlError attempt.code && !isOnionUrl url) = true := by
      rcases again with transient | onion
      · simp [transient]
      · simp [onion]
    rw [if_neg retried]
    exact .inr (.inl ⟨⟨fun ok => success ⟨ok, low⟩, low, again⟩, rfl, closed, manager⟩)
  · have ends : (!isTransientCurlError attempt.code && !isOnionUrl url) = true := by
      simpa using again
    rw [if_pos ends]
    exact .inr (.inr ⟨success, fun fails => again fails.2.2, rfl, closed⟩)

/-- How an attempt over a pool with a healthy endpoint ends. -/
inductive Attempted (pool : PooledTorProxyManager) (later : Int → Prop) (attempt : Attempt)
    (ep : TorEndpoint) : Fetching × Bool → Prop where
  | succeeded {state : Fetching} (succeeds : attempt.Succeeds) (ok : state.result.ok = true) :
    Attempted pool later attempt ep (state, true)
  | failed {state : Fetching} {next : PooledTorProxyManager} (fails : attempt.Fails url)
    (ok : state.result.ok = false) (current : state.manager = some (.pooled next))
    (options : next.opts_ = pool.opts_) (serving : next.Serving later)
    (fewer : addresses next.healthyEndpoints =
      (addresses pool.healthyEndpoints).erase ep.address) :
    Attempted pool later attempt ep (state, false)
  | gaveUp {state : Fetching} (unsuccessful : ¬ attempt.Succeeds) (fatal : ¬ attempt.Fails url)
    (ok : state.result.ok = false) : Attempted pool later attempt ep (state, true)

theorem fetchAttempt_serving {times later : Int → Prop} (serving : pool.Serving times)
    {attempt : Attempt} (timely : times attempt.now) (healthy : pool.healthyEndpoints ≠ [])
    (handle : attempt.handle = true) {state : Fetching}
    (current : state.manager = some (.pooled pool)) (open_ : state.result.ok = false)
    (fewer : ∀ now, later now → times now)
    (soon : ∀ now, later now →
      now - attempt.reportedAt < pool.opts_.cooldown) :
    ∃ ep, ep.isNone = false ∧ ep.address ∈ addresses pool.healthyEndpoints ∧
      (fetchAttempt strerror url state attempt).1.transfers =
        state.transfers ++ [transferFor url ep] ∧
      Attempted url pool later attempt ep (fetchAttempt strerror url state attempt) := by
  obtain ⟨pick, e, requests, found, up, selected⟩ :=
    selectProxy_steady serving.steady timely healthy url attempt.clock attempt.reprobe
  have member := List.mem_of_getElem? found
  generalize handed : { pool with rr_ := pool.rr_ + 1, onionRequests_ := requests }.handOut pick e
    url attempt.clock = out at selected
  have place : out.1.host = e.host ∧ out.1.port = e.port := by
    subst handed
    exact ⟨rfl, rfl⟩
  have usable : out.1.isNone = false := by
    rw [TorEndpoint.isNone, place.1, place.2]
    exact serving.usable e member
  have address : out.1.address = e.address := Prod.ext place.1 place.2
  have selection : state.select url attempt = (out.1, state.pass (.pooled out.2)) := by
    unfold Fetching.select
    rw [current]
    simp only [TorProxyManager.selectProxy, selected]
  have unguarded : ¬ (url.contains (ascii ".onion") && (proxyOf out.1).isEmpty) = true := by
    rw [proxyOf_isEmpty, usable, Bool.and_false]
    exact Bool.false_ne_true
  have attempted : fetchAttempt strerror url state attempt =
      fetchOutcome strerror (isOnionUrl url) out.1 attempt { state.pass (.pooled out.2) with
        transfers := state.transfers ++ [transferFor url out.1] } := by
    unfold fetchAttempt
    dsimp only
    rw [selection]
    dsimp only
    rw [if_neg unguarded, handle]
    rfl
  refine ⟨out.1, usable, ?_, ?_, ?_⟩
  · rw [address]
    exact List.mem_map_of_mem (List.mem_filter.mpr ⟨member, up⟩)
  · rw [attempted, fetchOutcome_transfers]
  · rw [attempted]
    have passed : { state.pass (.pooled out.2) with
        transfers := state.transfers ++ [transferFor url out.1] }.manager =
        some (.pooled out.2) := rfl
    generalize ending : fetchOutcome strerror (isOnionUrl url) out.1 attempt
      { state.pass (.pooled out.2) with
        transfers := state.transfers ++ [transferFor url out.1] } = after
    obtain ⟨final, done⟩ := after
    rcases fetchOutcome_cases strerror url attempt usable passed open_ with
      ⟨success, ends, ok⟩ | ⟨fails, ends, ok, manager⟩ | ⟨unsuccessful, fatal, ends, ok⟩
    · rw [ending] at ends ok
      cases ends
      exact .succeeded success ok
    · rw [ending] at ends ok manager
      cases ends
      have shape : out.2.reportFailure out.1.host out.1.port attempt.reportedAt =
          ({ pool with rr_ := pool.rr_ + 1, onionRequests_ := requests }.handOut pick e url
            attempt.clock).2.reportFailure e.host e.port attempt.reportedAt := by
        rw [handed, place.1, place.2]
      obtain ⟨serves, left⟩ := serving.failed found url attempt.clock attempt.reportedAt
        (pool.rr_ + 1) requests fewer soon shape
      refine .failed fails ok manager ?_ serves (address ▸ left)
      rw [shape]
      rfl
    · rw [ending] at ends ok
      cases ends
      exact .gaveUp unsuccessful fatal ok

theorem fetchAttempt_exhausted {times : Int → Prop} (steady : pool.Steady times)
    {attempt : Attempt} (timely : times attempt.now) (exhausted : pool.healthyEndpoints = [])
    (onion : isOnionUrl url = true) {state : Fetching}
    (current : state.manager = some (.pooled pool)) :
    (fetchAttempt strerror url state attempt).2 = true ∧
      (fetchAttempt strerror url state attempt).1.transfers = state.transfers ∧
      (fetchAttempt strerror url state attempt).1.result.ok = state.result.ok := by
  refine fetchAttempt_without_proxy strerror url onion state attempt ?_
  unfold Fetching.select
  rw [current]
  change (pool.selectProxy url attempt.now attempt.clock attempt.reprobe).1.isNone = true
  rw [selectProxy_exhausted steady timely exhausted]
  rfl

end Attempt

/-- The times of the attempts from one on. -/
def AttemptTimes (attempts : Nat → Attempt) (first tries : Nat) (now : Int) : Prop :=
  ∃ j, first ≤ j ∧ j < tries ∧ now = (attempts j).now

/-- The endpoints that the attempts from `first` on went through, and what became of the
fetch: it succeeds with an attempt, and ends short of the healthy endpoints only then or
where an attempt is not to be retried. -/
structure Tried (pool : PooledTorProxyManager) (url : Bytes) (attempts : Nat → Attempt)
    (first : Nat) (before after : Fetching) (used : List TorEndpoint) : Prop where
  usable : ∀ ep ∈ used, ep.isNone = false
  distinct : (addresses used).Nodup
  healthy : addresses used ⊆ addresses pool.healthyEndpoints
  transfers : after.transfers = before.transfers ++ used.map (transferFor url)
  ok_iff : after.result.ok = true ↔ ∃ k < used.length, (attempts (first + k)).Succeeds
  all : (∀ k < used.length, (attempts (first + k)).Fails url) →
    (addresses used).Perm (addresses pool.healthyEndpoints)

section Loop

variable (strerror : CURLcode → Bytes) {url : Bytes} {attempts : Nat → Attempt}
  {pool : PooledTorProxyManager}

theorem fetchLoop_tried (handles : ∀ j, (attempts j).handle = true) {o : PoolOptions}
    {tries : Nat} (brief : ∀ i j, i < j → j < tries →
      (attempts j).now - (attempts i).reportedAt < o.cooldown)
    {left first : Nat} (count : first + left = tries) (options : pool.opts_ = o)
    (serving : pool.Serving (AttemptTimes attempts first tries))
    (room : pool.healthyEndpoints.length ≤ left)
    (direct : isOnionUrl url = false → left ≤ pool.healthyEndpoints.length) {state : Fetching}
    (current : state.manager = some (.pooled pool)) (open_ : state.result.ok = false) :
    ∃ used, Tried pool url attempts first state
      (fetchLoop strerror url attempts left first state) used := by
  have idle {after : Fetching} (exhausted : pool.healthyEndpoints = [])
      (transfers : after.transfers = state.transfers) (ok : after.result.ok = false) :
      Tried pool url attempts first state after [] :=
    ⟨by simp, .nil, List.nil_subset _, by simpa using transfers, by simp [ok],
      fun _ => by simp [exhausted, addresses]⟩
  induction left generalizing first pool state with
  | zero => exact ⟨[], idle (List.length_eq_zero_iff.mp (Nat.le_zero.mp room)) rfl open_⟩
  | succ left ih =>
    have timely : AttemptTimes attempts first tries (attempts first).now :=
      ⟨first, le_rfl, by omega, rfl⟩
    rw [fetchLoop]
    by_cases healthy : pool.healthyEndpoints = []
    · have onion : isOnionUrl url = true := by
        by_contra clear
        have none := direct (Bool.eq_false_iff.mpr clear)
        rw [healthy] at none
        exact absurd none (by simp)
      obtain ⟨ends, transfers, ok⟩ :=
        fetchAttempt_exhausted strerror url serving.steady timely healthy onion current
      dsimp only
      rw [if_pos ends]
      exact ⟨[], idle healthy transfers (ok.trans open_)⟩
    · have sooner : ∀ now, AttemptTimes attempts (first + 1) tries now →
          AttemptTimes attempts first tries now := by
        intro now time
        obtain ⟨j, after, within, same⟩ := time
        exact ⟨j, by omega, within, same⟩
      have soon : ∀ now, AttemptTimes attempts (first + 1) tries now →
          now - (attempts first).reportedAt < pool.opts_.cooldown := by
        rintro now ⟨j, after, within, rfl⟩
        rw [options]
        exact brief first j after within
      obtain ⟨ep, usable, listed, transfers, ending⟩ := fetchAttempt_serving strerror url serving
        timely healthy (handles first) current open_ sooner soon
      generalize fetchAttempt strerror url state (attempts first) = after at transfers ending
      have single : addresses [ep] = [ep.address] := rfl
      cases ending with
      | succeeded succeeds ok =>
        refine ⟨[ep], by simpa using usable, by simp [single], by simpa [single] using listed,
          transfers, ?_, fun fails => ?_⟩
        · exact iff_of_true ok ⟨0, by simp, succeeds⟩
        · exact absurd succeeds.1 (fails 0 (by simp)).1
      | gaveUp unsuccessful fatal ok =>
        refine ⟨[ep], by simpa using usable, by simp [single], by simpa [single] using listed,
          transfers, ?_, fun fails => ?_⟩
        · refine iff_of_false (by simp [ok]) fun succeeded => ?_
          obtain ⟨k, inside, succeeds⟩ := succeeded
          have only : k = 0 := by simpa using inside
          subst only
          exact unsuccessful succeeds
        · exact absurd (fails 0 (by simp)) fatal
      | @failed later next fails ok manager options' serves fewer =>
        have distinct : (addresses pool.healthyEndpoints).Nodup :=
          serving.distinct.sublist (List.filter_sublist.map _)
        have shift (k : Nat) : first + 1 + k = first + (k + 1) := by omega
        have lengths : next.healthyEndpoints.length + 1 = pool.healthyEndpoints.length := by
          have removed := congrArg List.length fewer
          have positive := List.length_pos_of_mem listed
          rw [List.length_erase_of_mem listed] at removed
          simp only [addresses, List.length_map] at removed positive
          omega
        obtain ⟨used, tried⟩ := ih (by omega) (options'.trans options) serves (by omega)
          (fun clear => by have bound := direct clear; omega) manager ok
          (fun exhausted transfers ok =>
            ⟨by simp, .nil, List.nil_subset _, by simpa using transfers,
            by simp [ok], fun _ => by simp [exhausted, addresses]⟩)
        have absent : ep.address ∉ addresses used := by
          intro again
          have kept := tried.healthy again
          rw [fewer] at kept
          exact distinct.not_mem_erase kept
        refine ⟨ep :: used, ?_, ?_, ?_, ?_, ?_, fun fails => ?_⟩
        · intro other member
          rcases List.mem_cons.mp member with rfl | later
          · exact usable
          · exact tried.usable other later
        · exact List.nodup_cons.mpr ⟨absent, tried.distinct⟩
        · intro address member
          rcases List.mem_cons.mp member with rfl | later
          · exact listed
          · have kept := tried.healthy later
            rw [fewer] at kept
            exact List.mem_of_mem_erase kept
        · change (fetchLoop strerror url attempts left (first + 1) later).transfers = _
          rw [tried.transfers, transfers]
          simp
        · change (fetchLoop strerror url attempts left (first + 1) later).result.ok = true ↔ _
          rw [tried.ok_iff]
          constructor
          · rintro ⟨k, inside, succeeds⟩
            exact ⟨k + 1, Nat.succ_lt_succ inside, shift k ▸ succeeds⟩
          · rintro ⟨k, inside, succeeds⟩
            cases k with
            | zero => exact absurd succeeds.1 fails.1
            | succ k => exact ⟨k, Nat.lt_of_succ_lt_succ inside, (shift k).symm ▸ succeeds⟩
        · have later := tried.all fun k inside =>
            (shift k).symm ▸ fails (k + 1) (Nat.succ_lt_succ inside)
          rw [fewer] at later
          exact (later.cons ep.address).trans (List.perm_cons_erase listed).symm

theorem maxTries_direct_le (healthy : pool.healthyEndpoints ≠ [])
    (direct : isOnionUrl url = false) :
    (maxTries (some (.pooled pool)) url).toNat ≤ pool.healthyEndpoints.length := by
  have some_ := List.length_pos_iff.mpr healthy
  have retries : pool.maxRetries url = UInt64.ofNat (pool.healthyEndpoints.length - 1) := by
    have clear : ¬ isOnionUrl url = true := by simp [direct]
    rw [PooledTorProxyManager.maxRetries, if_neg clear]
    exact if_pos some_
  change (1 + pool.maxRetries url).toNat ≤ _
  rw [retries, UInt64.toNat_add, UInt64.toNat_one, UInt64.toNat_ofNat']
  refine (Nat.mod_le _ _).trans ?_
  have reduced := Nat.mod_le (pool.healthyEndpoints.length - 1) (2 ^ 64)
  omega

theorem socks5Url_eq {e other : TorEndpoint} (same : e.address = other.address) :
    socks5Url e = socks5Url other := by
  obtain ⟨host, port⟩ := Prod.mk.inj same
  rw [socks5Url, socks5Url, host, port]

end Loop

/-- Two endpoints, of which the second works. -/
def twoProxies : PooledTorProxyManager :=
  { opts_ := {}, eps_ := [{ port := 9051 }, { port := 9052 }], lastRotate_ := 0 }

/-- The first attempt does not get through, the second does. -/
def failOnce (attempt : Nat) : Attempt :=
  if attempt = 0 then { code := .couldntConnect, reportedAt := 7 } else { now := 9, body := [65] }

end CurlFetcher

end ShadowSe

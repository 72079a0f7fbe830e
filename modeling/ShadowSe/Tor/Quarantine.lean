import ShadowSe.Support.Machine
import ShadowSe.Tor.Failover

/-! How long a failed endpoint stays out of the selection. A rotation, which makes every
endpoint healthy, ends its cooldown early, as a cooldown does whose nanoseconds 64 bits do not
hold, and a failure of an endpoint that is listed twice marks the first of the two only. -/

namespace ShadowSe

open Support

/-- The times of the steady clock that a call reads, in order. -/
def PoolCall.times (pool : PooledTorProxyManager) : PoolCall → List Int
  | .selectProxy _ now _ _ | .reportFailure _ _ now | .probeEndpoint _ _ now => [now]
  | .probe _ answers => (List.range pool.eps_.length).map fun i => (answers i).2
  | .addProxy _ | .removeProxy _ _ | .reportSuccess _ _ _ => []

structure TimedPool where
  pool : PooledTorProxyManager
  clock : Int

/-- The pool under a clock that does not run backwards. -/
def timedPool : Machine TimedPool PoolCall :=
  ⟨fun state call =>
    let times := call.times state.pool
    if (state.clock :: times).Pairwise (· ≤ ·) then
      some ⟨state.pool.apply call, times.getLastD state.clock⟩
    else none⟩

namespace PooledTorProxyManager

/-- One selection does not return the endpoint that failed at `failedAt` before its
cooldown has elapsed. -/
def RespectsQuarantine (pool : PooledTorProxyManager) (host : Bytes) (port : UInt16)
    (failedAt : Int) (url : Bytes) (now clock : Int) (reprobe : TorStatus) : Prop :=
  now - failedAt < milliseconds pool.opts_.failureCooldown →
    (pool.selectProxy url now clock reprobe).1 = .none ∨
      ¬ (pool.selectProxy url now clock reprobe).1.IsAt host port

instance (pool : PooledTorProxyManager) (host : Bytes) (port : UInt16) (failedAt : Int)
    (url : Bytes) (now clock : Int) (reprobe : TorStatus) :
    Decidable (pool.RespectsQuarantine host port failedAt url now clock reprobe) :=
  inferInstanceAs (Decidable (_ → _ ∨ ¬ _))

/-- The call reports the endpoint successful, probes it up or adds it again. -/
def Restores (pool : PooledTorProxyManager) (host : Bytes) (port : UInt16) : PoolCall → Prop
  | .reportSuccess h p _ => h = host ∧ p = port
  | .probeEndpoint ep answer _ => ep.IsAt host port ∧ answer = .up
  | .probe _ answers => ∃ i e, pool.eps_[i]? = some e ∧ e.IsAt host port ∧ (answers i).1 = .up
  | .addProxy ep => ep.IsAt host port ∧ ∀ e ∈ pool.eps_, ¬ e.IsAt host port
  | .removeProxy _ _ | .selectProxy _ _ _ _ | .reportFailure _ _ _ => False

/-- Before the cooldown has elapsed, no rotation comes due in the call, and in 64 bits it has
not elapsed either. -/
def NoEarlyRelease (pool : PooledTorProxyManager) (failedAt : Int) : PoolCall → Prop
  | .selectProxy _ now _ _ =>
    pool.rotationDue now = true ∨ pool.opts_.cooldown ≤ now - failedAt →
      milliseconds pool.opts_.failureCooldown ≤ now - failedAt
  | _ => True

/-- The endpoint is out of the selection, at every position where it is listed. -/
def Quarantined (pool : PooledTorProxyManager) (host : Bytes) (port : UInt16)
    (failedAt : Int) : Prop :=
  ∀ e ∈ pool.eps_, e.IsAt host port → e.healthy = false ∧ failedAt ≤ e.lastProbe

theorem mem_updateFirst {host : Bytes} {port : UInt16} {change : TorEndpoint → TorEndpoint}
    {eps : List TorEndpoint} {e : TorEndpoint} (member : e ∈ updateFirst host port change eps) :
    e ∈ eps ∨ ∃ old ∈ eps, old.IsAt host port ∧ e = change old := by
  induction eps with
  | nil => cases member
  | cons first rest ih =>
    rw [updateFirst] at member
    split at member
    · rename_i found
      rcases List.mem_cons.mp member with rfl | later
      · exact .inr ⟨first, List.mem_cons_self, found, rfl⟩
      · exact .inl (List.mem_cons_of_mem _ later)
    · rcases List.mem_cons.mp member with rfl | later
      · exact .inl List.mem_cons_self
      · rcases ih later with kept | ⟨old, listed, found, rfl⟩
        · exact .inl (List.mem_cons_of_mem _ kept)
        · exact .inr ⟨old, List.mem_cons_of_mem _ listed, found, rfl⟩

/-- Without a rotation, a selection changes and returns nothing, or one selectable endpoint,
which stays where it is. -/
theorem selectCandidate_cases (pool : PooledTorProxyManager) (url : Bytes) (now clock : Int)
    (reprobe : TorStatus) :
    let selected := pool.selectCandidate url now clock reprobe
    selected.1 = .none ∧ selected.2.eps_ = pool.eps_ ∨
      ∃ i e changed, pool.eps_[i]? = some e ∧ pool.selectable now e = true ∧
        selected.2.eps_ = pool.eps_.set i changed ∧ changed.IsAt e.host e.port ∧
        (e.healthy = true → changed.healthy = true) ∧
        (selected.1 = .none ∨ selected.1.IsAt e.host e.port) := by
  by_cases empty : pool.candidates now = []
  · simp [selectCandidate, empty]
  have inside : pool.rr_.toNat % (pool.candidates now).length < (pool.candidates now).length :=
    Nat.mod_lt _ (List.length_pos_iff.mpr empty)
  obtain ⟨listed, selectable⟩ := List.mem_filter.mp (List.getElem_mem inside)
  simp only [selectCandidate, empty, ↓reduceIte, List.getD_eq_getElem _ _ inside]
  generalize (pool.candidates now)[pool.rr_.toNat % (pool.candidates now).length] = pick
    at listed selectable
  have within : pick < pool.eps_.length := List.mem_range.mp listed
  have found := List.getElem?_eq_getElem within
  rw [List.getD_eq_getElem _ _ within] at selectable
  simp only [List.getD_eq_getElem _ _ within]
  generalize pool.eps_[pick] = e at found selectable
  cases healthy : e.healthy with
  | true =>
    exact .inr ⟨_, e, _, found, selectable, rfl, ⟨rfl, rfl⟩, fun _ => healthy, .inr ⟨rfl, rfl⟩⟩
  | false =>
    cases answer : reprobe == .up with
    | true =>
      exact .inr ⟨_, e, _, found, selectable, rfl, ⟨rfl, rfl⟩, fun _ => rfl, .inr ⟨rfl, rfl⟩⟩
    | false =>
      exact .inr ⟨_, e, _, found, selectable, rfl, ⟨rfl, rfl⟩,
        fun up => absurd (healthy.symm.trans up) Bool.false_ne_true, .inl rfl⟩

theorem selectProxy_opts (pool : PooledTorProxyManager) (url : Bytes) (now clock : Int)
    (reprobe : TorStatus) : (pool.selectProxy url now clock reprobe).2.opts_ = pool.opts_ := by
  have rotated (pool : PooledTorProxyManager) : (pool.rotate now).opts_ = pool.opts_ := by
    unfold rotate
    split <;> rfl
  have candidate (pool : PooledTorProxyManager) :
      (pool.selectCandidate url now clock reprobe).2.opts_ = pool.opts_ := by
    unfold selectCandidate handOut
    dsimp only
    split
    · rfl
    split
    · rfl
    split <;> rfl
  unfold selectProxy
  split
  · rfl
  · rw [candidate, rotated]
    split <;> rfl

theorem apply_opts (pool : PooledTorProxyManager) (call : PoolCall) :
    (pool.apply call).opts_ = pool.opts_ := by
  cases call with
  | selectProxy url now clock reprobe => exact selectProxy_opts pool url now clock reprobe
  | addProxy ep =>
    change (pool.addProxy ep).opts_ = pool.opts_
    unfold addProxy
    split <;> rfl
  | _ => rfl

section Quarantine

variable {pool : PooledTorProxyManager} {host : Bytes} {port : UInt16} {failedAt : Int}

/-- Without a rotation a candidate is not the quarantined endpoint while its cooldown runs. -/
theorem Quarantined.not_selectable (held : pool.Quarantined host port failedAt) {now : Int}
    (early : now - failedAt < pool.opts_.cooldown) {e : TorEndpoint}
    (member : e ∈ pool.eps_) (selectable : pool.selectable now e = true) : ¬ e.IsAt host port := by
  intro place
  obtain ⟨unhealthy, probed⟩ := held e member place
  simp only [PooledTorProxyManager.selectable, unhealthy, Bool.false_or,
    decide_eq_true_eq] at selectable
  omega

theorem Quarantined.selectCandidate (held : pool.Quarantined host port failedAt) (url : Bytes)
    {now : Int} (clock : Int) (reprobe : TorStatus)
    (early : now - failedAt < pool.opts_.cooldown) :
    let selected := pool.selectCandidate url now clock reprobe
    selected.2.Quarantined host port failedAt ∧
      (selected.1 = .none ∨ ¬ selected.1.IsAt host port) := by
  rcases pool.selectCandidate_cases url now clock reprobe with
    ⟨none, same⟩ | ⟨i, e, changed, found, selectable, set, stays, _, returned⟩
  · refine ⟨?_, .inl none⟩
    intro e member
    rw [same] at member
    exact held e member
  · have elsewhere := held.not_selectable early (List.mem_of_getElem? found) selectable
    have apart {other : TorEndpoint} (stays : other.IsAt e.host e.port) :
        ¬ other.IsAt host port := by
      intro place
      exact elsewhere ⟨stays.1.symm.trans place.1, stays.2.symm.trans place.2⟩
    refine ⟨?_, returned.imp_right apart⟩
    intro other member place
    rw [set] at member
    rcases List.mem_or_eq_of_mem_set member with kept | rfl
    · exact held other kept place
    · exact absurd place (apart stays)

/-- A selection without a rotation leaves a quarantined endpoint alone while its cooldown
runs, and does not return it. -/
theorem Quarantined.selectProxy (held : pool.Quarantined host port failedAt) (url : Bytes)
    {now : Int} (clock : Int) (reprobe : TorStatus) (still : pool.rotationDue now = false)
    (early : now - failedAt < pool.opts_.cooldown) :
    let selected := pool.selectProxy url now clock reprobe
    selected.2.Quarantined host port failedAt ∧
      (selected.1 = .none ∨ ¬ selected.1.IsAt host port) := by
  have counted : (if isOnionUrl url then { pool with onionRequests_ := pool.onionRequests_ + 1 }
      else pool).Quarantined host port failedAt := by
    split
    · exact held
    · exact held
  unfold PooledTorProxyManager.selectProxy
  split
  · exact ⟨held, .inl rfl⟩
  · dsimp only
    rw [rotate, if_neg]
    · refine counted.selectCandidate url clock reprobe ?_
      split <;> exact early
    · split <;> simpa [rotationDue] using still

theorem quarantined_reportFailure
    (single : (pool.eps_.filter fun e => e.IsAt host port).length ≤ 1) (now : Int) :
    (pool.reportFailure host port now).Quarantined host port now := by
  have marked : ∀ eps : List TorEndpoint, (eps.filter fun e => e.IsAt host port).length ≤ 1 →
      ∀ e ∈ updateFirst host port (fun e => { e with
          healthy := false, consecutiveFailures := e.consecutiveFailures + 1, lastProbe := now })
        eps, e.IsAt host port → e.healthy = false ∧ now ≤ e.lastProbe := by
    intro eps
    induction eps with
    | nil => intro _ e member; cases member
    | cons first rest ih =>
      intro single e member place
      by_cases found : first.IsAt host port
      · rw [updateFirst, if_pos found] at member
        rcases List.mem_cons.mp member with rfl | later
        · exact ⟨rfl, Int.le_refl _⟩
        · have second : e ∈ rest.filter fun e => e.IsAt host port := by simp [later, place]
          have counted := List.length_pos_of_mem second
          rw [List.filter_cons_of_pos (by simpa using found), List.length_cons] at single
          omega
      · rw [updateFirst, if_neg found] at member
        rw [List.filter_cons_of_neg (by simpa using found)] at single
        rcases List.mem_cons.mp member with rfl | later
        · exact absurd place found
        · exact ih single e later place
  exact marked pool.eps_ single

/-- The other calls keep the quarantine unless they restore the endpoint. -/
theorem Quarantined.apply (held : pool.Quarantined host port failedAt) {call : PoolCall}
    (quiet : ¬ pool.Restores host port call) (later : ∀ time ∈ call.times pool, failedAt ≤ time)
    (other : ∀ url now clock reprobe, call ≠ .selectProxy url now clock reprobe) :
    (pool.apply call).Quarantined host port failedAt := by
  cases call with
  | selectProxy url now clock reprobe => exact absurd rfl (other url now clock reprobe)
  | addProxy ep =>
    change (pool.addProxy ep).Quarantined host port failedAt
    unfold addProxy
    split
    · exact held
    · rename_i absent
      intro e member place
      rcases List.mem_append.mp member with kept | added
      · exact held e kept place
      · cases List.mem_singleton.mp added
        refine absurd ⟨place, fun e member same => absent ?_⟩ quiet
        refine List.any_eq_true.mpr ⟨e, member, TorEndpoint.sameEndpoint_iff.mpr ?_⟩
        exact ⟨same.1.trans place.1.symm, same.2.trans place.2.symm⟩
  | removeProxy h p =>
    intro e member place
    exact held e (List.mem_of_mem_filter member) place
  | reportSuccess h p latency =>
    intro e member place
    rcases mem_updateFirst member with kept | ⟨old, _, found, rfl⟩
    · exact held e kept place
    · exact absurd ⟨found.1.symm.trans place.1, found.2.symm.trans place.2⟩ quiet
  | reportFailure h p now =>
    intro e member place
    rcases mem_updateFirst member with kept | ⟨old, _, _, rfl⟩
    · exact held e kept place
    · exact ⟨rfl, later now (by simp [PoolCall.times])⟩
  | probe result answers =>
    intro e member place
    obtain ⟨i, found⟩ := List.mem_iff_getElem?.mp member
    obtain ⟨old, listed, rfl⟩ := Option.map_eq_some_iff.mp
      ((List.getElem?_mapIdx).symm.trans found)
    have inside := (List.getElem?_eq_some_iff.mp listed).1
    have down : (answers i).1 ≠ .up := fun up => quiet ⟨i, old, listed, place, up⟩
    refine ⟨by simpa using down, later _ ?_⟩
    exact List.mem_map.mpr ⟨i, List.mem_range.mpr inside, rfl⟩
  | probeEndpoint ep answer now =>
    intro e member place
    obtain ⟨old, listed, rfl⟩ := List.mem_map.mp member
    by_cases same : old.sameEndpoint ep = true
    · rw [if_pos same] at place ⊢
      have own := TorEndpoint.sameEndpoint_iff.mp same
      have down : answer ≠ .up := fun up =>
        quiet ⟨⟨own.1.symm.trans place.1, own.2.symm.trans place.2⟩, up⟩
      exact ⟨by simpa using down, later now (by simp [PoolCall.times])⟩
    · rw [if_neg same] at place ⊢
      exact held old listed place

end Quarantine

end PooledTorProxyManager

open PooledTorProxyManager

theorem timedPool_step {state next : TimedPool} {call : PoolCall}
    (taken : timedPool.step state call = some next) :
    next = ⟨state.pool.apply call, (call.times state.pool).getLastD state.clock⟩ ∧
      (∀ time ∈ call.times state.pool, state.clock ≤ time) ∧ state.clock ≤ next.clock := by
  simp only [timedPool] at taken
  split at taken
  · rename_i ordered
    have later := (List.pairwise_cons.mp ordered).1
    cases Option.some.inj taken
    refine ⟨rfl, later, ?_⟩
    rcases List.mem_cons.mp List.getLastD_mem_cons with same | member
    · exact Int.le_of_eq same.symm
    · exact later _ member
  · cases taken

theorem PooledTorProxyManager.NoEarlyRelease.of_early {pool : PooledTorProxyManager}
    {failedAt now : Int} {url : Bytes} {clock : Int} {reprobe : TorStatus}
    (still : pool.NoEarlyRelease failedAt (.selectProxy url now clock reprobe))
    (early : now - failedAt < milliseconds pool.opts_.failureCooldown) :
    pool.rotationDue now = false ∧ now - failedAt < pool.opts_.cooldown := by
  constructor
  · by_contra due
    have elapsed := still (.inl (Bool.not_eq_false _ ▸ due))
    omega
  · by_contra ended
    have elapsed := still (.inr (Int.not_lt.mp ended))
    omega

/-- The endpoint is quarantined, or its cooldown has elapsed. -/
structure TimedPool.Serving (state : TimedPool) (host : Bytes) (port : UInt16)
    (failedAt duration : Int) : Prop where
  after : failedAt ≤ state.clock
  cooldown : milliseconds state.pool.opts_.failureCooldown = duration
  held : state.pool.Quarantined host port failedAt ∨ duration ≤ state.clock - failedAt

/-- A call that neither restores the endpoint nor releases it early keeps it so. -/
theorem TimedPool.Serving.step {host : Bytes} {port : UInt16} {failedAt duration : Int}
    {state next : TimedPool} {call : PoolCall} (serving : state.Serving host port failedAt duration)
    (quiet : ¬ state.pool.Restores host port call)
    (still : state.pool.NoEarlyRelease failedAt call)
    (taken : timedPool.step state call = some next) :
    next.Serving host port failedAt duration := by
  obtain ⟨rfl, later, onward⟩ := timedPool_step taken
  refine ⟨Int.le_trans serving.after onward, ?_, ?_⟩
  · rw [apply_opts]
    exact serving.cooldown
  · rcases serving.held with held | elapsed
    · by_cases selection : ∃ url now clock reprobe, call = .selectProxy url now clock reprobe
      · obtain ⟨url, now, clock, reprobe, rfl⟩ := selection
        by_cases early : now - failedAt < milliseconds state.pool.opts_.failureCooldown
        · obtain ⟨unrotated, cooling⟩ := still.of_early early
          exact .inl (held.selectProxy url clock reprobe unrotated cooling).1
        · right
          have reached : duration ≤ now - failedAt := serving.cooldown ▸ Int.not_lt.mp early
          exact reached
      · refine .inl (held.apply quiet (fun time read => ?_) fun url now clock reprobe same =>
          selection ⟨url, now, clock, reprobe, same⟩)
        exact Int.le_trans serving.after (later time read)
    · right
      dsimp only at onward ⊢
      omega

/-- After an endpoint that is listed once has failed, and as long as no call restores it and no
rotation, nor the 64-bit count of the cooldown, ends its cooldown early, no selection returns it
before its cooldown has elapsed. -/
theorem quarantine_run {before failed after last : TimedPool} (host : Bytes) (port : UInt16)
    (failedAt : Int) (single : (before.pool.eps_.filter fun e => e.IsAt host port).length ≤ 1)
    (failure : timedPool.step before (.reportFailure host port failedAt) = some failed)
    (quiet : timedPool.Reaches (fun state call => ¬ state.pool.Restores host port call ∧
      state.pool.NoEarlyRelease failedAt call) failed after)
    (url : Bytes) (now clock : Int) (reprobe : TorStatus)
    (still : after.pool.NoEarlyRelease failedAt (.selectProxy url now clock reprobe))
    (selection : timedPool.step after (.selectProxy url now clock reprobe) = some last) :
    after.pool.RespectsQuarantine host port failedAt url now clock reprobe := by
  have serving : after.Serving host port failedAt
      (milliseconds before.pool.opts_.failureCooldown) := by
    refine quiet.invariant ?_ fun state call next serving meets taken =>
      serving.step meets.1 meets.2 taken
    obtain ⟨rfl, _, _⟩ := timedPool_step failure
    exact ⟨Int.le_refl _, rfl, .inl (quarantined_reportFailure single failedAt)⟩
  intro early
  obtain ⟨_, later, _⟩ := timedPool_step selection
  have onward : after.clock ≤ now := later now List.mem_cons_self
  rcases serving.held with held | elapsed
  · obtain ⟨unrotated, cooling⟩ := still.of_early early
    exact (held.selectProxy url clock reprobe unrotated cooling).2
  · have := serving.cooldown
    omega

/-- Of two proxies one fails; the selections two seconds later go to the other. -/
theorem quarantine_run_pair :
    ((create { proxies := [{ port := 9001 }, { port := 9002 }] } 0).reportFailure
        (ascii "127.0.0.1") 9001 (seconds 1)).RespectsQuarantine (ascii "127.0.0.1") 9001
      (seconds 1) (ascii "http://site.example/") (seconds 3) 0 .up := by
  refine @quarantine_run ⟨create { proxies := [{ port := 9001 }, { port := 9002 }] } 0, 0⟩ _ _ _
    (ascii "127.0.0.1") 9001 (seconds 1) (by decide) rfl .refl _ _ _ _ ?_ rfl
  intro release
  rcases release with due | ended
  · cases due
  · exact absurd ended (by decide)

/-- A rotation hands the failed proxy out half a second after its failure, also when its
interval is of 585 years, and a proxy that is listed twice is handed out one second after its
failure. -/
theorem selectProxy_breaks_quarantine :
    ¬ (runAll { proxies := [{ port := 9001 }], circuitRotateInterval := 1 } 0
        [.reportFailure (ascii "127.0.0.1") 9001 (milliseconds 500)]).RespectsQuarantine
      (ascii "127.0.0.1") 9001 (milliseconds 500) (ascii "http://site.example/") (seconds 1) 0
      .down ∧
    ¬ (runAll { proxies := [{ port := 9001 }], circuitRotateInterval := 18446744074 } 0
        [.reportFailure (ascii "127.0.0.1") 9001 (milliseconds 500)]).RespectsQuarantine
      (ascii "127.0.0.1") 9001 (milliseconds 500) (ascii "http://site.example/") (seconds 1) 0
      .down ∧
    ¬ (runAll { proxies := [{ port := 9001 }, { port := 9001 }] } 0
        [.reportFailure (ascii "127.0.0.1") 9001 (seconds 1)]).RespectsQuarantine
      (ascii "127.0.0.1") 9001 (seconds 1) (ascii "http://site.example/") (seconds 2) 0 .down := by
  decide

end ShadowSe

import ShadowSe.Support.Machine
import ShadowSe.Tor.ProxyManager

/-! Probes of the default manager while it is reconfigured. A probe reads the endpoint, asks
the network without holding the lock and stores the outcome, whatever the endpoint is by
then. -/

namespace ShadowSe

open Support

/-- The default manager, with the endpoints that the `probe` calls in flight have read and
the outcomes of the completed probes, the latest first. -/
structure ProbedManager where
  manager : DefaultTorProxyManager
  probing : List TorEndpoint := []
  completed : List (TorEndpoint × TorStatus) := []

/-- The locked steps of the calls, with the times and network answers they meet. A call of
`probeEndpoint` locks only to store. -/
inductive ManagerAction where
  | addProxy (ep : TorEndpoint)
  | removeProxy (host : Bytes) (port : UInt16)
  | selectProxy (url : Bytes)
  | reportSuccess (host : Bytes) (port : UInt16) (latency : Int)
  | reportFailure (host : Bytes) (port : UInt16)
  | beginProbe
  | finishProbe (call : Nat) (network : TorProbeResult) (now : Int)
  | probeEndpoint (ep : TorEndpoint) (answer : TorStatus)

namespace ProbedManager

def start (o : PoolOptions) : ProbedManager :=
  { manager := .create o }

def step (state : ProbedManager) : ManagerAction → Option ProbedManager
  | .addProxy ep => some { state with manager := state.manager.addProxy ep }
  | .removeProxy host port => some { state with manager := state.manager.removeProxy host port }
  | .selectProxy _ => some state
  | .reportSuccess host port latency =>
    some { state with manager := state.manager.reportSuccess host port latency }
  | .reportFailure host port =>
    some { state with manager := state.manager.reportFailure host port }
  | .beginProbe => some { state with probing := state.probing ++ [state.manager.ep_] }
  | .finishProbe call network now =>
    state.probing[call]?.map fun ep =>
      let result := DefaultTorProxyManager.probeOutcome ep network
      { manager := state.manager.storeProbe result now
        probing := state.probing.eraseIdx call
        completed := (ep, result.status) :: state.completed }
  | .probeEndpoint ep answer =>
    some { state with
      manager := state.manager.probeEndpoint ep answer
      completed := (ep, answer) :: state.completed }

def machine : Machine ProbedManager ManagerAction :=
  ⟨step⟩

/-- What the most recently completed probe of the endpoint's host and port returned. -/
def lastOutcome (completed : List (TorEndpoint × TorStatus)) (ep : TorEndpoint) :
    Option TorStatus :=
  (completed.find? fun probe => probe.1.sameEndpoint ep).map Prod.snd

/-- An endpoint that `selectProxy` returns was up at its last probe. -/
abbrev RoutesProbed (state : ProbedManager) : Prop :=
  state.manager.selectProxy.isNone = false →
    lastOutcome state.completed state.manager.selectProxy = some .up

/-- A probe that finds its endpoint up ends while no endpoint is configured, while the one
it was made for is, or while one is that was up at its own last probe. -/
def StoresOwnOutcome (state : ProbedManager) : ManagerAction → Prop
  | .finishProbe call network _ =>
    ∀ ep, state.probing[call]? = some ep → ep.isNone = false → network.status = .up →
      state.manager.ep_.isNone = true ∨ ep.sameEndpoint state.manager.ep_ = true ∨
        lastOutcome state.completed state.manager.ep_ = some .up
  | _ => True

theorem lastOutcome_cons (ep e : TorEndpoint) (status : TorStatus)
    (completed : List (TorEndpoint × TorStatus)) :
    lastOutcome ((ep, status) :: completed) e =
      if ep.sameEndpoint e = true then some status else lastOutcome completed e := by
  rw [lastOutcome, List.find?_cons]
  cases ep.sameEndpoint e with
  | true => rfl
  | false => rfl

theorem lastOutcome_congr (completed : List (TorEndpoint × TorStatus)) {e other : TorEndpoint}
    (same : e.IsAt other.host other.port) :
    lastOutcome completed e = lastOutcome completed other := by
  simp only [lastOutcome, TorEndpoint.sameEndpoint, same.1, same.2]

theorem routesProbed_iff (state : ProbedManager) :
    state.RoutesProbed ↔ state.manager.up_ = true → state.manager.ep_.isNone = false →
      lastOutcome state.completed state.manager.ep_ = some .up := by
  rw [RoutesProbed, DefaultTorProxyManager.selectProxy, ← TorEndpoint.isNone]
  cases up : state.manager.up_ with
  | false => simp [TorEndpoint.none, TorEndpoint.isNone]
  | true =>
    cases usable : state.manager.ep_.isNone with
    | true => simp [TorEndpoint.none, TorEndpoint.isNone]
    | false => simp [usable]

/-- A step that keeps the address of the endpoint, its state and the outcomes. -/
theorem RoutesProbed.of_same {state next : ProbedManager} (held : state.RoutesProbed)
    (place : next.manager.ep_.IsAt state.manager.ep_.host state.manager.ep_.port)
    (up : next.manager.up_ = state.manager.up_) (same : next.completed = state.completed) :
    next.RoutesProbed := by
  rw [routesProbed_iff] at held ⊢
  rw [up, same, lastOutcome_congr _ place]
  simpa only [TorEndpoint.isNone, place.1, place.2] using held

theorem routesProbed_of_down {state : ProbedManager} (down : state.manager.up_ = false) :
    state.RoutesProbed := by
  rw [routesProbed_iff, down]
  exact fun up => absurd up Bool.false_ne_true

theorem RoutesProbed.removeProxy {state : ProbedManager} (held : state.RoutesProbed)
    (host : Bytes) (port : UInt16) :
    RoutesProbed { state with manager := state.manager.removeProxy host port } := by
  unfold DefaultTorProxyManager.removeProxy
  split
  · exact routesProbed_of_down rfl
  · exact held

theorem RoutesProbed.reportSuccess {state : ProbedManager} (held : state.RoutesProbed)
    (host : Bytes) (port : UInt16) (latency : Int) :
    RoutesProbed { state with manager := state.manager.reportSuccess host port latency } := by
  unfold DefaultTorProxyManager.reportSuccess
  split
  · exact held.of_same ⟨rfl, rfl⟩ rfl rfl
  · exact held

theorem RoutesProbed.reportFailure {state : ProbedManager} (held : state.RoutesProbed)
    (host : Bytes) (port : UInt16) :
    RoutesProbed { state with manager := state.manager.reportFailure host port } := by
  unfold DefaultTorProxyManager.reportFailure
  split
  · exact held.of_same ⟨rfl, rfl⟩ rfl rfl
  · exact held

/-- `probeEndpoint` stores an outcome only for the endpoint it is about. -/
theorem RoutesProbed.probeEndpoint {state : ProbedManager} (held : state.RoutesProbed)
    (ep : TorEndpoint) (answer : TorStatus) :
    RoutesProbed { state with
      manager := state.manager.probeEndpoint ep answer
      completed := (ep, answer) :: state.completed } := by
  rw [routesProbed_iff] at held ⊢
  rw [lastOutcome_cons, DefaultTorProxyManager.probeEndpoint]
  by_cases own : state.manager.ep_.host = ep.host ∧ state.manager.ep_.port = ep.port
  · rw [if_pos own, if_pos (TorEndpoint.sameEndpoint_iff.mpr ⟨own.1.symm, own.2.symm⟩)]
    intro up _
    rw [eq_of_beq up]
  · have other : ¬ ep.sameEndpoint state.manager.ep_ = true := fun same =>
      own ⟨(TorEndpoint.sameEndpoint_iff.mp same).1.symm,
        (TorEndpoint.sameEndpoint_iff.mp same).2.symm⟩
    rw [if_neg own, if_neg other]
    exact held

theorem routesProbed_storeProbe_iff (manager : DefaultTorProxyManager) (result : TorProbeResult)
    (now : Int) (probing : List TorEndpoint) (completed : List (TorEndpoint × TorStatus)) :
    RoutesProbed { manager := manager.storeProbe result now, probing, completed } ↔
      (result.status = .up → manager.ep_.isNone = false →
        lastOutcome completed manager.ep_ = some .up) := by
  have up : (manager.storeProbe result now).up_ = true ↔ result.status = .up := beq_iff_eq
  have place : (manager.storeProbe result now).ep_.IsAt manager.ep_.host manager.ep_.port :=
    ⟨rfl, rfl⟩
  rw [routesProbed_iff, up, lastOutcome_congr _ place]
  rfl

/-- The store of a probe's outcome is the step that has to be allowed. -/
theorem routesProbed_finishProbe_iff (state : ProbedManager) (ep : TorEndpoint) (call : Nat)
    (network : TorProbeResult) (now : Int) (reading : state.probing[call]? = some ep) :
    RoutesProbed
        { manager := state.manager.storeProbe (DefaultTorProxyManager.probeOutcome ep network) now
          probing := state.probing.eraseIdx call
          completed :=
            (ep, (DefaultTorProxyManager.probeOutcome ep network).status) :: state.completed } ↔
      state.StoresOwnOutcome (.finishProbe call network now) := by
  rw [routesProbed_storeProbe_iff, StoresOwnOutcome, reading, lastOutcome_cons,
    DefaultTorProxyManager.probeOutcome, ← TorEndpoint.isNone]
  simp only [Option.some.injEq, forall_eq']
  cases unusable : ep.isNone with
  | true => simp
  | false =>
    rw [if_neg Bool.false_ne_true]
    constructor
    · intro held _ up
      cases usable : state.manager.ep_.isNone with
      | true => exact .inl rfl
      | false =>
        have last := held up usable
        split at last
        · rename_i own
          exact .inr (.inl own)
        · exact .inr (.inr last)
    · intro allowed up usable
      split
      · rw [up]
      · rename_i other
        rcases allowed rfl up with none | own | last
        · exact absurd (none.symm.trans usable) Bool.noConfusion
        · exact absurd own other
        · exact last

/-- Only the end of a probe can make `selectProxy` return an endpoint that was not up. -/
theorem routesProbed_step_iff {state next : ProbedManager} {action : ManagerAction}
    (held : state.RoutesProbed) (taken : machine.step state action = some next) :
    next.RoutesProbed ↔ state.StoresOwnOutcome action := by
  cases action with
  | finishProbe call network now =>
    obtain ⟨ep, reading, rfl⟩ := Option.map_eq_some_iff.mp taken
    exact routesProbed_finishProbe_iff state ep call network now reading
  | addProxy ep =>
    cases Option.some.inj taken
    exact iff_of_true (routesProbed_of_down rfl) trivial
  | removeProxy host port =>
    cases Option.some.inj taken
    exact iff_of_true (held.removeProxy host port) trivial
  | selectProxy url =>
    cases Option.some.inj taken
    exact iff_of_true held trivial
  | reportSuccess host port latency =>
    cases Option.some.inj taken
    exact iff_of_true (held.reportSuccess host port latency) trivial
  | reportFailure host port =>
    cases Option.some.inj taken
    exact iff_of_true (held.reportFailure host port) trivial
  | beginProbe =>
    cases Option.some.inj taken
    exact iff_of_true held trivial
  | probeEndpoint ep answer =>
    cases Option.some.inj taken
    exact iff_of_true (held.probeEndpoint ep answer) trivial

/-- A run routes through endpoints that were up at their last probe exactly when no probe in
it ends well while another endpoint, not itself up at its last probe, is configured. -/
theorem routesProbed_run_iff (o : PoolOptions) (actions : List ManagerAction) :
    (∀ earlier state, earlier <+: actions → machine.run (start o) earlier = some state →
      state.RoutesProbed) ↔
    ∀ earlier action state, earlier ++ [action] <+: actions →
      machine.run (start o) earlier = some state → state.StoresOwnOutcome action := by
  refine Machine.run_invariant_iff (routesProbed_of_down rfl)
    (fun _ _ _ held taken => routesProbed_step_iff held taken)
    (fun state action disabled => ?_) actions
  cases action with
  | finishProbe call network now =>
    intro ep reading
    rw [Option.map_eq_none_iff.mp disabled] at reading
    cases reading
  | _ => trivial

/-- A probe of the first proxy is in flight when the second replaces it; the store then
makes the second, which nobody has probed, the one to route through. -/
theorem selectProxy_unprobed : ¬ ∀ o actions earlier state, earlier <+: actions →
    machine.run (start o) earlier = some state → state.RoutesProbed := by
  intro routes
  have routed := routes { proxies := [{ port := 9050 }] }
    [.beginProbe, .addProxy { port := 9051 }, .finishProbe 0 { status := .up } 0] _ _
    (List.prefix_refl _) rfl
  exact absurd routed (by decide)

end ProbedManager

end ShadowSe

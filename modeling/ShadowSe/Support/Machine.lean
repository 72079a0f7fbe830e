import Mathlib.Algebra.BigOperators.Group.List.Basic
import Mathlib.Algebra.GroupWithZero.Nat
import Mathlib.Data.List.Induction
import Mathlib.Logic.Relation

/-! State machines driven by labelled actions. An action that is not enabled has
no successor; nondeterminism is the choice of the next action. -/

namespace ShadowSe.Support

structure Machine (State Action : Type) where
  step : State → Action → Option State

namespace Machine

variable {State Action : Type}

/-- Perform the actions in order; `none` when one of them is not enabled. -/
def run (machine : Machine State Action) : State → List Action → Option State
  | state, [] => some state
  | state, action :: rest => (machine.step state action).bind fun next => machine.run next rest

theorem run_append (machine : Machine State Action) (state : State) (first second : List Action) :
    machine.run state (first ++ second) =
      (machine.run state first).bind fun next => machine.run next second := by
  induction first generalizing state with
  | nil => rfl
  | cons action rest ih =>
    cases taken : machine.step state action with
    | none => simp [run, taken]
    | some next => simpa [run, taken] using ih next

theorem run_concat (machine : Machine State Action) (state : State) (earlier : List Action)
    (action : Action) : machine.run state (earlier ++ [action]) =
      (machine.run state earlier).bind fun before => machine.step before action := by
  rw [run_append]
  congr 1
  funext before
  exact Option.bind_fun_some _

/-- The states reached by runs in which every step satisfies the condition `ok`,
a predicate of the state before the step and the action. -/
inductive Reaches (machine : Machine State Action) (ok : State → Action → Prop)
    (start : State) : State → Prop where
  | refl : Reaches machine ok start start
  | step {state next : State} (action : Action) (earlier : Reaches machine ok start state)
      (meets : ok state action) (taken : machine.step state action = some next) :
      Reaches machine ok start next

/-- Every run, without a condition on its steps. -/
abbrev Reachable (machine : Machine State Action) (start : State) : State → Prop :=
  machine.Reaches (fun _ _ => True) start

variable {machine : Machine State Action} {ok : State → Action → Prop} {start state : State}

/-- What holds initially and is kept by every allowed step holds of every state reached. -/
@[elab_as_elim]
theorem Reaches.invariant {Inv : State → Prop} (reached : machine.Reaches ok start state)
    (initial : Inv start)
    (kept : ∀ before action after, Inv before → ok before action →
      machine.step before action = some after → Inv after) : Inv state := by
  induction reached with
  | refl => exact initial
  | step action _ meets taken held => exact kept _ action _ held meets taken

theorem Reaches.trans {middle : State} (first : machine.Reaches ok start middle)
    (second : machine.Reaches ok middle state) : machine.Reaches ok start state := by
  induction second with
  | refl => exact first
  | step action _ meets taken joined => exact .step action joined meets taken

theorem Reaches.weaken {looser : State → Action → Prop}
    (reached : machine.Reaches ok start state)
    (implied : ∀ state action, ok state action → looser state action) :
    machine.Reaches looser start state := by
  induction reached with
  | refl => exact .refl
  | step action _ meets taken weaker => exact .step action weaker (implied _ _ meets) taken

theorem Reaches.reachable (reached : machine.Reaches ok start state) :
    machine.Reachable start state :=
  reached.weaken fun _ _ _ => trivial

/-- A concrete run all of whose actions are enabled reaches its last state. -/
theorem reachable_of_run {actions : List Action} (ran : machine.run start actions = some state) :
    machine.Reachable start state := by
  induction actions generalizing start with
  | nil =>
    cases Option.some.inj ran
    exact .refl
  | cons action rest ih =>
    obtain ⟨next, taken, continued⟩ := Option.bind_eq_some_iff.mp ran
    exact (Reaches.step action .refl trivial taken).trans (ih continued)

/-- Where every step keeps the invariant exactly when it is allowed, the invariant holds in
every state of a run exactly when every step of the run is allowed. -/
theorem run_invariant_iff {Inv : State → Prop} (initial : Inv start)
    (kept_iff : ∀ before action after, Inv before → machine.step before action = some after →
      (Inv after ↔ ok before action))
    (disabled : ∀ before action, machine.step before action = none → ok before action)
    (actions : List Action) :
    (∀ earlier state, earlier <+: actions → machine.run start earlier = some state → Inv state) ↔
      ∀ earlier action state, earlier ++ [action] <+: actions →
        machine.run start earlier = some state → ok state action := by
  constructor
  · intro held earlier action state performed ran
    cases taken : machine.step state action with
    | none => exact disabled state action taken
    | some next =>
      have before := held earlier state ((List.prefix_append _ _).trans performed) ran
      have after := held _ next performed (by rw [run_concat, ran, Option.bind_some, taken])
      exact (kept_iff state action next before taken).mp after
  · intro allowed earlier
    induction earlier using List.reverseRecOn with
    | nil =>
      intro state _ ran
      cases Option.some.inj ran
      exact initial
    | append_singleton earlier action ih =>
      intro state performed ran
      rw [run_concat] at ran
      obtain ⟨before, ranBefore, taken⟩ := Option.bind_eq_some_iff.mp ran
      have held := ih before ((List.prefix_append _ _).trans performed) ranBefore
      exact (kept_iff before action state held taken).mpr
        (allowed earlier action before performed ranBefore)

/-- The potential method. Where no action costs more than the potential it uses up and the
credit it brings, a run costs at most the potential it starts with and its credits. -/
theorem cost_le_of_run {Inv : State → Prop} (potential : State → Nat) (cost credit : Action → Nat)
    (kept : ∀ before action after, Inv before → machine.step before action = some after →
      Inv after)
    (paid : ∀ before action after, Inv before → machine.step before action = some after →
      cost action + potential after ≤ potential before + credit action)
    {actions : List Action} (ran : machine.run start actions = some state)
    (initial : Inv start) :
    (actions.map cost).sum + potential state ≤ potential start + (actions.map credit).sum := by
  induction actions generalizing start with
  | nil =>
    cases Option.some.inj ran
    simp
  | cons action rest ih =>
    obtain ⟨next, taken, continued⟩ := Option.bind_eq_some_iff.mp ran
    have first := paid start action next initial taken
    have later := ih continued (kept start action next initial taken)
    simp only [List.map_cons, List.sum_cons]
    omega

/-- Along a view in which every step is one allowed step of another machine or no change,
what is reached is seen as reached. -/
theorem Reaches.view {Other OtherAction : Type} {other : Machine Other OtherAction}
    {allowed : Other → OtherAction → Prop} (reached : machine.Reaches ok start state)
    (seen : State → Other)
    (matched : ∀ before action after, ok before action → machine.step before action = some after →
      seen after = seen before ∨ ∃ step, allowed (seen before) step ∧
        other.step (seen before) step = some (seen after)) :
    other.Reaches allowed (seen start) (seen state) := by
  refine reached.invariant .refl fun before action after earlier meets taken => ?_
  rcases matched before action after meets taken with same | ⟨step, permitted, done⟩
  · rw [same]
    exact earlier
  · exact .step step earlier permitted done

/-- Where every allowed step is matched by at most one move of another system, what is reached
is matched by a run of that system. -/
theorem Reaches.simulate {Other : Type} {move : Other → Other → Prop}
    {matching : State → Other → Prop} {initial : Other} (reached : machine.Reaches ok start state)
    (begun : matching start initial)
    (matched : ∀ before action after seen, machine.Reaches ok start before →
      Relation.ReflTransGen move initial seen → matching before seen → ok before action →
      machine.step before action = some after →
      matching after seen ∨ ∃ next, move seen next ∧ matching after next) :
    ∃ seen, Relation.ReflTransGen move initial seen ∧ matching state seen := by
  induction reached with
  | refl => exact ⟨initial, .refl, begun⟩
  | step action earlier meets taken ih =>
    obtain ⟨seen, moves, held⟩ := ih
    rcases matched _ action _ seen earlier moves held meets taken with still | ⟨next, move, kept⟩
    · exact ⟨seen, moves, still⟩
    · exact ⟨next, moves.tail move, kept⟩

/-- The machine in which only the allowed steps are enabled. -/
def restrict (machine : Machine State Action) (ok : State → Action → Prop)
    [∀ state action, Decidable (ok state action)] : Machine State Action :=
  ⟨fun state action => if ok state action then machine.step state action else none⟩

/-- A concrete run of allowed actions reaches its last state by allowed steps. -/
theorem reaches_of_run [∀ state action, Decidable (ok state action)] (actions : List Action)
    (ran : (machine.restrict ok).run start actions = some state) :
    machine.Reaches ok start state := by
  refine (reachable_of_run ran).invariant .refl fun before action after earlier _ taken => ?_
  simp only [restrict] at taken
  split at taken
  · rename_i meets
    exact .step action earlier meets taken
  · cases taken

/-- A concrete run of allowed actions reaches a state with whatever its last state is found
to satisfy. -/
theorem exists_reaches_of_run [∀ state action, Decidable (ok state action)] (actions : List Action)
    {holds : State → Prop} [DecidablePred holds]
    (ran : ((machine.restrict ok).run start actions).any (fun state => decide (holds state))) :
    ∃ state, machine.Reaches ok start state ∧ holds state := by
  obtain ⟨state, last, found⟩ := (Option.any_eq_true _ _).mp ran
  exact ⟨state, reaches_of_run actions last, of_decide_eq_true found⟩

end Machine

end ShadowSe.Support

import Mathlib.Data.List.GetD
import Mathlib.Data.List.Range
import ShadowSe.Tor.ProxyPool

namespace ShadowSe

theorem getElem?_filter_eq_some_iff {α : Type} {p : α → Bool} {l : List α} {k : Nat} {a : α} :
    (l.filter p)[k]? = some a ↔
      ∃ before after, l = before ++ a :: after ∧ p a = true ∧ before.countP p = k := by
  induction l generalizing k with
  | nil => simp
  | cons first rest ih =>
    by_cases kept : p first = true
    · rw [List.filter_cons_of_pos kept]
      constructor
      · intro found
        cases k with
        | zero =>
          cases Option.some.inj found
          exact ⟨[], rest, rfl, kept, rfl⟩
        | succ k =>
          obtain ⟨before, after, rfl, holds, count⟩ := ih.mp found
          exact ⟨first :: before, after, rfl, holds, by rw [List.countP_cons_of_pos kept, count]⟩
      · rintro ⟨before, after, split, holds, rfl⟩
        cases before with
        | nil =>
          cases List.cons.inj split with
          | intro same _ => rw [same]; rfl
        | cons other before =>
          obtain ⟨rfl, rfl⟩ := List.cons.inj split
          rw [List.countP_cons_of_pos kept, List.getElem?_cons_succ]
          exact ih.mpr ⟨before, after, rfl, holds, rfl⟩
    · rw [List.filter_cons_of_neg kept, ih]
      constructor
      · rintro ⟨before, after, rfl, holds, count⟩
        exact ⟨first :: before, after, rfl, holds, by rw [List.countP_cons_of_neg kept, count]⟩
      · rintro ⟨before, after, split, holds, count⟩
        cases before with
        | nil =>
          obtain ⟨rfl, _⟩ := List.cons.inj split
          exact absurd holds kept
        | cons other before =>
          obtain ⟨rfl, rfl⟩ := List.cons.inj split
          exact ⟨before, after, rfl, holds, by rwa [List.countP_cons_of_neg kept] at count⟩

namespace PooledTorProxyManager

/-- Healthy or cooled down; after a rotation every endpoint is healthy. -/
def usable (pool : PooledTorProxyManager) (now : Int) (e : TorEndpoint) : Bool :=
  pool.rotationDue now || pool.selectable now e

/-- It is the turn of an endpoint: as many usable ones stand before it as the cursor, taken
around the usable ones, has passed. A rotation moves the cursor on. -/
def HasTurn (pool : PooledTorProxyManager) (now : Int) (e : TorEndpoint) : Prop :=
  ∃ before after, pool.eps_ = before ++ e :: after ∧ pool.usable now e = true ∧
    before.countP (pool.usable now) =
      (if pool.rotationDue now then pool.rr_ + 1 else pool.rr_).toNat %
        pool.eps_.countP (pool.usable now)

/-- The endpoint whose turn it is has an address, and it needs no re-probe or answers it. -/
def TurnAnswers (pool : PooledTorProxyManager) (now : Int) (reprobe : TorStatus) : Prop :=
  ∀ e, pool.HasTurn now e → e.isNone = false ∧
    (e.healthy = true ∨ pool.rotationDue now = true ∨ reprobe = .up)

theorem map_candidates (pool : PooledTorProxyManager) (now : Int) :
    (pool.candidates now).map (fun i => pool.eps_.getD i .none) =
      pool.eps_.filter (pool.selectable now) := by
  have listed :
      (List.range pool.eps_.length).map (fun i => pool.eps_.getD i .none) = pool.eps_ := by
    refine List.ext_getElem (by simp) fun i _ inside => ?_
    simp [inside]
  conv_rhs => rw [← listed, List.filter_map]
  rfl

theorem selectCandidate_isNone (pool : PooledTorProxyManager) (url : Bytes) (now clock : Int)
    (reprobe : TorStatus) :
    (pool.selectCandidate url now clock reprobe).1.isNone =
      !((pool.eps_.filter (pool.selectable now))[pool.rr_.toNat %
        (pool.eps_.filter (pool.selectable now)).length]?.any fun e =>
          !e.isNone && (e.healthy || reprobe == .up)) := by
  rw [← map_candidates, List.length_map, List.getElem?_map]
  by_cases empty : pool.candidates now = []
  · simp [selectCandidate, empty]
    rfl
  · have inside : pool.rr_.toNat % (pool.candidates now).length < (pool.candidates now).length :=
      Nat.mod_lt _ (List.length_pos_iff.mpr empty)
    simp only [selectCandidate, empty, ↓reduceIte, List.getElem?_eq_getElem inside,
      List.getD_eq_getElem _ _ inside, Option.map_some, Option.any_some]
    generalize pool.eps_.getD (pool.candidates now)[pool.rr_.toNat % (pool.candidates now).length]
      .none = chosen
    cases healthy : chosen.healthy with
    | true => simp [handOut, TorEndpoint.isNone]
    | false =>
      cases answer : reprobe == .up with
      | true => simp [handOut, TorEndpoint.isNone]
      | false => simp [TorEndpoint.isNone, TorEndpoint.none]

/-- The usable endpoint that the cursor points at, counted before any rotation. -/
theorem rotate_selectCandidate_isNone (pool : PooledTorProxyManager) (url : Bytes)
    (now clock : Int) (reprobe : TorStatus) :
    ((pool.rotate now).selectCandidate url now clock reprobe).1.isNone =
      !((pool.eps_.filter (pool.usable now))[
        (if pool.rotationDue now then pool.rr_ + 1 else pool.rr_).toNat %
          pool.eps_.countP (pool.usable now)]?.any fun e =>
            !e.isNone && (e.healthy || pool.rotationDue now || reprobe == .up)) := by
  rw [selectCandidate_isNone, List.countP_eq_length_filter]
  cases due : pool.rotationDue now with
  | false =>
    have same : pool.usable now = pool.selectable now := by
      funext e
      simp [usable, due]
    simp [rotate, due, same]
  | true =>
    -- After a rotation every endpoint is healthy, so all of them are candidates.
    have all : (pool.rotate now).eps_.filter ((pool.rotate now).selectable now) =
        pool.eps_.map fun e => { e with healthy := true } := by
      simp only [rotate, due, ↓reduceIte]
      exact List.filter_eq_self.mpr (by simp [selectable])
    have every : pool.eps_.filter (pool.usable now) = pool.eps_ :=
      List.filter_eq_self.mpr (by simp [usable, due])
    have cursor : (pool.rotate now).rr_.toNat = (pool.rr_ + 1).toNat % pool.eps_.length := by
      simp only [rotate, due, ↓reduceIte]
      exact Nat.mod_eq_of_lt (Nat.lt_of_le_of_lt (Nat.mod_le _ _) (UInt64.toNat_lt _))
    simp only [all, every, cursor, List.length_map, Nat.mod_mod, List.getElem?_map, ↓reduceIte,
      Option.any_map]
    cases pool.eps_[(pool.rr_ + 1).toNat % pool.eps_.length]? with
    | none => rfl
    | some e => simp [TorEndpoint.isNone]

/-- While an endpoint is usable, a selection gives up exactly when the one whose turn it is does
not answer. -/
theorem selectProxy_isNone_iff (pool : PooledTorProxyManager) (url : Bytes) (now clock : Int)
    (reprobe : TorStatus) (some_ : ∃ e ∈ pool.eps_, pool.usable now e = true) :
    (pool.selectProxy url now clock reprobe).1.isNone = false ↔ pool.TurnAnswers now reprobe := by
  obtain ⟨e, member, holds⟩ := some_
  have configured : pool.eps_ ≠ [] := List.ne_nil_of_mem member
  have settled : (pool.selectProxy url now clock reprobe).1.isNone =
      ((pool.rotate now).selectCandidate url now clock reprobe).1.isNone := by
    rw [selectProxy, if_neg configured]
    dsimp only
    split
    · rw [rotate_selectCandidate_isNone, rotate_selectCandidate_isNone]
      rfl
    · rfl
  have inside : (if pool.rotationDue now then pool.rr_ + 1 else pool.rr_).toNat %
      pool.eps_.countP (pool.usable now) < (pool.eps_.filter (pool.usable now)).length := by
    rw [← List.countP_eq_length_filter]
    exact Nat.mod_lt _ (List.countP_pos_iff.mpr ⟨e, member, holds⟩)
  have found := List.getElem?_eq_getElem inside
  rw [settled, rotate_selectCandidate_isNone, found]
  generalize (pool.eps_.filter (pool.usable now))[(if pool.rotationDue now then pool.rr_ + 1
    else pool.rr_).toNat % pool.eps_.countP (pool.usable now)] = next at found
  have turn (other : TorEndpoint) : pool.HasTurn now other ↔ next = other := by
    rw [HasTurn, ← getElem?_filter_eq_some_iff, found, Option.some.injEq]
  simp only [TurnAnswers, turn, forall_eq']
  by_cases healthy : next.healthy = true
  · simp [healthy]
  · by_cases due : pool.rotationDue now = true
    · simp [due]
    · simp [healthy, due]

/-- A selection that hands out no proxy means that no endpoint was healthy. -/
abbrev KeepsTrying (pool : PooledTorProxyManager) (url : Bytes) (now clock : Int)
    (reprobe : TorStatus) : Prop :=
  (pool.selectProxy url now clock reprobe).1.isNone = true → ∀ e ∈ pool.eps_, e.healthy = false

theorem keepsTrying_iff (pool : PooledTorProxyManager) (url : Bytes) (now clock : Int)
    (reprobe : TorStatus) : pool.KeepsTrying url now clock reprobe ↔
      (∀ e ∈ pool.eps_, e.healthy = false) ∨ pool.TurnAnswers now reprobe := by
  by_cases down : ∀ e ∈ pool.eps_, e.healthy = false
  · exact iff_of_true (fun _ => down) (.inl down)
  · rw [or_iff_right down]
    have some_ : ∃ e ∈ pool.eps_, pool.usable now e = true := by
      push Not at down
      obtain ⟨e, member, up⟩ := down
      have healthy : e.healthy = true := by simpa using up
      exact ⟨e, member, by simp [usable, selectable, healthy]⟩
    rw [← selectProxy_isNone_iff pool url now clock reprobe some_]
    constructor
    · intro tries
      exact Bool.eq_false_iff.mpr fun gone => down (tries gone)
    · intro served gone
      rw [served] at gone
      cases gone

/-- In every run, all selections keep trying while an endpoint is healthy exactly when each of
them meets a pool with no healthy endpoint, or it is the turn of an endpoint with an address
that is healthy, is made so by a rotation, or answers its re-probe. -/
theorem keepsTrying_run_iff (o : PoolOptions) (start : Int) (calls : List PoolCall) :
    (∀ before url now clock reprobe,
      before ++ [.selectProxy url now clock reprobe] <+: calls →
        (runAll o start before).KeepsTrying url now clock reprobe) ↔
    (∀ before url now clock reprobe,
      before ++ [.selectProxy url now clock reprobe] <+: calls →
        (∀ e ∈ (runAll o start before).eps_, e.healthy = false) ∨
          (runAll o start before).TurnAnswers now reprobe) := by
  simp only [keepsTrying_iff]

/-- Of two proxies the first fails; after its cooldown its re-probe fails again, and the
selection gives up although the second is healthy. -/
theorem selectProxy_abandons_healthy :
    ¬ (runAll { proxies := [{ port := 9001 }, { port := 9002 }] } 0
      [.reportFailure (ascii "127.0.0.1") 9001 (seconds 1)]).KeepsTrying
        (ascii "http://site.example/") (seconds 10) 0 .down := by
  decide

end PooledTorProxyManager

end ShadowSe

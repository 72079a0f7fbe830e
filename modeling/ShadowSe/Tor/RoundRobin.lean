import Mathlib.Data.List.Rotate
import ShadowSe.Tor.Quarantine

namespace ShadowSe

/-- The address of an endpoint and whether it is healthy. -/
def TorEndpoint.standing (e : TorEndpoint) : Bytes × UInt16 × Bool :=
  (e.host, e.port, e.healthy)

namespace PooledTorProxyManager

def standings (pool : PooledTorProxyManager) : List (Bytes × UInt16 × Bool) :=
  pool.eps_.map TorEndpoint.standing

def healthyEndpoints (pool : PooledTorProxyManager) : List TorEndpoint :=
  pool.eps_.filter (·.healthy)

/-- The endpoint that a call returns; only a selection returns one. -/
def returned (pool : PooledTorProxyManager) : PoolCall → Option TorEndpoint
  | .selectProxy url now clock reprobe => some (pool.selectProxy url now clock reprobe).1
  | _ => none

/-- What the selections among the calls return, in order. -/
def selections (pool : PooledTorProxyManager) : List PoolCall → List TorEndpoint
  | [] => []
  | call :: rest => (pool.returned call).toList ++ (pool.apply call).selections rest

/-- A selection finds no failed endpoint whose cooldown has expired; any other call leaves
the endpoints and their health as they are. -/
def Undisturbed (pool : PooledTorProxyManager) : PoolCall → Prop
  | .selectProxy _ now _ _ => ∀ e ∈ pool.eps_, e.healthy = false →
      now - e.lastProbe < pool.opts_.cooldown
  | call => (pool.apply call).standings = pool.standings

instance (pool : PooledTorProxyManager) : DecidablePred pool.Undisturbed
  | .selectProxy _ now _ _ => inferInstanceAs (Decidable (∀ e ∈ pool.eps_, e.healthy = false →
      now - e.lastProbe < pool.opts_.cooldown))
  | .addProxy _ | .removeProxy _ _ | .reportSuccess _ _ _ | .reportFailure _ _ _ | .probe _ _
  | .probeEndpoint _ _ _ => inferInstanceAs (Decidable (_ = _))

def AllUndisturbed (pool : PooledTorProxyManager) : List PoolCall → Prop
  | [] => True
  | call :: rest => pool.Undisturbed call ∧ (pool.apply call).AllUndisturbed rest

instance decidableAllUndisturbed (pool : PooledTorProxyManager) :
    (calls : List PoolCall) → Decidable (pool.AllUndisturbed calls)
  | [] => instDecidableTrue
  | call :: rest =>
    have := decidableAllUndisturbed (pool.apply call) rest
    inferInstanceAs (Decidable (_ ∧ _))

/-- The healthy endpoints, as they stand, depend on how the endpoints stand only. -/
theorem map_healthyEndpoints (pool : PooledTorProxyManager) :
    pool.healthyEndpoints.map TorEndpoint.standing = pool.standings.filter (·.2.2) := by
  rw [standings, List.filter_map]
  rfl

theorem rotate_off {pool : PooledTorProxyManager}
    (off : pool.opts_.circuitRotateInterval ≤ 0) (now : Int) : pool.rotate now = pool := by
  have never : ¬ 0 < pool.opts_.circuitRotateInterval := Int.not_lt.mpr off
  simp [rotate, rotationDue, never]

/-- Handing out an endpoint leaves it, and all the others, standing as they do. -/
theorem handOut_standing {pool : PooledTorProxyManager} {pick : Nat} {e : TorEndpoint}
    (found : pool.eps_[pick]? = some e) (url : Bytes) (clock : Int) :
    (pool.handOut pick e url clock).1.standing = e.standing ∧
      (pool.handOut pick e url clock).2.standings = pool.standings := by
  obtain ⟨within, rfl⟩ := List.getElem?_eq_some_iff.mp found
  refine ⟨rfl, ?_⟩
  have inside : pick < (pool.eps_.map TorEndpoint.standing).length := by
    rwa [List.length_map]
  have unchanged := List.set_getElem_self inside
  rw [List.getElem_map] at unchanged
  rw [standings, handOut, List.map_set]
  exact unchanged

/-- While no failed endpoint is cooled down, a selection hands out the healthy endpoint at the
cursor and moves the cursor on. -/
theorem selectCandidate_cooling {pool : PooledTorProxyManager} {now : Int}
    (cooling : ∀ e ∈ pool.eps_, e.healthy = false →
      now - e.lastProbe < pool.opts_.cooldown)
    (healthy : pool.healthyEndpoints ≠ []) (url : Bytes) (clock : Int) (reprobe : TorStatus) :
    ∃ pick e, pool.eps_[pick]? = some e ∧
      pool.healthyEndpoints[pool.rr_.toNat % pool.healthyEndpoints.length]? = some e ∧
      pool.selectCandidate url now clock reprobe =
        { pool with rr_ := pool.rr_ + 1 }.handOut pick e url clock := by
  have usable : pool.eps_.filter (pool.selectable now) = pool.healthyEndpoints := by
    refine List.filter_congr fun e member => ?_
    cases health : e.healthy with
    | true => simp [selectable, health]
    | false => simpa [selectable, health] using cooling e member health
  have listed := pool.map_candidates now
  rw [usable] at listed
  have lengths : pool.healthyEndpoints.length = (pool.candidates now).length := by
    rw [← listed, List.length_map]
  have inside : pool.rr_.toNat % (pool.candidates now).length < (pool.candidates now).length := by
    rw [← lengths]
    exact Nat.mod_lt _ (List.length_pos_iff.mpr healthy)
  have candidate : pool.candidates now ≠ [] := List.ne_nil_of_length_pos (by omega)
  have within := List.mem_range.mp (List.mem_filter.mp (List.getElem_mem inside)).1
  have found : pool.healthyEndpoints[pool.rr_.toNat % pool.healthyEndpoints.length]? =
      some pool.eps_[(pool.candidates now)[pool.rr_.toNat % (pool.candidates now).length]] := by
    rw [lengths, ← listed, List.getElem?_map, List.getElem?_eq_getElem inside, Option.map_some,
      List.getD_eq_getElem _ _ within]
  have up := (List.mem_filter.mp (List.mem_of_getElem? found)).2
  refine ⟨_, _, List.getElem?_eq_getElem within, found, ?_⟩
  simp only [selectCandidate, candidate, ↓reduceIte, List.getD_eq_getElem _ _ inside,
    List.getD_eq_getElem _ _ within, if_pos up]

/-- While no rotation comes and no failed endpoint is cooled down, a selection returns the
healthy endpoint at the cursor. -/
theorem selectProxy_cooling {pool : PooledTorProxyManager} {now : Int}
    (off : pool.opts_.circuitRotateInterval ≤ 0)
    (cooling : ∀ e ∈ pool.eps_, e.healthy = false →
      now - e.lastProbe < pool.opts_.cooldown)
    (healthy : pool.healthyEndpoints ≠ []) (url : Bytes) (clock : Int) (reprobe : TorStatus) :
    let selected := pool.selectProxy url now clock reprobe
    selected.2.standings = pool.standings ∧ selected.2.rr_ = pool.rr_ + 1 ∧
      (pool.healthyEndpoints.map TorEndpoint.standing)[pool.rr_.toNat %
        pool.healthyEndpoints.length]? = some selected.1.standing := by
  have configured : pool.eps_ ≠ [] := fun none => healthy (by rw [healthyEndpoints, none]; rfl)
  -- The count of onion requests changes nothing that the selection reads.
  have settles (requests : Nat) :
      let counted := { pool with onionRequests_ := requests }
      let selected := (counted.rotate now).selectCandidate url now clock reprobe
      selected.2.standings = pool.standings ∧ selected.2.rr_ = pool.rr_ + 1 ∧
        (pool.healthyEndpoints.map TorEndpoint.standing)[pool.rr_.toNat %
          pool.healthyEndpoints.length]? = some selected.1.standing := by
    intro counted
    obtain ⟨pick, e, listed, found, settled⟩ :=
      @selectCandidate_cooling counted now cooling healthy url clock reprobe
    obtain ⟨out, same⟩ :=
      @handOut_standing { counted with rr_ := counted.rr_ + 1 } pick e listed url clock
    dsimp only
    rw [@rotate_off counted off now, settled]
    refine ⟨same, rfl, ?_⟩
    rw [out, List.getElem?_map]
    exact congrArg (Option.map TorEndpoint.standing) found
  rw [selectProxy, if_neg configured]
  dsimp only
  split
  · exact settles (pool.onionRequests_ + 1)
  · exact settles pool.onionRequests_

/-- One undisturbed call leaves the endpoints standing as they do; a selection returns the
one at the cursor and moves the cursor on, and other calls leave the cursor alone. -/
theorem apply_undisturbed {pool : PooledTorProxyManager} {call : PoolCall}
    (off : pool.opts_.circuitRotateInterval ≤ 0) (healthy : pool.healthyEndpoints ≠ [])
    (undisturbed : pool.Undisturbed call) :
    (pool.apply call).standings = pool.standings ∧
      (pool.returned call = none ∧ (pool.apply call).rr_ = pool.rr_ ∨
        ∃ e, pool.returned call = some e ∧ (pool.apply call).rr_ = pool.rr_ + 1 ∧
          (pool.healthyEndpoints.map TorEndpoint.standing)[pool.rr_.toNat %
            pool.healthyEndpoints.length]? = some e.standing) := by
  cases call with
  | selectProxy url now clock reprobe =>
    obtain ⟨same, moved, found⟩ := selectProxy_cooling off undisturbed healthy url clock reprobe
    exact ⟨same, .inr ⟨_, rfl, moved, found⟩⟩
  | addProxy ep =>
    refine ⟨undisturbed, .inl ⟨rfl, ?_⟩⟩
    change (pool.addProxy ep).rr_ = pool.rr_
    unfold addProxy
    split <;> rfl
  | removeProxy | reportSuccess | reportFailure | probe | probeEndpoint =>
    exact ⟨undisturbed, .inl ⟨rfl, rfl⟩⟩

/-- The selections of undisturbed calls walk around the healthy endpoints from the cursor on. -/
theorem selections_getElem? {pool : PooledTorProxyManager} {calls : List PoolCall}
    (off : pool.opts_.circuitRotateInterval ≤ 0) (healthy : pool.healthyEndpoints ≠ [])
    (undisturbed : pool.AllUndisturbed calls)
    (bound : pool.rr_.toNat + (pool.selections calls).length ≤ UInt64.size) {k : Nat}
    (inside : k < (pool.selections calls).length) :
    ((pool.selections calls).map TorEndpoint.standing)[k]? =
      (pool.healthyEndpoints.map TorEndpoint.standing)[(k + pool.rr_.toNat) %
        pool.healthyEndpoints.length]? := by
  induction calls generalizing pool k with
  | nil => exact absurd inside (Nat.not_lt_zero k)
  | cons call rest ih =>
    obtain ⟨now, later⟩ := undisturbed
    obtain ⟨same, step⟩ := apply_undisturbed off healthy now
    have endpoints : (pool.apply call).healthyEndpoints.map TorEndpoint.standing =
        pool.healthyEndpoints.map TorEndpoint.standing := by
      rw [map_healthyEndpoints, map_healthyEndpoints, same]
    have count : (pool.apply call).healthyEndpoints.length = pool.healthyEndpoints.length := by
      simpa using congrArg List.length endpoints
    have healthy' : (pool.apply call).healthyEndpoints ≠ [] :=
      List.ne_nil_of_length_pos (count ▸ List.length_pos_iff.mpr healthy)
    have off' : (pool.apply call).opts_.circuitRotateInterval ≤ 0 := by rwa [apply_opts]
    have ih := @ih (pool.apply call) off' healthy' later
    rw [endpoints, count] at ih
    rw [selections] at bound inside ⊢
    rcases step with ⟨none, cursor⟩ | ⟨e, returned, cursor, found⟩
    · rw [none] at bound inside ⊢
      rw [cursor] at ih
      exact ih bound inside
    · rw [returned, Option.toList_some, List.singleton_append] at bound inside ⊢
      cases k with
      | zero =>
        rw [Nat.zero_add, found]
        rfl
      | succ k =>
        rw [List.length_cons] at bound inside
        have moved : (pool.apply call).rr_.toNat = pool.rr_.toNat + 1 := by
          rw [cursor, UInt64.toNat_add, UInt64.toNat_one]
          exact Nat.mod_eq_of_lt (by omega : pool.rr_.toNat + 1 < UInt64.size)
        rw [moved] at ih
        rw [List.map_cons, List.getElem?_cons_succ, ih (by omega) (by omega)]
        congr 2
        omega

/-- As many selections as there are healthy endpoints return each of them once. -/
theorem selections_perm {pool : PooledTorProxyManager} {calls : List PoolCall}
    (off : pool.opts_.circuitRotateInterval ≤ 0) (undisturbed : pool.AllUndisturbed calls)
    (once : (pool.selections calls).length = pool.healthyEndpoints.length)
    (bound : pool.rr_.toNat + pool.healthyEndpoints.length ≤ UInt64.size) :
    ((pool.selections calls).map TorEndpoint.standing).Perm
      (pool.healthyEndpoints.map TorEndpoint.standing) := by
  by_cases healthy : pool.healthyEndpoints = []
  · rw [healthy, List.length_nil, List.length_eq_zero_iff] at once
    rw [healthy, once]
  · have walk : (pool.selections calls).map TorEndpoint.standing =
        (pool.healthyEndpoints.map TorEndpoint.standing).rotate pool.rr_.toNat := by
      refine List.ext_getElem? fun k => ?_
      by_cases inside : k < (pool.selections calls).length
      · rw [selections_getElem? off healthy undisturbed (once ▸ bound) inside,
          List.getElem?_rotate (by rwa [List.length_map, ← once]), List.length_map]
      · rw [List.getElem?_eq_none (by simpa using inside),
          List.getElem?_eq_none (by simpa [← once] using inside)]
    rw [walk]
    exact List.rotate_perm _ _

/-- Two of three endpoints are healthy and the cursor stands anywhere; a success is reported
between the selections. -/
theorem selections_perm_two :
    let pool : PooledTorProxyManager :=
      { opts_ := {}
        eps_ := [{ port := 9001 }, { port := 9002, healthy := false }, { port := 9003 }]
        rr_ := 7
        lastRotate_ := 0 }
    let url := ascii "http://site.example/"
    ((pool.selections [.selectProxy url 0 0 .down, .reportSuccess (ascii "127.0.0.1") 9003 5,
        .selectProxy url 1 1 .down]).map TorEndpoint.standing).Perm
      (pool.healthyEndpoints.map TorEndpoint.standing) := by
  intro pool url
  exact selections_perm (by decide) (by decide) (by decide) (by decide)

end PooledTorProxyManager

end ShadowSe

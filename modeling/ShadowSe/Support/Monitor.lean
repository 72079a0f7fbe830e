import Mathlib.Algebra.BigOperators.Group.List.Basic
import Mathlib.Algebra.GroupWithZero.Nat
import Mathlib.Data.List.Basic

/-! Threads that serve a queue behind a monitor: each takes the lock, looks, and sleeps on a
condition variable when there is nothing to do. The rules say what one signal for each new
item keeps, whichever sleeper it wakes. -/

namespace ShadowSe.Support

/-- Where a thread that serves the queue stands. -/
inductive Duty (Work : Type) where
  /-- Started, woken or done with its work: it will take the lock and look. -/
  | ready
  /-- Blocked on the condition variable. -/
  | asleep
  | busy (work : Work)
  | gone
  deriving DecidableEq

variable {Work : Type}

def Duty.isReady : Duty Work → Bool
  | .ready => true
  | .asleep | .busy _ | .gone => false

@[simp] theorem Duty.isReady_ready : (Duty.ready : Duty Work).isReady = true := rfl
@[simp] theorem Duty.isReady_asleep : (Duty.asleep : Duty Work).isReady = false := rfl
@[simp] theorem Duty.isReady_busy (work : Work) : (Duty.busy work).isReady = false := rfl

def Duty.isAsleep : Duty Work → Bool
  | .asleep => true
  | .ready | .busy _ | .gone => false

theorem Duty.isAsleep_iff {duty : Duty Work} : duty.isAsleep = true ↔ duty = .asleep := by
  cases duty <;> simp [isAsleep]

section Totals

variable {Member : Type}

/-- A quantity summed over the members of a list. -/
def totalWeight (weight : Member → Nat) (members : List Member) : Nat :=
  (members.map weight).sum

@[simp] theorem totalWeight_nil (weight : Member → Nat) : totalWeight weight [] = 0 := rfl

@[simp] theorem totalWeight_append (weight : Member → Nat) (first second : List Member) :
    totalWeight weight (first ++ second) =
      totalWeight weight first + totalWeight weight second := by
  simp [totalWeight]

@[simp] theorem totalWeight_singleton (weight : Member → Nat) (member : Member) :
    totalWeight weight [member] = weight member := by
  simp [totalWeight]

@[simp] theorem totalWeight_replicate (weight : Member → Nat) (count : Nat) (member : Member) :
    totalWeight weight (List.replicate count member) = count * weight member := by
  simp [totalWeight]

/-- When one member moves, a total changes by what that member counts for. -/
theorem totalWeight_set (weight : Member → Nat) {members : List Member} {index : Nat}
    {before : Member} (current : members[index]? = some before) (after : Member) :
    totalWeight weight (members.set index after) + weight before =
      totalWeight weight members + weight after := by
  induction members generalizing index with
  | nil => simp at current
  | cons first rest ih =>
    cases index with
    | zero =>
      cases Option.some.inj current
      simp [totalWeight]
      omega
    | succ index =>
      have later : rest[index]? = some before := by simpa using current
      have moved := ih later
      simp only [totalWeight, List.set_cons_succ, List.map_cons, List.sum_cons] at moved ⊢
      omega

theorem totalWeight_toNat (p : Member → Bool) (members : List Member) :
    totalWeight (fun member => (p member).toNat) members = members.countP p := by
  induction members with
  | nil => rfl
  | cons first rest ih =>
    simp only [totalWeight, List.map_cons, List.sum_cons, List.countP_cons] at ih ⊢
    rw [ih]
    cases p first <;> simp [Nat.add_comm]

end Totals

/-- The threads about to look. -/
def readyCount (threads : List (Duty Work)) : Nat :=
  totalWeight (fun duty => duty.isReady.toNat) threads

/-- `notify_one`: the scheduler chooses a sleeper; without one the signal is lost. -/
def notifyOne (threads : List (Duty Work)) (chosen : Nat) : Option (List (Duty Work)) :=
  if (threads[chosen]?).any Duty.isAsleep then some (threads.set chosen .ready)
  else if threads.any Duty.isAsleep then none
  else some threads

/-- What `notify_all` does to one thread. -/
def Duty.rouse (duty : Duty Work) : Duty Work :=
  if duty.isAsleep then .ready else duty

/-- `notify_all`. -/
def notifyAll (threads : List (Duty Work)) : List (Duty Work) :=
  threads.map Duty.rouse

/-- A sleeper wakes, or there is none. -/
theorem notifyOne_cases {threads told : List (Duty Work)} {chosen : Nat}
    (signalled : notifyOne threads chosen = some told) :
    (threads[chosen]? = some .asleep ∧ told = threads.set chosen .ready) ∨
      (.asleep ∉ threads ∧ told = threads) := by
  unfold notifyOne at signalled
  split at signalled
  · rename_i sleeping
    obtain ⟨duty, current, sleeps⟩ := (Option.any_eq_true _ _).mp sleeping
    rw [Duty.isAsleep_iff.mp sleeps] at current
    exact .inl ⟨current, (Option.some.inj signalled).symm⟩
  · split at signalled
    · cases signalled
    · rename_i nobody
      refine .inr ⟨fun sleeper => nobody ?_, (Option.some.inj signalled).symm⟩
      exact List.any_eq_true.mpr ⟨.asleep, sleeper, rfl⟩

theorem asleep_notifyAll (threads : List (Duty Work)) : .asleep ∉ notifyAll threads := by
  intro member
  obtain ⟨duty, _, same⟩ := List.mem_map.mp member
  cases duty <;> simp [Duty.rouse, Duty.isAsleep] at same

@[simp] theorem length_notifyAll (threads : List (Duty Work)) :
    (notifyAll threads).length = threads.length := by
  simp [notifyAll]

/-- Waking everybody adds to a total at most what the woken threads count for. -/
theorem totalWeight_notifyAll_le (weight : Duty Work → Nat) (threads : List (Duty Work)) :
    totalWeight weight (notifyAll threads) ≤
      totalWeight weight threads + threads.length * weight .ready := by
  have each (duty : Duty Work) : weight duty.rouse ≤ weight duty + weight .ready := by
    unfold Duty.rouse
    split <;> omega
  induction threads with
  | nil => simp [totalWeight, notifyAll]
  | cons duty rest ih =>
    have first := each duty
    simp only [totalWeight, notifyAll, List.map_cons, List.sum_cons, List.length_cons] at ih ⊢
    rw [Nat.succ_mul]
    omega

/-- While somebody sleeps, every item of the queue has a thread on its way to it. -/
def Served (queued : Nat) (threads : List (Duty Work)) : Prop :=
  .asleep ∈ threads → queued ≤ readyCount threads

namespace Served

variable {queued : Nat} {threads : List (Duty Work)}

theorem awake (nobody : .asleep ∉ threads) : Served queued threads :=
  fun sleeper => absurd sleeper nobody

theorem empty : Served 0 threads :=
  fun _ => Nat.zero_le _

/-- Nobody is on the way and somebody sleeps only over an empty queue. -/
theorem queued_eq_zero (served : Served queued threads) (sleeper : .asleep ∈ threads)
    (idle : .ready ∉ threads) : queued = 0 := by
  have none : readyCount threads = 0 := by
    refine List.sum_eq_zero fun count member => ?_
    obtain ⟨duty, present, rfl⟩ := List.mem_map.mp member
    cases duty with
    | ready => exact absurd present idle
    | asleep => rfl
    | busy work => rfl
    | gone => rfl
  have bound := served sleeper
  omega

private theorem mem_of_set {thread : Nat} {after : Duty Work}
    (member : .asleep ∈ threads.set thread after) (other : after ≠ .asleep) :
    .asleep ∈ threads := by
  rcases List.mem_or_eq_of_mem_set member with kept | same
  · exact kept
  · exact absurd same.symm other

/-- An item is queued with one signal. -/
theorem notifyOne (served : Served queued threads) {chosen : Nat} {told : List (Duty Work)}
    (signalled : Support.notifyOne threads chosen = some told) : Served (queued + 1) told := by
  rcases notifyOne_cases signalled with ⟨sleeping, rfl⟩ | ⟨nobody, rfl⟩
  · intro _
    have bound := served (List.mem_of_getElem? sleeping)
    have moved := totalWeight_set (fun duty : Duty Work => duty.isReady.toNat) sleeping .ready
    simp only [readyCount, Duty.isReady_ready, Duty.isReady_asleep, Bool.toNat_true,
      Bool.toNat_false] at bound moved ⊢
    omega
  · exact awake nobody

/-- A thread on its way takes one item. -/
theorem take (served : Served (queued + 1) threads) {thread : Nat}
    (looking : threads[thread]? = some .ready) (work : Work) :
    Served queued (threads.set thread (.busy work)) := by
  intro member
  have bound := served (mem_of_set member (by simp))
  have moved := totalWeight_set (fun duty : Duty Work => duty.isReady.toNat) looking (.busy work)
  simp only [readyCount, Duty.isReady_ready, Duty.isReady_busy, Bool.toNat_true,
    Bool.toNat_false] at bound moved ⊢
  omega

/-- A thread comes back to look: its work is done, or it woke with or without a signal. -/
theorem ready (served : Served queued threads) {thread : Nat} {before : Duty Work}
    (current : threads[thread]? = some before) :
    Served queued (threads.set thread .ready) := by
  intro member
  have bound := served (mem_of_set member (by simp))
  have moved := totalWeight_set (fun duty : Duty Work => duty.isReady.toNat) current .ready
  have one := Bool.toNat_le before.isReady
  simp only [readyCount, Duty.isReady_ready, Bool.toNat_true] at bound moved ⊢
  omega

theorem spawn (served : Served queued threads) (count : Nat) :
    Served queued (threads ++ List.replicate count .ready) := by
  intro member
  have sleeper : .asleep ∈ threads := by
    rcases List.mem_append.mp member with old | fresh
    · exact old
    · cases List.eq_of_mem_replicate fresh
  have bound := served sleeper
  simp only [readyCount, totalWeight_append] at bound ⊢
  omega

end Served

end ShadowSe.Support

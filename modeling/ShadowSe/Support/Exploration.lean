import Mathlib.Data.Set.Insert
import Mathlib.Logic.Relation
import Mathlib.Order.Bounds.Defs

/-! Exploring a graph from given starts. Nodes that are found wait, at a depth, until they
are opened; the links of an opened node are offered one by one, in any order among those of
other nodes. When no link is dropped that would have led to a lesser depth, the depths do
not depend on the order: they are the least ones. -/

namespace ShadowSe.Support

/-- The nodes that work and are led to from the starts, each link one deeper. -/
inductive Walk {Node : Type} (works : Node → Prop) (leads : Node × Nat → Node → Prop)
    (start : Set (Node × Nat)) : Node × Nat → Prop where
  | start {place : Node × Nat} (member : place ∈ start) (good : works place.1) :
      Walk works leads start place
  | link {place : Node × Nat} {node : Node} (earlier : Walk works leads start place)
      (linked : leads place node) (good : works node) :
      Walk works leads start (node, place.2 + 1)

@[ext]
structure Exploration (Node : Type) where
  seen : Set Node
  /-- Found and not opened. -/
  waiting : Set (Node × Nat)
  opened : Set (Node × Nat)
  /-- The links of opened nodes that are still to be offered. -/
  owed : Set ((Node × Nat) × Node)

namespace Exploration

variable {Node : Type} {works : Node → Prop} {leads : Node × Nat → Node → Prop}
  {start s next : Exploration Node}

/-- The nodes at their depths. -/
def placed (s : Exploration Node) : Set (Node × Nat) :=
  s.waiting ∪ s.opened

/-- A node is seen, and not deeper than this. -/
def Settled (s : Exploration Node) (node : Node) (depth : Nat) : Prop :=
  node ∈ s.seen ∧ ∀ place ∈ s.placed, place.1 = node → place.2 ≤ depth

/-- A node is opened, a node that does not work is dropped, a link finds a new node, or
links are given up whose nodes they cannot bring any higher. -/
inductive Step (works : Node → Prop) (leads : Node × Nat → Node → Prop)
    (s : Exploration Node) : Exploration Node → Prop where
  | opens (place : Node × Nat) (rest : Set (Node × Nat)) (waits : place ∈ s.waiting)
      (good : works place.1) (fewer : rest ⊆ s.waiting)
      (left : ∀ other ∈ s.waiting, other ∈ rest ∨ other = place) :
      Step works leads s { s with
        waiting := rest
        opened := insert place s.opened
        owed := s.owed ∪ {link | link.1 = place ∧ leads place link.2} }
  | drops (rest : Set (Node × Nat)) (fewer : rest ⊆ s.waiting)
      (left : ∀ other ∈ s.waiting, other ∈ rest ∨ ¬ works other.1) :
      Step works leads s { s with waiting := rest }
  | finds (place : Node × Nat) (node : Node) (rest : Set ((Node × Nat) × Node))
      (link : (place, node) ∈ s.owed) (fresh : node ∉ s.seen) (fewer : rest ⊆ s.owed)
      (left : ∀ other ∈ s.owed, other ∈ rest ∨ other = (place, node)) :
      Step works leads s { s with
        seen := insert node s.seen
        waiting := insert (node, place.2 + 1) s.waiting
        owed := rest }
  | settles (rest : Set ((Node × Nat) × Node)) (fewer : rest ⊆ s.owed)
      (left : ∀ link ∈ s.owed, link ∈ rest ∨ s.Settled link.2 (link.1.2 + 1)) :
      Step works leads s { s with owed := rest }

/-- The runs of an exploration. -/
abbrev Run (works : Node → Prop) (leads : Node × Nat → Node → Prop) :
    Exploration Node → Exploration Node → Prop :=
  Relation.ReflTransGen (Step works leads)

/-- Nothing is left to do. -/
def Complete (s : Exploration Node) : Prop :=
  s.waiting = ∅ ∧ s.owed = ∅

/-- What holds of an exploration at every point, from where it started. -/
structure Sound (works : Node → Prop) (leads : Node × Nat → Node → Prop)
    (start s : Exploration Node) : Prop where
  single : ∀ place ∈ s.placed, ∀ other ∈ s.placed, place.1 = other.1 → place = other
  seen : ∀ place ∈ s.placed, place.1 ∈ s.seen
  kept : ∀ node ∈ s.seen, works node → ∃ depth, (node, depth) ∈ s.placed
  good : ∀ place ∈ s.opened, works place.1
  started : start.seen ⊆ s.seen
  placed : ∀ place ∈ start.waiting, works place.1 → place ∈ s.placed
  /-- A node that is no start was led to, from a depth one less. -/
  led : ∀ place ∈ s.placed, place ∈ start.waiting ∨
    ∃ earlier ∈ s.opened, leads earlier place.1 ∧ place.2 = earlier.2 + 1
  found : ∀ node ∈ s.seen, node ∈ start.seen ∨ ∃ earlier ∈ s.opened, leads earlier node
  owed : ∀ link ∈ s.owed, link.1 ∈ s.opened ∧ leads link.1 link.2
  closed : ∀ place ∈ s.opened, ∀ node, leads place node →
    (place, node) ∈ s.owed ∨ s.Settled node (place.2 + 1)

/-- Before the first step the nodes that are seen wait, each at one depth. -/
theorem Sound.begin (opened : s.opened = ∅) (owed : s.owed = ∅)
    (single : ∀ place ∈ s.waiting, ∀ other ∈ s.waiting, place.1 = other.1 → place = other)
    (seen : ∀ node, node ∈ s.seen ↔ ∃ depth, (node, depth) ∈ s.waiting) :
    Sound works leads s s := by
  have placed : s.placed = s.waiting := by simp [Exploration.placed, opened]
  constructor
  · rwa [placed]
  · rw [placed]
    exact fun place waits => (seen place.1).mpr ⟨place.2, waits⟩
  · rw [placed]
    exact fun node member _ => (seen node).mp member
  · simp [opened]
  · exact subset_rfl
  · rw [placed]
    exact fun place waits _ => waits
  · rw [placed]
    exact fun place waits => .inl waits
  · exact fun node member => .inl member
  · simp [owed]
  · simp [opened]

theorem Settled.mono {node : Node} {depth : Nat} (settled : s.Settled node depth)
    (seen : s.seen ⊆ next.seen) (placed : next.placed ⊆ s.placed) : next.Settled node depth :=
  ⟨seen settled.1, fun place member same => settled.2 place (placed member) same⟩

theorem placed_opens {place : Node × Nat} {rest : Set (Node × Nat)} (waits : place ∈ s.waiting)
    (fewer : rest ⊆ s.waiting) (left : ∀ other ∈ s.waiting, other ∈ rest ∨ other = place) :
    rest ∪ insert place s.opened = s.placed := by
  ext other
  constructor
  · rintro (waiting | rfl | opened)
    · exact .inl (fewer waiting)
    · exact .inl waits
    · exact .inr opened
  · rintro (waiting | opened)
    · exact (left other waiting).imp_right .inl
    · exact .inr (.inr opened)

theorem Sound.opens (sound : Sound works leads start s) {place : Node × Nat}
    {rest : Set (Node × Nat)} (waits : place ∈ s.waiting) (good : works place.1)
    (fewer : rest ⊆ s.waiting) (left : ∀ other ∈ s.waiting, other ∈ rest ∨ other = place) :
    Sound works leads start { s with
      waiting := rest
      opened := insert place s.opened
      owed := s.owed ∪ {link | link.1 = place ∧ leads place link.2} } := by
  have less := (placed_opens waits fewer left).subset
  have more := (placed_opens waits fewer left).superset
  constructor
  · exact fun place member other second => sound.single place (less member) other (less second)
  · exact fun place member => sound.seen place (less member)
  · intro node member good
    obtain ⟨depth, present⟩ := sound.kept node member good
    exact ⟨depth, more present⟩
  · rintro other (rfl | opened)
    · exact good
    · exact sound.good other opened
  · exact sound.started
  · exact fun place member good => more (sound.placed place member good)
  · intro other member
    refine (sound.led other (less member)).imp_right ?_
    rintro ⟨earlier, opened, linked⟩
    exact ⟨earlier, .inr opened, linked⟩
  · intro node member
    refine (sound.found node member).imp_right ?_
    rintro ⟨earlier, opened, linked⟩
    exact ⟨earlier, .inr opened, linked⟩
  · rintro link (old | ⟨rfl, linked⟩)
    · exact ⟨.inr (sound.owed link old).1, (sound.owed link old).2⟩
    · exact ⟨.inl rfl, linked⟩
  · rintro other (rfl | opened) node linked
    · exact .inl (.inr ⟨rfl, linked⟩)
    · exact (sound.closed other opened node linked).imp .inl fun settled =>
        settled.mono subset_rfl less

theorem Sound.drops (sound : Sound works leads start s) {rest : Set (Node × Nat)}
    (fewer : rest ⊆ s.waiting) (left : ∀ other ∈ s.waiting, other ∈ rest ∨ ¬ works other.1) :
    Sound works leads start { s with waiting := rest } := by
  have less : rest ∪ s.opened ⊆ s.placed := Set.union_subset_union_left _ fewer
  have working (place : Node × Nat) (member : place ∈ s.placed) (good : works place.1) :
      place ∈ rest ∪ s.opened :=
    member.imp_left fun waiting => (left place waiting).resolve_right (not_not_intro good)
  constructor
  · exact fun place member other second => sound.single place (less member) other (less second)
  · exact fun place member => sound.seen place (less member)
  · intro node member good
    obtain ⟨depth, present⟩ := sound.kept node member good
    exact ⟨depth, working _ present good⟩
  · exact sound.good
  · exact sound.started
  · exact fun place member good => working place (sound.placed place member good) good
  · exact fun place member => sound.led place (less member)
  · exact sound.found
  · exact sound.owed
  · exact fun place opened node linked => (sound.closed place opened node linked).imp_right
      fun settled => settled.mono subset_rfl less

/-- The new node is placed one below the node that leads to it. -/
theorem Sound.finds (sound : Sound works leads start s) {place : Node × Nat} {node : Node}
    {rest : Set ((Node × Nat) × Node)} (link : (place, node) ∈ s.owed) (fresh : node ∉ s.seen)
    (fewer : rest ⊆ s.owed) (left : ∀ other ∈ s.owed, other ∈ rest ∨ other = (place, node)) :
    Sound works leads start { s with
      seen := insert node s.seen
      waiting := insert (node, place.2 + 1) s.waiting
      owed := rest } := by
  obtain ⟨opened, linked⟩ := sound.owed _ link
  have placed (other : Node × Nat)
      (member : other ∈ insert (node, place.2 + 1) s.waiting ∪ s.opened) :
      other = (node, place.2 + 1) ∨ other ∈ s.placed := or_assoc.mp member
  -- The new node is at no depth yet.
  have absent (other : Node × Nat) (member : other ∈ s.placed) : other.1 ≠ node := by
    rintro rfl
    exact fresh (sound.seen other member)
  have settled_kept {other : Node} {depth : Nat} (settled : s.Settled other depth) :
      Settled { s with
        seen := insert node s.seen
        waiting := insert (node, place.2 + 1) s.waiting
        owed := rest } other depth := by
    refine ⟨.inr settled.1, fun found member same => ?_⟩
    rcases placed _ member with rfl | old
    · cases same
      exact absurd settled.1 fresh
    · exact settled.2 found old same
  constructor
  · rintro first member second other same
    rcases placed _ member with rfl | old
    · rcases placed _ other with rfl | older
      · rfl
      · exact absurd same.symm (absent second older)
    · rcases placed _ other with rfl | older
      · exact absurd same (absent first old)
      · exact sound.single first old second older same
  · intro other member
    rcases placed _ member with rfl | old
    · exact .inl rfl
    · exact .inr (sound.seen other old)
  · rintro other (rfl | old) good
    · exact ⟨place.2 + 1, .inl (.inl rfl)⟩
    · obtain ⟨depth, present⟩ := sound.kept other old good
      exact ⟨depth, present.imp_left .inr⟩
  · exact sound.good
  · exact sound.started.trans (Set.subset_insert _ _)
  · exact fun other member good => (sound.placed other member good).imp_left .inr
  · intro other member
    rcases placed _ member with rfl | old
    · exact .inr ⟨place, opened, linked, rfl⟩
    · exact sound.led other old
  · rintro other (rfl | old)
    · exact .inr ⟨place, opened, linked⟩
    · exact sound.found other old
  · exact fun other member => sound.owed other (fewer member)
  · intro other member target leads
    rcases sound.closed other member target leads with owed | settled
    · rcases left _ owed with still | same
      · exact .inl still
      · -- The link that found the new node.
        cases same
        refine .inr ⟨.inl rfl, fun found member same => ?_⟩
        rcases placed _ member with rfl | old
        · exact le_rfl
        · exact absurd same (absent found old)
    · exact .inr (settled_kept settled)

theorem Sound.settles (sound : Sound works leads start s) {rest : Set ((Node × Nat) × Node)}
    (fewer : rest ⊆ s.owed)
    (left : ∀ link ∈ s.owed, link ∈ rest ∨ s.Settled link.2 (link.1.2 + 1)) :
    Sound works leads start { s with owed := rest } := by
  refine ⟨sound.single, sound.seen, sound.kept, sound.good, sound.started, sound.placed,
    sound.led, sound.found, fun link member => sound.owed link (fewer member), ?_⟩
  intro place opened node linked
  rcases sound.closed place opened node linked with owed | settled
  · exact left _ owed
  · exact .inr settled

theorem Sound.step (sound : Sound works leads start s) (stepped : Step works leads s next) :
    Sound works leads start next := by
  cases stepped with
  | opens place rest waits good fewer left => exact sound.opens waits good fewer left
  | drops rest fewer left => exact sound.drops fewer left
  | finds place node rest link fresh fewer left => exact sound.finds link fresh fewer left
  | settles rest fewer left => exact sound.settles fewer left

theorem Sound.run (sound : Sound works leads start s) (ran : Run works leads s next) :
    Sound works leads start next := by
  induction ran with
  | refl => exact sound
  | tail _ stepped ih => exact ih.step stepped

theorem Sound.walk (sound : Sound works leads start s) {node : Node} {depth : Nat}
    (opened : (node, depth) ∈ s.opened) : Walk works leads start.waiting (node, depth) := by
  induction depth generalizing node with
  | zero =>
    rcases sound.led _ (.inr opened) with member | ⟨_, _, _, deeper⟩
    · exact .start member (sound.good _ opened)
    · cases deeper
  | succ depth ih =>
    rcases sound.led _ (.inr opened) with member | ⟨⟨before, above⟩, earlier, linked, deeper⟩
    · exact .start member (sound.good _ opened)
    · cases Nat.succ.inj deeper
      exact .link (ih earlier) linked (sound.good _ opened)

/-- When a link that is followed from some depth is followed from every lesser one, what is
walked to is opened no deeper. -/
theorem Sound.opened_of_walk (sound : Sound works leads start s) (complete : s.Complete)
    (shallower : ∀ node depth less target, leads (node, depth) target → less ≤ depth →
      leads (node, less) target)
    {place : Node × Nat} (walk : Walk works leads start.waiting place) :
    ∃ depth ≤ place.2, (place.1, depth) ∈ s.opened := by
  have open_ {other : Node × Nat} (member : other ∈ s.placed) : other ∈ s.opened := by
    rcases member with waiting | opened
    · rw [complete.1] at waiting
      exact waiting.elim
    · exact opened
  induction walk with
  | @start place member good => exact ⟨place.2, le_rfl, open_ (sound.placed place member good)⟩
  | @link place node _ linked good ih =>
    obtain ⟨depth, less, opened⟩ := ih
    rcases sound.closed _ opened node (shallower _ _ _ _ linked less) with owed | settled
    · rw [complete.2] at owed
      exact owed.elim
    · obtain ⟨found, present⟩ := sound.kept node settled.1 good
      exact ⟨found, (settled.2 _ present rfl).trans (Nat.succ_le_succ less), open_ present⟩

/-- At the end the opened nodes are those that can be walked to, at their least depths. -/
theorem Sound.opened_iff_isLeast (sound : Sound works leads start s) (complete : s.Complete)
    (shallower : ∀ node depth less target, leads (node, depth) target → less ≤ depth →
      leads (node, less) target) (node : Node) (depth : Nat) :
    (node, depth) ∈ s.opened ↔ IsLeast {n | Walk works leads start.waiting (node, n)} depth := by
  constructor
  · intro opened
    refine ⟨sound.walk opened, fun other walk => ?_⟩
    obtain ⟨found, less, present⟩ := sound.opened_of_walk complete shallower walk
    cases sound.single _ (.inr opened) _ (.inr present) rfl
    exact less
  · rintro ⟨walk, least⟩
    obtain ⟨found, less, present⟩ := sound.opened_of_walk complete shallower walk
    have same : found = depth := le_antisymm less (least (sound.walk present))
    exact same ▸ present

/-- Two explorations that ran to the end from the same start agree. -/
theorem Sound.agree {other : Exploration Node} (sound : Sound works leads start s)
    (complete : s.Complete) (second : Sound works leads start other) (ended : other.Complete)
    (shallower : ∀ node depth less target, leads (node, depth) target → less ≤ depth →
      leads (node, less) target) : s.opened = other.opened ∧ s.seen = other.seen := by
  have opened : s.opened = other.opened := by
    ext ⟨node, depth⟩
    rw [sound.opened_iff_isLeast complete shallower, second.opened_iff_isLeast ended shallower]
  have seen {left right : Exploration Node} (first : Sound works leads start left)
      (last : Sound works leads start right) (ended : right.Complete)
      (same : left.opened = right.opened) : left.seen ⊆ right.seen := by
    intro node member
    rcases first.found node member with begun | ⟨earlier, found, linked⟩
    · exact last.started begun
    · rcases last.closed earlier (same ▸ found) node linked with owed | settled
      · rw [ended.2] at owed
        exact owed.elim
      · exact settled.1
  exact ⟨opened, (seen sound second ended opened).antisymm (seen second sound complete opened.symm)⟩

end Exploration

end ShadowSe.Support

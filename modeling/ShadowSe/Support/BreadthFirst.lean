import Mathlib.Data.List.Basic
import Mathlib.Logic.Relation

/-! Breadth-first search by one searcher, who takes the links of a page in turn, gives the
page up at the first link that was found before or has no room, and finds no more pages than
there is room for. A traversal does the same page by page and link by link. -/

namespace ShadowSe.Support

variable {Page : Type} [DecidableEq Page]

/-- The links that are taken, given the pages found before. -/
def takeLinks (capacity : Nat) : List Page → List Page → List Page
  | _, [] => []
  | found, link :: rest =>
    if found.length < capacity ∧ link ∉ found then
      link :: takeLinks capacity (found ++ [link]) rest
    else []

/-- The pages opened and those that wait, in their order, until nothing waits. -/
def search (links : Page × Nat → List Page) (capacity : Nat) :
    Nat → List (Page × Nat) → List (Page × Nat) → List (Page × Nat)
  | 0, opened, _ => opened
  | _ + 1, opened, [] => opened
  | fuel + 1, opened, place :: waiting =>
    let taken := takeLinks capacity ((opened ++ [place] ++ waiting).map (·.1)) (links place)
    search links capacity fuel (opened ++ [place])
      (waiting ++ taken.map fun link => (link, place.2 + 1))

/-- The pages in the order in which they are opened, each with its depth. -/
def breadthFirst (links : Page × Nat → List Page) (capacity : Nat) (start : List (Page × Nat)) :
    List (Page × Nat) :=
  search links capacity capacity [] start

variable {links : Page × Nat → List Page} {capacity : Nat}

theorem search_nil (fuel : Nat) (opened : List (Page × Nat)) :
    search links capacity fuel opened [] = opened := by
  cases fuel <;> rfl

theorem search_prefix (fuel : Nat) (opened waiting : List (Page × Nat)) :
    opened <+: search links capacity fuel opened waiting := by
  induction fuel generalizing opened waiting with
  | zero => exact List.prefix_refl _
  | succ fuel ih =>
    cases waiting with
    | nil => exact List.prefix_refl _
    | cons place waiting => exact (List.prefix_append _ _).trans (ih _ _)

/-- The depths do not decrease, and what waits is one level deep, or one deeper. -/
structure Levels (opened waiting : List (Page × Nat)) (level : Nat) : Prop where
  past : opened.Pairwise (·.2 ≤ ·.2)
  ahead : waiting.Pairwise (·.2 ≤ ·.2)
  reached : ∀ place ∈ opened, place.2 ≤ level
  near : ∀ place ∈ waiting, level ≤ place.2 ∧ place.2 ≤ level + 1

omit [DecidableEq Page] in
theorem Levels.open {opened waiting : List (Page × Nat)} {place : Page × Nat} {level : Nat}
    (held : Levels opened (place :: waiting) level) :
    Levels (opened ++ [place]) waiting place.2 := by
  obtain ⟨first, later⟩ := List.pairwise_cons.mp held.ahead
  have here := held.near place List.mem_cons_self
  refine ⟨?_, later, fun other member => ?_, fun other member => ?_⟩
  · refine List.pairwise_append.mpr ⟨held.past, List.pairwise_singleton _ _, ?_⟩
    intro other member last same
    cases List.mem_singleton.mp same
    exact Nat.le_trans (held.reached other member) here.1
  · rcases List.mem_append.mp member with old | new
    · exact Nat.le_trans (held.reached other old) here.1
    · cases List.mem_singleton.mp new
      exact Nat.le_refl _
  · have there := held.near other (List.mem_cons_of_mem _ member)
    exact ⟨first other member, Nat.le_trans there.2 (Nat.succ_le_succ here.1)⟩

omit [DecidableEq Page] in
theorem Levels.append {opened waiting more : List (Page × Nat)} {level : Nat}
    (held : Levels opened waiting level) (deeper : ∀ place ∈ more, place.2 = level + 1) :
    Levels opened (waiting ++ more) level := by
  refine ⟨held.past, ?_, held.reached, fun place member => ?_⟩
  · refine List.pairwise_append.mpr ⟨held.ahead, ?_, ?_⟩
    · exact List.pairwise_of_forall_mem_list fun place first other second =>
        Nat.le_of_eq ((deeper place first).trans (deeper other second).symm)
    · intro place first other second
      rw [deeper other second]
      exact (held.near place first).2
  · rcases List.mem_append.mp member with old | new
    · exact held.near place old
    · rw [deeper place new]
      exact ⟨Nat.le_succ level, Nat.le_refl _⟩

theorem search_levels (fuel : Nat) {opened waiting : List (Page × Nat)} {level : Nat}
    (held : Levels opened waiting level) :
    (search links capacity fuel opened waiting).Pairwise (·.2 ≤ ·.2) := by
  induction fuel generalizing opened waiting level with
  | zero => exact held.past
  | succ fuel ih =>
    cases waiting with
    | nil => exact held.past
    | cons place waiting =>
      refine ih (held.open.append ?_)
      intro other member
      obtain ⟨link, _, rfl⟩ := List.mem_map.mp member
      rfl

/-- What the searcher is doing. -/
inductive Turn (Page : Type) where
  | idle
  /-- At a page, before it is opened. -/
  | before (place : Page × Nat)
  /-- At an opened page, with links still to take. -/
  | during (place : Page × Nat) (owed : List Page)

structure Traversal (Page : Type) where
  opened : List (Page × Nat) := []
  turn : Turn Page := .idle
  waiting : List (Page × Nat)

namespace Traversal

variable {t next start : Traversal Page}

/-- The pages found so far in the order in which they were found. -/
def found (t : Traversal Page) : List Page :=
  match t.turn with
  | .before place => (t.opened ++ [place] ++ t.waiting).map (·.1)
  | .idle | .during .. => (t.opened ++ t.waiting).map (·.1)

/-- The next page is taken up, opened, its links are taken in turn or given up, and the page
is left. -/
inductive Step (links : Page × Nat → List Page) (capacity : Nat) (t : Traversal Page) :
    Traversal Page → Prop where
  | goes {place : Page × Nat} {rest : List (Page × Nat)} (idle : t.turn = .idle)
      (first : t.waiting = place :: rest) :
      Step links capacity t { t with turn := .before place, waiting := rest }
  | opens {place : Page × Nat} (here : t.turn = .before place) :
      Step links capacity t { t with
        opened := t.opened ++ [place]
        turn := .during place (links place) }
  | takes {place : Page × Nat} {link : Page} {owed : List Page}
      (here : t.turn = .during place (link :: owed)) (room : t.found.length < capacity)
      (fresh : link ∉ t.found) :
      Step links capacity t { t with
        turn := .during place owed
        waiting := t.waiting ++ [(link, place.2 + 1)] }
  | refuses {place : Page × Nat} {link : Page} {owed : List Page}
      (here : t.turn = .during place (link :: owed))
      (refused : ¬ (t.found.length < capacity ∧ link ∉ t.found)) :
      Step links capacity t { t with turn := .during place [] }
  | leaves {place : Page × Nat} (here : t.turn = .during place []) :
      Step links capacity t { t with turn := .idle }

/-- What the search makes of a traversal from here on. -/
def outcome (links : Page × Nat → List Page) (capacity : Nat) (t : Traversal Page) :
    List (Page × Nat) :=
  let fuel := capacity - t.opened.length
  match t.turn with
  | .idle => search links capacity fuel t.opened t.waiting
  | .before place => search links capacity fuel t.opened (place :: t.waiting)
  | .during place owed =>
    search links capacity fuel t.opened
      (t.waiting ++ (takeLinks capacity t.found owed).map fun link => (link, place.2 + 1))

/-- What waits lies at the level of the page that the searcher is at, or one deeper. -/
def Leveled (t : Traversal Page) : Prop :=
  match t.turn with
  | .idle => ∃ level, Levels t.opened t.waiting level
  | .before place => ∃ level, Levels t.opened (place :: t.waiting) level
  | .during place _ => Levels t.opened t.waiting place.2

/-- There was room for what was found, its depths are in order, and the search comes to
`order`. -/
structure Orderly (links : Page × Nat → List Page) (capacity : Nat) (order : List (Page × Nat))
    (t : Traversal Page) : Prop where
  room : t.found.length ≤ capacity
  leveled : t.Leveled
  outcome : t.outcome links capacity = order

theorem Orderly.step {order : List (Page × Nat)} (held : Orderly links capacity order t)
    (moves : Step links capacity t next) : Orderly links capacity order next := by
  obtain ⟨room, leveled, outcome⟩ := held
  obtain ⟨opened, turn, waiting⟩ := t
  cases moves with
  | goes idle first =>
    cases idle
    cases first
    refine ⟨?_, leveled, outcome⟩
    simp only [found, List.map_append, List.length_append, List.length_map, List.length_cons,
      List.length_nil] at room ⊢
    omega
  | @opens place here =>
    cases here
    simp only [found, List.length_map, List.length_append, List.length_singleton] at room
    obtain ⟨level, levels⟩ := leveled
    refine ⟨?_, levels.open, .trans ?_ outcome⟩
    · simpa only [found, List.length_map, List.length_append, List.length_singleton] using room
    have fuel : capacity - opened.length = capacity - (opened ++ [place]).length + 1 := by
      simp only [List.length_append, List.length_singleton]
      omega
    simp only [Traversal.outcome, fuel, search, found]
  | @takes place link owed here spare fresh =>
    cases here
    have grown : (opened ++ (waiting ++ [(link, place.2 + 1)])).map (·.1) =
        (opened ++ waiting).map (·.1) ++ [link] := by simp
    refine ⟨?_, leveled.append (by simp), .trans ?_ outcome⟩
    · simp only [found, grown, List.length_append, List.length_singleton]
      exact spare
    · simp only [Traversal.outcome, found] at spare fresh ⊢
      rw [grown, takeLinks, if_pos ⟨spare, fresh⟩, List.map_cons, List.append_assoc,
        List.singleton_append]
  | @refuses place link owed here refused =>
    cases here
    refine ⟨room, leveled, .trans ?_ outcome⟩
    simp only [Traversal.outcome, found] at refused ⊢
    rw [takeLinks, takeLinks, if_neg refused]
  | @leaves place here =>
    cases here
    refine ⟨room, ⟨place.2, leveled⟩, .trans ?_ outcome⟩
    simp [Traversal.outcome, takeLinks]

theorem Orderly.run {order : List (Page × Nat)} (held : Orderly links capacity order start)
    (moves : Relation.ReflTransGen (Step links capacity) start t) :
    Orderly links capacity order t := by
  induction moves with
  | refl => exact held
  | tail _ move held => exact held.step move

theorem orderly_start (links : Page × Nat → List Page) {starts : List Page}
    (room : starts.length ≤ capacity) :
    Orderly links capacity (breadthFirst links capacity (starts.map fun page => (page, 0)))
      { waiting := starts.map fun page => (page, 0) } := by
  refine ⟨by simpa [found] using room, ⟨0, .nil, ?_, by simp, ?_⟩, by simp [outcome, breadthFirst]⟩
  · exact List.pairwise_map.mpr (List.pairwise_of_forall fun _ _ => Nat.le_refl _)
  · intro place member
    obtain ⟨page, _, rfl⟩ := List.mem_map.mp member
    exact ⟨Nat.le_refl _, Nat.zero_le _⟩

theorem Orderly.opened_prefix {order : List (Page × Nat)}
    (held : Orderly links capacity order t) : t.opened <+: order := by
  rw [← held.outcome, Traversal.outcome]
  cases t.turn <;> exact search_prefix _ _ _

theorem Orderly.opened_eq {order : List (Page × Nat)} (held : Orderly links capacity order t)
    (idle : t.turn = .idle) (empty : t.waiting = []) : t.opened = order := by
  rw [← held.outcome, Traversal.outcome, idle, empty]
  exact (search_nil _ _).symm

end Traversal

end ShadowSe.Support

import Mathlib.Data.List.AList
import Mathlib.Algebra.BigOperators.Group.List.Basic
import Mathlib.Algebra.GroupWithZero.Nat

/-! Finite tables: at most one value a key, and entries whose order carries no
meaning. A traversal of a table is any rearrangement of its entries. -/

namespace ShadowSe.Support

/-- A finite partial map from keys to values. -/
abbrev Table (Key Value : Type) := AList (fun _ : Key => Value)

/-- The order in which a traversal meets the elements of an unordered container:
an arbitrary rearrangement. -/
structure VisitOrder where
  visit : {α : Type} → List α → List α
  perm : ∀ {α : Type} (items : List α), (visit items).Perm items

/-- The traversal that keeps the stored order. -/
def VisitOrder.stored : VisitOrder := ⟨id, fun _ => .refl _⟩

/-- The traversal that meets the last stored element first. -/
def VisitOrder.reversed : VisitOrder := ⟨List.reverse, fun items => items.reverse_perm⟩

theorem VisitOrder.mem_visit (order : VisitOrder) {α : Type} {items : List α} {item : α} :
    item ∈ order.visit items ↔ item ∈ items :=
  (order.perm items).mem_iff

namespace Table

variable {Key Value : Type} [DecidableEq Key]

@[simp] theorem lookup_empty (key : Key) : (∅ : Table Key Value).lookup key = none := by
  rw [AList.lookup_eq_none]
  exact AList.notMem_empty key

theorem lookup_insert_ite (table : Table Key Value) (key query : Key) (value : Value) :
    (table.insert key value).lookup query =
      if query = key then some value else table.lookup query := by
  by_cases same : query = key
  · subst query
    simp
  · simp [same]

theorem lookup_erase_ite (table : Table Key Value) (key query : Key) :
    (table.erase key).lookup query = if query = key then none else table.lookup query := by
  by_cases same : query = key
  · subst query
    simp
  · simp [same]

/-- Some value of a table satisfies a condition: that of one key, or that of another key. -/
theorem exists_value_iff (table : Table Key Value) (key : Key) (p : Value → Prop) :
    (∃ k value, table.lookup k = some value ∧ p value) ↔
      (∃ value, table.lookup key = some value ∧ p value) ∨
        ∃ k value, k ≠ key ∧ table.lookup k = some value ∧ p value := by
  constructor
  · rintro ⟨k, value, found, holds⟩
    by_cases same : k = key
    · exact .inl ⟨value, same ▸ found, holds⟩
    · exact .inr ⟨k, value, same, found, holds⟩
  · rintro (⟨value, found, holds⟩ | ⟨k, value, _, found, holds⟩)
    · exact ⟨key, value, found, holds⟩
    · exact ⟨k, value, found, holds⟩

theorem exists_value_insert (table : Table Key Value) (key : Key) (value : Value)
    (p : Value → Prop) : (∃ k v, (table.insert key value).lookup k = some v ∧ p v) ↔
      p value ∨ ∃ k v, k ≠ key ∧ table.lookup k = some v ∧ p v := by
  rw [exists_value_iff _ key, lookup_insert_ite, if_pos rfl]
  refine or_congr (by simp) (exists₂_congr fun k v => and_congr_right fun differs => ?_)
  rw [lookup_insert_ite, if_neg differs]

theorem exists_value_erase (table : Table Key Value) (key : Key) (p : Value → Prop) :
    (∃ k v, (table.erase key).lookup k = some v ∧ p v) ↔
      ∃ k v, k ≠ key ∧ table.lookup k = some v ∧ p v := by
  rw [exists_value_iff _ key, lookup_erase_ite, if_pos rfl]
  refine (or_iff_right (by simp)).trans
    (exists₂_congr fun k v => and_congr_right fun differs => ?_)
  rw [lookup_erase_ite, if_neg differs]

theorem mem_entries_iff {table : Table Key Value} {key : Key} {value : Value} :
    (⟨key, value⟩ : Sigma fun _ : Key => Value) ∈ table.entries ↔
      table.lookup key = some value :=
  AList.mem_lookup_iff.symm

/-- The values of a table, one for each key. -/
def values (table : Table Key Value) : List Value :=
  table.entries.map (·.2)

theorem mem_values_iff {table : Table Key Value} {value : Value} :
    value ∈ values table ↔ ∃ key, table.lookup key = some value := by
  constructor
  · intro member
    obtain ⟨entry, present, same⟩ := List.mem_map.mp member
    subst same
    exact ⟨entry.1, mem_entries_iff.mp present⟩
  · intro ⟨key, found⟩
    exact List.mem_map.mpr ⟨⟨key, value⟩, mem_entries_iff.mpr found, rfl⟩

omit [DecidableEq Key] in
theorem length_values (table : Table Key Value) :
    (values table).length = table.entries.length :=
  List.length_map _

theorem values_insert_fresh (table : Table Key Value) (key : Key) (value : Value)
    (fresh : table.lookup key = none) : values (table.insert key value) = value :: values table := by
  have absent : key ∉ table.entries.keys := AList.lookup_eq_none.mp fresh
  simp [values, AList.entries_insert, List.kerase_of_notMem_keys absent]

/-- The sum of all values of a table of numbers. -/
def total (table : Table Key Nat) : Nat :=
  (values table).sum

omit [DecidableEq Key] in
@[simp] theorem total_empty : total (∅ : Table Key Nat) = 0 := rfl

theorem total_insert_fresh (table : Table Key Nat) (key : Key) (value : Nat)
    (fresh : table.lookup key = none) :
    total (table.insert key value) = value + total table := by
  simp [total, values_insert_fresh table key value fresh]

/-- Taking an entry out takes its value out of the sum. -/
theorem total_erase (table : Table Key Nat) (key : Key) :
    total (table.erase key) + (table.lookup key).getD 0 = total table := by
  cases found : table.lookup key with
  | none =>
    have absent : key ∉ table.entries.keys := AList.lookup_eq_none.mp found
    have kept : (table.erase key).entries = table.entries := List.kerase_of_notMem_keys absent
    simp [total, values, kept]
  | some value =>
    have present : key ∈ table.entries.keys := by
      have member : key ∈ table := AList.lookup_isSome.mp (by simp [found])
      exact member
    obtain ⟨held, before, after, _, split, rest⟩ := List.exists_of_kerase present
    have same : held = value := by
      have entry : (⟨key, held⟩ : Sigma fun _ : Key => Nat) ∈ table.entries := by
        rw [split]
        simp
      exact Option.some.inj ((mem_entries_iff.mp entry).symm.trans found)
    subst held
    have erased : (table.erase key).entries = before ++ after := rest
    simp only [total, values, erased, split, List.map_append, List.map_cons,
      List.sum_append, List.sum_cons, Option.getD_some]
    omega

/-- Summing over the keys of another table with the same domain. -/
theorem total_eq_sum_over {Other : Type} (table : Table Key Nat) (domain : Table Key Other)
    (same : ∀ key, table.lookup key = none ↔ domain.lookup key = none) :
    total table = (domain.entries.map fun e => (table.lookup e.1).getD 0).sum := by
  have reordered : table.entries.Perm
      (domain.entries.map fun e => (⟨e.1, (table.lookup e.1).getD 0⟩ : Sigma fun _ : Key => Nat)) := by
    have distinct : (domain.entries.map fun e =>
        (⟨e.1, (table.lookup e.1).getD 0⟩ : Sigma fun _ : Key => Nat)).Nodup := by
      apply List.Nodup.of_map Sigma.fst
      rw [List.map_map]
      exact domain.nodupKeys
    refine (List.perm_ext_iff_of_nodup table.nodupKeys.nodup distinct).mpr fun entry => ?_
    obtain ⟨key, value⟩ := entry
    rw [mem_entries_iff, List.mem_map]
    constructor
    · intro found
      cases held : domain.lookup key with
      | none => rw [(same key).mpr held] at found; cases found
      | some other => exact ⟨⟨key, other⟩, mem_entries_iff.mpr held, by simp [found]⟩
    · rintro ⟨entry, present, pair⟩
      cases pair
      have held : domain.lookup entry.1 = some entry.2 := mem_entries_iff.mp present
      cases found : table.lookup entry.1 with
      | none => rw [(same entry.1).mp found] at held; cases held
      | some value => simp
  rw [total, values, (reordered.map _).sum_eq, List.map_map]
  rfl

/-- The entries a traversal meets. -/
abbrev Entries (Key Value : Type) := List (Sigma fun _ : Key => Value)

/-- The value that a list of entries holds for a key. -/
def find (entries : Entries Key Value) (key : Key) : Option Value :=
  entries.dlookup key

@[simp] theorem find_nil (key : Key) : find ([] : Entries Key Value) key = none := rfl

theorem find_cons (key query : Key) (value : Value) (rest : Entries Key Value) :
    find (⟨key, value⟩ :: rest) query = if query = key then some value else find rest query := by
  by_cases same : query = key
  · subst query
    simp [find]
  · simp [find, same, List.dlookup_cons_ne _ (⟨key, value⟩ : Sigma fun _ : Key => Value) same]

theorem find_eq_none_iff {entries : Entries Key Value} {key : Key} :
    find entries key = none ↔ key ∉ entries.keys :=
  List.dlookup_eq_none

omit [DecidableEq Key] in
theorem nodupKeys_visit (order : VisitOrder) (table : Table Key Value) :
    (order.visit table.entries).NodupKeys :=
  (List.perm_nodupKeys (order.perm _)).mpr table.nodupKeys

/-- A traversal meets each key once, with the value stored for it. -/
theorem find_visit (order : VisitOrder) (table : Table Key Value) (key : Key) :
    find (order.visit table.entries) key = table.lookup key :=
  List.perm_dlookup key (nodupKeys_visit order table) (order.perm _)

omit [DecidableEq Key] in
/-- Results computed from entries, each labelled with the key of its entry, carry no
label twice. -/
theorem nodup_filterMap_labels {Result : Type} {entries : Entries Key Value}
    (distinct : entries.NodupKeys) {f : (Sigma fun _ : Key => Value) → Option Result}
    {label : Result → Key}
    (labelled : ∀ entry ∈ entries, ∀ result, f entry = some result → label result = entry.1) :
    ((entries.filterMap f).map label).Nodup := by
  have sublist : ((entries.filterMap f).map label).Sublist entries.keys := by
    clear distinct
    induction entries with
    | nil => exact .slnil
    | cons entry rest ih =>
      have later := ih fun other member => labelled other (List.mem_cons_of_mem _ member)
      cases computed : f entry with
      | none =>
        rw [List.filterMap_cons_none computed]
        exact later.cons _
      | some result =>
        rw [List.filterMap_cons_some computed, List.map_cons,
          labelled entry (by simp) result computed]
        exact later.cons_cons _
  exact List.Nodup.sublist sublist distinct

end Table

end ShadowSe.Support

import Mathlib.Data.List.Destutter
import Mathlib.Data.List.Sort

namespace ShadowSe.Support

section Ranking

variable {Item : Type} (before : Item → Item → Prop) [DecidableRel before]

/-- Sort so that no item is preceded by one that the comparator puts after it. -/
def rankBy (items : List Item) : List Item :=
  items.insertionSort fun a b => ¬ before b a

theorem rankBy_perm (items : List Item) : (rankBy before items).Perm items :=
  List.perm_insertionSort _ items

/-- A comparator whose incomparability is transitive. -/
structure StrictWeak (before : Item → Item → Prop) : Prop where
  asymm : ∀ a b, before a b → ¬ before b a
  gap : ∀ a b c, before a c → before a b ∨ before b c

variable {before}

theorem rankBy_pairwise (strict : StrictWeak before) (items : List Item) :
    (rankBy before items).Pairwise fun a b => ¬ before b a := by
  have total : Std.Total fun a b : Item => ¬ before b a :=
    ⟨fun a b => by
      by_cases first : before b a
      · exact .inr (strict.asymm b a first)
      · exact .inl first⟩
  have transitive : IsTrans Item fun a b => ¬ before b a :=
    ⟨fun a b c first second third => (strict.gap c b a third).elim second first⟩
  exact List.pairwise_insertionSort _ items

/-- A ranking is determined by its items when the comparator separates them. -/
theorem rankBy_eq_of_pairwise (strict : StrictWeak before) {items ranked : List Item}
    (perm : ranked.Perm items) (sorted : ranked.Pairwise fun a b => ¬ before b a)
    (separated : ∀ a ∈ items, ∀ b ∈ items, ¬ before a b → ¬ before b a → a = b) :
    rankBy before items = ranked := by
  have ours := rankBy_perm before items
  refine List.Perm.eq_of_pairwise ?_ (rankBy_pairwise strict items) sorted (ours.trans perm.symm)
  intro a b inOurs inRanked first second
  exact separated a (ours.mem_iff.mp inOurs) b (perm.mem_iff.mp inRanked) second first

end Ranking

section Lists

variable {Item Label : Type}

theorem pairwise_or {R : Item → Item → Prop} {items : List Item} (ordered : items.Pairwise R)
    {a b : Item} (inA : a ∈ items) (inB : b ∈ items) (different : a ≠ b) : R a b ∨ R b a := by
  have symmetric : Std.Symm fun a b => R a b ∨ R b a := ⟨fun _ _ => Or.symm⟩
  exact (ordered.imp (S := fun a b => R a b ∨ R b a) Or.inl).forall inA inB different

/-- Lists with the same labels are equal when their members are known by their labels. -/
theorem eq_of_map_eq {label : Item → Label} {items others : List Item}
    (known : ∀ a ∈ items, ∀ b ∈ others, label a = label b → a = b)
    (same : items.map label = others.map label) : items = others := by
  induction items generalizing others with
  | nil => exact (List.map_eq_nil_iff.mp same.symm).symm
  | cons a rest ih =>
    cases others with
    | nil => cases same
    | cons b restB =>
      obtain ⟨head, tail⟩ := List.cons.inj same
      rw [known a (by simp) b (by simp) head, ih (fun x inX y inY =>
        known x (List.mem_cons_of_mem _ inX) y (List.mem_cons_of_mem _ inY)) tail]

end Lists

section Unique

variable {Item : Type} [DecidableEq Item]

private theorem mem_destutter'_ne {item head : Item} {items : List Item} :
    item ∈ items.destutter' (· ≠ ·) head ↔ item = head ∨ item ∈ items := by
  induction items generalizing head with
  | nil => simp
  | cons next rest ih =>
    by_cases same : head = next
    · subst next
      rw [List.destutter'_cons_neg _ (by simp), ih]
      simp
    · rw [List.destutter'_cons_pos _ same, List.mem_cons, ih]
      simp

theorem mem_destutter_ne {item : Item} {items : List Item} :
    item ∈ items.destutter (· ≠ ·) ↔ item ∈ items := by
  cases items with
  | nil => simp
  | cons head rest => rw [List.destutter_cons', mem_destutter'_ne, List.mem_cons]

theorem nodup_destutter_ne {le : Item → Item → Prop} [IsTrans Item le] [Std.Antisymm le]
    {items : List Item} (sorted : items.Pairwise le) : (items.destutter (· ≠ ·)).Nodup := by
  have distinct := List.isChain_iff_forall_rel_of_append_cons_cons.mp
    (items.isChain_destutter (· ≠ ·))
  have ordered := List.isChain_iff_forall_rel_of_append_cons_cons.mp
    (sorted.sublist (items.destutter_sublist (· ≠ ·))).isChain
  have strict : (items.destutter (· ≠ ·)).IsChain fun a b => le a b ∧ a ≠ b :=
    List.isChain_iff_forall_rel_of_append_cons_cons.mpr fun a b before after split =>
      ⟨ordered split, distinct split⟩
  have transitive : Trans (fun a b => le a b ∧ a ≠ b) (fun a b => le a b ∧ a ≠ b)
      (fun a b => le a b ∧ a ≠ b) := by
    refine ⟨?_⟩
    rintro a b c ⟨first, different⟩ ⟨second, _⟩
    refine ⟨trans_of le first second, ?_⟩
    rintro rfl
    exact different (antisymm_of le first second)
  exact strict.pairwise.imp And.right

end Unique

end ShadowSe.Support

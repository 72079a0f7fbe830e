import Mathlib.Data.List.Induction
import ShadowSe.Crawl.Robots

namespace ShadowSe

namespace RobotsTxt

/-- A rule speaks about the paths that begin with its own. -/
def Applies (path : Bytes) (rule : Bool × Bytes) : Prop :=
  rule.2 <+: path

/-- What the pass over the rules has found when it has seen `rules`. -/
structure Best.Weighs (path : Bytes) (rules : List (Bool × Bytes)) (best : Best) : Prop where
  bound : ∀ rule ∈ rules, Applies path rule → best.matched = true ∧ rule.2.length ≤ best.bestLen
  attained : best.matched = true →
    ∃ rule ∈ rules, Applies path rule ∧ rule.2.length = best.bestLen
  unmatched : best.matched = false → best.bestLen = 0
  allow : best.matched = true → (best.bestAllow = true ↔
    ∃ rule ∈ rules, Applies path rule ∧ rule.2.length = best.bestLen ∧ rule.1 = true)

variable {path : Bytes} {rules : List (Bool × Bytes)} {best : Best}

/-- A rule that does not apply, or is shorter than the best so far, changes nothing. -/
theorem Best.Weighs.skip (held : best.Weighs path rules) {rule : Bool × Bytes}
    (shorter : Applies path rule → rule.2.length < best.bestLen) :
    best.Weighs path (rules ++ [rule]) := by
  have known : best.bestLen ≠ 0 → best.matched = true := fun positive => by
    by_contra unmatched
    exact positive (held.unmatched (Bool.eq_false_iff.mpr unmatched))
  refine ⟨?_, ?_, held.unmatched, ?_⟩
  · intro other member applies
    rcases List.mem_append.mp member with old | new
    · exact held.bound other old applies
    · cases List.mem_singleton.mp new
      have less := shorter applies
      exact ⟨known (by omega), Nat.le_of_lt less⟩
  · intro matched
    obtain ⟨other, member, found⟩ := held.attained matched
    exact ⟨other, List.mem_append_left _ member, found⟩
  · intro matched
    rw [held.allow matched]
    refine exists_congr fun other => and_congr_left ?_
    rintro ⟨applies, size, _⟩
    simp only [List.mem_append, List.mem_singleton, iff_self_or]
    rintro rfl
    have less := shorter applies
    omega

theorem Best.Weighs.replace (held : best.Weighs path rules) {rule : Bool × Bytes}
    (applies : Applies path rule) (longer : best.bestLen < rule.2.length) :
    Best.Weighs path (rules ++ [rule])
      { bestLen := rule.2.length, bestAllow := rule.1, matched := true } := by
  have last : rule ∈ rules ++ [rule] := List.mem_append_right _ (List.mem_singleton_self _)
  refine ⟨?_, fun _ => ⟨rule, last, applies, rfl⟩, by simp, fun _ => ⟨?_, ?_⟩⟩
  · intro other member covers
    rcases List.mem_append.mp member with old | new
    · exact ⟨rfl, Nat.le_of_lt (Nat.lt_of_le_of_lt (held.bound other old covers).2 longer)⟩
    · cases List.mem_singleton.mp new
      exact ⟨rfl, Nat.le_refl _⟩
  · intro allow
    exact ⟨rule, last, applies, rfl, allow⟩
  · rintro ⟨other, member, covers, size, allow⟩
    rcases List.mem_append.mp member with old | new
    · have known := (held.bound other old covers).2
      simp only at size
      omega
    · cases List.mem_singleton.mp new
      exact allow

/-- A rule as long as the best one can only turn the verdict to Allow. -/
theorem Best.Weighs.tie (held : best.Weighs path rules) {rule : Bool × Bytes}
    (applies : Applies path rule) (nonempty : rule.2 ≠ [])
    (same : rule.2.length = best.bestLen) :
    Best.Weighs path (rules ++ [rule])
      { best with bestAllow := rule.1 || best.bestAllow, matched := true } := by
  have last : rule ∈ rules ++ [rule] := List.mem_append_right _ (List.mem_singleton_self _)
  have matched : best.matched = true := by
    by_contra unmatched
    have zero := held.unmatched (Bool.eq_false_iff.mpr unmatched)
    exact nonempty (List.length_eq_zero_iff.mp (same.trans zero))
  refine ⟨?_, fun _ => ⟨rule, last, applies, same⟩, by simp, fun _ => ?_⟩
  · intro other member covers
    rcases List.mem_append.mp member with old | new
    · exact ⟨rfl, (held.bound other old covers).2⟩
    · cases List.mem_singleton.mp new
      exact ⟨rfl, Nat.le_of_eq same⟩
  · rw [Bool.or_eq_true, held.allow matched]
    constructor
    · rintro (allow | ⟨other, member, found⟩)
      · exact ⟨rule, last, applies, same, allow⟩
      · exact ⟨other, List.mem_append_left _ member, found⟩
    · rintro ⟨other, member, covers, size, allow⟩
      rcases List.mem_append.mp member with old | new
      · exact .inr ⟨other, old, covers, size, allow⟩
      · cases List.mem_singleton.mp new
        exact .inl allow

theorem Best.Weighs.weigh (held : best.Weighs path rules) {rule : Bool × Bytes}
    (nonempty : rule.2 ≠ []) :
    (RobotsTxt.weigh path best rule).Weighs path (rules ++ [rule]) := by
  obtain ⟨allow, rulePath⟩ := rule
  simp only [RobotsTxt.weigh, Bytes.startsWith, List.isPrefixOf_iff_prefix]
  split
  · rename_i taken
    split
    · exact held.replace taken.2 ‹_›
    · exact held.tie taken.2 nonempty (by simp only; omega)
  · rename_i passed
    exact held.skip fun applies => by
      by_contra long
      exact passed ⟨Nat.le_of_not_lt long, applies⟩

theorem weighs_foldl (nonempty : ∀ rule ∈ rules, rule.2 ≠ []) :
    (rules.foldl (weigh path) {}).Weighs path rules := by
  induction rules using List.reverseRecOn with
  | nil => exact ⟨by simp, by simp, by simp, by simp⟩
  | append_singleton rules rule ih =>
    rw [List.foldl_append]
    exact (ih fun other member => nonempty other (List.mem_append_left _ member)).weigh
      (nonempty rule (List.mem_append_right _ (List.mem_singleton_self _)))

/-- A rule list permits a path when no rule applies, or an Allow rule is among the longest
that do. -/
theorem permits_iff (nonempty : ∀ rule ∈ rules, rule.2 ≠ []) :
    permits rules path = true ↔ (∀ rule ∈ rules, ¬ Applies path rule) ∨
      ∃ rule ∈ rules, rule.1 = true ∧ Applies path rule ∧
        ∀ other ∈ rules, Applies path other → other.2.length ≤ rule.2.length := by
  have held : (rules.foldl (weigh path) {}).Weighs path rules := weighs_foldl nonempty
  rw [permits]
  generalize rules.foldl (weigh path) {} = best at held
  by_cases matched : best.matched = true
  · simp only [matched, Bool.not_true, Bool.false_or]
    rw [held.allow matched]
    obtain ⟨longest, member, covers, size⟩ := held.attained matched
    constructor
    · rintro ⟨rule, present, applies, long, allow⟩
      refine .inr ⟨rule, present, allow, applies, fun other known applied => ?_⟩
      rw [long]
      exact (held.bound other known applied).2
    · rintro (none | ⟨rule, present, allow, applies, greatest⟩)
      · exact absurd covers (none longest member)
      · have upper := (held.bound rule present applies).2
        have lower := greatest longest member covers
        exact ⟨rule, present, applies, by omega, allow⟩
  · simp only [matched, Bool.not_false, Bool.true_or, true_iff]
    exact .inl fun rule member applies => matched (held.bound rule member applies).1

theorem allowed_of_entry {robots : RobotsTxt} {url : Bytes} {r : DomainRules}
    (cached : robots.entry (originOf url) = some r) :
    robots.allowed url = permits r.rules (pathOf url) := by
  rw [allowed, cached]
  cases empty : r.rules with
  | nil => simp [empty, permits]
  | cons rule rest => simp [empty]

/-- For the rules cached for the origin of a URL, the URL is allowed exactly when none of them
is a prefix of its path or an Allow rule is among the longest that are. Neither the order of the
rules nor their repetition matters. -/
theorem allowed_iff_longest (robots : RobotsTxt) (url : Bytes) (r : DomainRules)
    (cached : robots.entry (originOf url) = some r) (nonempty : ∀ rule ∈ r.rules, rule.2 ≠ []) :
    (robots.allowed url = true ↔ (∀ rule ∈ r.rules, ¬ rule.2 <+: pathOf url) ∨
      ∃ rule ∈ r.rules, rule.1 = true ∧ rule.2 <+: pathOf url ∧
        ∀ other ∈ r.rules, other.2 <+: pathOf url → other.2.length ≤ rule.2.length) ∧
    ∀ (robots' : RobotsTxt) (r' : DomainRules), robots'.entry (originOf url) = some r' →
      (∀ rule, rule ∈ r'.rules ↔ rule ∈ r.rules) → robots'.allowed url = robots.allowed url := by
  refine ⟨?_, fun robots' r' cached' same => ?_⟩
  · rw [allowed_of_entry cached]
    exact permits_iff nonempty
  · have nonempty' : ∀ rule ∈ r'.rules, rule.2 ≠ [] :=
      fun rule member => nonempty rule ((same rule).mp member)
    rw [allowed_of_entry cached, allowed_of_entry cached', Bool.eq_iff_iff,
      permits_iff nonempty, permits_iff nonempty']
    simp only [same]

/-- A Disallow rule and, of the same length and behind it, an Allow rule. -/
theorem allowed_iff_longest_tie :
    RobotsTxt.allowed ⟨ascii "bot", [(ascii "http://h",
      ⟨true, [(false, ascii "/a"), (true, ascii "/a"), (false, ascii "/")]⟩)]⟩
        (ascii "http://h/ab") = true := by
  refine (allowed_iff_longest _ _ _ rfl (by decide)).1.mpr (.inr ⟨(true, ascii "/a"), ?_⟩)
  decide

end RobotsTxt

end ShadowSe

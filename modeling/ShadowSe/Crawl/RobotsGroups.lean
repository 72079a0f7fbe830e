import Mathlib.Data.List.TakeWhile
import ShadowSe.Crawl.Robots

namespace ShadowSe

namespace RobotsTxt

/-- The lines that mean something. -/
inductive Directive where
  | agent (value : Bytes)
  | rule (allow : Bool) (value : Bytes)
  deriving DecidableEq

/-- The name and the value around the first ':' of a line without its comment. A line
without ':' or with any other name means nothing. -/
def directive (line : Bytes) : Option Directive :=
  let content := trimWs (stripComment line)
  match content.dropWhile (· != 58) with
  | [] => none
  | _ :: rest =>
    let key := trimWs (lowerAscii (content.takeWhile (· != 58)))
    if key = ascii "user-agent" then some (.agent (trimWs rest))
    else if key = ascii "allow" then some (.rule true (trimWs rest))
    else if key = ascii "disallow" then some (.rule false (trimWs rest))
    else none

/-- The three names that `parseBody` knows. -/
def knownNames : List Bytes :=
  [ascii "user-agent", ascii "allow", ascii "disallow"]

/-- A line that is a known name and no ':', which is no directive and no unknown name. -/
def IsBareName (line : Bytes) : Prop :=
  58 ∉ trimWs (stripComment line) ∧ trimWs (lowerAscii (trimWs (stripComment line))) ∈ knownNames

instance (line : Bytes) : Decidable (IsBareName line) :=
  inferInstanceAs (Decidable (_ ∧ _))

/-- One or more User-agent lines and the rules that follow them. -/
structure RobotsGroup where
  agents : List Bytes
  rules : List (Bool × Bytes)
  named : agents ≠ []

namespace RobotsGroup

def directives (group : RobotsGroup) : List Directive :=
  group.agents.map .agent ++ group.rules.map fun rule => .rule rule.1 rule.2

/-- The rules that say something; an empty Disallow is a no-op. -/
def kept (group : RobotsGroup) : List (Bool × Bytes) :=
  group.rules.filter fun rule => !rule.2.isEmpty

/-- Some User-agent line matches our agent, by the parser's own test. -/
def names (group : RobotsGroup) (ua : Bytes) : Bool :=
  group.agents.any fun agent => agentMatches (lowerAscii ua) (lowerAscii agent)

/-- The User-agent line just before the rules matches. -/
def namesLast (group : RobotsGroup) (ua : Bytes) : Bool :=
  agentMatches (lowerAscii ua) (lowerAscii (group.agents.getLast group.named))

end RobotsGroup

/-- What one directive does to the parser. -/
def ParseState.apply (ourUA : Bytes) (st : ParseState) : Directive → ParseState
  | .agent value =>
    { st.flushGroup with inMatchingGroup := agentMatches ourUA (lowerAscii value) }
  | .rule allow value =>
    if st.inMatchingGroup && !value.isEmpty then
      { st with group := st.group ++ [(allow, value)] }
    else st

private theorem tolower_colon : ∀ c : UInt8, tolower c = 58 ↔ c = 58 := by
  apply forall_byte
  decide +kernel

private theorem colon_mem_lowerAscii (s : Bytes) : 58 ∈ lowerAscii s ↔ 58 ∈ s := by
  simp [lowerAscii, tolower_colon]

/-- A text is split at its first ':' whether or not it is in lower case. -/
theorem split_lowerAscii (s : Bytes) :
    58 ∉ s ∧ (lowerAscii s).findFirstOf (ascii ":") 0 = none ∨
      ∃ before rest, s = before ++ 58 :: rest ∧ 58 ∉ before ∧
        (lowerAscii s).findFirstOf (ascii ":") 0 = some before.length := by
  rcases Bytes.findFirstOf_single (lowerAscii s) 58 0 with
    ⟨absent, nowhere⟩ | ⟨before, rest, split, absent, found⟩
  · exact .inl ⟨fun member => absent ((colon_mem_lowerAscii s).mpr member), nowhere⟩
  · rw [List.drop_zero] at split
    obtain ⟨head, tail, whole, lowered, others⟩ := List.map_eq_append_iff.mp split
    obtain ⟨c, rest', rfl, colon, _⟩ := List.map_eq_cons_iff.mp others
    rw [tolower_colon] at colon
    refine .inr ⟨head, rest', by rw [whole, colon], ?_, ?_⟩
    · intro member
      rw [← lowered] at absent
      exact absent ((colon_mem_lowerAscii head).mpr member)
    · have size : head.length = before.length := by rw [← lowered, List.length_map]
      rw [size, ← Nat.zero_add before.length]
      exact found

theorem parseLine_eq {ourUA line : Bytes} (st : ParseState) (separated : ¬ IsBareName line) :
    parseLine ourUA st line = (directive line).elim st (st.apply ourUA) := by
  simp only [parseLine, directive]
  unfold IsBareName knownNames at separated
  generalize trimWs (stripComment line) = content at separated
  rcases split_lowerAscii content with ⟨absent, nowhere⟩ | ⟨before, rest, rfl, absent, found⟩
  · -- Without ':' the whole line is the name.
    have all : content.dropWhile (· != 58) = [] := by
      rw [List.dropWhile_eq_nil_iff]
      intro c member
      exact bne_iff_ne.mpr fun same => absent (same ▸ member)
    simp only [absent, not_false_eq_true, List.mem_cons, List.not_mem_nil, or_false, true_and,
      not_or] at separated
    simp only [nowhere, all, Bytes.substr, List.drop_zero, Option.map_none]
    simp [separated]
  · have nonempty : before ++ 58 :: rest ≠ [] := by simp
    have past : (before ++ 58 :: rest).drop (before.length + 1) = rest := by
      rw [← List.drop_drop, List.drop_left]
      rfl
    have key : (lowerAscii (before ++ 58 :: rest)).take before.length = lowerAscii before := by
      simp [lowerAscii]
    simp only [nonempty, ↓reduceIte, found, Bytes.substr, List.drop_zero, Option.map_some,
      Option.getD_some, past, key, Bytes.dropWhile_ne absent, Bytes.takeWhile_ne absent]
    split_ifs <;> simp_all [ParseState.apply]

theorem foldl_parseLine {ourUA : Bytes} {lines : List Bytes} (st : ParseState)
    (separated : ∀ line ∈ lines, ¬ IsBareName line) :
    lines.foldl (parseLine ourUA) st =
      (lines.filterMap directive).foldl (ParseState.apply ourUA) st := by
  induction lines generalizing st with
  | nil => rfl
  | cons line rest ih =>
    obtain ⟨first, others⟩ := List.forall_mem_cons.mp separated
    rw [List.foldl_cons, parseLine_eq st first, ih _ others]
    cases read : directive line with
    | none => rw [List.filterMap_cons_none read, Option.elim_none]
    | some found => rw [List.filterMap_cons_some read, Option.elim_some, List.foldl_cons]

namespace ParseState

variable {ourUA : Bytes} {st : ParseState}

/-- The rules pending outside a matching group are none. -/
def Tidy (st : ParseState) : Prop :=
  st.inMatchingGroup = false → st.group = []

/-- The rules collected if the body ended here. -/
def collected (st : ParseState) : List (Bool × Bytes) :=
  st.flushGroup.rules

theorem Tidy.collected_eq (tidy : st.Tidy) : st.collected = st.rules ++ st.group := by
  unfold collected flushGroup
  split
  · rfl
  · rename_i outside
    rw [tidy (by simpa using outside), List.append_nil]

/-- A User-agent line closes the group before it and decides alone about the next one. -/
theorem Tidy.agent (tidy : st.Tidy) (ourUA value : Bytes) :
    (st.apply ourUA (.agent value)).group = [] ∧
      (st.apply ourUA (.agent value)).rules = st.collected ∧
      (st.apply ourUA (.agent value)).inMatchingGroup =
        agentMatches ourUA (lowerAscii value) := by
  refine ⟨?_, rfl, rfl⟩
  simp only [apply, flushGroup]
  split
  · rfl
  · rename_i outside
    exact tidy (by simpa using outside)

/-- After the User-agent lines of a group nothing is pending and the last of them decides. -/
theorem Tidy.agents (tidy : st.Tidy) (ourUA : Bytes) {agents : List Bytes} (named : agents ≠ []) :
    ∃ next, (agents.map Directive.agent).foldl (apply ourUA) st = next ∧ next.group = [] ∧
      next.rules = st.collected ∧
      next.inMatchingGroup = agentMatches ourUA (lowerAscii (agents.getLast named)) := by
  refine ⟨_, rfl, ?_⟩
  induction agents generalizing st with
  | nil => exact absurd rfl named
  | cons value rest ih =>
    obtain ⟨empty, flushed, matching⟩ := tidy.agent ourUA value
    rw [List.map_cons, List.foldl_cons]
    by_cases last : rest = []
    · subst last
      exact ⟨empty, flushed, matching⟩
    · have later : (st.apply ourUA (.agent value)).Tidy := fun _ => empty
      have kept : (st.apply ourUA (.agent value)).collected = st.collected := by
        rw [later.collected_eq, empty, flushed, List.append_nil]
      rw [List.getLast_cons last, ← kept]
      exact ih later last

theorem foldl_rules (rules : List (Bool × Bytes)) :
    (rules.map fun rule => Directive.rule rule.1 rule.2).foldl (apply ourUA) st =
      { st with group := st.group ++
          if st.inMatchingGroup then rules.filter fun rule => !rule.2.isEmpty else [] } := by
  induction rules generalizing st with
  | nil => simp
  | cons rule rest ih =>
    rw [List.map_cons, List.foldl_cons, ih]
    cases matching : st.inMatchingGroup with
    | false => simp [apply, matching]
    | true =>
      by_cases empty : rule.2 = []
      · simp [apply, matching, empty]
      · simp [apply, matching, empty]

/-- A whole group: its rules are collected when its last User-agent line matches. -/
theorem Tidy.group (tidy : st.Tidy) (ua : Bytes) (group : RobotsGroup) :
    ∃ next, group.directives.foldl (apply (lowerAscii ua)) st = next ∧ next.Tidy ∧
      next.collected = st.collected ++ if group.namesLast ua then group.kept else [] := by
  obtain ⟨middle, read, empty, collected, matching⟩ := tidy.agents (lowerAscii ua) group.named
  refine ⟨_, rfl, ?_⟩
  rw [RobotsGroup.directives, List.foldl_append, read, foldl_rules, empty, List.nil_append]
  have pending : Tidy { middle with group :=
      if middle.inMatchingGroup then group.rules.filter fun rule => !rule.2.isEmpty else [] } :=
    fun outside => if_neg (Bool.eq_false_iff.mp outside)
  refine ⟨pending, ?_⟩
  rw [pending.collected_eq, collected]
  simp only [matching]
  rfl

theorem Tidy.groups (tidy : st.Tidy) (ua : Bytes) (groups : List RobotsGroup) :
    ((groups.flatMap RobotsGroup.directives).foldl (apply (lowerAscii ua)) st).collected =
      st.collected ++
        groups.flatMap fun group => if group.namesLast ua then group.kept else [] := by
  induction groups generalizing st with
  | nil => simp
  | cons group rest ih =>
    obtain ⟨next, read, held, grown⟩ := tidy.group ua group
    rw [List.flatMap_cons, List.foldl_append, read, ih held, grown, List.flatMap_cons,
      List.append_assoc]

end ParseState

private theorem flatMap_eq_iff {α β : Type} {parts whole : α → List β}
    (missing : ∀ a, parts a = whole a ∨ parts a = []) (l : List α) :
    l.flatMap parts = l.flatMap whole ↔ ∀ a ∈ l, parts a = whole a := by
  have shorter (l : List α) : (l.flatMap parts).length ≤ (l.flatMap whole).length := by
    induction l with
    | nil => simp
    | cons a rest ih =>
      simp only [List.flatMap_cons, List.length_append]
      rcases missing a with same | gone
      · rw [same]
        omega
      · rw [gone, List.length_nil]
        omega
  induction l with
  | nil => simp
  | cons a rest ih =>
    rw [List.flatMap_cons, List.flatMap_cons, List.forall_mem_cons]
    refine Iff.trans ?_ (and_congr_right fun _ => ih)
    rcases missing a with same | gone
    · rw [same, List.append_cancel_left_eq]
      simp
    · constructor
      · intro all
        have sizes := congrArg List.length all
        have rest := shorter rest
        rw [gone, List.nil_append, List.length_append] at sizes
        have empty : whole a = [] := List.length_eq_zero_iff.mp (by omega)
        rw [gone, empty] at all ⊢
        exact ⟨rfl, all⟩
      · rintro ⟨same, others⟩
        rw [same, others]

theorem RobotsGroup.names_of_namesLast {group : RobotsGroup} {ua : Bytes}
    (last : group.namesLast ua = true) : group.names ua = true :=
  List.any_eq_true.mpr ⟨_, List.getLast_mem group.named, last⟩

/-- For every agent and every body that is a sequence of groups, the parser collects the rules
of exactly the groups that name our agent, if and only if each group that names it and has a
rule names it in its last User-agent line. -/
theorem parseBody_groups_iff (ua body : Bytes) (groups : List RobotsGroup)
    (separated : ∀ line ∈ getlines body, ¬ IsBareName line)
    (grouped : (getlines body).filterMap directive = groups.flatMap RobotsGroup.directives) :
    (parseBody ua body).rules = (groups.filter (·.names ua)).flatMap (·.kept) ↔
      ∀ group ∈ groups, group.names ua = true → group.namesLast ua = true ∨ group.kept = [] := by
  have tidy : ParseState.Tidy {} := fun _ => rfl
  have read : (parseBody ua body).rules =
      groups.flatMap fun group => if group.namesLast ua then group.kept else [] := by
    have all := tidy.groups ua groups
    rw [← grouped, ← foldl_parseLine _ separated] at all
    exact all
  have meant : (groups.filter (·.names ua)).flatMap (·.kept) =
      groups.flatMap fun group => if group.names ua then group.kept else [] := by
    clear grouped read
    induction groups with
    | nil => rfl
    | cons group rest ih =>
      by_cases named : group.names ua = true
      · simp [named, ih]
      · simp [named, ih]
  rw [read, meant, flatMap_eq_iff]
  · refine forall₂_congr fun group _ => ?_
    by_cases last : group.namesLast ua = true
    · simp [last, RobotsGroup.names_of_namesLast last]
    · by_cases named : group.names ua = true
      · simp only [last, named, Bool.false_eq_true, ↓reduceIte, false_or, forall_const]
        exact eq_comm
      · simp [last, named]
  · intro group
    by_cases last : group.namesLast ua = true
    · exact .inl (by simp [last, RobotsGroup.names_of_namesLast last])
    · exact .inr (if_neg last)

/-- Two groups, of which the second has two agents and a comment between them. -/
theorem parseBody_groups_ordered :
    (parseBody (ascii "ShadowSE/1.0") (ascii "User-agent: *\nDisallow: /a\n\n" ++
      ascii "User-agent: Other\n# ours\nUser-agent: ShadowSE\nCrawl-delay: 3\nAllow: /b\n")).rules =
        [(false, ascii "/a"), (true, ascii "/b")] :=
  (parseBody_groups_iff (ascii "ShadowSE/1.0") _
    [⟨[ascii "*"], [(false, ascii "/a")], by decide⟩,
      ⟨[ascii "Other", ascii "ShadowSE"], [(true, ascii "/b")], by decide⟩]
    (by decide +kernel) (by decide +kernel)).mpr (by decide +kernel)

/-- The group is meant for everyone, but its last User-agent line names another agent. -/
theorem parseBody_loses_group :
    (getlines (ascii "User-agent: *\nUser-agent: Other\nDisallow: /\n")).filterMap directive =
        RobotsGroup.directives ⟨[ascii "*", ascii "Other"], [(false, ascii "/")], by decide⟩ ∧
      RobotsGroup.names ⟨[ascii "*", ascii "Other"], [(false, ascii "/")], by decide⟩
        (ascii "ShadowSE/1.0") = true ∧
      (parseBody (ascii "ShadowSE/1.0")
        (ascii "User-agent: *\nUser-agent: Other\nDisallow: /\n")).rules = [] :=
  ⟨by decide, by decide, by decide⟩

end RobotsTxt

end ShadowSe

import Mathlib.Data.List.TakeWhile
import ShadowSe.Crawl.Html

/-! The href lookup of `htmlExtractLinks`. The value is read behind the first "href=" of a tag,
whatever attribute that is part of, and its first byte is taken for the quote. -/

namespace ShadowSe

/-- The raw value of a tag. -/
def rawHref (tag : Bytes) : Option Bytes :=
  (ciFind tag (ascii "href=") 0).map fun href => readAttributeValue tag (href + 5)

/-- The loop of `htmlExtractLinks` without the resolution of the links. -/
def hrefLoop (html : Bytes) : Nat → Nat → List Bytes
  | 0, _ => []
  | fuel + 1, pos =>
    match ciFind html (ascii "<a ") pos with
    | none => []
    | some pos =>
      match html.findFirstOf (ascii ">") pos with
      | none => []
      | some stop =>
        (rawHref (html.substr pos (some (stop - pos)))).toList ++ hrefLoop html fuel (stop + 1)

/-- The raw values of a page, in order. -/
def rawHrefs (html : Bytes) : List Bytes :=
  hrefLoop html html.length 0

/-- The link that a raw value becomes, if any. -/
def resolved (baseUrl raw : Bytes) : List Bytes :=
  let (scheme, host, path) := splitBase baseUrl
  if scheme ≠ ascii "http" ∧ scheme ≠ ascii "https" then []
  else
    let dir := match path.rfind 47 with
      | none => ascii "/"
      | some lastSlash => path.take (lastSlash + 1)
    let link := resolveLink scheme host dir raw
    if link = [] then [] else [link]

/-- The links of a page are its raw values, each resolved against the base. -/
theorem htmlExtractLinks_eq (html baseUrl : Bytes) :
    htmlExtractLinks html baseUrl = (rawHrefs html).flatMap (resolved baseUrl) := by
  have looped (scheme host dir : Bytes) (fuel pos : Nat) :
      linkLoop html scheme host dir fuel pos = (hrefLoop html fuel pos).flatMap fun raw =>
        if resolveLink scheme host dir raw = [] then [] else [resolveLink scheme host dir raw] := by
    induction fuel generalizing pos with
    | zero => rfl
    | succ fuel ih =>
      simp only [linkLoop, hrefLoop]
      cases ciFind html (ascii "<a ") pos with
      | none => rfl
      | some pos =>
        dsimp only
        cases html.findFirstOf (ascii ">") pos with
        | none => rfl
        | some stop =>
          dsimp only
          rw [rawHref, List.flatMap_append, ← ih]
          cases ciFind (html.substr pos (some (stop - pos))) (ascii "href=") 0 with
          | none => rfl
          | some href =>
            simp only [Option.map_some, Option.toList_some, List.flatMap_singleton]
            split
            · rfl
            · rfl
  unfold htmlExtractLinks resolved
  dsimp only
  split
  · simp
  · exact looped ..

/-- The search looks at the text in lower case. -/
theorem ciFind_eq_find {needle : Bytes} (nonempty : needle ≠ []) (s : Bytes) (pos : Nat) :
    ciFind s needle pos = Bytes.find (lowerAscii s) (lowerAscii needle) pos := by
  rw [ciFind, Bytes.find, length_lowerAscii]
  split
  · rename_i outside
    have past : s.length ≤ pos := outside.resolve_left nonempty
    have empty : (lowerAscii s).drop pos = [] :=
      List.drop_eq_nil_iff.mpr ((length_lowerAscii s).trans_le past)
    have absent : (lowerAscii needle).isPrefixOf [] = false := by
      cases needle with
      | nil => exact absurd rfl nonempty
      | cons c rest => rfl
    rw [empty, Bytes.scan, absent]
    simp
  · rename_i inside
    have dropped : (lowerAscii s).drop pos = (s.drop pos).map tolower := List.map_drop.symm
    rw [if_pos (by omega), dropped, Bytes.scan_map]
    congr 1
    funext suffix
    rw [Bool.eq_iff_iff, beq_iff_eq, List.isPrefixOf_iff_prefix, List.prefix_iff_eq_take,
      ← List.map_take, length_lowerAscii, lowerAscii, lowerAscii]
    exact eq_comm

/-- The text behind the first "href=". -/
def afterHref (s : Bytes) : Option Bytes :=
  (ciFind s (ascii "href=") 0).map fun href => s.drop (href + 5)

theorem afterHref_eq_find (s : Bytes) :
    afterHref s =
      (Bytes.find (lowerAscii s) (ascii "href=") 0).map fun href => s.drop (href + 5) := by
  rw [afterHref, ciFind_eq_find (by decide)]
  rfl

theorem afterHref_nil : afterHref [] = none := rfl

theorem afterHref_eq_none_iff {s : Bytes} :
    afterHref s = none ↔ ¬ ascii "href=" <:+: lowerAscii s := by
  rw [afterHref_eq_find, Option.map_eq_none_iff, ← Bytes.contains_iff_isInfix, Bytes.contains,
    Option.not_isSome_iff_eq_none]

/-- The search goes on behind a byte that "href=" does not have. -/
theorem afterHref_append_cons {c : UInt8} (absent : tolower c ∉ ascii "href=") (w s : Bytes) :
    afterHref (w ++ c :: s) = ((afterHref w).map (· ++ c :: s)).or (afterHref s) := by
  have lowered : lowerAscii (w ++ c :: s) = lowerAscii w ++ tolower c :: lowerAscii s :=
    lowerAscii_append ..
  rw [afterHref_eq_find, afterHref_eq_find, afterHref_eq_find, lowered,
    Bytes.find_append_cons absent (by decide), length_lowerAscii]
  cases found : Bytes.find (lowerAscii w) (ascii "href=") 0 with
  | some k =>
    have fits : k + 5 ≤ w.length := length_lowerAscii w ▸ (Bytes.length_of_find found).1
    simp only [Option.some_or, Option.map_some]
    rw [List.drop_append_of_le_length fits]
  | none =>
    have past (k : Nat) : (w ++ c :: s).drop (w.length + 1 + k + 5) = s.drop (k + 5) := by
      rw [Nat.add_assoc, Nat.add_assoc, Bytes.drop_append_add, Nat.add_comm 1, List.drop_succ_cons]
    simp only [Option.none_or, Option.map_none, Option.map_map]
    cases Bytes.find (lowerAscii s) (ascii "href=") 0 with
    | none => rfl
    | some k => exact congrArg some (past k)

theorem afterHref_named {name : Bytes} (named : lowerAscii name = ascii "href") (s : Bytes) :
    afterHref (name ++ 61 :: s) = some s := by
  have size : (name ++ [61]).length = 5 := by
    have length := congrArg List.length named
    rw [length_lowerAscii] at length
    rw [List.length_append, length]
    rfl
  have split : name ++ 61 :: s = (name ++ [61]) ++ s := by simp
  have lowered : lowerAscii (name ++ [61]) = ascii "href=" := by
    rw [lowerAscii_append, named]
    rfl
  have found := Bytes.find_append_self (t := []) (by decide : Bytes.Borderless (ascii "href="))
    (by decide) (lowerAscii s)
  rw [List.nil_append] at found
  rw [afterHref_eq_find, split, lowerAscii_append, lowered, found]
  exact congrArg some (List.drop_left' size)

/-- What is between a byte and the next one like it; nothing without one. -/
def quotedText : Bytes → Bytes
  | [] => []
  | q :: t => if List.contains t q then t.takeWhile (· != q) else []

theorem readAttributeValue_eq (html : Bytes) (valueStart : Nat) :
    readAttributeValue html valueStart = quotedText (html.drop valueStart) := by
  rw [readAttributeValue]
  cases first : html[valueStart]? with
  | none =>
    rw [List.getElem?_eq_none_iff] at first
    rw [List.drop_eq_nil_iff.mpr first]
    rfl
  | some q =>
    obtain ⟨within, rfl⟩ := List.getElem?_eq_some_iff.mp first
    rw [List.drop_eq_getElem_cons within, quotedText]
    rcases Bytes.findFirstOf_single html html[valueStart] (valueStart + 1) with
      ⟨absent, nowhere⟩ | ⟨before, rest, split, absent, found⟩
    · rw [if_neg (by simpa using absent)]
      simp only [nowhere]
    · simp only [found]
      rw [if_pos (by simp [split]), Bytes.substr, split, Bytes.takeWhile_ne absent,
        show valueStart + 1 + before.length - valueStart - 1 = before.length by omega]
      simp

theorem rawHref_eq (tag : Bytes) : rawHref tag = (afterHref tag).map quotedText := by
  rw [rawHref, afterHref, Option.map_map]
  congr 1
  funext href
  exact readAttributeValue_eq ..

/-- The first byte comes again, and `v` is what stands between; or `v` is empty and it does
not come again. -/
def Bracketed (v s : Bytes) : Prop :=
  (∃ q u, s = q :: (v ++ q :: u) ∧ q ∉ v) ∨ v = [] ∧ ∀ q u, s = q :: u → q ∉ u

theorem quotedText_eq_iff {v s : Bytes} : quotedText s = v ↔ Bracketed v s := by
  cases s with
  | nil => simp [quotedText, Bracketed, eq_comm]
  | cons q t =>
    by_cases again : q ∈ t
    · obtain ⟨w, u, rfl, first⟩ := List.eq_append_cons_of_mem again
      have read : quotedText (q :: (w ++ q :: u)) = w := by
        rw [quotedText, if_pos (by simp), Bytes.takeWhile_ne first]
      rw [read]
      constructor
      · rintro rfl
        exact .inl ⟨q, u, rfl, first⟩
      · rintro (⟨q', u', split, first'⟩ | ⟨-, absent⟩)
        · obtain ⟨rfl, split⟩ := List.cons.inj split
          have taken := congrArg (List.takeWhile (· != q)) split
          rwa [Bytes.takeWhile_ne first, Bytes.takeWhile_ne first'] at taken
        · exact absurd again (absent q _ rfl)
    · have read : quotedText (q :: t) = [] := by
        rw [quotedText, if_neg (by simpa using again)]
      rw [read]
      constructor
      · rintro rfl
        refine .inr ⟨rfl, fun q' u split => ?_⟩
        obtain ⟨rfl, rfl⟩ := List.cons.inj split
        exact again
      · rintro (⟨q', u, split, -⟩ | ⟨rfl, -⟩)
        · obtain ⟨rfl, rfl⟩ := List.cons.inj split
          exact absurd (by simp) again
        · rfl

/-- `y` is what stands behind the first "href=" of `s`. -/
def BehindHref (s y : Bytes) : Prop :=
  ∃ w, s = w ++ y ∧ ascii "href=" <:+ lowerAscii w ∧ ¬ ascii "href=" <:+: lowerAscii w.dropLast

private theorem lowerAscii_dropLast {w p : Bytes} (ends : lowerAscii w = p ++ ascii "href=") :
    lowerAscii w.dropLast = p ++ ascii "href" := by
  have needle : ascii "href=" = ascii "href" ++ [61] := rfl
  have cut := congrArg List.dropLast ends
  rw [needle, ← List.append_assoc, List.dropLast_concat] at cut
  exact List.map_dropLast.trans cut

theorem afterHref_eq_some_iff {s y : Bytes} : afterHref s = some y ↔ BehindHref s y := by
  have needle : ascii "href=" = ascii "href" ++ [61] := rfl
  rw [afterHref_eq_find, Option.map_eq_some_iff]
  constructor
  · rintro ⟨k, found, rfl⟩
    obtain ⟨fits, r, here⟩ := Bytes.length_of_find found
    have size : ((lowerAscii s).take k).length = k := by
      rw [List.length_take, Nat.min_eq_left (Nat.le_of_add_right_le fits)]
    have whole : lowerAscii s = (lowerAscii s).take k ++ (ascii "href=" ++ r) := by
      rw [here, List.take_append_drop]
    have read : lowerAscii (s.take (k + 5)) = (lowerAscii s).take k ++ ascii "href=" := by
      have taken := congrArg (List.take (k + 5)) whole
      have length : ((lowerAscii s).take k ++ ascii "href=").length = k + 5 := by
        rw [List.length_append, size]
        rfl
      rw [← List.append_assoc, List.take_left' length] at taken
      exact List.map_take.trans taken
    refine ⟨s.take (k + 5), (List.take_append_drop _ _).symm, ?_, fun early => ?_⟩
    · rw [read]
      exact List.suffix_append _ _
    · rw [lowerAscii_dropLast read, ← Bytes.contains_iff_isInfix, Bytes.contains,
        Option.isSome_iff_exists] at early
      obtain ⟨j, early⟩ := early
      -- The search would have ended there.
      have again := Bytes.find_append early ([61] ++ r)
      have room := (Bytes.length_of_find early).1
      rw [List.append_assoc, ← List.append_assoc (ascii "href"), ← needle, ← whole, found] at again
      cases again
      simp [size, ascii] at room
  · rintro ⟨w, rfl, ⟨p, ends⟩, first⟩
    have size := congrArg List.length ends
    rw [List.length_append, length_lowerAscii] at size
    have outside : ¬ ascii "href=" <:+: p := fun early => first <| by
      rw [lowerAscii_dropLast ends.symm]
      exact early.trans (List.prefix_append _ _).isInfix
    refine ⟨p.length, ?_, List.drop_left' size.symm⟩
    rw [lowerAscii_append, ← ends, List.append_assoc]
    exact Bytes.find_append_self (by decide) outside _

inductive Quoting where
  | double
  | single
  | unquoted
  deriving DecidableEq

namespace Quoting

/-- What is written on both sides of the value. -/
def mark : Quoting → Bytes
  | double => [34]
  | single => [39]
  | unquoted => []

/-- The value can be written so. -/
def Allows : Quoting → Bytes → Prop
  | double, value => 34 ∉ value ∧ 62 ∉ value
  | single, value => 39 ∉ value ∧ 62 ∉ value
  | unquoted, value => ∀ c ∈ value, isspace c = false ∧ c ∉ ascii "\"'>"

instance : (quoting : Quoting) → (value : Bytes) → Decidable (quoting.Allows value)
  | double, value => inferInstanceAs (Decidable (34 ∉ value ∧ 62 ∉ value))
  | single, value => inferInstanceAs (Decidable (39 ∉ value ∧ 62 ∉ value))
  | unquoted, value =>
    inferInstanceAs (Decidable (∀ c ∈ value, isspace c = false ∧ c ∉ ascii "\"'>"))

end Quoting

def IsAttributeName (name : Bytes) : Prop :=
  name ≠ [] ∧ ∀ c ∈ name, isspace c = false ∧ c ∉ ascii "\"'>="

instance (name : Bytes) : Decidable (IsAttributeName name) :=
  inferInstanceAs (Decidable (_ ∧ _))

structure Attribute where
  name : Bytes
  quoting : Quoting
  value : Bytes
  named : IsAttributeName name
  allowed : quoting.Allows value

namespace Attribute

/-- The value between its quotes. -/
def written (attr : Attribute) : Bytes :=
  attr.quoting.mark ++ (attr.value ++ attr.quoting.mark)

def text (attr : Attribute) : Bytes :=
  attr.name ++ 61 :: attr.written

/-- An attribute whose text has "href=" in it. -/
def IsDecoy (attr : Attribute) : Prop :=
  ascii "href" <:+ lowerAscii attr.name ∨ ascii "href=" <:+: lowerAscii attr.value

instance (attr : Attribute) : Decidable attr.IsDecoy :=
  inferInstanceAs (Decidable (_ ∨ _))

end Attribute

/-- Attributes, each of them behind a space. -/
def attributesText (attributes : List Attribute) : Bytes :=
  attributes.flatMap fun attr => 32 :: attr.text

private theorem tolower_mark : ∀ c : UInt8, (tolower c = 61 ↔ c = 61) ∧ tolower 34 = 34 ∧
    tolower 39 = 39 ∧ tolower 61 = 61 := by
  apply forall_byte
  decide +kernel

namespace Attribute

theorem lowerAscii_text (attr : Attribute) : lowerAscii attr.text =
    lowerAscii attr.name ++
      61 :: (attr.quoting.mark ++ (lowerAscii attr.value ++ attr.quoting.mark)) := by
  have marks : lowerAscii attr.quoting.mark = attr.quoting.mark := by
    cases attr.quoting with
    | double => rfl
    | single => rfl
    | unquoted => rfl
  have equals : lowerAscii (61 :: attr.written) = 61 :: lowerAscii attr.written := rfl
  rw [text, lowerAscii_append, equals, written, lowerAscii_append, lowerAscii_append, marks]

theorem equals_not_mem_name (attr : Attribute) : 61 ∉ lowerAscii attr.name := by
  intro member
  obtain ⟨c, inside, lowered⟩ := List.mem_map.mp member
  cases (tolower_mark c).1.mp lowered
  exact (attr.named.2 61 inside).2 (by decide)

theorem afterHref_text_eq_none_iff (attr : Attribute) :
    afterHref attr.text = none ↔ ¬ attr.IsDecoy := by
  have value :
      ascii "href=" <:+: attr.quoting.mark ++ (lowerAscii attr.value ++ attr.quoting.mark) ↔
        ascii "href=" <:+: lowerAscii attr.value := by
    have nothing : ¬ ascii "href=" <:+: [] := by decide
    have quoted (q : UInt8) (absent : q ∉ ascii "href=") (v : Bytes) :
        ascii "href=" <:+: [q] ++ (v ++ [q]) ↔ ascii "href=" <:+: v := by
      refine (Bytes.infix_append_cons_iff absent [] _).trans ?_
      rw [or_iff_right nothing]
      refine (Bytes.infix_append_cons_iff absent v []).trans ?_
      rw [or_iff_left nothing]
    cases attr.quoting with
    | double => exact quoted 34 (by decide) _
    | single => exact quoted 39 (by decide) _
    | unquoted => rw [Quoting.mark, List.nil_append, List.append_nil]
  rw [afterHref_eq_none_iff, lowerAscii_text]
  have absent : 61 ∉ ascii "href" := by decide
  refine not_congr ((Bytes.infix_split_iff absent attr.equals_not_mem_name _).trans ?_)
  exact or_congr_right value

end Attribute

theorem afterHref_append_attributes (w : Bytes) (attrs : List Attribute) :
    afterHref (w ++ attributesText attrs) =
      ((afterHref w).map (· ++ attributesText attrs)).or (afterHref (attributesText attrs)) := by
  cases attrs with
  | nil =>
    have empty : attributesText [] = [] := rfl
    rw [empty, afterHref_nil, Option.or_none, List.append_nil]
    simp
  | cons first rest =>
    have split : attributesText (first :: rest) = 32 :: (first.text ++ attributesText rest) := rfl
    have led := afterHref_append_cons (c := 32) (by decide) [] (first.text ++ attributesText rest)
    rw [afterHref_nil, Option.map_none, Option.none_or, List.nil_append] at led
    rw [split, led, afterHref_append_cons (by decide)]

theorem afterHref_cons_attributes (first : Attribute) (rest : List Attribute) :
    afterHref (attributesText (first :: rest)) =
      ((afterHref first.text).map (· ++ attributesText rest)).or
        (afterHref (attributesText rest)) := by
  have split : attributesText (first :: rest) =
      [] ++ 32 :: (first.text ++ attributesText rest) := rfl
  rw [split, afterHref_append_cons (by decide), afterHref_nil, Option.map_none, Option.none_or,
    afterHref_append_attributes]

theorem afterHref_skip {before : List Attribute} (clean : ∀ attr ∈ before, ¬ attr.IsDecoy)
    (attrs : List Attribute) :
    afterHref (attributesText (before ++ attrs)) = afterHref (attributesText attrs) := by
  induction before with
  | nil => rfl
  | cons first rest ih =>
    have absent := first.afterHref_text_eq_none_iff.mpr (clean first List.mem_cons_self)
    rw [List.cons_append, afterHref_cons_attributes, absent, Option.map_none, Option.none_or]
    exact ih fun attr member => clean attr (List.mem_cons_of_mem first member)

/-- Attributes behind an empty value that is not quoted: the space in front of them is taken
for the quote. -/
theorem bracketed_attributes_iff (attrs : List Attribute) :
    Bracketed [] (attributesText attrs) ↔ 32 ∉ (attributesText attrs).tail := by
  cases attrs with
  | nil => exact iff_of_true (.inr ⟨rfl, nofun⟩) List.not_mem_nil
  | cons first rest =>
    have split : attributesText (first :: rest) = 32 :: (first.text ++ attributesText rest) := rfl
    have start : ∀ u, first.text ++ attributesText rest ≠ 32 :: u := by
      intro u
      have named := first.named
      rw [Attribute.text]
      cases name : first.name with
      | nil => exact absurd name named.1
      | cons c more =>
        intro spaced
        have space : isspace c = false := (named.2 c (name ▸ List.mem_cons_self)).1
        rw [(List.cons.inj spaced).1] at space
        cases space
    rw [split, List.tail_cons]
    constructor
    · rintro (⟨q, u, whole, -⟩ | ⟨-, absent⟩)
      · obtain ⟨rfl, whole⟩ := List.cons.inj whole
        exact absurd whole (start u)
      · exact absent 32 _ rfl
    · intro absent
      refine .inr ⟨rfl, fun q u whole => ?_⟩
      obtain ⟨rfl, rfl⟩ := List.cons.inj whole
      exact absent

/-- The tag of an anchor up to its '>', around its attribute that is named href. -/
structure Anchor where
  opening : Bytes
  before : List Attribute
  href : Attribute
  after : List Attribute
  opens : lowerAscii opening = ascii "<a"
  named : lowerAscii href.name = ascii "href"

namespace Anchor

variable (anchor : Anchor)

def tag : Bytes :=
  anchor.opening ++ attributesText (anchor.before ++ anchor.href :: anchor.after)

def html : Bytes :=
  anchor.tag ++ [62]

/-- No attribute with "href=" in its text comes first, and the value is quoted, or empty with no
second space behind it. -/
def ReadsOwn : Prop :=
  (∀ attr ∈ anchor.before, ¬ attr.IsDecoy) ∧
    (anchor.href.quoting = .unquoted →
      anchor.href.value = [] ∧ 32 ∉ (attributesText anchor.after).tail)

/-- The value also stands behind the first "href=" of another attribute, between like bytes. -/
def ReadsAlike : Prop :=
  ∃ pre decoy post y, anchor.before = pre ++ decoy :: post ∧ (∀ attr ∈ pre, ¬ attr.IsDecoy) ∧
    BehindHref decoy.text y ∧
      Bracketed anchor.href.value (y ++ attributesText (post ++ anchor.href :: anchor.after))

theorem afterHref_tag : afterHref anchor.tag =
    afterHref (attributesText (anchor.before ++ anchor.href :: anchor.after)) := by
  have absent : afterHref anchor.opening = none := by
    rw [afterHref_eq_none_iff, anchor.opens]
    decide
  rw [tag, afterHref_append_attributes, absent, Option.map_none, Option.none_or]

theorem bracketed_written_iff :
    Bracketed anchor.href.value (anchor.href.written ++ attributesText anchor.after) ↔
      (anchor.href.quoting = .unquoted →
        anchor.href.value = [] ∧ 32 ∉ (attributesText anchor.after).tail) := by
  have allowed := anchor.href.allowed
  rw [Attribute.written]
  cases quoting : anchor.href.quoting with
  | double =>
    rw [quoting] at allowed
    refine iff_of_true (.inl ⟨34, attributesText anchor.after, ?_, allowed.1⟩) nofun
    simp [Quoting.mark]
  | single =>
    rw [quoting] at allowed
    refine iff_of_true (.inl ⟨39, attributesText anchor.after, ?_, allowed.1⟩) nofun
    simp [Quoting.mark]
  | unquoted =>
    rw [quoting] at allowed
    rw [Quoting.mark, List.nil_append, List.append_nil]
    refine Iff.trans ?_ (forall_prop_of_true rfl).symm
    constructor
    · intro read
      have empty : anchor.href.value = [] := by
        rcases read with ⟨q, u, split, absent⟩ | ⟨empty, -⟩
        · cases value : anchor.href.value with
          | nil => rfl
          | cons c more =>
            rw [value] at split absent
            exact absurd ((List.cons.inj split).1 ▸ List.mem_cons_self) absent
        · exact empty
      rw [empty] at read
      exact ⟨empty, (bracketed_attributes_iff anchor.after).mp read⟩
    · rintro ⟨empty, once⟩
      rw [empty]
      exact (bracketed_attributes_iff anchor.after).mpr once

theorem afterHref_own {anchor : Anchor} (clean : ∀ attr ∈ anchor.before, ¬ attr.IsDecoy) :
    afterHref anchor.tag = some (anchor.href.written ++ attributesText anchor.after) := by
  rw [afterHref_tag, afterHref_skip clean, afterHref_cons_attributes, Attribute.text,
    afterHref_named anchor.named]
  rfl

theorem afterHref_decoy {anchor : Anchor} {pre post : List Attribute} {decoy : Attribute}
    {y : Bytes} (split : anchor.before = pre ++ decoy :: post)
    (clean : ∀ attr ∈ pre, ¬ attr.IsDecoy) (behind : BehindHref decoy.text y) :
    afterHref anchor.tag = some (y ++ attributesText (post ++ anchor.href :: anchor.after)) := by
  rw [afterHref_tag, split, List.append_assoc, afterHref_skip clean, List.cons_append,
    afterHref_cons_attributes, afterHref_eq_some_iff.mpr behind]
  rfl

/-- When the value that is read is the one of the attribute. -/
theorem rawHref_tag_iff :
    rawHref anchor.tag = some anchor.href.value ↔ anchor.ReadsOwn ∨ anchor.ReadsAlike := by
  rw [rawHref_eq]
  constructor
  · intro read
    by_cases clean : ∀ attr ∈ anchor.before, ¬ attr.IsDecoy
    · rw [afterHref_own clean] at read
      have bracketed := quotedText_eq_iff.mp (Option.some.inj read)
      exact .inl ⟨clean, anchor.bracketed_written_iff.mp bracketed⟩
    · obtain ⟨decoy, found⟩ :
          ∃ decoy, anchor.before.find? (fun attr => attr.IsDecoy) = some decoy := by
        rw [← Option.isSome_iff_exists, List.find?_isSome]
        simpa using clean
      obtain ⟨isDecoy, pre, post, split, passed⟩ := List.find?_eq_some_iff_append.mp found
      have clean : ∀ attr ∈ pre, ¬ attr.IsDecoy := fun attr member => by
        simpa using passed attr member
      obtain ⟨y, after⟩ : ∃ y, afterHref decoy.text = some y := by
        rw [← Option.ne_none_iff_exists', ne_eq, decoy.afterHref_text_eq_none_iff, not_not]
        simpa using isDecoy
      have behind := afterHref_eq_some_iff.mp after
      rw [afterHref_decoy split clean behind] at read
      have bracketed := quotedText_eq_iff.mp (Option.some.inj read)
      exact .inr ⟨pre, decoy, post, y, split, clean, behind, bracketed⟩
  · rintro (⟨clean, quoted⟩ | ⟨pre, decoy, post, y, split, clean, behind, bracketed⟩)
    · rw [afterHref_own clean]
      exact congrArg some (quotedText_eq_iff.mpr (anchor.bracketed_written_iff.mpr quoted))
    · rw [afterHref_decoy split clean behind]
      exact congrArg some (quotedText_eq_iff.mpr bracketed)

theorem gt_not_mem_text (attr : Attribute) : 62 ∉ attr.text := by
  have name : 62 ∉ attr.name := fun member => (attr.named.2 62 member).2 (by decide)
  have allowed := attr.allowed
  rw [Attribute.text, Attribute.written]
  cases quoting : attr.quoting with
  | double =>
    rw [quoting] at allowed
    simp [Quoting.mark, name, allowed.2]
  | single =>
    rw [quoting] at allowed
    simp [Quoting.mark, name, allowed.2]
  | unquoted =>
    rw [quoting] at allowed
    have value : 62 ∉ attr.value := fun member => (allowed 62 member).2 (by decide)
    simp [Quoting.mark, name, value]

theorem gt_not_mem_tag : 62 ∉ anchor.tag := by
  have opening : 62 ∉ anchor.opening := by
    intro member
    have lowered : tolower 62 ∈ lowerAscii anchor.opening := List.mem_map_of_mem member
    rw [anchor.opens] at lowered
    exact absurd lowered (by decide)
  rw [tag, List.mem_append, not_or]
  refine ⟨opening, fun member => ?_⟩
  obtain ⟨attr, -, inside⟩ := List.mem_flatMap.mp member
  rcases List.mem_cons.mp inside with space | inside
  · exact absurd space (by decide)
  · exact gt_not_mem_text attr inside

end Anchor

theorem hrefLoop_append_left (before s : Bytes) (fuel pos : Nat) :
    hrefLoop (before ++ s) fuel (before.length + pos) = hrefLoop s fuel pos := by
  have anchors (pos : Nat) : ciFind (before ++ s) (ascii "<a ") (before.length + pos) =
      (ciFind s (ascii "<a ") pos).map (before.length + ·) := by
    rw [ciFind_eq_find (by decide), ciFind_eq_find (by decide), lowerAscii_append,
      ← length_lowerAscii before]
    exact Bytes.find_append_left ..
  induction fuel generalizing pos with
  | zero => rfl
  | succ fuel ih =>
    rw [hrefLoop, hrefLoop, anchors]
    cases ciFind s (ascii "<a ") pos with
    | none => rfl
    | some start =>
      simp only [Option.map_some, Bytes.findFirstOf_append_left]
      cases s.findFirstOf (ascii ">") start with
      | none => rfl
      | some stop =>
        simp only [Option.map_some, Bytes.substr, Bytes.drop_append_add, Nat.add_sub_add_left]
        rw [Nat.add_assoc, ih]

theorem hrefLoop_fuel {s : Bytes} {first second pos : Nat} (enough : s.length ≤ first + pos)
    (enough' : s.length ≤ second + pos) : hrefLoop s first pos = hrefLoop s second pos := by
  have finished (fuel pos : Nat) (past : s.length ≤ pos) : hrefLoop s fuel pos = [] := by
    cases fuel with
    | zero => rfl
    | succ fuel => simp [hrefLoop, ciFind, past]
  induction first generalizing second pos with
  | zero => rw [finished 0 pos (by omega), finished second pos (by omega)]
  | succ first ih =>
    cases second with
    | zero => rw [finished _ pos (by omega), finished _ pos (by omega)]
    | succ second =>
      rw [hrefLoop, hrefLoop]
      cases found : ciFind s (ascii "<a ") pos with
      | none => rfl
      | some start =>
        dsimp only
        cases closed : s.findFirstOf (ascii ">") start with
        | none => rfl
        | some stop =>
          have forward : pos ≤ start := by
            rw [ciFind] at found
            split at found
            · cases found
            · exact Bytes.le_of_scan found
          have past : start ≤ stop := Bytes.le_of_scan closed
          have next : hrefLoop s first (stop + 1) = hrefLoop s second (stop + 1) :=
            ih (by omega) (by omega)
          dsimp only
          rw [next]

theorem rawHrefs_plain {text : Bytes} (plain : ¬ ascii "<a " <:+: lowerAscii text) :
    rawHrefs text = [] := by
  have nowhere : ciFind text (ascii "<a ") 0 = none := by
    rw [ciFind_eq_find (by decide), ← Option.not_isSome_iff_eq_none]
    exact fun found => plain (Bytes.contains_iff_isInfix.mp found)
  rw [rawHrefs]
  cases text.length with
  | zero => rfl
  | succ fuel => rw [hrefLoop, nowhere]

/-- A page up to the end of its first anchor. -/
theorem rawHrefs_tag {text tag : Bytes} (plain : ¬ ascii "<a " <:+: lowerAscii text)
    (opens : ascii "<a " <+: lowerAscii tag) (inside : 62 ∉ tag) (rest : Bytes) :
    rawHrefs (text ++ (tag ++ 62 :: rest)) = (rawHref tag).toList ++ rawHrefs rest := by
  have start : ciFind (text ++ (tag ++ 62 :: rest)) (ascii "<a ") 0 = some text.length := by
    obtain ⟨more, opens⟩ := opens
    rw [ciFind_eq_find (by decide), lowerAscii_append, lowerAscii_append, ← opens,
      List.append_assoc]
    refine (Bytes.find_append_self (by decide) plain _).trans ?_
    rw [length_lowerAscii]
  have stop : Bytes.findFirstOf (text ++ (tag ++ 62 :: rest)) (ascii ">") text.length =
      some (text.length + tag.length) := by
    refine (Bytes.findFirstOf_append_left text _ (ascii ">") 0).trans ?_
    exact congrArg (Option.map _) (Bytes.findFirstOf_append_cons inside rest)
  obtain ⟨fuel, size⟩ : ∃ fuel, (text ++ (tag ++ 62 :: rest)).length = fuel + 1 :=
    ⟨text.length + tag.length + rest.length, by simp [Nat.add_assoc]⟩
  have page : text ++ (tag ++ 62 :: rest) = (text ++ (tag ++ [62])) ++ rest := by simp
  have next := hrefLoop_append_left (text ++ (tag ++ [62])) rest fuel 0
  have within : rest.length ≤ fuel + 0 := by
    simp only [List.length_append, List.length_cons] at size
    omega
  have position : text.length + tag.length + 1 = (text ++ (tag ++ [62])).length + 0 := by
    simp [Nat.add_assoc]
  rw [← page, ← position, hrefLoop_fuel within (Nat.le_refl _)] at next
  rw [rawHrefs, size, hrefLoop, start]
  dsimp only
  rw [stop]
  dsimp only
  rw [next, Bytes.substr, List.drop_left, Nat.add_sub_cancel_left, List.take_left]
  rfl

/-- Every "<a " has a '>' behind it. -/
def ClosesAnchors (text : Bytes) : Prop :=
  ∀ u, u <:+ text → ascii "<a " <+: lowerAscii u → 62 ∈ u

theorem closesAnchors_of_plain {text : Bytes} (plain : ¬ ascii "<a " <:+: lowerAscii text) :
    ClosesAnchors text := fun _ left opens =>
  absurd (opens.isInfix.trans (left.map tolower).isInfix) plain

theorem Anchor.opens_tag (anchor : Anchor) : ascii "<a " <+: lowerAscii anchor.tag := by
  rw [tag, lowerAscii_append, anchor.opens]
  cases anchor.before with
  | nil => exact ⟨_, rfl⟩
  | cons first before => exact ⟨_, rfl⟩

theorem split_first_anchor {text : Bytes} (closes : ClosesAnchors text)
    (anchored : ascii "<a " <:+: lowerAscii text) :
    ∃ start tag rest, text = start ++ (tag ++ 62 :: rest) ∧
      ¬ ascii "<a " <:+: lowerAscii start ∧ ascii "<a " <+: lowerAscii tag ∧ 62 ∉ tag := by
  obtain ⟨k, found⟩ := Option.isSome_iff_exists.mp (Bytes.contains_iff_isInfix.mpr anchored)
  obtain ⟨fits, here⟩ := Bytes.length_of_find found
  have dropped : (lowerAscii text).drop k = lowerAscii (text.drop k) := List.map_drop.symm
  rw [dropped] at here
  have plain : ¬ ascii "<a " <:+: lowerAscii (text.take k) := by
    rw [← Bytes.contains_iff_isInfix, Bytes.contains, Option.isSome_iff_exists]
    rintro ⟨j, early⟩
    have room := (Bytes.length_of_find early).1
    have again := Bytes.find_append early (lowerAscii (text.drop k))
    rw [← lowerAscii_append, List.take_append_drop, found] at again
    cases again
    rw [length_lowerAscii, List.length_take] at room
    have size : (ascii "<a ").length = 3 := rfl
    omega
  obtain ⟨tag, rest, split, inside⟩ :=
    List.eq_append_cons_of_mem (closes _ (List.drop_suffix k text) here)
  refine ⟨text.take k, tag, rest, ?_, plain, ?_, inside⟩
  · rw [← split, List.take_append_drop]
  · rw [split, lowerAscii_append] at here
    exact (Bytes.prefix_append_cons_iff (m := 62) (by decide) _ (lowerAscii rest)).mp here

/-- The anchors before a tag are read as they are without it. -/
theorem rawHrefs_append_tag {text tag : Bytes} (closes : ClosesAnchors text)
    (opens : ascii "<a " <+: lowerAscii tag) (inside : 62 ∉ tag) (rest : Bytes) :
    rawHrefs (text ++ (tag ++ 62 :: rest)) =
      rawHrefs text ++ ((rawHref tag).toList ++ rawHrefs rest) := by
  induction size : text.length using Nat.strong_induction_on generalizing text with
  | h n ih =>
    by_cases plain : ascii "<a " <:+: lowerAscii text
    · obtain ⟨start, first, more, rfl, plain, opens', inside'⟩ := split_first_anchor closes plain
      have suffix : more <:+ start ++ (first ++ 62 :: more) :=
        ⟨start ++ (first ++ [62]), by simp⟩
      have shorter : more.length < n := by
        simp only [List.length_append, List.length_cons] at size
        omega
      have later := ih more.length shorter (fun u left => closes u (left.trans suffix)) rfl
      rw [List.append_assoc, List.append_assoc, List.cons_append, rawHrefs_tag plain opens' inside',
        rawHrefs_tag plain opens' inside', later, List.append_assoc]
    · rw [rawHrefs_tag plain opens inside, rawHrefs_plain plain, List.nil_append]

/-- The raw value of an anchor is the value of its attribute named href exactly when no attribute
with "href=" in its text comes first and the value is quoted, or when what is read instead
happens to be the same. An empty value that is not quoted is read when no second space follows. -/
theorem Anchor.raw_value_iff (anchor : Anchor) {text : Bytes} (closes : ClosesAnchors text)
    (rest : Bytes) :
    (∀ baseUrl, htmlExtractLinks (text ++ (anchor.html ++ rest)) baseUrl =
        (rawHrefs (text ++ (anchor.html ++ rest))).flatMap (resolved baseUrl)) ∧
      (rawHrefs (text ++ (anchor.html ++ rest)) =
          rawHrefs text ++ anchor.href.value :: rawHrefs rest ↔
        anchor.ReadsOwn ∨ anchor.ReadsAlike) := by
  have page : anchor.html ++ rest = anchor.tag ++ 62 :: rest := by simp [html]
  refine ⟨htmlExtractLinks_eq _, ?_⟩
  rw [page, rawHrefs_append_tag closes anchor.opens_tag anchor.gt_not_mem_tag,
    List.append_cancel_left_eq, ← anchor.rawHref_tag_iff]
  cases rawHref anchor.tag with
  | none =>
    refine iff_of_false (fun same => ?_) nofun
    have length := congrArg List.length same
    simp at length
  | some raw => simp

def titledAnchor : Anchor where
  opening := ascii "<A"
  before := [⟨ascii "class", .double, ascii "x", by decide, by decide⟩]
  href := ⟨ascii "HREF", .single, ascii "/y", by decide, by decide⟩
  after := [⟨ascii "title", .unquoted, ascii "z", by decide, by decide⟩]
  opens := by decide
  named := by decide

theorem Anchor.raw_value_titled :
    rawHrefs (ascii "<p>" ++ (titledAnchor.html ++ ascii "</a>")) =
      rawHrefs (ascii "<p>") ++ ascii "/y" :: rawHrefs (ascii "</a>") :=
  (titledAnchor.raw_value_iff (closesAnchors_of_plain (by decide)) _).2.mpr
    (.inl ⟨by decide, nofun⟩)

def dataAnchor : Anchor where
  opening := ascii "<a"
  before := [⟨ascii "data-href", .double, ascii "/x", by decide, by decide⟩]
  href := ⟨ascii "href", .double, ascii "/y", by decide, by decide⟩
  after := []
  opens := by decide
  named := by decide

theorem Anchor.raw_value_data :
    dataAnchor.html = ascii "<a data-href=\"/x\" href=\"/y\">" ∧
      dataAnchor.href.value = ascii "/y" ∧ rawHrefs dataAnchor.html = [ascii "/x"] ∧
      htmlExtractLinks dataAnchor.html (ascii "http://h/") = [ascii "http://h/x"] := by
  decide

end ShadowSe

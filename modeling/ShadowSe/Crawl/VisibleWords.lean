import ShadowSe.Crawl.StripLoop
import ShadowSe.Text.Utf8Exact

namespace ShadowSe

/-- Whatever follows, the two texts have the same tokens. -/
def SameWords (out flat : Bytes) : Prop :=
  ∀ rest, tokenize (out ++ rest) = tokenize (flat ++ rest)

/-- White space and punctuation split tokens wherever they stand. -/
def Splits (c : UInt8) : Prop :=
  c < 0x80 ∧ isalnum c = false

theorem splits_of_isspace : ∀ c : UInt8, isspace c = true → Splits c := by
  unfold Splits
  apply forall_byte
  decide +kernel

theorem splits_of_ispunct : ∀ c : UInt8, ispunct c = true → Splits c := by
  unfold Splits
  apply forall_byte
  decide +kernel

theorem Splits.tokenize {c : UInt8} (splits : Splits c) (a b : Bytes) :
    tokenize (a ++ c :: b) = tokenize a ++ ShadowSe.tokenize b :=
  tokenize_cut splits.1 splits.2 a b

theorem splits_space : Splits 32 :=
  splits_of_isspace 32 rfl

theorem tokenize_nil : tokenize [] = [] := rfl

namespace SameWords

variable {a b c : Bytes}

theorem refl (a : Bytes) : SameWords a a := fun _ => rfl

theorem trans (first : SameWords a b) (second : SameWords b c) : SameWords a c :=
  fun rest => (first rest).trans (second rest)

theorem append (same : SameWords a b) (t : Bytes) : SameWords (a ++ t) (b ++ t) := by
  intro rest
  rw [List.append_assoc, List.append_assoc]
  exact same (t ++ rest)

theorem tokenize_eq (same : SameWords a b) : tokenize a = tokenize b := by
  simpa using same []

/-- A space before another separator is no difference. -/
theorem space {s : UInt8} (splits : Splits s) (a : Bytes) :
    SameWords (a ++ [s]) (a ++ [32] ++ [s]) := by
  intro rest
  rw [List.append_assoc, List.append_assoc, List.append_assoc, List.singleton_append,
    List.singleton_append, splits.tokenize, splits_space.tokenize, ← List.nil_append (s :: rest),
    splits.tokenize]
  rfl

theorem leading : SameWords [] [32] := by
  intro rest
  exact (splits_space.tokenize [] rest).symm

end SameWords

theorem sameWords_appendText (out : Bytes) (c : UInt8) :
    SameWords (appendText out c) (out ++ [c]) := by
  rw [appendText]
  split
  · rename_i popped
    obtain ⟨before, rfl⟩ := List.getLast?_eq_some_iff.mp popped.1
    rw [List.dropLast_concat]
    exact .space (splits_of_ispunct c popped.2) before
  · exact .refl _

theorem sameWords_separator (out : Bytes) : SameWords (separator out) (out ++ [32]) := by
  rw [separator]
  split
  · exact .refl _
  · rename_i kept
    by_cases empty : out = []
    · subst empty
      exact .leading
    · have last : out.getLast? = some 32 := by
        by_contra other
        exact kept ⟨empty, other⟩
      obtain ⟨before, rfl⟩ := List.getLast?_eq_some_iff.mp last
      exact .space splits_space before

theorem sameWords_text {out flat : Bytes} (same : SameWords out flat) (t : Bytes) :
    SameWords (t.foldl appendText out) (flat ++ t) := by
  induction t generalizing out flat with
  | nil => simpa using same
  | cons c rest ih =>
    have step := ih ((sameWords_appendText out c).trans (same.append [c]))
    simpa using step

theorem tokenize_collapseLoop (s : Bytes) (inSpace : Bool) (out : Bytes) :
    tokenize (collapseLoop s inSpace out) =
      tokenize (out ++ ((if inSpace then [32] else []) ++ s)) := by
  induction s generalizing inSpace out with
  | nil =>
    cases inSpace with
    | false => simp [collapseLoop]
    | true =>
      have ended := splits_space.tokenize out []
      rw [tokenize_nil, List.append_nil] at ended
      simpa [collapseLoop] using ended.symm
  | cons c rest ih =>
    rw [collapseLoop]
    split
    · rename_i space
      have splits := splits_of_isspace c space
      rw [ih]
      cases inSpace with
      | false =>
        simp only [↓reduceIte, List.singleton_append, Bool.false_eq_true, List.nil_append]
        rw [splits_space.tokenize, splits.tokenize]
      | true =>
        simp only [↓reduceIte, List.singleton_append]
        rw [splits_space.tokenize, splits_space.tokenize, ← List.nil_append (c :: rest),
          splits.tokenize]
        rfl
    · rw [ih]
      cases inSpace with
      | false => simp
      | true =>
        cases out with
        | nil =>
          simp only [Bool.true_and, List.isEmpty_nil, Bool.not_true, Bool.false_eq_true,
            ↓reduceIte, List.nil_append, List.singleton_append]
          exact (splits_space.tokenize [] (c :: rest)).symm
        | cons first more => simp

theorem tokenize_collapseWhitespace (s : Bytes) : tokenize (collapseWhitespace s) = tokenize s := by
  exact tokenize_collapseLoop s false []

/-- A piece of a page; the tail of a tag is what stands between its name and its '>'. -/
inductive Piece where
  | text (t : Bytes)
  | tag (closing : Bool) (name tail : Bytes)
  | comment (c : Bytes)
  | block (name tail body closeName closeTail : Bytes)

def IsName (name : Bytes) : Prop :=
  name ≠ [] ∧ ∀ c ∈ name, isalnum c = true

instance (name : Bytes) : Decidable (IsName name) :=
  inferInstanceAs (Decidable (_ ∧ _))

namespace Piece

def WellFormed : Piece → Prop
  | text t => 60 ∉ t
  | tag _ name tail => IsName name ∧ isRemoveBlock (lowerAscii name) = false ∧ IsTail tail
  | comment c => ¬ ascii "-->" <:+: c
  | block name tail body closeName closeTail =>
    (IsName name ∧ isRemoveBlock (lowerAscii name) = true ∧ IsTail tail ∧
      tail.getLast? ≠ some 47) ∧
    ¬ ascii "</" ++ lowerAscii name <:+: lowerAscii body ∧
    lowerAscii closeName = lowerAscii name ∧ IsTail closeTail

instance : (piece : Piece) → Decidable piece.WellFormed
  | text t => inferInstanceAs (Decidable (60 ∉ t))
  | tag _ name tail => inferInstanceAs
    (Decidable (IsName name ∧ isRemoveBlock (lowerAscii name) = false ∧ IsTail tail))
  | comment c => inferInstanceAs (Decidable (¬ ascii "-->" <:+: c))
  | block _ _ _ _ _ => inferInstanceAs (Decidable ((_ ∧ _ ∧ _ ∧ _) ∧ _ ∧ _ ∧ _))

/-- The piece as it is written. -/
def html : Piece → Bytes
  | text t => t
  | tag closing name tail => tagText closing name tail
  | comment c => ascii "<!--" ++ (c ++ ascii "-->")
  | block name tail body closeName closeTail =>
    tagText false name tail ++ (body ++ tagText true closeName closeTail)

/-- The piece as it is read: a text as itself, a tag or a block as a space, a comment as
nothing. -/
def words : Piece → Bytes
  | text t => t
  | tag .. => [32]
  | comment _ => []
  | block .. => [32]

end Piece

theorem isalnum_plain : ∀ c : UInt8, isalnum c = true →
    c ∉ ascii " \t\n/>" ∧ c ≠ 33 ∧ c ≠ 60 := by
  apply forall_byte
  decide +kernel

theorem IsName.isTagName {name : Bytes} (named : IsName name) : IsTagName name := by
  refine ⟨named.1, fun c member => (isalnum_plain c (named.2 c member)).1, ?_⟩
  cases name with
  | nil => exact absurd rfl named.1
  | cons c rest =>
    intro same
    exact (isalnum_plain c (named.2 c List.mem_cons_self)).2.1 (Option.some.inj same)

/-- A block whose body holds no close tag ends at the first one behind it. -/
theorem afterClose_body {name body closeName closeTail : Bytes} (named : IsName name)
    (inner : ¬ ascii "</" ++ lowerAscii name <:+: lowerAscii body)
    (same : lowerAscii closeName = lowerAscii name) (ends : IsTail closeTail) (s : Bytes) :
    afterClose (lowerAscii name) (body ++ (tagText true closeName closeTail ++ s)) = some s := by
  have close : tagText true closeName closeTail ++ s =
      ascii "</" ++ (closeName ++ (closeTail ++ 62 :: s)) := by simp [tagText, ascii]
  rw [close, afterClose_skip, afterClose_here same ends.1]
  · intro c u split
    cases closeTail with
    | nil =>
      cases split
      decide
    | cons first more =>
      have delimiter := ends.2 first rfl
      rw [← (List.cons.inj split).1]
      exact delimiter_mem first delimiter
  · have hidden (written : Bytes) (inside : ascii "</" ++ written <:+: body)
        (lowered : lowerAscii written = lowerAscii name) :
        ascii "</" ++ lowerAscii name <:+: lowerAscii body := by
      have mapped : lowerAscii (ascii "</" ++ written) <:+: lowerAscii body := inside.map tolower
      rwa [lowerAscii_append, lowered] at mapped
    intro k within
    rw [Bool.eq_false_iff, ne_eq, closesAt_iff, List.drop_append_of_le_length (Nat.le_of_lt within)]
    rintro ⟨written, t, split, lowered, _⟩
    have letters : 60 ∉ written := by
      intro member
      have lower : 60 ∈ lowerAscii name := lowered ▸ List.mem_map.mpr ⟨60, member, rfl⟩
      obtain ⟨c, inName, back⟩ := List.mem_map.mp lower
      exact (isalnum_plain c (named.2 c inName)).2.2 ((tolower_markup c).1.mp back)
    -- A close tag would lie in the body or reach into the one behind it.
    rw [← List.append_assoc (ascii "</") written] at split
    rcases List.append_eq_append_iff.mp split with ⟨overlap, inTag, behind⟩ | ⟨more, inBody, _⟩
    · cases overlap with
      | nil =>
        rw [List.append_nil] at inTag
        exact inner (hidden written (inTag ▸ List.drop_suffix k body).isInfix lowered)
      | cons x overlap =>
        obtain rfl : 60 = x := (List.cons.inj behind).1
        cases left : body.drop k with
        | nil =>
          have size := congrArg List.length left
          rw [List.length_drop, List.length_nil] at size
          omega
        | cons y rest =>
          rw [left] at inTag
          have reached : 60 ∈ 47 :: written := by
            have tail : 47 :: written = rest ++ 60 :: overlap := (List.cons.inj inTag).2
            rw [tail]
            exact List.mem_append_right _ List.mem_cons_self
          rcases List.mem_cons.mp reached with slash | member
          · cases slash
          · exact letters member
    · refine inner (hidden written ?_ lowered)
      exact ((List.prefix_append _ more).isInfix.trans (inBody ▸ List.infix_rfl)).trans
        (List.drop_suffix k body).isInfix

/-- One piece: the loop goes on behind it, and its output has the same words. -/
theorem Piece.strip_html {piece : Piece} (valid : piece.WellFormed) (s out : Bytes) :
    ∃ next, strip (piece.html ++ s) out = strip s next ∧ SameWords next (out ++ piece.words) := by
  cases piece with
  | text t => exact ⟨_, strip_text valid s out, sameWords_text (.refl out) t⟩
  | comment c =>
    refine ⟨out, ?_, by simpa [words] using SameWords.refl out⟩
    simpa [html] using strip_comment valid s out
  | tag closing name tail =>
    obtain ⟨named, kept, ends⟩ := valid
    have step := strip_tagText closing named.isTagName ends (by simp [kept]) s out
    rw [if_neg (by simp [kept])] at step
    exact ⟨separator out, step, sameWords_separator out⟩
  | block name tail body closeName closeTail =>
    obtain ⟨⟨named, removed, ends, proper⟩, inner, same, ends'⟩ := valid
    have step := strip_tagText false named.isTagName ends (fun _ => proper)
      (body ++ (tagText true closeName closeTail ++ s)) out
    rw [if_pos removed, afterClose_body named inner same ends'] at step
    exact ⟨separator out, by simpa [html] using step, sameWords_separator out⟩

/-- Visible words survive stripping. -/
theorem tokenize_htmlStripTags (pieces : List Piece) (valid : ∀ piece ∈ pieces, piece.WellFormed) :
    tokenize (htmlStripTags (pieces.flatMap Piece.html)) =
      tokenize (pieces.flatMap Piece.words) := by
  have looped : ∀ out flat : Bytes, SameWords out flat →
      SameWords (strip (pieces.flatMap Piece.html) out) (flat ++ pieces.flatMap Piece.words) := by
    induction pieces with
    | nil =>
      intro out flat same
      simpa [strip_nil] using same
    | cons piece rest ih =>
      intro out flat same
      obtain ⟨first, others⟩ := List.forall_mem_cons.mp valid
      obtain ⟨next, step, read⟩ := Piece.strip_html first (rest.flatMap Piece.html) out
      have later := ih others next (flat ++ piece.words) (read.trans (same.append _))
      simpa [step] using later
  rw [htmlStripTags_eq_strip, tokenize_collapseWhitespace]
  exact (looped [] [] (.refl [])).tokenize_eq

/-- A word around a comment, a tag of its own, and a block with a close tag in capitals. -/
theorem tokenize_htmlStripTags_page :
    tokenize (htmlStripTags (ascii "wor<!--x-->d<BR/>!<nav id=n>a</NAV >b")) =
      [ascii "word", ascii "b"] :=
  (tokenize_htmlStripTags
    [.text (ascii "wor"), .comment (ascii "x"), .text (ascii "d"),
      .tag false (ascii "BR") (ascii "/"), .text (ascii "!"),
      .block (ascii "nav") (ascii " id=n") (ascii "a") (ascii "NAV") (ascii " "),
      .text (ascii "b")] (by decide +kernel)).trans (by decide +kernel)

end ShadowSe

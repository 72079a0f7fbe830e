import ShadowSe.Crawl.VisibleWords

namespace ShadowSe

/-- A well-nested page: texts, possibly empty, and elements between them. -/
inductive Content where
  | last (t : Bytes)
  | element (t name : Bytes) (inner rest : Content)

/-- An element that is dropped with all that is in it. -/
def isRemoved (name : Bytes) : Bool :=
  isRemoveBlock (lowerAscii name)

namespace Content

def WellFormed : Content → Prop
  | last t => 60 ∉ t
  | element t name inner rest => 60 ∉ t ∧ IsTagName name ∧ inner.WellFormed ∧ rest.WellFormed

instance decidableWellFormed : (content : Content) → Decidable content.WellFormed
  | last t => inferInstanceAs (Decidable (60 ∉ t))
  | element _ _ inner rest =>
    have := decidableWellFormed inner
    have := decidableWellFormed rest
    inferInstanceAs (Decidable (_ ∧ _ ∧ _ ∧ _))

/-- The page as it is written. -/
def html : Content → Bytes
  | last t => t
  | element t name inner rest =>
    t ++ (tagText false name [] ++ (inner.html ++ (tagText true name [] ++ rest.html)))

/-- An element of that name, letter case aside, is somewhere inside. -/
def Mentions (name : Bytes) : Content → Prop
  | last _ => False
  | element _ other inner rest =>
    lowerAscii other = lowerAscii name ∨ inner.Mentions name ∨ rest.Mentions name

/-- No element that is removed, and is not inside another one, holds an element of its own
name. -/
def Separate : Content → Prop
  | last _ => True
  | element _ name inner rest =>
    (if isRemoved name then ¬ inner.Mentions name else inner.Separate) ∧ rest.Separate

instance decidableMentions (name : Bytes) : (content : Content) → Decidable (content.Mentions name)
  | last _ => inferInstanceAs (Decidable False)
  | element _ _ inner rest =>
    have := decidableMentions name inner
    have := decidableMentions name rest
    inferInstanceAs (Decidable (_ ∨ _ ∨ _))

instance decidableSeparate : (content : Content) → Decidable content.Separate
  | last _ => inferInstanceAs (Decidable True)
  | element _ name inner rest =>
    have := decidableSeparate inner
    have := decidableSeparate rest
    inferInstanceAs (Decidable ((if isRemoved name then ¬ inner.Mentions name else _) ∧ _))

/-- The texts outside all removed elements. -/
def visibleTexts : Content → List Bytes
  | last t => [t]
  | element t name inner rest =>
    t :: ((if isRemoved name then [] else inner.visibleTexts) ++ rest.visibleTexts)

/-- The same elements with the same texts, except for texts inside removed elements. -/
def SameVisible (hidden : Bool) : Content → Content → Prop
  | last t, last t' => hidden = true ∨ t = t'
  | element t name inner rest, element t' name' inner' rest' =>
    (hidden = true ∨ t = t') ∧ name = name' ∧
      SameVisible (hidden || isRemoved name) inner inner' ∧ SameVisible hidden rest rest'
  | _, _ => False

/-- No text inside a removed element makes a difference, and every token outside is kept. -/
def RemovedExactly (page : Content) : Prop :=
  (∀ other : Content, other.WellFormed → SameVisible false page other →
    htmlStripTags other.html = htmlStripTags page.html) ∧
  ∀ t ∈ page.visibleTexts, ∀ token ∈ tokenize t, token ∈ tokenize (htmlStripTags page.html)

/-- The visible texts with a space for each tag or removed element between them. -/
def words : Content → Bytes
  | last t => t
  | element t name inner rest =>
    t ++ 32 :: ((if isRemoved name then [] else inner.words ++ [32]) ++ rest.words)

/-- The output for a separate page. -/
def emit : Content → Bytes → Bytes
  | last t, out => t.foldl appendText out
  | element t name inner rest, out =>
    let opened := separator (t.foldl appendText out)
    rest.emit (if isRemoved name then opened else separator (inner.emit opened))

end Content

theorem closesAt_of_not_markup {name s : Bytes} (plain : ¬ ascii "</" <+: s) :
    closesAt name s = false := by
  rw [Bool.eq_false_iff, ne_eq, closesAt_iff]
  rintro ⟨written, t, rfl, _⟩
  exact plain (List.prefix_append _ _)

theorem afterClose_text {t : Bytes} (text : 60 ∉ t) (name s : Bytes) :
    afterClose name (t ++ s) = afterClose name s := by
  induction t with
  | nil => rfl
  | cons c rest ih =>
    rw [List.mem_cons, not_or] at text
    have plain : ¬ ascii "</" <+: c :: (rest ++ s) := by
      simp [ascii, List.cons_prefix_cons, text.1]
    rw [List.cons_append, afterClose_cons, closesAt_of_not_markup plain, ih text.2]
    rfl

theorem afterClose_slashless {w : Bytes} (slashless : 47 ∉ w) (last : w.getLast? ≠ some 60)
    (name s : Bytes) : afterClose name (w ++ s) = afterClose name s := by
  induction w with
  | nil => rfl
  | cons c rest ih =>
    rw [List.mem_cons, not_or] at slashless
    have plain : ¬ ascii "</" <+: c :: (rest ++ s) := by
      cases rest with
      | nil =>
        have other : c ≠ 60 := fun same => last (by rw [same]; rfl)
        simp [ascii, List.cons_prefix_cons, Ne.symm other]
      | cons d more =>
        have other : 47 ≠ d := fun same => slashless.2 (same ▸ List.mem_cons_self)
        simp [ascii, List.cons_prefix_cons, other]
    rw [List.cons_append, afterClose_cons, closesAt_of_not_markup plain]
    refine ih slashless.2 ?_
    cases rest with
    | nil => simp
    | cons d more => rwa [List.getLast?_cons_cons] at last

theorem isTail_nil : IsTail [] := by
  decide

private theorem name_letter : ∀ c : UInt8, c ∉ ascii " \t\n/>" →
    c ≠ 47 ∧ c ∉ ascii " >/\t\n" := by
  apply forall_byte
  decide +kernel

theorem tolower_gt : ∀ c : UInt8, tolower c = 62 ↔ c = 62 := by
  apply forall_byte
  decide +kernel

theorem afterClose_own {name other : Bytes}
    (same : lowerAscii other = lowerAscii name) (s : Bytes) :
    afterClose (lowerAscii name) (tagText true other [] ++ s) = some s := by
  have here := afterClose_here (s := s) same (t := []) List.not_mem_nil
    (by rintro c u split; cases split; decide)
  simpa [tagText, ascii] using here

section

variable {name other : Bytes} (named : IsTagName name)

include named

theorem afterClose_openTag (n s : Bytes) :
    afterClose n (tagText false name [] ++ s) = afterClose n s := by
  have slashless : 47 ∉ tagText false name [] := by
    have inName : 47 ∉ name := fun member => (name_letter 47 (named.2.1 47 member)).1 rfl
    simp [tagText, inName]
  refine afterClose_slashless slashless ?_ n s
  rw [tagText, List.getLast?_concat]
  decide

theorem afterClose_foreign (called : IsTagName other)
    (differ : lowerAscii other ≠ lowerAscii name) (s : Bytes) :
    afterClose (lowerAscii name) (tagText true other [] ++ s) =
      afterClose (lowerAscii name) s := by
  have written : tagText true other [] ++ s = 60 :: (47 :: ((other ++ [62]) ++ s)) := by
    simp [tagText]
  have passed : closesAt (lowerAscii name) (60 :: (47 :: ((other ++ [62]) ++ s))) = false := by
    rw [Bool.eq_false_iff, ne_eq, closesAt_iff]
    rintro ⟨spelled, t, split, lowered, ends⟩
    have tail : other ++ (62 :: s) = spelled ++ t := by simpa [ascii] using split
    rcases List.append_eq_append_iff.mp tail with ⟨more, longer, rest⟩ | ⟨more, shorter, rest⟩
    · cases more with
      | nil => exact differ (by rw [← lowered, longer, List.append_nil])
      | cons c more =>
        -- The name searched for would hold a '>'.
        obtain rfl : 62 = c := (List.cons.inj rest).1
        have member : 62 ∈ lowerAscii name := by
          rw [← lowered, longer]
          exact List.mem_map.mpr ⟨62, by simp, rfl⟩
        obtain ⟨c, inName, back⟩ := List.mem_map.mp member
        rw [tolower_gt] at back
        exact named.2.1 c inName (back ▸ by decide)
    · cases more with
      | nil => exact differ (by rw [← lowered, shorter, List.append_nil])
      | cons c more =>
        -- The name found would go on after the delimiter.
        have member : c ∈ other := by
          rw [shorter]
          simp
        exact (name_letter c (called.2.1 c member)).2 (ends c _ rest)
  have slashless : 47 ∉ other ++ [62] := by
    have inName : 47 ∉ other := fun member => (name_letter 47 (called.2.1 47 member)).1 rfl
    simp [inName]
  have second : ¬ ascii "</" <+: 47 :: ((other ++ [62]) ++ s) := by
    simp [ascii, List.cons_prefix_cons]
  rw [written, afterClose_cons, passed, if_neg Bool.false_ne_true, afterClose_cons,
    closesAt_of_not_markup second, if_neg Bool.false_ne_true,
    afterClose_slashless slashless (by simp)]

end

namespace Content

/-- The search passes over content that does not mention the name. -/
theorem afterClose_html {name : Bytes} (named : IsTagName name) {content : Content}
    (valid : content.WellFormed) (absent : ¬ content.Mentions name) (s : Bytes) :
    afterClose (lowerAscii name) (content.html ++ s) = afterClose (lowerAscii name) s := by
  induction content generalizing s with
  | last t => exact afterClose_text valid _ s
  | element t other inner rest ihInner ihRest =>
    obtain ⟨text, called, inside, behind⟩ := valid
    simp only [Mentions, not_or] at absent
    simp only [html, List.append_assoc]
    rw [afterClose_text text, afterClose_openTag called, ihInner inside absent.2.1,
      afterClose_foreign named called absent.1, ihRest behind absent.2.2]

/-- The output of a separate page is made of its visible texts. -/
theorem strip_html {content : Content} (valid : content.WellFormed) (separate : content.Separate)
    (s out : Bytes) : strip (content.html ++ s) out = strip s (content.emit out) := by
  induction content generalizing s out with
  | last t => exact strip_text valid s out
  | element t name inner rest ihInner ihRest =>
    obtain ⟨text, named, inside, behind⟩ := valid
    obtain ⟨apart, separateRest⟩ := separate
    simp only [html, List.append_assoc]
    rw [strip_text text, strip_tagText false named isTail_nil (by simp)]
    by_cases removed : isRemoved name = true
    · rw [if_pos removed] at apart
      rw [if_pos (show isRemoveBlock (lowerAscii name) = true from removed),
        afterClose_html named inside apart, afterClose_own rfl]
      simp only [ihRest behind separateRest, emit, removed, ↓reduceIte]
    · rw [if_neg removed] at apart
      have kept : ¬ isRemoveBlock (lowerAscii name) = true := removed
      rw [if_neg kept, ihInner inside apart, strip_tagText true named isTail_nil (by simp),
        if_neg kept, ihRest behind separateRest]
      simp only [emit, removed, Bool.false_eq_true, ↓reduceIte]

theorem SameVisible.mentions {hidden : Bool} {page other : Content}
    (same : SameVisible hidden page other) (name : Bytes) :
    other.Mentions name ↔ page.Mentions name := by
  induction page generalizing hidden other with
  | last t =>
    cases other with
    | last t' => exact Iff.rfl
    | element t' name' inner' rest' => cases same
  | element t called inner rest ihInner ihRest =>
    cases other with
    | last t' => cases same
    | element t' name' inner' rest' =>
      obtain ⟨_, rfl, inside, behind⟩ := same
      exact or_congr Iff.rfl (or_congr (ihInner inside) (ihRest behind))

theorem SameVisible.separate {hidden : Bool} {page other : Content}
    (same : SameVisible hidden page other) (separate : page.Separate) : other.Separate := by
  induction page generalizing hidden other with
  | last t =>
    cases other with
    | last t' => trivial
    | element t' name' inner' rest' => cases same
  | element t name inner rest ihInner ihRest =>
    cases other with
    | last t' => cases same
    | element t' name' inner' rest' =>
      obtain ⟨_, rfl, inside, behind⟩ := same
      refine ⟨?_, ihRest behind separate.2⟩
      have apart := separate.1
      split
      · rename_i removed
        rw [if_pos removed] at apart
        rwa [inside.mentions]
      · rename_i kept
        rw [if_neg kept] at apart
        exact ihInner inside apart

theorem SameVisible.emit_eq {page other : Content} (same : SameVisible false page other) :
    other.emit = page.emit := by
  induction page generalizing other with
  | last t =>
    cases other with
    | last t' =>
      obtain rfl : t = t' := by simpa [SameVisible] using same
      rfl
    | element t' name' inner' rest' => cases same
  | element t name inner rest ihInner ihRest =>
    cases other with
    | last t' => cases same
    | element t' name' inner' rest' =>
      obtain ⟨text, rfl, inside, behind⟩ := same
      obtain rfl : t = t' := by simpa using text
      funext out
      simp only [emit, ihRest behind]
      by_cases removed : isRemoved name = true
      · simp only [removed, ↓reduceIte]
      · rw [Bool.not_eq_true] at removed
        rw [removed, Bool.or_false] at inside
        simp only [removed, Bool.false_eq_true, ↓reduceIte, ihInner inside]

theorem sameWords_emit {out flat : Bytes} (same : SameWords out flat) (page : Content) :
    SameWords (page.emit out) (flat ++ page.words) := by
  induction page generalizing out flat with
  | last t => exact sameWords_text same t
  | element t name inner rest ihInner ihRest =>
    have opened : SameWords (separator (t.foldl appendText out)) (flat ++ t ++ [32]) :=
      (sameWords_separator _).trans ((sameWords_text same t).append [32])
    by_cases removed : isRemoved name = true
    · simpa [emit, words, removed] using ihRest opened
    · have closed := (sameWords_separator _).trans ((ihInner opened).append [32])
      simpa [emit, words, removed] using ihRest closed

theorem tokenize_words (page : Content) (b : Bytes) :
    tokenize (page.words ++ 32 :: b) = page.visibleTexts.flatMap tokenize ++ tokenize b := by
  induction page generalizing b with
  | last t => simpa [words, visibleTexts] using splits_space.tokenize t b
  | element t name inner rest ihInner ihRest =>
    by_cases removed : isRemoved name = true
    · simp only [words, visibleTexts, removed, ↓reduceIte, List.nil_append, List.append_assoc,
        List.cons_append, List.flatMap_cons]
      rw [splits_space.tokenize, ihRest]
    · simp only [words, visibleTexts, removed, Bool.false_eq_true, ↓reduceIte, List.append_assoc,
        List.cons_append, List.nil_append, List.flatMap_cons, List.flatMap_append]
      rw [splits_space.tokenize, ihInner, ihRest]

theorem tokenize_htmlStripTags_html {page : Content} (valid : page.WellFormed)
    (separate : page.Separate) :
    tokenize (htmlStripTags page.html) = page.visibleTexts.flatMap tokenize := by
  have stripped := strip_html valid separate [] []
  rw [List.append_nil, strip_nil] at stripped
  have ended := splits_space.tokenize page.words []
  rw [tokenize_words] at ended
  have same := (sameWords_emit (.refl []) page).tokenize_eq
  rw [htmlStripTags_eq_strip, tokenize_collapseWhitespace, stripped, same, List.nil_append]
  simpa [tokenize_nil] using ended.symm

end Content

theorem count_appendText (out : Bytes) (c : UInt8) :
    (appendText out c).count 120 = out.count 120 + [c].count 120 := by
  rw [appendText, List.count_append]
  split
  · rename_i popped
    obtain ⟨before, rfl⟩ := List.getLast?_eq_some_iff.mp popped.1
    simp
  · rfl

theorem count_separator (out : Bytes) : (separator out).count 120 = out.count 120 := by
  rw [separator]
  split
  · simp
  · rfl

theorem count_collapseLoop (s : Bytes) (inSpace : Bool) (out : Bytes) :
    (collapseLoop s inSpace out).count 120 = out.count 120 + s.count 120 := by
  induction s generalizing inSpace out with
  | nil => rfl
  | cons c rest ih =>
    have head : ([c] ++ rest).count 120 = [c].count 120 + rest.count 120 := List.count_append
    rw [List.singleton_append] at head
    rw [collapseLoop, head]
    split
    · rename_i space
      have other : c ≠ 120 := by
        rintro rfl
        cases space
      rw [ih]
      simp [other]
    · rw [ih, List.count_append]
      split
      · simp [Nat.add_assoc]
      · rw [Nat.add_assoc]

/-- A turn ends the loop with its output, or adds to it whatever the output is. -/
theorem stripStep_added (s : Bytes) :
    (∀ out, stripStep s 0 out = .inl out) ∨
      ∃ i added, ∀ out, ∃ next, stripStep s 0 out = .inr (i, next) ∧
        next.count 120 = out.count 120 + added := by
  unfold stripStep
  split
  · exact .inl fun _ => rfl
  · rename_i c _
    split
    · exact .inr ⟨_, [c].count 120, fun out => ⟨_, rfl, count_appendText out c⟩⟩
    · split
      · split
        · exact .inl fun _ => rfl
        · exact .inr ⟨_, 0, fun out => ⟨_, rfl, rfl⟩⟩
      · dsimp only
        split
        · split
          · exact .inl fun _ => rfl
          · exact .inr ⟨_, 0, fun out => ⟨_, rfl, count_separator out⟩⟩
        · exact .inr ⟨_, 0, fun out => ⟨_, rfl, count_separator out⟩⟩

/-- What the rest of a page adds does not depend on the output so far. -/
theorem strip_added (s : Bytes) :
    ∃ added, ∀ out, (strip s out).count 120 = out.count 120 + added := by
  induction size : s.length using Nat.strongRecOn generalizing s with
  | _ size ih =>
    by_cases empty : s = []
    · subst empty
      exact ⟨0, fun out => rfl⟩
    rcases stripStep_added s with ended | ⟨i, added, turn⟩
    · refine ⟨0, fun out => ?_⟩
      rw [strip_eq_step empty, ended]
      rfl
    · have advance : 0 < i := by
        obtain ⟨next, stepped, _⟩ := turn []
        exact stripStep_advance empty stepped
      have positive := List.length_pos_iff.mpr empty
      obtain ⟨later, rest⟩ := ih (s.drop i).length (by rw [List.length_drop]; omega) _ rfl
      refine ⟨added + later, fun out => ?_⟩
      obtain ⟨next, stepped, grown⟩ := turn out
      rw [strip_eq_step empty, stepped, Sum.elim_inr, rest, grown, Nat.add_assoc]

theorem count_strip_cons (u out : Bytes) :
    (strip (120 :: u) out).count 120 = (strip u out).count 120 + 1 := by
  obtain ⟨added, grown⟩ := strip_added u
  rw [strip_cons (by decide), grown, grown, count_appendText]
  simp [Nat.add_right_comm]

namespace Content

theorem SameVisible.refl (hidden : Bool) (page : Content) : SameVisible hidden page page := by
  induction page generalizing hidden with
  | last t => exact .inr rfl
  | element t name inner rest ihInner ihRest =>
    exact ⟨.inr rfl, rfl, ihInner _, ihRest _⟩

/-- The content with one more letter in front. -/
def lettered : Content → Content
  | last t => last (120 :: t)
  | element t name inner rest => element (120 :: t) name inner rest

theorem html_lettered (content : Content) : content.lettered.html = 120 :: content.html := by
  cases content with
  | last t => rfl
  | element t name inner rest => rfl

theorem WellFormed.lettered {content : Content} (valid : content.WellFormed) :
    content.lettered.WellFormed := by
  cases content with
  | last t => simpa [WellFormed, Content.lettered] using valid
  | element t name inner rest => simpa [WellFormed, Content.lettered] using valid

theorem sameVisible_lettered (content : Content) : SameVisible true content content.lettered := by
  cases content with
  | last t => exact .inl rfl
  | element t name inner rest => exact ⟨.inl rfl, rfl, .refl _ _, .refl _ _⟩

/-- Behind the first close tag of the name there is a text of the block, which comes out. -/
theorem afterClose_leak {name : Bytes} (named : IsTagName name) {content : Content}
    (valid : content.WellFormed) (mentions : content.Mentions name) :
    ∃ other : Content, other.WellFormed ∧ SameVisible true content other ∧
      ∀ s, ∃ u, afterClose (lowerAscii name) (content.html ++ s) = some u ∧
        afterClose (lowerAscii name) (other.html ++ s) = some (120 :: u) := by
  induction content with
  | last t => exact absurd mentions id
  | element t called inner rest ihInner ihRest =>
    obtain ⟨text, calledWell, inside, behind⟩ := valid
    have opened (content : Content) (s : Bytes) :
        afterClose (lowerAscii name) (t ++ (tagText false called [] ++ (content.html ++ s))) =
          afterClose (lowerAscii name) (content.html ++ s) := by
      rw [afterClose_text text, afterClose_openTag calledWell]
    by_cases deeper : inner.Mentions name
    · obtain ⟨other, valid', same, leaks⟩ := ihInner inside deeper
      refine ⟨element t called other rest, ⟨text, calledWell, valid', behind⟩,
        ⟨.inl rfl, rfl, same, .refl _ _⟩, fun s => ?_⟩
      obtain ⟨u, found, found'⟩ := leaks (tagText true called [] ++ (rest.html ++ s))
      refine ⟨u, ?_, ?_⟩
      · simpa [html, opened] using found
      · simpa [html, opened] using found'
    by_cases own : lowerAscii called = lowerAscii name
    · refine ⟨element t called inner rest.lettered, ⟨text, calledWell, inside, behind.lettered⟩,
        ⟨.inl rfl, rfl, .refl _ _, sameVisible_lettered rest⟩, fun s => ⟨rest.html ++ s, ?_, ?_⟩⟩
      · simp only [html, List.append_assoc, opened]
        rw [afterClose_html named inside deeper, afterClose_own own]
      · simp only [html, List.append_assoc, opened]
        rw [afterClose_html named inside deeper, afterClose_own own, html_lettered]
        rfl
    · have later : rest.Mentions name := by
        rcases mentions with same | found | found
        · exact absurd same own
        · exact absurd found deeper
        · exact found
      obtain ⟨other, valid', same, leaks⟩ := ihRest behind later
      refine ⟨element t called inner other, ⟨text, calledWell, inside, valid'⟩,
        ⟨.inl rfl, rfl, .refl _ _, same⟩, fun s => ?_⟩
      obtain ⟨u, found, found'⟩ := leaks s
      refine ⟨u, ?_, ?_⟩
      · simp only [html, List.append_assoc, opened]
        rw [afterClose_html named inside deeper, afterClose_foreign named calledWell own, found]
      · simp only [html, List.append_assoc, opened]
        rw [afterClose_html named inside deeper, afterClose_foreign named calledWell own, found']

theorem exists_leak {page : Content} (valid : page.WellFormed) (mixed : ¬ page.Separate) :
    ∃ other : Content, other.WellFormed ∧ SameVisible false page other ∧
      ∀ s out, (strip (other.html ++ s) out).count 120 =
        (strip (page.html ++ s) out).count 120 + 1 := by
  induction page with
  | last t => exact absurd trivial mixed
  | element t name inner rest ihInner ihRest =>
    obtain ⟨text, named, inside, behind⟩ := valid
    -- Where the rest of the page leaks, the element before it is read alike in both.
    have restLeak (mixedRest : ¬ rest.Separate)
        (before : ∀ (content : Content) (s out : Bytes), ∃ next,
          strip ((element t name inner content).html ++ s) out = strip (content.html ++ s) next ∧
          strip ((element t name inner rest).html ++ s) out = strip (rest.html ++ s) next) :
        ∃ other : Content, other.WellFormed ∧ SameVisible false (element t name inner rest) other ∧
          ∀ s out, (strip (other.html ++ s) out).count 120 =
            (strip ((element t name inner rest).html ++ s) out).count 120 + 1 := by
      obtain ⟨other, valid', same, more⟩ := ihRest behind mixedRest
      refine ⟨element t name inner other, ⟨text, named, inside, valid'⟩,
        ⟨.inr rfl, rfl, .refl _ _, same⟩, fun s out => ?_⟩
      obtain ⟨next, read, read'⟩ := before other s out
      rw [read, read', more]
    by_cases removed : isRemoved name = true
    · have block : isRemoveBlock (lowerAscii name) = true := removed
      by_cases mentions : inner.Mentions name
      · obtain ⟨other, valid', same, leaks⟩ := afterClose_leak named inside mentions
        refine ⟨element t name other rest, ⟨text, named, valid', behind⟩,
          ⟨.inr rfl, rfl, by simpa [removed] using same, .refl _ _⟩, fun s out => ?_⟩
        obtain ⟨u, found, found'⟩ := leaks (tagText true name [] ++ (rest.html ++ s))
        simp only [html, List.append_assoc]
        rw [strip_text text, strip_tagText false named isTail_nil (by simp), if_pos block, found',
          strip_text text, strip_tagText false named isTail_nil (by simp), if_pos block, found]
        exact count_strip_cons u _
      · have mixed' : ¬ _ := fun separate => mixed ⟨by rwa [if_pos removed], separate⟩
        refine restLeak mixed' fun content s out => ?_
        have read (content : Content) : strip ((element t name inner content).html ++ s) out =
            strip (content.html ++ s) (separator (t.foldl appendText out)) := by
          simp only [html, List.append_assoc]
          rw [strip_text text, strip_tagText false named isTail_nil (by simp), if_pos block,
            afterClose_html named inside mentions, afterClose_own rfl]
        exact ⟨_, read content, read rest⟩
    · have kept : ¬ isRemoveBlock (lowerAscii name) = true := removed
      by_cases separate : inner.Separate
      · refine restLeak (fun rest => mixed ⟨by rwa [if_neg removed], rest⟩) fun content s out => ?_
        have read (content : Content) : strip ((element t name inner content).html ++ s) out =
            strip (content.html ++ s)
              (separator (inner.emit (separator (t.foldl appendText out)))) := by
          simp only [html, List.append_assoc]
          rw [strip_text text, strip_tagText false named isTail_nil (by simp), if_neg kept,
            strip_html inside separate, strip_tagText true named isTail_nil (by simp), if_neg kept]
        exact ⟨_, read content, read rest⟩
      · obtain ⟨other, valid', same, more⟩ := ihInner inside separate
        refine ⟨element t name other rest, ⟨text, named, valid', behind⟩,
          ⟨.inr rfl, rfl, by simpa [removed] using same, .refl _ _⟩, fun s out => ?_⟩
        simp only [html, List.append_assoc]
        rw [strip_text text, strip_tagText false named isTail_nil (by simp), if_neg kept, more,
          strip_text text, strip_tagText false named isTail_nil (by simp), if_neg kept]

/-- Removed elements are removed exactly when none of them, that is not inside another one, holds
an element of its own name. -/
theorem removedExactly_iff (page : Content) (valid : page.WellFormed) :
    page.RemovedExactly ↔ page.Separate := by
  constructor
  · rintro ⟨unchanged, _⟩
    by_contra mixed
    obtain ⟨other, valid', same, more⟩ := exists_leak valid mixed
    have leaked := more [] []
    have equal := congrArg (List.count 120) (unchanged other valid' same)
    simp only [htmlStripTags_eq_strip, collapseWhitespace, count_collapseLoop] at equal
    rw [List.append_nil, List.append_nil] at leaked
    omega
  · intro separate
    constructor
    · intro other valid' same
      have stripped := strip_html valid separate [] []
      have stripped' := strip_html valid' (same.separate separate) [] []
      rw [same.emit_eq, ← stripped, List.append_nil, List.append_nil] at stripped'
      rw [htmlStripTags_eq_strip, htmlStripTags_eq_strip, stripped']
    · intro t visible token member
      rw [tokenize_htmlStripTags_html valid separate]
      exact List.mem_flatMap.mpr ⟨t, visible, member⟩

theorem removedExactly_header :
    (element [] (ascii "nav") (element (ascii "a") (ascii "Header") (last (ascii "b"))
      (last (ascii "c"))) (last (ascii "d"))).RemovedExactly :=
  (removedExactly_iff _ (by decide +kernel)).mpr (by decide +kernel)

/-- A navigation block inside another one. -/
def nestedBlocks : Content :=
  element [] (ascii "nav") (element [] (ascii "nav") (last (ascii "a")) (last (ascii "b")))
    (last (ascii "c"))

/-- The text "b" is inside and comes out, and the text "c" is outside and is lost. -/
theorem nestedBlocks_leak :
    nestedBlocks.WellFormed ∧ nestedBlocks.html = ascii "<nav><nav>a</nav>b</nav>c" ∧
      nestedBlocks.visibleTexts = [[], ascii "c"] ∧
      htmlStripTags nestedBlocks.html = ascii "b" ∧ ¬ nestedBlocks.RemovedExactly := by
  refine ⟨by decide +kernel, by decide +kernel, by decide +kernel, by decide +kernel, ?_⟩
  rintro ⟨_, kept⟩
  have lost : ascii "c" ∉ tokenize (htmlStripTags nestedBlocks.html) := by decide +kernel
  exact lost (kept (ascii "c") (by decide +kernel) (ascii "c") (by decide +kernel))

end Content

end ShadowSe

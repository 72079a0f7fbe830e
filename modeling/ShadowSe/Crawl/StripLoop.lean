import ShadowSe.Crawl.Html

/-! The loop of `htmlStripTags` as a function of the text that is left: it looks at nothing
before its position, and the output decides about nothing but spaces. -/

namespace ShadowSe

/-- One turn of the loop: the result when it is the last one, else the next position and
output. -/
def stripStep (html : Bytes) (i : Nat) (out : Bytes) : Bytes ⊕ (Nat × Bytes) :=
  match html[i]? with
  | none => .inl out
  | some c =>
    if c ≠ 60 then .inr (i + 1, appendText out c)
    else if (html.drop i).take 4 = ascii "<!--" then
      match html.find (ascii "-->") (i + 4) with
      | none => .inl out
      | some stop => .inr (stop + 3, out)
    else
      let gt := html.findFirstOf (ascii ">") i
      let tagEnd := gt.getD html.length
      let name := tagName html i tagEnd
      let selfClosing := gt.any fun gt => html[gt - 1]? == some 47
      let past := fun stop : Option Nat => (stop.map (· + 1)).getD html.length
      if name ≠ [] ∧ isRemoveBlock name = true ∧ selfClosing = false then
        let close := ascii "</" ++ name
        match findClose html close (past gt) with
        | none => .inl out
        | some closePos =>
          .inr (past (html.findFirstOf (ascii ">") (closePos + close.length)), separator out)
      else .inr (past gt, separator out)

theorem stripLoop_succ (html : Bytes) (fuel i : Nat) (out : Bytes) :
    stripLoop html (fuel + 1) i out =
      (stripStep html i out).elim id fun next => stripLoop html fuel next.1 next.2 := by
  simp only [stripLoop, stripStep]
  cases html[i]? with
  | none => rfl
  | some c =>
    dsimp only
    split
    · rfl
    · split
      · cases html.find (ascii "-->") (i + 4) with
        | none => rfl
        | some stop => rfl
      · split
        · generalize findClose html _ _ = closing
          cases closing with
          | none => rfl
          | some closePos => rfl
        · rfl

/-- The name, from the position behind the '<' and the ones before the '>'. -/
theorem tagName_append_left (before s : Bytes) (tagEnd : Nat) :
    tagName (before ++ s) before.length (before.length + tagEnd) = tagName s 0 tagEnd := by
  have second : (before ++ s)[before.length + 1]? = s[1]? := by
    rw [List.getElem?_append_right (by omega)]
    congr 1
    omega
  simp only [tagName, second, Nat.zero_add]
  split
  · rw [Bytes.drop_append_add, Nat.add_sub_add_left]
  · rw [Bytes.drop_append_add, Nat.add_sub_add_left]

theorem findClose_append_left (before s close : Bytes) (searchFrom : Nat) :
    findClose (before ++ s) close (before.length + searchFrom) =
      (findClose s close searchFrom).map (before.length + ·) := by
  simp only [findClose, Bytes.drop_append_add]
  exact Bytes.scan_add ..

theorem findFirstOf_gt_pos {s : Bytes} {gt : Nat} (tag : s[0]? = some 60)
    (found : s.findFirstOf (ascii ">") 0 = some gt) : 0 < gt := by
  cases s with
  | nil => cases tag
  | cons c rest =>
    cases Option.some.inj tag
    have other : ¬ List.contains (ascii ">") (60 : UInt8) = true := by decide
    rw [Bytes.findFirstOf, List.drop_zero, Bytes.scan, if_neg other] at found
    exact Bytes.le_of_scan found

/-- A turn at the end of `before` is a turn at the beginning of what follows. -/
theorem stripStep_append_left (before s out : Bytes) :
    stripStep (before ++ s) before.length out =
      (stripStep s 0 out).map id fun next => (before.length + next.1, next.2) := by
  have head : (before ++ s)[before.length]? = s[0]? := by
    rw [List.getElem?_append_right (Nat.le_refl _), Nat.sub_self]
  have dropped : (before ++ s).drop before.length = s := List.drop_left
  have found (needle : Bytes) : (before ++ s).find needle (before.length + 4) =
      (s.find needle (0 + 4)).map (before.length + ·) := Bytes.find_append_left ..
  have gt : (before ++ s).findFirstOf (ascii ">") before.length =
      (s.findFirstOf (ascii ">") 0).map (before.length + ·) :=
    Bytes.findFirstOf_append_left before s (ascii ">") 0
  have tagEnd (stop : Option Nat) : (stop.map (before.length + ·)).getD (before ++ s).length =
      before.length + stop.getD s.length := by
    cases stop with
    | none => exact List.length_append
    | some stop => rfl
  have past (stop : Option Nat) :
      ((stop.map (before.length + ·)).map (· + 1)).getD (before ++ s).length =
        before.length + (stop.map (· + 1)).getD s.length := by
    cases stop with
    | none => exact List.length_append
    | some stop => rfl
  simp only [stripStep, head, dropped, List.drop_zero]
  cases tag : s[0]? with
  | none => rfl
  | some c =>
    dsimp only
    by_cases text : c = 60
    · subst text
      simp only [ne_eq, not_true_eq_false, ↓reduceIte]
      split
      · rw [found]
        cases s.find (ascii "-->") (0 + 4) with
        | none => rfl
        | some stop => rfl
      · have selfClosing : ((s.findFirstOf (ascii ">") 0).map (before.length + ·)).any
              (fun gt => (before ++ s)[gt - 1]? == some 47) =
            (s.findFirstOf (ascii ">") 0).any fun gt => s[gt - 1]? == some 47 := by
          cases at' : s.findFirstOf (ascii ">") 0 with
          | none => rfl
          | some stop =>
            have positive := findFirstOf_gt_pos tag at'
            have same : (before ++ s)[before.length + stop - 1]? = s[stop - 1]? := by
              rw [List.getElem?_append_right (by omega)]
              congr 1
              omega
            simp only [Option.map_some, Option.any_some, same]
        simp only [gt, tagEnd, tagName_append_left, selfClosing, past, findClose_append_left]
        split
        · cases findClose s
              (ascii "</" ++ tagName s 0 ((s.findFirstOf (ascii ">") 0).getD s.length))
              (((s.findFirstOf (ascii ">") 0).map (· + 1)).getD s.length) with
          | none => rfl
          | some closePos =>
            simp only [Option.map_some, Nat.add_assoc, Bytes.findFirstOf_append_left, past]
            rfl
        · rfl
    · simp only [ne_eq, text, not_false_eq_true, ↓reduceIte]
      rfl

theorem stripStep_advance {s out next : Bytes} {i : Nat} (nonempty : s ≠ [])
    (stepped : stripStep s 0 out = .inr (i, next)) : 0 < i := by
  have past (stop : Option Nat) : 0 < (stop.map (· + 1)).getD s.length := by
    cases stop with
    | none => exact List.length_pos_iff.mpr nonempty
    | some stop => exact Nat.succ_pos stop
  unfold stripStep at stepped
  split at stepped
  · cases stepped
  · split at stepped
    · cases stepped
      exact Nat.succ_pos 0
    · split at stepped
      · split at stepped
        · cases stepped
        · cases stepped
          exact Nat.succ_pos _
      · dsimp only at stepped
        split at stepped
        · split at stepped
          · cases stepped
          · cases stepped
            exact past _
        · cases stepped
          exact past _

theorem stripLoop_eq_drop (html : Bytes) (fuel i : Nat) (out : Bytes) :
    stripLoop html fuel i out = stripLoop (html.drop i) fuel 0 out := by
  induction fuel generalizing html i out with
  | zero => rfl
  | succ fuel ih =>
    rw [stripLoop_succ, stripLoop_succ]
    by_cases within : i ≤ html.length
    · have turn := stripStep_append_left (html.take i) (html.drop i) out
      rw [List.take_append_drop, List.length_take, Nat.min_eq_left within] at turn
      rw [turn]
      cases stripStep (html.drop i) 0 out with
      | inl result => rfl
      | inr next =>
        simp only [Sum.map_inr, Sum.elim_inr]
        rw [ih html, ih (html.drop i), List.drop_drop]
    · have outside : html[i]? = none := List.getElem?_eq_none (by omega)
      have empty : html.drop i = [] := List.drop_eq_nil_iff.mpr (by omega)
      simp [stripStep, outside, empty]

/-- What the loop makes of the text that is left. -/
def strip (s out : Bytes) : Bytes :=
  stripLoop s s.length 0 out

theorem strip_nil (out : Bytes) : strip [] out = out := rfl

theorem stripLoop_fuel {fuel : Nat} {s : Bytes} (enough : s.length ≤ fuel) (out : Bytes) :
    stripLoop s fuel 0 out = strip s out := by
  have agree : ∀ (first second : Nat) (s out : Bytes), s.length ≤ first → s.length ≤ second →
      stripLoop s first 0 out = stripLoop s second 0 out := by
    intro first
    induction first with
    | zero =>
      intro second s out short _
      have empty : s = [] := List.length_eq_zero_iff.mp (Nat.le_zero.mp short)
      subst empty
      cases second with
      | zero => rfl
      | succ second => rfl
    | succ first ih =>
      intro second s out short short'
      by_cases empty : s = []
      · subst empty
        cases second with
        | zero => rfl
        | succ second => rfl
      cases second with
      | zero => exact absurd (List.length_eq_zero_iff.mp (Nat.le_zero.mp short')) empty
      | succ second =>
        rw [stripLoop_succ, stripLoop_succ]
        cases turn : stripStep s 0 out with
        | inl result => rfl
        | inr next =>
          have advance := stripStep_advance empty turn
          simp only [Sum.elim_inr]
          rw [stripLoop_eq_drop s first, stripLoop_eq_drop s second]
          exact ih second _ _ (by rw [List.length_drop]; omega) (by rw [List.length_drop]; omega)
  exact agree fuel s.length s out enough (Nat.le_refl _)

theorem strip_eq_step {s : Bytes} (nonempty : s ≠ []) (out : Bytes) :
    strip s out = (stripStep s 0 out).elim id fun next => strip (s.drop next.1) next.2 := by
  have size : s.length = (s.length - 1) + 1 := by
    have positive := List.length_pos_iff.mpr nonempty
    omega
  rw [strip, size, stripLoop_succ]
  cases turn : stripStep s 0 out with
  | inl result => rfl
  | inr next =>
    have advance := stripStep_advance nonempty turn
    simp only [Sum.elim_inr]
    rw [stripLoop_eq_drop, stripLoop_fuel (by rw [List.length_drop]; omega)]

theorem htmlStripTags_eq_strip (html : Bytes) :
    htmlStripTags html = collapseWhitespace (strip html []) := rfl

theorem strip_cons {c : UInt8} (text : c ≠ 60) (s out : Bytes) :
    strip (c :: s) out = strip s (appendText out c) := by
  rw [strip_eq_step (List.cons_ne_nil c s)]
  simp [stripStep, text]

/-- A text without tags is appended byte by byte. -/
theorem strip_text {t : Bytes} (text : 60 ∉ t) (s out : Bytes) :
    strip (t ++ s) out = strip s (t.foldl appendText out) := by
  induction t generalizing out with
  | nil => rfl
  | cons c rest ih =>
    rw [List.mem_cons, not_or] at text
    rw [List.cons_append, strip_cons (Ne.symm text.1), ih text.2, List.foldl_cons]

/-- The end of a comment without "-->" is the first one that the search finds. -/
theorem find_comment_end {c : Bytes} (inner : ¬ ascii "-->" <:+: c) (s : Bytes) :
    Bytes.find (ascii "<!--" ++ (c ++ (ascii "-->" ++ s))) (ascii "-->") 4 =
      some (4 + c.length) := by
  have found := Bytes.find_append_self (by decide : Bytes.Borderless (ascii "-->")) inner s
  refine (Bytes.find_append_left (ascii "<!--") (c ++ (ascii "-->" ++ s)) _ 0).trans ?_
  rw [found]
  rfl

theorem strip_comment {c : Bytes} (inner : ¬ ascii "-->" <:+: c) (s out : Bytes) :
    strip (ascii "<!--" ++ (c ++ (ascii "-->" ++ s))) out = strip s out := by
  rw [strip_eq_step (by simp [ascii])]
  have head : (ascii "<!--" ++ (c ++ (ascii "-->" ++ s)))[0]? = some 60 := rfl
  have opens : ((ascii "<!--" ++ (c ++ (ascii "-->" ++ s))).drop 0).take 4 = ascii "<!--" := rfl
  have past : (ascii "<!--" ++ (c ++ (ascii "-->" ++ s))).drop (4 + c.length + 3) = s := by
    rw [Nat.add_assoc, ← List.drop_drop]
    exact (congrArg _ (Bytes.drop_append_add (ascii "<!--") _ 0)).trans
      (Bytes.drop_append_add c (ascii "-->" ++ s) 3)
  simp only [stripStep, head, opens, Nat.zero_add, find_comment_end inner]
  simp [past]

/-- The name of a tag, from what stands between '<' and '>'. -/
def nameText (body : Bytes) : Bytes :=
  lowerAscii ((if body.head? = some 47 then body.drop 1 else body).takeWhile
    fun c => !List.elem c (ascii " \t\n/"))

/-- The text behind the next '>', empty without one. -/
def pastTag (s : Bytes) : Bytes :=
  (s.dropWhile (· != 62)).drop 1

theorem pastTag_append {a : Bytes} (inside : 62 ∉ a) (s : Bytes) :
    pastTag (a ++ 62 :: s) = s := by
  rw [pastTag, Bytes.dropWhile_ne inside]
  rfl

/-- The text behind the close tag that ends a removed block. -/
def afterClose (name s : Bytes) : Option Bytes :=
  (findClose s (ascii "</" ++ name) 0).map fun k =>
    pastTag (s.drop (k + (ascii "</" ++ name).length))

/-- A tag that begins a removed block. -/
def OpensBlock (body : Bytes) : Prop :=
  nameText body ≠ [] ∧ isRemoveBlock (nameText body) = true ∧ body.getLast? ≠ some 47

instance (body : Bytes) : Decidable (OpensBlock body) :=
  inferInstanceAs (Decidable (_ ∧ _))

theorem drop_past (s : Bytes) (pos : Nat) :
    s.drop (((s.findFirstOf (ascii ">") pos).map (· + 1)).getD s.length) =
      pastTag (s.drop pos) := by
  have same : (fun c : UInt8 => !List.contains (ascii ">") c) = (· != 62) := by
    funext c
    rw [Bool.eq_iff_iff]
    simp [ascii]
  cases found : s.findFirstOf (ascii ">") pos with
  | none =>
    rw [Bytes.findFirstOf_eq, same] at found
    split at found
    · rename_i none
      rw [pastTag, none]
      simp
    · cases found
  | some gt =>
    rw [pastTag, ← same, ← Bytes.drop_findFirstOf found, List.drop_drop]
    rfl

section

variable {body : Bytes} (inside : 62 ∉ body) (rest : Bytes)

include inside

theorem findFirstOf_tag :
    Bytes.findFirstOf (60 :: body ++ 62 :: rest) (ascii ">") 0 = some (body.length + 1) := by
  have outside : 62 ∉ 60 :: body := by simp [inside]
  exact Bytes.findFirstOf_append_cons outside rest

omit inside in
theorem tagName_tag :
    tagName (60 :: body ++ 62 :: rest) 0 (body.length + 1) = nameText body := by
  cases body with
  | nil => rfl
  | cons c more =>
    by_cases closing : c = 47
    · subst closing
      simp [tagName, nameText]
    · simp [tagName, nameText, closing]

theorem stripStep_tag (markup : ¬ ascii "!--" <+: body) (out : Bytes) :
    stripStep (60 :: body ++ 62 :: rest) 0 out =
      if OpensBlock body then
        match findClose (60 :: body ++ 62 :: rest) (ascii "</" ++ nameText body)
          (body.length + 2) with
        | none => .inl out
        | some closePos => .inr (((Bytes.findFirstOf (60 :: body ++ 62 :: rest) (ascii ">")
          (closePos + (ascii "</" ++ nameText body).length)).map (· + 1)).getD
            (60 :: body ++ 62 :: rest).length, separator out)
      else .inr (body.length + 2, separator out) := by
  have head : (60 :: body ++ 62 :: rest)[0]? = some 60 := rfl
  have plain : ¬ (60 :: body ++ 62 :: rest).take 4 = ascii "<!--" := by
    intro comment
    -- The '>' is no part of "<!--", so that the tag itself would begin a comment.
    match body with
    | [] => simp [ascii] at comment
    | [_] => simp [ascii] at comment
    | [_, _] => simp [ascii] at comment
    | x :: y :: z :: more =>
      exact markup (by simpa [ascii, List.cons_prefix_cons, eq_comm] using comment)
  have last : ((60 :: body ++ 62 :: rest)[body.length]? == some 47) = false ↔
      body.getLast? ≠ some 47 := by
    have final : (60 :: body ++ 62 :: rest)[body.length]? = (60 :: body).getLast? := by
      rw [List.getElem?_append_left (by simp), List.getLast?_eq_getElem?]
      rfl
    rw [final, beq_eq_false_iff_ne, List.getLast?_cons]
    cases body.getLast? with
    | none => simp
    | some c => simp
  simp only [stripStep, head, List.drop_zero, ne_eq, not_true_eq_false, ↓reduceIte, plain,
    findFirstOf_tag inside, Option.getD_some, tagName_tag, Option.any_some, Nat.add_sub_cancel,
    last, Option.map_some]
  rfl

/-- A tag is a separator, and takes the block that it opens with it. -/
theorem strip_tag (markup : ¬ ascii "!--" <+: body) (out : Bytes) :
    strip (60 :: body ++ 62 :: rest) out =
      if OpensBlock body then
        match afterClose (nameText body) rest with
        | none => out
        | some s => strip s (separator out)
      else strip rest (separator out) := by
  have past : (60 :: body ++ 62 :: rest).drop (body.length + 2) = rest := by
    simp
  have nonempty : 60 :: body ++ 62 :: rest ≠ [] := List.cons_ne_nil _ _
  rw [strip_eq_step nonempty, stripStep_tag inside rest markup]
  split
  · have shifted := findClose_append_left (60 :: body ++ [62]) rest (ascii "</" ++ nameText body) 0
    simp only [List.length_append, List.length_cons, List.length_nil, Nat.zero_add, Nat.add_zero,
      List.append_assoc, List.singleton_append] at shifted
    rw [shifted, afterClose]
    cases findClose rest (ascii "</" ++ nameText body) 0 with
    | none => rfl
    | some closePos =>
      simp only [Option.map_some, Sum.elim_inr, drop_past]
      rw [Nat.add_assoc, ← List.drop_drop, past]
  · simp only [Sum.elim_inr, past]

end

/-- No more of a name follows. -/
def endsName : Bytes → Bool
  | [] => true
  | ac :: _ => List.elem ac (ascii " >/\t\n")

theorem endsName_iff {t : Bytes} :
    endsName t = true ↔ ∀ c u, t = c :: u → c ∈ ascii " >/\t\n" := by
  cases t with
  | nil => simp [endsName]
  | cons c u => simp [endsName]

/-- A close tag of the block begins here. -/
def closesAt (name s : Bytes) : Bool :=
  lowerAscii (s.take (ascii "</" ++ name).length) == ascii "</" ++ name &&
    endsName (s.drop (ascii "</" ++ name).length)

theorem findClose_eq_scan (s name : Bytes) (searchFrom : Nat) :
    findClose s (ascii "</" ++ name) searchFrom =
      Bytes.scan (closesAt name) (s.drop searchFrom) searchFrom := rfl

theorem afterClose_cons (name : Bytes) (c : UInt8) (s : Bytes) :
    afterClose name (c :: s) =
      if closesAt name (c :: s) then some (pastTag ((c :: s).drop (ascii "</" ++ name).length))
      else afterClose name s := by
  rw [afterClose, afterClose, findClose_eq_scan, findClose_eq_scan, List.drop_zero, List.drop_zero,
    Bytes.scan]
  split
  · simp
  · rw [Nat.add_comm 0 1, Bytes.scan_add, Option.map_map]
    congr 1
    funext k
    simp [Nat.add_comm 1, Nat.succ_add]

theorem afterClose_skip {name w s : Bytes}
    (passed : ∀ k < w.length, closesAt name ((w ++ s).drop k) = false) :
    afterClose name (w ++ s) = afterClose name s := by
  induction w with
  | nil => rfl
  | cons c rest ih =>
    have first := passed 0 (Nat.succ_pos _)
    rw [List.cons_append, afterClose_cons, if_neg (by simpa using first)]
    exact ih fun k within => passed (k + 1) (Nat.succ_lt_succ within)

theorem tolower_markup : ∀ c : UInt8, (tolower c = 60 ↔ c = 60) ∧ (tolower c = 47 ↔ c = 47) := by
  apply forall_byte
  decide +kernel

/-- A close tag is "</", the name in any letter case, and no more of a name. -/
theorem closesAt_iff {name s : Bytes} : closesAt name s = true ↔
    ∃ written t, s = ascii "</" ++ (written ++ t) ∧ lowerAscii written = name ∧
      ∀ c u, t = c :: u → c ∈ ascii " >/\t\n" := by
  have size : (ascii "</" ++ name).length = name.length + 2 := by simp [ascii]
  rw [closesAt, Bool.and_eq_true, size]
  refine (and_congr beq_iff_eq endsName_iff).trans ⟨?_, ?_⟩
  · rintro ⟨matched, ends⟩
    match s with
    | [] => simp [ascii, lowerAscii] at matched
    | [_] => simp [ascii, lowerAscii] at matched
    | x :: y :: more =>
      have spelled :
          tolower x = 60 ∧ tolower y = 47 ∧ lowerAscii (more.take name.length) = name := by
        simpa [ascii, lowerAscii] using matched
      obtain ⟨first, second, named⟩ := spelled
      refine ⟨more.take name.length, more.drop name.length, ?_, named, ends⟩
      rw [List.take_append_drop, (tolower_markup x).1.mp first, (tolower_markup y).2.mp second]
      rfl
  · rintro ⟨written, t, rfl, rfl, ends⟩
    have whole : (ascii "</" ++ (written ++ t)).take ((lowerAscii written).length + 2) =
        ascii "</" ++ written := by
      simp [ascii, lowerAscii]
    have left : (ascii "</" ++ (written ++ t)).drop ((lowerAscii written).length + 2) = t := by
      simp [ascii, lowerAscii]
    rw [whole, left]
    exact ⟨by simp [lowerAscii, ascii, tolower], ends⟩

theorem afterClose_here {name written t s : Bytes} (same : lowerAscii written = name)
    (inside : 62 ∉ t) (ends : ∀ c u, t ++ [62] = c :: u → c ∈ ascii " >/\t\n") :
    afterClose name (ascii "</" ++ (written ++ (t ++ 62 :: s))) = some s := by
  have here : closesAt name (ascii "</" ++ (written ++ (t ++ 62 :: s))) = true := by
    refine closesAt_iff.mpr ⟨written, t ++ 62 :: s, rfl, same, fun c u split => ?_⟩
    cases t with
    | nil => exact ends c [] (by rw [(List.cons.inj split).1]; rfl)
    | cons first more => exact ends c (more ++ [62]) (by rw [(List.cons.inj split).1]; rfl)
  have past : (ascii "</" ++ (written ++ (t ++ 62 :: s))).drop (ascii "</" ++ name).length =
      t ++ 62 :: s := by
    rw [← same]
    simp [ascii, lowerAscii]
  have cons : ascii "</" ++ (written ++ (t ++ 62 :: s)) =
      60 :: (47 :: (written ++ (t ++ 62 :: s))) := rfl
  rw [cons] at here past ⊢
  rw [afterClose_cons, if_pos here, past, pastTag_append inside]

/-- A tag from '<' to '>'. -/
def tagText (closing : Bool) (name tail : Bytes) : Bytes :=
  60 :: ((if closing then [47] else []) ++ (name ++ tail)) ++ [62]

/-- A name that ends where its tag does, and does not make the tag a comment. -/
def IsTagName (name : Bytes) : Prop :=
  name ≠ [] ∧ (∀ c ∈ name, c ∉ ascii " \t\n/>") ∧ name.head? ≠ some 33

/-- Nothing, or a delimiter and anything but '>'. -/
def IsTail (tail : Bytes) : Prop :=
  62 ∉ tail ∧ ∀ c ∈ tail.head?, c ∈ ascii " \t\n/"

instance (name : Bytes) : Decidable (IsTagName name) :=
  inferInstanceAs (Decidable (_ ∧ _))

instance (tail : Bytes) : Decidable (IsTail tail) :=
  inferInstanceAs (Decidable (_ ∧ _))

private theorem name_byte : ∀ c : UInt8, c ∉ ascii " \t\n/>" →
    c ≠ 47 ∧ c ≠ 62 ∧ List.elem c (ascii " \t\n/") = false := by
  apply forall_byte
  decide +kernel

theorem delimiter_mem : ∀ c : UInt8, c ∈ ascii " \t\n/" → c ∈ ascii " >/\t\n" := by
  apply forall_byte
  decide +kernel

section

variable {name tail : Bytes} (closing : Bool) (named : IsTagName name)

include named

/-- The name that the loop reads is the one that is written. -/
theorem nameText_tag (ends : IsTail tail) :
    nameText ((if closing then [47] else []) ++ (name ++ tail)) = lowerAscii name := by
  have whole : (name ++ tail).takeWhile (fun c => !List.elem c (ascii " \t\n/")) = name := by
    have inside : ∀ c ∈ name, (!List.elem c (ascii " \t\n/")) = true := fun c member => by
      rw [(name_byte c (named.2.1 c member)).2.2]
      rfl
    rw [List.takeWhile_append_of_pos inside]
    cases tail with
    | nil => simp
    | cons c more =>
      have member := ends.2 c rfl
      rw [List.takeWhile_cons_of_neg (by simpa using member), List.append_nil]
  rw [nameText]
  cases closing with
  | true => simpa using congrArg lowerAscii whole
  | false =>
    have first : (name ++ tail).head? ≠ some 47 := by
      intro slash
      cases name with
      | nil => exact named.1 rfl
      | cons c rest =>
        cases Option.some.inj slash
        exact (name_byte 47 (named.2.1 47 List.mem_cons_self)).1 rfl
    simp only [Bool.false_eq_true, ↓reduceIte, List.nil_append, first, whole]

theorem not_mem_tag (ends : IsTail tail) :
    62 ∉ (if closing then [47] else []) ++ (name ++ tail) := by
  have inName : 62 ∉ name := fun member => (name_byte 62 (named.2.1 62 member)).2.1 rfl
  cases closing with
  | true => simp [inName, ends.1]
  | false => simp [inName, ends.1]

theorem tag_not_markup : ¬ ascii "!--" <+: (if closing then [47] else []) ++ (name ++ tail) := by
  cases closing with
  | true => simp [ascii, List.cons_prefix_cons]
  | false =>
    cases name with
    | nil => exact absurd rfl named.1
    | cons c rest =>
      have first : c ≠ 33 := fun same => named.2.2 (congrArg some same)
      simp [ascii, List.cons_prefix_cons, Ne.symm first]

theorem opensBlock_tag (ends : IsTail tail)
    (proper : isRemoveBlock (lowerAscii name) = true → tail.getLast? ≠ some 47) :
    OpensBlock ((if closing then [47] else []) ++ (name ++ tail)) ↔
      isRemoveBlock (lowerAscii name) = true := by
  have nonempty : lowerAscii name ≠ [] := by simpa [lowerAscii] using named.1
  have last (removed : isRemoveBlock (lowerAscii name) = true) :
      ((if closing then [47] else []) ++ (name ++ tail)).getLast? ≠ some 47 := by
    have proper := proper removed
    rw [List.getLast?_append_of_ne_nil _ (by simp [named.1])]
    cases tail with
    | nil =>
      intro slash
      have member : 47 ∈ name := List.mem_of_getLast? (by simpa using slash)
      exact (name_byte 47 (named.2.1 47 member)).1 rfl
    | cons c more =>
      rwa [List.getLast?_append_of_ne_nil _ (List.cons_ne_nil c more)]
  rw [OpensBlock, nameText_tag closing named ends]
  exact ⟨fun opens => opens.2.1, fun removed => ⟨nonempty, removed, last removed⟩⟩

/-- A tag as it is written is a separator, and takes the block that it opens with it. -/
theorem strip_tagText (ends : IsTail tail)
    (proper : isRemoveBlock (lowerAscii name) = true → tail.getLast? ≠ some 47) (s out : Bytes) :
    strip (tagText closing name tail ++ s) out =
      if isRemoveBlock (lowerAscii name) then
        match afterClose (lowerAscii name) s with
        | none => out
        | some u => strip u (separator out)
      else strip s (separator out) := by
  have step := strip_tag (not_mem_tag closing named ends) s (tag_not_markup closing named) out
  simp only [opensBlock_tag closing named ends proper, nameText_tag closing named ends] at step
  rw [← step]
  simp [tagText]

end

end ShadowSe

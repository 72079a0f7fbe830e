import Mathlib.Data.List.Basic

/-! Byte strings with the searching and slicing operations of `std::string`, and
the character classes of `<cctype>` in the C locale. A position past the end that
the library reports as `npos` is `none`. -/

namespace ShadowSe

/-- `std::string`: any bytes, with no assumption on their encoding. -/
abbrev Bytes := List UInt8

/-- A property of bytes is checked on the 256 values. -/
theorem forall_byte {p : UInt8 → Prop} (each : ∀ value < 256, p (UInt8.ofNat value))
    (c : UInt8) : p c := by
  have found := each c.toNat c.toNat_lt
  rwa [UInt8.ofNat_toNat] at found

/-- A condition on the bytes of a text is decided on these alone. -/
instance decidableForallMem (p : UInt8 → Prop) [DecidablePred p] (s : Bytes) :
    Decidable (∀ c ∈ s, p c) :=
  List.decidableBAll p s

instance decidableForallMemOption (p : UInt8 → Prop) [DecidablePred p] (c : Option UInt8) :
    Decidable (∀ b ∈ c, p b) :=
  Option.decidableForallMem c

/-- The bytes of an ASCII string literal. -/
def ascii (text : String) : Bytes :=
  text.toList.map fun c => UInt8.ofNat c.toNat

namespace Bytes

/-- The least position from `pos` on whose suffix satisfies `here`; `pos` is the
position of the head of the list. -/
def scan (here : Bytes → Bool) : Bytes → Nat → Option Nat
  | [], pos => if here [] then some pos else none
  | c :: rest, pos => if here (c :: rest) then some pos else scan here rest (pos + 1)

/-- `hay.find(needle, pos)`. -/
def find (hay needle : Bytes) (pos : Nat) : Option Nat :=
  if pos ≤ hay.length then scan (fun suffix => needle.isPrefixOf suffix) (hay.drop pos) pos
  else none

/-- `hay.find_first_of(set, pos)`, also `hay.find(c, pos)` for a one-byte set. -/
def findFirstOf (hay set : Bytes) (pos : Nat) : Option Nat :=
  scan (fun suffix => match suffix with
    | [] => false
    | c :: _ => set.contains c) (hay.drop pos) pos

/-- `hay.rfind(c)`, also `hay.find_last_of(c)`. -/
def rfind (hay : Bytes) (c : UInt8) : Option Nat :=
  (findFirstOf hay.reverse [c] 0).map fun back => hay.length - 1 - back

/-- `s.substr(pos, count)`; `none` for `npos`. -/
def substr (s : Bytes) (pos : Nat) (count : Option Nat) : Bytes :=
  match count with
  | none => s.drop pos
  | some count => (s.drop pos).take count

/-- `s.rfind(prefix, 0) == 0`. -/
def startsWith (s start : Bytes) : Bool :=
  start.isPrefixOf s

/-- `s.find(needle) != npos`. -/
def contains (s needle : Bytes) : Bool :=
  (find s needle 0).isSome

theorem scan_isSome_iff {here : Bytes → Bool} {hay : Bytes} (pos : Nat) :
    (scan here hay pos).isSome ↔ ∃ suffix, suffix <:+ hay ∧ here suffix = true := by
  induction hay generalizing pos with
  | nil => simp [scan]
  | cons c rest ih =>
    rw [scan]
    split
    · rename_i found
      simp only [Option.isSome_some, true_iff]
      exact ⟨_, List.suffix_rfl, found⟩
    · rename_i missed
      rw [ih]
      refine exists_congr fun suffix => ?_
      rw [List.suffix_cons_iff]
      constructor
      · rintro ⟨later, found⟩
        exact ⟨.inr later, found⟩
      · rintro ⟨rfl | later, found⟩
        · exact absurd found missed
        · exact ⟨later, found⟩

theorem le_of_scan {here : Bytes → Bool} {hay : Bytes} {pos i : Nat}
    (found : scan here hay pos = some i) : pos ≤ i := by
  induction hay generalizing pos with
  | nil =>
    simp only [scan, Option.ite_none_right_eq_some, Option.some.injEq] at found
    omega
  | cons c rest ih =>
    rw [scan] at found
    split at found
    · cases found
      exact Nat.le_refl _
    · exact Nat.le_of_succ_le (ih found)

/-- The first position that the search accepts. -/
theorem scan_eq_some_iff {here : Bytes → Bool} {hay : Bytes} {pos i : Nat} :
    scan here hay pos = some (pos + i) ↔ i ≤ hay.length ∧ here (hay.drop i) = true ∧
      ∀ k < i, here (hay.drop k) = false := by
  induction hay generalizing pos i with
  | nil =>
    cases i with
    | zero => simp [scan]
    | succ i => simp [scan]
  | cons c rest ih =>
    rw [scan]
    cases found : here (c :: rest) with
    | true =>
      cases i with
      | zero => simp [found]
      | succ i =>
        simp only [↓reduceIte, Option.some.injEq, Nat.left_eq_add, Nat.add_eq_zero_iff,
          Nat.succ_ne_self, and_false, false_iff, not_and]
        intro _ _ before
        have first := before 0 (Nat.succ_pos i)
        simp [found] at first
    | false =>
      cases i with
      | zero =>
        rw [if_neg (by simp)]
        simp only [List.drop_zero, found, Bool.false_eq_true, false_and, and_false, iff_false]
        intro early
        have later := le_of_scan early
        omega
      | succ i =>
        rw [if_neg (by simp), show pos + (i + 1) = pos + 1 + i by omega, ih]
        simp only [List.length_cons, Nat.add_le_add_iff_right, List.drop_succ_cons]
        refine and_congr_right fun _ => and_congr_right fun _ => ⟨fun missed k below => ?_, ?_⟩
        · cases k with
          | zero => exact found
          | succ k => exact missed k (by omega)
        · intro missed k below
          exact missed (k + 1) (by omega)

theorem contains_iff_isInfix {s needle : Bytes} : s.contains needle = true ↔ needle <:+: s := by
  rw [contains, find, if_pos (Nat.zero_le _), List.drop_zero, scan_isSome_iff,
    List.infix_iff_prefix_suffix]
  simp [and_comm]

theorem length_of_find {s needle : Bytes} {i : Nat} (found : find s needle 0 = some i) :
    i + needle.length ≤ s.length ∧ needle <+: s.drop i := by
  rw [find, if_pos (Nat.zero_le _), List.drop_zero, ← Nat.zero_add i, scan_eq_some_iff] at found
  have here := List.isPrefixOf_iff_prefix.mp found.2.1
  have size := here.length_le
  rw [List.length_drop] at size
  exact ⟨by omega, here⟩

/-- `find` looks no further than the end of the first occurrence. -/
theorem find_take_append {s needle : Bytes} {i : Nat} (found : find s needle 0 = some i)
    (t : Bytes) : find (s.take (i + needle.length) ++ t) needle 0 = some i := by
  have fits := (length_of_find found).1
  rw [find, if_pos (Nat.zero_le _), List.drop_zero, ← Nat.zero_add i, scan_eq_some_iff] at found ⊢
  rw [Nat.zero_add]
  obtain ⟨within, here, before⟩ := found
  have size : (s.take (i + needle.length)).length = i + needle.length := by
    rw [List.length_take, Nat.min_eq_left fits]
  -- Up to there both texts show the same bytes.
  have agree (k : Nat) (early : k ≤ i) :
      needle.isPrefixOf ((s.take (i + needle.length) ++ t).drop k) =
        needle.isPrefixOf (s.drop k) := by
    rw [Bool.eq_iff_iff, List.isPrefixOf_iff_prefix, List.isPrefixOf_iff_prefix,
      List.prefix_iff_eq_take, List.prefix_iff_eq_take, List.drop_append_of_le_length (by omega),
      List.take_append_of_le_length (by rw [List.length_drop]; omega), List.drop_take,
      List.take_take, Nat.min_eq_left (by omega)]
  refine ⟨?_, (agree i (Nat.le_refl i)).trans here, fun k below => ?_⟩
  · rw [List.length_append, size]
    omega
  · rw [agree k (Nat.le_of_lt below)]
    exact before k below

theorem find_append {s needle : Bytes} {i : Nat} (found : find s needle 0 = some i) (t : Bytes) :
    find (s ++ t) needle 0 = some i := by
  have extended := find_take_append found (s.drop (i + needle.length) ++ t)
  rwa [← List.append_assoc, List.take_append_drop] at extended

theorem takeWhile_ne {c : UInt8} {w : Bytes} (absent : c ∉ w) (s : Bytes) :
    (w ++ c :: s).takeWhile (· != c) = w := by
  have other : ∀ b ∈ w, (b != c) = true := fun b member =>
    bne_iff_ne.mpr fun same => absent (same ▸ member)
  rw [List.takeWhile_append_of_pos other, List.takeWhile_cons_of_neg (by simp), List.append_nil]

theorem dropWhile_ne {c : UInt8} {w : Bytes} (absent : c ∉ w) (s : Bytes) :
    (w ++ c :: s).dropWhile (· != c) = c :: s := by
  have other : ∀ b ∈ w, (b != c) = true := fun b member =>
    bne_iff_ne.mpr fun same => absent (same ▸ member)
  rw [List.dropWhile_append_of_pos other, List.dropWhile_cons_of_neg (by simp)]

/-- The first byte of a set ends the bytes that are not in it. -/
theorem findFirstOf_eq (s set : Bytes) (pos : Nat) :
    s.findFirstOf set pos =
      if (s.drop pos).dropWhile (fun c => !List.contains set c) = [] then none
      else some (pos + ((s.drop pos).takeWhile fun c => !List.contains set c).length) := by
  unfold findFirstOf
  generalize s.drop pos = hay
  induction hay generalizing pos with
  | nil => rfl
  | cons c rest ih =>
    rw [scan]
    cases member : List.contains set c with
    | true => simp only [member, ↓reduceIte, Bool.not_true, Bool.false_eq_true, not_false_eq_true,
        List.dropWhile_cons_of_neg, reduceCtorEq, List.takeWhile_cons_of_neg, List.length_nil,
        Nat.add_zero]
    | false =>
      simp only [member, Bool.false_eq_true, ↓reduceIte, ih, Bool.not_false,
        List.dropWhile_cons_of_pos, List.takeWhile_cons_of_pos, List.length_cons]
      split
      · rfl
      · rw [Nat.add_assoc, Nat.add_comm 1]

/-- The text from `pos` up to the first byte of a set. -/
theorem substr_findFirstOf (s set : Bytes) (pos : Nat) :
    s.substr pos ((s.findFirstOf set pos).map (· - pos)) =
      (s.drop pos).takeWhile fun c => !List.contains set c := by
  rw [findFirstOf_eq]
  split
  · rename_i none
    have whole :=
      List.takeWhile_append_dropWhile (p := fun c => !List.contains set c) (l := s.drop pos)
    rw [none, List.append_nil] at whole
    rw [Option.map_none, substr, whole]
  · rw [Option.map_some, substr, Nat.add_sub_cancel_left]
    exact (List.prefix_iff_eq_take.mp (List.takeWhile_prefix _)).symm

/-- The text from the first byte of a set on, after `pos`. -/
theorem drop_findFirstOf {s set : Bytes} {pos i : Nat} (found : s.findFirstOf set pos = some i) :
    s.drop i = (s.drop pos).dropWhile fun c => !List.contains set c := by
  have whole :=
    List.takeWhile_append_dropWhile (p := fun c => !List.contains set c) (l := s.drop pos)
  rw [findFirstOf_eq] at found
  split at found
  · cases found
  · cases Option.some.inj found
    rw [← List.drop_drop]
    exact (congrArg (List.drop _) whole.symm).trans List.drop_left

/-- Positions count from where the search starts. -/
theorem scan_add (here : Bytes → Bool) (hay : Bytes) (offset pos : Nat) :
    scan here hay (offset + pos) = (scan here hay pos).map (offset + ·) := by
  induction hay generalizing pos with
  | nil =>
    simp only [scan]
    split
    · rfl
    · rfl
  | cons c rest ih =>
    simp only [scan]
    split
    · rfl
    · exact ih (pos + 1)

theorem drop_append_add (before s : Bytes) (pos : Nat) :
    (before ++ s).drop (before.length + pos) = s.drop pos := by
  rw [← List.drop_drop, List.drop_left]

theorem find_append_left (before s needle : Bytes) (pos : Nat) :
    find (before ++ s) needle (before.length + pos) =
      (find s needle pos).map (before.length + ·) := by
  simp only [find, List.length_append, Nat.add_le_add_iff_left, drop_append_add]
  split
  · exact scan_add ..
  · rfl

theorem findFirstOf_append_left (before s set : Bytes) (pos : Nat) :
    (before ++ s).findFirstOf set (before.length + pos) =
      (s.findFirstOf set pos).map (before.length + ·) := by
  simp only [findFirstOf, drop_append_add]
  exact scan_add ..

theorem scan_map (here : Bytes → Bool) (f : UInt8 → UInt8) (hay : Bytes) (pos : Nat) :
    scan here (hay.map f) pos = scan (fun suffix => here (suffix.map f)) hay pos := by
  induction hay generalizing pos with
  | nil => rfl
  | cons c rest ih => simp only [List.map_cons, scan, ih]

theorem prefix_append_cons_iff {m : UInt8} {needle : Bytes} (absent : m ∉ needle) (w s : Bytes) :
    needle <+: w ++ m :: s ↔ needle <+: w := by
  refine ⟨fun starts => ?_, fun starts => starts.trans (List.prefix_append _ _)⟩
  rcases List.prefix_or_prefix_of_prefix starts (List.prefix_append w _) with within | ⟨u, rfl⟩
  · exact within
  · rw [List.prefix_append_right_inj] at starts
    cases u with
    | nil => simp
    | cons c more =>
      rw [List.cons_prefix_cons] at starts
      exact absurd (by simp [starts.1]) absent

/-- No occurrence goes over a byte that the needle does not have. -/
theorem find_append_cons {m : UInt8} {needle : Bytes} (absent : m ∉ needle)
    (nonempty : needle ≠ []) (w s : Bytes) :
    find (w ++ m :: s) needle 0 =
      (find w needle 0).or ((find s needle 0).map (w.length + 1 + ·)) := by
  have nowhere (t : Bytes) (short : needle <+: t → needle <+: []) :
      needle.isPrefixOf t = false := by
    rw [Bool.eq_false_iff, ne_eq, List.isPrefixOf_iff_prefix]
    exact fun starts => nonempty (List.prefix_nil.mp (short starts))
  have scanned (pos : Nat) : scan (fun suffix => needle.isPrefixOf suffix) (w ++ m :: s) pos =
      (scan (fun suffix => needle.isPrefixOf suffix) w pos).or
        ((scan (fun suffix => needle.isPrefixOf suffix) s 0).map (pos + (w.length + 1) + ·)) := by
    induction w generalizing pos with
    | nil =>
      have first := nowhere (m :: s) (prefix_append_cons_iff absent [] s).mp
      have last := nowhere [] id
      simp only [List.nil_append, scan, first, last, Bool.false_eq_true, ↓reduceIte, Option.none_or]
      exact scan_add _ s (pos + 1) 0
    | cons c rest ih =>
      have same : needle.isPrefixOf (c :: (rest ++ m :: s)) = needle.isPrefixOf (c :: rest) := by
        rw [Bool.eq_iff_iff, List.isPrefixOf_iff_prefix, List.isPrefixOf_iff_prefix]
        exact prefix_append_cons_iff absent (c :: rest) s
      rw [List.cons_append, scan, scan, same, ih]
      split
      · rfl
      · rw [List.length_cons, Nat.add_right_comm pos 1, Nat.add_assoc pos]
  have whole := scanned 0
  rw [Nat.zero_add] at whole
  simpa only [find, Nat.zero_le, ↓reduceIte, List.drop_zero] using whole

/-- A text that begins and ends another one only when it is empty or all of it. -/
def Borderless (needle : Bytes) : Prop :=
  ∀ k < needle.length, 0 < k → ¬ needle.take k <:+ needle

instance (needle : Bytes) : Decidable (Borderless needle) :=
  inferInstanceAs (Decidable (∀ k < needle.length, 0 < k → ¬ needle.take k <:+ needle))

/-- The first occurrence of a borderless text behind a text that does not have it. -/
theorem find_append_self {needle t : Bytes} (borderless : Borderless needle)
    (outside : ¬ needle <:+: t) (s : Bytes) :
    find (t ++ (needle ++ s)) needle 0 = some t.length := by
  rw [find, if_pos (Nat.zero_le _), List.drop_zero, ← Nat.zero_add t.length, scan_eq_some_iff]
  refine ⟨by simp, ?_, fun k before => ?_⟩
  · rw [List.drop_left, List.isPrefixOf_iff_prefix]
    exact List.prefix_append _ _
  · rw [Bool.eq_false_iff, ne_eq, List.isPrefixOf_iff_prefix,
      List.drop_append_of_le_length (Nat.le_of_lt before)]
    intro early
    rcases List.prefix_or_prefix_of_prefix early (List.prefix_append (t.drop k) _) with
      within | ⟨r, overlap⟩
    · exact outside (within.isInfix.trans (List.drop_suffix k t).isInfix)
    · have size := congrArg List.length overlap
      rw [List.length_append, List.length_drop] at size
      have starts : r <+: needle ++ s := by
        rw [← overlap] at early
        rw [← overlap]
        exact (List.prefix_append_right_inj _).mp early
      have start : needle.take r.length = r := by
        rw [List.prefix_iff_eq_take, List.take_append_of_le_length (by omega)] at starts
        exact starts.symm
      by_cases empty : r = []
      · subst empty
        rw [List.append_nil] at overlap
        exact outside (overlap ▸ (List.drop_suffix k t).isInfix)
      · refine borderless r.length (by omega) (List.length_pos_iff.mpr empty) ?_
        rw [start]
        exact ⟨t.drop k, overlap⟩

theorem infix_append_cons_iff {m : UInt8} {needle : Bytes} (absent : m ∉ needle) (w s : Bytes) :
    needle <:+: w ++ m :: s ↔ needle <:+: w ∨ needle <:+: s := by
  by_cases empty : needle = []
  · simp [empty]
  · rw [← contains_iff_isInfix, ← contains_iff_isInfix, ← contains_iff_isInfix, contains,
      find_append_cons absent empty, Option.isSome_or, Option.isSome_map, Bool.or_eq_true]
    rfl

/-- An occurrence that ends with a byte, where the text has that byte for the first time. -/
theorem infix_split_iff {m : UInt8} {start w : Bytes} (single : m ∉ start) (first : m ∉ w)
    (s : Bytes) : start ++ [m] <:+: w ++ m :: s ↔ start <:+ w ∨ start ++ [m] <:+: s := by
  constructor
  · rintro ⟨before, t, split⟩
    have split : (before ++ start) ++ m :: t = w ++ m :: s := by simpa using split
    rcases List.append_eq_append_iff.mp split with ⟨u, rfl, rest⟩ | ⟨u, whole, rest⟩
    · cases u with
      | nil => exact .inl ⟨before, by simp⟩
      | cons c u =>
        cases (List.cons.inj rest).1
        exact absurd (by simp) first
    · cases u with
      | nil => exact .inl ⟨before, by simpa using whole⟩
      | cons c u =>
        obtain ⟨rfl, rfl⟩ := List.cons.inj rest
        rcases List.append_eq_append_iff.mp whole with ⟨v, -, inside⟩ | ⟨v, -, inside⟩
        · exact absurd (by simp [inside]) single
        · cases v with
          | nil =>
            rw [List.nil_append] at inside
            exact absurd (inside ▸ List.mem_cons_self) single
          | cons d v =>
            obtain ⟨rfl, rfl⟩ := List.cons.inj inside
            exact .inr ⟨v, t, by simp⟩
  · rintro (⟨before, rfl⟩ | found)
    · exact ⟨before, s, by simp⟩
    · exact found.trans ((List.suffix_cons m s).trans (List.suffix_append w _)).isInfix

/-- The search for one byte splits the text at its first occurrence. -/
theorem findFirstOf_single (s : Bytes) (c : UInt8) (pos : Nat) :
    c ∉ s.drop pos ∧ s.findFirstOf [c] pos = none ∨
      ∃ before rest, s.drop pos = before ++ c :: rest ∧ c ∉ before ∧
        s.findFirstOf [c] pos = some (pos + before.length) := by
  unfold findFirstOf
  generalize s.drop pos = hay
  induction hay generalizing pos with
  | nil => exact .inl ⟨List.not_mem_nil, rfl⟩
  | cons first tail ih =>
    rw [scan]
    by_cases same : first = c
    · subst same
      exact .inr ⟨[], tail, rfl, List.not_mem_nil, by simp⟩
    · rw [if_neg (by simpa using same)]
      rcases ih (pos + 1) with ⟨absent, nowhere⟩ | ⟨before, rest, split, absent, found⟩
      · exact .inl ⟨by simp [absent, Ne.symm same], nowhere⟩
      · refine .inr ⟨first :: before, rest, by simp [split], by simp [absent, Ne.symm same], ?_⟩
        rw [found, List.length_cons, Nat.add_right_comm, Nat.add_assoc]

theorem findFirstOf_append_cons {c : UInt8} {w : Bytes} (absent : c ∉ w) (s : Bytes) :
    findFirstOf (w ++ c :: s) [c] 0 = some w.length := by
  have same : (fun b => !List.contains [c] b) = (· != c) := by
    funext b
    rw [Bool.eq_iff_iff]
    simp
  rw [findFirstOf_eq, List.drop_zero, same, takeWhile_ne absent, dropWhile_ne absent,
    if_neg (List.cons_ne_nil c s), Nat.zero_add]

/-- The search from the end splits the text at the last occurrence. -/
theorem rfind_append_cons {c : UInt8} {s : Bytes} (absent : c ∉ s) (w : Bytes) :
    rfind (w ++ c :: s) c = some w.length := by
  have reversed : (w ++ c :: s).reverse = s.reverse ++ c :: w.reverse := by simp
  have missing : c ∉ s.reverse := fun member => absent (List.mem_reverse.mp member)
  rw [rfind, reversed, findFirstOf_append_cons missing, Option.map_some, List.length_append,
    List.length_reverse, List.length_cons]
  congr 1
  omega

theorem rfind_eq_none {c : UInt8} {s : Bytes} (absent : c ∉ s) : rfind s c = none := by
  rcases findFirstOf_single s.reverse c 0 with ⟨_, nowhere⟩ | ⟨before, rest, split, _, _⟩
  · rw [rfind, nowhere]
    rfl
  · rw [List.drop_zero] at split
    exact absurd (List.mem_reverse.mp (split ▸ by simp)) absent

theorem exists_rfind {c : UInt8} {s : Bytes} (member : c ∈ s) :
    ∃ w t, s = w ++ c :: t ∧ c ∉ t ∧ s.rfind c = some w.length := by
  obtain ⟨t, w, split, absent⟩ := List.eq_append_cons_of_mem (List.mem_reverse.mpr member)
  have shape : s = w.reverse ++ c :: t.reverse := by
    rw [← List.reverse_reverse s, split]
    simp
  have last : c ∉ t.reverse := fun found => absent (List.mem_reverse.mp found)
  exact ⟨w.reverse, t.reverse, shape, last, shape ▸ rfind_append_cons last w.reverse⟩

end Bytes

/-- `std::isspace`. -/
def isspace (c : UInt8) : Bool :=
  c == 32 || (9 ≤ c && c ≤ 13)

/-- `std::ispunct`. -/
def ispunct (c : UInt8) : Bool :=
  (33 ≤ c && c ≤ 47) || (58 ≤ c && c ≤ 64) || (91 ≤ c && c ≤ 96) || (123 ≤ c && c ≤ 126)

/-- An ASCII letter or digit, as `std::isalnum` in the C locale. -/
def isalnum (c : UInt8) : Bool :=
  (48 ≤ c && c ≤ 57) || (65 ≤ c && c ≤ 90) || (97 ≤ c && c ≤ 122)

/-- `std::tolower` on one byte, which is also the per-byte step of `lowerAscii`. -/
def tolower (c : UInt8) : UInt8 :=
  if 65 ≤ c && c ≤ 90 then c + 32 else c

/-- `lowerAscii`. -/
def lowerAscii (s : Bytes) : Bytes :=
  s.map tolower

theorem length_lowerAscii (s : Bytes) : (lowerAscii s).length = s.length :=
  List.length_map _

theorem lowerAscii_append (s t : Bytes) : lowerAscii (s ++ t) = lowerAscii s ++ lowerAscii t :=
  List.map_append

/-- `trimWs`, `trim`: strip white space at both ends. -/
def trimWs (s : Bytes) : Bytes :=
  ((s.dropWhile isspace).reverse.dropWhile isspace).reverse

end ShadowSe

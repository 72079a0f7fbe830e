import Mathlib.Data.List.TakeWhile
import ShadowSe.Json.Grammar

namespace ShadowSe.Json

open Support

/-- The rest is empty or starts with a byte outside the class. -/
def StopsAt (keeps : UInt8 → Bool) (rest : Bytes) : Prop :=
  ∀ c ∈ rest.head?, keeps c = false

namespace Cursor

/-- The second cursor stands behind `text`, at which the first one stands. -/
def Passes (c : Cursor) (text : Bytes) (after : Cursor) : Prop :=
  c.rest = text ++ after.rest ∧ after.pos = c.pos + text.length

theorem Passes.refl (c : Cursor) : c.Passes [] c :=
  ⟨rfl, rfl⟩

theorem Passes.trans {c middle after : Cursor} {first second : Bytes}
    (one : c.Passes first middle) (two : middle.Passes second after) :
    c.Passes (first ++ second) after := by
  obtain ⟨rest, pos⟩ := one
  obtain ⟨rest', pos'⟩ := two
  constructor
  · rw [rest, rest', List.append_assoc]
  · rw [pos', pos, List.length_append, Nat.add_assoc]

theorem expect_cons (byte : UInt8) (rest : Bytes) (pos : Nat) :
    (⟨byte :: rest, pos⟩ : Cursor).expect byte = some ⟨rest, pos + 1⟩ := by
  simp [expect]

theorem expect_none {c : Cursor} {byte : UInt8} (other : ∀ head ∈ c.rest.head?, head ≠ byte) :
    c.expect byte = none := by
  obtain ⟨rest, pos⟩ := c
  cases rest with
  | nil => rfl
  | cons head rest => simp [expect, other head rfl]

theorem expect_some {c after : Cursor} {byte : UInt8} (found : c.expect byte = some after) :
    c.Passes [byte] after := by
  obtain ⟨rest, pos⟩ := c
  cases rest with
  | nil => cases found
  | cons head rest =>
    simp only [expect] at found
    split at found
    · rename_i same
      cases Option.some.inj found
      subst same
      exact ⟨rfl, rfl⟩
    · cases found

theorem skip_append {keeps : UInt8 → Bool} {text rest : Bytes}
    (kept : ∀ c ∈ text, keeps c = true) (stops : StopsAt keeps rest) (pos : Nat) :
    (⟨text ++ rest, pos⟩ : Cursor).skip keeps = ⟨rest, pos + text.length⟩ := by
  have taken : (text ++ rest).takeWhile keeps = text := by
    rw [List.takeWhile_append_of_pos kept]
    cases rest with
    | nil => simp
    | cons head rest => simp [stops head rfl]
  have dropped : (text ++ rest).dropWhile keeps = rest := by
    have whole := List.takeWhile_append_dropWhile (p := keeps) (l := text ++ rest)
    rw [taken] at whole
    exact List.append_cancel_left whole
  simp [skip, taken, dropped]

theorem skip_passes (c : Cursor) (keeps : UInt8 → Bool) :
    ∃ text, (∀ c ∈ text, keeps c = true) ∧ c.Passes text (c.skip keeps) := by
  refine ⟨c.rest.takeWhile keeps, ?_, ?_, rfl⟩
  · intro c member
    exact List.mem_takeWhile_imp member
  · exact List.takeWhile_append_dropWhile.symm

theorem skip_self {c : Cursor} {keeps : UInt8 → Bool} (stops : StopsAt keeps c.rest) :
    c.skip keeps = c :=
  @skip_append keeps [] c.rest (by simp) stops c.pos

theorem skip_stops (c : Cursor) (keeps : UInt8 → Bool) : StopsAt keeps (c.skip keeps).rest := by
  intro head first
  have dropped := List.head?_dropWhile_not keeps c.rest
  simp only [skip] at first
  rw [Option.mem_def] at first
  rw [first] at dropped
  simpa using dropped

theorem skipWs_skipWs (c : Cursor) : c.skipWs.skipWs = c.skipWs :=
  skip_self (skip_stops c isWs)

/-- White space in front makes no difference to what is skipped to. -/
theorem skipWs_blank {blank : Bytes} (white : IsBlank blank) (rest : Bytes) (pos : Nat) :
    (⟨blank ++ rest, pos⟩ : Cursor).skipWs =
      (⟨rest, pos + blank.length⟩ : Cursor).skipWs := by
  have taken : (blank ++ rest).takeWhile isWs = blank ++ rest.takeWhile isWs :=
    List.takeWhile_append_of_pos white
  have dropped : (blank ++ rest).dropWhile isWs = rest.dropWhile isWs :=
    List.dropWhile_append_of_pos white
  simp [skipWs, skip, taken, dropped, Nat.add_assoc]

end Cursor

theorem parseValue_skipWs (fuel : Nat) (c : Cursor) :
    parseValue fuel c.skipWs = parseValue fuel c := by
  cases fuel with
  | zero => rfl
  | succ fuel => simp only [parseValue, Cursor.skipWs_skipWs]

theorem parseElements_skipWs (fuel : Nat) (arr : List Value) (c : Cursor) :
    parseElements fuel arr c.skipWs = parseElements fuel arr c := by
  cases fuel with
  | zero => rfl
  | succ fuel => simp only [parseElements, Cursor.skipWs_skipWs]

theorem parseMembers_skipWs (fuel : Nat) (obj : List (Bytes × Value)) (c : Cursor) :
    parseMembers fuel obj c.skipWs = parseMembers fuel obj c := by
  cases fuel with
  | zero => rfl
  | succ fuel => simp only [parseMembers, Cursor.skipWs_skipWs]

/-- A point without digits after it is accepted. -/
def IsScannedFrac (s : Bytes) : Prop :=
  s = [] ∨ ∃ digits, s = 46 :: digits ∧ AllDigits digits

/-- An exponent mark without digits after it is accepted. -/
def IsScannedExp (s : Bytes) : Prop :=
  s = [] ∨ ∃ mark sign digits, s = mark :: (sign ++ digits) ∧ (mark = 101 ∨ mark = 69) ∧
    (sign = [] ∨ sign = [43] ∨ sign = [45]) ∧ AllDigits digits

/-- The literals that `parseNumber` accepts where a number may start. -/
def IsScanned (lit : Bytes) : Prop :=
  ∃ minus whole frac exp, lit = minus ++ (whole ++ (frac ++ exp)) ∧
    (minus = [] ∧ whole ≠ [] ∨ minus = [45]) ∧ AllDigits whole ∧ IsScannedFrac frac ∧
    IsScannedExp exp ∧ lit ≠ [45]

/-- What may follow a value: white space, a separator, a closing bracket or the end. -/
def isDelimiter (c : UInt8) : Bool :=
  isWs c || c == 44 || c == 93 || c == 125

def Delimited (rest : Bytes) : Prop :=
  ∀ c ∈ rest.head?, isDelimiter c = true

/-- A byte with which an unsigned part of a number may go on. -/
def isNumberByte (c : UInt8) : Bool :=
  isdigit c || c == 46 || c == 101 || c == 69 || c == 43 || c == 45

theorem isNumberByte_of_isDelimiter {c : UInt8} (delimiter : isDelimiter c = true) :
    isNumberByte c = false := by
  simp only [isDelimiter, isWs, Bool.or_eq_true, beq_iff_eq] at delimiter
  rcases delimiter with (((((rfl | rfl) | rfl) | rfl) | rfl) | rfl) | rfl
  all_goals rfl

theorem number_stops {rest : Bytes} (delimited : Delimited rest) : StopsAt isNumberByte rest :=
  fun c first => isNumberByte_of_isDelimiter (delimited c first)

theorem StopsAt.digits {rest : Bytes} (stops : StopsAt isNumberByte rest) :
    StopsAt isdigit rest := by
  intro c first
  have other := stops c first
  simp only [isNumberByte, Bool.or_eq_false_iff] at other
  exact other.1.1.1.1.1

theorem StopsAt.ne {rest : Bytes} (stops : StopsAt isNumberByte rest) (byte : UInt8)
    (inside : isNumberByte byte = true) : ∀ c ∈ rest.head?, c ≠ byte := by
  rintro c first rfl
  exact absurd inside (by simp [stops c first])

private theorem exp_stops {exp rest : Bytes} (valid : IsScannedExp exp)
    (stops : StopsAt isNumberByte rest) :
    StopsAt isdigit (exp ++ rest) ∧ ∀ c ∈ (exp ++ rest).head?, c ≠ 46 := by
  rcases valid with rfl | ⟨mark, sign, digits, rfl, letter, _⟩
  · exact ⟨stops.digits, stops.ne 46 rfl⟩
  · constructor
    · rintro c first
      cases Option.some.inj first
      rcases letter with rfl | rfl
      all_goals rfl
    · rintro c first
      cases Option.some.inj first
      rcases letter with rfl | rfl
      all_goals decide

private theorem frac_stops {frac rest : Bytes} (valid : IsScannedFrac frac)
    (stops : StopsAt isdigit rest) : StopsAt isdigit (frac ++ rest) := by
  rcases valid with rfl | ⟨digits, rfl, _⟩
  · exact stops
  · rintro c first
    cases Option.some.inj first
    rfl

theorem skipFraction_append {frac rest : Bytes} (valid : IsScannedFrac frac)
    (stops : StopsAt isdigit rest) (noPoint : ∀ c ∈ rest.head?, c ≠ 46) (pos : Nat) :
    skipFraction ⟨frac ++ rest, pos⟩ = ⟨rest, pos + frac.length⟩ := by
  rcases valid with rfl | ⟨digits, rfl, all⟩
  · simp [skipFraction, Cursor.expect_none (c := ⟨rest, pos⟩) noPoint]
  · simp only [skipFraction, List.cons_append, Cursor.expect_cons, Cursor.skipDigits]
    rw [Cursor.skip_append all stops]
    simp only [List.length_cons, Cursor.mk.injEq, true_and]
    omega

private theorem skipSign_append {sign digits rest : Bytes}
    (valid : sign = [] ∨ sign = [43] ∨ sign = [45]) (all : AllDigits digits)
    (stops : StopsAt isNumberByte rest) (pos : Nat) :
    let c : Cursor := ⟨sign ++ (digits ++ rest), pos⟩
    (c.expect 43 <|> c.expect 45).getD c = ⟨digits ++ rest, pos + sign.length⟩ := by
  have unsigned (byte : UInt8) (inside : isNumberByte byte = true) (noDigit : isdigit byte = false) :
      ∀ c ∈ (digits ++ rest).head?, c ≠ byte := by
    cases digits with
    | nil => exact stops.ne byte inside
    | cons digit digits =>
      intro c first same
      cases Option.some.inj first
      rw [← same, all digit (by simp)] at noDigit
      cases noDigit
  rcases valid with rfl | rfl | rfl
  · have plus := Cursor.expect_none (c := ⟨digits ++ rest, pos⟩) (unsigned 43 rfl rfl)
    have minus := Cursor.expect_none (c := ⟨digits ++ rest, pos⟩) (unsigned 45 rfl rfl)
    simp [plus, minus]
  · simp [Cursor.expect]
  · simp [Cursor.expect]

theorem skipExponent_append {exp rest : Bytes} (valid : IsScannedExp exp)
    (stops : StopsAt isNumberByte rest) (pos : Nat) :
    skipExponent ⟨exp ++ rest, pos⟩ = ⟨rest, pos + exp.length⟩ := by
  rcases valid with rfl | ⟨mark, sign, digits, rfl, letter, signed, all⟩
  · have small := Cursor.expect_none (c := ⟨rest, pos⟩) (stops.ne 101 rfl)
    have large := Cursor.expect_none (c := ⟨rest, pos⟩) (stops.ne 69 rfl)
    simp [skipExponent, small, large]
  · have marked : ((⟨mark :: (sign ++ (digits ++ rest)), pos⟩ : Cursor).expect 101 <|>
        (⟨mark :: (sign ++ (digits ++ rest)), pos⟩ : Cursor).expect 69) =
        some ⟨sign ++ (digits ++ rest), pos + 1⟩ := by
      rcases letter with rfl | rfl
      · simp [Cursor.expect_cons]
      · simp [Cursor.expect]
    simp only [skipExponent, List.cons_append, List.append_assoc, marked]
    rw [skipSign_append signed all stops, Cursor.skipDigits, Cursor.skip_append all stops.digits]
    simp only [List.length_cons, List.length_append, Cursor.mk.injEq, true_and]
    omega

theorem parseNumber_append {lit rest : Bytes} (valid : IsScanned lit)
    (delimited : Delimited rest) (pos : Nat) :
    parseNumber ⟨lit ++ rest, pos⟩ =
      .ok (.number (strtod lit), ⟨rest, pos + lit.length⟩) := by
  obtain ⟨minus, whole, frac, exp, rfl, start, digits, fraction, exponent, bare⟩ := valid
  have stops := number_stops delimited
  obtain ⟨expDigits, expPoint⟩ := exp_stops exponent stops
  have signed : (((⟨minus ++ (whole ++ (frac ++ (exp ++ rest))), pos⟩ : Cursor).expect 45).getD
      ⟨minus ++ (whole ++ (frac ++ (exp ++ rest))), pos⟩) =
      ⟨whole ++ (frac ++ (exp ++ rest)), pos + minus.length⟩ := by
    rcases start with ⟨rfl, nonempty⟩ | rfl
    · obtain ⟨digit, later, rfl⟩ := List.exists_cons_of_ne_nil nonempty
      have other : digit ≠ 45 := by
        rintro rfl
        exact absurd (digits 45 (by simp)) (by decide)
      simp [Cursor.expect, other]
    · simp [Cursor.expect]
  have more : whole ++ (frac ++ (exp ++ rest)) ≠ [] := by
    intro empty
    obtain ⟨noWhole, noFrac, noExp, _⟩ := by simpa using empty
    rcases start with ⟨_, nonempty⟩ | rfl
    · exact nonempty noWhole
    · exact bare (by simp [noWhole, noFrac, noExp])
  have scanned : skipExponent (skipFraction
      (⟨whole ++ (frac ++ (exp ++ rest)), pos + minus.length⟩ : Cursor).skipDigits) =
      ⟨rest, pos + (minus ++ (whole ++ (frac ++ exp))).length⟩ := by
    rw [Cursor.skipDigits, Cursor.skip_append digits (frac_stops fraction expDigits),
      skipFraction_append fraction expDigits expPoint, skipExponent_append exponent stops]
    simp only [List.length_append, Cursor.mk.injEq, true_and]
    omega
  have literal : (minus ++ (whole ++ (frac ++ (exp ++ rest)))).take
      (pos + (minus ++ (whole ++ (frac ++ exp))).length - pos) =
      minus ++ (whole ++ (frac ++ exp)) := by
    rw [Nat.add_sub_cancel_left]
    have whole := @List.take_left _ (minus ++ (whole ++ (frac ++ exp))) rest
    simpa only [List.append_assoc] using whole
  have nonempty : minus ++ (whole ++ (frac ++ exp)) ≠ [] := by
    rcases start with ⟨_, nonempty⟩ | rfl
    · simp [nonempty]
    · simp
  simp only [parseNumber, List.append_assoc, signed, if_neg more, scanned, literal]
  rw [if_neg (by rintro (empty | lone); exacts [nonempty empty, bare lone])]

theorem skipFraction_passes (c : Cursor) :
    ∃ frac, IsScannedFrac frac ∧ c.Passes frac (skipFraction c) := by
  unfold skipFraction
  cases point : c.expect 46 with
  | none => exact ⟨[], .inl rfl, .refl c⟩
  | some after =>
    obtain ⟨digits, all, passes⟩ := after.skip_passes isdigit
    exact ⟨_, .inr ⟨digits, rfl, all⟩, (Cursor.expect_some point).trans passes⟩

theorem skipExponent_passes (c : Cursor) :
    ∃ exp, IsScannedExp exp ∧ c.Passes exp (skipExponent c) := by
  unfold skipExponent
  cases marked : c.expect 101 <|> c.expect 69 with
  | none => exact ⟨[], .inl rfl, .refl c⟩
  | some after =>
    have letter : ∃ mark, (mark = 101 ∨ mark = 69) ∧ c.Passes [mark] after := by
      cases small : c.expect 101 with
      | some behind =>
        rw [small] at marked
        cases marked
        exact ⟨101, .inl rfl, Cursor.expect_some small⟩
      | none =>
        rw [small] at marked
        exact ⟨69, .inr rfl, Cursor.expect_some marked⟩
    have signed : ∃ sign, (sign = [] ∨ sign = [43] ∨ sign = [45]) ∧
        after.Passes sign ((after.expect 43 <|> after.expect 45).getD after) := by
      cases plus : after.expect 43 with
      | some behind => exact ⟨[43], .inr (.inl rfl), Cursor.expect_some plus⟩
      | none =>
        cases minus : after.expect 45 with
        | some behind => exact ⟨[45], .inr (.inr rfl), Cursor.expect_some minus⟩
        | none => exact ⟨[], .inl rfl, .refl after⟩
    obtain ⟨mark, letter, first⟩ := letter
    obtain ⟨sign, valid, second⟩ := signed
    obtain ⟨digits, all, third⟩ :=
      ((after.expect 43 <|> after.expect 45).getD after).skip_passes isdigit
    exact ⟨_, .inr ⟨mark, sign, digits, rfl, letter, valid, all⟩,
      first.trans (second.trans third)⟩

theorem parseNumber_passes {start after : Cursor} {v : Value}
    (first : ∀ c ∈ start.rest.head?, c = 45 ∨ isdigit c = true)
    (parsed : parseNumber start = .ok (v, after)) :
    ∃ lit, IsScanned lit ∧ v = .number (strtod lit) ∧ start.Passes lit after := by
  have signed : ∃ minus, start.Passes minus ((start.expect 45).getD start) ∧
      (minus = [] ∧ start.expect 45 = none ∨ minus = [45]) := by
    cases found : start.expect 45 with
    | none => exact ⟨[], .refl start, .inl ⟨rfl, rfl⟩⟩
    | some behind => exact ⟨[45], Cursor.expect_some found, .inr rfl⟩
  obtain ⟨minus, one, sign⟩ := signed
  obtain ⟨whole, digits, two⟩ := ((start.expect 45).getD start).skip_passes isdigit
  obtain ⟨frac, fraction, three⟩ := skipFraction_passes ((start.expect 45).getD start).skipDigits
  obtain ⟨exp, exponent, four⟩ :=
    skipExponent_passes (skipFraction ((start.expect 45).getD start).skipDigits)
  have passes := one.trans (two.trans (three.trans four))
  have literal : start.rest.take ((skipExponent (skipFraction
      ((start.expect 45).getD start).skipDigits)).pos - start.pos) =
      minus ++ (whole ++ (frac ++ exp)) := by
    rw [passes.1, passes.2, Nat.add_sub_cancel_left, List.take_left]
  simp only [parseNumber, literal] at parsed
  split at parsed
  · cases parsed
  · rename_i more
    split at parsed
    · cases parsed
    · rename_i accepted
      cases parsed
      refine ⟨_, ⟨minus, whole, frac, exp, rfl, ?_, digits, fraction, exponent, ?_⟩, rfl, passes⟩
      · rcases sign with ⟨rfl, unsigned⟩ | rfl
        · refine .inl ⟨rfl, ?_⟩
          rintro rfl
          rw [unsigned] at more two
          obtain ⟨head, later, shape⟩ := List.exists_cons_of_ne_nil more
          simp only [Option.getD_none] at shape two
          have stops := start.skip_stops isdigit head
          have same : (start.skip isdigit).rest = start.rest := two.1.symm
          rw [same, shape] at stops
          rcases first head (by simp [shape]) with rfl | digit
          · simp [Cursor.expect, shape] at unsigned
          · rw [stops rfl] at digit
            cases digit
        · exact .inr rfl
      · exact fun lone => accepted (.inr lone)

end ShadowSe.Json

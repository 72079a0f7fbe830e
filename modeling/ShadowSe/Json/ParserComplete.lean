import ShadowSe.Json.Strings

namespace ShadowSe.Json

open Support

/-- What may follow an element, with its white space: a separator, a bracket or the end. -/
def Closes (rest : Bytes) : Prop :=
  ∀ c ∈ rest.head?, c = 44 ∨ c = 93 ∨ c = 125

theorem closes_cons {c : UInt8} (closing : c = 44 ∨ c = 93 ∨ c = 125) (rest : Bytes) :
    Closes (c :: rest) := by
  intro head first
  cases Option.some.inj first
  exact closing

theorem Closes.skipWs {rest : Bytes} (closes : Closes rest) (pos : Nat) :
    (⟨rest, pos⟩ : Cursor).skipWs = ⟨rest, pos⟩ := by
  apply Cursor.skip_self
  intro c first
  rcases closes c first with rfl | rfl | rfl
  all_goals rfl

theorem Closes.delimited {rest blank : Bytes} (closes : Closes rest) (white : IsBlank blank) :
    Delimited (blank ++ rest) := by
  intro c first
  cases blank with
  | nil =>
    rcases closes c first with rfl | rfl | rfl
    all_goals rfl
  | cons head blank =>
    cases Option.some.inj first
    simp [isDelimiter, white c (by simp)]

theorem Cursor.skipWs_cons (head : UInt8) (visible : isWs head = false) (rest : Bytes)
    (pos : Nat) : (⟨head :: rest, pos⟩ : Cursor).skipWs = ⟨head :: rest, pos⟩ := by
  apply Cursor.skip_self
  intro c first
  cases Option.some.inj first
  exact visible

/-- The bytes with which a value may start. -/
def startsValue (c : UInt8) : Bool :=
  c == 123 || c == 91 || c == 34 || c == 116 || c == 102 || c == 110 || c == 45 || isdigit c

theorem startsValue_visible {c : UInt8} (starts : startsValue c = true) :
    isWs c = false ∧ c ≠ 93 := by
  constructor
  · apply Bool.eq_false_iff.mpr
    intro white
    simp only [isWs, Bool.or_eq_true, beq_iff_eq] at white
    rcases white with ((rfl | rfl) | rfl) | rfl
    all_goals cases starts
  · rintro rfl
    cases starts

theorem scanned_head {lit : Bytes} (valid : IsScanned lit) :
    ∃ head rest, lit = head :: rest ∧ (head = 45 ∨ isdigit head = true) := by
  obtain ⟨minus, whole, frac, exp, rfl, start, digits, _⟩ := valid
  rcases start with ⟨rfl, nonempty⟩ | rfl
  · obtain ⟨digit, later, rfl⟩ := List.exists_cons_of_ne_nil nonempty
    exact ⟨digit, _, rfl, .inr (digits digit (by simp))⟩
  · exact ⟨45, _, rfl, .inl rfl⟩

theorem IsValue.head {text : Bytes} {v : Value} (value : IsValue accepted text v) :
    ∃ head rest, text = head :: rest ∧ startsValue head = true := by
  cases value with
  | null => exact ⟨110, _, rfl, rfl⟩
  | bool b =>
    cases b with
    | true => exact ⟨116, _, rfl, rfl⟩
    | false => exact ⟨102, _, rfl, rfl⟩
  | number valid =>
    obtain ⟨head, rest, rfl, first⟩ := scanned_head valid
    refine ⟨head, rest, rfl, ?_⟩
    rcases first with rfl | digit
    · rfl
    · simp [startsValue, digit]
  | string => exact ⟨34, _, rfl, rfl⟩
  | emptyArray => exact ⟨91, _, rfl, rfl⟩
  | array => exact ⟨91, _, rfl, rfl⟩
  | emptyObject => exact ⟨123, _, rfl, rfl⟩
  | object => exact ⟨123, _, rfl, rfl⟩

/-- The elements start with a value, so the array is not taken for an empty one. -/
theorem IsElements.head {body : Bytes} {a : List Value} (elements : IsElements accepted body a)
    (rest : Bytes) (pos : Nat) :
    ∀ head ∈ (⟨body ++ rest, pos⟩ : Cursor).skipWs.rest.head?, head ≠ 93 := by
  have padded : ∀ {text later : Bytes} {v : Value}, IsPadded accepted text v →
      ∀ head ∈ (⟨text ++ later, pos⟩ : Cursor).skipWs.rest.head?, head ≠ 93 := by
    rintro _ later v ⟨white, value, _⟩ head first
    obtain ⟨start, tail, rfl, starts⟩ := value.head
    obtain ⟨visible, other⟩ := startsValue_visible starts
    rw [List.append_assoc, Cursor.skipWs_blank white, List.append_assoc, List.cons_append,
      Cursor.skipWs_cons _ visible] at first
    cases Option.some.inj first
    exact other
  cases elements with
  | last element => exact padded element
  | more element _ =>
    rw [List.append_assoc]
    exact padded element

theorem IsMembers.head {body : Bytes} {o : List (Bytes × Value)}
    (members : IsMembers accepted body o) (rest : Bytes) (pos : Nat) :
    ∀ head ∈ (⟨body ++ rest, pos⟩ : Cursor).skipWs.rest.head?, head ≠ 125 := by
  have keyed : ∀ {text later : Bytes} {m : Bytes × Value}, IsMember accepted text m →
      ∀ head ∈ (⟨text ++ later, pos⟩ : Cursor).skipWs.rest.head?, head ≠ 125 := by
    rintro _ later m ⟨white, _, _, _⟩ head first
    rw [List.append_assoc, Cursor.skipWs_blank white, List.cons_append,
      Cursor.skipWs_cons 34 rfl] at first
    cases Option.some.inj first
    decide
  cases members with
  | last member => exact keyed member
  | more member _ =>
    rw [List.append_assoc]
    exact keyed member

theorem parseLiteral_append (lit : String) (value : Value) (rest : Bytes) (pos : Nat) :
    parseLiteral lit value ⟨ascii lit ++ rest, pos⟩ =
      .ok (value, ⟨rest, pos + (ascii lit).length⟩) := by
  simp [parseLiteral, Cursor.advance]

theorem parseValue_number {lit rest : Bytes} (valid : IsScanned lit) (delimited : Delimited rest)
    (pos fuel : Nat) :
    parseValue (fuel + 1) ⟨lit ++ rest, pos⟩ =
      .ok (.number (strtod lit), ⟨rest, pos + lit.length⟩) := by
  obtain ⟨head, tail, rfl, first⟩ := scanned_head valid
  have starts : startsValue head = true := by
    rcases first with rfl | digit
    · rfl
    · simp [startsValue, digit]
  have other (byte : UInt8) (noNumber : byte ≠ 45 ∧ isdigit byte = false) : head ≠ byte := by
    rintro rfl
    rcases first with minus | digit
    · exact noNumber.1 minus
    · rw [noNumber.2] at digit
      cases digit
  rw [parseValue, List.cons_append, Cursor.skipWs_cons _ (startsValue_visible starts).1]
  simp only [if_neg (other 123 (by decide)), if_neg (other 91 (by decide)),
    if_neg (other 34 (by decide)), if_neg (other 116 (by decide)),
    if_neg (other 102 (by decide)), if_neg (other 110 (by decide)), if_pos first]
  exact parseNumber_append valid delimited pos

private theorem literal_head (word : String) (v : Value) (rest : Bytes) (pos fuel : Nat)
    (known : word = "true" ∧ v = .bool true ∨ word = "false" ∧ v = .bool false ∨
      word = "null" ∧ v = .null) :
    parseValue (fuel + 1) ⟨ascii word ++ rest, pos⟩ =
      .ok (v, ⟨rest, pos + (ascii word).length⟩) := by
  rw [← parseLiteral_append word v rest pos]
  rcases known with ⟨rfl, rfl⟩ | ⟨rfl, rfl⟩ | ⟨rfl, rfl⟩
  all_goals rfl

private theorem parseValue_array (rest : Bytes) (pos fuel : Nat) :
    parseValue (fuel + 1) ⟨91 :: rest, pos⟩ = parseArray fuel ⟨91 :: rest, pos⟩ :=
  rfl

private theorem parseValue_object (rest : Bytes) (pos fuel : Nat) :
    parseValue (fuel + 1) ⟨123 :: rest, pos⟩ = parseObject fuel ⟨123 :: rest, pos⟩ :=
  rfl

private theorem parseValue_string (rest : Bytes) (pos fuel : Nat) :
    parseValue (fuel + 1) ⟨34 :: rest, pos⟩ =
      match parseString ⟨34 :: rest, pos⟩ with
      | .error e => .error e
      | .ok (s, c) => .ok (.string s, c) :=
  rfl

mutual

theorem parseValue_complete : ∀ {text : Bytes} {v : Value}, IsValue accepted text v →
    ∀ (rest : Bytes) (pos fuel : Nat), Delimited rest → 3 * text.length ≤ fuel →
      ∃ after, parseValue fuel ⟨text ++ rest, pos⟩ = .ok (v, ⟨rest, after⟩)
  | _, _, .null, rest, pos, fuel, _, enough => by
    obtain ⟨fuel, rfl⟩ := Nat.exists_eq_add_of_le' (Nat.le_trans (by decide : 1 ≤ 12) enough)
    exact ⟨_, literal_head "null" .null rest pos fuel (by simp)⟩
  | _, _, .bool true, rest, pos, fuel, _, enough => by
    obtain ⟨fuel, rfl⟩ := Nat.exists_eq_add_of_le' (Nat.le_trans (by decide : 1 ≤ 12) enough)
    exact ⟨_, literal_head "true" (.bool true) rest pos fuel (by simp)⟩
  | _, _, .bool false, rest, pos, fuel, _, enough => by
    obtain ⟨fuel, rfl⟩ := Nat.exists_eq_add_of_le' (Nat.le_trans (by decide : 1 ≤ 15) enough)
    exact ⟨_, literal_head "false" (.bool false) rest pos fuel (by simp)⟩
  | lit, _, .number valid, rest, pos, fuel, delimited, enough => by
    obtain ⟨head, tail, rfl, _⟩ := scanned_head valid
    simp only [List.length_cons] at enough
    obtain ⟨fuel, rfl⟩ := Nat.exists_eq_add_of_le' (Nat.le_trans (by omega : 1 ≤ _) enough)
    exact ⟨_, parseValue_number valid delimited pos fuel⟩
  | _, _, @IsValue.string _ body s chars, rest, pos, fuel, _, enough => by
    simp only [List.length_cons] at enough
    obtain ⟨fuel, rfl⟩ := Nat.exists_eq_add_of_le' (Nat.le_trans (by omega : 1 ≤ _) enough)
    obtain ⟨after, parsed⟩ := parseString_append chars rest pos
    refine ⟨after, ?_⟩
    have shape : 34 :: (body ++ [34]) ++ rest = 34 :: (body ++ 34 :: rest) := by simp
    rw [shape, parseValue_string, parsed]
  | _, _, @IsValue.emptyArray _ blank white, rest, pos, fuel, _, enough => by
    simp only [List.length_cons] at enough
    obtain ⟨fuel, rfl⟩ := Nat.exists_eq_add_of_le' (Nat.le_trans (by omega : 2 ≤ _) enough)
    have shape : 91 :: (blank ++ [93]) ++ rest = 91 :: (blank ++ 93 :: rest) := by simp
    refine ⟨pos + 1 + blank.length + 1, ?_⟩
    rw [shape, parseValue_array]
    simp only [parseArray, Cursor.expect_cons, Cursor.skipWs_blank white,
      Cursor.skipWs_cons 93 rfl]
  | _, _, @IsValue.array _ body a elements, rest, pos, fuel, _, enough => by
    simp only [List.length_cons, List.length_append, List.length_nil] at enough
    obtain ⟨fuel, rfl⟩ := Nat.exists_eq_add_of_le' (Nat.le_trans (by omega : 2 ≤ _) enough)
    have shape : 91 :: (body ++ [93]) ++ rest = 91 :: (body ++ 93 :: rest) := by simp
    obtain ⟨after, parsed⟩ := parseElements_complete elements rest (pos + 1) fuel [] (by omega)
    refine ⟨after, ?_⟩
    rw [shape, parseValue_array]
    simp only [parseArray, Cursor.expect_cons, parseElements_skipWs, parsed,
      Cursor.expect_none (elements.head (93 :: rest) (pos + 1)), List.nil_append]
  | _, _, @IsValue.emptyObject _ blank white, rest, pos, fuel, _, enough => by
    simp only [List.length_cons] at enough
    obtain ⟨fuel, rfl⟩ := Nat.exists_eq_add_of_le' (Nat.le_trans (by omega : 2 ≤ _) enough)
    have shape : 123 :: (blank ++ [125]) ++ rest = 123 :: (blank ++ 125 :: rest) := by simp
    refine ⟨pos + 1 + blank.length + 1, ?_⟩
    rw [shape, parseValue_object]
    simp only [parseObject, Cursor.expect_cons, Cursor.skipWs_blank white,
      Cursor.skipWs_cons 125 rfl]
  | _, _, @IsValue.object _ body o members, rest, pos, fuel, _, enough => by
    simp only [List.length_cons, List.length_append, List.length_nil] at enough
    obtain ⟨fuel, rfl⟩ := Nat.exists_eq_add_of_le' (Nat.le_trans (by omega : 2 ≤ _) enough)
    have shape : 123 :: (body ++ [125]) ++ rest = 123 :: (body ++ 125 :: rest) := by simp
    obtain ⟨after, parsed⟩ := parseMembers_complete members rest (pos + 1) fuel [] (by omega)
    refine ⟨after, ?_⟩
    rw [shape, parseValue_object]
    simp only [parseObject, Cursor.expect_cons, parseMembers_skipWs, parsed,
      Cursor.expect_none (members.head (125 :: rest) (pos + 1)), List.nil_append]

theorem parsePadded_complete : ∀ {text : Bytes} {v : Value}, IsPadded accepted text v →
    ∀ (rest : Bytes) (pos fuel : Nat), Closes rest → 3 * text.length ≤ fuel →
      ∃ behind after, parseValue fuel ⟨text ++ rest, pos⟩ = .ok (v, behind) ∧
        behind.skipWs = ⟨rest, after⟩
  | _, _, @IsPadded.pad _ before text after v white value whiteAfter, rest, pos, fuel, closes,
      enough => by
    simp only [List.length_append] at enough
    obtain ⟨stop, parsed⟩ := parseValue_complete value (after ++ rest) (pos + before.length) fuel
      (closes.delimited whiteAfter) (by omega)
    refine ⟨⟨after ++ rest, stop⟩, stop + after.length, ?_, ?_⟩
    · rw [List.append_assoc, List.append_assoc, ← parseValue_skipWs, Cursor.skipWs_blank white,
        parseValue_skipWs, parsed]
    · rw [Cursor.skipWs_blank whiteAfter, closes.skipWs]

theorem parseElements_complete : ∀ {body : Bytes} {a : List Value}, IsElements accepted body a →
    ∀ (rest : Bytes) (pos fuel : Nat) (arr : List Value), 3 * body.length + 1 ≤ fuel →
      ∃ after, parseElements fuel arr ⟨body ++ 93 :: rest, pos⟩ =
        .ok (arr ++ a, ⟨rest, after⟩)
  | _, _, .last element, rest, pos, fuel, arr, enough => by
    obtain ⟨fuel, rfl⟩ := Nat.exists_eq_add_of_le' (Nat.le_trans (by omega : 1 ≤ _) enough)
    obtain ⟨behind, after, parsed, closed⟩ := parsePadded_complete element (93 :: rest) pos fuel
      (closes_cons (.inr (.inl rfl)) rest) (by omega)
    refine ⟨after + 1, ?_⟩
    simp only [parseElements, parseValue_skipWs, parsed, closed, Cursor.expect_cons]
  | _, _, @IsElements.more _ text later v a element more, rest, pos, fuel, arr, enough => by
    simp only [List.length_append, List.length_cons] at enough
    obtain ⟨fuel, rfl⟩ := Nat.exists_eq_add_of_le' (Nat.le_trans (by omega : 1 ≤ _) enough)
    obtain ⟨behind, after, parsed, closed⟩ := parsePadded_complete element
      (44 :: (later ++ 93 :: rest)) pos fuel (closes_cons (.inl rfl) _) (by omega)
    obtain ⟨final, continued⟩ := parseElements_complete more rest (after + 1) fuel (arr ++ [v])
      (by omega)
    have going : (⟨44 :: (later ++ 93 :: rest), after⟩ : Cursor).expect 93 = none :=
      Cursor.expect_none (by simp)
    refine ⟨final, ?_⟩
    simp only [parseElements, parseValue_skipWs, List.append_assoc, List.cons_append, parsed,
      closed, going, Cursor.expect_cons, continued]
    simp

theorem parseMember_complete : ∀ {text : Bytes} {m : Bytes × Value}, IsMember accepted text m →
    ∀ (rest : Bytes) (pos fuel : Nat), Closes rest → 3 * text.length ≤ fuel →
      ∃ stop colon value behind after,
        parseString (⟨text ++ rest, pos⟩ : Cursor).skipWs = .ok (m.1, stop) ∧
        stop.skipWs.expect 58 = some colon ∧ colon.skipWs = value.skipWs ∧
        parseValue fuel value = .ok (m.2, behind) ∧ behind.skipWs = ⟨rest, after⟩
  | _, _, @IsMember.member _ before body key after text v white chars whiteAfter value, rest, pos,
      fuel, closes, enough => by
    simp only [List.length_append, List.length_cons] at enough
    obtain ⟨stop, parsedKey⟩ := parseString_append chars (after ++ 58 :: (text ++ rest))
      (pos + before.length)
    obtain ⟨behind, final, parsed, closed⟩ := parsePadded_complete value rest
      (stop + after.length + 1) fuel closes (by omega)
    refine ⟨⟨after ++ 58 :: (text ++ rest), stop⟩, ⟨text ++ rest, stop + after.length + 1⟩, _,
      behind, final, ?_, ?_, rfl, parsed, closed⟩
    · have shape : before ++ (34 :: (body ++ 34 :: (after ++ 58 :: text))) ++ rest =
          before ++ (34 :: (body ++ 34 :: (after ++ 58 :: (text ++ rest)))) := by simp
      rw [shape, Cursor.skipWs_blank white, Cursor.skipWs_cons 34 rfl, parsedKey]
    · rw [Cursor.skipWs_blank whiteAfter, Cursor.skipWs_cons 58 rfl, Cursor.expect_cons]

theorem parseMembers_complete : ∀ {body : Bytes} {o : List (Bytes × Value)},
    IsMembers accepted body o →
    ∀ (rest : Bytes) (pos fuel : Nat) (obj : List (Bytes × Value)), 3 * body.length + 1 ≤ fuel →
      ∃ after, parseMembers fuel obj ⟨body ++ 125 :: rest, pos⟩ =
        .ok (obj ++ o, ⟨rest, after⟩)
  | _, _, .last member, rest, pos, fuel, obj, enough => by
    obtain ⟨fuel, rfl⟩ := Nat.exists_eq_add_of_le' (Nat.le_trans (by omega : 1 ≤ _) enough)
    obtain ⟨stop, colon, value, behind, after, parsedKey, found, same, parsed, closed⟩ :=
      parseMember_complete member (125 :: rest) pos fuel (closes_cons (.inr (.inr rfl)) rest)
        (by omega)
    refine ⟨after + 1, ?_⟩
    simp only [parseMembers, parsedKey, found, same, parseValue_skipWs, parsed, closed,
      Cursor.expect_cons]
  | _, _, @IsMembers.more _ text later m o member more, rest, pos, fuel, obj, enough => by
    simp only [List.length_append, List.length_cons] at enough
    obtain ⟨fuel, rfl⟩ := Nat.exists_eq_add_of_le' (Nat.le_trans (by omega : 1 ≤ _) enough)
    obtain ⟨stop, colon, value, behind, after, parsedKey, found, same, parsed, closed⟩ :=
      parseMember_complete member (44 :: (later ++ 125 :: rest)) pos fuel
        (closes_cons (.inl rfl) _) (by omega)
    obtain ⟨final, continued⟩ := parseMembers_complete more rest (after + 1) fuel (obj ++ [m])
      (by omega)
    have going : (⟨44 :: (later ++ 125 :: rest), after⟩ : Cursor).expect 125 = none :=
      Cursor.expect_none (by simp)
    refine ⟨final, ?_⟩
    simp only [parseMembers, List.append_assoc, List.cons_append, parsedKey, found, same,
      parseValue_skipWs, parsed, closed, going, Cursor.expect_cons, continued]
    simp

end

/-- A text of the accepted dialect is parsed to the value it denotes. -/
theorem parse_of_isText {text : Bytes} {v : Value} (derived : IsText accepted text v) :
    parse text = .ok v := by
  obtain ⟨behind, after, parsed, closed⟩ := parsePadded_complete derived [] 0
    (3 * text.length + 1) (by simp [Closes]) (Nat.le_succ _)
  rw [List.append_nil] at parsed
  simp [parse, parsed, closed]

end ShadowSe.Json

import ShadowSe.Json.Strings

namespace ShadowSe.Json

open Support

theorem Cursor.skipWs_passes (c : Cursor) : ∃ blank, IsBlank blank ∧ c.Passes blank c.skipWs :=
  c.skip_passes isWs

theorem parseLiteral_passes {lit : String} {value v : Value} {c after : Cursor}
    (parsed : parseLiteral lit value c = .ok (v, after)) :
    v = value ∧ c.Passes (ascii lit) after := by
  unfold parseLiteral at parsed
  split at parsed
  · cases parsed
  · rename_i found
    cases parsed
    rw [not_not] at found
    refine ⟨rfl, ?_, rfl⟩
    have whole := List.take_append_drop (ascii lit).length c.rest
    rw [found] at whole
    exact whole.symm

/-- The results of the parsing functions with this fuel have derivations. -/
structure SoundAt (fuel : Nat) : Prop where
  value : ∀ {c after : Cursor} {v : Value}, parseValue fuel c = .ok (v, after) →
    ∃ blank text, IsBlank blank ∧ IsValue accepted text v ∧ c.Passes (blank ++ text) after
  array : ∀ {c after : Cursor} {v : Value}, parseArray fuel c = .ok (v, after) →
    ∃ text, IsValue accepted text v ∧ c.Passes text after
  elements : ∀ {arr a : List Value} {c after : Cursor},
    parseElements fuel arr c = .ok (a, after) →
    ∃ body b, a = arr ++ b ∧ IsElements accepted body b ∧ c.Passes (body ++ [93]) after
  object : ∀ {c after : Cursor} {v : Value}, parseObject fuel c = .ok (v, after) →
    ∃ text, IsValue accepted text v ∧ c.Passes text after
  members : ∀ {obj o : List (Bytes × Value)} {c after : Cursor},
    parseMembers fuel obj c = .ok (o, after) →
    ∃ body p, o = obj ++ p ∧ IsMembers accepted body p ∧ c.Passes (body ++ [125]) after

/-- A value between two runs of white space is an element. -/
private theorem SoundAt.padded {fuel : Nat} (sound : SoundAt fuel) {c behind : Cursor} {v : Value}
    (parsed : parseValue fuel c.skipWs = .ok (v, behind)) :
    ∃ text, IsPadded accepted text v ∧ c.Passes text behind.skipWs := by
  obtain ⟨first, white, one⟩ := c.skipWs_passes
  obtain ⟨second, text, white', value, two⟩ := sound.value parsed
  obtain ⟨third, whiteAfter, three⟩ := behind.skipWs_passes
  have blank : IsBlank (first ++ second) := by
    intro c member
    rcases List.mem_append.mp member with inside | inside
    · exact white c inside
    · exact white' c inside
  refine ⟨first ++ second ++ (text ++ third), .pad blank value whiteAfter, ?_⟩
  simpa using one.trans (two.trans three)

private theorem sound_value {fuel : Nat} (sound : SoundAt fuel) {c after : Cursor} {v : Value}
    (parsed : parseValue (fuel + 1) c = .ok (v, after)) :
    ∃ blank text, IsBlank blank ∧ IsValue accepted text v ∧ c.Passes (blank ++ text) after := by
  obtain ⟨blank, white, one⟩ := c.skipWs_passes
  suffices behind : ∃ text, IsValue accepted text v ∧ c.skipWs.Passes text after by
    obtain ⟨text, value, two⟩ := behind
    exact ⟨blank, text, white, value, one.trans two⟩
  simp only [parseValue] at parsed
  split at parsed
  · cases parsed
  · rename_i head rest shape
    -- The branches stand in the order of the source.
    split at parsed
    · exact sound.object parsed
    split at parsed
    · exact sound.array parsed
    split at parsed
    · split at parsed
      · cases parsed
      · rename_i s behind parsedString
        cases parsed
        obtain ⟨body, two, chars⟩ := parseString_passes parsedString
        exact ⟨_, .string chars, two⟩
    split at parsed
    · obtain ⟨rfl, two⟩ := parseLiteral_passes parsed
      exact ⟨_, .bool true, two⟩
    split at parsed
    · obtain ⟨rfl, two⟩ := parseLiteral_passes parsed
      exact ⟨_, .bool false, two⟩
    split at parsed
    · obtain ⟨rfl, two⟩ := parseLiteral_passes parsed
      exact ⟨_, .null, two⟩
    split at parsed
    · rename_i first
      have starts : ∀ other ∈ c.skipWs.rest.head?, other = 45 ∨ isdigit other = true := by
        intro other found
        rw [shape] at found
        cases Option.some.inj found
        exact first
      obtain ⟨lit, valid, rfl, two⟩ := parseNumber_passes starts parsed
      exact ⟨_, .number valid, two⟩
    · cases parsed

private theorem sound_array {fuel : Nat} (sound : SoundAt fuel) {c after : Cursor} {v : Value}
    (parsed : parseArray (fuel + 1) c = .ok (v, after)) :
    ∃ text, IsValue accepted text v ∧ c.Passes text after := by
  simp only [parseArray, parseElements_skipWs] at parsed
  split at parsed
  · cases parsed
  · rename_i inside opened
    have one := Cursor.expect_some opened
    split at parsed
    · rename_i behind closed
      cases parsed
      obtain ⟨blank, white, two⟩ := inside.skipWs_passes
      exact ⟨_, .emptyArray white, one.trans (two.trans (Cursor.expect_some closed))⟩
    · split at parsed
      · cases parsed
      · rename_i arr behind elements
        cases parsed
        obtain ⟨body, b, rfl, derived, two⟩ := sound.elements elements
        exact ⟨_, .array derived, one.trans two⟩

private theorem sound_elements {fuel : Nat} (sound : SoundAt fuel) {arr a : List Value}
    {c after : Cursor} (parsed : parseElements (fuel + 1) arr c = .ok (a, after)) :
    ∃ body b, a = arr ++ b ∧ IsElements accepted body b ∧ c.Passes (body ++ [93]) after := by
  simp only [parseElements] at parsed
  split at parsed
  · cases parsed
  · rename_i v behind element
    obtain ⟨text, padded, one⟩ := sound.padded element
    split at parsed
    · rename_i closed
      cases parsed
      exact ⟨text, [v], rfl, .last padded, one.trans (Cursor.expect_some closed)⟩
    · split at parsed
      · cases parsed
      · rename_i comma
        obtain ⟨later, b, rfl, more, two⟩ := sound.elements parsed
        refine ⟨text ++ 44 :: later, v :: b, by simp, .more padded more, ?_⟩
        simpa using one.trans ((Cursor.expect_some comma).trans two)

private theorem sound_object {fuel : Nat} (sound : SoundAt fuel) {c after : Cursor} {v : Value}
    (parsed : parseObject (fuel + 1) c = .ok (v, after)) :
    ∃ text, IsValue accepted text v ∧ c.Passes text after := by
  simp only [parseObject, parseMembers_skipWs] at parsed
  split at parsed
  · cases parsed
  · rename_i inside opened
    have one := Cursor.expect_some opened
    split at parsed
    · rename_i behind closed
      cases parsed
      obtain ⟨blank, white, two⟩ := inside.skipWs_passes
      exact ⟨_, .emptyObject white, one.trans (two.trans (Cursor.expect_some closed))⟩
    · split at parsed
      · cases parsed
      · rename_i obj behind members
        cases parsed
        obtain ⟨body, p, rfl, derived, two⟩ := sound.members members
        exact ⟨_, .object derived, one.trans two⟩

private theorem sound_members {fuel : Nat} (sound : SoundAt fuel) {obj o : List (Bytes × Value)}
    {c after : Cursor} (parsed : parseMembers (fuel + 1) obj c = .ok (o, after)) :
    ∃ body p, o = obj ++ p ∧ IsMembers accepted body p ∧ c.Passes (body ++ [125]) after := by
  simp only [parseMembers] at parsed
  split at parsed
  · cases parsed
  · cases parsed
  · rename_i key stop parsedKey
    obtain ⟨blank, white, one⟩ := c.skipWs_passes
    obtain ⟨body, two, chars⟩ := parseString_passes parsedKey
    obtain ⟨blankAfter, whiteAfter, three⟩ := stop.skipWs_passes
    split at parsed
    · cases parsed
    · rename_i colon found
      split at parsed
      · cases parsed
      · rename_i v behind value
        obtain ⟨text, padded, four⟩ := sound.padded value
        have passes := one.trans (two.trans (three.trans ((Cursor.expect_some found).trans four)))
        have member := IsMember.member white chars whiteAfter padded
        split at parsed
        · rename_i closed
          cases parsed
          refine ⟨_, [(key, v)], rfl, .last member, ?_⟩
          simpa using passes.trans (Cursor.expect_some closed)
        · split at parsed
          · cases parsed
          · rename_i comma
            obtain ⟨later, p, rfl, more, five⟩ := sound.members parsed
            refine ⟨_, (key, v) :: p, by simp, .more member more, ?_⟩
            simpa using passes.trans ((Cursor.expect_some comma).trans five)

theorem soundAt (fuel : Nat) : SoundAt fuel := by
  induction fuel with
  | zero =>
    constructor
    all_goals
      intros
      rename_i parsed
      cases parsed
  | succ fuel ih =>
    exact ⟨sound_value ih, sound_array ih, sound_elements ih, sound_object ih, sound_members ih⟩

/-- A text that is accepted is of the accepted dialect and denotes the result. -/
theorem isText_of_parse {text : Bytes} {v : Value} (parsed : parse text = .ok v) :
    IsText accepted text v := by
  unfold parse at parsed
  split at parsed
  · cases parsed
  · rename_i result after value
    split at parsed
    · cases parsed
    · rename_i ended
      cases parsed
      rw [not_not] at ended
      rw [← parseValue_skipWs] at value
      obtain ⟨whole, padded, shape, _⟩ := (soundAt _).padded value
      have same : text = whole := by simpa [ended] using shape
      rw [same]
      exact padded

/-- The parsing functions do not run out of three calls for each byte. -/
structure EnoughAt (fuel : Nat) : Prop where
  value : ∀ {c : Cursor}, 3 * c.rest.length < fuel → parseValue fuel c ≠ .error .exhausted
  array : ∀ {c : Cursor}, 3 * c.rest.length ≤ fuel → c.rest ≠ [] →
    parseArray fuel c ≠ .error .exhausted
  elements : ∀ {arr : List Value} {c : Cursor}, 3 * c.rest.length + 1 < fuel →
    parseElements fuel arr c ≠ .error .exhausted
  object : ∀ {c : Cursor}, 3 * c.rest.length ≤ fuel → c.rest ≠ [] →
    parseObject fuel c ≠ .error .exhausted
  members : ∀ {obj : List (Bytes × Value)} {c : Cursor}, 3 * c.rest.length + 1 < fuel →
    parseMembers fuel obj c ≠ .error .exhausted

private theorem parseLiteral_ne_exhausted (lit : String) (value : Value) (c : Cursor) :
    parseLiteral lit value c ≠ .error .exhausted := by
  unfold parseLiteral Cursor.fail
  split
  · simp
  · simp

private theorem parseNumber_ne_exhausted (c : Cursor) : parseNumber c ≠ .error .exhausted := by
  simp only [parseNumber, Cursor.fail]
  split
  · simp
  · split
    · simp
    · simp

theorem Cursor.Passes.length {c after : Cursor} {text : Bytes} (passes : c.Passes text after) :
    c.rest.length = text.length + after.rest.length := by
  rw [passes.1, List.length_append]

theorem Cursor.length_skipWs_le (c : Cursor) : c.skipWs.rest.length ≤ c.rest.length := by
  obtain ⟨blank, _, passes⟩ := c.skipWs_passes
  have lengths := passes.length
  omega

theorem Cursor.length_of_expect {c after : Cursor} {byte : UInt8}
    (found : c.expect byte = some after) : c.rest.length = after.rest.length + 1 := by
  rw [(Cursor.expect_some found).length]
  exact Nat.add_comm 1 _

private theorem enough_value {fuel : Nat} (enough : EnoughAt fuel) {c : Cursor}
    (bound : 3 * c.rest.length < fuel + 1) : parseValue (fuel + 1) c ≠ .error .exhausted := by
  have shorter := c.length_skipWs_le
  simp only [parseValue, Cursor.fail]
  split
  · simp
  · rename_i head rest shape
    have nonempty : c.skipWs.rest ≠ [] := by simp [shape]
    split
    · exact enough.object (by omega) nonempty
    split
    · exact enough.array (by omega) nonempty
    split
    · split
      · rename_i e failed
        rintro ⟨⟩
        exact parseString_ne_exhausted _ failed
      · simp
    split
    · exact parseLiteral_ne_exhausted _ _ _
    split
    · exact parseLiteral_ne_exhausted _ _ _
    split
    · exact parseLiteral_ne_exhausted _ _ _
    split
    · exact parseNumber_ne_exhausted _
    · simp

private theorem enough_array {fuel : Nat} (enough : EnoughAt fuel) {c : Cursor}
    (bound : 3 * c.rest.length ≤ fuel + 1) : parseArray (fuel + 1) c ≠ .error .exhausted := by
  simp only [parseArray, Cursor.fail, parseElements_skipWs]
  split
  · simp
  · rename_i inside opened
    have one := Cursor.length_of_expect opened
    split
    · simp
    · split
      · rename_i e failed
        rintro ⟨⟩
        exact enough.elements (by omega) failed
      · simp

private theorem enough_elements {fuel : Nat} (enough : EnoughAt fuel) {arr : List Value}
    {c : Cursor} (bound : 3 * c.rest.length + 1 < fuel + 1) :
    parseElements (fuel + 1) arr c ≠ .error .exhausted := by
  have shorter := c.length_skipWs_le
  simp only [parseElements, Cursor.fail]
  split
  · rename_i e failed
    rintro ⟨⟩
    exact enough.value (by omega) failed
  · rename_i v behind element
    obtain ⟨text, _, passes⟩ := (soundAt fuel).padded element
    have one := passes.length
    split
    · simp
    · split
      · simp
      · rename_i comma
        have two := Cursor.length_of_expect comma
        exact enough.elements (by omega)

private theorem enough_object {fuel : Nat} (enough : EnoughAt fuel) {c : Cursor}
    (bound : 3 * c.rest.length ≤ fuel + 1) : parseObject (fuel + 1) c ≠ .error .exhausted := by
  simp only [parseObject, Cursor.fail, parseMembers_skipWs]
  split
  · simp
  · rename_i inside opened
    have one := Cursor.length_of_expect opened
    split
    · simp
    · split
      · rename_i e failed
        rintro ⟨⟩
        exact enough.members (by omega) failed
      · simp

private theorem enough_members {fuel : Nat} (enough : EnoughAt fuel) {obj : List (Bytes × Value)}
    {c : Cursor} (bound : 3 * c.rest.length + 1 < fuel + 1) :
    parseMembers (fuel + 1) obj c ≠ .error .exhausted := by
  simp only [parseMembers, Cursor.fail]
  split
  · rename_i failed
    exact absurd failed (parseString_ne_exhausted _)
  · simp
  · rename_i key stop parsedKey
    obtain ⟨blank, _, first⟩ := c.skipWs_passes
    obtain ⟨body, second, _⟩ := parseString_passes parsedKey
    have one := (first.trans second).length
    have shorter := stop.length_skipWs_le
    split
    · simp
    · rename_i colon found
      have two := Cursor.length_of_expect found
      have shorterColon := colon.length_skipWs_le
      split
      · rename_i e failed
        rintro ⟨⟩
        exact enough.value (by omega) failed
      · rename_i v behind value
        obtain ⟨text, _, third⟩ := (soundAt fuel).padded value
        have three := third.length
        split
        · simp
        · split
          · simp
          · rename_i comma
            have four := Cursor.length_of_expect comma
            exact enough.members (by omega)

theorem enoughAt (fuel : Nat) : EnoughAt fuel := by
  induction fuel with
  | zero =>
    constructor
    · intro c enough
      omega
    · intro c enough nonempty
      have positive := List.length_pos_iff.mpr nonempty
      omega
    · intro arr c enough
      omega
    · intro c enough nonempty
      have positive := List.length_pos_iff.mpr nonempty
      omega
    · intro obj c enough
      omega
  | succ fuel ih =>
    exact ⟨enough_value ih, fun bound _ => enough_array ih bound, enough_elements ih,
      fun bound _ => enough_object ih bound, enough_members ih⟩

theorem parse_error {text err : Bytes} (rejected : parse text = .error err) :
    err = ascii "JSON parse error: trailing data after document" ∨
      ∃ offset msg, err = (ParseError.failed offset msg).text := by
  unfold parse at rejected
  split at rejected
  · rename_i e failed
    cases rejected
    cases e with
    | failed offset msg => exact .inr ⟨offset, msg, rfl⟩
    | exhausted =>
      exact absurd failed ((enoughAt _).value (Nat.lt_succ_self (3 * text.length)))
  · split at rejected
    · cases rejected
      exact .inl rfl
    · cases rejected

end ShadowSe.Json

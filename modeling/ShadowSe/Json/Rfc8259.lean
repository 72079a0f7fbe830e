import ShadowSe.Json.ParserComplete
import ShadowSe.Json.ParserSound

namespace ShadowSe.Json

open Support

theorem parse_eq_ok_iff {text : Bytes} {v : Value} :
    parse text = .ok v ↔ IsText accepted text v :=
  ⟨isText_of_parse, parse_of_isText⟩

theorem IsNumber.scanned {lit : Bytes} (valid : IsNumber lit) : IsScanned lit := by
  obtain ⟨minus, int, frac, exp, rfl, sign, whole, fraction, exponent⟩ := valid
  have digits : int ≠ [] ∧ AllDigits int := by
    rcases whole with rfl | ⟨first, rest, rfl, digit, _, all⟩
    · exact ⟨by simp, by simp [AllDigits, isdigit]⟩
    · refine ⟨by simp, ?_⟩
      intro c member
      rcases List.mem_cons.mp member with rfl | later
      · exact digit
      · exact all c later
  refine ⟨minus, int, frac, exp, by simp, ?_, digits.2, ?_, ?_, ?_⟩
  · rcases sign with rfl | rfl
    · exact .inl ⟨rfl, digits.1⟩
    · exact .inr rfl
  · rcases fraction with rfl | ⟨ds, rfl, _, all⟩
    · exact .inl rfl
    · exact .inr ⟨ds, rfl, all⟩
  · rcases exponent with rfl | ⟨mark, sign, ds, rfl, letter, signed, _, all⟩
    · exact .inl rfl
    · exact .inr ⟨mark, sign, ds, rfl, letter, signed, all⟩
  · -- A literal that is a bare minus sign has no digits.
    intro bare
    have inside : ∀ c ∈ int, c = 45 := by
      intro c member
      have listed : c ∈ minus ++ int ++ frac ++ exp := by simp [member]
      rw [bare] at listed
      exact List.mem_singleton.mp listed
    obtain ⟨digit, later, rfl⟩ := List.exists_cons_of_ne_nil digits.1
    have minusDigit := digits.2 digit (by simp)
    rw [inside digit (by simp)] at minusDigit
    cases minusDigit

theorem paired_within_accepted : paired.Within accepted :=
  ⟨fun _ => IsNumber.scanned, fun _ => False.elim⟩

/-- Every text of RFC 8259 whose surrogate escapes come in pairs is parsed to the value it
denotes. -/
theorem parse_rfc8259 {text : Bytes} {v : Value} (derived : IsText paired text v) :
    parse text = .ok v :=
  parse_of_isText (derived.widen paired_within_accepted)

/-- `[-1.5, "\ud83d\ude00"]` holds a number and a character beyond the basic plane. -/
theorem parse_rfc8259_pair :
    parse (ascii "[-1.5, \"\\ud83d\\ude00\"]") =
      .ok (.array [.number (strtod (ascii "-1.5")), .string [0xF0, 0x9F, 0x98, 0x80]]) := by
  have number : IsValue paired (ascii "-1.5") (.number (strtod (ascii "-1.5"))) := by
    refine .number ⟨[45], [49], [46, 53], [], rfl, .inr rfl, .inr ⟨49, [], rfl, rfl, by decide, ?_⟩,
      .inr ⟨[53], rfl, by decide, ?_⟩, .inl rfl⟩
    · simp [AllDigits]
    · simp [AllDigits, isdigit]
  have chars : IsChars paired (ascii "\\ud83d\\ude00") [0xF0, 0x9F, 0x98, 0x80] :=
    @IsChars.pair paired (ascii "d83d") (ascii "de00") [] [] 0xD83D 0xDE00
      ⟨_, _, _, _, 13, 8, 3, 13, rfl, rfl, rfl, rfl, rfl, rfl⟩
      ⟨_, _, _, _, 13, 14, 0, 0, rfl, rfl, rfl, rfl, rfl, rfl⟩ (by decide) (by decide) .done
  have none : IsBlank [] := by simp [IsBlank]
  have space : IsBlank [32] := by simp [IsBlank, isWs]
  exact parse_rfc8259 (.pad none
    (.array (.more (.pad none number none) (.last (.pad space (.string chars) none)))) none)

/-- Where a scan of the text stands: between literals, in a number, in a string, or behind
a backslash there. -/
inductive ScanState where
  | outside
  | number (lit : Bytes)
  | inside
  | escaped

/-- What a byte between literals starts. -/
def ScanState.start (c : UInt8) : ScanState :=
  if c = 34 then .inside else if c = 45 ∨ isdigit c then .number [c] else .outside

def scanNumbers : ScanState → Bytes → List Bytes
  | .number lit, [] => [lit]
  | _, [] => []
  | .outside, c :: rest => scanNumbers (.start c) rest
  | .number lit, c :: rest =>
    if isNumberByte c then scanNumbers (.number (lit ++ [c])) rest
    else lit :: scanNumbers (.start c) rest
  | .inside, c :: rest =>
    scanNumbers (if c = 34 then .outside else if c = 92 then .escaped else .inside) rest
  | .escaped, _ :: rest => scanNumbers .inside rest

/-- The maximal runs of number bytes, outside strings, that start like a number. -/
def numberLiterals (text : Bytes) : List Bytes :=
  scanNumbers .outside text

private theorem scanNumbers_append_number {lit : Bytes} (all : ∀ c ∈ lit, isNumberByte c = true)
    {rest : Bytes} (delimited : Delimited rest) (before : Bytes) :
    scanNumbers (.number before) (lit ++ rest) =
      (before ++ lit) :: scanNumbers .outside rest := by
  induction lit generalizing before with
  | nil =>
    cases rest with
    | nil => simp [scanNumbers]
    | cons c rest => simp [scanNumbers, isNumberByte_of_isDelimiter (delimited c rfl)]
  | cons c lit ih =>
    simp only [List.cons_append, scanNumbers, all c (by simp), ↓reduceIte]
    rw [ih fun other member => all other (List.mem_cons_of_mem _ member)]
    simp

theorem isNumberByte_of_isdigit {c : UInt8} (digit : isdigit c = true) : isNumberByte c = true := by
  simp [isNumberByte, digit]

theorem IsScanned.numberBytes {lit : Bytes} (valid : IsScanned lit) :
    ∀ c ∈ lit, isNumberByte c = true := by
  obtain ⟨minus, whole, frac, exp, rfl, start, digits, fraction, exponent, _⟩ := valid
  intro c member
  simp only [List.mem_append] at member
  rcases member with inside | inside | inside | inside
  · rcases start with ⟨rfl, _⟩ | rfl
    · cases inside
    · cases List.mem_singleton.mp inside
      rfl
  · exact isNumberByte_of_isdigit (digits c inside)
  · rcases fraction with rfl | ⟨ds, rfl, all⟩
    · cases inside
    · rcases List.mem_cons.mp inside with rfl | later
      · rfl
      · exact isNumberByte_of_isdigit (all c later)
  · rcases exponent with rfl | ⟨mark, sign, ds, rfl, letter, signed, all⟩
    · cases inside
    · rcases List.mem_cons.mp inside with rfl | later
      · rcases letter with rfl | rfl
        all_goals rfl
      · rcases List.mem_append.mp later with first | last
        · rcases signed with rfl | rfl | rfl
          · cases first
          all_goals
            cases List.mem_singleton.mp first
            rfl
        · exact isNumberByte_of_isdigit (all c last)

private theorem scanNumbers_number {lit : Bytes} (valid : IsScanned lit) {rest : Bytes}
    (delimited : Delimited rest) :
    scanNumbers .outside (lit ++ rest) = lit :: scanNumbers .outside rest := by
  have bytes := valid.numberBytes
  obtain ⟨head, tail, rfl, first⟩ := scanned_head valid
  have noQuote : head ≠ 34 := by
    rintro rfl
    rcases first with minus | digit
    · cases minus
    · cases digit
  simp only [List.cons_append, scanNumbers, ScanState.start, if_neg noQuote, if_pos first]
  rw [scanNumbers_append_number (fun c member => bytes c (List.mem_cons_of_mem _ member)) delimited]
  rfl

private theorem scanNumbers_blank {blank : Bytes} (white : IsBlank blank) (rest : Bytes) :
    scanNumbers .outside (blank ++ rest) = scanNumbers .outside rest := by
  induction blank with
  | nil => rfl
  | cons c blank ih =>
    have start : ScanState.start c = .outside := by
      have space := white c (by simp)
      simp only [isWs, Bool.or_eq_true, beq_iff_eq] at space
      rcases space with ((rfl | rfl) | rfl) | rfl
      all_goals rfl
    rw [List.cons_append, scanNumbers, start]
    exact ih fun other member => white other (List.mem_cons_of_mem _ member)

private theorem scanNumbers_hex {hex : Bytes} {cp : Nat} (digits : IsHex4 hex cp) (rest : Bytes) :
    scanNumbers .inside (hex ++ rest) = scanNumbers .inside rest := by
  have plain : ∀ {c : UInt8} {digit : Nat}, hexValue c = some digit → c ≠ 34 ∧ c ≠ 92 := by
    intro c digit found
    constructor
    · rintro rfl
      cases found
    · rintro rfl
      cases found
  obtain ⟨a, b, c, d, p, q, r, s, rfl, first, second, third, fourth, _⟩ := digits
  simp [scanNumbers, plain first, plain second, plain third, plain fourth]

private theorem scanNumbers_chars {d : Dialect} {body s : Bytes} (chars : IsChars d body s)
    (rest : Bytes) : scanNumbers .inside (body ++ 34 :: rest) = scanNumbers .outside rest := by
  induction chars with
  | done => rfl
  | raw _ quote backslash _ ih =>
    rw [List.cons_append, scanNumbers, if_neg quote, if_neg backslash]
    exact ih
  | letter _ _ ih => exact ih
  | unicode digits _ _ ih =>
    rw [List.cons_append, List.cons_append, List.append_assoc]
    exact (scanNumbers_hex digits _).trans ih
  | pair digits lowDigits _ _ _ ih =>
    simp only [List.cons_append, List.append_assoc]
    refine (scanNumbers_hex digits _).trans ?_
    exact (scanNumbers_hex lowDigits _).trans ih
  | lone digits _ _ _ ih =>
    rw [List.cons_append, List.cons_append, List.append_assoc]
    exact (scanNumbers_hex digits _).trans ih

/-- The scan of a text in front of `rest` finds the numbers of its derivation: they are
numbers of the dialect, and the text has a derivation in every dialect that has them. -/
def Scans (d : Dialect) (text rest : Bytes) (derives : Dialect → Prop) : Prop :=
  ∃ lits, scanNumbers .outside (text ++ rest) = lits ++ scanNumbers .outside rest ∧
    (∀ lit ∈ lits, d.number lit) ∧
    ∀ e : Dialect, (∀ cp, d.lone cp → e.lone cp) → (∀ lit ∈ lits, e.number lit) → derives e

theorem Scans.append {d : Dialect} {first second rest : Bytes} {one two derives : Dialect → Prop}
    (scanned : Scans d first (second ++ rest) one) (scannedNext : Scans d second rest two)
    (both : ∀ e, one e → two e → derives e) : Scans d (first ++ second) rest derives := by
  obtain ⟨lits, scan, numbers, build⟩ := scanned
  obtain ⟨later, scanNext, numbersNext, buildNext⟩ := scannedNext
  refine ⟨lits ++ later, ?_, ?_, ?_⟩
  · rw [List.append_assoc, scan, scanNext, List.append_assoc]
  · intro lit member
    rcases List.mem_append.mp member with inside | inside
    · exact numbers lit inside
    · exact numbersNext lit inside
  · intro e lone valid
    apply both
    · exact build e lone fun lit member => valid lit (List.mem_append_left _ member)
    · exact buildNext e lone fun lit member => valid lit (List.mem_append_right _ member)

theorem Scans.plain {d : Dialect} {text rest : Bytes} {derives : Dialect → Prop}
    (scan : scanNumbers .outside (text ++ rest) = scanNumbers .outside rest)
    (build : ∀ e : Dialect, (∀ cp, d.lone cp → e.lone cp) → derives e) :
    Scans d text rest derives :=
  ⟨[], scan, by simp, fun e lone _ => build e lone⟩

theorem Scans.map {d : Dialect} {text rest : Bytes} {derives other : Dialect → Prop}
    (scanned : Scans d text rest derives) (build : ∀ e, derives e → other e) :
    Scans d text rest other := by
  obtain ⟨lits, scan, numbers, built⟩ := scanned
  exact ⟨lits, scan, numbers, fun e lone valid => build e (built e lone valid)⟩

theorem Scans.skipFirst {d : Dialect} {first text rest : Bytes} {derives : Dialect → Prop}
    (scan : scanNumbers .outside (first ++ (text ++ rest)) = scanNumbers .outside (text ++ rest))
    (scanned : Scans d text rest derives) : Scans d (first ++ text) rest derives := by
  have plain : Scans d first (text ++ rest) fun _ => True := .plain scan fun _ _ => trivial
  exact plain.append scanned fun _ _ derived => derived

theorem Scans.skipLast {d : Dialect} {text last rest : Bytes} {derives : Dialect → Prop}
    (scanned : Scans d text (last ++ rest) derives)
    (scan : scanNumbers .outside (last ++ rest) = scanNumbers .outside rest) :
    Scans d (text ++ last) rest derives := by
  have plain : Scans d last rest fun _ => True := .plain scan fun _ _ => trivial
  exact scanned.append plain fun _ derived _ => derived

/-- Every number of the dialect is accepted. -/
abbrev Dialect.Scanned (d : Dialect) : Prop :=
  ∀ lit, d.number lit → IsScanned lit

mutual

theorem IsValue.scans {d : Dialect} (scanned : d.Scanned) :
    ∀ {text : Bytes} {v : Value}, IsValue d text v →
    ∀ rest, Delimited rest → Scans d text rest fun e => IsValue e text v
  | _, _, .null, rest, _ => .plain rfl fun _ _ => .null
  | _, _, .bool true, rest, _ => .plain rfl fun _ _ => .bool true
  | _, _, .bool false, rest, _ => .plain rfl fun _ _ => .bool false
  | lit, _, .number valid, rest, delimited =>
    ⟨[lit], scanNumbers_number (scanned lit valid) delimited, by simpa using valid,
      fun _ _ numbers => .number (numbers lit (by simp))⟩
  | _, _, @IsValue.string _ body s chars, rest, _ => by
    refine .plain ?_ fun e lone => .string (chars.widen lone)
    have shape : 34 :: (body ++ [34]) ++ rest = 34 :: (body ++ 34 :: rest) := by simp
    rw [shape]
    exact scanNumbers_chars chars rest
  | _, _, @IsValue.emptyArray _ blank white, rest, _ => by
    refine .plain ?_ fun _ _ => .emptyArray white
    have shape : 91 :: (blank ++ [93]) ++ rest = 91 :: (blank ++ 93 :: rest) := by simp
    rw [shape]
    exact scanNumbers_blank white (93 :: rest)
  | _, _, @IsValue.array _ body a elements, rest, _ => by
    have inside := IsElements.scans scanned elements ([93] ++ rest)
      (closes_cons (.inr (.inl rfl)) rest)
    have whole : Scans d ([91] ++ (body ++ [93])) rest fun e => IsElements e body a :=
      (inside.skipLast rfl).skipFirst rfl
    exact whole.map fun _ => .array
  | _, _, @IsValue.emptyObject _ blank white, rest, _ => by
    refine .plain ?_ fun _ _ => .emptyObject white
    have shape : 123 :: (blank ++ [125]) ++ rest = 123 :: (blank ++ 125 :: rest) := by simp
    rw [shape]
    exact scanNumbers_blank white (125 :: rest)
  | _, _, @IsValue.object _ body o members, rest, _ => by
    have inside := IsMembers.scans scanned members ([125] ++ rest)
      (closes_cons (.inr (.inr rfl)) rest)
    have whole : Scans d ([123] ++ (body ++ [125])) rest fun e => IsMembers e body o :=
      (inside.skipLast rfl).skipFirst rfl
    exact whole.map fun _ => .object

theorem IsPadded.scans {d : Dialect} (scanned : d.Scanned) :
    ∀ {text : Bytes} {v : Value}, IsPadded d text v →
    ∀ rest, Closes rest → Scans d text rest fun e => IsPadded e text v
  | _, _, @IsPadded.pad _ before text after v white value whiteAfter, rest, closes => by
    have inside := IsValue.scans scanned value (after ++ rest) (closes.delimited whiteAfter)
    have padded : Scans d (before ++ (text ++ after)) rest fun e => IsValue e text v :=
      (inside.skipLast (scanNumbers_blank whiteAfter rest)).skipFirst (scanNumbers_blank white _)
    exact padded.map fun _ derived => .pad white derived whiteAfter

theorem IsElements.scans {d : Dialect} (scanned : d.Scanned) :
    ∀ {body : Bytes} {a : List Value}, IsElements d body a →
    ∀ rest, Closes rest → Scans d body rest fun e => IsElements e body a
  | _, _, .last element, rest, closes =>
    (IsPadded.scans scanned element rest closes).map fun _ => .last
  | _, _, @IsElements.more _ text later v a element more, rest, closes => by
    have first := IsPadded.scans scanned element ([44] ++ later ++ rest) (closes_cons (.inl rfl) _)
    have others := IsElements.scans scanned more rest closes
    exact first.append (others.skipFirst rfl) fun _ => .more

theorem IsMember.scans {d : Dialect} (scanned : d.Scanned) :
    ∀ {text : Bytes} {m : Bytes × Value}, IsMember d text m →
    ∀ rest, Closes rest → Scans d text rest fun e => IsMember e text m
  | _, _, @IsMember.member _ before body key after text v white chars whiteAfter value, rest,
      closes => by
    have quoted : Scans d (34 :: (body ++ [34])) ((after ++ ([58] ++ text)) ++ rest)
        fun e => IsChars e body key := by
      refine .plain ?_ fun e lone => chars.widen lone
      have shape : 34 :: (body ++ [34]) ++ ((after ++ ([58] ++ text)) ++ rest) =
          34 :: (body ++ 34 :: ((after ++ ([58] ++ text)) ++ rest)) := by simp
      rw [shape]
      exact scanNumbers_chars chars _
    have last : Scans d ([58] ++ text) rest fun e => IsPadded e text v :=
      (IsPadded.scans scanned value rest closes).skipFirst rfl
    have tail := last.skipFirst (scanNumbers_blank whiteAfter _)
    have keyed := quoted.append tail fun _ derivedKey derived => And.intro derivedKey derived
    have shape : before ++ (34 :: (body ++ 34 :: (after ++ 58 :: text))) =
        before ++ (34 :: (body ++ [34]) ++ (after ++ ([58] ++ text))) := by simp
    rw [shape]
    exact (keyed.skipFirst (scanNumbers_blank white _)).map fun _ derived => by
      rw [← shape]
      exact .member white derived.1 whiteAfter derived.2

theorem IsMembers.scans {d : Dialect} (scanned : d.Scanned) :
    ∀ {body : Bytes} {o : List (Bytes × Value)}, IsMembers d body o →
    ∀ rest, Closes rest → Scans d body rest fun e => IsMembers e body o
  | _, _, .last member, rest, closes =>
    (IsMember.scans scanned member rest closes).map fun _ => .last
  | _, _, @IsMembers.more _ text later m o member more, rest, closes => by
    have first := IsMember.scans scanned member ([44] ++ later ++ rest) (closes_cons (.inl rfl) _)
    have others := IsMembers.scans scanned more rest closes
    exact first.append (others.skipFirst rfl) fun _ => .more

end

/-- The numbers of a text with a derivation are numbers of the dialect, and it has a
derivation wherever they are numbers. -/
theorem IsText.scans {d : Dialect} (scanned : d.Scanned) {text : Bytes} {v : Value}
    (derived : IsText d text v) :
    (∀ lit ∈ numberLiterals text, d.number lit) ∧
      ∀ e : Dialect, (∀ cp, d.lone cp → e.lone cp) → (∀ lit ∈ numberLiterals text, e.number lit) →
        IsText e text v := by
  obtain ⟨lits, scan, numbers, build⟩ := IsPadded.scans scanned derived [] (by simp [Closes])
  have found : numberLiterals text = lits := by
    rw [List.append_nil] at scan
    exact scan.trans (List.append_nil lits)
  rw [found]
  exact ⟨numbers, build⟩

/-- A text that is accepted is a text of RFC 8259 exactly when all its number literals are
numbers of RFC 8259. -/
theorem parse_sound_iff {text : Bytes} {v : Value} (parsed : parse text = .ok v) :
    (∃ u, IsText rfc8259 text u) ↔ ∀ lit ∈ numberLiterals text, IsNumber lit := by
  constructor
  · rintro ⟨u, derived⟩
    exact (derived.scans fun _ => IsNumber.scanned).1
  · intro numbers
    have derived := (isText_of_parse parsed).scans fun _ scanned => scanned
    exact ⟨v, derived.2 rfc8259 (fun _ _ => trivial) numbers⟩

theorem parse_sound_iff_number :
    (∃ u, IsText rfc8259 (ascii "-0.5") u) ↔
      ∀ lit ∈ numberLiterals (ascii "-0.5"), IsNumber lit := by
  have scanned : IsScanned (ascii "-0.5") :=
    ⟨[45], [48], [46, 53], [], rfl, .inr rfl, by simp [AllDigits, isdigit],
      .inr ⟨[53], rfl, by simp [AllDigits, isdigit]⟩, .inl rfl, by decide⟩
  exact parse_sound_iff (parse_of_isText (IsValue.isText (.number scanned)))

theorem not_isNumber_leadingZero {c : UInt8} {rest : Bytes} (digit : isdigit c = true) :
    ¬ IsNumber (48 :: c :: rest) := by
  rintro ⟨minus, int, frac, exp, shape, sign, whole, fraction, exponent⟩
  rcases sign with rfl | rfl
  · rcases whole with rfl | ⟨first, later, rfl, _, nonzero, _⟩
    · have behind : c :: rest = frac ++ exp := by simpa using shape
      rcases fraction with rfl | ⟨ds, rfl, _⟩
      · rcases exponent with rfl | ⟨mark, sign, ds, rfl, letter, _⟩
        · cases behind
        · cases behind
          rcases letter with rfl | rfl
          all_goals cases digit
      · cases behind
        cases digit
    · exact nonzero (List.cons.inj shape).1.symm
  · cases (List.cons.inj shape).1

theorem parse_accepts_leadingZero :
    parse (ascii "01") = .ok (.number (strtod (ascii "01"))) ∧
      ¬ ∃ u, IsText rfc8259 (ascii "01") u := by
  have scanned : IsScanned (ascii "01") :=
    ⟨[], [48, 49], [], [], rfl, .inl ⟨rfl, by decide⟩, by simp [AllDigits, isdigit], .inl rfl,
      .inl rfl, by decide⟩
  refine ⟨parse_of_isText (IsValue.isText (.number scanned)), ?_⟩
  rintro ⟨u, derived⟩
  have numbers := (derived.scans fun _ => IsNumber.scanned).1
  exact not_isNumber_leadingZero rfl (numbers (ascii "01") (by decide))

end ShadowSe.Json

import ShadowSe.Text.Integers
import ShadowSe.Tor.ProxyPool

namespace ShadowSe

def endpointKey (ep : TorEndpoint) : Bytes :=
  ep.host ++ ascii ":" ++ decimal ep.port.toNat

/-- The characters that are trimmed. -/
def isPadding (c : UInt8) : Bool :=
  List.contains (ascii " \t\r\n") c

/-- From the first to the last character that is not trimmed. -/
def trimPiece (s : Bytes) : Bytes :=
  ((s.dropWhile isPadding).reverse.dropWhile isPadding).reverse

/-- The endpoint of a host and a port, at the local host when the host is empty. -/
def endpointAt (host : Bytes) (port : Nat) : TorEndpoint :=
  { host := if host.isEmpty then ascii "127.0.0.1" else host, port := UInt16.ofNat port }

/-- The endpoint of one trimmed piece; none for what is skipped. -/
def parsePiece (piece : Bytes) : Option TorEndpoint :=
  if piece.isEmpty then none
  else
    match piece.rfind 58 with
    | none => none
    | some colon =>
      match stol (piece.substr (colon + 1) none) with
      | none => none
      | some p =>
        if p < 1 ∨ p > 65535 then none
        else some (endpointAt (piece.substr 0 (some colon)) p.toNat)

/-- The loop over the pieces of one spec, from the position `start`. -/
def pieceLoop (spec : Bytes) : Nat → Nat → List TorEndpoint → List TorEndpoint
  | 0, _, out => out
  | fuel + 1, start, out =>
    let comma := spec.findFirstOf (ascii ",") start
    let piece := trimPiece (spec.substr start (comma.map (· - start)))
    let out := out ++ (parsePiece piece).toList
    match comma with
    | none => out
    | some comma => pieceLoop spec fuel (comma + 1) out

def parseProxyList (specs : List Bytes) : List TorEndpoint :=
  specs.foldl (fun out spec => pieceLoop spec (spec.length + 1) 0 out) []

/-- The pieces between the commas. -/
def proxyPieces (specs : List Bytes) : List Bytes :=
  specs.flatMap fun spec => (spec.splitOn 44).map trimPiece

/-- A port in decimal digits. -/
structure IsPort (port : Bytes) : Prop where
  nonempty : port ≠ []
  digits : ∀ c ∈ port, isdigit c = true
  least : 1 ≤ decimalValue port
  greatest : decimalValue port ≤ 65535

instance (port : Bytes) : Decidable (IsPort port) :=
  decidable_of_iff (port ≠ [] ∧ (∀ c ∈ port, isdigit c = true) ∧ 1 ≤ decimalValue port ∧
      decimalValue port ≤ 65535)
    ⟨fun h => ⟨h.1, h.2.1, h.2.2.1, h.2.2.2⟩, fun h => ⟨h.1, h.2, h.3, h.4⟩⟩

/-- The endpoint that a piece of the format `host:port` stands for. -/
def listedPiece (piece : Bytes) : Option TorEndpoint :=
  match piece.rfind 58 with
  | none => none
  | some colon =>
    let port := piece.drop (colon + 1)
    if IsPort port then some (endpointAt (piece.take colon) (decimalValue port)) else none

def listedProxies (specs : List Bytes) : List TorEndpoint :=
  (proxyPieces specs).filterMap listedPiece

/-- A port that is read as a number in range, though it is not a string of digits. -/
def LenientPort (port : Bytes) : Prop :=
  ∃ blank sign digits rest, IntegerText port blank sign digits rest ∧ sign ≠ [45] ∧
    1 ≤ decimalValue digits ∧ decimalValue digits ≤ 65535 ∧ (blank ≠ [] ∨ sign ≠ [] ∨ rest ≠ [])

/-- What follows the last colon of the piece is such a port. -/
def LenientPiece (piece : Bytes) : Prop :=
  ∃ host port, piece = host ++ 58 :: port ∧ 58 ∉ port ∧ LenientPort port

theorem pieceLoop_eq (spec : Bytes) (fuel start : Nat) (out : List TorEndpoint)
    (enough : spec.length < start + fuel) : pieceLoop spec fuel start out =
      out ++ (((spec.drop start).splitOn 44).map trimPiece).filterMap parsePiece := by
  have toList (piece : Bytes) : (parsePiece piece).toList = [piece].filterMap parsePiece := by
    cases parsed : parsePiece piece <;> simp [parsed]
  induction fuel generalizing start out with
  | zero =>
    have beyond : spec.drop start = [] := List.drop_eq_nil_iff.mpr (Nat.le_of_lt enough)
    rw [pieceLoop, beyond, List.splitOn_nil, List.map_singleton, ← toList]
    exact (List.append_nil out).symm
  | succ fuel ih =>
    rw [pieceLoop]
    rcases Bytes.findFirstOf_single spec 44 start with ⟨absent, none⟩ |
      ⟨before, rest, split, absent, found⟩
    · simp only [show ascii "," = [44] from rfl, none, Option.map_none, Bytes.substr, toList]
      rw [List.splitOn_eq_singleton absent, List.map_singleton]
    · have next : spec.drop (start + before.length + 1) = rest := by
        rw [Nat.add_assoc, ← List.drop_drop, split]
        simp
      have inside := congrArg List.length split
      simp only [List.length_drop, List.length_append, List.length_cons] at inside
      simp only [show ascii "," = [44] from rfl, found, Option.map_some, Bytes.substr,
        Nat.add_sub_cancel_left]
      rw [ih _ _ (by omega), next, split, List.take_left,
        List.splitOn_append_cons_self_of_not_mem absent, List.map_cons, List.filterMap_cons]
      cases parsePiece (trimPiece before) <;> simp

/-- The endpoints are those of the pieces, in order. -/
theorem parseProxyList_eq (specs : List Bytes) :
    parseProxyList specs = (proxyPieces specs).filterMap parsePiece := by
  have folded (out : List TorEndpoint) :
      specs.foldl (fun out spec => pieceLoop spec (spec.length + 1) 0 out) out =
        out ++ (proxyPieces specs).filterMap parsePiece := by
    induction specs generalizing out with
    | nil => simp [proxyPieces]
    | cons spec specs ih =>
      rw [List.foldl_cons, ih, pieceLoop_eq _ _ _ _ (by omega), proxyPieces, proxyPieces,
        List.flatMap_cons, List.filterMap_append, List.drop_zero, List.append_assoc]
  exact folded []

theorem parsePiece_of_not_mem {piece : Bytes} (absent : 58 ∉ piece) : parsePiece piece = none := by
  rw [parsePiece, Bytes.rfind_eq_none absent]
  split <;> rfl

theorem parsePiece_append {port : Bytes} (absent : 58 ∉ port) (host : Bytes) :
    parsePiece (host ++ 58 :: port) = (stol port).bind fun p =>
      if p < 1 ∨ p > 65535 then none else some (endpointAt host p.toNat) := by
  have behind : (host ++ 58 :: port).substr (host.length + 1) none = port := by
    simp [Bytes.substr]
  have before : (host ++ 58 :: port).substr 0 (some host.length) = host := by
    simp [Bytes.substr]
  simp only [parsePiece, Bytes.rfind_append_cons absent, behind, before]
  rw [if_neg (by simp)]
  cases stol port <;> rfl

theorem listedPiece_of_not_mem {piece : Bytes} (absent : 58 ∉ piece) :
    listedPiece piece = none := by
  rw [listedPiece, Bytes.rfind_eq_none absent]

theorem listedPiece_append {port : Bytes} (absent : 58 ∉ port) (host : Bytes) :
    listedPiece (host ++ 58 :: port) =
      if IsPort port then some (endpointAt host (decimalValue port)) else none := by
  have behind : (host ++ 58 :: port).drop (host.length + 1) = port := by simp
  simp only [listedPiece, Bytes.rfind_append_cons absent, behind, List.take_left]

/-- The text behind the last colon is the same however the piece is split there. -/
theorem lenientPiece_append {port : Bytes} (absent : 58 ∉ port) (host : Bytes) :
    LenientPiece (host ++ 58 :: port) ↔ LenientPort port := by
  constructor
  · rintro ⟨host', port', split, absent', lenient⟩
    have last := Bytes.rfind_append_cons absent host
    rw [split, Bytes.rfind_append_cons absent'] at last
    have same := (List.append_inj split (Option.some.inj last).symm).2
    rwa [(List.cons.inj same).2]
  · exact fun lenient => ⟨host, port, rfl, absent, lenient⟩

theorem IsPort.integerText {port : Bytes} (isPort : IsPort port) :
    IntegerText port [] [] port [] :=
  ⟨by simp, by simp, .inl rfl, isPort.nonempty, isPort.digits, by simp⟩

theorem IsPort.stol {port : Bytes} (isPort : IsPort port) :
    stol port = some (decimalValue port : Int) := by
  have greatest := isPort.greatest
  exact stol_eq_some_iff.mpr ⟨[], [], port, [], isPort.integerText, rfl, by omega, by omega⟩

theorem IsPort.not_lenient {port : Bytes} (isPort : IsPort port) : ¬ LenientPort port := by
  rintro ⟨blank, sign, digits, rest, text, plus, _, _, extra⟩
  have shape := text.shape
  rcases extra with padded | signed | followed
  · obtain ⟨c, more, rfl⟩ := List.exists_cons_of_ne_nil padded
    have digit := (digit_ne c (isPort.digits c (by simp [shape]))).1
    exact absurd (text.blank c List.mem_cons_self) (by simp [digit])
  · rcases text.sign with rfl | rfl | rfl
    · exact signed rfl
    · exact (digit_ne 43 (isPort.digits 43 (by simp [shape]))).2.2 rfl
    · exact plus rfl
  · obtain ⟨c, more, rfl⟩ := List.exists_cons_of_ne_nil followed
    have other := text.rest c rfl
    rw [isPort.digits c (by simp [shape])] at other
    cases other

theorem LenientPort.stol {port : Bytes} (lenient : LenientPort port) :
    ∃ p, stol port = some p ∧ 1 ≤ p ∧ p ≤ 65535 := by
  obtain ⟨blank, sign, digits, rest, text, plus, least, greatest, -⟩ := lenient
  refine ⟨decimalValue digits, stol_eq_some_iff.mpr ⟨blank, sign, digits, rest, text, ?_, ?_, ?_⟩,
    ?_, ?_⟩
  · rw [if_neg plus]
  all_goals omega

/-- What is read as a number in range is a port or a lenient one. -/
theorem port_of_stol {port : Bytes} {p : Int} (read : stol port = some p) (least : 1 ≤ p)
    (greatest : p ≤ 65535) : IsPort port ∧ p = decimalValue port ∨ LenientPort port := by
  obtain ⟨blank, sign, digits, rest, text, value, -⟩ := stol_eq_some_iff.mp read
  have plus : sign ≠ [45] := by
    intro minus
    rw [if_pos minus] at value
    omega
  rw [if_neg plus] at value
  by_cases plain : blank = [] ∧ sign = [] ∧ rest = []
  · obtain ⟨rfl, rfl, rfl⟩ := plain
    have shape : port = digits := by simpa using text.shape
    subst shape
    exact .inl ⟨⟨text.nonempty, text.digits, by omega, by omega⟩, value⟩
  · refine .inr ⟨blank, sign, digits, rest, text, plus, by omega, by omega, ?_⟩
    by_contra none
    simp only [not_or, ne_eq, not_not] at none
    exact plain none

/-- A lenient piece is taken where it should be skipped; every other piece is treated right. -/
theorem parsePiece_cases (piece : Bytes) :
    ¬ LenientPiece piece ∧ parsePiece piece = listedPiece piece ∨
      LenientPiece piece ∧ (parsePiece piece).isSome ∧ listedPiece piece = none := by
  by_cases member : 58 ∈ piece
  · obtain ⟨host, port, rfl, absent, -⟩ := Bytes.exists_rfind member
    rw [lenientPiece_append absent, parsePiece_append absent, listedPiece_append absent]
    by_cases lenient : LenientPort port
    · obtain ⟨p, read, least, greatest⟩ := lenient.stol
      refine .inr ⟨lenient, ?_, if_neg fun isPort => isPort.not_lenient lenient⟩
      rw [read, Option.bind_some, if_neg (by omega)]
      rfl
    · refine .inl ⟨lenient, ?_⟩
      by_cases isPort : IsPort port
      · have least := isPort.least
        have greatest := isPort.greatest
        rw [isPort.stol, Option.bind_some, if_neg (by omega), if_pos isPort]
        rfl
      · rw [if_neg isPort]
        cases read : ShadowSe.stol port with
        | none => rfl
        | some p =>
          rw [Option.bind_some, if_pos]
          by_contra inRange
          rcases port_of_stol read (by omega) (by omega) with ⟨found, -⟩ | found
          · exact isPort found
          · exact lenient found
  · refine .inl ⟨?_, ?_⟩
    · rintro ⟨host, port, rfl, -⟩
      simp at member
    · rw [parsePiece_of_not_mem member, listedPiece_of_not_mem member]

section FilterMap

variable {α β : Type} {f g : α → Option β}

private theorem length_filterMap_le {items : List α}
    (only : ∀ a ∈ items, f a = g a ∨ (f a).isSome ∧ g a = none) :
    (items.filterMap g).length ≤ (items.filterMap f).length := by
  induction items with
  | nil => exact Nat.le_refl _
  | cons a items ih =>
    rw [List.forall_mem_cons] at only
    have later := ih only.2
    rw [List.filterMap_cons, List.filterMap_cons]
    rcases only.1 with same | ⟨found, none⟩
    · rw [same]
      cases g a with
      | none => exact later
      | some b => exact Nat.succ_le_succ later
    · obtain ⟨b, found⟩ := Option.isSome_iff_exists.mp found
      rw [found, none]
      exact Nat.le_succ_of_le later

/-- A filter that lets more items through gives another list as soon as it does so once. -/
private theorem filterMap_eq_iff {items : List α}
    (only : ∀ a ∈ items, f a = g a ∨ (f a).isSome ∧ g a = none) :
    items.filterMap f = items.filterMap g ↔ ∀ a ∈ items, f a = g a := by
  induction items with
  | nil => simp
  | cons a items ih =>
    rw [List.forall_mem_cons] at only ⊢
    rw [List.filterMap_cons, List.filterMap_cons]
    rcases only.1 with same | ⟨found, none⟩
    · rw [same, ← ih only.2]
      cases g a with
      | none => simp
      | some b => simp
    · obtain ⟨b, found⟩ := Option.isSome_iff_exists.mp found
      rw [found, none]
      refine iff_of_false (fun same => ?_) (by simp)
      have lengths := congrArg List.length same
      have fewer := length_filterMap_le only.2
      simp only [List.length_cons] at lengths
      omega

end FilterMap

/-- The endpoints are those of the pieces in the format exactly when no piece has a port that
is read though it is not a string of digits. -/
theorem parseProxyList_eq_listed_iff (specs : List Bytes) :
    parseProxyList specs = listedProxies specs ↔
      ∀ piece ∈ proxyPieces specs, ¬ LenientPiece piece := by
  have only (piece : Bytes) (_ : piece ∈ proxyPieces specs) :
      parsePiece piece = listedPiece piece ∨
        (parsePiece piece).isSome ∧ listedPiece piece = none :=
    (parsePiece_cases piece).imp And.right And.right
  rw [parseProxyList_eq, listedProxies, filterMap_eq_iff only]
  refine forall₂_congr fun piece _ => ?_
  rcases parsePiece_cases piece with ⟨strict, same⟩ | ⟨lenient, found, none⟩
  · exact iff_of_true same strict
  · refine iff_of_false (fun same => ?_) (not_not.mpr lenient)
    rw [same, none] at found
    cases found

/-- A port with letters behind it is taken for the number in front of them. -/
theorem parseProxyList_lenient : ¬ ∀ specs, parseProxyList specs = listedProxies specs := by
  intro same
  have read : parseProxyList [ascii "h:9050abc"] = [{ host := ascii "h", port := 9050 }] := by
    decide
  have listed : listedProxies [ascii "h:9050abc"] = [] := by decide
  have equal := same [ascii "h:9050abc"]
  rw [read, listed] at equal
  cases equal

end ShadowSe

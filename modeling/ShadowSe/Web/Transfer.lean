import ShadowSe.Web.AdminServer
import ShadowSe.Web.WebServer

/-! Requests and responses as the network carries them: a request arrives cut into pieces at
any places, and `send` takes any part of what it is given, or fails. -/

namespace ShadowSe

namespace Http

/-- The end of a head. -/
def emptyLine : Bytes :=
  ascii "\r\n\r\n"

private theorem ascii_emptyLine : ascii "\r\n\r\n" = emptyLine :=
  rfl

/-- The bytes that arrive before the stream ends or fails. -/
def arrived (chunks : List Bytes) : Bytes :=
  (chunks.takeWhile (!·.isEmpty)).flatten

theorem arrived_cons {chunk : Bytes} (nonempty : chunk.isEmpty = false) (chunks : List Bytes) :
    arrived (chunk :: chunks) = chunk ++ arrived chunks := by
  simp [arrived, nonempty]

theorem arrived_empty {chunk : Bytes} (empty : chunk.isEmpty = true) (chunks : List Bytes) :
    arrived (chunk :: chunks) = [] := by
  simp [arrived, empty]

private theorem find_take {s : Bytes} {i : Nat} (found : s.find emptyLine 0 = some i)
    {buf rest : Bytes} (shape : s = buf ++ rest) (covers : i + 4 ≤ buf.length) :
    buf.find emptyLine 0 = some i := by
  have early := Bytes.find_take_append found (buf.drop (i + 4))
  have start : s.take (i + emptyLine.length) = buf.take (i + 4) := by
    rw [shape]
    exact List.take_append_of_le_length covers
  rwa [start, List.take_append_drop] at early

/-- The loop finds the first empty line of what has arrived, when that lies early enough,
wherever the pieces begin and end. -/
private theorem receive_early (limit : Nat) {i : Nat} (early : i + 4 ≤ limit) (chunks : List Bytes)
    (buf : Bytes) (open_ : buf.find emptyLine 0 = none)
    (found : (buf ++ arrived chunks).find emptyLine 0 = some i) :
    receive limit buf chunks = some ((buf ++ arrived chunks).take i) := by
  induction chunks generalizing buf with
  | nil => simp [arrived, open_] at found
  | cons chunk chunks ih =>
    have room : buf.length < limit := by
      by_contra full
      rw [find_take found rfl (by omega)] at open_
      cases open_
    rw [receive, if_pos room]
    cases empty : chunk.isEmpty with
    | true =>
      rw [arrived_empty empty, List.append_nil, open_] at found
      cases found
    | false =>
      rw [arrived_cons empty, ← List.append_assoc] at found ⊢
      simp only [Bool.false_eq_true, ↓reduceIte, ascii_emptyLine]
      cases here : (buf ++ chunk).find emptyLine 0 with
      | none => exact ih (buf ++ chunk) here found
      | some headEnd =>
        cases (Bytes.find_append here (arrived chunks)).symm.trans found
        have fits : i ≤ (buf ++ chunk).length := (Nat.le_add_right i _).trans
          (Bytes.length_of_find here).1
        exact congrArg some (List.take_append_of_le_length fits).symm

/-- What the loop returns is what came before the first empty line, which ends no further
behind the limit than a piece is long. -/
private theorem receive_late (limit size : Nat) (chunks : List Bytes)
    (small : ∀ chunk ∈ chunks, chunk.length ≤ size) (buf head : Bytes)
    (open_ : buf.find emptyLine 0 = none) (received : receive limit buf chunks = some head) :
    (buf ++ arrived chunks).find emptyLine 0 = some head.length ∧
      head = (buf ++ arrived chunks).take head.length ∧ head.length + 4 < limit + size := by
  induction chunks generalizing buf with
  | nil => simp [receive] at received
  | cons chunk chunks ih =>
    rw [receive] at received
    split at received
    · rename_i room
      cases empty : chunk.isEmpty with
      | true => simp [empty] at received
      | false =>
        rw [arrived_cons empty, ← List.append_assoc]
        simp only [empty, Bool.false_eq_true, ↓reduceIte, ascii_emptyLine] at received
        cases here : (buf ++ chunk).find emptyLine 0 with
        | none =>
          rw [here] at received
          exact ih (fun other member => small other (List.mem_cons_of_mem _ member)) _ here
            received
        | some headEnd =>
          rw [here] at received
          have fits := (Bytes.length_of_find here).1
          have length := small chunk List.mem_cons_self
          have four : emptyLine.length = 4 := rfl
          rw [List.length_append] at fits
          cases Option.some.inj received
          have whole : ((buf ++ chunk).substr 0 (some headEnd)).length = headEnd := by
            simp only [Bytes.substr, List.drop_zero, List.length_take, List.length_append]
            omega
          rw [whole]
          refine ⟨Bytes.find_append here _, ?_, by omega⟩
          simp only [Bytes.substr, List.drop_zero]
          exact (List.take_append_of_le_length (by rw [List.length_append]; omega)).symm
    · cases received

/-- How the network cuts a request is not seen by the loop, unless its head ends within one
piece behind the limit. -/
theorem receive_arrived {limit size : Nat} {chunks others : List Bytes}
    (small : ∀ chunk ∈ chunks ++ others, chunk.length ≤ size)
    (same : arrived chunks = arrived others)
    (clear : ∀ i, (arrived chunks).find emptyLine 0 = some i →
      i + 4 ≤ limit ∨ limit + size ≤ i + 4) :
    receive limit [] chunks = receive limit [] others := by
  have none (pieces : List Bytes) (small : ∀ chunk ∈ pieces, chunk.length ≤ size)
      (outside : ∀ i, (arrived pieces).find emptyLine 0 = some i → limit + size ≤ i + 4) :
      receive limit [] pieces = none := by
    refine Option.eq_none_iff_forall_not_mem.mpr fun head received => ?_
    obtain ⟨found, _, near⟩ := receive_late limit size pieces small [] head rfl received
    have far := outside _ found
    omega
  have left := none chunks fun chunk member => small chunk (List.mem_append_left _ member)
  have right := none others fun chunk member => small chunk (List.mem_append_right _ member)
  cases found : (arrived chunks).find emptyLine 0 with
  | none =>
    rw [left (by simp [found]), right (by simp [← same, found])]
  | some i =>
    rcases clear i found with early | late
    · rw [receive_early limit early chunks [] rfl found,
        receive_early limit early others [] rfl (same ▸ found), List.nil_append, List.nil_append,
        same]
    · rw [left, right]
      · simpa [← same, found] using late
      · simpa [found] using late

/-- The sending loop: each call of `send` takes so many of the remaining bytes, or fails
with 0, which ends the loop; with no more outcomes the peer is gone. What the peer gets, and
the outcomes that are left. -/
def sendLoop : List Nat → Bytes → Bytes × List Nat
  | [], _ => ([], [])
  | taken :: outcomes, data =>
    if data.isEmpty then ([], taken :: outcomes)
    else if taken = 0 then ([], outcomes)
    else
      let (more, left) := sendLoop outcomes (data.drop taken)
      (data.take taken ++ more, left)

/-- A head up to the length of the body, with a block of fixed header lines. -/
def headStart (headers : Bytes) (status : Nat) (statusText : Bytes) : Bytes :=
  ascii "HTTP/1.1 " ++ decimal status ++ ascii " " ++ statusText ++ ascii "\r\n" ++
  ascii "Content-Type: text/html; charset=utf-8\r\n" ++ headers ++
  ascii "Content-Length: "

/-- The lines behind the length, with the empty one. -/
def headEnd : Bytes :=
  ascii "\r\n" ++
  ascii "Connection: close\r\n" ++
  ascii "\r\n"

def responseHead (headers : Bytes) (status : Nat) (statusText : Bytes) (size : Nat) : Bytes :=
  headStart headers status statusText ++ decimal size ++ headEnd

/-- The head, then the body, whatever became of the head. -/
def send (headers : Bytes) (outcomes : List Nat) (status : Nat) (statusText body : Bytes) :
    Bytes × Bytes :=
  let (head, left) := sendLoop outcomes (responseHead headers status statusText body.length)
  (head, (sendLoop left body).1)

theorem sendLoop_prefix (outcomes : List Nat) (data : Bytes) :
    (sendLoop outcomes data).1 <+: data := by
  induction outcomes generalizing data with
  | nil => simp [sendLoop]
  | cons taken outcomes ih =>
    rw [sendLoop]
    split
    · simp
    · split
      · simp
      · have rest := (List.prefix_append_right_inj (data.take taken)).mpr (ih (data.drop taken))
        rwa [List.take_append_drop] at rest

/-- What a client makes of the bytes of a closed connection: the head up to the first empty
line, and behind it as many bytes as the head announces. -/
def readResponse (stream : Bytes) : Option (Bytes × Bytes) :=
  match stream.find emptyLine 0 with
  | none => none
  | some ends =>
    let head := stream.take ends
    let body := stream.drop (ends + 4)
    match Bytes.find head (ascii "\r\nContent-Length: ") 0 with
    | none => none
    | some field =>
      if decimalValue ((head.drop (field + 18)).takeWhile isdigit) = body.length then
        some (head, body)
      else none

/-- The start of a head has no empty line, one field for the length, at its end, and no
markup. -/
structure Framing (start : Bytes) : Prop where
  blank : start.getLast? = some 32
  open_ : start.find emptyLine 0 = none
  field : start.find (ascii "\r\nContent-Length: ") 0 = some (start.length - 18)
  plain : 60 ∉ start

instance (start : Bytes) : Decidable (Framing start) :=
  decidable_of_iff (start.getLast? = some 32 ∧ start.find emptyLine 0 = none ∧
      start.find (ascii "\r\nContent-Length: ") 0 = some (start.length - 18) ∧ 60 ∉ start)
    ⟨fun ⟨blank, open_, field, plain⟩ => ⟨blank, open_, field, plain⟩,
      fun ⟨blank, open_, field, plain⟩ => ⟨blank, open_, field, plain⟩⟩

/-- What does not hold the first byte of a text does not hide its first occurrence. -/
private theorem find_skip {needle w : Bytes} {first : UInt8} (starts : needle.head? = some first)
    (absent : first ∉ w) (s : Bytes) :
    Bytes.find (w ++ s) needle 0 = (Bytes.find s needle 0).map (w.length + ·) := by
  obtain ⟨more, rfl⟩ := List.head?_eq_some_iff.mp starts
  induction w with
  | nil => simp
  | cons c rest ih =>
    have differs : first ≠ c := fun same => absent (same ▸ List.mem_cons_self)
    have here : (first :: more).isPrefixOf (c :: (rest ++ s)) = false := by
      simp [List.isPrefixOf, differs]
    have step : Bytes.find (c :: (rest ++ s)) (first :: more) 0 =
        (Bytes.find (rest ++ s) (first :: more) 0).map (1 + ·) := by
      simp only [Bytes.find, Nat.zero_le, if_true, List.drop_zero, Bytes.scan, here,
        Bool.false_eq_true, if_false]
      exact Bytes.scan_add _ _ 1 0
    rw [List.cons_append, step, ih fun member => absent (List.mem_cons_of_mem _ member),
      Option.map_map]
    congr 1
    funext i
    simp only [Function.comp_apply, List.length_cons]
    omega

/-- A status line keeps the framing of the lines behind it. -/
theorem Framing.headStart {headers statusText : Bytes} (status : Nat)
    (framing : Framing (ascii "\r\n" ++ ascii "Content-Type: text/html; charset=utf-8\r\n" ++
      headers ++ ascii "Content-Length: "))
    (line : 13 ∉ statusText ∧ 60 ∉ statusText) :
    Framing (Http.headStart headers status statusText) := by
  obtain ⟨blank, open_, field, plain⟩ := framing
  generalize lines : ascii "\r\n" ++ ascii "Content-Type: text/html; charset=utf-8\r\n" ++
    headers ++ ascii "Content-Length: " = rest at blank open_ field plain
  have shape : Http.headStart headers status statusText =
      (ascii "HTTP/1.1 " ++ decimal status ++ ascii " " ++ statusText) ++ rest := by
    simp [Http.headStart, ← lines]
  have digits {c : UInt8} (other : isdigit c = false) : c ∉ decimal status := by
    intro member
    simp [decimal_digits status c member] at other
  have noReturn : 13 ∉ ascii "HTTP/1.1 " ++ decimal status ++ ascii " " ++ statusText := by
    simp [ascii, digits (c := 13) rfl, line.1]
  have noMarkup : 60 ∉ ascii "HTTP/1.1 " ++ decimal status ++ ascii " " ++ statusText := by
    simp [ascii, digits (c := 60) rfl, line.2]
  generalize ascii "HTTP/1.1 " ++ decimal status ++ ascii " " ++ statusText = first at *
  have fits := (Bytes.length_of_find field).1
  have eighteen : (ascii "\r\nContent-Length: ").length = 18 := rfl
  rw [shape]
  constructor
  · rw [List.getLast?_append, blank]
    rfl
  · rw [find_skip rfl noReturn, open_]
    rfl
  · rw [find_skip rfl noReturn, field, Option.map_some, List.length_append,
      Nat.add_sub_assoc (by omega)]
  · simp [noMarkup, plain]

section Framing

variable {start : Bytes} (framing : Framing start)
include framing

/-- The first empty line of a message is the end of its head, whatever the body. -/
theorem find_emptyLine (size : Nat) (body : Bytes) :
    Bytes.find (start ++ decimal size ++ headEnd ++ body) emptyLine 0 =
      some (start.length + (decimal size).length + 19) := by
  obtain ⟨line, rfl⟩ : ∃ line, start = line ++ [32] :=
    List.getLast?_eq_some_iff.mp framing.blank
  have before : Bytes.find line emptyLine 0 = none := by
    refine Option.eq_none_iff_forall_not_mem.mpr fun i found => ?_
    have later := Bytes.find_append found [32]
    rw [framing.open_] at later
    cases later
  have digits : 13 ∉ decimal size := fun member => nomatch decimal_digits size 13 member
  have last : Bytes.find headEnd emptyLine 0 = some 19 := by decide +kernel
  have shape : line ++ [32] ++ decimal size ++ headEnd ++ body =
      line ++ 32 :: (decimal size ++ (headEnd ++ body)) := by simp
  rw [shape, Bytes.find_append_cons (by decide) (by decide), before, Option.none_or,
    find_skip rfl digits, Bytes.find_append last]
  simp
  omega

theorem find_field (size : Nat) (rest : Bytes) :
    Bytes.find (start ++ decimal size ++ rest) (ascii "\r\nContent-Length: ") 0 =
      some (start.length - 18) := by
  rw [List.append_assoc]
  exact Bytes.find_append framing.field _

/-- A client that gets the whole head takes the bytes behind it for the body exactly when
there are as many as announced. -/
theorem readResponse_head (size : Nat) (body : Bytes) :
    readResponse (start ++ decimal size ++ headEnd ++ body) =
      if size = body.length then
        some (start ++ decimal size ++ ascii "\r\nConnection: close", body)
      else none := by
  have fits := (Bytes.length_of_find framing.field).1
  have sixteen : (ascii "\r\nContent-Length: ").length = 18 := rfl
  have ends : headEnd = ascii "\r\nConnection: close" ++ emptyLine := rfl
  have shape : start ++ decimal size ++ headEnd ++ body =
      (start ++ decimal size ++ ascii "\r\nConnection: close") ++ (emptyLine ++ body) := by
    simp [ends]
  have length : start.length + (decimal size).length + 19 =
      (start ++ decimal size ++ ascii "\r\nConnection: close").length := by
    simp [ascii]
    omega
  have digits : ((start ++ decimal size ++ ascii "\r\nConnection: close").drop
      (start.length - 18 + 18)).takeWhile isdigit = decimal size := by
    rw [Nat.sub_add_cancel (by omega), List.append_assoc, List.drop_left,
      List.takeWhile_append_of_pos (decimal_digits size)]
    simp [ascii, isdigit]
  rw [readResponse, find_emptyLine framing, shape, length]
  simp only [List.take_left, find_field framing, digits, decimalValue_decimal]
  have body_eq : List.drop ((start ++ decimal size ++ ascii "\r\nConnection: close").length + 4)
      (start ++ decimal size ++ ascii "\r\nConnection: close" ++ (emptyLine ++ body)) = body := by
    rw [← List.drop_drop, List.drop_left]
    rfl
  rw [body_eq]

/-- A client that gets only a part of the head waits for the empty line in vain. -/
theorem readResponse_short {size : Nat} {part : Bytes}
    (short : part <+: start ++ decimal size ++ headEnd)
    (differs : part ≠ start ++ decimal size ++ headEnd) : readResponse part = none := by
  have none : Bytes.find part emptyLine 0 = none := by
    refine Option.eq_none_iff_forall_not_mem.mpr fun i found => differs ?_
    obtain ⟨rest, whole⟩ := short
    have later := Bytes.find_append found (rest ++ [])
    rw [← List.append_assoc, whole, find_emptyLine framing] at later
    have fits := (Bytes.length_of_find found).1
    have size := congrArg List.length whole
    have four : emptyLine.length = 4 := rfl
    have ends : headEnd.length = 23 := rfl
    simp only [List.length_append] at size
    cases Option.some.inj later
    have empty : rest = [] := List.length_eq_zero_iff.mp (by omega)
    rw [← whole, empty, List.append_nil]
  rw [readResponse, none]

end Framing

/-- A head without its empty line. -/
def headLines (headers : Bytes) (status : Nat) (statusText : Bytes) (size : Nat) : Bytes :=
  headStart headers status statusText ++ decimal size ++ ascii "\r\nConnection: close"

/-- What a client can tell of a response over an unreliable connection: the bytes it gets
begin the message exactly when no byte of the body follows a cut head, and then it takes the
whole message, and nothing less, for a response. -/
theorem send_reliable {headers statusText body part rest : Bytes} {status : Nat}
    (framing : Framing (headStart headers status statusText)) (markup : body.head? = some 60)
    {outcomes : List Nat} (sent : send headers outcomes status statusText body = (part, rest)) :
    (part ++ rest <+: responseHead headers status statusText body.length ++ body ↔
      part = responseHead headers status statusText body.length ∨ rest = []) ∧
    (part = responseHead headers status statusText body.length ∨ rest = [] →
      readResponse (part ++ rest) =
        if part ++ rest = responseHead headers status statusText body.length ++ body then
          some (headLines headers status statusText body.length, body)
        else none) := by
  have partPrefix : part <+: responseHead headers status statusText body.length := by
    have begins := sendLoop_prefix outcomes (responseHead headers status statusText body.length)
    rwa [show (sendLoop outcomes _).1 = part from congrArg Prod.fst sent] at begins
  have restPrefix : rest <+: body := by
    have begins := sendLoop_prefix
      (sendLoop outcomes (responseHead headers status statusText body.length)).2 body
    rwa [show (sendLoop _ body).1 = rest from congrArg Prod.snd sent] at begins
  have nonempty : body ≠ [] := by
    rintro rfl
    cases markup
  generalize shape : responseHead headers status statusText body.length = head at *
  refine ⟨⟨fun begins => ?_, fun whole => ?_⟩, fun whole => ?_⟩
  · -- The rest of a cut head does not begin as the body does.
    by_contra neither
    rw [not_or] at neither
    obtain ⟨cut, rfl⟩ := partPrefix
    obtain ⟨first, more, rfl⟩ := List.exists_cons_of_ne_nil neither.2
    obtain ⟨missing, others, rfl⟩ : ∃ missing others, cut = missing :: others := by
      refine List.exists_cons_of_ne_nil ?_
      rintro rfl
      exact neither.1 (List.append_nil part).symm
    rw [List.append_assoc, List.prefix_append_right_inj, List.cons_append,
      List.cons_prefix_cons] at begins
    obtain ⟨after, rfl⟩ := restPrefix
    cases Option.some.inj markup
    have inside : 60 ∈ responseHead headers status statusText (60 :: more ++ after).length := by
      rw [shape]
      simp [begins.1]
    have plain : ∀ c ∈ decimal (60 :: more ++ after).length, isdigit c = true := decimal_digits _
    have ends : 60 ∉ headEnd := by decide
    rcases List.mem_append.mp inside with front | back
    · rcases List.mem_append.mp front with start | digits
      · exact framing.plain start
      · cases plain 60 digits
    · exact ends back
  · rcases whole with rfl | rfl
    · exact (List.prefix_append_right_inj _).mpr restPrefix
    · rw [List.append_nil]
      exact partPrefix.trans (List.prefix_append _ _)
  · by_cases complete : part = head
    · subst part
      rw [← shape, responseHead, readResponse_head framing, headLines]
      have counted : body.length = rest.length ↔
          headStart headers status statusText ++ decimal body.length ++ headEnd ++ rest =
            headStart headers status statusText ++ decimal body.length ++ headEnd ++ body := by
        rw [List.append_cancel_left_eq]
        constructor
        · exact fun same => restPrefix.eq_of_length same.symm
        · exact fun same => congrArg List.length same.symm
      by_cases same : body.length = rest.length
      · rw [if_pos same, if_pos (counted.mp same), restPrefix.eq_of_length same.symm]
      · rw [if_neg same, if_neg fun equal => same (counted.mpr equal)]
    · have none := whole.resolve_left complete
      subst none
      have short := partPrefix.length_le
      rw [← shape] at partPrefix
      rw [List.append_nil, readResponse_short framing partPrefix
        (fun equal => complete (equal.trans shape)), if_neg]
      intro equal
      have size := congrArg List.length equal
      have some := List.length_pos_iff.mpr nonempty
      rw [List.length_append] at size
      omega

end Http

namespace WebServer

def kPrivacyHeaders : Bytes :=
  ascii "Cache-Control: no-store, no-cache, must-revalidate\r\n" ++
  ascii "Pragma: no-cache\r\n" ++
  ascii "X-Content-Type-Options: nosniff\r\n" ++
  ascii "X-Frame-Options: DENY\r\n" ++
  ascii "Referrer-Policy: no-referrer\r\n" ++
  ascii "Content-Security-Policy: default-src 'none'; style-src 'unsafe-inline'; " ++
  ascii "script-src 'none'; form-action 'self'; base-uri 'none'; frame-ancestors 'none'; " ++
  ascii "img-src 'none'; media-src 'none'; object-src 'none'\r\n" ++
  ascii "Permissions-Policy: interest-cohort=(), browsing-topics=()\r\n" ++
  ascii "Clear-Site-Data: \"cache\",\"cookies\",\"storage\"\r\n" ++
  ascii "Cross-Origin-Opener-Policy: same-origin\r\n"

/-- What the peer gets of the head and of the body of a response. -/
def sendResponse (outcomes : List Nat) (response : Response) : Bytes × Bytes :=
  Http.send kPrivacyHeaders outcomes response.status response.statusText response.body

def Response.head (response : Response) : Bytes :=
  Http.responseHead kPrivacyHeaders response.status response.statusText response.body.length

/-- The response of `runForever` when all connections are taken. -/
def busy : Response where
  status := 503
  statusText := ascii "Service Unavailable"
  body := ascii "<html><body>Busy - try again in a moment.</body></html>"

/-- The head of a response has one length and one empty line, and its body is markup. -/
structure Response.Sendable (response : Response) : Prop where
  framing : Http.Framing (Http.headStart kPrivacyHeaders response.status response.statusText)
  markup : response.body.head? = some 60

private theorem framing_kPrivacyHeaders {statusText : Bytes} (status : Nat)
    (line : 13 ∉ statusText ∧ 60 ∉ statusText) :
    Http.Framing (Http.headStart kPrivacyHeaders status statusText) :=
  .headStart status (by decide +kernel) line

theorem sendable_busy : busy.Sendable :=
  ⟨framing_kPrivacyHeaders _ (by decide), rfl⟩

private theorem head_renderPage {D : Type} [Double64 D] (title query : Bytes)
    (results : List (ScoredDocument D)) : (renderPage title query results).head? = some 60 := by
  simp only [renderPage, pageStart, List.append_assoc]
  rw [List.head?_append]
  rfl

theorem sendable_serveRequest (D : Type) [Double64 D] (order : Support.VisitOrder)
    (opts : Options) (ix : InvertedIndex) (requestLine : Bytes) :
    (serveRequest D order opts ix requestLine).Sendable := by
  unfold serveRequest
  dsimp only
  split
  · exact ⟨framing_kPrivacyHeaders _ (by decide), rfl⟩
  · split
    · exact ⟨framing_kPrivacyHeaders _ (by decide), rfl⟩
    · split
      · exact ⟨framing_kPrivacyHeaders _ (by decide), rfl⟩
      · have plain : 13 ∉ ascii "OK" ∧ 60 ∉ ascii "OK" := by decide
        exact ⟨framing_kPrivacyHeaders _ plain, head_renderPage _ _ _⟩

/-- Over a connection that takes any part of what it is given, or fails at any point, the
client gets the beginning of the response exactly when no byte of the body follows a head
that was cut; and then it takes the whole response, and nothing less, for one. -/
theorem sendResponse_reliable (D : Type) [Double64 D] (order : Support.VisitOrder)
    (opts : Options) (ix : InvertedIndex) {response : Response}
    (served : response = busy ∨
      ∃ chunks, handleClient D order opts ix chunks = some response)
    {outcomes : List Nat} {part rest : Bytes}
    (sent : sendResponse outcomes response = (part, rest)) :
    (part ++ rest <+: response.head ++ response.body ↔ part = response.head ∨ rest = []) ∧
    (part = response.head ∨ rest = [] → Http.readResponse (part ++ rest) =
      if part ++ rest = response.head ++ response.body then
        some (Http.headLines kPrivacyHeaders response.status response.statusText
          response.body.length, response.body)
      else none) := by
  have sendable : response.Sendable := by
    rcases served with rfl | ⟨chunks, answered⟩
    · exact sendable_busy
    · obtain ⟨head, _, rfl⟩ := Option.map_eq_some_iff.mp answered
      exact sendable_serveRequest D order opts ix _
  exact Http.send_reliable sendable.framing sendable.markup sent

/-- The connection takes the head in two pieces, breaks off, and takes the body after all:
the client does not get the beginning of the response. -/
theorem sendResponse_reliable_broken :
    ¬ (sendResponse [9, 5, 0, 100] busy).1 ++ (sendResponse [9, 5, 0, 100] busy).2 <+:
      busy.head ++ busy.body := by
  have broken := (sendResponse_reliable ℝ .stored {} .empty (.inl rfl)
    (Prod.mk.eta (p := sendResponse [9, 5, 0, 100] busy)).symm).1
  rw [broken]
  decide +kernel

end WebServer

open Http

/-- Both servers answer a request in the same way however it is cut into pieces of at most
a buffer, unless its head ends within one buffer behind the server's limit. -/
theorem handleClient_arrived (D : Type) [Double64 D] (order : Support.VisitOrder)
    (opts : WebServer.Options) (ix : InvertedIndex) (admin : AdminServer)
    (chunks others : List Bytes) (small : ∀ chunk ∈ chunks ++ others, chunk.length ≤ 1024)
    (same : arrived chunks = arrived others) :
    ((∀ i, (arrived chunks).find (ascii "\r\n\r\n") 0 = some i →
        i + 4 ≤ opts.maxRequestBytes ∨ opts.maxRequestBytes + 1024 ≤ i + 4) →
      WebServer.handleClient D order opts ix chunks =
        WebServer.handleClient D order opts ix others) ∧
    ((∀ i, (arrived chunks).find (ascii "\r\n\r\n") 0 = some i →
        i + 4 ≤ 8192 ∨ 8192 + 1024 ≤ i + 4) →
      admin.handleClient chunks = admin.handleClient others) := by
  refine ⟨fun clear => ?_, fun clear => ?_⟩
  · rw [WebServer.handleClient, WebServer.handleClient, receive_arrived small same clear]
  · rw [AdminServer.handleClient, AdminServer.handleClient, receive_arrived small same clear]

theorem handleClient_arrived_cut :
    WebServer.handleClient ℝ .stored {} .empty
        [ascii "GET / HTTP/1.1\r\n\r", ascii "\nrest"] =
      WebServer.handleClient ℝ .stored {} .empty [ascii "GET / HTTP/1.1\r\n\r\nrest"] := by
  have early : (arrived [ascii "GET / HTTP/1.1\r\n\r", ascii "\nrest"]).find
      (ascii "\r\n\r\n") 0 = some 14 := by decide +kernel
  refine (handleClient_arrived ℝ .stored {} .empty ⟨{}, []⟩ _ _ (by decide +kernel)
    (by decide +kernel)).1 fun i found => .inl ?_
  cases Option.some.inj (early.symm.trans found)
  decide

end ShadowSe

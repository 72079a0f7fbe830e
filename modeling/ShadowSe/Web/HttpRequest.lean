import ShadowSe.Text.Bytes

namespace ShadowSe.Http

/-- The receiving loop. The chunks are what `recv` returns, an empty one at the end of
the stream or on an error; the request is dropped unless its head is complete before
`limit` bytes are exceeded. -/
def receive (limit : Nat) : Bytes → List Bytes → Option Bytes
  | _, [] => none
  | buf, chunk :: chunks =>
    if buf.length < limit then
      if chunk.isEmpty then none
      else
        let buf := buf ++ chunk
        match buf.find (ascii "\r\n\r\n") 0 with
        | some headerEnd => some (buf.substr 0 (some headerEnd))
        | none => receive limit buf chunks
    else none

def requestLine (head : Bytes) : Bytes :=
  match head.find (ascii "\r\n") 0 with
  | some lineEnd => head.substr 0 (some lineEnd)
  | none => head

/-- `line >> word`, and what is left of the line. -/
def nextWord (line : Bytes) : Bytes × Bytes :=
  let line := line.dropWhile isspace
  (line.takeWhile fun c => !isspace c, line.dropWhile fun c => !isspace c)

/-- `line >> method >> target`. -/
def methodAndTarget (line : Bytes) : Bytes × Bytes :=
  let (method, line) := nextWord line
  (method, (nextWord line).1)

/-- The path of a target, and its query string behind the first question mark. -/
def splitTarget (target : Bytes) : Bytes × Bytes :=
  match target.findFirstOf (ascii "?") 0 with
  | some qmark => (target.substr 0 (some qmark), target.substr (qmark + 1) none)
  | none => (target, [])

/-- The loop over the pairs of a query string, up to the first one that starts with
`name`; its rest is the result. Every pass moves the position forward. -/
def parameterLoop (name query : Bytes) : Nat → Nat → Option Bytes
  | 0, _ => none
  | fuel + 1, pos =>
    if pos ≤ query.length then
      let amp := query.findFirstOf (ascii "&") pos
      let pair := query.substr pos (amp.map (· - pos))
      if pair.startsWith name then some (pair.substr name.length none)
      else match amp with
        | none => none
        | some amp => parameterLoop name query fuel (amp + 1)
    else none

def parameter (name query : Bytes) : Option Bytes :=
  parameterLoop name query (query.length + 1) 0

/-- The value behind `name` in the first pair of the query string that starts with it. -/
def firstParameter (name query : Bytes) : Option Bytes :=
  ((query.splitOn 38).find? fun pair => Bytes.startsWith pair name).map fun pair =>
    pair.drop name.length

private theorem parameterLoop_eq (name query : Bytes) (fuel pos : Nat)
    (inside : pos ≤ query.length) (enough : query.length < pos + fuel) :
    parameterLoop name query fuel pos = firstParameter name (query.drop pos) := by
  induction fuel generalizing pos with
  | zero => omega
  | succ fuel ih =>
    rw [parameterLoop, if_pos inside]
    rcases Bytes.findFirstOf_single query 38 pos with
      ⟨absent, nowhere⟩ | ⟨before, rest, split, absent, found⟩
    · have searched : query.findFirstOf (ascii "&") pos = none := nowhere
      rw [firstParameter, List.splitOn_eq_singleton absent, searched]
      by_cases starts : Bytes.startsWith (query.drop pos) name = true
      · simp [Bytes.substr, starts]
      · simp [Bytes.substr, starts]
    · have searched : query.findFirstOf (ascii "&") pos = some (pos + before.length) := found
      have pair : (query.drop pos).take before.length = before := by
        rw [split, List.take_left]
      have length := congrArg List.length split
      simp only [List.length_drop, List.length_append, List.length_cons] at length
      have later : query.drop (pos + before.length + 1) = rest := by
        rw [Nat.add_assoc, ← List.drop_drop, split, ← List.drop_drop, List.drop_left]
        rfl
      rw [firstParameter, split, List.splitOn_append_cons_self_of_not_mem absent, searched]
      simp only [Option.map_some, Bytes.substr, Nat.add_sub_cancel_left, pair, List.find?_cons]
      by_cases starts : Bytes.startsWith before name = true
      · simp [starts]
      · rw [ih (pos + before.length + 1) (by omega) (by omega), later, firstParameter]
        simp [starts]

/-- The loop finds the first parameter, wherever it stands and whatever its value holds. -/
theorem parameter_eq_firstParameter (name query : Bytes) :
    parameter name query = firstParameter name query := by
  rw [parameter, parameterLoop_eq name query _ 0 (Nat.zero_le _) (by omega), List.drop_zero]

end ShadowSe.Http

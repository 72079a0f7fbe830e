import ShadowSe.Storage.SnapshotFormat

/-! The calls that reading a snapshot makes, and the bytes they touch. The bounds test of a
string adds the length that the data declares to the position in `w` bits. -/

namespace ShadowSe

inductive ReaderCall where
  | readU8
  | readU32
  | readStr
  deriving DecidableEq

namespace ReaderCall

/-- The reader after a call that succeeds. -/
def next (w : Nat) : ReaderCall → Reader → Option Reader
  | .readU8, r => (r.readU8 w).map (·.2)
  | .readU32, r => (r.readU32 w).map (·.2)
  | .readStr, r => (r.readStr w).map (·.2)

/-- The position that a call leaves. One for a string that returns `false` or throws leaves the
position behind the length. -/
def posAfter (w : Nat) (call : ReaderCall) (r : Reader) : Nat :=
  let failed := if call = .readStr then ((r.readU32 w).map (·.2.pos)).getD r.pos else r.pos
  ((call.next w r).map (·.pos)).getD failed

/-- The slices of the data that a call copies, as offsets and lengths. -/
def slices (w : Nat) : ReaderCall → Reader → List (Nat × Nat)
  | .readU8, r => if (r.readU8 w).isSome then [(r.pos, 1)] else []
  | .readU32, r => if (r.readU32 w).isSome then [(r.pos, 4)] else []
  | .readStr, r =>
    match r.readU32 w with
    | none => []
    | some (len, behind) =>
      (r.pos, 4) :: if (r.readStr w).isSome then [(behind.pos, len.toNat)] else []

/-- The position stays in the data, and what is copied lies wholly inside. -/
structure InBounds (w : Nat) (call : ReaderCall) (r : Reader) : Prop where
  pos : call.posAfter w r ≤ r.data.length
  slices : ∀ slice ∈ call.slices w r, slice.1 + slice.2 ≤ r.data.length

end ReaderCall

/-- The calls for one document. -/
def documentCalls : List ReaderCall :=
  [.readStr, .readStr, .readStr, .readStr, .readU8, .readU32]

def bodyCalls (count : Nat) : List ReaderCall :=
  (List.replicate count documentCalls).flatten

/-- The calls that are made, each with the reader it finds; the first that fails is the last. -/
def callsFrom (w : Nat) : List ReaderCall → Reader → List (ReaderCall × Reader)
  | [], _ => []
  | call :: later, r =>
    (call, r) ::
      match call.next w r with
      | none => []
      | some r => callsFrom w later r

/-- The calls of `deserializeDocuments`. -/
def readerCalls (w : Nat) (data : Bytes) : List (ReaderCall × Reader) :=
  let r : Reader := { data }
  if addSize w r.pos kMagic.length > data.length ∨ data.take kMagic.length ≠ kMagic then []
  else
    let r := { r with pos := addSize w r.pos kMagic.length }
    (.readU32, r) ::
      match r.readU32 w with
      | none => []
      | some (version, r) =>
        if version ≠ kSnapshotVersion then []
        else
          (.readU32, r) ::
            match r.readU32 w with
            | none => []
            | some (count, r) =>
              if count > 10000000 then [] else callsFrom w (bodyCalls count.toNat) r

namespace ReaderCall

open Reader

variable {w : Nat} {r : Reader}

private theorem step_le {len : Nat} (inMemory : InMemory w r.data)
    (within : r.pos ≤ r.data.length) (inside : ¬ addSize w r.pos len > r.data.length)
    (allocated : ¬ len > maxObjectSize w) :
    addSize w r.pos len = r.pos + len ∧ r.pos + len ≤ r.data.length := by
  have next := addSize_eq_add inMemory within inside allocated
  rw [next] at inside
  exact ⟨next, Nat.not_lt.mp inside⟩

private theorem short_step (wide : 32 ≤ w) {len : Nat} (short : len ≤ 4) :
    ¬ len > maxObjectSize w := by
  have half : 2 ^ 31 ≤ 2 ^ (w - 1) := Nat.pow_le_pow_right (by decide) (by omega)
  unfold maxObjectSize
  omega

theorem readU8_moves (wide : 32 ≤ w) (inMemory : InMemory w r.data)
    (within : r.pos ≤ r.data.length) {v : UInt8} {after : Reader}
    (read : r.readU8 w = some (v, after)) :
    after = { r with pos := r.pos + 1 } ∧ r.pos + 1 ≤ r.data.length := by
  unfold Reader.readU8 at read
  split at read
  · cases read
  · rename_i inside
    obtain ⟨next, le⟩ := step_le inMemory within inside (short_step wide (by decide))
    rw [next] at read
    cases read
    exact ⟨rfl, le⟩

theorem readU32_moves (wide : 32 ≤ w) (inMemory : InMemory w r.data)
    (within : r.pos ≤ r.data.length) {v : UInt32} {after : Reader}
    (read : r.readU32 w = some (v, after)) :
    after = { r with pos := r.pos + 4 } ∧ r.pos + 4 ≤ r.data.length := by
  unfold Reader.readU32 at read
  split at read
  · cases read
  · rename_i inside
    obtain ⟨next, le⟩ := step_le inMemory within inside (short_step wide (by decide))
    rw [next] at read
    cases read
    exact ⟨rfl, le⟩

/-- A sum that wraps around passes the bounds test, but not the allocation behind it. -/
theorem readStr_moves (wide : 32 ≤ w) (inMemory : InMemory w r.data)
    (within : r.pos ≤ r.data.length) {len : UInt32} {behind : Reader}
    (counted : r.readU32 w = some (len, behind)) {s : Bytes} {after : Reader}
    (read : r.readStr w = some (s, after)) :
    after = { r with pos := behind.pos + len.toNat } ∧
      behind.pos + len.toNat ≤ r.data.length := by
  obtain ⟨rfl, le⟩ := readU32_moves wide inMemory within counted
  simp only [Reader.readStr, counted, Option.bind_eq_bind, Option.bind_some] at read
  split at read
  · cases read
  rename_i inside
  split at read
  · cases read
  rename_i allocated
  obtain ⟨next, le⟩ := step_le (r := { r with pos := r.pos + 4 }) inMemory le inside allocated
  rw [next] at read
  cases read
  exact ⟨rfl, le⟩

/-- A call that succeeds leaves a reader of the same data, inside it. -/
theorem next_within (wide : 32 ≤ w) (inMemory : InMemory w r.data)
    (within : r.pos ≤ r.data.length) {call : ReaderCall} {after : Reader}
    (next : call.next w r = some after) : after.data = r.data ∧ after.pos ≤ r.data.length := by
  cases call with
  | readU8 =>
    obtain ⟨⟨v, after⟩, read, rfl⟩ := Option.map_eq_some_iff.mp next
    obtain ⟨rfl, le⟩ := readU8_moves wide inMemory within read
    exact ⟨rfl, le⟩
  | readU32 =>
    obtain ⟨⟨v, after⟩, read, rfl⟩ := Option.map_eq_some_iff.mp next
    obtain ⟨rfl, le⟩ := readU32_moves wide inMemory within read
    exact ⟨rfl, le⟩
  | readStr =>
    obtain ⟨⟨s, after⟩, read, rfl⟩ := Option.map_eq_some_iff.mp next
    obtain ⟨⟨len, behind⟩, counted, -⟩ := Option.bind_eq_some_iff.mp read
    obtain ⟨rfl, le⟩ := readStr_moves wide inMemory within counted read
    exact ⟨rfl, le⟩

/-- A failed call has not moved, or it stands behind a length that was there. -/
theorem posAfter_le (wide : 32 ≤ w) (inMemory : InMemory w r.data)
    (within : r.pos ≤ r.data.length) (call : ReaderCall) :
    call.posAfter w r ≤ r.data.length := by
  unfold posAfter
  cases next : call.next w r with
  | some after => exact (next_within wide inMemory within next).2
  | none =>
    dsimp only [Option.map_none, Option.getD_none]
    split
    · cases counted : r.readU32 w with
      | none => exact within
      | some found =>
        obtain ⟨behind, le⟩ := readU32_moves wide inMemory within counted
        rw [Option.map_some, Option.getD_some, behind]
        exact le
    · exact within

theorem slices_le (wide : 32 ≤ w) (inMemory : InMemory w r.data)
    (within : r.pos ≤ r.data.length) (call : ReaderCall) :
    ∀ slice ∈ call.slices w r, slice.1 + slice.2 ≤ r.data.length := by
  intro slice member
  cases call with
  | readU8 =>
    rw [slices, List.mem_ite_nil_right, List.mem_singleton] at member
    obtain ⟨found, rfl⟩ := member
    obtain ⟨⟨v, after⟩, read⟩ := Option.isSome_iff_exists.mp found
    exact (readU8_moves wide inMemory within read).2
  | readU32 =>
    rw [slices, List.mem_ite_nil_right, List.mem_singleton] at member
    obtain ⟨found, rfl⟩ := member
    obtain ⟨⟨v, after⟩, read⟩ := Option.isSome_iff_exists.mp found
    exact (readU32_moves wide inMemory within read).2
  | readStr =>
    rw [slices] at member
    split at member
    · cases member
    · rename_i len behind counted
      rcases List.mem_cons.mp member with rfl | copied
      · exact (readU32_moves wide inMemory within counted).2
      · rw [List.mem_ite_nil_right, List.mem_singleton] at copied
        obtain ⟨found, rfl⟩ := copied
        obtain ⟨⟨s, after⟩, read⟩ := Option.isSome_iff_exists.mp found
        exact (readStr_moves wide inMemory within counted read).2

theorem inBounds (wide : 32 ≤ w) (inMemory : InMemory w r.data)
    (within : r.pos ≤ r.data.length) (call : ReaderCall) : call.InBounds w r :=
  ⟨posAfter_le wide inMemory within call, slices_le wide inMemory within call⟩

end ReaderCall

section Calls

open Reader ReaderCall

variable {w : Nat}

/-- The reader after all of the calls. -/
def follow (w : Nat) : List ReaderCall → Reader → Option Reader
  | [], r => some r
  | call :: later, r => (call.next w r).bind (follow w later)

theorem follow_append (first second : List ReaderCall) (r : Reader) :
    follow w (first ++ second) r = (follow w first r).bind (follow w second) := by
  induction first generalizing r with
  | nil => rfl
  | cons call first ih =>
    simp only [List.cons_append, follow, ih]
    exact (Option.bind_assoc _ _ _).symm

theorem readDocument_eq_follow (r : Reader) :
    (r.readDocument w).map (·.2) = follow w documentCalls r := by
  have step {α : Type} (read : Option (α × Reader)) (later : Reader → Option Reader) :
      (read.map (·.2)).bind later = read.bind fun found => later found.2 := by
    cases read <;> rfl
  simp only [readDocument, documentCalls, follow, next, step, Option.bind_eq_bind,
    Option.map_bind, Function.comp_def, Option.map_some]

theorem follow_isSome_iff (calls : List ReaderCall) (r : Reader) :
    (follow w calls r).isSome ↔ ∀ call ∈ callsFrom w calls r, (call.1.next w call.2).isSome := by
  induction calls generalizing r with
  | nil => simp [follow, callsFrom]
  | cons call calls ih =>
    rw [follow, callsFrom, List.forall_mem_cons]
    cases call.next w r with
    | none => simp
    | some after => simpa using ih after

theorem readDocuments_isSome_iff (count : Nat) (r : Reader) (out : List Document) :
    (r.readDocuments w count out).isSome ↔
      ∀ call ∈ callsFrom w (bodyCalls count) r, (call.1.next w call.2).isSome := by
  have body : (r.readDocuments w count out).isSome = (follow w (bodyCalls count) r).isSome := by
    induction count generalizing r out with
    | zero => rfl
    | succ count ih =>
      rw [bodyCalls, List.replicate_succ, List.flatten_cons, follow_append,
        ← readDocument_eq_follow]
      simp only [readDocuments, Option.bind_eq_bind]
      cases r.readDocument w with
      | none => rfl
      | some found => exact ih found.2 _
  rw [body, follow_isSome_iff]

/-- The calls for a list of fields stay in bounds, whatever lengths they meet. -/
theorem callsFrom_inBounds (wide : 32 ≤ w) (calls : List ReaderCall) {r : Reader}
    (inMemory : InMemory w r.data) (within : r.pos ≤ r.data.length) :
    ∀ call ∈ callsFrom w calls r, call.1.InBounds w call.2 := by
  induction calls generalizing r with
  | nil => exact List.forall_mem_nil _
  | cons call calls ih =>
    rw [callsFrom, List.forall_mem_cons]
    refine ⟨inBounds wide inMemory within call, ?_⟩
    cases next : call.next w r with
    | none => exact List.forall_mem_nil _
    | some after =>
      obtain ⟨same, le⟩ := next_within wide inMemory within next
      rw [← same] at inMemory le
      exact ih inMemory le

/-- In data that fits in memory every call of the reader stays in bounds, on a 64-bit target
and on a 32-bit one. -/
theorem readerCalls_inBounds (target : w = 32 ∨ w = 64) {data : Bytes}
    (inMemory : InMemory w data) :
    ∀ call ∈ readerCalls w data, call.1.InBounds w call.2 := by
  have wide : 32 ≤ w := by omega
  intro call made
  simp only [readerCalls, addSize_magic wide inMemory] at made
  split at made
  · cases made
  rename_i magic
  have start : kMagic.length ≤ data.length := Nat.not_lt.mp fun short => magic (.inl short)
  rcases List.mem_cons.mp made with rfl | made
  · exact inBounds wide inMemory start .readU32
  split at made
  · cases made
  rename_i version r found
  obtain ⟨rfl, versionEnd⟩ := readU32_moves wide inMemory start found
  split at made
  · cases made
  rcases List.mem_cons.mp made with rfl | made
  · exact inBounds wide inMemory versionEnd .readU32
  split at made
  · cases made
  rename_i count r counted
  obtain ⟨rfl, countEnd⟩ := readU32_moves wide inMemory versionEnd counted
  split at made
  · cases made
  · exact callsFrom_inBounds wide _ inMemory countEnd call made

/-- A string of nearly 4 GiB is declared where none is. In 32 bits the sum wraps around to 2, and
the call for the string is made and stays in bounds. -/
theorem readerCalls_inBounds_wrapping :
    addSize 32 18 0xFFFFFFF0 = 2 ∧
      ReaderCall.readStr.InBounds 32 (between (snapshotHeader 1) (pushU32 0xFFFFFFF0)) := by
  have inMemory : InMemory 32 (snapshotHeader 1 ++ pushU32 0xFFFFFFF0) := by
    unfold InMemory
    decide
  refine ⟨by decide, readerCalls_inBounds (.inl rfl) inMemory (.readStr, _) ?_⟩
  exact List.mem_cons_of_mem _ (List.mem_cons_of_mem _ List.mem_cons_self)

end Calls

end ShadowSe

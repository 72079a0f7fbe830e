import ShadowSe.Index.IndexReload
import ShadowSe.Storage.Snapshot

namespace ShadowSe

namespace Reader

variable {w : Nat}

/-- A read that fails on every strict prefix of `bytes`, in data that fits in memory with all
of them. -/
def RejectsCut {β : Type} (read : Reader → Option β) (w : Nat) (bytes : Bytes) : Prop :=
  ∀ before cut : Bytes, cut <+: bytes → cut.length < bytes.length →
    InMemory w (before ++ bytes) → read ⟨before ++ cut, before.length⟩ = none

theorem RejectsCut.nil {β : Type} (read : Reader → Option β) : RejectsCut read w [] :=
  fun _ _ _ shorter _ => absurd shorter (Nat.not_lt_zero _)

/-- A cut of joined bytes falls into the first part, or the first part is whole. -/
private theorem cut_append {first second cut : Bytes} (cutOf : cut <+: first ++ second)
    (shorter : cut.length < (first ++ second).length) :
    cut <+: first ∧ cut.length < first.length ∨
      ∃ rest, cut = first ++ rest ∧ rest <+: second ∧ rest.length < second.length := by
  by_cases early : cut.length < first.length
  · exact .inl ⟨List.prefix_of_prefix_length_le cutOf (List.prefix_append first second) early.le,
      early⟩
  · obtain ⟨rest, rfl⟩ := List.prefix_of_prefix_length_le (List.prefix_append first second) cutOf
      (Nat.le_of_not_lt early)
    refine .inr ⟨rest, rfl, (List.prefix_append_right_inj first).mp cutOf, ?_⟩
    simpa using shorter

/-- Reads in a row reject a cut when each of them does. -/
theorem RejectsCut.bind {α β : Type} {read : Reader → Option (α × Reader)}
    {next : α × Reader → Option β} {first second : Bytes} {value : α}
    (consumes : Consumes read w first value) (rejects : RejectsCut read w first)
    (later : RejectsCut (fun r => next (value, r)) w second) :
    RejectsCut (fun r => (read r).bind next) w (first ++ second) := by
  intro before cut cutOf shorter inMemory
  unfold InMemory at inMemory
  dsimp only
  rcases cut_append cutOf shorter with ⟨within, early⟩ | ⟨rest, rfl, within, late⟩
  · rw [rejects before cut within early]
    · rfl
    · simp only [InMemory, List.length_append] at inMemory ⊢
      omega
  · rw [consumes before rest]
    · exact later (before ++ first) rest within late (by rwa [InMemory, List.append_assoc])
    · simp only [InMemory, List.length_append] at inMemory shorter ⊢
      omega

private theorem addSize_small {a b : Nat} (fits : a + b < 2 ^ w) : addSize w a b = a + b :=
  Nat.mod_eq_of_lt fits

theorem readU8_rejects (v : UInt8) : RejectsCut (readU8 w) w (pushU8 v) := by
  intro before cut _ shorter inMemory
  have fits := inMemory.lt
  simp only [pushU8, List.length_append, List.length_singleton] at shorter fits
  have next : addSize w before.length 1 = before.length + 1 := addSize_small fits
  rw [readU8, if_pos]
  simp only [next, List.length_append]
  omega

theorem readU32_rejects (v : UInt32) : RejectsCut (readU32 w) w (pushU32 v) := by
  intro before cut _ shorter inMemory
  have fits := inMemory.lt
  simp only [pushU32, List.length_append, List.length_cons, List.length_nil] at shorter fits
  have next : addSize w before.length 4 = before.length + 4 := addSize_small fits
  rw [readU32, if_pos]
  simp only [next, List.length_append]
  omega

theorem readStr_rejects {s : Bytes} (short : s.length < 2 ^ 32) :
    RejectsCut (readStr w) w (pushStr s) := by
  refine .bind (readU32_consumes _) (readU32_rejects _) ?_
  intro before cut _ shorter inMemory
  have fits := inMemory.lt
  have length : (UInt32.ofNat s.length).toNat = s.length := Nat.mod_eq_of_lt short
  have next : addSize w before.length s.length = before.length + s.length :=
    addSize_small (by simpa using fits)
  have missing : addSize w before.length s.length > (before ++ cut).length := by
    rw [next, List.length_append]
    omega
  simp only [length]
  exact if_pos missing

theorem readDocument_rejects {d : Document} (texts : d.FitsFormat) :
    RejectsCut (readDocument w) w (serializeOne d) := by
  have fields : serializeOne d = pushStr d.url ++ (pushStr d.title ++ (pushStr d.snippet ++
      (pushStr d.content ++ (pushU8 d.source.toU8 ++ (pushU32 d.depth ++ []))))) := by
    simp [serializeOne]
  rw [fields]
  exact .bind (readStr_consumes texts.url) (readStr_rejects texts.url)
    (.bind (readStr_consumes texts.title) (readStr_rejects texts.title)
    (.bind (readStr_consumes texts.snippet) (readStr_rejects texts.snippet)
    (.bind (readStr_consumes texts.content) (readStr_rejects texts.content)
    (.bind (readU8_consumes _) (readU8_rejects _)
    (.bind (readU32_consumes _) (readU32_rejects _) (.nil _))))))

theorem readDocuments_rejects {docs : List Document} (texts : ∀ d ∈ docs, d.FitsFormat)
    (out : List Document) :
    RejectsCut (fun r => readDocuments w docs.length r out) w (docs.flatMap serializeOne) := by
  induction docs generalizing out with
  | nil => exact .nil _
  | cons d rest ih =>
    have head := texts d (by simp)
    exact .bind (readDocument_consumes head) (readDocument_rejects head)
      (ih (fun other member => texts other (List.mem_cons_of_mem _ member)) _)

end Reader

/-- No strict prefix of a snapshot is read, where sizes can hold the whole of it. -/
theorem deserializeDocuments_cut {w : Nat} {docs : List Document} (fits : FitsFormat docs)
    (inMemory : InMemory w (serializeDocuments docs)) {cut : Bytes}
    (cutOf : cut <+: serializeDocuments docs) (strict : cut ≠ serializeDocuments docs) :
    ∃ err, deserializeDocuments w cut = .error err := by
  have shape : serializeDocuments docs = kMagic ++ (pushU32 kSnapshotVersion ++
      (pushU32 (UInt32.ofNat docs.length) ++ docs.flatMap serializeOne)) := by
    simp [serializeDocuments]
  have shorter : cut.length < (serializeDocuments docs).length :=
    Nat.lt_of_le_of_ne cutOf.length_le fun same => strict (cutOf.eq_of_length same)
  have counted : (UInt32.ofNat docs.length).toNat = docs.length :=
    Nat.mod_eq_of_lt (Nat.lt_of_le_of_lt fits.count (by decide))
  rw [shape] at cutOf shorter inMemory
  have start : addSize w 0 kMagic.length = kMagic.length := by
    have fits := inMemory.lt
    refine Nat.mod_eq_of_lt ?_
    simp only [List.length_append] at fits
    omega
  have sizes {first second third : Bytes} (whole : InMemory w (first ++ (second ++ third))) :
      InMemory w (first ++ second) := by
    simp only [InMemory, List.length_append] at whole ⊢
    omega
  rcases Reader.cut_append cutOf shorter with ⟨_, inMagic⟩ | ⟨rest, rfl, cutOf, shorter⟩
  · refine ⟨_, if_pos (.inl ?_)⟩
    rw [start]
    exact inMagic
  simp only [deserializeDocuments, start]
  rw [if_neg (by simp)]
  rcases Reader.cut_append cutOf shorter with ⟨within, inVersion⟩ | ⟨rest, rfl, cutOf, shorter⟩
  · rw [Reader.readU32_rejects _ kMagic rest within inVersion (sizes inMemory)]
    exact ⟨_, rfl⟩
  have version := Reader.readU32_consumes (w := w) kSnapshotVersion kMagic rest (by
    simp only [InMemory, List.length_append] at shorter inMemory ⊢
    omega)
  rw [version]
  simp only [ne_eq, not_true_eq_false, ↓reduceIte]
  rw [← List.append_assoc] at inMemory
  rcases Reader.cut_append cutOf shorter with ⟨within, inCount⟩ | ⟨rest, rfl, cutOf, shorter⟩
  · rw [Reader.readU32_rejects _ _ rest within inCount (sizes inMemory)]
    exact ⟨_, rfl⟩
  have count := Reader.readU32_consumes (w := w) (UInt32.ofNat docs.length)
    (kMagic ++ pushU32 kSnapshotVersion) rest (by
      simp only [InMemory, List.length_append] at shorter inMemory ⊢
      omega)
  rw [count]
  dsimp only
  split
  · exact ⟨_, rfl⟩
  · rw [← List.append_assoc] at inMemory
    have body := Reader.readDocuments_rejects fits.texts [] _ rest cutOf shorter inMemory
    dsimp only at body
    rw [counted, body]
    exact ⟨_, rfl⟩

/-- Snapshots are read back without ids, and cut snapshots are not read. -/
theorem deserializeDocuments_whole_only (docs : List Document) (fits : FitsFormat docs) :
    deserializeDocuments 64 (serializeDocuments docs) = .ok (docs.map Document.withoutId) ∧
      ∀ cut, cut <+: serializeDocuments docs → cut ≠ serializeDocuments docs →
        ∃ err, deserializeDocuments 64 cut = .error err :=
  ⟨deserializeDocuments_serialize fits, fun _ cutOf strict =>
    deserializeDocuments_cut (w := 64) fits (length_serializeDocuments_lt fits) cutOf strict⟩

theorem deserializeDocuments_whole_only_pair :
    deserializeDocuments 64 (serializeDocuments [{ id := 7, url := ascii "u", depth := 3 }, {}]) =
        .ok [{ url := ascii "u", depth := 3 }, {}] ∧
      ∀ cut, cut <+: serializeDocuments [{ id := 7, url := ascii "u", depth := 3 }, {}] →
        cut ≠ serializeDocuments [{ id := 7, url := ascii "u", depth := 3 }, {}] →
        ∃ err, deserializeDocuments 64 cut = .error err :=
  deserializeDocuments_whole_only [{ id := 7, url := ascii "u", depth := 3 }, {}] ⟨by decide,
    fun d member => ⟨by revert d; decide, by revert d; decide, by revert d; decide,
      by revert d; decide⟩⟩

end ShadowSe

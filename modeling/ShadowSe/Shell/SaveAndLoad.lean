import ShadowSe.Shell.SessionRun

namespace ShadowSe

open Support

section Files

variable {sodium : Sodium} {disk : Disk} {outcome : WriteOutcome} {path password other : Bytes}
  {docs : List Document}

theorem saveSnapshot_disk (differs : other ≠ path) :
    (saveSnapshot disk outcome path docs).2.lookup other = disk.lookup other := by
  cases outcome with
  | cannotOpen => rfl
  | failed kept => exact AList.lookup_insert_ne differs
  | written => exact AList.lookup_insert_ne differs

theorem saveEncryptedSnapshot_disk (differs : other ≠ path) :
    (saveEncryptedSnapshot sodium disk outcome path password docs).2.lookup other =
      disk.lookup other := by
  unfold saveEncryptedSnapshot
  dsimp only
  split
  · rfl
  split
  · rfl
  cases outcome with
  | cannotOpen => rfl
  | failed kept => exact AList.lookup_insert_ne differs
  | written => exact AList.lookup_insert_ne differs

/-- Success is reported only of a file that was written to its end. -/
theorem saveSnapshot_ok (told : (saveSnapshot disk outcome path docs).1 = .ok ()) :
    outcome = .written := by
  cases outcome with
  | cannotOpen => cases told
  | failed kept => cases told
  | written => rfl

end Files

/-- A tag that starts with the key. -/
def Sodium.tag (key : Bytes) : { bytes : Bytes // bytes.length = kTagSize } :=
  ⟨(key ++ List.replicate kTagSize 0).take kTagSize, by simp⟩

/-- A library that appends a tag, and opens what ends in the tag of the key. -/
def Sodium.tagging : Sodium where
  init := true
  randombytes n := ⟨List.replicate n 3, List.length_replicate⟩
  argon2id password salt := some (lockboxKey password salt)
  aeadEncrypt plaintext _ key := ⟨plaintext ++ (tag key).1, by simp [(tag key).2]⟩
  aeadDecrypt ciphertext _ key :=
    let size := ciphertext.length - kTagSize
    if ciphertext.drop size = (tag key).1 then some (ciphertext.take size) else none

theorem Sodium.tagging_opens : Sodium.tagging.Opens := by
  intro plaintext nonce key _ _
  have size : (plaintext ++ (tag key).1).length - kTagSize = plaintext.length := by
    rw [List.length_append, (tag key).2, Nat.add_sub_cancel]
  simp only [tagging, size, List.drop_left, List.take_left, ↓reduceIte]

/-- The command that saves in a format. -/
def Command.saving (encrypted : Bool) (path : Bytes) : Command :=
  if encrypted then .save path else .saveState path

/-- The command that loads in a format. -/
def Command.loading (encrypted : Bool) (path : Bytes) : Command :=
  if encrypted then .load path else .loadState path

theorem Engine.AllOrNothing.represents {layout : Layout} {before : InvertedIndex}
    {decoded : Except Bytes (List Document)} {after : Except Bytes Unit × InvertedIndex}
    (loads : Engine.AllOrNothing layout before decoded after) (sound : before.Represents) :
    after.2.Represents := by
  cases told : after.1 with
  | error err => exact loads.nothing err told ▸ sound
  | ok loaded =>
    obtain ⟨_, _, _, sound, _⟩ := loads.all told
    exact sound

namespace Session

variable {order : VisitOrder} {sodium : Sodium} {opts : CrawlerOptions} {layout : Layout}
  {s next : Session}

/-- The user does not save over the file. -/
def Spares (path : Bytes) (_ : Session) : SessionStep → Prop
  | .line input .. => (Command.parse input).writes ≠ some path
  | .endOfInput | .crawler _ => True

theorem execute_disk {path password : Bytes} {outcome : WriteOutcome} (command : Command)
    (spares : command.writes ≠ some path) :
    (s.execute order sodium opts layout password outcome command).disk.lookup path =
      s.disk.lookup path := by
  have other {target : Bytes} (writes : command.writes = some target) : path ≠ target := by
    rintro rfl
    exact spares writes
  cases command with
  | exit => rfl
  | help => rfl
  | status => rfl
  | admin => rfl
  | search query => rfl
  | nothing => rfl
  | usage text => rfl
  | crawl target =>
    simp only [Session.execute]
    split
    · rfl
    · rfl
  | save target =>
    simp only [Session.execute]
    split
    · rfl
    · exact saveEncryptedSnapshot_disk (other rfl)
  | saveState target => exact saveSnapshot_disk (other rfl)
  | load target =>
    simp only [Session.execute, answer, afterLoad]
    split
    · rfl
    · rfl
  | loadState target =>
    simp only [Session.execute, answer, afterLoad]
    split
    · rfl
    · rfl

theorem disk_kept {path : Bytes}
    (reached : (machine order sodium opts layout).Reaches (Spares path) s next) :
    next.disk.lookup path = s.disk.lookup path := by
  induction reached with
  | refl => rfl
  | @step before after action _ spares taken held =>
    have taken : before.step order sodium opts layout action = some after := taken
    refine Eq.trans ?_ held
    cases action with
    | line input password outcome random =>
      rw [step_line taken]
      exact execute_disk _ spares
    | endOfInput =>
      rw [step_endOfInput taken]
      rfl
    | crawler action =>
      obtain ⟨crawler, _, rfl⟩ := step_crawler taken
      rfl

theorem execute_represents {password : Bytes} {outcome : WriteOutcome} (command : Command)
    (sound : s.crawler.index.Represents) :
    (s.execute order sodium opts layout password outcome command).crawler.index.Represents := by
  cases command with
  | exit => exact sound
  | help => exact sound
  | status => exact sound
  | admin => exact sound
  | search query => exact sound
  | nothing => exact sound
  | usage text => exact sound
  | saveState target => exact sound
  | crawl target =>
    simp only [Session.execute]
    split
    · exact sound
    · exact sound
  | save target =>
    simp only [Session.execute]
    split
    · exact sound
    · exact sound
  | load target =>
    simp only [Session.execute, answer, afterLoad]
    split
    · exact (Engine.load_allOrNothing sodium 64 layout _ _ target password).2.represents sound
    · exact (Engine.load_allOrNothing sodium 64 layout _ _ target password).2.represents sound
  | loadState target =>
    simp only [Session.execute, answer, afterLoad]
    split
    · exact (Engine.load_allOrNothing sodium 64 layout _ _ target password).1.represents sound
    · exact (Engine.load_allOrNothing sodium 64 layout _ _ target password).1.represents sound

theorem represents {bloom : BloomFilter} {clock : Int} {disk : Disk}
    (reached : (machine order sodium opts layout).Reachable
      (start opts layout bloom clock disk) s) : s.crawler.index.Represents := by
  induction reached with
  | refl => exact InvertedIndex.represents_empty.addAll layout _
  | @step before after action _ _ taken sound =>
    have taken : before.step order sodium opts layout action = some after := taken
    cases action with
    | line input password outcome random =>
      rw [step_line taken]
      exact execute_represents _ sound
    | endOfInput =>
      rw [step_endOfInput taken]
      exact sound
    | crawler action =>
      obtain ⟨crawler, done, rfl⟩ := step_crawler taken
      obtain ⟨_, _, index⟩ := Crawler.step_files_pages action done
      exact index ▸ sound.addAll layout _

section Restore

variable {path password : Bytes} {outcome : WriteOutcome}
  {random : (n : Nat) → { bytes : Bytes // bytes.length = n }}

/-- A save that the shell called a success leaves a file that is loaded as the documents. -/
private theorem decoded_of_told (encrypted : Bool)
    (otherRandom : (n : Nat) → { bytes : Bytes // bytes.length = n })
    (told : (s.execute order { sodium with randombytes := random } opts layout password outcome
      (.saving encrypted path)).replies = s.replies ++ [.saved (.ok ())])
    (fits : FitsFormat (s.crawler.index.allDocuments order))
    (opens : encrypted = true → sodium.Opens) {disk : Disk}
    (kept : disk.lookup path = (s.execute order { sodium with randombytes := random } opts layout
      password outcome (.saving encrypted path)).disk.lookup path) :
    (if encrypted then
        loadEncryptedSnapshot { sodium with randombytes := otherRandom } 64 disk path password
      else loadSnapshot 64 disk path) =
      .ok ((s.crawler.index.allDocuments order).map Document.withoutId) := by
  have read := deserializeDocuments_serialize fits
  cases encrypted with
  | false =>
    have succeeded : (saveSnapshot s.disk outcome path
        (s.crawler.index.allDocuments order)).1 = .ok () := by
      have last := List.append_cancel_left told
      exact Reply.saved.inj (List.cons.inj last).1
    cases saveSnapshot_ok succeeded
    have stored : disk.lookup path =
        some (serializeDocuments (s.crawler.index.allDocuments order)) :=
      kept.trans (AList.lookup_insert _)
    simp only [Bool.false_eq_true, ↓reduceIte, loadSnapshot, stored]
    exact read
  | true =>
    by_cases empty : password = []
    · simp [Command.saving, Session.execute, empty, answer] at told
    · have executed : s.execute order { sodium with randombytes := random } opts layout password
          outcome (.saving true path) = { s with
            disk := (saveEncryptedSnapshot { sodium with randombytes := random } s.disk outcome
              path password (s.crawler.index.allDocuments order)).2 }.answer
            (.saved (saveEncryptedSnapshot { sodium with randombytes := random } s.disk outcome
              path password (s.crawler.index.allDocuments order)).1) := by
        simp only [Command.saving, ↓reduceIte, Session.execute, empty, Engine.saveEncrypted]
      rw [executed] at told kept
      have succeeded : (saveEncryptedSnapshot { sodium with randombytes := random } s.disk outcome
          path password (s.crawler.index.allDocuments order)).1 = .ok () := by
        have last := List.append_cancel_left told
        exact Reply.saved.inj (List.cons.inj last).1
      obtain ⟨rfl, init, key, derived⟩ := saveEncryptedSnapshot_ok succeeded
      have written := saveEncryptedSnapshot_written init s.disk path password
        (s.crawler.index.allDocuments order) derived
      have stored := kept.trans (congrArg (fun result => result.2.lookup path) written)
      -- Loading draws no random bytes.
      let reader := { sodium with randombytes := otherRandom }
      have ready : reader.init = true := init
      have loaded : loadEncryptedSnapshot reader 64 disk path password =
          deserializeDocuments 64 (serializeDocuments (s.crawler.index.allDocuments order)) :=
        loadEncryptedSnapshot_sealed ready (stored.trans (AList.lookup_insert _)) derived
          (random kSaltSize).2 (random kNonceSize).2 (length_serializeDocuments_lt fits)
          (opens rfl _ _ _ (random kNonceSize).2 key.2)
      exact loaded.trans read

private theorem execute_loading (encrypted : Bool) {docs : List Document}
    (decoded : (if encrypted then loadEncryptedSnapshot sodium 64 s.disk path password
      else loadSnapshot 64 s.disk path) = .ok docs) :
    s.execute order sodium opts layout password outcome (.loading encrypted path) =
      { s with
        crawler := { s.crawler with index := s.crawler.index.replaceAll layout docs }
        base := docs
        since := s.crawler.filed.length }.answer (.loaded (.ok ())) := by
  cases encrypted with
  | false =>
    simp only [Bool.false_eq_true, ↓reduceIte] at decoded
    simp only [Command.loading, Bool.false_eq_true, ↓reduceIte, Session.execute,
      Engine.loadState, decoded, afterLoad]
  | true =>
    simp only [↓reduceIte] at decoded
    simp only [Command.loading, ↓reduceIte, Session.execute, Engine.loadEncrypted, decoded,
      afterLoad]

end Restore

/-- A file that the shell says was saved, in either format, and that the user does not save
over, gives the index back later in the session, whatever was crawled, searched, saved and
loaded in between. The queries are answered as they were at the time of the save if and only if
the file lists documents that tie in the order of their ids. -/
theorem load_restores_save (D : Type) [Double D] (order : VisitOrder) (sodium : Sodium)
    (opts : CrawlerOptions) (layout : Layout) (bloom : BloomFilter) (clock : Int) (disk : Disk)
    (encrypted : Bool) (path password saveLine loadLine : Bytes) (outcome later : WriteOutcome)
    (random otherRandom : (n : Nat) → { bytes : Bytes // bytes.length = n })
    {s saved before loaded : Session}
    (reached : (machine order sodium opts layout).Reachable
      (start opts layout bloom clock disk) s)
    (saves : Command.parse saveLine = .saving encrypted path)
    (done : s.step order sodium opts layout (.line saveLine password outcome random) =
      some saved)
    (told : saved.replies = s.replies ++ [.saved (.ok ())])
    (between : (machine order sodium opts layout).Reaches (Spares path) saved before)
    (loads : Command.parse loadLine = .loading encrypted path)
    (finished : before.step order sodium opts layout
      (.line loadLine password later otherRandom) = some loaded)
    (fits : FitsFormat (s.crawler.index.allDocuments order))
    (opens : encrypted = true → sodium.Opens) :
    loaded.replies = before.replies ++ [.loaded (.ok ())] ∧
    loaded.crawler = { before.crawler with
      index := reloaded layout (s.crawler.index.allDocuments order) } ∧
    ∀ accumOrder loadedOrder,
      Engine.SearchesAlike D accumOrder loadedOrder s.crawler.index loaded.crawler.index ↔
        ∀ query, KeepsTies D s.crawler.index query (s.crawler.index.allDocuments order) := by
  have executed := step_line done
  have kept := disk_kept between
  rw [saves] at executed
  rw [executed] at told kept
  have decoded := decoded_of_told encrypted otherRandom told fits opens kept
  have result := step_line finished
  rw [loads, execute_loading encrypted decoded] at result
  rw [result]
  refine ⟨rfl, rfl, fun accumOrder loadedOrder => forall_congr' fun query => ?_⟩
  exact search_reloaded_iff (represents reached) order layout accumOrder loadedOrder query

/-- A session that has loaded a small file. -/
def reopened : Session :=
  (start Crawler.openOptions (fun _ => .stored) (.create (fun _ => 0) 64 1) 0 oneFile).execute
    .stored (.lockbox [] []) Crawler.openOptions (fun _ => .stored) [] .written
    (.loadState (ascii "f"))

/-- The documents of the small file. -/
def reopenedDocuments : List Document :=
  reopened.crawler.index.allDocuments .stored

/-- They are encrypted, encrypted again elsewhere, a crawl is started, and they are loaded. -/
theorem load_restores_save_reopened :
    ∃ loaded, (machine .stored .tagging Crawler.openOptions fun _ => .stored).Reachable
      (start Crawler.openOptions (fun _ => .stored) (.create (fun _ => 0) 64 1) 0 oneFile)
        loaded ∧
      loaded.crawler.index = reloaded (fun _ => .stored) reopenedDocuments ∧
      loaded.crawler.crawl.frontier.pending_ = 1 := by
  let sodium := Sodium.tagging
  have fits : FitsFormat reopenedDocuments := ⟨by decide +kernel, fun doc member =>
    ⟨by revert doc; decide +kernel, by revert doc; decide +kernel, by revert doc; decide +kernel,
      by revert doc; decide +kernel⟩⟩
  have reached : (machine .stored sodium Crawler.openOptions fun _ => .stored).Reachable
      (start Crawler.openOptions (fun _ => .stored) (.create (fun _ => 0) 64 1) 0 oneFile)
      reopened :=
    .step (plainLine (ascii "load-state f")) .refl trivial rfl
  let saved := reopened.execute .stored sodium Crawler.openOptions (fun _ => .stored)
    (ascii "pw") .written (.save (ascii "g"))
  have told : saved.replies = reopened.replies ++ [.saved (.ok ())] := by
    have ready : sodium.init = true := rfl
    have written := saveEncryptedSnapshot_written ready reopened.disk (ascii "g") (ascii "pw")
      reopenedDocuments rfl
    change reopened.replies ++ [.saved (saveEncryptedSnapshot sodium reopened.disk .written
      (ascii "g") (ascii "pw") reopenedDocuments).1] = _
    rw [written]
  let twice := saved.execute .stored sodium Crawler.openOptions (fun _ => .stored)
    (ascii "p") .written (.save (ascii "h"))
  let before := twice.execute .stored sodium Crawler.openOptions (fun _ => .stored)
    [] .written (.crawl (ascii "a"))
  have between : (machine .stored sodium Crawler.openOptions fun _ => .stored).Reaches
      (Spares (ascii "g")) saved before :=
    .step (plainLine (ascii "crawl a"))
      (.step (.line (ascii "save h") (ascii "p") .written sodium.randombytes) .refl
        (by decide : (Command.parse (ascii "save h")).writes ≠ some (ascii "g"))
        (rfl : _ = some twice))
      (by decide : (Command.parse (ascii "crawl a")).writes ≠ some (ascii "g")) rfl
  let loaded := before.execute .stored sodium Crawler.openOptions (fun _ => .stored)
    (ascii "pw") .written (.load (ascii "g"))
  have restored := load_restores_save ℝ .stored sodium Crawler.openOptions (fun _ => .stored)
    (.create (fun _ => 0) 64 1) 0 oneFile true (ascii "g") (ascii "pw") (ascii "save g")
    (ascii "load g") .written .written sodium.randombytes sodium.randombytes reached
    (by decide) (rfl : _ = some saved) told between (by decide) (rfl : _ = some loaded) fits
    fun _ => Sodium.tagging_opens
  refine ⟨loaded, .step (.line (ascii "load g") (ascii "pw") .written sodium.randombytes)
    (.trans (.step (.line (ascii "save g") (ascii "pw") .written sodium.randombytes) reached
      trivial rfl) between.reachable) trivial rfl, congrArg Crawler.index restored.2.1, ?_⟩
  rw [restored.2.1]
  decide +kernel

end Session

end ShadowSe

import Mathlib.Data.Nat.Digits.Defs
import ShadowSe.Storage.SnapshotCut

/-! Encrypted snapshots: a key derived from the password and a fresh salt, and a file
that holds the salt, the nonce and the sealed document set. -/

namespace ShadowSe

open Support

def kSaltSize : Nat := 16

def kNonceSize : Nat := 24

def kKeySize : Nat := 32

/-- `crypto_aead_xchacha20poly1305_ietf_ABYTES`. -/
def kTagSize : Nat := 16

/-- What is used of libsodium. Buffers are filled to their size, a sealed message is one
tag longer than the message, and derivation and opening can fail. -/
structure Sodium where
  init : Bool
  randombytes : (n : Nat) → { bytes : Bytes // bytes.length = n }
  argon2id : Bytes → Bytes → Option { key : Bytes // key.length = kKeySize }
  aeadEncrypt : (plaintext nonce key : Bytes) →
    { ciphertext : Bytes // ciphertext.length = plaintext.length + kTagSize }
  aeadDecrypt : (ciphertext nonce key : Bytes) → Option Bytes

structure EncryptedBlob where
  nonce : Bytes := []
  ciphertext : Bytes := []

/-- `CryptoBox`: a key, or none. -/
structure CryptoBox where
  key_ : Bytes := []

/-- The bytes of a number in memory, the lowest first, as on x86-64. -/
def leBytes : Nat → Nat → Bytes
  | 0, _ => []
  | size + 1, n => UInt8.ofNat (n % 256) :: leBytes size (n / 256)

def leValue (bytes : Bytes) : Nat :=
  Nat.ofDigits 256 (bytes.map UInt8.toNat)

variable (sodium : Sodium)

def randomBytes (n : Nat) : Bytes :=
  if n = 0 then [] else if sodium.init then (sodium.randombytes n).1 else []

namespace CryptoBox

def initialized (box : CryptoBox) : Bool :=
  !box.key_.isEmpty

def deriveFromPassword (password salt : Bytes) : CryptoBox :=
  if sodium.init then
    match sodium.argon2id password salt with
    | none => {}
    | some key => { key_ := key.1 }
  else {}

/-- The derivation with a fresh salt; the salt is handed out with an initialized box. -/
def deriveFresh (password : Bytes) : CryptoBox × Bytes :=
  let salt := randomBytes sodium kSaltSize
  if salt.length ≠ kSaltSize then ({}, [])
  else
    let box := deriveFromPassword sodium password salt
    (box, if box.initialized then salt else [])

def encrypt (box : CryptoBox) (plaintext : Bytes) : EncryptedBlob :=
  if !box.initialized || plaintext.isEmpty then {}
  else
    let nonce := randomBytes sodium kNonceSize
    if nonce.length ≠ kNonceSize then {}
    else { nonce, ciphertext := (sodium.aeadEncrypt plaintext nonce box.key_).1 }

def decrypt (box : CryptoBox) (blob : EncryptedBlob) : Option Bytes :=
  if !box.initialized || blob.nonce.length ≠ kNonceSize then none
  else if blob.ciphertext.length < kTagSize then none
  else sodium.aeadDecrypt blob.ciphertext blob.nonce box.key_

end CryptoBox

/-- The parts of an encrypted file in the order in which they are written. -/
def encryptedFile (salt : Bytes) (blob : EncryptedBlob) : Bytes :=
  kMagic ++ (salt ++ (blob.nonce ++ (leBytes 8 blob.ciphertext.length ++ blob.ciphertext)))

def saveEncryptedSnapshot (disk : Disk) (outcome : WriteOutcome) (path password : Bytes)
    (docs : List Document) : Except Bytes Unit × Disk :=
  let (box, salt) := CryptoBox.deriveFresh sodium password
  if !box.initialized || salt.length ≠ kSaltSize then
    (.error (ascii "key derivation failed (libsodium unavailable?)"), disk)
  else
    let plaintext := serializeDocuments docs
    let blob := box.encrypt sodium plaintext
    if blob.nonce.length ≠ kNonceSize || blob.ciphertext.isEmpty then
      (.error (ascii "encryption failed"), disk)
    else
      match outcome with
      | .cannotOpen => (.error (ascii "cannot open " ++ path ++ ascii " for writing"), disk)
      | .failed kept => (.error (ascii "failed to write " ++ path), disk.insert path kept)
      | .written => (.ok (), disk.insert path (encryptedFile salt blob))

def loadEncryptedSnapshot (w : Nat) (disk : Disk) (path password : Bytes) :
    Except Bytes (List Document) :=
  match disk.lookup path with
  | none => .error (ascii "cannot open " ++ path ++ ascii " for reading")
  | some file =>
    if file.length < kMagic.length + kSaltSize + kNonceSize + 8 then
      .error (ascii "file too short to be an encrypted snapshot")
    else if file.take kMagic.length ≠ kMagic then
      .error (ascii "not an encrypted Shadow SE snapshot (bad magic)")
    else
      let p := kMagic.length
      let salt := (file.drop p).take kSaltSize
      let p := p + kSaltSize
      let nonce := (file.drop p).take kNonceSize
      let p := p + kNonceSize
      let clen := leValue ((file.drop p).take 8)
      let p := p + 8
      if clen > file.length - p then .error (ascii "snapshot length field is inconsistent")
      else
        let ciphertext := (file.drop p).take clen
        let box := CryptoBox.deriveFromPassword sodium password salt
        if !box.initialized then .error (ascii "key derivation failed")
        else
          match box.decrypt sodium { nonce, ciphertext } with
          | none => .error (ascii "decryption failed (wrong password or tampered file)")
          | some plaintext => deserializeDocuments w plaintext

theorem length_leBytes (size n : Nat) : (leBytes size n).length = size := by
  induction size generalizing n with
  | zero => rfl
  | succ size ih => rw [leBytes, List.length_cons, ih]

theorem leValue_leBytes (size n : Nat) : leValue (leBytes size n) = n % 256 ^ size := by
  induction size generalizing n with
  | zero => simp [leBytes, leValue, Nat.mod_one]
  | succ size ih =>
    have byte : (UInt8.ofNat (n % 256)).toNat = n % 256 :=
      Nat.mod_eq_of_lt (Nat.mod_lt _ (by decide))
    have later := ih (n / 256)
    rw [leValue] at later ⊢
    rw [leBytes, List.map_cons, Nat.ofDigits_cons, later, byte, Nat.pow_succ', Nat.mod_mul]

variable {sodium}

/-- A file of the right shape is opened with its own salt, nonce and ciphertext. -/
theorem loadEncryptedSnapshot_file {w : Nat} {disk : Disk} {path password salt : Bytes}
    {blob : EncryptedBlob} (stored : disk.lookup path = some (encryptedFile salt blob))
    (saltSize : salt.length = kSaltSize) (nonceSize : blob.nonce.length = kNonceSize)
    (short : blob.ciphertext.length < 2 ^ 64) :
    loadEncryptedSnapshot sodium w disk path password =
      if !(CryptoBox.deriveFromPassword sodium password salt).initialized then
        .error (ascii "key derivation failed")
      else
        match (CryptoBox.deriveFromPassword sodium password salt).decrypt sodium blob with
        | none => .error (ascii "decryption failed (wrong password or tampered file)")
        | some plaintext => deserializeDocuments w plaintext := by
  have size := length_leBytes 8 blob.ciphertext.length
  have long : ¬ (encryptedFile salt blob).length < kMagic.length + kSaltSize + kNonceSize + 8 := by
    simp only [encryptedFile, List.length_append, saltSize, nonceSize, size]
    omega
  have left : (encryptedFile salt blob).length - (kMagic.length + kSaltSize + kNonceSize + 8) =
      blob.ciphertext.length := by
    simp only [encryptedFile, List.length_append, saltSize, nonceSize, size]
    omega
  have count : leValue (leBytes 8 blob.ciphertext.length) = blob.ciphertext.length := by
    rw [leValue_leBytes]
    exact Nat.mod_eq_of_lt short
  -- Each part starts where the one before it ends.
  have atSalt : (encryptedFile salt blob).drop kMagic.length =
      salt ++ (blob.nonce ++ (leBytes 8 blob.ciphertext.length ++ blob.ciphertext)) :=
    List.drop_left
  have atNonce : (encryptedFile salt blob).drop (kMagic.length + kSaltSize) =
      blob.nonce ++ (leBytes 8 blob.ciphertext.length ++ blob.ciphertext) := by
    rw [← List.drop_drop, atSalt, List.drop_left' saltSize]
  have atCount : (encryptedFile salt blob).drop (kMagic.length + kSaltSize + kNonceSize) =
      leBytes 8 blob.ciphertext.length ++ blob.ciphertext := by
    rw [← List.drop_drop, atNonce, List.drop_left' nonceSize]
  have atBody : (encryptedFile salt blob).drop (kMagic.length + kSaltSize + kNonceSize + 8) =
      blob.ciphertext := by
    rw [← List.drop_drop, atCount, List.drop_left' size]
  have magic : (encryptedFile salt blob).take kMagic.length = kMagic := List.take_left
  simp only [loadEncryptedSnapshot, stored, if_neg long, magic, atSalt, atNonce, atCount, atBody,
    left, List.take_left' saltSize, List.take_left' nonceSize, List.take_left' size, count,
    List.take_length, gt_iff_lt, lt_irrefl, ne_eq, not_true_eq_false, ↓reduceIte]

theorem loadEncryptedSnapshot_opened {w : Nat} {disk : Disk} {path password : Bytes}
    {docs : List Document} (loaded : loadEncryptedSnapshot sodium w disk path password = .ok docs) :
    ∃ ciphertext nonce key plaintext, sodium.aeadDecrypt ciphertext nonce key = some plaintext ∧
      deserializeDocuments w plaintext = .ok docs := by
  unfold loadEncryptedSnapshot at loaded
  dsimp only at loaded
  split at loaded
  · cases loaded
  split at loaded
  · cases loaded
  split at loaded
  · cases loaded
  split at loaded
  · cases loaded
  split at loaded
  · cases loaded
  split at loaded
  · cases loaded
  · rename_i decrypted
    unfold CryptoBox.decrypt at decrypted
    split at decrypted
    · cases decrypted
    split at decrypted
    · cases decrypted
    · exact ⟨_, _, _, _, decrypted, loaded⟩

/-- The library starts, and keys are derived from every password and salt. -/
structure Sodium.Derives (sodium : Sodium) : Prop where
  init : sodium.init = true
  key : ∀ password salt, ∃ key, sodium.argon2id password salt = some key

/-- Decryption succeeds on nothing but what was sealed under this password with this salt
and nonce, and returns the message. -/
def Sodium.OpensOnlySealed (sodium : Sodium) (password plaintext : Bytes) : Prop :=
  ∀ key, sodium.argon2id password (sodium.randombytes kSaltSize).1 = some key →
    ∀ ciphertext nonce other, sodium.aeadDecrypt ciphertext nonce other =
      if other = key.1 ∧ nonce = (sodium.randombytes kNonceSize).1 ∧
          ciphertext = (sodium.aeadEncrypt plaintext nonce key.1).1 then some plaintext
      else none

/-- Opening what was sealed under a nonce and a key gives the message back. -/
def Sodium.Opens (sodium : Sodium) : Prop :=
  ∀ plaintext nonce key : Bytes, nonce.length = kNonceSize → key.length = kKeySize →
    sodium.aeadDecrypt (sodium.aeadEncrypt plaintext nonce key).1 nonce key = some plaintext

theorem randomBytes_eq (init : sodium.init = true) {n : Nat} (positive : n ≠ 0) :
    randomBytes sodium n = (sodium.randombytes n).1 := by
  rw [randomBytes, if_neg positive, if_pos init]

theorem CryptoBox.initialized_of_length {box : CryptoBox} (size : box.key_.length = kKeySize) :
    box.initialized = true := by
  cases shape : box.key_ with
  | nil => simp [shape, kKeySize] at size
  | cons => simp [initialized, shape]

theorem CryptoBox.decrypt_eq (key : { key : Bytes // key.length = kKeySize }) {blob : EncryptedBlob}
    (nonceSize : blob.nonce.length = kNonceSize) (tagged : kTagSize ≤ blob.ciphertext.length) :
    (CryptoBox.mk key.1).decrypt sodium blob =
      sodium.aeadDecrypt blob.ciphertext blob.nonce key.1 := by
  have ready : (CryptoBox.mk key.1).initialized = true := initialized_of_length key.2
  simp [decrypt, ready, nonceSize, Nat.not_lt.mpr tagged]

section Saved

variable (init : sodium.init = true)

include init

theorem CryptoBox.deriveFromPassword_eq {password salt : Bytes}
    {key : { key : Bytes // key.length = kKeySize }}
    (derived : sodium.argon2id password salt = some key) :
    deriveFromPassword sodium password salt = ⟨key.1⟩ := by
  simp [deriveFromPassword, init, derived]

theorem CryptoBox.deriveFresh_eq (password : Bytes) :
    deriveFresh sodium password =
      let box := deriveFromPassword sodium password (sodium.randombytes kSaltSize).1
      (box, if box.initialized then (sodium.randombytes kSaltSize).1 else []) := by
  have salt : randomBytes sodium kSaltSize = (sodium.randombytes kSaltSize).1 :=
    randomBytes_eq init (by decide)
  have saltSize := (sodium.randombytes kSaltSize).2
  simp [deriveFresh, salt, saltSize]

theorem CryptoBox.encrypt_eq (key : { key : Bytes // key.length = kKeySize }) {plaintext : Bytes}
    (nonempty : plaintext.isEmpty = false) :
    (CryptoBox.mk key.1).encrypt sodium plaintext = ⟨(sodium.randombytes kNonceSize).1,
      (sodium.aeadEncrypt plaintext (sodium.randombytes kNonceSize).1 key.1).1⟩ := by
  have nonce : randomBytes sodium kNonceSize = (sodium.randombytes kNonceSize).1 :=
    randomBytes_eq init (by decide)
  have size := (sodium.randombytes kNonceSize).2
  have ready : (CryptoBox.mk key.1).initialized = true := initialized_of_length key.2
  simp [encrypt, ready, nonempty, nonce, size]

/-- What a save that reaches the disk writes there. -/
theorem saveEncryptedSnapshot_written (disk : Disk) (path password : Bytes)
    (docs : List Document) {key : { key : Bytes // key.length = kKeySize }}
    (derived : sodium.argon2id password (sodium.randombytes kSaltSize).1 = some key) :
    saveEncryptedSnapshot sodium disk .written path password docs =
      (.ok (), disk.insert path (encryptedFile (sodium.randombytes kSaltSize).1
        ⟨(sodium.randombytes kNonceSize).1, (sodium.aeadEncrypt (serializeDocuments docs)
          (sodium.randombytes kNonceSize).1 key.1).1⟩)) := by
  have saltSize := (sodium.randombytes kSaltSize).2
  have ready : (CryptoBox.mk key.1).initialized = true :=
    CryptoBox.initialized_of_length key.2
  have fresh : CryptoBox.deriveFresh sodium password =
      (⟨key.1⟩, (sodium.randombytes kSaltSize).1) := by
    simp [CryptoBox.deriveFresh_eq init, CryptoBox.deriveFromPassword_eq init derived, ready]
  have nonempty : (serializeDocuments docs).isEmpty = false := rfl
  have sealed := CryptoBox.encrypt_eq init key nonempty
  have nonceSize := (sodium.randombytes kNonceSize).2
  have tagged := (sodium.aeadEncrypt (serializeDocuments docs)
    (sodium.randombytes kNonceSize).1 key.1).2
  have some : (sodium.aeadEncrypt (serializeDocuments docs)
      (sodium.randombytes kNonceSize).1 key.1).1.isEmpty = false := by
    rw [List.isEmpty_eq_false_iff, ← List.length_pos_iff, tagged]
    exact Nat.succ_pos _
  simp [saveEncryptedSnapshot, fresh, ready, saltSize, sealed, nonceSize, some]

/-- A message sealed into a file is read from it under its password. -/
theorem loadEncryptedSnapshot_sealed {w : Nat} {disk : Disk} {path password salt nonce : Bytes}
    {plaintext : Bytes} {key : { key : Bytes // key.length = kKeySize }}
    (stored : disk.lookup path = some (encryptedFile salt
      ⟨nonce, (sodium.aeadEncrypt plaintext nonce key.1).1⟩))
    (derived : sodium.argon2id password salt = some key)
    (saltSize : salt.length = kSaltSize) (nonceSize : nonce.length = kNonceSize)
    (small : plaintext.length < 2 ^ 63)
    (opens : sodium.aeadDecrypt (sodium.aeadEncrypt plaintext nonce key.1).1 nonce key.1 =
      some plaintext) :
    loadEncryptedSnapshot sodium w disk path password = deserializeDocuments w plaintext := by
  have tagged := (sodium.aeadEncrypt plaintext nonce key.1).2
  have short : (sodium.aeadEncrypt plaintext nonce key.1).1.length < 2 ^ 64 := by
    rw [tagged, kTagSize]
    omega
  have long := Nat.le.intro ((Nat.add_comm _ _).trans tagged.symm)
  have ready : (CryptoBox.mk key.1).initialized = true := CryptoBox.initialized_of_length key.2
  rw [loadEncryptedSnapshot_file stored saltSize nonceSize short,
    CryptoBox.deriveFromPassword_eq init derived, ready, if_neg (by decide),
    CryptoBox.decrypt_eq key nonceSize long, opens]

end Saved

/-- Success is reported only of a file that was written to its end, under a derived key. -/
theorem saveEncryptedSnapshot_ok {disk : Disk} {outcome : WriteOutcome} {path password : Bytes}
    {docs : List Document}
    (told : (saveEncryptedSnapshot sodium disk outcome path password docs).1 = .ok ()) :
    outcome = .written ∧ sodium.init = true ∧
      ∃ key, sodium.argon2id password (sodium.randombytes kSaltSize).1 = some key := by
  by_cases ready : (CryptoBox.deriveFresh sodium password).1.initialized = true
  · have init : sodium.init = true := by
      by_contra down
      simp [CryptoBox.deriveFresh, CryptoBox.deriveFromPassword, down,
        CryptoBox.initialized, randomBytes] at ready
    refine ⟨?_, init, ?_⟩
    · unfold saveEncryptedSnapshot at told
      dsimp only at told
      split at told
      · cases told
      split at told
      · cases told
      cases outcome with
      | cannotOpen => cases told
      | failed kept => cases told
      | written => rfl
    · rw [CryptoBox.deriveFresh_eq init] at ready
      dsimp only at ready
      unfold CryptoBox.deriveFromPassword at ready
      cases derived : sodium.argon2id password (sodium.randombytes kSaltSize).1 with
      | none => simp [init, derived, CryptoBox.initialized] at ready
      | some key => exact ⟨key, rfl⟩
  · simp [saveEncryptedSnapshot, ready] at told

/-- What was saved is loaded back without ids, and whatever else stands in a file, loading
it with the same password fails or gives the same documents. -/
theorem loadEncryptedSnapshot_only_saved (derives : sodium.Derives) (disk : Disk)
    (path password : Bytes) {docs : List Document} (fits : FitsFormat docs)
    (authentic : sodium.OpensOnlySealed password (serializeDocuments docs)) :
    (saveEncryptedSnapshot sodium disk .written path password docs).1 = .ok () ∧
      loadEncryptedSnapshot sodium 64
          (saveEncryptedSnapshot sodium disk .written path password docs).2 path password =
        .ok (docs.map Document.withoutId) ∧
      ∀ (other : Disk) (file : Bytes), (∃ err,
          loadEncryptedSnapshot sodium 64 other file password = .error err) ∨
        loadEncryptedSnapshot sodium 64 other file password =
          .ok (docs.map Document.withoutId) := by
  obtain ⟨key, derived⟩ := derives.key password (sodium.randombytes kSaltSize).1
  have opens := authentic key derived
  have read := deserializeDocuments_serialize fits
  rw [saveEncryptedSnapshot_written derives.init disk path password docs derived]
  refine ⟨rfl, ?_, fun other file => ?_⟩
  · rw [loadEncryptedSnapshot_sealed derives.init (AList.lookup_insert _) derived
      (sodium.randombytes kSaltSize).2 (sodium.randombytes kNonceSize).2
      (length_serializeDocuments_lt fits) (by rw [opens, if_pos ⟨rfl, rfl, rfl⟩])]
    exact read
  · cases loaded : loadEncryptedSnapshot sodium 64 other file password with
    | error err => exact .inl ⟨err, rfl⟩
    | ok found =>
      obtain ⟨ciphertext, nonce, used, plaintext, opened, parsed⟩ :=
        loadEncryptedSnapshot_opened loaded
      rw [opens] at opened
      split at opened
      · cases Option.some.inj opened
        exact .inr (parsed.symm.trans read)
      · cases opened

/-- A key that starts with the password and the salt. -/
def Sodium.lockboxKey (password salt : Bytes) : { key : Bytes // key.length = kKeySize } :=
  ⟨(password ++ salt ++ List.replicate kKeySize 0).take kKeySize, by simp; omega⟩

/-- A library that seals by appending a tag and opens one message only. -/
def Sodium.lockbox (password plaintext : Bytes) : Sodium where
  init := true
  randombytes n := ⟨List.replicate n 7, by simp⟩
  argon2id password salt := some (lockboxKey password salt)
  aeadEncrypt plaintext _ _ := ⟨plaintext ++ List.replicate kTagSize 5, by simp⟩
  aeadDecrypt ciphertext nonce key :=
    if key = (lockboxKey password (List.replicate kSaltSize 7)).1 ∧
        nonce = List.replicate kNonceSize 7 ∧
        ciphertext = plaintext ++ List.replicate kTagSize 5 then some plaintext
    else none

theorem Sodium.lockbox_derives (password plaintext : Bytes) :
    (lockbox password plaintext).Derives := by
  refine ⟨rfl, fun other salt => ?_⟩
  exact ⟨_, rfl⟩

theorem loadEncryptedSnapshot_only_saved_onion :
    let docs : List Document := [{ id := 4, url := ascii "http://a.onion/", source := .onion }]
    let sodium := Sodium.lockbox (ascii "pw") (serializeDocuments docs)
    (saveEncryptedSnapshot sodium ∅ .written (ascii "f") (ascii "pw") docs).1 = .ok () ∧
      loadEncryptedSnapshot sodium 64
          (saveEncryptedSnapshot sodium ∅ .written (ascii "f") (ascii "pw") docs).2 (ascii "f")
          (ascii "pw") = .ok (docs.map Document.withoutId) ∧
      ∀ (other : Disk) (file : Bytes), (∃ err,
          loadEncryptedSnapshot sodium 64 other file (ascii "pw") = .error err) ∨
        loadEncryptedSnapshot sodium 64 other file (ascii "pw") =
          .ok (docs.map Document.withoutId) := by
  intro docs sodium
  have fits : FitsFormat docs := ⟨by decide, fun d member => ⟨by revert d; decide,
    by revert d; decide, by revert d; decide, by revert d; decide⟩⟩
  refine loadEncryptedSnapshot_only_saved (Sodium.lockbox_derives _ _) ∅ (ascii "f") (ascii "pw")
    fits ?_
  rintro key derived ciphertext nonce other
  cases Option.some.inj derived
  rfl

end ShadowSe

import UaCrypt.Secretstream.PushPull
import UaCrypt.Lib.Chunks

/-!
# Secret-key boxes (`crypto_secretbox.rs`)

A sealed box is a version byte, a nonce, the Kalyna-GCM ciphertext and 16 bytes of its
tag. The version, the nonce and the length are in the AAD. The nonce is drawn by the
caller's source of randomness, which may fail.

- `openSealed_blob`: opening, with the box split into its parts.
- `secretbox_format`: sealing gives 49 bytes more than the message; a box opens to `p`
  exactly when it is what sealing `p` under some nonce gives; each error has its cause.
-/

namespace UaCrypt.CryptoSecretbox

open LittleEndian Chunks Hazmat Hazmat.KalynaGcm Secretstream

/-- `FORMAT_VERSION`. -/
def formatVersion : UInt8 := 2

/-- `NONCE_LEN`. -/
@[reducible] def nonceLen : Nat := 32

/-- `HEADER_LEN`. -/
def headerLen : Nat := 1 + nonceLen

/-- `TAG_LEN`. -/
def tagLen : Nat := 16

inductive SecretboxError where
  | truncated
  | tagMismatch
  | unsupportedVersion
  | random
  deriving DecidableEq, Repr

/-- `version || nonce || ciphertext_len as u64 LE`. -/
def aad (nonce : Vector UInt8 nonceLen) (ciphertextLen : Nat) : Vector UInt8 41 :=
  (#v[formatVersion] ++ nonce) ++ toLeBytes (UInt64.ofNat ciphertextLen)

variable (b : Build) (key : Vector UInt8 32)

/-- `seal`, with the nonce drawn. -/
def sealPlaintext (nonce : Option (Vector UInt8 nonceLen)) (plaintext : List UInt8) :
    Outcome SecretboxError (List UInt8) :=
  match nonce with
  | none => .err .random
  | some nonce =>
    match gcmEncrypt b key nonce (aad nonce plaintext.length).toList plaintext
      (List.replicate plaintext.length 0) with
    -- `unreachable!`, though a message of 2^61 bytes or more gets here
    | (.error _, _) => .panic
    | (.ok fullTag, buf) =>
      .ok (formatVersion :: (nonce.toList ++ buf ++ fullTag.toList.take tagLen))

/-- `open`. -/
def openSealed (sealed : List UInt8) : Outcome SecretboxError (List UInt8) :=
  if sealed.length < headerLen + tagLen then .err .truncated
  else if sealed.head? ≠ some formatVersion then .err .unsupportedVersion
  else
    let nonce := overwrite (Vector.replicate nonceLen 0) ((sealed.drop 1).take nonceLen)
    let ciphertextLen := sealed.length - headerLen - tagLen
    let ciphertext := (sealed.drop headerLen).take ciphertextLen
    let tag := sealed.drop (headerLen + ciphertextLen)
    match gcmDecrypt b key nonce (aad nonce ciphertextLen).toList ciphertext tag
      (List.replicate ciphertextLen 0) with
    | (.error .tagMismatch, _) => .err .tagMismatch
    | (.error .invalidLength, _) => .panic
    | (.error .emptyInput, _) => .panic
    | (.ok (), buf) => .ok buf

/-- A box from its parts. -/
def blob (nonce : Vector UInt8 nonceLen) (ciphertext tag : List UInt8) : List UInt8 :=
  formatVersion :: (nonce.toList ++ ciphertext ++ tag)

theorem length_blob (nonce : Vector UInt8 nonceLen) (ciphertext tag : List UInt8) :
    (blob nonce ciphertext tag).length = headerLen + ciphertext.length + tag.length := by
  simp [blob, headerLen]
  omega

/-- What is long enough and has the version byte has the parts. -/
theorem exists_blob {sealed : List UInt8} (hlen : headerLen + tagLen ≤ sealed.length)
    (hversion : sealed.head? = some formatVersion) :
    ∃ nonce ciphertext tag, tag.length = tagLen ∧ sealed = blob nonce ciphertext tag := by
  cases sealed with
  | nil => cases hversion
  | cons version rest =>
    cases hversion
    rw [List.length_cons, headerLen] at hlen
    have hnonce : (rest.take nonceLen).length = nonceLen := by
      rw [List.length_take]
      omega
    refine ⟨overwrite (Vector.replicate nonceLen 0) (rest.take nonceLen),
      (rest.drop nonceLen).take (rest.length - nonceLen - tagLen),
      (rest.drop nonceLen).drop (rest.length - nonceLen - tagLen), ?_, ?_⟩
    · rw [List.length_drop, List.length_drop]
      omega
    · rw [blob, toList_overwrite_of_length _ hnonce, List.append_assoc, List.take_append_drop,
        List.take_append_drop]

theorem admissible_aad (nonce : Vector UInt8 nonceLen) (len : Nat) {data : List UInt8}
    (h : data.length * 8 < 2 ^ 64) : Admissible (aad nonce len).toList data where
  not_both_empty := fun hboth => by
    have hlen := congrArg List.length hboth.1
    rw [Vector.length_toList, List.length_nil] at hlen
    exact absurd hlen (by decide)
  aad_fits := by
    rw [Vector.length_toList]
    decide
  data_fits := h

/-- Opening a box of the right shape. -/
theorem openSealed_blob (nonce : Vector UInt8 nonceLen) (ciphertext : List UInt8)
    {tag : List UInt8} (htag : tag.length = tagLen) :
    openSealed b key (blob nonce ciphertext tag)
      = match gcmDecrypt b key nonce (aad nonce ciphertext.length).toList ciphertext tag
          (List.replicate ciphertext.length 0) with
        | (.error .tagMismatch, _) => .err .tagMismatch
        | (.error .invalidLength, _) => .panic
        | (.error .emptyInput, _) => .panic
        | (.ok (), buf) => .ok buf := by
  have hlong : ¬(blob nonce ciphertext tag).length < headerLen + tagLen := by
    rw [length_blob, htag]
    omega
  have hversion : ¬(blob nonce ciphertext tag).head? ≠ some formatVersion := by simp [blob]
  have hnonce : overwrite (Vector.replicate nonceLen 0)
      (((blob nonce ciphertext tag).drop 1).take nonceLen) = nonce := by
    apply Vector.toList_inj.mp
    rw [blob, List.drop_one, List.tail_cons, List.append_assoc,
      List.take_left' (Vector.length_toList), toList_overwrite_of_length _ Vector.length_toList]
  have hsize : (blob nonce ciphertext tag).length - headerLen - tagLen = ciphertext.length := by
    rw [length_blob, htag]
    omega
  have hfront : (formatVersion :: nonce.toList).length = headerLen := by
    rw [List.length_cons, Vector.length_toList, headerLen, Nat.add_comm]
  have hblob : blob nonce ciphertext tag
      = (formatVersion :: nonce.toList) ++ (ciphertext ++ tag) := by
    rw [blob, List.append_assoc, List.cons_append]
  have hct : ((blob nonce ciphertext tag).drop headerLen).take ciphertext.length = ciphertext := by
    rw [hblob, List.drop_left' hfront, List.take_left]
  have hrest : (blob nonce ciphertext tag).drop (headerLen + ciphertext.length) = tag := by
    rw [hblob, ← List.drop_drop, List.drop_left' hfront, List.drop_left]
  rw [openSealed, if_neg hlong, if_neg hversion]
  simp only [hnonce, hsize, hct, hrest]

/-- Sealing, where the message is short enough for the cipher, and where it is not. -/
theorem sealPlaintext_eq_ok_iff {nonce : Vector UInt8 nonceLen} {plaintext sealed : List UInt8} :
    sealPlaintext b key (some nonce) plaintext = .ok sealed
      ↔ ∃ fullTag ciphertext, gcmEncrypt b key nonce (aad nonce plaintext.length).toList plaintext
          (List.replicate plaintext.length 0) = (.ok fullTag, ciphertext)
        ∧ sealed = blob nonce ciphertext (fullTag.toList.take tagLen) := by
  rw [sealPlaintext]
  constructor
  · intro h
    split at h
    · cases h
    · rename_i fullTag buf henc
      cases h
      exact ⟨fullTag, buf, henc, rfl⟩
  · rintro ⟨fullTag, ciphertext, henc, rfl⟩
    simp only [henc]
    rfl

theorem length_take_tagLen (tag : Vector UInt8 32) : (tag.toList.take tagLen).length = tagLen := by
  rw [List.length_take, Vector.length_toList]
  rfl

/-- Sealing and opening read the cipher the same way. -/
theorem openSealed_blob_eq_ok_iff {nonce : Vector UInt8 nonceLen} {ciphertext tag : List UInt8}
    (htag : tag.length = tagLen) {plaintext : List UInt8} :
    openSealed b key (blob nonce ciphertext tag) = .ok plaintext
      ↔ ∃ fullTag, gcmEncrypt b key nonce (aad nonce plaintext.length).toList plaintext
          (List.replicate plaintext.length 0) = (.ok fullTag, ciphertext)
        ∧ tag = fullTag.toList.take tagLen := by
  rw [openSealed_blob b key nonce ciphertext htag]
  constructor
  · intro h
    split at h
    · cases h
    · cases h
    · cases h
    · rename_i buf hdec
      cases h
      obtain ⟨-, full, henc, htrunc⟩ := (Gcm.decrypt_eq_ok_iff_encrypt b _ _).mp hdec
      obtain ⟨⟨hlen, -⟩, -⟩ := (Gcm.encrypt_eq_ok_iff b _ _).mp henc
      rw [List.length_replicate] at hlen
      rw [hlen] at henc
      rw [htag] at htrunc
      exact ⟨full, henc, htrunc⟩
  · rintro ⟨full, henc, rfl⟩
    obtain ⟨⟨hlen, -⟩, hct, -⟩ := (Gcm.encrypt_eq_ok_iff b _ _).mp henc
    have hsize : ciphertext.length = plaintext.length := by
      rw [hct, Gcm.length_applyKeystream]
    have hdec : gcmDecrypt b key nonce (aad nonce ciphertext.length).toList ciphertext
        (full.toList.take tagLen) (List.replicate ciphertext.length 0) = (.ok (), plaintext) := by
      rw [hsize]
      exact Gcm.decrypt_of_encrypt b _ _ henc (by decide) (by rw [List.length_replicate, hsize])
    rw [hdec]

theorem openSealed_short {sealed : List UInt8} (h : sealed.length < headerLen + tagLen) :
    openSealed b key sealed = .err .truncated := by
  rw [openSealed, if_pos h]

theorem openSealed_foreign {sealed : List UInt8} (h : headerLen + tagLen ≤ sealed.length)
    (hversion : sealed.head? ≠ some formatVersion) :
    openSealed b key sealed = .err .unsupportedVersion := by
  rw [openSealed, if_neg (Nat.not_lt.mpr h), if_pos hversion]

/-- A box of the right shape opens, or has a wrong tag, or is too long for the cipher. -/
theorem openSealed_blob_cases (nonce : Vector UInt8 nonceLen) (ciphertext : List UInt8)
    {tag : List UInt8} (htag : tag.length = tagLen) :
    (∃ plaintext, openSealed b key (blob nonce ciphertext tag) = .ok plaintext)
      ∨ openSealed b key (blob nonce ciphertext tag) = .err .tagMismatch
      ∨ (openSealed b key (blob nonce ciphertext tag) = .panic
        ∧ ¬ciphertext.length * 8 < 2 ^ 64) := by
  rw [openSealed_blob b key nonce ciphertext htag]
  have hbuf : (List.replicate ciphertext.length (0 : UInt8)).length = ciphertext.length :=
    List.length_replicate
  have hadm : ciphertext.length * 8 < 2 ^ 64 →
      gcmDecrypt b key nonce (aad nonce ciphertext.length).toList ciphertext tag
          (List.replicate ciphertext.length 0)
        = if ((Gcm.new b .kalyna256_256 key).fullTag b (aad nonce ciphertext.length).toList
            ciphertext).toList.take tag.length = tag then
            (.ok (), (Gcm.new b .kalyna256_256 key).applyKeystream b nonce ciphertext)
          else (.error .tagMismatch,
            List.replicate (List.replicate ciphertext.length (0 : UInt8)).length 0) := fun h =>
    Gcm.decrypt_of_admissible b _ _ (by rw [htag]; decide) hbuf (admissible_aad nonce _ h)
  by_cases hlen : ciphertext.length * 8 < 2 ^ 64
  · rw [hadm hlen]
    by_cases htake : ((Gcm.new b .kalyna256_256 key).fullTag b (aad nonce ciphertext.length).toList
        ciphertext).toList.take tag.length = tag
    · rw [if_pos htake]
      exact Or.inl ⟨_, rfl⟩
    · rw [if_neg htake]
      exact Or.inr (Or.inl rfl)
  · have hbad : ¬((8 ≤ tag.length ∧ tag.length ≤ Kalyna.Variant.blockBytes .kalyna256_256)
        ∧ (List.replicate ciphertext.length (0 : UInt8)).length = ciphertext.length
        ∧ Admissible (aad nonce ciphertext.length).toList ciphertext) :=
      fun h => hlen h.2.2.data_fits
    obtain ⟨e, hne, he⟩ := Gcm.decrypt_of_not_admissible b (Gcm.new b .kalyna256_256 key) nonce hbad
    rw [gcmDecrypt, he]
    cases e with
    | tagMismatch => exact absurd rfl hne
    | invalidLength => exact Or.inr (Or.inr ⟨rfl, hlen⟩)
    | emptyInput => exact Or.inr (Or.inr ⟨rfl, hlen⟩)

/-- The only error for a box of the right shape. -/
theorem eq_tagMismatch_of_openSealed_blob {nonce : Vector UInt8 nonceLen}
    {ciphertext tag : List UInt8} (htag : tag.length = tagLen) {e : SecretboxError}
    (h : openSealed b key (blob nonce ciphertext tag) = .err e) : e = .tagMismatch := by
  rcases openSealed_blob_cases b key nonce ciphertext htag with ⟨plaintext, hopen⟩ | hopen |
    ⟨hopen, -⟩
  · rw [hopen] at h
    cases h
  · rw [hopen] at h
    cases h
    rfl
  · rw [hopen] at h
    cases h

/-- The three shapes a byte string can have: too short, of another version, a box. -/
theorem shape_cases (sealed : List UInt8) : sealed.length < 49
    ∨ (49 ≤ sealed.length ∧ sealed.head? ≠ some 2)
    ∨ (49 ≤ sealed.length ∧ sealed.head? = some 2 ∧ ∃ nonce ciphertext tag,
      tag.length = tagLen ∧ sealed = blob nonce ciphertext tag) := by
  by_cases hlen : sealed.length < 49
  · exact Or.inl hlen
  · have hle : headerLen + tagLen ≤ sealed.length := Nat.not_lt.mp hlen
    by_cases hversion : sealed.head? = some 2
    · exact Or.inr (Or.inr ⟨hle, hversion, exists_blob hle hversion⟩)
    · exact Or.inr (Or.inl ⟨hle, hversion⟩)

/-- **The format.** Sealing a message the cipher takes (below `2^61` bytes) succeeds with
49 bytes more; a byte string opens to `p` exactly when sealing `p` under some nonce gives
that very string; a string is `Truncated` exactly below 49 bytes and `UnsupportedVersion`
exactly when it is no shorter and starts with another byte; and below `2^61` bytes
everything else that does not open is a tag mismatch. -/
theorem secretbox_format (b : Build) (key : Vector UInt8 32) :
    (∀ nonce plaintext, plaintext.length * 8 < 2 ^ 64 →
      ∃ sealed, sealPlaintext b key (some nonce) plaintext = .ok sealed
        ∧ sealed.length = plaintext.length + 49)
    ∧ (∀ sealed plaintext, openSealed b key sealed = .ok plaintext
        ↔ ∃ nonce, sealPlaintext b key (some nonce) plaintext = .ok sealed)
    ∧ (∀ sealed, openSealed b key sealed = .err .truncated ↔ sealed.length < 49)
    ∧ (∀ sealed, openSealed b key sealed = .err .unsupportedVersion
        ↔ 49 ≤ sealed.length ∧ sealed.head? ≠ some 2)
    ∧ (∀ sealed, sealed.length * 8 < 2 ^ 64 → 49 ≤ sealed.length → sealed.head? = some 2 →
        openSealed b key sealed = .err .tagMismatch
          ∨ ∃ plaintext, openSealed b key sealed = .ok plaintext) := by
  refine ⟨?_, ?_, ?_, ?_, ?_⟩
  · intro nonce plaintext hlen
    have hbuf : (List.replicate plaintext.length (0 : UInt8)).length = plaintext.length :=
      List.length_replicate
    have henc := Gcm.encrypt_of_admissible b (Gcm.new b .kalyna256_256 key) nonce hbuf
      (admissible_aad nonce plaintext.length hlen)
    refine ⟨_, (sealPlaintext_eq_ok_iff b key).mpr ⟨_, _, henc, rfl⟩, ?_⟩
    rw [length_blob, Gcm.length_applyKeystream, length_take_tagLen]
    simp only [headerLen, tagLen, nonceLen]
    omega
  · intro sealed plaintext
    constructor
    · intro h
      rcases shape_cases sealed with hshort | ⟨hlen, hversion⟩ |
        ⟨-, -, nonce, ciphertext, tag, htag, rfl⟩
      · rw [openSealed_short b key hshort] at h
        cases h
      · rw [openSealed_foreign b key hlen hversion] at h
        cases h
      · obtain ⟨full, henc, rfl⟩ := (openSealed_blob_eq_ok_iff b key htag).mp h
        exact ⟨nonce, (sealPlaintext_eq_ok_iff b key).mpr ⟨full, ciphertext, henc, rfl⟩⟩
    · rintro ⟨nonce, h⟩
      obtain ⟨full, ciphertext, henc, rfl⟩ := (sealPlaintext_eq_ok_iff b key).mp h
      exact (openSealed_blob_eq_ok_iff b key (length_take_tagLen full)).mpr ⟨full, henc, rfl⟩
  · intro sealed
    rcases shape_cases sealed with hshort | ⟨hlen, hversion⟩ |
      ⟨hlen, -, nonce, ciphertext, tag, htag, rfl⟩
    · exact ⟨fun _ => hshort, fun _ => openSealed_short b key hshort⟩
    · refine ⟨fun h => ?_, fun h => absurd h (Nat.not_lt.mpr hlen)⟩
      rw [openSealed_foreign b key hlen hversion] at h
      cases h
    · refine ⟨fun h => ?_, fun h => absurd h (Nat.not_lt.mpr hlen)⟩
      cases eq_tagMismatch_of_openSealed_blob b key htag h
  · intro sealed
    rcases shape_cases sealed with hshort | ⟨hlen, hversion⟩ |
      ⟨-, hversion, nonce, ciphertext, tag, htag, rfl⟩
    · refine ⟨fun h => ?_, fun h => absurd hshort (Nat.not_lt.mpr h.1)⟩
      rw [openSealed_short b key hshort] at h
      cases h
    · exact ⟨fun _ => ⟨hlen, hversion⟩, fun _ => openSealed_foreign b key hlen hversion⟩
    · refine ⟨fun h => ?_, fun h => absurd hversion h.2⟩
      cases eq_tagMismatch_of_openSealed_blob b key htag h
  · intro sealed hbits hlen hversion
    obtain ⟨nonce, ciphertext, tag, htag, rfl⟩ := exists_blob hlen hversion
    rcases openSealed_blob_cases b key nonce ciphertext htag with hp | hp | ⟨-, hlong⟩
    · exact Or.inr hp
    · exact Or.inl hp
    · -- what the cipher refuses is longer than the bound of the statement
      rw [length_blob] at hbits
      omega

end UaCrypt.CryptoSecretbox

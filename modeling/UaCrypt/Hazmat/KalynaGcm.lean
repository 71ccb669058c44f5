import UaCrypt.Hazmat.Gf2mWide
import UaCrypt.Hazmat.Kalyna
import UaCrypt.Lib.Chunks
import UaCrypt.Lib.Keystream

/-!
# Kalyna-GCM (`hazmat/kalyna_gcm.rs`)

The galois/counter mode over all five variants: double-encrypted counter, Horner
accumulation over padded AAD and ciphertext, a tag that encrypts the accumulator
XORed with the length block.

A function that writes into a caller's buffer takes the buffer's old contents and
returns, beside its result, the contents it leaves.

- `encrypt_eq_ok_iff`, `decrypt_eq_ok_iff`: exactly when the two succeed, and with
  what.
- `gcm_contract`: decryption accepts exactly what encryption produces, with what
  each failure leaves in the buffer.
-/

namespace UaCrypt.Hazmat

/-- What is fixed when the crate is built and started: the resource profile, and
whether the carry-less multiply instruction is used. -/
structure Build where
  profile : Tables.Profile
  clmul : Bool

/-- `checked_bit_len`: the bit length of `bytes` bytes, if it fits a `u64`. -/
def checkedBitLen (bytes : Nat) : Option UInt64 :=
  if bytes * 8 < 2 ^ 64 then some (UInt64.ofNat (bytes * 8)) else none

end UaCrypt.Hazmat

namespace UaCrypt.Hazmat.KalynaGcm

open LittleEndian ColumnState Kalyna Chunks Keystream

inductive GcmError where
  | emptyInput
  | invalidLength
  | tagMismatch
  deriving DecidableEq, Repr

/-- The field of a variant's block size. -/
def field : Variant → Gf2mWide.Pentanomial
  | .kalyna128_128 => Gf2mWide.gf2m128
  | .kalyna128_256 => Gf2mWide.gf2m128
  | .kalyna256_256 => Gf2mWide.gf2m256
  | .kalyna256_512 => Gf2mWide.gf2m256
  | .kalyna512_512 => Gf2mWide.gf2m512

theorem blockBytes_pos (v : Variant) : 0 < v.blockBytes := by
  cases v <;> decide

theorem eight_le_blockBytes (v : Variant) : 8 ≤ v.blockBytes := by
  cases v <;> decide

/-- `Kalyna*Gcm`. -/
structure Gcm (v : Variant) where
  key : ExpandedKey v

variable (b : Build) {v : Variant}

def Gcm.new (v : Variant) (key : Vector UInt8 v.keyBytes) : Gcm v :=
  ⟨ExpandedKey.new b.profile v key⟩

/-- Increments the low 64 bits of the block, as a little-endian number. -/
def incrementLow (gamma : Vector UInt8 v.blockBytes) : Vector UInt8 v.blockBytes :=
  let low := fromLeBytes (slice gamma 0 8 (by have h := eight_le_blockBytes v; omega)) + 1
  Vector.ofFn fun i => if h : i.val < 8 then (toLeBytes low)[i.val] else gamma[i]

namespace Gcm

variable (gcm : Gcm v)

/-- One turn of the keystream loop: the next counter block and its encryption. -/
def nextGamma (gammaOld : Vector UInt8 v.blockBytes) :
    Vector UInt8 v.blockBytes × Vector UInt8 v.blockBytes :=
  let gammaOld := incrementLow gammaOld
  (gammaOld, gcm.key.encryptBlock b.profile gammaOld)

/-- XORs the double-encrypted counter keystream into `data`. -/
def applyKeystream (iv : Vector UInt8 v.blockBytes) (data : List UInt8) : List UInt8 :=
  let gammaOld := gcm.key.encryptBlock b.profile iv
  xorBlocks (nextGamma b gcm) (blockBytes_pos v) gammaOld data

/-- `acc = (acc XOR block) * h`. -/
def absorbBlock (hKey acc : Gf2mWide.Elem v.nb) (block : Vector UInt8 v.blockBytes) :
    Gf2mWide.Elem v.nb :=
  Gf2mWide.multiply b.clmul (field v) (Gf2mWide.add acc (Gf2mWide.fromBytes block)) hKey

/-- A partial block: the tail, `0x80`, zeros. -/
def padTail (tail : List UInt8) : Vector UInt8 v.blockBytes :=
  Vector.ofFn fun i => (tail ++ [0x80]).getD i.val 0

/-- Accumulates `data`, its last block padded when it is not whole. -/
def absorbPadded (acc hKey : Gf2mWide.Elem v.nb) (data : List UInt8) : Gf2mWide.Elem v.nb :=
  let acc := (chunksExact v.blockBytes (blockBytes_pos v) data).foldl (absorbBlock b hKey) acc
  let tail := remainder v.blockBytes data
  if tail.isEmpty then acc else absorbBlock b hKey acc (padTail tail)

/-- AAD bit length in the low half, ciphertext bit length in the high half. -/
def lengthBlock (v : Variant) (aadLenBits ctLenBits : UInt64) : Vector UInt8 v.blockBytes :=
  let half := v.blockBytes / 2
  Vector.ofFn fun i =>
    if h : i.val < 8 then (toLeBytes aadLenBits)[i.val]
    else if h : half ≤ i.val ∧ i.val < half + 8 then (toLeBytes ctLenBits)[i.val - half]
    else 0

/-- The full-length tag. -/
def computeTag (aad ciphertext : List UInt8) (aadLenBits ctLenBits : UInt64) :
    Vector UInt8 v.blockBytes :=
  let hBlock := gcm.key.encryptBlock b.profile (Vector.replicate v.blockBytes 0)
  let hKey : Gf2mWide.Elem v.nb := Gf2mWide.fromBytes hBlock
  let acc := absorbPadded b (Gf2mWide.zero v.nb) hKey aad
  let acc := absorbPadded b acc hKey ciphertext
  let combined := (lengthBlock v aadLenBits ctLenBits).zipWith (· ^^^ ·) (Gf2mWide.toBytes acc)
  gcm.key.encryptBlock b.profile combined

/-- Encrypts into `ciphertextOut` and returns the full-length tag. -/
def encrypt (iv : Vector UInt8 v.blockBytes) (aad plaintext ciphertextOut : List UInt8) :
    Except GcmError (Vector UInt8 v.blockBytes) × List UInt8 :=
  if ciphertextOut.length ≠ plaintext.length then (.error .invalidLength, ciphertextOut)
  else if aad.isEmpty && plaintext.isEmpty then (.error .emptyInput, ciphertextOut)
  else
    match checkedBitLen aad.length, checkedBitLen plaintext.length with
    | some aadBits, some ctBits =>
      let ciphertextOut := applyKeystream b gcm iv plaintext
      (.ok (computeTag b gcm aad ciphertextOut aadBits ctBits), ciphertextOut)
    | _, _ => (.error .invalidLength, ciphertextOut)

/-- Verifies `tag`, a prefix of 8 bytes to one block of the full tag, then decrypts
into `plaintextOut`. -/
def decrypt (iv : Vector UInt8 v.blockBytes) (aad ciphertext tag plaintextOut : List UInt8) :
    Except GcmError Unit × List UInt8 :=
  if ¬(8 ≤ tag.length ∧ tag.length ≤ v.blockBytes) ∨ plaintextOut.length ≠ ciphertext.length then
    (.error .invalidLength, plaintextOut)
  else if aad.isEmpty && ciphertext.isEmpty then (.error .emptyInput, plaintextOut)
  else
    match checkedBitLen aad.length, checkedBitLen ciphertext.length with
    | some aadBits, some ctBits =>
      let expected := computeTag b gcm aad ciphertext aadBits ctBits
      -- nothing is decrypted before the tag is found right
      if expected.toList.take tag.length ≠ tag then
        (.error .tagMismatch, List.replicate plaintextOut.length 0)
      else (.ok (), applyKeystream b gcm iv ciphertext)
    | _, _ => (.error .invalidLength, plaintextOut)

end Gcm

/-! ## What the two functions do -/

theorem checkedBitLen_eq_some {bytes : Nat} (h : bytes * 8 < 2 ^ 64) :
    checkedBitLen bytes = some (UInt64.ofNat (bytes * 8)) := if_pos h

theorem checkedBitLen_eq_none {bytes : Nat} (h : ¬bytes * 8 < 2 ^ 64) :
    checkedBitLen bytes = none := if_neg h

/-- The inputs both directions take: not both empty, both bit lengths in a `u64`. -/
structure Admissible (aad data : List UInt8) : Prop where
  not_both_empty : ¬(aad = [] ∧ data = [])
  aad_fits : aad.length * 8 < 2 ^ 64
  data_fits : data.length * 8 < 2 ^ 64

/-- Admissibility only looks at the data's length. -/
theorem Admissible.of_length_eq {aad data data' : List UInt8} (h : Admissible aad data)
    (hlen : data'.length = data.length) : Admissible aad data' where
  not_both_empty := fun hboth => h.not_both_empty
    ⟨hboth.1, List.eq_nil_of_length_eq_zero (by rw [← hlen, hboth.2, List.length_nil])⟩
  aad_fits := h.aad_fits
  data_fits := by
    rw [hlen]
    exact h.data_fits

namespace Gcm

variable (gcm : Gcm v) (iv : Vector UInt8 v.blockBytes)

@[simp] theorem length_applyKeystream (data : List UInt8) :
    (applyKeystream b gcm iv data).length = data.length :=
  length_xorBlocks _ _ _ data

@[simp] theorem applyKeystream_applyKeystream (data : List UInt8) :
    applyKeystream b gcm iv (applyKeystream b gcm iv data) = data :=
  xorBlocks_xorBlocks _ _ _ data

/-- The tag over the true lengths. -/
def fullTag (aad ciphertext : List UInt8) : Vector UInt8 v.blockBytes :=
  computeTag b gcm aad ciphertext (UInt64.ofNat (aad.length * 8))
    (UInt64.ofNat (ciphertext.length * 8))

theorem isEmpty_and_isEmpty {aad data : List UInt8} :
    (aad.isEmpty && data.isEmpty) = true ↔ aad = [] ∧ data = [] := by
  rw [Bool.and_eq_true, List.isEmpty_iff, List.isEmpty_iff]

theorem encrypt_of_admissible {aad plaintext out : List UInt8}
    (hlen : out.length = plaintext.length) (h : Admissible aad plaintext) :
    encrypt b gcm iv aad plaintext out
      = (.ok (fullTag b gcm aad (applyKeystream b gcm iv plaintext)),
          applyKeystream b gcm iv plaintext) := by
  rw [encrypt, if_neg (not_not_intro hlen), if_neg (fun he => h.not_both_empty
    (isEmpty_and_isEmpty.mp he)), checkedBitLen_eq_some h.aad_fits,
    checkedBitLen_eq_some h.data_fits, fullTag, length_applyKeystream]

theorem encrypt_of_not_admissible {aad plaintext out : List UInt8}
    (h : ¬(out.length = plaintext.length ∧ Admissible aad plaintext)) :
    ∃ e, e ≠ .tagMismatch ∧ encrypt b gcm iv aad plaintext out = (.error e, out) := by
  by_cases hlen : out.length = plaintext.length
  · by_cases hempty : aad = [] ∧ plaintext = []
    · refine ⟨.emptyInput, by decide, ?_⟩
      rw [encrypt, if_neg (not_not_intro hlen), if_pos (isEmpty_and_isEmpty.mpr hempty)]
    · refine ⟨.invalidLength, by decide, ?_⟩
      rw [encrypt, if_neg (not_not_intro hlen),
        if_neg (fun he => hempty (isEmpty_and_isEmpty.mp he))]
      by_cases haad : aad.length * 8 < 2 ^ 64
      · have hdata : ¬plaintext.length * 8 < 2 ^ 64 := fun hd => h ⟨hlen, hempty, haad, hd⟩
        rw [checkedBitLen_eq_some haad, checkedBitLen_eq_none hdata]
      · rw [checkedBitLen_eq_none haad]
  · refine ⟨.invalidLength, by decide, ?_⟩
    rw [encrypt, if_pos hlen]

/-- Encryption succeeds exactly on admissible input into a buffer of its length. -/
theorem encrypt_eq_ok_iff {aad plaintext out : List UInt8} {tag : Vector UInt8 v.blockBytes}
    {ciphertext : List UInt8} :
    encrypt b gcm iv aad plaintext out = (.ok tag, ciphertext)
      ↔ (out.length = plaintext.length ∧ Admissible aad plaintext)
        ∧ ciphertext = applyKeystream b gcm iv plaintext ∧ tag = fullTag b gcm aad ciphertext := by
  by_cases h : out.length = plaintext.length ∧ Admissible aad plaintext
  · rw [encrypt_of_admissible b gcm iv h.1 h.2, Prod.mk.injEq, Except.ok.injEq]
    constructor
    · rintro ⟨rfl, rfl⟩
      exact ⟨h, rfl, rfl⟩
    · rintro ⟨-, rfl, rfl⟩
      exact ⟨rfl, rfl⟩
  · obtain ⟨e, -, he⟩ := encrypt_of_not_admissible b gcm iv h
    rw [he]
    constructor
    · intro heq
      cases heq
    · rintro ⟨hok, -⟩
      exact absurd hok h

/-- Decryption of admissible input under a tag of admissible length is decided by
the tag. -/
theorem decrypt_of_admissible {aad ciphertext tag out : List UInt8}
    (htag : 8 ≤ tag.length ∧ tag.length ≤ v.blockBytes) (hlen : out.length = ciphertext.length)
    (h : Admissible aad ciphertext) :
    decrypt b gcm iv aad ciphertext tag out
      = if (fullTag b gcm aad ciphertext).toList.take tag.length = tag then
          (.ok (), applyKeystream b gcm iv ciphertext)
        else (.error .tagMismatch, List.replicate out.length 0) := by
  rw [decrypt, if_neg (by rw [not_or, not_not, not_not]; exact ⟨htag, hlen⟩),
    if_neg (fun he => h.not_both_empty (isEmpty_and_isEmpty.mp he)),
    checkedBitLen_eq_some h.aad_fits, checkedBitLen_eq_some h.data_fits]
  exact ite_not _ _ _

theorem decrypt_of_not_admissible {aad ciphertext tag out : List UInt8}
    (h : ¬((8 ≤ tag.length ∧ tag.length ≤ v.blockBytes) ∧ out.length = ciphertext.length
      ∧ Admissible aad ciphertext)) :
    ∃ e, e ≠ .tagMismatch ∧ decrypt b gcm iv aad ciphertext tag out = (.error e, out) := by
  by_cases hlens : (8 ≤ tag.length ∧ tag.length ≤ v.blockBytes) ∧ out.length = ciphertext.length
  · have hpass : ¬(¬(8 ≤ tag.length ∧ tag.length ≤ v.blockBytes)
        ∨ out.length ≠ ciphertext.length) := by
      rw [not_or, not_not, not_not]
      exact hlens
    by_cases hempty : aad = [] ∧ ciphertext = []
    · refine ⟨.emptyInput, by decide, ?_⟩
      rw [decrypt, if_neg hpass, if_pos (isEmpty_and_isEmpty.mpr hempty)]
    · refine ⟨.invalidLength, by decide, ?_⟩
      rw [decrypt, if_neg hpass, if_neg (fun he => hempty (isEmpty_and_isEmpty.mp he))]
      by_cases haad : aad.length * 8 < 2 ^ 64
      · have hdata : ¬ciphertext.length * 8 < 2 ^ 64 := fun hd =>
          h ⟨hlens.1, hlens.2, hempty, haad, hd⟩
        rw [checkedBitLen_eq_some haad, checkedBitLen_eq_none hdata]
      · rw [checkedBitLen_eq_none haad]
  · refine ⟨.invalidLength, by decide, ?_⟩
    rw [decrypt, if_pos (by rwa [Decidable.not_and_iff_or_not] at hlens)]

/-- Decryption succeeds exactly when the tag is a prefix, of admissible length, of
the full tag over admissible input. -/
theorem decrypt_eq_ok_iff {aad ciphertext tag out plaintext : List UInt8} :
    decrypt b gcm iv aad ciphertext tag out = (.ok (), plaintext)
      ↔ ((8 ≤ tag.length ∧ tag.length ≤ v.blockBytes) ∧ out.length = ciphertext.length
          ∧ Admissible aad ciphertext)
        ∧ (fullTag b gcm aad ciphertext).toList.take tag.length = tag
        ∧ plaintext = applyKeystream b gcm iv ciphertext := by
  by_cases h : (8 ≤ tag.length ∧ tag.length ≤ v.blockBytes) ∧ out.length = ciphertext.length
      ∧ Admissible aad ciphertext
  · rw [decrypt_of_admissible b gcm iv h.1 h.2.1 h.2.2]
    split
    · rename_i htag
      rw [Prod.mk.injEq]
      exact ⟨fun heq => ⟨h, htag, heq.2.symm⟩, fun heq => ⟨rfl, heq.2.2.symm⟩⟩
    · rename_i htag
      constructor
      · intro heq
        cases heq
      · rintro ⟨-, heq, -⟩
        exact absurd heq htag
  · obtain ⟨e, -, he⟩ := decrypt_of_not_admissible b gcm iv h
    rw [he]
    constructor
    · intro heq
      cases heq
    · rintro ⟨hok, -⟩
      exact absurd hok h

/-- A failed decryption leaves zeros after a tag mismatch, else the old buffer. -/
theorem decrypt_error_buffer {aad ciphertext tag out out' : List UInt8} {e : GcmError}
    (hdec : decrypt b gcm iv aad ciphertext tag out = (.error e, out')) :
    out' = if e = .tagMismatch then List.replicate out.length 0 else out := by
  by_cases h : (8 ≤ tag.length ∧ tag.length ≤ v.blockBytes) ∧ out.length = ciphertext.length
      ∧ Admissible aad ciphertext
  · rw [decrypt_of_admissible b gcm iv h.1 h.2.1 h.2.2] at hdec
    split at hdec
    · cases hdec
    · cases hdec
      rw [if_pos rfl]
  · obtain ⟨e', hne, he⟩ := decrypt_of_not_admissible b gcm iv h
    rw [he] at hdec
    cases hdec
    rw [if_neg hne]

/-- Decryption undoes a successful encryption, under any admissible truncation of
the tag. -/
theorem decrypt_of_encrypt {aad plaintext out buf ciphertext : List UInt8}
    {tag : Vector UInt8 v.blockBytes} {q : Nat}
    (henc : encrypt b gcm iv aad plaintext out = (.ok tag, ciphertext))
    (hq : 8 ≤ q ∧ q ≤ v.blockBytes) (hbuf : buf.length = ciphertext.length) :
    decrypt b gcm iv aad ciphertext (tag.toList.take q) buf = (.ok (), plaintext) := by
  obtain ⟨⟨-, hadm⟩, rfl, rfl⟩ := (encrypt_eq_ok_iff b gcm iv).mp henc
  have hlen :
      ((fullTag b gcm aad (applyKeystream b gcm iv plaintext)).toList.take q).length = q := by
    rw [List.length_take, Vector.length_toList, Nat.min_eq_left hq.2]
  refine (decrypt_eq_ok_iff b gcm iv).mpr ⟨⟨?_, hbuf, ?_⟩, ?_, ?_⟩
  · rw [hlen]
    exact hq
  · exact hadm.of_length_eq (length_applyKeystream b gcm iv plaintext)
  · rw [hlen]
  · rw [applyKeystream_applyKeystream]

/-- What decryption accepts is what encryption of its result produces. -/
theorem decrypt_eq_ok_iff_encrypt {aad ciphertext tag buf plaintext : List UInt8} :
    decrypt b gcm iv aad ciphertext tag buf = (.ok (), plaintext)
      ↔ (8 ≤ tag.length ∧ tag.length ≤ v.blockBytes)
        ∧ ∃ fullTag, encrypt b gcm iv aad plaintext buf = (.ok fullTag, ciphertext)
          ∧ tag = fullTag.toList.take tag.length := by
  constructor
  · intro hdec
    obtain ⟨⟨htag, hbuf, hadm⟩, htrunc, rfl⟩ := (decrypt_eq_ok_iff b gcm iv).mp hdec
    refine ⟨htag, fullTag b gcm aad ciphertext, ?_, htrunc.symm⟩
    refine (encrypt_eq_ok_iff b gcm iv).mpr ⟨⟨?_, ?_⟩, ?_, rfl⟩
    · rw [length_applyKeystream, hbuf]
    · exact hadm.of_length_eq (length_applyKeystream b gcm iv ciphertext)
    · rw [applyKeystream_applyKeystream]
  · rintro ⟨htag, full, henc, htrunc⟩
    have hlens := ((encrypt_eq_ok_iff b gcm iv).mp henc).1.1
    have hct := ((encrypt_eq_ok_iff b gcm iv).mp henc).2.1
    have hbuf : buf.length = ciphertext.length := by
      rw [hct, length_applyKeystream, hlens]
    rw [htrunc]
    exact decrypt_of_encrypt b gcm iv henc htag hbuf

end Gcm

/-- **The Kalyna-GCM contract**, for every variant, key and iv. Encryption succeeds
exactly on admissible input; decryption gives the plaintext back under every tag
truncation of 8 bytes to a block, and accepts nothing but what encryption
produces; a tag mismatch leaves zeros, every other failure the old buffer. -/
theorem gcm_contract (b : Build) (v : Variant) (key : Vector UInt8 v.keyBytes)
    (iv : Vector UInt8 v.blockBytes) :
    (∀ aad plaintext out,
      (∃ tag ciphertext, (Gcm.new b v key).encrypt b iv aad plaintext out = (.ok tag, ciphertext))
        ↔ out.length = plaintext.length ∧ ¬(aad = [] ∧ plaintext = [])
          ∧ aad.length * 8 < 2 ^ 64 ∧ plaintext.length * 8 < 2 ^ 64)
    ∧ (∀ aad plaintext out tag ciphertext,
        (Gcm.new b v key).encrypt b iv aad plaintext out = (.ok tag, ciphertext) →
        ∀ q buf, 8 ≤ q ∧ q ≤ v.blockBytes → buf.length = ciphertext.length →
          (Gcm.new b v key).decrypt b iv aad ciphertext (tag.toList.take q) buf
            = (.ok (), plaintext))
    ∧ (∀ aad ciphertext t buf plaintext,
        (Gcm.new b v key).decrypt b iv aad ciphertext t buf = (.ok (), plaintext)
          ↔ (8 ≤ t.length ∧ t.length ≤ v.blockBytes)
            ∧ ∃ tag, (Gcm.new b v key).encrypt b iv aad plaintext buf = (.ok tag, ciphertext)
              ∧ t = tag.toList.take t.length)
    ∧ (∀ aad ciphertext t buf buf' e,
        (Gcm.new b v key).decrypt b iv aad ciphertext t buf = (.error e, buf') →
          buf' = if e = .tagMismatch then List.replicate buf.length 0 else buf)
    ∧ (∀ aad plaintext out out' e,
        (Gcm.new b v key).encrypt b iv aad plaintext out = (.error e, out') → out' = out) := by
  generalize Gcm.new b v key = gcm
  refine ⟨?_, ?_, ?_, ?_, ?_⟩
  · intro aad plaintext out
    constructor
    · rintro ⟨tag, ciphertext, henc⟩
      obtain ⟨⟨hlen, hadm⟩, -⟩ := (Gcm.encrypt_eq_ok_iff b gcm iv).mp henc
      exact ⟨hlen, hadm.not_both_empty, hadm.aad_fits, hadm.data_fits⟩
    · rintro ⟨hlen, hempty, haad, hdata⟩
      exact ⟨_, _, Gcm.encrypt_of_admissible b gcm iv hlen ⟨hempty, haad, hdata⟩⟩
  · intro aad plaintext out tag ciphertext henc q buf hq hbuf
    exact Gcm.decrypt_of_encrypt b gcm iv henc hq hbuf
  · intro aad ciphertext t buf plaintext
    exact Gcm.decrypt_eq_ok_iff_encrypt b gcm iv
  · intro aad ciphertext t buf buf' e hdec
    exact Gcm.decrypt_error_buffer b gcm iv hdec
  · intro aad plaintext out out' e henc
    by_cases h : out.length = plaintext.length ∧ Admissible aad plaintext
    · rw [Gcm.encrypt_of_admissible b gcm iv h.1 h.2] at henc
      cases henc
    · obtain ⟨e', -, he⟩ := Gcm.encrypt_of_not_admissible b gcm iv h
      rw [he] at henc
      cases henc
      rfl

end UaCrypt.Hazmat.KalynaGcm

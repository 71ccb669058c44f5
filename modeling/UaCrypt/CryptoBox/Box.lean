import UaCrypt.CryptoBox.Wire
import UaCrypt.Lib.TextLines
import UaCrypt.Hazmat.KupynaKmac
import UaCrypt.Hazmat.Dstu9041.Encryption
import UaCrypt.Hazmat.Dstu9041.Orders

/-!
# Sealed boxes (`crypto_box.rs`, `crypto_box384.rs`, `crypto_box512.rs`)

A random seed is encrypted to the recipient's point. The stream key is the MAC of the KEM
ciphertext and the recipient's first coordinate under the seed, and the message follows as a
stream file under that key. A public key is a point, on the wire its first coordinate, so that
what is read back may be the negative of what was written.

- `sealBox`, `SecretKey.openSealed`: the calls on bytes in memory, over one outcome of all draws.
- `PublicKey.Built`: the public keys there are. `PublicKey.Built.usable`: every one is usable.
- `decapsulate_of_encapsulate`: both sides derive one stream key, for either sign of the point.
- `box_roundtrip`, `box_no_panic`: **sealing and opening, end to end**.
-/

namespace UaCrypt.CryptoBox

open Chunks Hazmat Hazmat.Limb Hazmat.Dstu9041 FieldElement Hazmat.KupynaKmac Secretstream TextLines

/-! ## Parameters -/

namespace Curve

/-- The curve of DSTU 9041. -/
def size : Curve → Size
  | .l256 => .l256
  | .l384 => .l384
  | .l512 => .l512

/-- `SEED_LEN`. -/
def seedLen : Curve → Nat
  | .l256 => Size.lMaxP .l256 / 8
  | .l384 => 32
  | .l512 => 32

/-- `SEED_BITS`; `L_MAX_P` at `l(p) = 256`. -/
def seedBits : Curve → Nat
  | .l256 => Size.lMaxP .l256
  | .l384 => seedLen .l384 * 8
  | .l512 => seedLen .l512 * 8

/-- `KDF_LABEL`. -/
def kdfLabel : Curve → List UInt8
  | .l256 => utf8 "cryptbox"
  | .l384 => utf8 "cryptbx3"
  | .l512 => utf8 "cryptbx5"

theorem kemCiphertextLen_eq (c : Curve) : c.kemCiphertextLen = c.size.ciphertextBytes := by
  cases c <;> rfl

end Curve

variable {c : Curve}

/-! ## Keys -/

/-- A point; on the wire its first coordinate. -/
structure PublicKey (c : Curve) where
  point : Point c.size.curve

namespace PublicKey

def fromBytes (bytes : Bytes c.size.curve) : Option (PublicKey c) :=
  ((fromCandidateBytes bytes : Option (FieldElement c.size.curve.field)).bind pointFromX).map
    PublicKey.mk

def toBytes (pk : PublicKey c) : Bytes c.size.curve := pk.point.x.toBeBytes

end PublicKey

/-- A valid scalar, and its multiple of the base point. -/
structure SecretKey (c : Curve) where
  e : Bytes c.size.curve
  publicKey : PublicKey c
  valid : isValidScalar e = true
  cached : publicKey = ⟨(basePoint c.size.curve).scalarMultiply e⟩

def SecretKey.fromBytes (e : Bytes c.size.curve) : Option (SecretKey c) :=
  if h : isValidScalar e = true then some ⟨e, ⟨(basePoint c.size.curve).scalarMultiply e⟩, h, rfl⟩
  else none

/-! ## The stream key -/

/-- `embed_seed` at `l(p) = 256`; at the others a seed is a key. -/
def embedSeed : Curve → List UInt8 → Vector UInt8 32
  | .l256, seed => overwriteAt (Vector.replicate 32 0) (32 - Curve.seedLen .l256) seed
  | .l384, seed => overwrite (Vector.replicate 32 0) seed
  | .l512, seed => overwrite (Vector.replicate 32 0) seed

/-- The seed in a decrypted `M~`: all of it, or its end. -/
def seedOf : Curve → List UInt8 → List UInt8
  | .l256, mTilde => mTilde
  | .l384, mTilde => mTilde.drop (mTilde.length - Curve.seedLen .l384)
  | .l512, mTilde => mTilde.drop (mTilde.length - Curve.seedLen .l512)

section

variable (b : Build)

/-- `stream_key`. -/
def streamKey {ε : Type} (seed : Vector UInt8 32) (kemCiphertext : Vector UInt8 c.kemCiphertextLen)
    (recipient : Bytes c.size.curve) (version : UInt8) : Outcome ε (Vector UInt8 32) :=
  let message := c.kdfLabel ++ [version] ++ kemCiphertext.toList ++ recipient.toList
  match Kupyna256Kmac.mac b.profile seed.toList message with
  | .ok keyBytes => .ok keyBytes
  | .error _ => .panic

/-! ## Sealing -/

inductive SealError where
  | random
  deriving DecidableEq, Repr

/-- Why `FileEncryptor::init` fails: `FileError::Random`, or any other `FileError`. -/
inductive InitError where
  | random
  | other (e : FileError)
  deriving DecidableEq, Repr

/-- One outcome of the draws of a sealing, in the order they are made. A draw that fails is
`none`. -/
structure Draws (c : Curve) where
  seed : Option (Vector UInt8 c.seedLen)
  candidates : List (Option (Bytes c.size.curve))
  header : Option (Vector UInt8 32)

/-- `random_valid_scalar`: the first valid candidate, or the first failure. Of candidates that are
all rejected nothing comes yet. -/
def randomValidScalar : List (Option (Bytes c.size.curve)) →
    Option (Except SealError (Bytes c.size.curve))
  | [] => none
  | none :: _ => some (.error .random)
  | some candidate :: rest =>
    if isValidScalar candidate then some (.ok candidate) else randomValidScalar rest

/-- `encapsulate`. -/
def encapsulate (recipient : PublicKey c) (version : UInt8) (draws : Draws c) :
    Option (Outcome SealError (Vector UInt8 c.kemCiphertextLen × Vector UInt8 32)) :=
  match draws.seed with
  | none => some (.err .random)
  | some seed =>
    match randomValidScalar draws.candidates with
    | none => none
    | some (.error e) => some (.err e)
    | some (.ok epsilon) =>
      match encrypt b.profile c.size seed.toList c.seedBits recipient.point epsilon with
      | .error _ => some .panic
      | .ok ciphertext =>
        let kemCiphertext := ciphertext.cast c.kemCiphertextLen_eq.symm
        match streamKey b (embedSeed c seed.toList) kemCiphertext recipient.toBytes version with
        | .ok key => some (.ok (kemCiphertext, key))
        | .err e => some (.err e)
        | .panic => some .panic

/-- `FileEncryptor::init`, with the draw of its header. -/
def initDrawn (key : Vector UInt8 32) :
    Option (Vector UInt8 32) → Except InitError (FileEncryptor × Vector UInt8 filePrefixBytes)
  | none => .error .random
  | some header => .ok (FileEncryptor.init b key header)

/-- `seal_stream`. -/
def sealStream (recipient : PublicKey c) (draws : Draws c) :
    Option (Outcome SealError (FileEncryptor × Vector UInt8 c.sealStreamPrefixBytes)) :=
  match encapsulate b recipient formatVersion draws with
  | none => none
  | some (.err e) => some (.err e)
  | some .panic => some .panic
  | some (.ok (kemCiphertext, key)) =>
    match initDrawn b key draws.header with
    | .error .random => some (.err .random)
    | .error (.other _) => some .panic
    | .ok (enc, filePrefix) => some (.ok (enc, #v[formatVersion] ++ kemCiphertext ++ filePrefix))

/-- `seal`. -/
def sealBox (message : List UInt8) (recipient : PublicKey c) (draws : Draws c) :
    Option (Outcome SealError (List UInt8)) :=
  match sealStream b recipient draws with
  | none => none
  | some (.err e) => some (.err e)
  | some .panic => some .panic
  | some (.ok (enc, front)) =>
    match enc.sealAll b message front.toList with
    | (.ok (), _, out) => some (.ok out)
    | (.err _, _, _) => some .panic
    | (.panic, _, _) => some .panic

/-! ## Opening -/

/-- `decapsulate`. -/
def decapsulate (kemCiphertext : Vector UInt8 c.kemCiphertextLen) (secret : SecretKey c)
    (version : UInt8) : Outcome OpenError (Vector UInt8 32) :=
  match decrypt b.profile c.size (kemCiphertext.cast c.kemCiphertextLen_eq) secret.e with
  | .error _ => .err .invalidCiphertext
  | .ok (mTilde, bitLen) =>
    if bitLen ≠ c.seedBits then .err .invalidCiphertext
    else
      streamKey b (embedSeed c (seedOf c mTilde)) kemCiphertext secret.publicKey.toBytes version

namespace SecretKey

variable (secret : SecretKey c)

/-- `open_stream`. -/
def openStream (front : Vector UInt8 c.prefixLen) : Outcome OpenError FileDecryptor :=
  if front.toList.head? ≠ some formatVersion then .err .unsupportedVersion
  else
    let kemCiphertext :=
      overwrite (Vector.replicate c.kemCiphertextLen 0) (front.toList.drop 1)
    match decapsulate b kemCiphertext secret formatVersion with
    | .ok key => .ok (FileDecryptor.new key)
    | .err e => .err e
    | .panic => .panic

/-- `open`. -/
def openSealed (sealed : List UInt8) : Outcome OpenError (List UInt8) :=
  match sealed.head? with
  | none => .err .truncated
  | some version =>
    if version ≠ formatVersion then .err .unsupportedVersion
    else if sealed.length < c.minSealedLen then .err .truncated
    else if hlen : c.prefixLen ≤ sealed.length then
      match secret.openStream b (headChunk c.prefixLen sealed hlen) with
      | .err e => .err e
      | .panic => .panic
      | .ok dec =>
        match openAll b dec (sealed.drop c.prefixLen) with
        | .ok plaintext => .ok plaintext
        | .error .truncated => .err .truncated
        | .error _ => .err .invalidCiphertext
    else .err .truncated

end SecretKey

end

/-! ## The length of a sealed message -/

/-- `usize::checked_mul`, at `w` bits. -/
def checkedMul (w x y : Nat) : Option Nat := if x * y < 2 ^ w then some (x * y) else none

/-- `usize::checked_add`. -/
def checkedAdd (w x y : Nat) : Option Nat := if x + y < 2 ^ w then some (x + y) else none

/-- `div_ceil`. -/
def divCeil (x y : Nat) : Nat := x / y + if 0 < x % y then 1 else 0

/-- `sealed_len`. -/
def sealedLen (c : Curve) (w messageLen : Nat) : Option Nat :=
  let records := max (divCeil messageLen chunkBytes) 1
  ((checkedMul w records recordOverheadBytes).bind (checkedAdd w · messageLen)).bind
    (checkedAdd w · c.sealStreamPrefixBytes)

/-! ## Public keys -/

/-- The public keys that the library hands out. -/
inductive PublicKey.Built : PublicKey c → Prop
  | ofSecret (secret : SecretKey c) : Built secret.publicKey
  | ofBytes {bytes : Bytes c.size.curve} {pk : PublicKey c}
      (h : PublicKey.fromBytes bytes = some pk) : Built pk

/-- The point is the public one of the secret key, or its negative. -/
def SecretKey.Opens (secret : SecretKey c) (recipient : PublicKey c) : Prop :=
  PublicOf recipient.point secret.e ∧ recipient.toBytes = secret.publicKey.toBytes

section

variable {secret : SecretKey c} {pk recipient : PublicKey c}

theorem SecretKey.fromBytes_eq_some_iff {e : Bytes c.size.curve} :
    SecretKey.fromBytes e = some secret ↔ secret.e = e := by
  rw [SecretKey.fromBytes]
  split
  · rename_i h
    obtain ⟨e', publicKey, hvalid, rfl⟩ := secret
    rw [Option.some.injEq, SecretKey.mk.injEq]
    constructor
    · rintro ⟨rfl, -⟩
      rfl
    · rintro rfl
      exact ⟨rfl, rfl⟩
  · rename_i h
    refine ⟨nofun, ?_⟩
    rintro rfl
    exact absurd secret.valid h

theorem SecretKey.opens_self (secret : SecretKey c) : secret.Opens secret.publicKey := by
  refine ⟨?_, rfl⟩
  rw [secret.cached]
  exact publicOf_self secret.e

/-- **A public key reads back**, perhaps as its negative. -/
theorem SecretKey.exists_fromBytes (secret : SecretKey c) :
    ∃ pk, PublicKey.fromBytes secret.publicKey.toBytes = some pk ∧ secret.Opens pk := by
  obtain ⟨hlow, hhigh⟩ := (isValidScalar_iff secret.e).mp secret.valid
  have hne := nsmul_base_ne_zero (s := c.size) c.size.n_prime (k := beNat secret.e.toList)
    (by omega) (by omega)
  have hholds := holds_public (s := c.size) secret.e
  obtain ⟨R, hR, hsign⟩ := pointFromX_holds hholds (n_nsmul_nsmul n_nsmul_base _) hne
  obtain ⟨x, y, hspells, -⟩ := hholds
  refine ⟨⟨R⟩, ?_, ?_, ?_⟩
  · rw [PublicKey.fromBytes, PublicKey.toBytes, secret.cached, hspells.x.fromCandidateBytes,
      Option.bind_some, hR, Option.map_some]
  · obtain rfl | rfl := hsign
    · exact publicOf_self secret.e
    · exact publicOf_negate secret.e
  · rw [PublicKey.toBytes, PublicKey.toBytes, secret.cached]
    obtain rfl | rfl := hsign
    · rfl
    · rfl

/-- **Every public key there is passes the sender's check.** -/
theorem PublicKey.Built.usable (h : pk.Built) : isUsableRecipient pk.point = true := by
  cases h with
  | ofSecret secret => exact secret.opens_self.1.usable c.size.n_prime secret.valid
  | ofBytes h =>
    obtain ⟨R, hR, rfl⟩ := Option.map_eq_some_iff.mp h
    obtain ⟨r, hr, hR⟩ := Option.bind_eq_some_iff.mp hR
    obtain ⟨-, G, hG, hnG, hne⟩ := pointFromX_some (represents_of_fromCandidateBytes hr).1 hR
    refine (isUsableRecipient_iff c.size.n_prime hG.reduced).mpr ⟨G, hG, ?_⟩
    have htwo := two_nsmul_ne_zero hnG hne
    have hfour := two_nsmul_ne_zero (n_nsmul_nsmul hnG 2) htwo
    rwa [← mul_nsmul'] at hfour

end

/-! ## Both sides have one stream key -/

theorem seedOf_padded {seed : List UInt8} (h : seed.length = c.seedLen) :
    seedOf c (List.replicate (c.size.mTildeBytes - seed.length) 0 ++ seed) = seed := by
  cases c with
  | l256 =>
    have hzero : Size.mTildeBytes .l256 - seed.length = 0 := by
      rw [h]
      rfl
    show List.replicate (Size.mTildeBytes .l256 - seed.length) 0 ++ seed = seed
    rw [hzero]
    rfl
  | l384 =>
    rw [seedOf, List.length_append, ← h, Nat.add_sub_cancel, List.drop_left]
  | l512 =>
    rw [seedOf, List.length_append, ← h, Nat.add_sub_cancel, List.drop_left]

theorem messageBytes_seedBits (c : Curve) : messageBytes c.seedBits = c.seedLen := by
  cases c <;> rfl

theorem seedBits_pos (c : Curve) : 0 < c.seedBits := by
  cases c <;> decide

theorem seedBits_le (c : Curve) : c.seedBits ≤ c.size.lMaxP := by
  cases c <;> decide

theorem isValidScalar_of_random {candidates : List (Option (Bytes c.size.curve))}
    {epsilon : Bytes c.size.curve} (h : randomValidScalar candidates = some (.ok epsilon)) :
    isValidScalar epsilon = true := by
  induction candidates with
  | nil => cases h
  | cons candidate rest ih =>
    cases candidate with
    | none => cases h
    | some candidate =>
      rw [randomValidScalar] at h
      split at h
      · rename_i hvalid
        cases h
        exact hvalid
      · exact ih h

section

variable (b : Build)

/-- **The key derivation does not refuse**: a seed is as long as the MAC. -/
theorem exists_streamKey (seed : Vector UInt8 32) (kemCiphertext : Vector UInt8 c.kemCiphertextLen)
    (recipient : Bytes c.size.curve) (version : UInt8) :
    ∃ key, ∀ ε : Type, streamKey (ε := ε) b seed kemCiphertext recipient version = .ok key := by
  cases hmac : Kupyna256Kmac.mac b.profile seed.toList
      (c.kdfLabel ++ [version] ++ kemCiphertext.toList ++ recipient.toList) with
  | error e =>
    obtain ⟨hlen, -⟩ := (kmacGeneric_eq_error_iff b.profile _ _ _ 32 (by decide) e).mp hmac
    exact absurd seed.length_toList hlen
  | ok key =>
    refine ⟨key, fun ε => ?_⟩
    rw [streamKey]
    simp only [hmac]

variable {secret : SecretKey c}

/-- **What is encapsulated decapsulates to the same stream key**, with the recipient's point or
its negative. -/
theorem decapsulate_of_encapsulate (secret : SecretKey c) (version : UInt8)
    (seed : Vector UInt8 c.seedLen) {candidates : List (Option (Bytes c.size.curve))}
    {epsilon : Bytes c.size.curve} (h : randomValidScalar candidates = some (.ok epsilon))
    (header : Option (Vector UInt8 32)) :
    ∃ kemCiphertext key,
      (∀ recipient, secret.Opens recipient →
        encapsulate b recipient version ⟨some seed, candidates, header⟩
          = some (.ok (kemCiphertext, key)))
      ∧ decapsulate b kemCiphertext secret version = .ok key := by
  have hlen : seed.toList.length = messageBytes c.seedBits := by
    rw [messageBytes_seedBits, seed.length_toList]
  obtain ⟨ciphertext, hencrypt, hdecrypt⟩ := exists_encrypt c.size.n_prime b.profile secret.valid
    (isValidScalar_of_random h) (seedBits_pos c) (seedBits_le c) hlen
  obtain ⟨key, hkey⟩ := exists_streamKey b (embedSeed c seed.toList)
    (ciphertext.cast c.kemCiphertextLen_eq.symm) secret.publicKey.toBytes version
  refine ⟨ciphertext.cast c.kemCiphertextLen_eq.symm, key, ?_, ?_⟩
  · intro recipient hopens
    rw [encapsulate]
    simp only [h, hencrypt recipient.point hopens.1, hopens.2, hkey]
  · have hcast : (ciphertext.cast c.kemCiphertextLen_eq.symm).cast c.kemCiphertextLen_eq
        = ciphertext := by simp
    rw [decapsulate, hcast, hdecrypt]
    dsimp only
    rw [if_neg (not_not.mpr rfl), seedOf_padded seed.length_toList, hkey]

/-! ## Sealed boxes -/

/-- **A sealed box** is the version, the KEM ciphertext and a stream file under its key. -/
theorem sealBox_eq (draws : Draws c) {header : Vector UInt8 32}
    (hheader : draws.header = some header) (kemCiphertext : Vector UInt8 c.kemCiphertextLen)
    (key : Vector UInt8 32) {message : List UInt8} (hcount : recordCount message.length < 2 ^ 64) :
    ∃ file, (∀ recipient,
        encapsulate b recipient formatVersion draws = some (.ok (kemCiphertext, key)) →
        sealBox b message recipient draws
          = some (.ok (formatVersion :: kemCiphertext.toList ++ file)))
      ∧ IsFile b key header (chunksOf message) file := by
  obtain ⟨enc, file, hseal, hfile⟩ := isFile_sealAll_append b key header message
    (formatVersion :: kemCiphertext.toList) hcount
  refine ⟨file, fun recipient hkem => ?_, hfile⟩
  obtain ⟨front, hfront, hstream⟩ : ∃ front : Vector UInt8 c.sealStreamPrefixBytes,
      front.toList
          = formatVersion :: kemCiphertext.toList ++ (FileEncryptor.init b key header).2.toList
        ∧ sealStream b recipient draws
          = some (.ok ((FileEncryptor.init b key header).1, front)) := by
    refine ⟨#v[formatVersion] ++ kemCiphertext ++ (FileEncryptor.init b key header).2, ?_, ?_⟩
    · have hone : (#v[formatVersion] ++ kemCiphertext).toList
          = formatVersion :: kemCiphertext.toList := by
        rw [Vector.toList_append]
        rfl
      exact Vector.toList_append.trans (congrArg (· ++ _) hone)
    · rw [sealStream]
      simp only [hkem, hheader, initDrawn]
  rw [← hfront] at hseal
  rw [sealBox, hstream]
  dsimp only
  rw [hseal]

/-- What opening a box comes to once its stream key is there. -/
def ofOpenAll : Except FileError (List UInt8) → Outcome OpenError (List UInt8)
  | .ok plaintext => .ok plaintext
  | .error .truncated => .err .truncated
  | .error _ => .err .invalidCiphertext

theorem SecretKey.openSealed_of_openStream {sealed : List UInt8} {dec : FileDecryptor}
    (hhead : sealed.head? = some formatVersion) (hlen : c.minSealedLen ≤ sealed.length)
    (hfits : c.prefixLen ≤ sealed.length)
    (hstream : secret.openStream b (headChunk c.prefixLen sealed hfits) = .ok dec) :
    secret.openSealed b sealed = ofOpenAll (openAll b dec (sealed.drop c.prefixLen)) := by
  rw [SecretKey.openSealed, hhead]
  dsimp only
  rw [if_neg (not_not.mpr rfl), if_neg (Nat.not_lt.mpr hlen), dif_pos hfits, hstream]
  dsimp only
  cases openAll b dec (sealed.drop c.prefixLen) with
  | ok plaintext => rfl
  | error e => cases e <;> rfl

theorem SecretKey.openSealed_eq {kemCiphertext : Vector UInt8 c.kemCiphertextLen}
    {key : Vector UInt8 32} (hkem : decapsulate b kemCiphertext secret formatVersion = .ok key)
    {file : List UInt8} (hlen : filePrefixBytes + recordOverheadBytes ≤ file.length) :
    secret.openSealed b (formatVersion :: kemCiphertext.toList ++ file)
      = ofOpenAll (openAll b (FileDecryptor.new key) file) := by
  have hfront : (formatVersion :: kemCiphertext.toList).length = c.prefixLen := by
    rw [List.length_cons, Vector.length_toList, Curve.prefixLen, Nat.add_comm 1]
  have hsealed : (formatVersion :: kemCiphertext.toList ++ file).length
      = c.prefixLen + file.length := by
    rw [List.length_append, hfront]
  have hlong : c.minSealedLen ≤ (formatVersion :: kemCiphertext.toList ++ file).length := by
    rw [hsealed, Curve.minSealedLen, Curve.sealStreamPrefixBytes]
    omega
  have hfits : c.prefixLen ≤ (formatVersion :: kemCiphertext.toList ++ file).length := by
    rw [hsealed]
    exact Nat.le_add_right _ _
  have hstream : secret.openStream b
      (headChunk c.prefixLen (formatVersion :: kemCiphertext.toList ++ file) hfits)
        = .ok (FileDecryptor.new key) := by
    have hchunk : (headChunk c.prefixLen (formatVersion :: kemCiphertext.toList ++ file)
        hfits).toList = formatVersion :: kemCiphertext.toList := List.take_left' hfront
    have hover : overwrite (Vector.replicate c.kemCiphertextLen 0) kemCiphertext.toList
        = kemCiphertext :=
      Vector.toList_inj.mp (toList_overwrite_of_length _ kemCiphertext.length_toList)
    rw [SecretKey.openStream, hchunk, List.head?_cons, if_neg (not_not.mpr rfl), List.drop_one,
      List.tail_cons]
    dsimp only
    rw [hover, hkem]
  rw [SecretKey.openSealed_of_openStream b rfl hlong hfits hstream, List.drop_left' hfront]

theorem SecretKey.openSealed_of_short (secret : SecretKey c) {sealed : List UInt8}
    (hhead : sealed.head? = none ∨ sealed.head? = some formatVersion)
    (hlen : sealed.length < c.minSealedLen) : secret.openSealed b sealed = .err .truncated := by
  rw [SecretKey.openSealed]
  obtain hhead | hhead := hhead
  · rw [hhead]
  · rw [hhead]
    dsimp only
    rw [if_neg (not_not.mpr rfl), if_pos hlen]

/-- **Opening a box of the format**, cut boxes and extended ones. -/
theorem SecretKey.openSealed_of_isFile {kemCiphertext : Vector UInt8 c.kemCiphertextLen}
    {key header : Vector UInt8 32}
    (hkem : decapsulate b kemCiphertext secret formatVersion = .ok key) {chunks : List Chunk}
    {file : List UInt8} (hfile : IsFile b key header chunks file) :
    secret.openSealed b (formatVersion :: kemCiphertext.toList ++ file) = .ok (plaintextOf chunks)
      ∧ (∀ kept lost, lost ≠ [] → formatVersion :: kemCiphertext.toList ++ file = kept ++ lost →
        secret.openSealed b kept = .err .truncated)
      ∧ ∀ x, x ≠ [] → secret.openSealed b (formatVersion :: kemCiphertext.toList ++ file ++ x)
        = .err .invalidCiphertext := by
  have hopen := openAll_eq_ok_iff_isFile.mpr ⟨header, chunks, hfile, rfl⟩
  have hlen := hfile.length_ge
  refine ⟨?_, ?_, ?_⟩
  · rw [SecretKey.openSealed_eq b hkem hlen, hopen]
    rfl
  · intro kept lost hlost hcut
    obtain ⟨rest, rfl, hrest⟩ | ⟨front, hfront, rfl⟩ := List.append_eq_append_iff.mp hcut
    · by_cases hshort : rest.length < filePrefixBytes + recordOverheadBytes
      · refine secret.openSealed_of_short b (.inr rfl) ?_
        rw [List.length_append, List.length_cons, Vector.length_toList, Curve.minSealedLen,
          Curve.sealStreamPrefixBytes, Curve.prefixLen]
        omega
      · rw [SecretKey.openSealed_eq b hkem (Nat.not_lt.mp hshort), openAll_cut b hopen hrest hlost]
        rfl
    · -- the cut is in the KEM ciphertext, or before the version
      refine secret.openSealed_of_short b ?_ ?_
      · cases kept with
        | nil => exact .inl rfl
        | cons version kept =>
          rw [List.cons_append, List.cons.injEq] at hfront
          exact .inr (congrArg some hfront.1.symm)
      · have hfits := congrArg List.length hfront
        rw [List.length_cons, Vector.length_toList, List.length_append] at hfits
        rw [Curve.minSealedLen, Curve.sealStreamPrefixBytes, Curve.prefixLen, recordOverheadBytes]
        have hpos : 0 < recordHeadBytes := by decide
        omega
  · intro x hx
    have hlong : filePrefixBytes + recordOverheadBytes ≤ (file ++ x).length := by
      rw [List.length_append]
      exact Nat.le_add_right_of_le hlen
    rw [List.append_assoc, SecretKey.openSealed_eq b hkem hlong, openAll_extended b hopen hx]
    rfl

end

/-! ## The length of a box -/

theorem max_divCeil (len : Nat) : max (divCeil len chunkBytes) 1 = recordCount len := by
  rw [divCeil, recordCount, chunkBytes]
  split <;> omega

/-- **No overflow**: a message in memory takes less than half of the address space. -/
theorem sealedLen_eq (c : Curve) {w len : Nat} (hw : 16 ≤ w) (hlen : len < 2 ^ (w - 1)) :
    sealedLen c w len
      = some (c.sealStreamPrefixBytes + recordCount len * recordOverheadBytes + len) := by
  have hdouble : 2 ^ w = 2 * 2 ^ (w - 1) := by
    rw [← Nat.pow_succ', Nat.succ_eq_add_one, Nat.sub_add_cancel (by omega)]
  have hwide : 2 ^ 15 ≤ 2 ^ (w - 1) := Nat.pow_le_pow_right (by decide) (by omega)
  have hoverhead : recordOverheadBytes = 21 := rfl
  have hrecords : recordCount len ≤ len / 8192 + 1 := by
    rw [recordCount, chunkBytes]
    omega
  have hfits : c.sealStreamPrefixBytes ≤ 290 := by
    cases c <;> decide
  have hsum : recordCount len * recordOverheadBytes + len + c.sealStreamPrefixBytes < 2 ^ w := by
    rw [hoverhead]
    omega
  rw [sealedLen, max_divCeil, checkedMul, if_pos (by omega), Option.bind_some, checkedAdd,
    if_pos (by omega), Option.bind_some, checkedAdd, if_pos hsum]
  rw [Nat.add_comm _ len, Nat.add_comm _ c.sealStreamPrefixBytes, Nat.add_comm len, Nat.add_assoc]

theorem recordCount_lt {len : Nat} (h : len < 2 ^ 64) : recordCount len < 2 ^ 64 := by
  rw [recordCount, chunkBytes]
  omega

/-! ## End to end -/

section

variable (b : Build)

/-- **Sealing and opening.** The secret keys are what `from_bytes` accepts, and for each the public
key reads back with the same bytes. For every message, which as a slice takes less than half of a
`w` bit address space, and every outcome of the draws, sealing to the public key and to the one
read back gives one box of `sealed_len` bytes, which opens to the message. A box cut anywhere is
`Truncated`, and an extended one is `InvalidCiphertext`. -/
theorem box_roundtrip (w : Nat) (hw : 16 ≤ w ∧ w ≤ 64) (c : Curve) (secret : SecretKey c) :
    SecretKey.fromBytes secret.e = some secret
      ∧ ∃ pk, PublicKey.fromBytes secret.publicKey.toBytes = some pk
      ∧ pk.toBytes = secret.publicKey.toBytes
      ∧ ∀ message seed candidates epsilon header, message.length < 2 ^ (w - 1) →
        randomValidScalar candidates = some (.ok epsilon) →
        ∃ blob, (∀ recipient, recipient = secret.publicKey ∨ recipient = pk →
            sealBox b message recipient ⟨some seed, candidates, some header⟩
              = some (.ok blob))
          ∧ sealedLen c w message.length = some blob.length
          ∧ secret.openSealed b blob = .ok message
          ∧ (∀ kept lost, lost ≠ [] → blob = kept ++ lost →
            secret.openSealed b kept = .err .truncated)
          ∧ ∀ x, x ≠ [] → secret.openSealed b (blob ++ x) = .err .invalidCiphertext := by
  obtain ⟨pk, hread, hopens⟩ := secret.exists_fromBytes
  refine ⟨SecretKey.fromBytes_eq_some_iff.mpr rfl, pk, hread, hopens.2, ?_⟩
  intro message seed candidates epsilon header hlen hepsilon
  obtain ⟨kemCiphertext, key, hencap, hdecap⟩ :=
    decapsulate_of_encapsulate b secret formatVersion seed hepsilon (some header)
  have hslice : message.length < 2 ^ 64 :=
    Nat.lt_of_lt_of_le hlen (Nat.pow_le_pow_right (by decide) (by omega))
  obtain ⟨file, hseal, hfile⟩ := sealBox_eq b ⟨some seed, candidates, some header⟩ rfl kemCiphertext
    key (recordCount_lt hslice)
  obtain ⟨hopen, hcut, hextended⟩ := SecretKey.openSealed_of_isFile b hdecap hfile
  refine ⟨_, ?_, ?_, ?_, hcut, hextended⟩
  · rintro recipient (rfl | rfl)
    · exact hseal _ (hencap _ secret.opens_self)
    · exact hseal _ (hencap _ hopens)
  · rw [sealedLen_eq c hw.1 hlen, List.length_append, List.length_cons, Vector.length_toList,
      hfile.length, length_chunksOf, plaintextOf_chunksOf, Curve.sealStreamPrefixBytes,
      Curve.prefixLen]
    congr 1
    omega
  · rw [hopen, plaintextOf_chunksOf]

theorem box_roundtrip_two :
    ∃ secret : SecretKey .l256, ∃ blob, secret.e = two256
      ∧ sealBox ⟨.fused, false⟩ [1, 2, 3] secret.publicKey
        ⟨some (Vector.replicate _ 7), [some two256], some (Vector.replicate _ 1)⟩ = some (.ok blob)
      ∧ secret.openSealed ⟨.fused, false⟩ blob = .ok [1, 2, 3] := by
  have hdraw : randomValidScalar (c := .l256) [some two256] = some (.ok two256) :=
    if_pos isValidScalar_two256
  obtain ⟨-, pk, -, -, hbox⟩ := box_roundtrip ⟨.fused, false⟩ 64 (by decide) .l256
    ⟨two256, ⟨(basePoint _).scalarMultiply two256⟩, isValidScalar_two256, rfl⟩
  obtain ⟨blob, hseal, -, hopen, -⟩ := hbox [1, 2, 3] (Vector.replicate _ 7) [some two256] two256
    (Vector.replicate _ 1) (by decide) hdraw
  exact ⟨_, blob, rfl, hseal _ (.inl rfl), hopen⟩

/-! ## No panic -/

theorem streamKey_ne_panic {ε : Type} (seed : Vector UInt8 32)
    (kemCiphertext : Vector UInt8 c.kemCiphertextLen) (recipient : Bytes c.size.curve)
    (version : UInt8) :
    (streamKey b seed kemCiphertext recipient version : Outcome ε (Vector UInt8 32)) ≠ .panic := by
  obtain ⟨key, hkey⟩ := exists_streamKey b seed kemCiphertext recipient version
  rw [hkey]
  nofun

theorem encapsulate_ne_panic {pk : PublicKey c} (hbuilt : pk.Built) (version : UInt8)
    (draws : Draws c) : encapsulate b pk version draws ≠ some .panic := by
  obtain ⟨seed, candidates, header⟩ := draws
  rw [encapsulate]
  cases seed with
  | none => nofun
  | some seed =>
    cases hscalar : randomValidScalar candidates with
    | none => nofun
    | some drawn =>
      cases drawn with
      | error e => nofun
      | ok epsilon =>
        have hlen : seed.toList.length = messageBytes c.seedBits := by
          rw [messageBytes_seedBits, seed.length_toList]
        obtain ⟨ciphertext, hencrypt⟩ := encrypt_of_usable b.profile
          (isValidScalar_of_random hscalar) hbuilt.usable (seedBits_pos c) (seedBits_le c) hlen
        obtain ⟨key, hkey⟩ := exists_streamKey b (embedSeed c seed.toList)
          (ciphertext.cast c.kemCiphertextLen_eq.symm) pk.toBytes version
        simp only [hencrypt, hkey]
        nofun

theorem sealStream_ne_panic {pk : PublicKey c} (hbuilt : pk.Built) (draws : Draws c) :
    sealStream b pk draws ≠ some .panic := by
  have hkem := encapsulate_ne_panic b hbuilt formatVersion draws
  rw [sealStream]
  split
  · nofun
  · nofun
  · exact absurd ‹_› hkem
  · cases draws.header with
    | none => nofun
    | some header => nofun

theorem sealBox_ne_panic {pk : PublicKey c} (hbuilt : pk.Built) (draws : Draws c)
    {message : List UInt8} (hlen : message.length < 2 ^ 64) :
    sealBox b message pk draws ≠ some .panic := by
  cases hkem : encapsulate b pk formatVersion draws with
  | none =>
    rw [sealBox, sealStream, hkem]
    nofun
  | some outcome =>
    cases outcome with
    | err e =>
      rw [sealBox, sealStream, hkem]
      nofun
    | panic => exact absurd hkem (encapsulate_ne_panic b hbuilt formatVersion draws)
    | ok encapsulated =>
      obtain ⟨kemCiphertext, key⟩ := encapsulated
      cases hheader : draws.header with
      | none =>
        rw [sealBox, sealStream, hkem, hheader]
        nofun
      | some header =>
        obtain ⟨file, hseal, -⟩ :=
          sealBox_eq b draws hheader kemCiphertext key (recordCount_lt hlen)
        rw [hseal pk hkem]
        nofun

theorem decapsulate_ne_panic (kemCiphertext : Vector UInt8 c.kemCiphertextLen)
    (secret : SecretKey c) (version : UInt8) :
    decapsulate b kemCiphertext secret version ≠ .panic := by
  rw [decapsulate]
  split
  · nofun
  · split
    · nofun
    · exact streamKey_ne_panic b _ _ _ _

/-- A call that returns. -/
def returned {ε α : Type} : Except ε α → Outcome ε α
  | .ok a => .ok a
  | .error e => .err e

theorem returned_ne_panic {ε α : Type} (r : Except ε α) : returned r ≠ .panic := by
  cases r <;> nofun

namespace SecretKey

variable (secret : SecretKey c)

/-- `decapsulate` as the half of opening that the wire format leaves open. -/
def kem : Decapsulate c :=
  fun kemCiphertext =>
    match decapsulate b kemCiphertext secret formatVersion with
    | .ok key => .ok key
    | .err e => .error e
    | .panic => .error .invalidCiphertext

theorem decapsulate_eq_kem (kemCiphertext : Vector UInt8 c.kemCiphertextLen) :
    decapsulate b kemCiphertext secret formatVersion = returned (secret.kem b kemCiphertext) := by
  rw [kem]
  cases h : decapsulate b kemCiphertext secret formatVersion with
  | ok key => rfl
  | err e => rfl
  | panic => exact absurd h (decapsulate_ne_panic b kemCiphertext secret formatVersion)

theorem openStream_eq_wire (front : Vector UInt8 c.prefixLen) :
    secret.openStream b front = returned (CryptoBox.openStream (secret.kem b) front) := by
  rw [openStream, CryptoBox.openStream]
  split
  · rfl
  · dsimp only
    rw [decapsulate_eq_kem]
    cases secret.kem b _ with
    | ok key => rfl
    | error e => rfl

/-- **`open` refines the wire format's**, at its own decapsulation, and never panics. -/
theorem openSealed_eq_wire (sealed : List UInt8) :
    secret.openSealed b sealed = returned (CryptoBox.openSealed b (secret.kem b) sealed) := by
  rw [openSealed, CryptoBox.openSealed]
  cases sealed.head? with
  | none => rfl
  | some version =>
    dsimp only
    split_ifs with hversion hshort hlen
    · rfl
    · rfl
    · rw [openStream_eq_wire]
      cases CryptoBox.openStream (secret.kem b) (headChunk c.prefixLen sealed hlen) with
      | error e => rfl
      | ok dec =>
        dsimp only [returned]
        cases openAll b dec (sealed.drop c.prefixLen) with
        | ok plaintext => rfl
        | error e => cases e <;> rfl
    · rfl

theorem openSealed_ne_panic (sealed : List UInt8) : secret.openSealed b sealed ≠ .panic := by
  rw [openSealed_eq_wire]
  exact returned_ne_panic _

end SecretKey

/-- **No panic arm is reachable.** For every public key there is and every outcome of the draws,
neither `encapsulate` nor `seal_stream` panics, and neither does `seal` on a message in memory.
`stream_key` and `open` do not panic on anything. -/
theorem box_no_panic (c : Curve) :
    (∀ (pk : PublicKey c), pk.Built → ∀ draws : Draws c,
      (∀ version, encapsulate b pk version draws ≠ some .panic)
        ∧ sealStream b pk draws ≠ some .panic
        ∧ ∀ message, message.length < 2 ^ 64 → sealBox b message pk draws ≠ some .panic)
      ∧ (∀ (ε : Type) seed (kemCiphertext : Vector UInt8 c.kemCiphertextLen) recipient version,
        (streamKey b seed kemCiphertext recipient version : Outcome ε (Vector UInt8 32)) ≠ .panic)
      ∧ ∀ (secret : SecretKey c) sealed, secret.openSealed b sealed ≠ .panic := by
  refine ⟨fun pk hbuilt draws => ⟨?_, ?_, ?_⟩, ?_, SecretKey.openSealed_ne_panic b⟩
  · exact fun version => encapsulate_ne_panic b hbuilt version draws
  · exact sealStream_ne_panic b hbuilt draws
  · exact fun message hlen => sealBox_ne_panic b hbuilt draws hlen
  · exact fun ε seed kemCiphertext recipient version =>
      streamKey_ne_panic b seed kemCiphertext recipient version

end

end UaCrypt.CryptoBox

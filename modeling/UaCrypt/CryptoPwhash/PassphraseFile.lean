import UaCrypt.CryptoPwhash.Hash
import UaCrypt.Secretstream.FileFormat

/-!
# Passphrase files (`crypto_pwhash/passphrase_file.rs`)

A header of 28 bytes in front of a stream file: what the file is, the costs of Argon2, and
the salt. Argon2 makes the stream's key of the passphrase and the salt.

- `parse_eq_ok_iff`: one header for each salt, no other is read.
- `passphrase_file_exact`: why a header is refused, before Argon2 runs; what is sealed opens
  under the same passphrase; and neither kind of file is taken for the other.
-/

namespace UaCrypt.CryptoPwhash

open LittleEndian Chunks Hazmat Secretstream

/-- `CONTAINER_TYPE`. -/
def containerType : UInt8 := 0x50

/-- `CONTAINER_VERSION`. -/
def containerVersion : UInt8 := 0x01

/-- `KDF_ARGON2ID13`. -/
def kdfArgon2id13 : UInt8 := 0x01

/-- `PREFIX_LEN`. -/
@[reducible] def prefixLen : Nat := 3 + 4 + 4 + 1

/-- `HEADER_BYTES`. -/
@[reducible] def headerBytes : Nat := prefixLen + saltBytes

/-- `SEAL_STREAM_PREFIX_BYTES`. -/
@[reducible] def sealStreamPrefixBytes : Nat := headerBytes + filePrefixBytes

/-- `STRENGTH`: the one preset that is written and accepted. -/
def strength : Strength := .moderate

inductive PassphraseFileError where
  | notPassphraseFile
  | unsupportedFormat (version kdf : UInt8)
  | unsupportedParams (mCost tCost : UInt32) (pCost : UInt8)
  | emptyPassphrase
  | pwHash (e : PwHashError)
  deriving DecidableEq, Repr

section

variable (argon2 : Argon2) (reserve : Nat → Bool) (b : Build)

/-- `stream_key`. -/
def streamKey (passphrase : List UInt8) (salt : Vector UInt8 saltBytes) :
    Except PassphraseFileError (Vector UInt8 32) :=
  if passphrase = [] then .error .emptyPassphrase
  else
    match deriveKey argon2 reserve passphrase salt strength with
    | .error e => .error (.pwHash e)
    | .ok key => .ok key

/-- `u8::try_from(p_cost).unwrap_or(u8::MAX)`. -/
def pCostByte (pCost : UInt32) : UInt8 :=
  if pCost.toNat < 256 then UInt8.ofNat pCost.toNat else 255

/-- A header with these fields. -/
def headerWith (kind version kdf : UInt8) (mCost tCost : UInt32) (pCost : UInt8)
    (salt : Vector UInt8 saltBytes) : Vector UInt8 headerBytes :=
  overwrite (Vector.replicate headerBytes 0) (kind :: version :: kdf ::
    ((leBytes 4 mCost.toNat).toList ++ ((leBytes 4 tCost.toNat).toList ++ pCost :: salt.toList)))

/-- The header that `seal_stream` writes. -/
def headerOf (salt : Vector UInt8 saltBytes) : Vector UInt8 headerBytes :=
  headerWith containerType containerVersion kdfArgon2id13 strength.cost.1 strength.cost.2.1
    (pCostByte strength.cost.2.2) salt

/-- `seal_stream`; the salt and the stream's header are drawn. -/
def sealStream (salt : Except String (Vector UInt8 saltBytes))
    (header : Except String (Vector UInt8 32)) (passphrase : List UInt8) :
    Except PassphraseFileError (FileEncryptor × Vector UInt8 sealStreamPrefixBytes) :=
  match salt with
  | .error e => .error (.pwHash (.random e))
  | .ok salt =>
    match streamKey argon2 reserve passphrase salt with
    | .error e => .error e
    | .ok key =>
      match header with
      | .error e => .error (.pwHash (.random e))
      | .ok header =>
        let (enc, filePrefix) := FileEncryptor.init b key header
        .ok (enc, headerOf salt ++ filePrefix)

/-- `Header`: the costs are known, what is left is the salt. -/
structure Header where
  salt : Vector UInt8 saltBytes
  deriving DecidableEq

/-- `Header::parse`. -/
def Header.parse (header : Vector UInt8 headerBytes) : Except PassphraseFileError Header :=
  match header.toList with
  | kind :: version :: kdf :: m₀ :: m₁ :: m₂ :: m₃ :: t₀ :: t₁ :: t₂ :: t₃ :: p :: salt =>
    if kind ≠ containerType then .error .notPassphraseFile
    else if version ≠ containerVersion ∨ kdf ≠ kdfArgon2id13 then
      .error (.unsupportedFormat version kdf)
    else
      let mCost := UInt32.ofNat (leNat [m₀, m₁, m₂, m₃])
      let tCost := UInt32.ofNat (leNat [t₀, t₁, t₂, t₃])
      if Strength.fromCost mCost tCost p.toUInt32 ≠ some strength then
        .error (.unsupportedParams mCost tCost p)
      else .ok ⟨overwrite (Vector.replicate saltBytes 0) salt⟩
  -- the array has 28 bytes
  | _ => .error .notPassphraseFile

/-- `Header::open_stream`. -/
def Header.openStream (header : Header) (passphrase : List UInt8) :
    Except PassphraseFileError FileDecryptor :=
  match streamKey argon2 reserve passphrase header.salt with
  | .error e => .error e
  | .ok key => .ok (FileDecryptor.new key)

end

/-! ## The header -/

theorem toList_headerWith (kind version kdf : UInt8) (mCost tCost : UInt32) (pCost : UInt8)
    (salt : Vector UInt8 saltBytes) :
    (headerWith kind version kdf mCost tCost pCost salt).toList
      = kind :: version :: kdf :: ((leBytes 4 mCost.toNat).toList
        ++ ((leBytes 4 tCost.toNat).toList ++ pCost :: salt.toList)) := by
  apply toList_overwrite_of_length
  simp only [List.length_cons, List.length_append, Vector.length_toList]
  rfl

/-- The four bytes that spell a 32-bit number. -/
theorem toList_leBytes_four (n : UInt32) :
    (leBytes 4 n.toNat).toList = [(leBytes 4 n.toNat)[0], (leBytes 4 n.toNat)[1],
      (leBytes 4 n.toNat)[2], (leBytes 4 n.toNat)[3]] := rfl

theorem ofNat_leNat_leBytes (n : UInt32) :
    UInt32.ofNat (leNat (leBytes 4 n.toNat).toList) = n := by
  rw [leNat_leBytes_of_lt n.toNat_lt, UInt32.ofNat_toNat]

/-- Every four bytes spell a number. -/
theorem exists_leBytes_four (bytes : Vector UInt8 4) :
    ∃ n : UInt32, bytes.toList = (leBytes 4 n.toNat).toList := by
  have hlt : leNat bytes.toList < 2 ^ 32 := by
    have h := leNat_lt bytes.toList
    rwa [Vector.length_toList] at h
  exact ⟨UInt32.ofNatLT _ hlt, by rw [UInt32.toNat_ofNatLT, leBytes_leNat]⟩

/-- Every header has these fields. -/
theorem exists_headerWith (header : Vector UInt8 headerBytes) :
    ∃ kind version kdf mCost tCost pCost salt,
      header = headerWith kind version kdf mCost tCost pCost salt := by
  have hlen : header.toList.length = 28 := Vector.length_toList
  obtain ⟨kind, version, kdf, m₀, m₁, m₂, m₃, t₀, t₁, t₂, t₃, pCost, salt, hlist⟩ :
      ∃ kind version kdf m₀ m₁ m₂ m₃ t₀ t₁ t₂ t₃ pCost salt, header.toList
        = kind :: version :: kdf :: ([m₀, m₁, m₂, m₃] ++ ([t₀, t₁, t₂, t₃] ++ pCost :: salt)) := by
    match header.toList, hlen with
    | kind :: version :: kdf :: m₀ :: m₁ :: m₂ :: m₃ :: t₀ :: t₁ :: t₂ :: t₃ :: pCost :: salt, _ =>
      exact ⟨kind, version, kdf, m₀, m₁, m₂, m₃, t₀, t₁, t₂, t₃, pCost, salt, rfl⟩
  obtain ⟨mCost, hm⟩ := exists_leBytes_four #v[m₀, m₁, m₂, m₃]
  obtain ⟨tCost, ht⟩ := exists_leBytes_four #v[t₀, t₁, t₂, t₃]
  have hsalt : salt.length = saltBytes := by
    rw [hlist] at hlen
    simp only [List.length_cons, List.length_append, List.length_nil] at hlen
    show salt.length = 16
    omega
  refine ⟨kind, version, kdf, mCost, tCost, pCost,
    overwrite (Vector.replicate saltBytes 0) salt, ?_⟩
  apply Vector.toList_inj.mp
  rw [toList_headerWith, ← hm, ← ht, toList_overwrite_of_length _ hsalt]
  exact hlist

theorem parse_headerWith (kind version kdf : UInt8) (mCost tCost : UInt32) (pCost : UInt8)
    (salt : Vector UInt8 saltBytes) :
    Header.parse (headerWith kind version kdf mCost tCost pCost salt)
      = if kind ≠ containerType then .error .notPassphraseFile
        else if version ≠ containerVersion ∨ kdf ≠ kdfArgon2id13 then
          .error (.unsupportedFormat version kdf)
        else if (mCost, tCost, pCost) ≠ (262144, 3, 1) then
          .error (.unsupportedParams mCost tCost pCost)
        else .ok ⟨salt⟩ := by
  have hcost : Strength.fromCost mCost tCost pCost.toUInt32 ≠ some strength
      ↔ (mCost, tCost, pCost) ≠ (262144, 3, 1) := by
    rw [ne_eq, Strength.fromCost_eq_some_iff]
    have hp : (1 : UInt32) = pCost.toUInt32 ↔ pCost = 1 := by
      rw [eq_comm, ← UInt32.toNat_inj, ← UInt8.toNat_inj, UInt8.toNat_toUInt32]
      rfl
    show ¬((262144, 3, 1) : UInt32 × UInt32 × UInt32) = (mCost, tCost, pCost.toUInt32) ↔ _
    rw [Prod.mk.injEq, Prod.mk.injEq, hp, ne_eq, Prod.mk.injEq, Prod.mk.injEq, eq_comm (b := mCost),
      eq_comm (b := tCost)]
  have hm := ofNat_leNat_leBytes mCost
  have ht := ofNat_leNat_leBytes tCost
  have hsame : overwrite (Vector.replicate saltBytes 0) salt.toList = salt :=
    Vector.toList_inj.mp (toList_overwrite_of_length _ Vector.length_toList)
  rw [toList_leBytes_four] at hm ht
  rw [Header.parse, toList_headerWith, toList_leBytes_four, toList_leBytes_four]
  simp only [List.cons_append, List.nil_append, hm, ht, hsame, hcost]

/-- What is read is what is written for some salt. -/
theorem parse_eq_ok_iff {header : Vector UInt8 headerBytes} {h : Header} :
    Header.parse header = .ok h ↔ header = headerOf h.salt := by
  have hcost : headerOf h.salt = headerWith containerType containerVersion kdfArgon2id13
      262144 3 1 h.salt := rfl
  constructor
  · intro hparse
    obtain ⟨kind, version, kdf, mCost, tCost, pCost, salt, rfl⟩ := exists_headerWith header
    rw [parse_headerWith] at hparse
    -- the checks in the order of the source: kind, version and kdf, costs
    split at hparse
    · cases hparse
    · rename_i hkind
      split at hparse
      · cases hparse
      · rename_i hformat
        split at hparse
        · cases hparse
        · rename_i hcosts
          cases hparse
          rw [not_not] at hkind hcosts
          rw [not_or, not_not, not_not] at hformat
          cases hcosts
          rw [hcost, hkind, hformat.1, hformat.2]
  · rintro rfl
    rw [hcost, parse_headerWith, if_neg (not_not_intro rfl), if_neg (by decide),
      if_neg (not_not_intro rfl)]

/-! ## The stream behind it -/

section

variable {argon2 : Argon2} {b : Build}

theorem streamKey_eq_ok_iff {reserve : Nat → Bool} {passphrase : List UInt8}
    {salt : Vector UInt8 saltBytes} {key : Vector UInt8 32} :
    streamKey argon2 reserve passphrase salt = .ok key
      ↔ passphrase ≠ [] ∧ reserve (argon2.blockCount strength.params) = true
        ∧ argon2.hashInto .argon2id strength.params passphrase salt.toList keyBytes = .ok key := by
  rw [streamKey, deriveKey, hashIntoReservedMemory]
  by_cases hempty : passphrase = []
  · rw [if_pos hempty]
    refine ⟨fun h => ?_, fun h => absurd hempty h.1⟩
    cases h
  · rw [if_neg hempty]
    by_cases hreserve : reserve (argon2.blockCount strength.params) = true
    · rw [if_pos hreserve]
      cases argon2.hashInto .argon2id strength.params passphrase salt.toList keyBytes with
      | error e =>
        refine ⟨fun h => ?_, fun h => ?_⟩
        · cases h
        · cases h.2.2
      | ok out =>
        refine ⟨fun h => ?_, fun h => ?_⟩
        · cases h
          exact ⟨hempty, hreserve, rfl⟩
        · cases h.2.2
          rfl
    · rw [if_neg hreserve]
      refine ⟨fun h => ?_, fun h => absurd h.2.1 hreserve⟩
      cases h

/-- Where memory allows, the key is what it was. -/
theorem streamKey_of_ok {reserve reserve' : Nat → Bool} {passphrase : List UInt8}
    {salt : Vector UInt8 saltBytes} {key : Vector UInt8 32}
    (h : streamKey argon2 reserve passphrase salt = .ok key)
    (hreserve : reserve' (argon2.blockCount strength.params) = true) :
    streamKey argon2 reserve' passphrase salt = .ok key := by
  obtain ⟨hpassphrase, -, hrun⟩ := streamKey_eq_ok_iff.mp h
  exact streamKey_eq_ok_iff.mpr ⟨hpassphrase, hreserve, hrun⟩

theorem sealStream_eq_ok {reserve : Nat → Bool} {drawnSalt : Except String (Vector UInt8 saltBytes)}
    {drawnHeader : Except String (Vector UInt8 32)} {passphrase : List UInt8} {enc : FileEncryptor}
    {pre : Vector UInt8 sealStreamPrefixBytes}
    (h : sealStream argon2 reserve b drawnSalt drawnHeader passphrase = .ok (enc, pre)) :
    ∃ salt header key, drawnSalt = .ok salt ∧ drawnHeader = .ok header
      ∧ streamKey argon2 reserve passphrase salt = .ok key
      ∧ enc = (FileEncryptor.init b key header).1
      ∧ pre.toList = (headerOf salt).toList ++ (FileEncryptor.init b key header).2.toList := by
  unfold sealStream at h
  split at h
  · cases h
  · rename_i salt
    split at h
    · cases h
    · rename_i key hkey
      split at h
      · cases h
      · rename_i header
        cases h
        exact ⟨salt, header, key, rfl, rfl, hkey, rfl, Vector.toList_append⟩

/-- A stream file begins with its version, and nothing else is read as one. -/
theorem openAll_of_version_ne {key : Vector UInt8 32} {first : UInt8} (hfirst : first ≠ formatVersion)
    (rest : List UInt8) :
    openAll b (FileDecryptor.new key) (first :: rest) = .error (.unsupportedVersion first) := by
  have hpass : ¬([first].length ≠ (FileDecryptor.new key).nextLen
      ∨ (Vector.replicate chunkBytes (0 : UInt8)).toList.length < chunkBytes) := by
    simp [FileDecryptor.nextLen, FileDecryptor.new]
  have hdec : (FileDecryptor.new key).feed b [first] (Vector.replicate chunkBytes 0).toList
      = (.error (.unsupportedVersion first), (FileDecryptor.new key).fail,
        (Vector.replicate chunkBytes 0).toList) := by
    rw [FileDecryptor.feed, if_neg (by simp [FileDecryptor.new]), if_neg hpass]
    simp only [FileDecryptor.step, FileDecryptor.new, List.getD_cons_zero, ne_eq, hfirst,
      not_false_eq_true, if_true]
  have hfeed : (fileReader b).feed ⟨FileDecryptor.new key, Vector.replicate chunkBytes 0⟩ [first]
      = .error (.unsupportedVersion first) := by
    simp only [fileReader, hdec]
  exact Framing.Reader.read_of_error (fileReader b) rfl hfeed

/-- The front of an accepted stream file is no header of a passphrase file. -/
theorem parse_of_openAll {key : Vector UInt8 32} {file p : List UInt8}
    (hopen : openAll b (FileDecryptor.new key) file = .ok p) {header : Vector UInt8 headerBytes}
    (hfront : header.toList <+: file) : Header.parse header = .error .notPassphraseFile := by
  obtain ⟨kind, version, kdf, mCost, tCost, pCost, salt, rfl⟩ := exists_headerWith header
  obtain ⟨rest, rfl⟩ := hfront
  rw [parse_headerWith, if_pos]
  rintro rfl
  rw [toList_headerWith, List.cons_append, openAll_of_version_ne (by decide)] at hopen
  cases hopen

/-- **Passphrase files.** Every header is read or refused for the first field that is not
what is written; the headers that are read are those written for some salt. What is sealed
opens under the same passphrase wherever Argon2 has its memory. A passphrase file is no
stream file, and a stream file no passphrase file. -/
theorem passphrase_file_exact (argon2 : Argon2) (b : Build) :
    (∀ header, ∃ kind version kdf mCost tCost pCost salt,
        header = headerWith kind version kdf mCost tCost pCost salt
          ∧ Header.parse header
            = if kind ≠ containerType then .error .notPassphraseFile
              else if version ≠ containerVersion ∨ kdf ≠ kdfArgon2id13 then
                .error (.unsupportedFormat version kdf)
              else if (mCost, tCost, pCost) ≠ (262144, 3, 1) then
                .error (.unsupportedParams mCost tCost pCost)
              else .ok ⟨salt⟩)
      ∧ (∀ header h, Header.parse header = .ok h ↔ header = headerOf h.salt)
      ∧ (∀ reserve salt header passphrase enc pre,
        sealStream argon2 reserve b (.ok salt) (.ok header) passphrase = .ok (enc, pre) →
          ∀ plaintext, recordCount plaintext.length < 2 ^ 64 → ∃ enc' rest,
            enc.sealAll b plaintext pre.toList = (.ok (), enc', (headerOf salt).toList ++ rest)
              ∧ ∀ reserve', reserve' (argon2.blockCount strength.params) = true →
                ∃ dec, Header.openStream argon2 reserve' ⟨salt⟩ passphrase = .ok dec
                  ∧ openAll b dec rest = .ok plaintext)
      ∧ (∀ key salt rest, openAll b (FileDecryptor.new key) ((headerOf salt).toList ++ rest)
          = .error (.unsupportedVersion containerType))
      ∧ ∀ key file p header, openAll b (FileDecryptor.new key) file = .ok p →
        header.toList <+: file → Header.parse header = .error .notPassphraseFile := by
  refine ⟨?_, fun header h => parse_eq_ok_iff, ?_, ?_, ?_⟩
  · intro header
    obtain ⟨kind, version, kdf, mCost, tCost, pCost, salt, rfl⟩ := exists_headerWith header
    exact ⟨kind, version, kdf, mCost, tCost, pCost, salt, rfl, parse_headerWith _ _ _ _ _ _ _⟩
  · intro reserve salt header passphrase enc pre hseal plaintext hcount
    obtain ⟨salt, header, key, hsalt, hheader, hkey, rfl, hpre⟩ := sealStream_eq_ok hseal
    cases hsalt
    cases hheader
    obtain ⟨enc', rest, hall, hfile⟩ :=
      isFile_sealAll_append b key header plaintext (headerOf salt).toList hcount
    refine ⟨enc', rest, by rw [hpre, hall], fun reserve' hreserve => ?_⟩
    refine ⟨FileDecryptor.new key, ?_, openAll_eq_ok_iff_isFile.mpr ⟨header, _, hfile, ?_⟩⟩
    · rw [Header.openStream, streamKey_of_ok hkey hreserve]
    · rw [plaintextOf_chunksOf]
  · intro key salt rest
    rw [headerOf, toList_headerWith, List.cons_append]
    exact openAll_of_version_ne (by decide) _
  · intro key file p header hopen hfront
    exact parse_of_openAll hopen hfront

end

end UaCrypt.CryptoPwhash

import UaCrypt.Hazmat.KalynaCorrect
import UaCrypt.Hazmat.Kupyna
import UaCrypt.Hazmat.Strumok

/-!
# The two resource profiles compute the same functions

Every `f_profile` lemma says that `f` does not depend on the profile. At the
bottom stand the table layer (`forwardSboxMds`, `applyForwardMatrix` and their
inverses) and Strumok's `tFunction`, whose combined tables `T0..T7` are checked
entry by entry against the shared S-boxes and MDS columns (`composeCheck_t`);
everything above inherits it, through the key schedule's loop, Kupyna's
compression and Strumok's clocking.

- `smallTables_eq_fused`: the whole statement.
-/

namespace UaCrypt.Hazmat

open LittleEndian ByteTable Tables ColumnState

/-! ## Tables -/

namespace Tables

theorem forwardSboxMds_profile (p : Profile) : forwardSboxMds p = forwardSboxMds .fused := by
  funext row byte
  rw [forwardSboxMds_eq, forwardSboxMds_eq]

theorem inverseSboxMds_profile (p : Profile) : inverseSboxMds p = inverseSboxMds .fused := by
  funext row byte
  rw [inverseSboxMds_eq, inverseSboxMds_eq]

theorem applyForwardMatrix_profile (p : Profile) {n : Nat} (state : Vector Column n) :
    applyForwardMatrix p state = applyForwardMatrix .fused state := by
  rw [applyForwardMatrix_eq, applyForwardMatrix_eq]

theorem applyInverseMatrix_profile (p : Profile) {n : Nat} (state : Vector Column n) :
    applyInverseMatrix p state = applyInverseMatrix .fused state := by
  rw [applyInverseMatrix_eq, applyInverseMatrix_eq]

end Tables

/-! ## Kalyna -/

namespace Kalyna

variable {nb : Nat} (p : Profile)

theorem encipherRound_profile : @encipherRound nb p = encipherRound .fused := by
  funext state
  rw [encipherRound, encipherRound, forwardSboxMds_profile]

theorem encipherRoundN_profile : @encipherRoundN nb p = encipherRoundN .fused := by
  funext state
  rw [encipherRoundN, encipherRoundN, forwardSboxMds_profile]

theorem fusedInvRoundN_profile : @fusedInvRoundN nb p = fusedInvRoundN .fused := by
  funext state
  rw [fusedInvRoundN, fusedInvRoundN, inverseSboxMds_profile]

theorem transformKeysForDecrypt_profile :
    @transformKeysForDecrypt nb p = transformKeysForDecrypt .fused := by
  funext keys nr
  simp only [transformKeysForDecrypt, applyInverseMatrix_profile p]

theorem roundKeyFrom_profile : @roundKeyFrom nb p = roundKeyFrom .fused := by
  funext base tmp
  simp only [roundKeyFrom, encipherRound_profile p]

theorem keyExpandEvenLoop_profile (v : Variant) (kt : State v.nb) (round : Nat)
    (hround : round ≤ v.nr ∧ round % 2 = 0) (initialData : Vector Column v.nk) (tmv : State v.nb)
    (roundKeys : RoundKeys v.nb) :
    keyExpandEvenLoop p v kt round hround initialData tmv roundKeys
      = keyExpandEvenLoop .fused v kt round hround initialData tmv roundKeys := by
  -- one turn of the loop uses the profile only in `roundKeyFrom`
  induction hn : v.nr - round using Nat.strongRecOn
    generalizing round initialData tmv roundKeys with
  | ind n ih =>
    rw [keyExpandEvenLoop, keyExpandEvenLoop]
    simp only [roundKeyFrom_profile p]
    split
    · rfl
    · split
      · split
        · rfl
        · exact ih _ (by omega) _ _ _ _ _ rfl
      · exact ih _ (by omega) _ _ _ _ _ rfl

theorem keyExpand_profile (v : Variant) : keyExpand p v = keyExpand .fused v := by
  funext key
  simp only [keyExpand, keyExpandEven, keyExpandEvenLoop_profile p, keyExpandKt,
    encipherRound_profile p]

theorem encryptWithSchedule_profile :
    @encryptWithSchedule nb p = encryptWithSchedule .fused := by
  funext r keys plaintext
  rw [encryptWithSchedule_eq_rounds, encryptWithSchedule_eq_rounds, encipherRoundN_profile]

theorem decryptWithSchedule_profile :
    @decryptWithSchedule nb p = decryptWithSchedule .fused := by
  funext r keys decKeys ciphertext
  rw [decryptWithSchedule_eq_rounds, decryptWithSchedule_eq_rounds, fusedInvRoundN_profile,
    applyInverseMatrix_profile]

theorem encrypt_profile (v : Variant) : encrypt p v = encrypt .fused v := by
  funext key block
  rw [encrypt, encrypt, encryptGeneric, encryptGeneric, keyExpand_profile,
    encryptWithSchedule_profile]

theorem decrypt_profile (v : Variant) : decrypt p v = decrypt .fused v := by
  funext key block
  rw [decrypt, decrypt, decryptGeneric, decryptGeneric, keyExpand_profile,
    decryptWithSchedule_profile, transformKeysForDecrypt_profile]

theorem ExpandedKey.new_profile (v : Variant) : ExpandedKey.new p v = ExpandedKey.new .fused v := by
  funext key
  rw [ExpandedKey.new, ExpandedKey.new, keyExpand_profile, transformKeysForDecrypt_profile]

theorem ExpandedKey.encryptBlock_profile (v : Variant) :
    ExpandedKey.encryptBlock (v := v) p = ExpandedKey.encryptBlock .fused := by
  funext key block
  rw [ExpandedKey.encryptBlock, ExpandedKey.encryptBlock, encryptWithSchedule_profile]

theorem ExpandedKey.decryptBlock_profile (v : Variant) :
    ExpandedKey.decryptBlock (v := v) p = ExpandedKey.decryptBlock .fused := by
  funext key block
  rw [ExpandedKey.decryptBlock, ExpandedKey.decryptBlock, decryptWithSchedule_profile]

end Kalyna

/-! ## Kupyna -/

namespace Kupyna

variable {w : Width} (p : Profile)

theorem subShiftMixN_profile : subShiftMixN (w := w) p = subShiftMixN .fused := by
  funext state
  rw [subShiftMixN, subShiftMixN, forwardSboxMds_profile]

theorem tTransformN_profile : tTransformN (w := w) p = tTransformN .fused := by
  funext state
  rw [tTransformN, tTransformN, subShiftMixN_profile]

theorem tPlusTransformN_profile : tPlusTransformN (w := w) p = tPlusTransformN .fused := by
  funext state
  rw [tPlusTransformN, tPlusTransformN, subShiftMixN_profile]

theorem compressBlock_profile :
    KupynaCore.compressBlock (w := w) p = KupynaCore.compressBlock .fused := by
  funext h block
  rw [KupynaCore.compressBlock, KupynaCore.compressBlock, compressN, compressN,
    tTransformN_profile, tPlusTransformN_profile]

theorem update_profile : KupynaCore.update (w := w) p = KupynaCore.update .fused := by
  funext core data
  simp only [KupynaCore.update, KupynaCore.updateBlocks, compressBlock_profile p]

theorem finalize_profile : KupynaCore.finalize (w := w) p = KupynaCore.finalize .fused := by
  funext core outputBytes hle
  simp only [KupynaCore.finalize, KupynaCore.output, compressBlock_profile p,
    tTransformN_profile p]

theorem digestGeneric_profile : digestGeneric p = digestGeneric .fused := by
  funext w message outputBytes hle
  rw [digestGeneric, digestGeneric, update_profile, finalize_profile]

end Kupyna

/-! ## Strumok -/

namespace Strumok

/-- `T0..T7`. -/
def tTables : Vector (Vector UInt64 256) 8 := #v[t0, t1, t2, t3, t4, t5, t6, t7]

theorem composeCheck_t : ∀ row : Fin 8,
    composeCheck tTables[row] mdsTable[row]
      (sboxes.get ⟨row.val % 4, Nat.mod_lt _ (by decide)⟩) = true := by
  decide +kernel

/-- Each combined table is the S-box of its row, then the MDS column. -/
theorem lookup_tTables (row : Fin 8) (byte : UInt8) :
    lookup tTables[row] byte = lookup mdsTable[row] (substitute sboxes row byte) :=
  lookup_of_composeCheck (composeCheck_t row) byte

/-- `((w >> 8 * i) & 0xff) as usize` is byte `i`. -/
theorem byte_eq (w : UInt64) (i : Fin 8) :
    ((w >>> UInt64.ofNat (8 * i.val)) &&& 0xff).toUInt8 = (toLeBytes w)[i] := by
  apply UInt8.toNat_inj.mp
  have hshift : 8 * i.val < 64 := by omega
  have hmask : ∀ x : Nat, x &&& 255 = x % 2 ^ 8 := fun x => Nat.and_two_pow_sub_one_eq_mod x 8
  simp [toLeBytes, Nat.mod_eq_of_lt hshift, hmask]

/-- `T` in either profile: substitute the bytes, mix the column. -/
theorem tFunction_eq (p : Profile) (w : UInt64) :
    tFunction p w
      = xorFold 0 fun row : Fin 8 =>
          lookup mdsTable[row] (substitute sboxes row (toLeBytes w)[row]) := by
  cases p with
  | fused =>
    have hentry : ∀ row : Fin 8, lookup mdsTable[row] (substitute sboxes row (toLeBytes w)[row])
        = lookup tTables[row] ((w >>> UInt64.ofNat (8 * row.val)) &&& 0xff).toUInt8 := by
      intro row
      rw [lookup_tTables, byte_eq]
    have hfold : ∀ f : Fin 8 → UInt64,
        xorFold 0 f = f 0 ^^^ f 1 ^^^ f 2 ^^^ f 3 ^^^ f 4 ^^^ f 5 ^^^ f 6 ^^^ f 7 := by
      intro f
      show 0 ^^^ f 0 ^^^ f 1 ^^^ f 2 ^^^ f 3 ^^^ f 4 ^^^ f 5 ^^^ f 6 ^^^ f 7 = _
      rw [UInt64.zero_xor]
    have hlow : w >>> UInt64.ofNat (8 * (0 : Fin 8).val) = w := UInt64.shiftRight_zero
    simp only [hentry]
    rw [hfold, hlow]
    rfl
  | smallTables =>
    simp only [tFunction, applyForwardMatrix_eq, applyMatrix]
    simp [xorEntries]

theorem tFunction_profile (p : Profile) : tFunction p = tFunction .fused := by
  funext w
  rw [tFunction_eq, tFunction_eq]

variable (p : Profile)

theorem nextStep_profile : nextStep p = nextStep .fused := by
  funext g initMode
  simp only [nextStep, tFunction_profile p]

theorem nextBlock_profile : nextBlock p = nextBlock .fused := by
  have hstep : blockStep p = blockStep .fused := by
    funext input run idx
    simp only [blockStep, tFunction_profile p]
  funext s r0 r1 input
  rw [nextBlock, nextBlock, hstep]

namespace Core

theorem new_profile : Core.new p = Core.new .fused := by
  funext size key iv
  simp only [Core.new, nextStep_profile p]

theorem bulkLoop_profile (core : Core) (data : List UInt8) :
    bulkLoop p core data = bulkLoop .fused core data := by
  induction hn : data.length using Nat.strongRecOn generalizing core data with
  | ind n ih =>
    rw [bulkLoop, bulkLoop.eq_1 .fused]
    split
    · rename_i h
      simp only [nextBlock_profile p]
      rw [ih _ (by rw [List.length_drop]; omega) _ _ rfl]
    · rfl

theorem remainder_profile (core : Core) (data : List UInt8) :
    remainder p core data = remainder .fused core data := by
  have hrefill : refill p = refill .fused := by
    funext core
    simp only [refill, nextStep_profile p]
  induction data generalizing core with
  | nil => rfl
  | cons b data ih => simp only [remainder, hrefill, ih]

theorem applyKeystream_profile : applyKeystream p = applyKeystream .fused := by
  funext core data
  simp only [applyKeystream, bulk, bulkLoop_profile p, remainder_profile p]

end Core

end Strumok

/-- **The `small-tables` build computes what the default build computes**: the
table layer and `T` on every input, hence every Kalyna block (one-shot and
through a cached schedule), every Kupyna digest (one-shot and streamed) and every
Strumok keystream, call by call. -/
theorem smallTables_eq_fused :
    ((∀ row byte, forwardSboxMds .smallTables row byte = forwardSboxMds .fused row byte)
      ∧ (∀ row byte, inverseSboxMds .smallTables row byte = inverseSboxMds .fused row byte)
      ∧ (∀ (n : Nat) (state : Vector Column n),
          applyForwardMatrix .smallTables state = applyForwardMatrix .fused state
            ∧ applyInverseMatrix .smallTables state = applyInverseMatrix .fused state)
      ∧ (∀ w, Strumok.tFunction .smallTables w = Strumok.tFunction .fused w))
    ∧ (∀ (v : Kalyna.Variant) (key : Vector UInt8 v.keyBytes) (block : Vector UInt8 v.blockBytes),
        Kalyna.encrypt .smallTables v key block = Kalyna.encrypt .fused v key block
          ∧ Kalyna.decrypt .smallTables v key block = Kalyna.decrypt .fused v key block
          ∧ (Kalyna.ExpandedKey.new .smallTables v key).encryptBlock .smallTables block
              = (Kalyna.ExpandedKey.new .fused v key).encryptBlock .fused block
          ∧ (Kalyna.ExpandedKey.new .smallTables v key).decryptBlock .smallTables block
              = (Kalyna.ExpandedKey.new .fused v key).decryptBlock .fused block)
    ∧ (∀ message,
        Kupyna.Kupyna256.digest .smallTables message = Kupyna.Kupyna256.digest .fused message
          ∧ Kupyna.Kupyna384.digest .smallTables message = Kupyna.Kupyna384.digest .fused message
          ∧ Kupyna.Kupyna512.digest .smallTables message = Kupyna.Kupyna512.digest .fused message)
    ∧ (∀ (w : Kupyna.Width) (core : Kupyna.KupynaCore w),
        core.update .smallTables = core.update .fused
          ∧ core.finalize .smallTables = core.finalize .fused)
    ∧ (∀ (size : Strumok.KeySize) (key : Vector UInt8 size.bytes) (iv : Vector UInt8 32),
        Strumok.Core.new .smallTables size key iv = Strumok.Core.new .fused size key iv)
    ∧ (∀ (core : Strumok.Core) (data : List UInt8),
        core.applyKeystream .smallTables data = core.applyKeystream .fused data) := by
  refine ⟨⟨?_, ?_, ?_, ?_⟩, ?_, ?_, ?_, ?_, ?_⟩
  · intro row byte
    rw [forwardSboxMds_profile]
  · intro row byte
    rw [inverseSboxMds_profile]
  · intro n state
    exact ⟨applyForwardMatrix_profile _ state, applyInverseMatrix_profile _ state⟩
  · intro w
    rw [Strumok.tFunction_profile]
  · intro v key block
    rw [Kalyna.encrypt_profile, Kalyna.decrypt_profile, Kalyna.ExpandedKey.new_profile,
      Kalyna.ExpandedKey.encryptBlock_profile, Kalyna.ExpandedKey.decryptBlock_profile]
    exact ⟨rfl, rfl, rfl, rfl⟩
  · intro message
    simp only [Kupyna.Kupyna256.digest, Kupyna.Kupyna384.digest, Kupyna.Kupyna512.digest]
    rw [Kupyna.digestGeneric_profile]
    exact ⟨rfl, rfl, rfl⟩
  · intro w core
    rw [Kupyna.update_profile, Kupyna.finalize_profile]
    exact ⟨rfl, rfl⟩
  · intro size key iv
    rw [Strumok.Core.new_profile]
  · intro core data
    rw [Strumok.Core.applyKeystream_profile]

end UaCrypt.Hazmat

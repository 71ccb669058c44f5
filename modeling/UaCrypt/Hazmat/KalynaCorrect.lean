import UaCrypt.Hazmat.Kalyna

/-!
# Kalyna: the fused code refines the three-pass cipher and decrypts

- `encipherRoundN_eq_naive`, `fusedInvRoundN_eq`: a gather-and-XOR pass is
  substitute, permute, mix. The masked gather index is the permutation's because
  `nb` is a power of two.
- `encryptWithSchedule_eq_naive`, `decryptWithSchedule_eq_naive`: the unrolled
  index lists are the slice `keys[1..nr]`, and the decryption side is the
  equivalent inverse cipher of `RoundCipher.rounds_equivalent_inverse`, since
  unmixing is XOR-linear.
- `decryptWithSchedule_encryptWithSchedule` and its converse, for every schedule,
  by `RoundCipher.rounds_unwind`.
-/

namespace UaCrypt.Hazmat.Kalyna

open LittleEndian Tables ColumnState RoundCipher

variable {nb : Nat}

/-! ## Layers -/

@[simp] theorem subRoundKey_addRoundKey (state key : State nb) :
    subRoundKey (addRoundKey state key) key = state := by
  apply Vector.ext
  intro i hi
  simp [subRoundKey, addRoundKey]

@[simp] theorem addRoundKey_subRoundKey (state key : State nb) :
    addRoundKey (subRoundKey state key) key = state := by
  apply Vector.ext
  intro i hi
  simp [subRoundKey, addRoundKey]

theorem rowShift_le (row : Fin 8) : rowShift nb row ≤ nb := by
  have hrow : row.val * nb ≤ 8 * nb := Nat.mul_le_mul_right nb (Nat.le_of_lt row.isLt)
  rw [rowShift]
  omega

section PowerOfTwo

variable (hnb : nb.isPowerOfTwo)
include hnb

/-- The fused encryption round is substitute, permute, mix. -/
theorem encipherRoundN_eq_naive (p : Profile) (state : State nb) :
    encipherRoundN p state = naiveEncipherRound p state :=
  gatherRound_forward hnb rowShift_le p state

/-- The fused decryption round is permute back, substitute back, unmix. -/
theorem fusedInvRoundN_eq (p : Profile) (state : State nb) :
    fusedInvRoundN p state = applyInverseMatrix p (invSubBytes (invShiftRows state)) :=
  gatherRound_inverse hnb p state

end PowerOfTwo

theorem decipherRound_naiveEncipherRound (p : Profile) (state : State nb) :
    decipherRound p (naiveEncipherRound p state) = state := by
  rw [decipherRound, naiveEncipherRound, applyInverseMatrix_applyForwardMatrix, invShiftRows,
    shiftRows, unrotateRows_rotateRows, invSubBytes, subBytes, substituteState_dec_enc]

theorem naiveEncipherRound_decipherRound (p : Profile) (state : State nb) :
    naiveEncipherRound p (decipherRound p state) = state := by
  rw [decipherRound, naiveEncipherRound, invSubBytes, subBytes, substituteState_enc_dec,
    invShiftRows, shiftRows, rotateRows_unrotateRows, applyForwardMatrix_applyInverseMatrix]

/-! ## Unrolled rounds -/

theorem toList_eq_map_finRange {α : Type} {n : Nat} (xs : Vector α n) :
    xs.toList = (List.finRange n).map (fun i => xs[i]) := by
  apply List.ext_getElem
  · simp
  · intro i h₁ h₂
    simp

theorem encryptIndices_eq (r : Rounds) :
    encryptIndices r = ((List.finRange 19).take r.nr).drop 1 := by
  cases r <;> rfl

theorem decryptIndices_eq (r : Rounds) : decryptIndices r = (encryptIndices r).reverse := by
  cases r <;> rfl

/-- The listed keys are the slice `keys[1..nr]`. -/
theorem map_encryptIndices (keys : RoundKeys nb) (r : Rounds) :
    (encryptIndices r).map (fun i => keys[i]) = interiorKeys keys r.nr := by
  rw [encryptIndices_eq, interiorKeys, toList_eq_map_finRange, List.map_drop, List.map_take]

theorem unrollRounds_eq_rounds (roundFn : State nb → State nb) (keys : RoundKeys nb)
    (idx : List (Fin 19)) (state : State nb) :
    unrollRounds roundFn keys idx state
      = rounds roundFn xorRoundKey (idx.map fun i => keys[i]) state := by
  rw [unrollRounds, rounds, List.foldl_map]

theorem length_interiorKeys (keys : RoundKeys nb) (nr : Nat) :
    (interiorKeys keys nr).length = min nr 19 - 1 := by
  simp [interiorKeys]

theorem getElem_interiorKeys (keys : RoundKeys nb) (nr i : Nat)
    (h : i < (interiorKeys keys nr).length) (hi : i + 1 < 19) :
    (interiorKeys keys nr)[i] = keys[i + 1] := by
  simp [interiorKeys]

/-- The transformed schedule's interior keys are the unmixed interior keys. -/
theorem interiorKeys_transformKeysForDecrypt (p : Profile) (keys : RoundKeys nb) (nr : Nat) :
    interiorKeys (transformKeysForDecrypt p keys nr) nr
      = (interiorKeys keys nr).map (applyInverseMatrix p) := by
  apply List.ext_getElem
  · rw [List.length_map, length_interiorKeys, length_interiorKeys]
  · intro i h₁ h₂
    have hi := h₁
    rw [length_interiorKeys] at hi
    have hrange : 1 ≤ i + 1 ∧ i + 1 < nr := by omega
    have hlt : i + 1 < 19 := by omega
    rw [List.getElem_map, getElem_interiorKeys _ _ _ _ hlt, getElem_interiorKeys _ _ _ _ hlt,
      transformKeysForDecrypt, Vector.getElem_mapIdx, if_pos hrange]

/-! ## Whole blocks -/

theorem encryptWithSchedule_eq_rounds (p : Profile) (r : Rounds) (keys : RoundKeys nb)
    (plaintext : Vector UInt8 (nb * 8)) :
    encryptWithSchedule p r keys plaintext
      = bytesFromColumns (addRoundKey (encipherRoundN p
          (rounds (encipherRoundN p) xorRoundKey (interiorKeys keys r.nr)
            (addRoundKey (columnsFromBytes plaintext nb (Nat.le_refl _)) keys[0])))
          (lastKey keys r)) := by
  cases p with
  | fused =>
    simp only [encryptWithSchedule]
    rw [unrollRounds_eq_rounds, map_encryptIndices]
  | smallTables => rfl

theorem decryptWithSchedule_eq_rounds (p : Profile) (r : Rounds) (keys decKeys : RoundKeys nb)
    (ciphertext : Vector UInt8 (nb * 8)) :
    decryptWithSchedule p r keys decKeys ciphertext
      = bytesFromColumns (subRoundKey (invSubBytes (invShiftRows
          (rounds (fusedInvRoundN p) xorRoundKey (interiorKeys decKeys r.nr).reverse
            (applyInverseMatrix p (subRoundKey (columnsFromBytes ciphertext nb (Nat.le_refl _))
              (lastKey keys r)))))) keys[0]) := by
  cases p with
  | fused =>
    simp only [decryptWithSchedule]
    rw [unrollRounds_eq_rounds, decryptIndices_eq, List.map_reverse, map_encryptIndices]
  | smallTables => rfl

section PowerOfTwo

variable (hnb : nb.isPowerOfTwo)
include hnb

/-- Unrolled, fused encryption is the plain loop of three-pass rounds. -/
theorem encryptWithSchedule_eq_naive (p : Profile) (r : Rounds) (keys : RoundKeys nb)
    (plaintext : Vector UInt8 (nb * 8)) :
    encryptWithSchedule p r keys plaintext = naiveEncryptWithSchedule p r keys plaintext := by
  have hround : @encipherRoundN nb p = naiveEncipherRound p :=
    funext (encipherRoundN_eq_naive hnb p)
  rw [encryptWithSchedule_eq_rounds, hround]
  rfl

/-- The equivalent inverse cipher on transformed keys is the untransformed
decryption. -/
theorem decryptWithSchedule_eq_naive (p : Profile) (r : Rounds) (keys : RoundKeys nb)
    (ciphertext : Vector UInt8 (nb * 8)) :
    decryptWithSchedule p r keys (transformKeysForDecrypt p keys r.nr) ciphertext
      = naiveDecryptWithSchedule p r keys ciphertext := by
  have hround : @fusedInvRoundN nb p
      = fun s => applyInverseMatrix p (invSubBytes (invShiftRows s)) :=
    funext (fusedInvRoundN_eq hnb p)
  rw [decryptWithSchedule_eq_rounds, interiorKeys_transformKeysForDecrypt, ← List.map_reverse,
    hround]
  rw [rounds_equivalent_inverse xorRoundKey (N := fun s => invSubBytes (invShiftRows s))
    (applyInverseMatrix_xorState p)]
  rfl

end PowerOfTwo

theorem naiveDecrypt_naiveEncrypt (p : Profile) (r : Rounds) (keys : RoundKeys nb)
    (block : Vector UInt8 (nb * 8)) :
    naiveDecryptWithSchedule p r keys (naiveEncryptWithSchedule p r keys block) = block := by
  have hunwind := rounds_unwind xorRoundKey (@decipherRound_naiveEncipherRound nb p)
    xorState_xorState (interiorKeys keys r.nr)
    (addRoundKey (columnsFromBytes block nb (Nat.le_refl _)) keys[0])
  simp only [rounds] at hunwind
  simp only [naiveDecryptWithSchedule, naiveEncryptWithSchedule,
    columnsFromBytes_bytesFromColumns, subRoundKey_addRoundKey]
  rw [hunwind, decipherRound_naiveEncipherRound, subRoundKey_addRoundKey,
    bytesFromColumns_columnsFromBytes]

theorem naiveEncrypt_naiveDecrypt (p : Profile) (r : Rounds) (keys : RoundKeys nb)
    (block : Vector UInt8 (nb * 8)) :
    naiveEncryptWithSchedule p r keys (naiveDecryptWithSchedule p r keys block) = block := by
  have hunwind := rounds_unwind xorRoundKey (@naiveEncipherRound_decipherRound nb p)
    xorState_xorState (interiorKeys keys r.nr).reverse
    (subRoundKey (columnsFromBytes block nb (Nat.le_refl _)) (lastKey keys r))
  rw [List.reverse_reverse] at hunwind
  simp only [rounds] at hunwind
  simp only [naiveDecryptWithSchedule, naiveEncryptWithSchedule,
    columnsFromBytes_bytesFromColumns, addRoundKey_subRoundKey]
  rw [hunwind, naiveEncipherRound_decipherRound, addRoundKey_subRoundKey,
    bytesFromColumns_columnsFromBytes]

section PowerOfTwo

variable (hnb : nb.isPowerOfTwo)
include hnb

theorem decryptWithSchedule_encryptWithSchedule (p : Profile) (r : Rounds) (keys : RoundKeys nb)
    (block : Vector UInt8 (nb * 8)) :
    decryptWithSchedule p r keys (transformKeysForDecrypt p keys r.nr)
      (encryptWithSchedule p r keys block) = block := by
  rw [encryptWithSchedule_eq_naive hnb, decryptWithSchedule_eq_naive hnb,
    naiveDecrypt_naiveEncrypt]

theorem encryptWithSchedule_decryptWithSchedule (p : Profile) (r : Rounds) (keys : RoundKeys nb)
    (block : Vector UInt8 (nb * 8)) :
    encryptWithSchedule p r keys
      (decryptWithSchedule p r keys (transformKeysForDecrypt p keys r.nr) block) = block := by
  rw [encryptWithSchedule_eq_naive hnb, decryptWithSchedule_eq_naive hnb,
    naiveEncrypt_naiveDecrypt]

end PowerOfTwo

/-! ## The crate's block sizes -/

theorem isPowerOfTwo_of_blockWords (hnb : nb = 2 ∨ nb = 4 ∨ nb = 8) : nb.isPowerOfTwo := by
  rcases hnb with rfl | rfl | rfl
  · exact ⟨1, rfl⟩
  · exact ⟨2, rfl⟩
  · exact ⟨3, rfl⟩

/-- A cached schedule decrypts what it encrypts. -/
theorem decryptBlock_encryptBlock (p : Profile) (v : Variant) (key : Vector UInt8 v.keyBytes)
    (block : Vector UInt8 v.blockBytes) :
    (ExpandedKey.new p v key).decryptBlock p ((ExpandedKey.new p v key).encryptBlock p block)
      = block :=
  decryptWithSchedule_encryptWithSchedule (isPowerOfTwo_of_blockWords v.nb_eq) p v.rounds
    (keyExpand p v key) block

theorem encryptBlock_decryptBlock (p : Profile) (v : Variant) (key : Vector UInt8 v.keyBytes)
    (block : Vector UInt8 v.blockBytes) :
    (ExpandedKey.new p v key).encryptBlock p ((ExpandedKey.new p v key).decryptBlock p block)
      = block :=
  encryptWithSchedule_decryptWithSchedule (isPowerOfTwo_of_blockWords v.nb_eq) p v.rounds
    (keyExpand p v key) block

/-- **The optimised code refines the three-pass cipher**, at every block size the
crate instantiates and for every schedule. -/
theorem fused_refines_threePass (hnb : nb = 2 ∨ nb = 4 ∨ nb = 8) (p : Profile) (r : Rounds)
    (keys : RoundKeys nb) (state : State nb) (block : Vector UInt8 (nb * 8)) :
    encipherRoundN p state = applyForwardMatrix p (shiftRows (subBytes state))
      ∧ encryptWithSchedule p r keys block = naiveEncryptWithSchedule p r keys block
      ∧ decryptWithSchedule p r keys (transformKeysForDecrypt p keys r.nr) block
          = naiveDecryptWithSchedule p r keys block := by
  have hpow := isPowerOfTwo_of_blockWords hnb
  refine ⟨?_, ?_, ?_⟩
  · exact encipherRoundN_eq_naive hpow p state
  · exact encryptWithSchedule_eq_naive hpow p r keys block
  · exact decryptWithSchedule_eq_naive hpow p r keys block

theorem fused_refines_threePass_zero :
    encipherRoundN .fused (zeroState 4)
        = applyForwardMatrix .fused (shiftRows (subBytes (zeroState 4)))
      ∧ encryptWithSchedule .fused .r14 (Vector.replicate 19 (zeroState 4)) (Vector.replicate 32 0)
          = naiveEncryptWithSchedule .fused .r14 (Vector.replicate 19 (zeroState 4))
              (Vector.replicate 32 0)
      ∧ decryptWithSchedule .fused .r14 (Vector.replicate 19 (zeroState 4))
            (transformKeysForDecrypt .fused (Vector.replicate 19 (zeroState 4)) Rounds.r14.nr)
            (Vector.replicate 32 0)
          = naiveDecryptWithSchedule .fused .r14 (Vector.replicate 19 (zeroState 4))
              (Vector.replicate 32 0) :=
  fused_refines_threePass (Or.inr (Or.inl rfl)) .fused .r14 _ _ _

/-- **Kalyna decrypts**: one-shot and through a cached schedule, `decrypt` and
`encrypt` are mutually inverse permutations of the blocks. -/
theorem kalyna_decrypt_inverts_encrypt (p : Profile) (v : Variant) (key : Vector UInt8 v.keyBytes)
    (block : Vector UInt8 v.blockBytes) :
    (decrypt p v key (encrypt p v key block) = block
        ∧ encrypt p v key (decrypt p v key block) = block)
      ∧ ((ExpandedKey.new p v key).decryptBlock p ((ExpandedKey.new p v key).encryptBlock p block)
            = block
        ∧ (ExpandedKey.new p v key).encryptBlock p
            ((ExpandedKey.new p v key).decryptBlock p block) = block) := by
  -- both interfaces run the same schedule, expanded per call or once
  have hpow := isPowerOfTwo_of_blockWords v.nb_eq
  have hdec := decryptWithSchedule_encryptWithSchedule hpow p v.rounds (keyExpand p v key) block
  have henc := encryptWithSchedule_decryptWithSchedule hpow p v.rounds (keyExpand p v key) block
  exact ⟨⟨hdec, henc⟩, ⟨hdec, henc⟩⟩

end UaCrypt.Hazmat.Kalyna

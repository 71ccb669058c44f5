import UaCrypt.Hazmat.Kupyna

/-!
# Kupyna: the fused compression refines the layered one

- `subBytes`, `shiftBytes`, `mixColumns`: the layers that no production path calls any more.
- `tTransformN_eq_layered`, `tPlusTransformN_eq_layered`: the gather-and-XOR rounds are those
  three, one after another.
- `tTransformN_bijective`, `tPlusTransformN_bijective`: every round can be taken back.
- `compressNWipe_fst`: wiping the scratch changes no output.
-/

namespace UaCrypt.Hazmat.Kupyna

open LittleEndian Tables ColumnState RoundCipher

variable (p : Profile) {w : Width}

/-! ## The layers -/

/-- `sub_bytes`. -/
def subBytes (state : State w.columns) : State w.columns := substituteState sboxes state

/-- `shift_bytes`. -/
def shiftBytes (state : State w.columns) : State w.columns := rotateRows (bytesShift w) state

/-- `mix_columns`. -/
def mixColumns (state : State w.columns) : State w.columns := applyForwardMatrix p state

/-- `T` by layers. -/
def tTransformLayered (state : State w.columns) : State w.columns :=
  (List.range w.rounds).foldl (fun state round =>
    mixColumns p (shiftBytes (subBytes (addRoundConstantXorN state (UInt8.ofNat round))))) state

/-- `T+` by layers. -/
def tPlusTransformLayered (state : State w.columns) : State w.columns :=
  (List.range w.rounds).foldl (fun state round =>
    mixColumns p (shiftBytes (subBytes (addRoundConstantAddN state (UInt8.ofNat round))))) state

/-- `compress_n` with the scratch it leaves behind, which `wipe` clears. -/
def compressNWipe (h block : State w.columns) (wipe : Bool) :
    State w.columns × State w.columns × State w.columns :=
  let tInput := xorState h block
  let qInput := block
  let tInput := tTransformN p tInput
  let qInput := tPlusTransformN p qInput
  let h := xorState h (xorState tInput qInput)
  if wipe then (h, zeroState w.columns, zeroState w.columns) else (h, tInput, qInput)

/-! ## Fused rounds -/

theorem columns_isPowerOfTwo (w : Width) : w.columns.isPowerOfTwo := by
  cases w with
  | narrow => exact ⟨3, rfl⟩
  | wide => exact ⟨4, rfl⟩

theorem bytesShift_le (w : Width) (row : Fin 8) : bytesShift w row ≤ w.columns := by
  revert row
  cases w <;> decide

/-- The fused pass is the three layers. -/
theorem subShiftMixN_eq (state : State w.columns) :
    subShiftMixN p state = mixColumns p (shiftBytes (subBytes state)) :=
  gatherRound_forward (columns_isPowerOfTwo w) (bytesShift_le w) p state

theorem tTransformN_eq_layered (state : State w.columns) :
    tTransformN p state = tTransformLayered p state := by
  simp only [tTransformN, tTransformLayered, subShiftMixN_eq]

theorem tPlusTransformN_eq_layered (state : State w.columns) :
    tPlusTransformN p state = tPlusTransformLayered p state := by
  simp only [tPlusTransformN, tPlusTransformLayered, subShiftMixN_eq]

/-! ## Permutations -/

/-- The three layers are taken back one by one. -/
theorem subShiftMixN_bijective : Function.Bijective (subShiftMixN p (w := w)) := by
  rw [Function.bijective_iff_has_inverse]
  refine ⟨fun state => substituteState sboxesDec
    (unrotateRows (bytesShift w) (applyInverseMatrix p state)), ?_, ?_⟩
  · intro state
    dsimp only
    rw [subShiftMixN_eq, mixColumns, applyInverseMatrix_applyForwardMatrix, shiftBytes,
      unrotateRows_rotateRows, subBytes, substituteState_dec_enc]
  · intro state
    rw [subShiftMixN_eq, subBytes, substituteState_enc_dec, shiftBytes, rotateRows_unrotateRows,
      mixColumns, applyForwardMatrix_applyInverseMatrix]

/-- XORing a constant twice. -/
theorem addRoundConstantXorN_bijective (round : UInt8) :
    Function.Bijective fun state : State w.columns => addRoundConstantXorN state round := by
  refine Function.Involutive.bijective fun state => ?_
  refine Vector.ext fun col hcol => ?_
  simp only [addRoundConstantXorN, Vector.getElem_mapIdx, Vector.getElem_set_self,
    UInt8.xor_assoc, UInt8.xor_self, UInt8.xor_zero]
  rw [Vector.set_set, Vector.set_getElem_self]

/-- Adding one modulo `2^64` and subtracting it. -/
theorem addRoundConstantAddN_bijective (round : UInt8) :
    Function.Bijective fun state : State w.columns => addRoundConstantAddN state round := by
  rw [Function.bijective_iff_has_inverse]
  refine ⟨fun state => state.mapIdx fun col column =>
    toLeBytes (fromLeBytes column - fromLeBytes #v[0xF3, 0xF0, 0xF0, 0xF0, 0xF0, 0xF0, 0xF0,
      UInt8.ofNat (w.columns - 1 - col) * 0x10 ^^^ round]), ?_, ?_⟩
  · intro state
    refine Vector.ext fun col hcol => ?_
    simp [addRoundConstantAddN]
  · intro state
    refine Vector.ext fun col hcol => ?_
    simp [addRoundConstantAddN]

/-- **`T` is a permutation of the states.** -/
theorem tTransformN_bijective : Function.Bijective (tTransformN p (w := w)) :=
  foldl_bijective (fun round => (subShiftMixN_bijective p).comp
    (addRoundConstantXorN_bijective (UInt8.ofNat round))) (List.range w.rounds)

/-- **`T+` is one.** -/
theorem tPlusTransformN_bijective : Function.Bijective (tPlusTransformN p (w := w)) :=
  foldl_bijective (fun round => (subShiftMixN_bijective p).comp
    (addRoundConstantAddN_bijective (UInt8.ofNat round))) (List.range w.rounds)

/-! ## Compression -/

theorem compressNWipe_fst (h block : State w.columns) (wipe : Bool) :
    (compressNWipe p h block wipe).1 = compressN p h block := by
  cases wipe <;> rfl

/-- **The fused compression is the layered one**, made of two permutations, wiped or not. -/
theorem compression_refines_layered (p : Profile) (w : Width) :
    (∀ state : State w.columns, tTransformN p state = tTransformLayered p state)
      ∧ (∀ state : State w.columns, tPlusTransformN p state = tPlusTransformLayered p state)
      ∧ Function.Bijective (tTransformN p (w := w))
      ∧ Function.Bijective (tPlusTransformN p (w := w))
      ∧ ∀ (h block : State w.columns) (wipe : Bool),
          (compressNWipe p h block wipe).1
            = xorState h (xorState (tTransformLayered p (xorState h block))
                (tPlusTransformLayered p block)) := by
  refine ⟨tTransformN_eq_layered p, tPlusTransformN_eq_layered p, tTransformN_bijective p,
    tPlusTransformN_bijective p, ?_⟩
  intro h block wipe
  rw [compressNWipe_fst, compressN, tTransformN_eq_layered, tPlusTransformN_eq_layered]

end UaCrypt.Hazmat.Kupyna

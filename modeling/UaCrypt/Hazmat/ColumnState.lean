import UaCrypt.Hazmat.Tables
import UaCrypt.Lib.RoundCipher

/-!
# Column states

What `hazmat/kalyna.rs` and `hazmat/kupyna.rs` write twice: states of eight-byte
columns, the S-box layer, the row rotation, and the fused gather round, here over
any number `n` of columns and any row shift.

- `substituteState`, `rotateRows`, `unrotateRows`: the separate layers, with the
  scatter loops of the source as folds (`getElem_rotateRows`,
  `getElem_unrotateRows` say what the loops leave).
- `gatherRound`: the fused pass. With `n` a power of two its masked index is the
  rotation's (`gatherRound_forward`, `gatherRound_inverse`).
- `columnsFromBytes`, `bytesFromColumns`: the column-major byte layout.
-/

namespace UaCrypt.Hazmat.ColumnState

open LittleEndian ByteTable Tables RoundCipher

/-- `n` live columns. -/
abbrev State (n : Nat) := Vector Column n

/-- `[ZERO_COLUMN; n]`. -/
def zeroState (n : Nat) : State n := Vector.replicate n (Vector.replicate 8 0)

/-- The subslice `buf[start..start + len]`. -/
def slice {α : Type} {n : Nat} (buf : Vector α n) (start len : Nat) (h : start + len ≤ n) :
    Vector α len :=
  Vector.ofFn fun i : Fin len => buf[start + i.val]

/-- The first `count` columns of a byte buffer. -/
def columnsFromBytes {len : Nat} (bytes : Vector UInt8 len) (count : Nat) (h : count * 8 ≤ len) :
    State count :=
  Vector.ofFn fun c : Fin count => slice bytes (c.val * 8) 8 (by omega)

variable {n : Nat}

/-- The output loop `out[c * ROWS..(c + 1) * ROWS] = state[c]`. -/
def bytesFromColumns (state : State n) : Vector UInt8 (n * 8) :=
  Vector.ofFn fun i : Fin (n * 8) => state[i.val / 8][i.val % 8]

/-- Every byte XORed with the one in its place. -/
def xorState (a b : State n) : State n := a.zipWith (fun x y => x.zipWith (· ^^^ ·) y) b

/-- Every byte through the S-box of its row. -/
def substituteState (boxes : Vector (Vector UInt8 256) 4) (state : State n) : State n :=
  state.map fun column => Vector.ofFn fun row : Fin 8 => substitute boxes row column[row]

/-- `(col + shift) % n`. -/
def shiftedCol (shift : Fin 8 → Nat) (col : Fin n) (row : Fin 8) : Fin n :=
  ⟨(col.val + shift row) % n, Nat.mod_lt _ col.pos⟩

theorem row_lt (row : Fin 8) : row.val < 8 := row.isLt

/-- `state[col][row] = byte`. -/
def setByte (state : State n) (col : Fin n) (row : Fin 8) (byte : UInt8) : State n :=
  state.set col (state[col].set row byte (row_lt row)) col.isLt

/-- `shifted[(col + shift) % n][row] = state[col][row]`, over all rows and columns. -/
def rotateRows (shift : Fin 8 → Nat) (state : State n) : State n :=
  (List.finRange 8).foldl (fun shifted row =>
    (List.finRange n).foldl (fun shifted col =>
      setByte shifted (shiftedCol shift col row) row state[col][row]) shifted) (zeroState n)

/-- `shifted[col][row] = state[(col + shift) % n][row]`, over all rows and columns. -/
def unrotateRows (shift : Fin 8 → Nat) (state : State n) : State n :=
  (List.finRange 8).foldl (fun shifted row =>
    (List.finRange n).foldl (fun shifted col =>
      setByte shifted col row state[shiftedCol shift col row][row]) shifted) (zeroState n)

/-- `x & (n - 1)`, a column since the state is not empty. -/
def maskCol (outCol : Fin n) (x : Nat) : Fin n :=
  ⟨x &&& (n - 1), by
    have hle : x &&& (n - 1) ≤ n - 1 := Nat.and_le_right
    have hpos := outCol.pos
    omega⟩

/-- The gather of `rotateRows`: `(out_col + n - shift) & mask`. -/
def forwardSrcCol (shift : Fin 8 → Nat) (outCol : Fin n) (row : Fin 8) : Fin n :=
  maskCol outCol (outCol.val + n - shift row)

/-- The gather of `unrotateRows`: `(out_col + shift) & mask`. -/
def inverseSrcCol (shift : Fin 8 → Nat) (outCol : Fin n) (row : Fin 8) : Fin n :=
  maskCol outCol (outCol.val + shift row)

/-- One gather-and-XOR pass: output column `outCol` collects the contribution of
row `row` from input column `srcCol outCol row`. -/
def gatherRound (contribution : Fin 8 → UInt8 → UInt64) (srcCol : Fin n → Fin 8 → Fin n)
    (state : State n) : State n :=
  Vector.ofFn fun outCol => toLeBytes
    (xorFold 0 fun row : Fin 8 => contribution row state[srcCol outCol row][row])

/-- States agree when all their bytes do. -/
theorem state_ext {a b : State n} (h : ∀ (col : Fin n) (row : Fin 8), a[col][row] = b[col][row]) :
    a = b := by
  apply Vector.ext
  intro col hcol
  apply Vector.ext
  intro row hrow
  exact h ⟨col, hcol⟩ ⟨row, hrow⟩

/-! ## Byte layout -/

theorem toList_slice {α : Type} {m : Nat} (buf : Vector α m) (start len : Nat)
    (h : start + len ≤ m) : (slice buf start len h).toList = (buf.toList.drop start).take len := by
  apply List.ext_getElem
  · rw [Vector.length_toList, List.length_take, List.length_drop, Vector.length_toList]
    omega
  · intro i h₁ h₂
    simp [slice]

@[simp] theorem columnsFromBytes_bytesFromColumns (state : State n) :
    columnsFromBytes (bytesFromColumns state) n (Nat.le_refl _) = state := by
  apply state_ext
  intro col row
  have hdiv : (col.val * 8 + row.val) / 8 = col.val := by omega
  have hmod : row.val % 8 = row.val := Nat.mod_eq_of_lt row.isLt
  simp [columnsFromBytes, bytesFromColumns, slice, hdiv, hmod]

@[simp] theorem bytesFromColumns_columnsFromBytes (bytes : Vector UInt8 (n * 8)) :
    bytesFromColumns (columnsFromBytes bytes n (Nat.le_refl _)) = bytes := by
  apply Vector.ext
  intro i hi
  have hsplit : i / 8 * 8 + i % 8 = i := by omega
  simp [columnsFromBytes, bytesFromColumns, slice, hsplit]

/-! ## The separate layers -/

theorem getElem_substituteState (boxes : Vector (Vector UInt8 256) 4) (state : State n)
    (col : Fin n) (row : Fin 8) :
    (substituteState boxes state)[col][row] = substitute boxes row state[col][row] := by
  simp [substituteState]

@[simp] theorem substituteState_dec_enc (state : State n) :
    substituteState sboxesDec (substituteState sboxes state) = state := by
  apply state_ext
  intro col row
  rw [getElem_substituteState, getElem_substituteState, substitute_dec_enc]

@[simp] theorem substituteState_enc_dec (state : State n) :
    substituteState sboxes (substituteState sboxesDec state) = state := by
  apply state_ext
  intro col row
  rw [getElem_substituteState, getElem_substituteState, substitute_enc_dec]

@[simp] theorem xorState_xorState (a b : State n) : xorState (xorState a b) b = a := by
  apply state_ext
  intro col row
  have hget : (xorState (xorState a b) b)[col][row]
      = a[col][row] ^^^ b[col][row] ^^^ b[col][row] := by
    simp [xorState]
  rw [hget, UInt8.xor_assoc, UInt8.xor_self, UInt8.xor_zero]

theorem applyInverseMatrix_xorState (p : Profile) (a b : State n) :
    applyInverseMatrix p (xorState a b)
      = xorState (applyInverseMatrix p a) (applyInverseMatrix p b) := by
  simp only [applyInverseMatrix_eq, applyMatrix, xorState]
  apply Vector.ext
  intro i hi
  simp only [Vector.getElem_map, Vector.getElem_zipWith]
  exact unmix_xor _ _

theorem getElem_setByte_self (state : State n) (col : Fin n) (row : Fin 8) (byte : UInt8) :
    (setByte state col row byte)[col][row] = byte := by
  simp [setByte]

theorem getElem_setByte_of_row_ne (state : State n) (col col' : Fin n) {row row' : Fin 8}
    (byte : UInt8) (h : row' ≠ row) :
    (setByte state col' row' byte)[col][row] = state[col][row] := by
  have hval : row'.val ≠ row.val := fun heq => h (Fin.ext heq)
  by_cases hcol : col'.val = col.val <;> simp [setByte, hcol, hval]

theorem getElem_setByte_of_col_ne (state : State n) {col col' : Fin n} (row row' : Fin 8)
    (byte : UInt8) (h : col' ≠ col) :
    (setByte state col' row' byte)[col][row] = state[col][row] := by
  have hval : col'.val ≠ col.val := fun heq => h (Fin.ext heq)
  simp [setByte, hval]

/-- A row-by-row scatter whose row-`row` pass sends `src` to `tgt`, injectively,
leaves `src`'s value in column `tgt src`. -/
theorem getElem_scatter (tgt : Fin n → Fin 8 → Fin n) (val : Fin n → Fin 8 → UInt8)
    (src : Fin n) (row : Fin 8) (hinj : ∀ col, tgt col row = tgt src row → col = src)
    (init : State n) :
    ((List.finRange 8).foldl (fun shifted row =>
      (List.finRange n).foldl (fun shifted col =>
        setByte shifted (tgt col row) row (val col row)) shifted) init)[tgt src row][row]
      = val src row := by
  -- among the row passes only pass `row` writes this cell, and in it only column `src`
  refine foldl_unique_write (fun s : State n => s[tgt src row][row]) row
    (fun s => ?_) (fun s row' hne => ?_) _ (List.mem_finRange row) init
  · refine foldl_unique_write (fun s : State n => s[tgt src row][row]) src
      (fun s => getElem_setByte_self s _ row _) (fun s col hne => ?_) _ (List.mem_finRange src) s
    exact getElem_setByte_of_col_ne s row row _ fun h => hne (hinj col h)
  · generalize List.finRange n = cols
    induction cols generalizing s with
    | nil => rfl
    | cons col cols ih =>
      rw [List.foldl_cons, ih]
      exact getElem_setByte_of_row_ne s _ _ _ hne

section Rotation

variable {shift : Fin 8 → Nat}

/-- A rotation by a fixed amount is injective. -/
theorem shiftedCol_inj {col col' : Fin n} {row : Fin 8}
    (h : shiftedCol shift col row = shiftedCol shift col' row) : col = col' := by
  have hmod := congrArg Fin.val h
  simp only [shiftedCol] at hmod
  have hcancel : col.val % n = col'.val % n := Nat.ModEq.add_right_cancel' _ hmod
  rw [Nat.mod_eq_of_lt col.isLt, Nat.mod_eq_of_lt col'.isLt] at hcancel
  exact Fin.ext hcancel

/-- Every column is some column rotated. -/
theorem exists_shiftedCol (shift : Fin 8 → Nat) (col : Fin n) (row : Fin 8) :
    ∃ src, shiftedCol shift src row = col :=
  Finite.injective_iff_surjective.mp
    (fun _ _ h => shiftedCol_inj h : Function.Injective (shiftedCol shift · row)) col

theorem getElem_rotateRows (shift : Fin 8 → Nat) (state : State n) (col : Fin n) (row : Fin 8) :
    (rotateRows shift state)[shiftedCol shift col row][row] = state[col][row] :=
  getElem_scatter (shiftedCol shift) (fun col row => state[col][row]) col row
    (fun _ h => shiftedCol_inj h) (zeroState n)

theorem getElem_unrotateRows (state : State n) (col : Fin n) (row : Fin 8) :
    (unrotateRows shift state)[col][row] = state[shiftedCol shift col row][row] :=
  getElem_scatter (fun col _ => col)
    (fun col row => state[shiftedCol shift col row][row]) col row (fun _ h => h)
    (zeroState n)

@[simp] theorem unrotateRows_rotateRows (state : State n) :
    unrotateRows shift (rotateRows shift state) = state := by
  apply state_ext
  intro col row
  rw [getElem_unrotateRows, getElem_rotateRows]

@[simp] theorem rotateRows_unrotateRows (state : State n) :
    rotateRows shift (unrotateRows shift state) = state := by
  apply state_ext
  intro col row
  obtain ⟨src, rfl⟩ := exists_shiftedCol shift col row
  rw [getElem_rotateRows, getElem_unrotateRows]

/-! ## The fused pass -/

/-- A gather pass over a table layer is that layer on the gathered state. -/
theorem gatherRound_eq_applyMatrix {table : Vector (Vector UInt64 256) 8}
    {boxes : Vector (Vector UInt8 256) 4} {contribution : Fin 8 → UInt8 → UInt64}
    {srcCol : Fin n → Fin 8 → Fin n} {state permuted : State n}
    (hcontribution : ∀ row byte,
      contribution row byte = lookup table[row] (substitute boxes row byte))
    (hpermuted : ∀ (col : Fin n) (row : Fin 8),
      permuted[col][row] = substitute boxes row state[srcCol col row][row]) :
    gatherRound contribution srcCol state = applyMatrix permuted table := by
  apply Vector.ext
  intro col hcol
  rw [gatherRound, applyMatrix, Vector.getElem_ofFn, Vector.getElem_map, xorEntries]
  congr 2
  funext row
  rw [hcontribution, ← hpermuted ⟨col, hcol⟩ row]
  rfl

variable (hn : n.isPowerOfTwo)
include hn

/-- `debug_assert!(n.is_power_of_two())` makes the mask a remainder. -/
theorem maskCol_val (outCol : Fin n) (x : Nat) : (maskCol outCol x).val = x % n := by
  obtain ⟨k, rfl⟩ := hn
  exact Nat.and_two_pow_sub_one_eq_mod x k

theorem shiftedCol_forwardSrcCol (hshift : ∀ row, shift row ≤ n) (col : Fin n) (row : Fin 8) :
    shiftedCol shift (forwardSrcCol shift col row) row = col := by
  have hle := hshift row
  apply Fin.ext
  show ((maskCol col (col.val + n - shift row)).val + shift row) % n = col.val
  rw [maskCol_val hn, Nat.mod_add_mod, Nat.sub_add_cancel (by omega), Nat.add_mod_right,
    Nat.mod_eq_of_lt col.isLt]

theorem inverseSrcCol_eq_shiftedCol (col : Fin n) (row : Fin 8) :
    inverseSrcCol shift col row = shiftedCol shift col row := by
  apply Fin.ext
  rw [inverseSrcCol, maskCol_val hn]
  rfl

/-- The fused forward pass is substitute, rotate, mix. -/
theorem gatherRound_forward (hshift : ∀ row, shift row ≤ n) (p : Profile) (state : State n) :
    gatherRound (forwardSboxMds p) (forwardSrcCol shift) state
      = applyForwardMatrix p (rotateRows shift (substituteState sboxes state)) := by
  rw [applyForwardMatrix_eq]
  refine gatherRound_eq_applyMatrix (forwardSboxMds_eq p) fun col row => ?_
  have hrotate := getElem_rotateRows shift (substituteState sboxes state)
    (forwardSrcCol shift col row) row
  simp only [shiftedCol_forwardSrcCol hn hshift] at hrotate
  rw [hrotate, getElem_substituteState]

/-- The fused inverse pass is rotate back, substitute back, unmix. -/
theorem gatherRound_inverse (p : Profile) (state : State n) :
    gatherRound (inverseSboxMds p) (inverseSrcCol shift) state
      = applyInverseMatrix p (substituteState sboxesDec (unrotateRows shift state)) := by
  rw [applyInverseMatrix_eq]
  refine gatherRound_eq_applyMatrix (inverseSboxMds_eq p) fun col row => ?_
  simp only [getElem_substituteState, getElem_unrotateRows, inverseSrcCol_eq_shiftedCol hn]

end Rotation

end UaCrypt.Hazmat.ColumnState

import UaCrypt.Hazmat.TableData
import UaCrypt.Lib.ByteTable
import UaCrypt.Lib.LittleEndian

/-!
# The shared S-box and MDS layer (`hazmat/tables.rs`)

The per-byte and per-column primitives under Kalyna, Kupyna and Strumok, in the
crate's two resource profiles: the default one reads precomputed packed columns,
`small-tables` multiplies in GF(2^8) on demand. A `cfg(feature = "small-tables")`
split of the source is a match on `Profile`.

The tables carry three facts everything above rests on:

- each row of `mdsTable` and `mdsInvTable` is XOR-linear in its byte
  (`xorLinear_mdsTable`, `xorLinear_mdsInvTable`), checked against the span of
  its eight single-bit entries;
- the two packed mixes are inverse (`mix_inverse`, `mix_forward`), which
  linearity reduces to the 64 single-bit words;
- the packed columns are the GF(2^8) columns of the matrices
  (`mdsTable_eq_gfMul`, `mdsInvTable_eq_gfMul`).
-/

namespace UaCrypt.Hazmat.Tables

open LittleEndian ByteTable

/-- One 64-bit state word, byte `0` least significant (`ROWS = 8`). -/
abbrev Column := Vector UInt8 8

/-- The two compile-time resource profiles. -/
inductive Profile where
  /-- The default: packed column tables, unrolled rounds. -/
  | fused
  /-- `feature = "small-tables"`. -/
  | smallTables
  deriving DecidableEq, Repr

/-- `boxes[row % 4][byte as usize]`. -/
def substitute (boxes : Vector (Vector UInt8 256) 4) (row : Fin 8) (byte : UInt8) : UInt8 :=
  lookup (boxes.get ⟨row.val % 4, Nat.mod_lt _ (by decide)⟩) byte

/-- The loop of `gf_mul`: `n` rounds left, on the shifted `x`, `y` and the
accumulated `result`. -/
def gfMulLoop : Nat → UInt8 → UInt8 → UInt8 → UInt8
  | 0, _, _, result => result
  | n + 1, x, y, result =>
    gfMulLoop n ((x <<< 1) ^^^ ((0x1D : UInt8) &&& ((0 : UInt8) - (x >>> 7)))) (y >>> 1)
      (result ^^^ (x &&& ((0 : UInt8) - (y &&& 1))))

/-- GF(2^8) multiplication modulo `x^8+x^4+x^3+x^2+1`, under masks. -/
def gfMul (x y : UInt8) : UInt8 := gfMulLoop 8 x y 0

/-- The linear layer from a packed table. -/
def applyMatrix {n : Nat} (state : Vector Column n) (table : Vector (Vector UInt64 256) 8) :
    Vector Column n :=
  state.map fun column => toLeBytes (xorEntries table column)

/-- The linear layer by GF(2^8) multiplication. -/
def applyMatrixViaGfMul {n : Nat} (state : Vector Column n)
    (matrix : Vector (Vector UInt8 8) 8) : Vector Column n :=
  state.map fun column => Vector.ofFn fun outRow : Fin 8 =>
    xorFold 0 fun inRow : Fin 8 => gfMul column[inRow] matrix[outRow][inRow]

/-- Applies the forward MDS layer to every column. -/
def applyForwardMatrix (p : Profile) {n : Nat} (state : Vector Column n) : Vector Column n :=
  match p with
  | .fused => applyMatrix state mdsTable
  | .smallTables => applyMatrixViaGfMul state mdsMatrix

/-- Applies the inverse MDS layer to every column. -/
def applyInverseMatrix (p : Profile) {n : Nat} (state : Vector Column n) : Vector Column n :=
  match p with
  | .fused => applyMatrix state mdsInvTable
  | .smallTables => applyMatrixViaGfMul state mdsInvMatrix

/-- One byte's packed column, computed on demand. -/
def mdsColumnViaGfMul (matrix : Vector (Vector UInt8 8) 8) (inRow : Fin 8) (byte : UInt8) :
    UInt64 :=
  (List.finRange 8).foldl (fun (word : UInt64) (outRow : Fin 8) =>
    word ||| (gfMul byte matrix[outRow][inRow]).toUInt64 <<< UInt64.ofNat (8 * outRow.val)) 0

/-- `SBOX_MDS` as `build_sbox_mds` fills it. -/
def sboxMds : Vector (Vector UInt64 256) 8 :=
  Vector.ofFn fun row => Vector.ofFn fun byte : Fin 256 =>
    lookup mdsTable[row] (substitute sboxes row (UInt8.ofNat byte))

/-- `SBOX_MDS_DEC` as `build_sbox_mds_dec` fills it. -/
def sboxMdsDec : Vector (Vector UInt64 256) 8 :=
  Vector.ofFn fun row => Vector.ofFn fun byte : Fin 256 =>
    lookup mdsInvTable[row] (substitute sboxesDec row (UInt8.ofNat byte))

/-- A raw byte's contribution to its output column: substituted, then mixed. -/
def forwardSboxMds (p : Profile) (row : Fin 8) (byte : UInt8) : UInt64 :=
  match p with
  | .fused => lookup sboxMds[row] byte
  | .smallTables => mdsColumnViaGfMul mdsMatrix row (substitute sboxes row byte)

/-- The inverse-direction contribution. -/
def inverseSboxMds (p : Profile) (row : Fin 8) (byte : UInt8) : UInt64 :=
  match p with
  | .fused => lookup sboxMdsDec[row] byte
  | .smallTables => mdsColumnViaGfMul mdsInvMatrix row (substitute sboxesDec row byte)

/-! ## Table lookups -/

@[simp] theorem forwardSboxMds_fused (row : Fin 8) (byte : UInt8) :
    forwardSboxMds .fused row byte = lookup mdsTable[row] (substitute sboxes row byte) := by
  simp [forwardSboxMds, sboxMds, lookup_ofFn]

@[simp] theorem inverseSboxMds_fused (row : Fin 8) (byte : UInt8) :
    inverseSboxMds .fused row byte = lookup mdsInvTable[row] (substitute sboxesDec row byte) := by
  simp [inverseSboxMds, sboxMdsDec, lookup_ofFn]

/-! ## The S-boxes are mutually inverse -/

theorem inverseCheck_sboxes : ∀ i : Fin 4,
    inverseCheck sboxes[i] sboxesDec[i] = true ∧ inverseCheck sboxesDec[i] sboxes[i] = true := by
  decide +kernel

/-- `S⁻¹ ∘ S` is the identity at every row. -/
@[simp] theorem substitute_dec_enc (row : Fin 8) (byte : UInt8) :
    substitute sboxesDec row (substitute sboxes row byte) = byte :=
  lookup_lookup_of_inverseCheck
    (inverseCheck_sboxes ⟨row.val % 4, Nat.mod_lt _ (by decide)⟩).1 byte

/-- `S ∘ S⁻¹` is the identity at every row. -/
@[simp] theorem substitute_enc_dec (row : Fin 8) (byte : UInt8) :
    substitute sboxes row (substitute sboxesDec row byte) = byte :=
  lookup_lookup_of_inverseCheck
    (inverseCheck_sboxes ⟨row.val % 4, Nat.mod_lt _ (by decide)⟩).2 byte

/-! ## The packed tables are linear -/

theorem linearCheck_tables : ∀ row : Fin 8,
    linearCheck mdsTable[row] = true ∧ linearCheck mdsInvTable[row] = true := by
  decide +kernel

theorem xorLinear_mdsTable (row : Fin 8) : XorLinear (lookup mdsTable[row]) :=
  xorLinear_of_linearCheck (linearCheck_tables row).1

theorem xorLinear_mdsInvTable (row : Fin 8) : XorLinear (lookup mdsInvTable[row]) :=
  xorLinear_of_linearCheck (linearCheck_tables row).2

/-! ## The two mixes are inverse -/

theorem mixInverseCheck_tables :
    mixInverseCheck mdsTable mdsInvTable = true ∧ mixInverseCheck mdsInvTable mdsTable = true := by
  decide +kernel

/-- Undoing the forward mix of a column. -/
theorem mix_inverse (column : Column) :
    toLeBytes (xorEntries mdsInvTable (toLeBytes (xorEntries mdsTable column))) = column := by
  have h := xorEntries_xorEntries xorLinear_mdsTable xorLinear_mdsInvTable mixInverseCheck_tables.1
    (fromLeBytes column)
  rw [toLeBytes_fromLeBytes] at h
  rw [h, toLeBytes_fromLeBytes]

/-- Undoing the inverse mix of a column. -/
theorem mix_forward (column : Column) :
    toLeBytes (xorEntries mdsTable (toLeBytes (xorEntries mdsInvTable column))) = column := by
  have h := xorEntries_xorEntries xorLinear_mdsInvTable xorLinear_mdsTable mixInverseCheck_tables.2
    (fromLeBytes column)
  rw [toLeBytes_fromLeBytes] at h
  rw [h, toLeBytes_fromLeBytes]

/-! ## GF(2^8) multiplication is linear -/

/-- Masking is linear. -/
theorem xorLinear_and (mask : UInt8) : XorLinear fun x => x &&& mask := by
  intro a b
  apply UInt8.toBitVec_inj.mp
  apply BitVec.eq_of_getLsbD_eq
  intro i hi
  simp [Bool.and_xor_distrib_right]

/-- The top bit as `0` or `1`. -/
theorem shiftRight_seven (x : UInt8) : x >>> 7 = 0 ∨ x >>> 7 = 1 := by
  have hx := x.toNat_lt
  have hdiv : (x >>> 7).toNat = x.toNat / 128 := by
    rw [UInt8.toNat_shiftRight, Nat.shiftRight_eq_div_pow]
    rfl
  rcases (by omega : x.toNat / 128 = 0 ∨ x.toNat / 128 = 1) with h | h
  · exact Or.inl (UInt8.toNat_inj.mp (by rw [hdiv, h]; rfl))
  · exact Or.inr (UInt8.toNat_inj.mp (by rw [hdiv, h]; rfl))

/-- The doubling step of `gf_mul` is linear. -/
theorem xorLinear_double :
    XorLinear fun x : UInt8 => (x <<< 1) ^^^ ((0x1D : UInt8) &&& ((0 : UInt8) - (x >>> 7))) := by
  intro a b
  have hmask : (0x1D : UInt8) &&& ((0 : UInt8) - (a >>> 7 ^^^ b >>> 7))
      = ((0x1D : UInt8) &&& ((0 : UInt8) - (a >>> 7)))
        ^^^ ((0x1D : UInt8) &&& ((0 : UInt8) - (b >>> 7))) := by
    rcases shiftRight_seven a with ha | ha <;> rcases shiftRight_seven b with hb | hb <;>
      rw [ha, hb] <;> decide
  simp only [UInt8.shiftLeft_xor, UInt8.shiftRight_xor, hmask]
  ac_rfl

theorem gfMulLoop_xor (n : Nat) (x x' y r r' : UInt8) :
    gfMulLoop n (x ^^^ x') y (r ^^^ r') = gfMulLoop n x y r ^^^ gfMulLoop n x' y r' := by
  induction n generalizing x x' y r r' with
  | zero => rfl
  | succ n ih =>
    have hx := xorLinear_double x x'
    have hr : r ^^^ r' ^^^ ((x ^^^ x') &&& ((0 : UInt8) - (y &&& 1)))
        = (r ^^^ (x &&& ((0 : UInt8) - (y &&& 1))))
          ^^^ (r' ^^^ (x' &&& ((0 : UInt8) - (y &&& 1)))) := by
      have hand := xorLinear_and ((0 : UInt8) - (y &&& 1)) x x'
      simp only at hand
      rw [hand]
      ac_rfl
    simp only at hx
    rw [gfMulLoop, gfMulLoop, gfMulLoop, hx, hr, ih]

theorem xorLinear_gfMul (y : UInt8) : XorLinear fun x => gfMul x y := by
  intro a b
  exact gfMulLoop_xor 8 a b y 0 0

/-! ## Packed columns are GF(2^8) columns -/

/-- The bytes of an on-demand column. -/
theorem toLeBytes_mdsColumnViaGfMul (matrix : Vector (Vector UInt8 8) 8) (inRow : Fin 8)
    (byte : UInt8) :
    toLeBytes (mdsColumnViaGfMul matrix inRow byte)
      = Vector.ofFn fun outRow : Fin 8 => gfMul byte matrix[outRow][inRow] := by
  have h := foldl_or_shiftLeft (Vector.ofFn fun outRow : Fin 8 => gfMul byte matrix[outRow][inRow])
  simp only [FinIndex.getElem_fin, Vector.getElem_ofFn] at h
  rw [mdsColumnViaGfMul]
  simp only [FinIndex.getElem_fin]
  rw [h, toLeBytes_fromLeBytes]

theorem xorLinear_mdsColumnViaGfMul (matrix : Vector (Vector UInt8 8) 8) (inRow : Fin 8) :
    XorLinear (mdsColumnViaGfMul matrix inRow) := by
  intro a b
  apply toLeBytes_injective
  rw [toLeBytes_xor, toLeBytes_mdsColumnViaGfMul, toLeBytes_mdsColumnViaGfMul,
    toLeBytes_mdsColumnViaGfMul]
  apply Vector.ext
  intro i hi
  simp only [Vector.getElem_zipWith, Vector.getElem_ofFn]
  exact xorLinear_gfMul _ a b

theorem tables_bits : ∀ row k : Fin 8,
    lookup mdsTable[row] (UInt8.ofNat (2 ^ k.val))
        = mdsColumnViaGfMul mdsMatrix row (UInt8.ofNat (2 ^ k.val))
      ∧ lookup mdsInvTable[row] (UInt8.ofNat (2 ^ k.val))
        = mdsColumnViaGfMul mdsInvMatrix row (UInt8.ofNat (2 ^ k.val)) := by
  decide +kernel

/-- `MDS_TABLE` holds the columns of `MDS_MATRIX`. -/
theorem mdsTable_eq_gfMul (row : Fin 8) (byte : UInt8) :
    lookup mdsTable[row] byte = mdsColumnViaGfMul mdsMatrix row byte := by
  have hlin := xorLinear_mdsColumnViaGfMul mdsMatrix row
  refine (xorLinear_mdsTable row).ext_uint8 hlin ?_ (fun k hk => (tables_bits row ⟨k, hk⟩).1) byte
  rw [(xorLinear_mdsTable row).map_zero (by decide), hlin.map_zero (by decide)]

/-- `MDS_INV_TABLE` holds the columns of `MDS_INV_MATRIX`. -/
theorem mdsInvTable_eq_gfMul (row : Fin 8) (byte : UInt8) :
    lookup mdsInvTable[row] byte = mdsColumnViaGfMul mdsInvMatrix row byte := by
  have hlin := xorLinear_mdsColumnViaGfMul mdsInvMatrix row
  refine (xorLinear_mdsInvTable row).ext_uint8 hlin ?_
    (fun k hk => (tables_bits row ⟨k, hk⟩).2) byte
  rw [(xorLinear_mdsInvTable row).map_zero (by decide), hlin.map_zero (by decide)]

/-- Mixing through a packed table is mixing by multiplication, where the table
holds the matrix's columns. -/
theorem applyMatrix_eq_viaGfMul {table : Vector (Vector UInt64 256) 8}
    {matrix : Vector (Vector UInt8 8) 8}
    (h : ∀ row byte, lookup table[row] byte = mdsColumnViaGfMul matrix row byte)
    {n : Nat} (state : Vector Column n) :
    applyMatrix state table = applyMatrixViaGfMul state matrix := by
  rw [applyMatrix, applyMatrixViaGfMul]
  congr 1
  funext column
  apply Vector.ext
  intro i hi
  -- one output byte of the XOR of the columns is the XOR of their bytes
  have hbyte : XorLinear fun w : UInt64 => (toLeBytes w)[i] := by
    intro a b
    simp only [toLeBytes_xor, Vector.getElem_zipWith]
  rw [Vector.getElem_ofFn, xorEntries, hbyte.map_xorFold]
  have hzero : (toLeBytes 0)[i] = 0 := by simp [toLeBytes]
  rw [hzero]
  congr 1
  funext inRow
  rw [h, toLeBytes_mdsColumnViaGfMul]
  simp

/-! ## Both profiles compute one layer -/

theorem forwardSboxMds_eq (p : Profile) (row : Fin 8) (byte : UInt8) :
    forwardSboxMds p row byte = lookup mdsTable[row] (substitute sboxes row byte) := by
  cases p with
  | fused => exact forwardSboxMds_fused row byte
  | smallTables => exact (mdsTable_eq_gfMul row _).symm

theorem inverseSboxMds_eq (p : Profile) (row : Fin 8) (byte : UInt8) :
    inverseSboxMds p row byte = lookup mdsInvTable[row] (substitute sboxesDec row byte) := by
  cases p with
  | fused => exact inverseSboxMds_fused row byte
  | smallTables => exact (mdsInvTable_eq_gfMul row _).symm

theorem applyForwardMatrix_eq (p : Profile) {n : Nat} (state : Vector Column n) :
    applyForwardMatrix p state = applyMatrix state mdsTable := by
  cases p with
  | fused => rfl
  | smallTables => exact (applyMatrix_eq_viaGfMul mdsTable_eq_gfMul state).symm

theorem applyInverseMatrix_eq (p : Profile) {n : Nat} (state : Vector Column n) :
    applyInverseMatrix p state = applyMatrix state mdsInvTable := by
  cases p with
  | fused => rfl
  | smallTables => exact (applyMatrix_eq_viaGfMul mdsInvTable_eq_gfMul state).symm

/-- Unmixing undoes mixing, in either profile. -/
@[simp] theorem applyInverseMatrix_applyForwardMatrix (p : Profile) {n : Nat}
    (state : Vector Column n) : applyInverseMatrix p (applyForwardMatrix p state) = state := by
  rw [applyForwardMatrix_eq, applyInverseMatrix_eq, applyMatrix, applyMatrix, Vector.map_map]
  apply Vector.ext
  intro i hi
  rw [Vector.getElem_map]
  exact mix_inverse _

@[simp] theorem applyForwardMatrix_applyInverseMatrix (p : Profile) {n : Nat}
    (state : Vector Column n) : applyForwardMatrix p (applyInverseMatrix p state) = state := by
  rw [applyForwardMatrix_eq, applyInverseMatrix_eq, applyMatrix, applyMatrix, Vector.map_map]
  apply Vector.ext
  intro i hi
  rw [Vector.getElem_map]
  exact mix_forward _

/-- Unmixing distributes over XOR of columns. -/
theorem unmix_xor (a b : Column) :
    toLeBytes (xorEntries mdsInvTable (a.zipWith (· ^^^ ·) b))
      = (toLeBytes (xorEntries mdsInvTable a)).zipWith (· ^^^ ·)
          (toLeBytes (xorEntries mdsInvTable b)) := by
  have hlin := xorLinear_xorEntries xorLinear_mdsInvTable (fromLeBytes a) (fromLeBytes b)
  simp only [toLeBytes_xor, toLeBytes_fromLeBytes] at hlin
  rw [hlin, toLeBytes_xor]

end UaCrypt.Hazmat.Tables

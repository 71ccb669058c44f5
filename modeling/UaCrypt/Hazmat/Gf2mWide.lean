import UaCrypt.Hazmat.ColumnState

/-!
# Fixed-width GF(2^m) arithmetic (`hazmat/gf2m_wide.rs`)

The three fields behind GCM and GMAC, over any number of 64-bit limbs and any
reduction pentanomial whose middle terms sit inside one word, as `gf2m_field!`
asserts. Elements are little-endian limb arrays.

- `polyMulWide`: the masked four-bit window, `polyMulWideHw`: the schoolbook sum
  of carry-less word products, `reduce`: the word-wise fold.
- `multiply`: either product, as the build and the processor select, then
  `reduce`.
- `double`: the product with `x`, by one shift.
- `toBytes_fromBytes`, `fromBytes_xor`: blocks and elements are the same bits, XOR the
  addition.
-/

namespace UaCrypt.Hazmat.Gf2mWide

open LittleEndian ColumnState

/-- `x^m + x^f1 + x^f2 + x^f3 + 1`, the terms strictly inside a word. -/
structure Pentanomial where
  f1 : Nat
  f2 : Nat
  f3 : Nat
  terms_lt : (0 < f1 ∧ f1 < 64) ∧ (0 < f2 ∧ f2 < 64) ∧ 0 < f3 ∧ f3 < 64

/-- `[$f1, $f2, $f3]`. -/
def Pentanomial.terms (f : Pentanomial) : List Nat := [f.f1, f.f2, f.f3]

/-- The reduction polynomial of `Gf2m128`. -/
def gf2m128 : Pentanomial := ⟨7, 2, 1, by decide⟩

/-- The reduction polynomial of `Gf2m256`. -/
def gf2m256 : Pentanomial := ⟨10, 5, 2, by decide⟩

/-- The reduction polynomial of `Gf2m512`. -/
def gf2m512 : Pentanomial := ⟨8, 5, 2, by decide⟩

/-- The three `gf2m_field!` instances. -/
inductive Field where
  | gf2m128
  | gf2m256
  | gf2m512
  deriving DecidableEq, Repr

/-- `$limbs`. -/
@[reducible] def Field.limbs : Field → Nat
  | .gf2m128 => 2
  | .gf2m256 => 4
  | .gf2m512 => 8

/-- The reduction polynomial. -/
def Field.pentanomial : Field → Pentanomial
  | .gf2m128 => Gf2mWide.gf2m128
  | .gf2m256 => Gf2mWide.gf2m256
  | .gf2m512 => Gf2mWide.gf2m512

/-- A field element: its limbs, least significant first. -/
abbrev Elem (limbs : Nat) := Vector UInt64 limbs

variable {limbs : Nat}

def zero (limbs : Nat) : Elem limbs := Vector.replicate limbs 0

def fromBytes (bytes : Vector UInt8 (limbs * 8)) : Elem limbs :=
  Vector.ofFn fun i : Fin limbs => fromLeBytes (slice bytes (i.val * 8) 8 (by omega))

def toBytes (a : Elem limbs) : Vector UInt8 (limbs * 8) :=
  bytesFromColumns (a.map toLeBytes)

/-- Addition is XOR. -/
def add (a b : Elem limbs) : Elem limbs := a.zipWith (· ^^^ ·) b

/-- Left shift of a limb array by `k` bits: each limb takes the bits shifted out of
the one below it. -/
def shl (k : Nat) {n : Nat} (x : Vector UInt64 n) : Vector UInt64 n :=
  Vector.ofFn fun i : Fin n =>
    (x[i] <<< UInt64.ofNat k)
      ||| (if h : i.val = 0 then 0 else x[i.val - 1] >>> UInt64.ofNat (64 - k))

def shl1 {n : Nat} (x : Vector UInt64 n) : Vector UInt64 n := shl 1 x

def shl4 {n : Nat} (x : Vector UInt64 n) : Vector UInt64 n := shl 4 x

/-- `a` in the low half of a double-width array. -/
def widen (a : Elem limbs) : Vector UInt64 (2 * limbs) :=
  Vector.ofFn fun i : Fin (2 * limbs) => if h : i.val < limbs then a[i.val] else 0

/-- `a`, `a << 1`, `a << 2`, `a << 3`. -/
def rows (a : Elem limbs) : List (Vector UInt64 (2 * limbs)) :=
  let row0 := widen a
  let row1 := shl1 row0
  let row2 := shl1 row1
  let row3 := shl1 row2
  [row0, row1, row2, row3]

/-- The masks of the top nibble of `w`, its lowest bit first. -/
def nibbleMasks (w : UInt64) : List UInt64 :=
  [(0 : UInt64) - ((w >>> 60) &&& 1), (0 : UInt64) - ((w >>> 61) &&& 1),
    (0 : UInt64) - ((w >>> 62) &&& 1), (0 : UInt64) - ((w >>> 63) &&& 1)]

/-- `acc_w ^= row_w & mask` over the first `limbs + 1` words. -/
def addRow (acc row : Vector UInt64 (2 * limbs)) (mask : UInt64) : Vector UInt64 (2 * limbs) :=
  Vector.ofFn fun i : Fin (2 * limbs) =>
    if i.val < limbs + 1 then acc[i] ^^^ (row[i] &&& mask) else acc[i]

/-- One nibble of `b`: shift the accumulator, add every row under its mask. -/
def nibbleStep (a : Elem limbs) (acc : Vector UInt64 (2 * limbs)) (w : UInt64) :
    Vector UInt64 (2 * limbs) :=
  ((rows a).zip (nibbleMasks w)).foldl (fun acc rowMask => addRow acc rowMask.1 rowMask.2)
    (shl4 acc)

/-- The sixteen nibbles of one word of `b`, highest first. -/
def wordStep (a : Elem limbs) (acc : Vector UInt64 (2 * limbs)) (word : UInt64) :
    Vector UInt64 (2 * limbs) :=
  ((List.range 16).foldl (fun (accW : Vector UInt64 (2 * limbs) × UInt64) _ =>
    (nibbleStep a accW.1 accW.2, accW.2 <<< 4)) (acc, word)).1

/-- Carry-less multiplication by a masked four-bit window. -/
def polyMulWide (a b : Elem limbs) : Vector UInt64 (2 * limbs) :=
  b.toList.reverse.foldl (wordStep a) (Vector.replicate (2 * limbs) 0)

/-- The carry-less product of two words, as the `pclmulqdq` and `pmull`
instructions compute it. -/
def clmul (a b : UInt64) : Nat :=
  (List.range 64).foldl (fun acc i =>
    if b.toNat.testBit i then acc ^^^ (a.toNat <<< i) else acc) 0

theorem low_lt (i j : Fin limbs) : i.val + j.val < 2 * limbs := by omega

theorem high_lt (i j : Fin limbs) : i.val + j.val + 1 < 2 * limbs := by omega

/-- `out[i + j] ^= lo; out[i + j + 1] ^= hi`. -/
def addProduct (a b : Elem limbs) (out : Vector UInt64 (2 * limbs)) (i j : Fin limbs) :
    Vector UInt64 (2 * limbs) :=
  let prod := clmul a[i] b[j]
  have hlo := low_lt i j
  have hhi := high_lt i j
  let out := out.set (i.val + j.val) (out[i.val + j.val] ^^^ UInt64.ofNat prod)
  out.set (i.val + j.val + 1) (out[i.val + j.val + 1] ^^^ UInt64.ofNat (prod >>> 64))

/-- Carry-less multiplication from word products. -/
def polyMulWideHw (a b : Elem limbs) : Vector UInt64 (2 * limbs) :=
  (List.finRange limbs).foldl (fun out i =>
    (List.finRange limbs).foldl (fun out j => addProduct a b out i j) out)
    (Vector.replicate (2 * limbs) 0)

theorem word_lt (base : Fin limbs) : limbs + base.val < 2 * limbs := by omega

theorem base_lt (base : Fin limbs) : base.val < 2 * limbs := by omega

theorem next_lt (base : Fin limbs) : base.val + 1 < 2 * limbs := by omega

/-- One fold of `reduce`: word `limbs + base` into words `base` and `base + 1`. -/
def foldWord (f : Pentanomial) (wide : Vector UInt64 (2 * limbs)) (base : Fin limbs) :
    Vector UInt64 (2 * limbs) :=
  have hword := word_lt base
  have hbase := base_lt base
  have hnext := next_lt base
  let t := wide[limbs + base.val]
  let wide := wide.set base.val (wide[base.val] ^^^ t)
  f.terms.foldl (fun wide shift =>
    let wide := wide.set base.val (wide[base.val] ^^^ (t <<< UInt64.ofNat shift))
    wide.set (base.val + 1) (wide[base.val + 1] ^^^ (t >>> UInt64.ofNat (64 - shift)))) wide

/-- Word-wise reduction, top word first. -/
def reduce (f : Pentanomial) (wide : Vector UInt64 (2 * limbs)) : Elem limbs :=
  let wide := (List.finRange limbs).reverse.foldl (foldWord f) wide
  slice wide 0 limbs (by omega)

/-- The field product. `clmul` says whether the build has the hardware path and the
processor reports the instruction. -/
def multiply (clmul : Bool) (f : Pentanomial) (a b : Elem limbs) : Elem limbs :=
  if clmul then reduce f (polyMulWideHw a b) else reduce f (polyMulWide a b)

/-- `out[i] ^= w`. The indices used are inside the array. -/
def xorAt (out : Elem limbs) (i : Nat) (w : UInt64) : Elem limbs :=
  if h : i < limbs then out.set i (out[i] ^^^ w) else out

/-- Multiplication by `x`: a shift by one bit, and the terms of the polynomial under the
mask of the bit shifted out. -/
def double (f : Pentanomial) (a : Elem limbs) (hlimbs : 0 < limbs) : Elem limbs :=
  let topBit := (a[limbs - 1] >>> 63) &&& 1
  let out := shl 1 a
  let mask := (0 : UInt64) - topBit
  let out := xorAt out 0 (mask &&& 1)
  f.terms.foldl (fun out term =>
    xorAt out (term / 64) (mask &&& ((1 : UInt64) <<< UInt64.ofNat (term % 64)))) out

/-! ## Bytes -/

theorem map_toLeBytes_fromBytes (bytes : Vector UInt8 (limbs * 8)) :
    (fromBytes bytes).map toLeBytes = columnsFromBytes bytes limbs (Nat.le_refl _) := by
  apply Vector.ext
  intro i hi
  simp only [fromBytes, columnsFromBytes, Vector.getElem_map, Vector.getElem_ofFn,
    toLeBytes_fromLeBytes]

@[simp] theorem toBytes_fromBytes (bytes : Vector UInt8 (limbs * 8)) :
    toBytes (fromBytes bytes) = bytes := by
  rw [toBytes, map_toLeBytes_fromBytes, bytesFromColumns_columnsFromBytes]

theorem fromBytes_injective {bytes bytes' : Vector UInt8 (limbs * 8)}
    (h : fromBytes bytes = fromBytes bytes') : bytes = bytes' := by
  rw [← toBytes_fromBytes bytes, h, toBytes_fromBytes]

@[simp] theorem fromBytes_toBytes (a : Elem limbs) : fromBytes (toBytes a) = a := by
  have hcolumns : columnsFromBytes (toBytes a) limbs (Nat.le_refl _) = a.map toLeBytes :=
    columnsFromBytes_bytesFromColumns _
  apply Vector.ext
  intro i hi
  have hcolumn := congrArg (fun columns => fromLeBytes columns[i]) hcolumns
  simpa only [fromBytes, columnsFromBytes, Vector.getElem_ofFn, Vector.getElem_map,
    fromLeBytes_toLeBytes] using hcolumn

/-- XOR of bytes is addition. -/
theorem toBytes_add (a b : Elem limbs) :
    toBytes (add a b) = (toBytes a).zipWith (· ^^^ ·) (toBytes b) := by
  apply Vector.ext
  intro i hi
  simp only [toBytes, bytesFromColumns, add, Vector.getElem_ofFn, Vector.getElem_map,
    Vector.getElem_zipWith, toLeBytes_xor]

theorem fromBytes_xor (bytes bytes' : Vector UInt8 (limbs * 8)) :
    fromBytes (bytes.zipWith (· ^^^ ·) bytes') = add (fromBytes bytes) (fromBytes bytes') := by
  rw [← fromBytes_toBytes (add _ _), toBytes_add, toBytes_fromBytes, toBytes_fromBytes]

end UaCrypt.Hazmat.Gf2mWide

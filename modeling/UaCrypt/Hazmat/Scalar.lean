import UaCrypt.Hazmat.Limb

/-!
# Scalars (`dstu4145/scalar.rs`, `dstu4145/scalar257.rs`)

Integers modulo the order of the base point. The two scalar types are the same code at three
and at five words; a `GroupOrder` is what they differ in.

A product is reduced one bit at a time, from the top: the remainder of the bits read so far is
doubled, the next bit shifted in, and the order subtracted if it can be. `Remainder` is what
the loops keep.
-/

namespace UaCrypt.Hazmat.Dstu4145

open Limbs Limb

/-- The widths and the order of a curve. Twice the order fits the words of a scalar. -/
structure GroupOrder where
  limbs : Nat
  scalarBytes : Nat
  /-- The order, big-endian. -/
  order : Vector UInt8 scalarBytes
  fits : scalarBytes ≤ 8 * limbs
  pos : 0 < beNat order.toList
  headroom : 2 * beNat order.toList ≤ 2 ^ (64 * limbs)

/-- `curve163::order`. -/
def order163 : Vector UInt8 21 := #v[
  0x04, 0x00, 0x00, 0x00, 0x00, 0x00, 0x00, 0x00, 0x00, 0x00, 0x02, 0xBE, 0xC1, 0x2B, 0xE2,
  0x26, 0x2D, 0x39, 0xBC, 0xF1, 0x4D]

/-- `curve257::order`. -/
def order257 : Vector UInt8 33 := #v[
  0x00, 0x80, 0x00, 0x00, 0x00, 0x00, 0x00, 0x00, 0x00, 0x00, 0x00, 0x00, 0x00, 0x00, 0x00,
  0x00, 0x00, 0x67, 0x59, 0x21, 0x3A, 0xF1, 0x82, 0xE9, 0x87, 0xD3, 0xE1, 0x77, 0x14, 0x90,
  0x7D, 0x47, 0x0D]

/-- `scalar.rs`: three words, 21 bytes. -/
def curve163 : GroupOrder where
  limbs := 3
  scalarBytes := 21
  order := order163
  fits := by decide
  pos := by decide
  headroom := by decide +kernel

/-- `scalar257.rs`: five words, 33 bytes. -/
def curve257 : GroupOrder where
  limbs := 5
  scalarBytes := 33
  order := order257
  fits := by decide
  pos := by decide
  headroom := by decide +kernel

/-- The two DSTU 4145 curves. -/
inductive Curve where
  | m163
  | m257
deriving DecidableEq, Repr

def Curve.group : Curve → GroupOrder
  | .m163 => curve163
  | .m257 => curve257

/-- The words of a scalar. -/
structure Scalar (c : GroupOrder) where
  limbs : Vector UInt64 c.limbs
deriving DecidableEq

namespace Scalar

variable {c : GroupOrder}

/-- `from_be_bytes`: nothing is reduced. -/
def fromBeBytes {m : Nat} (h : m ≤ 8 * c.limbs) (bytes : Vector UInt8 m) : Scalar c :=
  ⟨limbsFromBeBytes c.limbs h bytes⟩

/-- `to_be_bytes`. -/
def toBeBytes (a : Scalar c) : Vector UInt8 c.scalarBytes :=
  limbsToBeBytes c.scalarBytes c.fits a.limbs

/-- `is_zero`. -/
def isZero (a : Scalar c) : Bool := a.limbs == Vector.replicate c.limbs 0

/-- `n()`. -/
def n (c : GroupOrder) : Vector UInt64 c.limbs := limbsFromBeBytes c.limbs c.fits c.order

/-- `from_candidate_bytes`: the scalar if it is in `[1, n)`. -/
def fromCandidateBytes (bytes : Vector UInt8 c.scalarBytes) : Option (Scalar c) :=
  let limbs := limbsFromBeBytes c.limbs c.fits bytes
  let inRange := (subLimbs limbs (n c)).2 == 1
  let nonzero := limbs.foldl (fun acc l => acc ||| l) 0 != 0
  if inRange && nonzero then some ⟨limbs⟩ else none

/-- One pass of a reduction: double, take in a bit, subtract the order if it can be. -/
def reduceBit (r : Vector UInt64 c.limbs) (bit : UInt64) : Vector UInt64 c.limbs :=
  condSubIfGe (shl1Or r bit) (n c)

/-- `reduce_mod_n`: every bit of a product, from the most significant down. -/
def reduceModN (product : Vector UInt64 (2 * c.limbs)) : Vector UInt64 c.limbs :=
  Fin.foldr (2 * c.limbs) (fun limbIdx r =>
    Fin.foldr 64 (fun bit r =>
      reduceBit r ((product[limbIdx] >>> UInt64.ofNat bit.val) &&& 1)) r)
    (Vector.replicate c.limbs 0)

/-- `reduce_wide_bytes`: the same over the bits of a byte string. -/
def reduceWideBytes (bytes : List UInt8) : Scalar c :=
  ⟨bytes.foldl (fun r byte =>
    Fin.foldr 8 (fun bit r =>
      reduceBit r ((byte >>> UInt8.ofNat bit.val) &&& 1).toUInt64) r)
    (Vector.replicate c.limbs 0)⟩

/-- `multiply`. -/
def multiply (a b : Scalar c) : Scalar c := ⟨reduceModN (mulLimbs a.limbs b.limbs)⟩

/-- `add`: the carry is dropped. -/
def add (a b : Scalar c) : Scalar c :=
  ⟨condSubIfGe (addLimbs a.limbs b.limbs).1 (n c)⟩

instance : Add (Scalar c) := ⟨add⟩

/-- The integer a scalar holds. -/
def toNat (a : Scalar c) : Nat := value a.limbs

end Scalar

/-- The order as an integer. -/
def GroupOrder.nat (c : GroupOrder) : Nat := beNat c.order.toList

namespace Scalar

variable {c : GroupOrder}

@[simp] theorem value_n : value (n c) = c.nat := value_limbsFromBeBytes _ c.fits c.order

/-! ## Reduction -/

/-- `r` is the remainder of the bits read so far, which spell `p`. -/
def Remainder (r : Vector UInt64 c.limbs) (p : Nat) : Prop := value r = p % c.nat

theorem remainder_zero : Remainder (Vector.replicate c.limbs 0) 0 := by
  rw [Remainder, value_zero, Nat.zero_mod]

/-- The remainder stays below the order, so that doubling it does not overflow the words. -/
theorem remainder_reduceBit {r : Vector UInt64 c.limbs} {p : Nat} (h : Remainder r p)
    {bit : UInt64} (hbit : bit.toNat ≤ 1) : Remainder (reduceBit r bit) (2 * p + bit.toNat) := by
  have hlt : value r < c.nat := h ▸ Nat.mod_lt p c.pos
  have hroom : 2 * c.nat ≤ 2 ^ (64 * c.limbs) := c.headroom
  have hshift := value_shl1Or r hbit (by omega)
  have hsub := value_condSubIfGe_mod (a := shl1Or r bit) (b := n c) (by rw [hshift, value_n]; omega)
  rw [Remainder, reduceBit, hsub, hshift, value_n, h, Nat.add_mod, Nat.mul_mod, Nat.mod_mod,
    ← Nat.mul_mod, ← Nat.add_mod]

/-- Reading the `width` bits of a word below the bits that spell `p`. -/
theorem remainder_word {width x : Nat} (hx : x < 2 ^ width) {bits : Fin width → UInt64}
    (hbits : ∀ i, (bits i).toNat = x / 2 ^ i.val % 2) {r : Vector UInt64 c.limbs} {p : Nat}
    (h : Remainder r p) :
    Remainder (Fin.foldr width (fun bit r => reduceBit r (bits bit)) r) (p * 2 ^ width + x) := by
  refine foldr_bits hx (fun k r => Remainder r k) ?_ h
  intro i k r hr
  have hstep := remainder_reduceBit hr (show (bits i).toNat ≤ 1 by rw [hbits]; omega)
  rwa [hbits] at hstep

theorem value_reduceModN (product : Vector UInt64 (2 * c.limbs)) :
    value (reduceModN product) = value product % c.nat := by
  have hbits (x : UInt64) (i : Fin 64) :
      ((x >>> UInt64.ofNat i.val) &&& 1).toNat = x.toNat / 2 ^ i.val % 2 := by
    rw [UInt64.toNat_and, toNat_shiftRight_ofNat x i.isLt]
    exact Nat.and_one_is_mod _
  have hloop := foldr_invariant (n := 2 * c.limbs) (f := fun limbIdx r =>
      Fin.foldr 64 (fun bit r =>
        reduceBit (c := c) r ((product[limbIdx] >>> UInt64.ofNat bit.val) &&& 1)) r)
    (a := Vector.replicate c.limbs 0)
    (fun k r => Remainder r (value product / 2 ^ (64 * k))) (by
      rw [Nat.div_eq_of_lt (value_lt product)]
      exact remainder_zero) (by
      intro i r hr
      have hword := remainder_word (UInt64.toNat_lt product[i]) (hbits product[i]) hr
      have hlimb := limb_eq product i.val
      rw [limb_of_lt product i.isLt] at hlimb
      have hread : value product / 2 ^ (64 * i.val)
          = value product / 2 ^ (64 * (i.val + 1)) * 2 ^ 64 + product[i].toNat := by
        rw [FinIndex.getElem_fin, hlimb, word_pow_succ, Nat.mul_comm (2 ^ 64),
          ← Nat.div_div_eq_div_mul, Nat.div_add_mod']
      rw [hread]
      exact hword)
  rw [Nat.mul_zero, Nat.pow_zero, Nat.div_one] at hloop
  exact hloop

theorem toNat_reduceWideBytes (bytes : List UInt8) :
    (reduceWideBytes (c := c) bytes).toNat = beNat bytes % c.nat := by
  rw [toNat, reduceWideBytes]
  induction bytes using List.reverseRecOn with
  | nil => exact remainder_zero
  | append_singleton bytes byte ih =>
    have hword := remainder_word (UInt8.toNat_lt byte) (toNat_byte_bit byte) ih
    rw [List.foldl_append, List.foldl_cons, List.foldl_nil, beNat_append, Nat.mul_comm]
    exact hword

/-! ## Operations -/

theorem toNat_multiply (a b : Scalar c) : (a.multiply b).toNat = a.toNat * b.toNat % c.nat := by
  rw [toNat, multiply, value_reduceModN, value_mulLimbs]
  rfl

theorem toNat_add {a b : Scalar c} (ha : a.toNat < c.nat) (hb : b.toNat < c.nat) :
    (a + b).toNat = (a.toNat + b.toNat) % c.nat := by
  have hroom : 2 * c.nat ≤ 2 ^ (64 * c.limbs) := c.headroom
  obtain ⟨hsum, hcarry⟩ := value_addLimbs a.limbs b.limbs
  rw [toNat] at ha hb
  have hnone : (addLimbs a.limbs b.limbs).2.toNat = 0 := by
    by_contra hne
    have hone : (addLimbs a.limbs b.limbs).2.toNat = 1 := by omega
    rw [hone] at hsum
    omega
  rw [hnone, Nat.zero_mul, Nat.add_zero] at hsum
  have hsub := value_condSubIfGe_mod (a := (addLimbs a.limbs b.limbs).1) (b := n c)
    (by rw [hsum, value_n]; omega)
  rw [value_n, hsum] at hsub
  exact hsub

theorem isZero_iff (a : Scalar c) : a.isZero = true ↔ a.toNat = 0 := by
  rw [isZero, beq_iff_eq, toNat]
  refine ⟨fun h => by rw [h, value_zero], fun h => value_injective ?_⟩
  rw [h, value_zero]

/-! ## Byte strings -/

theorem foldl_or_eq_zero (words : List UInt64) (acc : UInt64) :
    words.foldl (fun acc l => acc ||| l) acc = 0 ↔ acc = 0 ∧ ∀ l ∈ words, l = 0 := by
  induction words generalizing acc with
  | nil => simp
  | cons l words ih => rw [List.foldl_cons, ih, UInt64.or_eq_zero_iff, List.forall_mem_cons, and_assoc]

/-- The words are all clear exactly if the integer is zero. -/
theorem foldl_or_ne_zero (x : Vector UInt64 c.limbs) :
    (x.foldl (fun acc l => acc ||| l) 0 != 0) = decide (0 < value x) := by
  have hclear : (∀ l ∈ x.toList, l = 0) ↔ value x = 0 := by
    refine ⟨fun h => ?_, fun h => ?_⟩
    · have hzero : x = Vector.replicate c.limbs 0 :=
        Vector.eq_replicate_iff.mpr (fun l hl => h l (Vector.mem_toList_iff.mpr hl))
      rw [hzero, value_zero]
    · have hzero : x = Vector.replicate c.limbs 0 := value_injective (by rw [h, value_zero])
      intro l hl
      rw [hzero] at hl
      exact (Vector.mem_replicate.mp (Vector.mem_toList_iff.mp hl)).2
  have hfold := foldl_or_eq_zero x.toList 0
  rw [Vector.foldl_toList, hclear] at hfold
  rw [Bool.eq_iff_iff, bne_iff_ne, Ne, hfold, decide_eq_true_eq, Nat.pos_iff_ne_zero]
  exact not_congr (and_iff_right rfl)

theorem toNat_fromBeBytes {m : Nat} (h : m ≤ 8 * c.limbs) (bytes : Vector UInt8 m) :
    (fromBeBytes (c := c) h bytes).toNat = beNat bytes.toList := value_limbsFromBeBytes _ h bytes

/-- A scalar below the order fits its bytes. -/
theorem beNat_toBeBytes {a : Scalar c} (ha : a.toNat < c.nat) :
    beNat a.toBeBytes.toList = a.toNat := by
  have hlt := beNat_lt c.order.toList
  rw [Vector.length_toList] at hlt
  rw [toBeBytes, beNat_limbsToBeBytes]
  exact Nat.mod_eq_of_lt (Nat.lt_trans ha hlt)

theorem fromCandidateBytes_eq (bytes : Vector UInt8 c.scalarBytes) :
    fromCandidateBytes bytes
      = if 1 ≤ beNat bytes.toList ∧ beNat bytes.toList < c.nat then
          some (fromBeBytes c.fits bytes) else none := by
  have hvalue := value_limbsFromBeBytes c.limbs c.fits bytes
  have hrange : ((subLimbs (limbsFromBeBytes c.limbs c.fits bytes) (n c)).2 == 1)
      = decide (beNat bytes.toList < c.nat) := by
    obtain ⟨hborrow, hlt⟩ | ⟨hborrow, hle, -⟩ :=
      subLimbs_cases (limbsFromBeBytes c.limbs c.fits bytes) (n c)
    · rw [hvalue, value_n] at hlt
      rw [hborrow, decide_eq_true hlt]
      rfl
    · rw [hvalue, value_n] at hle
      rw [hborrow, decide_eq_false (Nat.not_lt_of_le hle)]
      rfl
  rw [fromCandidateBytes, hrange, foldl_or_ne_zero, hvalue, ← Bool.decide_and]
  simp only [decide_eq_true_eq, and_comm, Nat.succ_le_iff]
  rfl

/-- The order itself is out of range. -/
example : fromCandidateBytes (c := curve163) order163 = none := by decide

end Scalar

open Scalar in
/-- Both scalar types compute modulo their order, reduce byte strings of any length, and take
exactly the byte strings of `[1, n)`. -/
theorem scalar_arithmetic (curve : Curve) :
    (∀ a b : Scalar curve.group, a.toNat < curve.group.nat → b.toNat < curve.group.nat →
      (a + b).toNat = (a.toNat + b.toNat) % curve.group.nat
        ∧ (a.multiply b).toNat = a.toNat * b.toNat % curve.group.nat
        ∧ (a + b).toNat < curve.group.nat ∧ (a.multiply b).toNat < curve.group.nat)
      ∧ (∀ x : List UInt8,
        (reduceWideBytes (c := curve.group) x).toNat = beNat x % curve.group.nat)
      ∧ (∀ x : Vector UInt8 curve.group.scalarBytes,
        ((fromCandidateBytes x).isSome ↔ 1 ≤ beNat x.toList ∧ beNat x.toList < curve.group.nat)
          ∧ ∀ s ∈ fromCandidateBytes x, s.toBeBytes = x) := by
  refine ⟨fun a b ha hb => ?_, fun x => toNat_reduceWideBytes x, fun x => ?_⟩
  · have hsum := toNat_add ha hb
    have hproduct := toNat_multiply a b
    refine ⟨hsum, hproduct, ?_, ?_⟩
    · rw [hsum]
      exact Nat.mod_lt _ curve.group.pos
    · rw [hproduct]
      exact Nat.mod_lt _ curve.group.pos
  · rw [fromCandidateBytes_eq]
    split
    · rename_i hrange
      refine ⟨iff_of_true rfl hrange, ?_⟩
      intro s hs
      rw [← Option.some.inj hs]
      exact limbsToBeBytes_limbsFromBeBytes _ x
    · rename_i hrange
      exact ⟨iff_of_false (by simp) hrange, fun s hs => nomatch hs⟩

end UaCrypt.Hazmat.Dstu4145

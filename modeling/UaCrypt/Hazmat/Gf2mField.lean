import UaCrypt.Hazmat.Gf2mCorrect
import UaCrypt.Lib.BinaryIrreducible

/-!
# The three quotient rings are fields

Each reduction pentanomial of the crate is irreducible, so `toQuotient` takes the elements
into a field: `GF(2^128)`, `GF(2^256)`, `GF(2^512)`.
-/

namespace UaCrypt.Hazmat.Gf2mWide

open Polynomial

theorem modulus_eq (limbs : Nat) (f : Pentanomial) :
    modulus limbs f = BinaryIrreducible.modulus (64 * limbs) [f.f1, f.f2, f.f3, 0] := by
  simp only [modulus, Pentanomial.tail, BinaryIrreducible.modulus, List.map_cons, List.map_nil,
    List.sum_cons, List.sum_nil, pow_zero]
  ring

theorem natDegree_modulus {limbs : Nat} (hlimbs : 0 < limbs) (f : Pentanomial) :
    (modulus limbs f).natDegree = 64 * limbs :=
  natDegree_eq_of_degree_eq_some (degree_modulus f hlimbs)

theorem certified_gf2m128 :
    BinaryIrreducible.certified (2 ^ (6 + 1)) [64, 32, 16, 8, 4, 2, 1] [7, 2, 1, 0]
      0x61651fea6b5832b944e598a795a299f6
      0x9e4af928ddbc838a41a8cafd2c95b018 = true := by
  decide +kernel

theorem certified_gf2m256 :
    BinaryIrreducible.certified (2 ^ (7 + 1)) [128, 64, 32, 16, 8, 4, 2, 1] [10, 5, 2, 0]
      0x2220d78c13d87c2ffc1c5bd25e53444bc74da1980d2519c9d41f22f67f2f9863
      0x41d07da235f08b92d026035887191e2fd91148129c622b9bd3caaa61ed5af509 = true := by
  decide +kernel

theorem certified_gf2m512 :
    BinaryIrreducible.certified (2 ^ (8 + 1)) [256, 128, 64, 32, 16, 8, 4, 2, 1] [8, 5, 2, 0]
      (0x53dc5bb4cbe67ab31ef525dbd35fa656a39eb247ca005dadf2aa192f8d81a6c9 * 2 ^ 256
        + 0xeb0aff4ea1b1da4ff1fefbce484d7ed2a60793cd8b79a0703d352c26e604da4a)
      (0x70fbf290093285fc122e5501d69b7d83d91c4f53091d5ab33a78268b23f04af0 * 2 ^ 256
        + 0xe7b1c509b2b3f77feec8a68b47d291a41162fd74f84b1af22d174edac6c6ce9b) = true := by
  decide +kernel

/-- The reduction polynomials are irreducible. -/
theorem irreducible_modulus (field : Field) :
    Irreducible (modulus field.limbs field.pentanomial) := by
  have hdeg := natDegree_modulus (Nat.lt_of_lt_of_le (by decide) field.two_le_limbs)
    field.pentanomial
  rw [modulus_eq] at hdeg ⊢
  cases field with
  | gf2m128 =>
    rw [show 64 * Field.limbs .gf2m128 = 2 ^ (6 + 1) by decide] at hdeg ⊢
    exact BinaryIrreducible.irreducible_of_certified hdeg certified_gf2m128
  | gf2m256 =>
    rw [show 64 * Field.limbs .gf2m256 = 2 ^ (7 + 1) by decide] at hdeg ⊢
    exact BinaryIrreducible.irreducible_of_certified hdeg certified_gf2m256
  | gf2m512 =>
    rw [show 64 * Field.limbs .gf2m512 = 2 ^ (8 + 1) by decide] at hdeg ⊢
    exact BinaryIrreducible.irreducible_of_certified hdeg certified_gf2m512

end UaCrypt.Hazmat.Gf2mWide

import UaCrypt.Hazmat.Dstu9041.CurveGroup
import UaCrypt.Lib.LargePrimes

/-!
# The prime orders at `l(p) = 384` and `512`

- `Size.n_prime`: the base point's order is prime at all three sizes.
- `Size.p_prime`: so is the modulus of the field.
-/

namespace UaCrypt.Hazmat.Dstu9041

open Residues

/-- The prime factors that the certificates below repeat. -/
theorem prime_of_mem_small : ∀ q ∈ [2, 3, 5, 7, 11, 13], q.Prime := by
  intro q hq
  fin_cases hq <;> norm_num

/-- The factors of `n - 1` at `l(p) = 384`, and theirs, that are below `2 ^ 79`. -/
def factorCertificates384 : List Certificate := [
  ⟨1403393, 3, [2, 2, 2, 2, 2, 2, 2, 2, 2, 2741]⟩,
  ⟨2806787, 2, [2, 1403393]⟩,
  ⟨14369039, 11, [2, 61, 117779]⟩,
  ⟨172428469, 7, [2, 2, 3, 14369039]⟩,
  ⟨343270231116205375841, 3, [2, 2, 2, 2, 2, 5, 11, 13, 31, 2806787, 172428469]⟩,
  ⟨15783143, 5, [2, 107, 131, 563]⟩,
  ⟨449929, 11, [2, 2, 2, 3, 3, 3, 2083]⟩,
  ⟨278056123, 2, [2, 3, 103, 449929]⟩,
  ⟨1668336739, 2, [2, 3, 278056123]⟩,
  ⟨432760126432920358741, 6, [2, 2, 3, 5, 103, 919, 45673, 1668336739]⟩,
  ⟨617231, 17, [2, 5, 61723]⟩,
  ⟨1029541309, 2, [2, 2, 3, 139, 617231]⟩,
  ⟨10295413091, 2, [2, 5, 1029541309]⟩,
  ⟨741269742553, 10, [2, 2, 2, 3, 3, 10295413091]⟩,
  ⟨51383987, 2, [2, 211, 121763]⟩,
  ⟨312107, 2, [2, 113, 1381]⟩,
  ⟨1891368421, 6, [2, 2, 3, 5, 101, 312107]⟩,
  ⟨2928993185655484494727, 5, [2, 3, 5023, 51383987, 1891368421]⟩,
  ⟨710713, 7, [2, 2, 2, 3, 3, 9871]⟩,
  ⟨540822492243906500587411, 17, [2, 3, 3, 5, 11, 1907, 2267, 12109, 14683, 710713]⟩]

/-- The order at `l(p) = 384`, after its larger factors. -/
def orderCertificates384 : List Certificate := [
  ⟨3670610929489123893424301910072281536742153584682623101798367,
    3, [2, 3, 521, 741269742553, 2928993185655484494727, 540822492243906500587411]⟩,
  ⟨434788717290974243651196916925196129923234231389681559866997094509472930376519609465449162983,
    5, [2, 13, 23, 29, 15783143, 432760126432920358741,
      3670610929489123893424301910072281536742153584682623101798367]⟩,
  ⟨9850501549098619803069760025035903451269934817616361666987342401948311493316124779945938098654427930647013059784399,
    3, [2, 3, 11, 343270231116205375841,
      434788717290974243651196916925196129923234231389681559866997094509472930376519609465449162983]⟩]

theorem order384_prime : curve384.n.Prime := by
  have hfactors : checkAll 79 [2, 3, 5, 7, 11, 13] factorCertificates384 = true := by
    decide +kernel
  have hfactor := prime_of_checkAll prime_of_mem_small hfactors
  have horder : checkAll 384 ([2, 3, 5, 7, 11, 13] ++ factorCertificates384.map (·.p))
      orderCertificates384 = true := by
    decide +kernel
  have hknown : ∀ q ∈ [2, 3, 5, 7, 11, 13] ++ factorCertificates384.map (·.p), q.Prime := by
    intro q hq
    obtain hsmall | hlarge := List.mem_append.mp hq
    · exact prime_of_mem_small q hsmall
    · obtain ⟨c, hc, rfl⟩ := List.mem_map.mp hlarge
      exact hfactor c hc
  have hn : curve384.n
      = 9850501549098619803069760025035903451269934817616361666987342401948311493316124779945938098654427930647013059784399 := by
    decide +kernel
  rw [hn]
  exact prime_of_checkAll hknown horder ⟨_, _, _⟩ (List.mem_of_getLast? rfl)

/-- The two largest known prime factors of `largeFactor512 - 1`, and theirs. -/
def largeFactorCertificates : List Certificate := [
  ⟨444148967, 5, [2, 31, 47, 152419]⟩,
  ⟨160977101987760547, 2, [2, 3, 1559, 38747, 444148967]⟩,
  ⟨325301, 2, [2, 2, 5, 5, 3253]⟩,
  ⟨42939733, 2, [2, 2, 3, 11, 325301]⟩,
  ⟨901613, 2, [2, 2, 17, 13259]⟩,
  ⟨21909195901, 6, [2, 2, 3, 3, 3, 3, 3, 5, 5, 901613]⟩,
  ⟨3763100088934537733, 2, [2, 2, 42939733, 21909195901]⟩]

/-- The large prime factor of `n + 1` at `l(p) = 512`; of it less one, a third of the bits are
factored. -/
def largeFactor512 : PartialCertificate where
  p :=
    50796270215688689403557409970897753690422857746300733666770619015986433006556850917827556210255732614205459900803
  a := 2
  factors := [2, 7, 7, 11, 160977101987760547, 3763100088934537733]
  modulus := 3

theorem largeFactor512_prime : largeFactor512.p.Prime := by
  have hcheck : checkAll 128 [] largeFactorCertificates = true := by decide +kernel
  have hall := prime_of_mem_checked hcheck
  have hpartial : largeFactor512.check 376 (largeFactorCertificates.map (·.p)) = true := by
    decide +kernel
  refine prime_of_checkPartial (fun q hq => ?_) hpartial
  obtain ⟨c, hc, rfl⟩ := List.mem_map.mp hq
  exact hall c hc

def order512 : Nat :=
  3351951982485649274893506249551461531869841455148098344430890360930441007518405126134457362200665151479341001585987474750943073636601341402240469528982943

theorem order512_prime : curve512.n.Prime := by
  -- a point of the conic whose order is the large factor
  have hconic : checkConic order512 3
    1661956233267518074079815830077045848898752228942925844870986053092737496873358406860255351216272512154450688820337041478385871318271756759066917377847447
    1348657841335376343538572073303831630543735238397970500429372210351617827598002187033030542768386742961393519879666040357207268998646953392734885714116779
    largeFactor512.p 376 = true := by
    decide +kernel
  have hn : curve512.n = order512 := by decide +kernel
  rw [hn]
  exact prime_of_checkConic (by decide +kernel) largeFactor512_prime (by decide +kernel) hconic

/-- **The base point's order is prime** at every size. -/
theorem Size.n_prime (s : Size) : s.curve.n.Prime := by
  cases s with
  | l256 => exact order256_prime
  | l384 => exact order384_prime
  | l512 => exact order512_prime

theorem Size.p_prime (s : Size) : s.curve.p.Prime := s.curve.p_prime s.n_prime

instance (s : Size) : Fact s.curve.p.Prime := ⟨s.p_prime⟩

end UaCrypt.Hazmat.Dstu9041

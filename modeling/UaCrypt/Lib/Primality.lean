import UaCrypt.Lib.Residues

/-!
# Primality by certificates

`p` is prime if some `a` has order `p - 1` modulo `p`. A certificate is such an `a` with the prime
factors of `p - 1`, each of them small or certified before.

- `checkAll`: a list of certificates, run by the kernel.
- `prime_of_checkAll`: what it certifies is prime.
-/

namespace Residues

/-- No number below `bound` divides `q`, and none has to be tried beyond. -/
def trial (bound q : Nat) : Bool :=
  decide (2 ≤ q) && decide (q < bound * bound)
    && (List.range bound).all fun d => decide (d < 2) || decide (q ≤ d) || q % d != 0

theorem prime_of_trial {bound q : Nat} (h : trial bound q = true) : q.Prime := by
  simp only [trial, Bool.and_eq_true, decide_eq_true_eq, List.all_eq_true, List.mem_range,
    Bool.or_eq_true, bne_iff_ne, ne_eq] at h
  obtain ⟨⟨htwo, hlt⟩, hall⟩ := h
  by_contra hnot
  have hprime := Nat.minFac_prime (n := q) (by omega)
  have hsq := Nat.minFac_sq_le_self (by omega) hnot
  have hbound : q.minFac < bound := by
    by_contra hge
    have hmul := Nat.mul_le_mul (Nat.not_lt.mp hge) (Nat.not_lt.mp hge)
    rw [sq] at hsq
    omega
  rcases hall _ hbound with (hsmall | hlarge) | hmod
  · exact absurd hprime.two_le (Nat.not_le.mpr hsmall)
  · have heq := Nat.le_antisymm (Nat.minFac_le (by omega)) hlarge
    rw [heq] at hprime
    exact hnot hprime
  · exact hmod (Nat.mod_eq_zero_of_dvd (Nat.minFac_dvd q))

/-- A number, a base and the prime factors of the number less one. -/
structure Certificate where
  p : Nat
  a : Nat
  factors : List Nat

/-- Fermat's condition holds, and fails for every proper exponent. -/
def Certificate.check (count : Nat) (known : List Nat) (c : Certificate) : Bool :=
  decide (1 < c.p) && decide (c.p ≤ 2 ^ count)
    && c.factors.all (fun q => known.contains q || trial 500 q) && c.factors.prod == c.p - 1
    && (powMod (⟨c.a⟩ : Residue c.p) (c.p - 1) count).val % c.p == 1
    && c.factors.all fun q => (powMod (⟨c.a⟩ : Residue c.p) ((c.p - 1) / q) count).val % c.p != 1

/-- Certificates, each after those of its factors. -/
def checkAll (count : Nat) (known : List Nat) : List Certificate → Bool
  | [] => true
  | c :: rest => c.check count known && checkAll count (c.p :: known) rest

theorem powMod_eq_one_iff {p a k count : Nat} (hp : 1 < p) (hk : k < 2 ^ count) :
    (powMod (⟨a⟩ : Residue p) k count).val % p = 1 ↔ (a : ZMod p) ^ k = 1 := by
  have hcast := cast_powMod (ZMod.natCast_self p) (⟨a⟩ : Residue p) hk
  have hcongr := ZMod.natCast_eq_natCast_iff' (powMod (⟨a⟩ : Residue p) k count).val 1 p
  rw [Nat.cast_one, Nat.mod_eq_of_lt hp] at hcongr
  rw [Residue.cast, Residue.cast] at hcast
  rw [← hcast, hcongr]

theorem Certificate.prime {count : Nat} {known : List Nat} {c : Certificate}
    (hknown : ∀ q ∈ known, q.Prime) (h : c.check count known = true) : c.p.Prime := by
  simp only [Certificate.check, Bool.and_eq_true, decide_eq_true_eq, List.all_eq_true,
    Bool.or_eq_true, List.contains_iff_mem, beq_iff_eq, bne_iff_ne, ne_eq] at h
  obtain ⟨⟨⟨⟨⟨hp, hcount⟩, hfactors⟩, hprod⟩, hone⟩, hne⟩ := h
  have hprime (q : Nat) (hq : q ∈ c.factors) : q.Prime :=
    (hfactors q hq).elim (hknown q) prime_of_trial
  refine lucas_primality c.p (c.a : ZMod c.p) ?_ ?_
  · exact (powMod_eq_one_iff hp (by omega)).mp hone
  · intro q hq hdvd hpow
    rw [← hprod, Prime.dvd_prod_iff hq.prime] at hdvd
    obtain ⟨q', hmem, hdvd⟩ := hdvd
    obtain rfl := (Nat.prime_dvd_prime_iff_eq hq (hprime q' hmem)).mp hdvd
    have hle := Nat.div_le_self (c.p - 1) q
    exact hne q hmem ((powMod_eq_one_iff hp (by omega)).mpr hpow)

/-- **A passed list certifies every number in it.** -/
theorem prime_of_checkAll {count : Nat} {known : List Nat} {cs : List Certificate}
    (hknown : ∀ q ∈ known, q.Prime) (h : checkAll count known cs = true) :
    ∀ c ∈ cs, c.p.Prime := by
  induction cs generalizing known with
  | nil =>
    intro c hc
    cases hc
  | cons c rest ih =>
    rw [checkAll, Bool.and_eq_true] at h
    have hc := Certificate.prime hknown h.1
    have hrest := ih (fun q hq => (List.mem_cons.mp hq).elim (fun heq => heq ▸ hc) (hknown q)) h.2
    intro c' hc'
    exact (List.mem_cons.mp hc').elim (fun heq => heq ▸ hc) (hrest c')

/-- With no number certified before. -/
theorem prime_of_mem_checked {count : Nat} {cs : List Certificate}
    (h : checkAll count [] cs = true) : ∀ c ∈ cs, c.p.Prime :=
  prime_of_checkAll (fun _ hq => absurd hq List.not_mem_nil) h

end Residues

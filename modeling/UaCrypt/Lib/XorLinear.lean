import Mathlib

/-!
# XOR folds and XOR-linear maps

The GF(2)-linear algebra behind table-driven byte mixing, with XOR as addition.

- `xorFold init f`: the accumulator loop `acc ^= f(i)` over `0..n`.
- `XorLinear f`: `f` distributes over XOR. A linear map commutes with a fold
  (`XorLinear.map_xorFold`), a fold of linear maps is linear
  (`xorLinear_xorFold`).
- `XorLinear.ext_uint8`, `XorLinear.ext_uint64`: a linear map on words is
  determined by its values on the single bits, which turns an identity over all
  `2^64` words into 64 evaluations.
-/

universe u v

variable {α : Type u} {β : Type v} [XorOp α] [XorOp β]

/-- The loop `acc = init; for i in 0..n { acc ^= f(i) }`. -/
def xorFold {n : Nat} (init : α) (f : Fin n → α) : α :=
  (List.finRange n).foldl (fun acc i => acc ^^^ f i) init

/-- `f` distributes over XOR. -/
def XorLinear (f : α → β) : Prop :=
  ∀ a b, f (a ^^^ b) = f a ^^^ f b

/-! ## Folds -/

theorem XorLinear.map_foldl {ι : Type*} {f : α → β} (hf : XorLinear f) (g : ι → α)
    (init : α) (is : List ι) :
    f (is.foldl (fun acc i => acc ^^^ g i) init)
      = is.foldl (fun acc i => acc ^^^ f (g i)) (f init) := by
  induction is generalizing init with
  | nil => rfl
  | cons i is ih => rw [List.foldl_cons, List.foldl_cons, ih, hf]

/-- A linear map goes through the accumulator loop. -/
theorem XorLinear.map_xorFold {f : α → β} (hf : XorLinear f) {n : Nat} (init : α)
    (g : Fin n → α) :
    f (xorFold init g) = xorFold (f init) fun i => f (g i) :=
  hf.map_foldl g init _

theorem XorLinear.comp {γ : Type*} [XorOp γ] {f : β → γ} {g : α → β}
    (hf : XorLinear f) (hg : XorLinear g) : XorLinear fun a => f (g a) := by
  intro a b
  show f (g (a ^^^ b)) = f (g a) ^^^ f (g b)
  rw [hg, hf]

section Fold

variable [Std.Associative (α := β) (· ^^^ ·)] [Std.Commutative (α := β) (· ^^^ ·)]

theorem foldl_xor_xor {ι : Type*} (f g : ι → β) (a b : β) (is : List ι) :
    is.foldl (fun acc i => acc ^^^ (f i ^^^ g i)) (a ^^^ b)
      = is.foldl (fun acc i => acc ^^^ f i) a ^^^ is.foldl (fun acc i => acc ^^^ g i) b := by
  induction is generalizing a b with
  | nil => rfl
  | cons i is ih =>
    have hswap : a ^^^ b ^^^ (f i ^^^ g i) = (a ^^^ f i) ^^^ (b ^^^ g i) := by ac_rfl
    rw [List.foldl_cons, List.foldl_cons, List.foldl_cons, hswap, ih]

/-- Folding a sum is the sum of the folds. -/
theorem xorFold_xor {n : Nat} (f g : Fin n → β) (a b : β) :
    xorFold (a ^^^ b) (fun i => f i ^^^ g i) = xorFold a f ^^^ xorFold b g :=
  foldl_xor_xor f g a b _

/-- A fold of linear maps, started at an element that is its own double, is
linear. -/
theorem xorLinear_xorFold {n : Nat} {z : β} (hz : z ^^^ z = z) {f : Fin n → α → β}
    (hf : ∀ i, XorLinear (f i)) : XorLinear fun a => xorFold z fun i => f i a := by
  intro a b
  have hsplit : (fun i => f i (a ^^^ b)) = fun i => f i a ^^^ f i b :=
    funext fun i => hf i a b
  show xorFold z (fun i => f i (a ^^^ b)) = _
  rw [hsplit, ← xorFold_xor, hz]

end Fold

/-! ## Linear maps are determined by the single bits -/

/-- A number with top bit `m` is that bit XORed onto its low part. -/
theorem two_pow_xor_sub {m n : Nat} (hle : 2 ^ m ≤ n) (hlt : n < 2 ^ (m + 1)) :
    2 ^ m ^^^ (n - 2 ^ m) = n := by
  have hlow : n - 2 ^ m < 2 ^ m := by
    rw [Nat.pow_succ] at hlt
    omega
  apply Nat.eq_of_testBit_eq
  intro i
  obtain ⟨r, rfl⟩ : ∃ r, n = 2 ^ m + r := ⟨n - 2 ^ m, by omega⟩
  rw [Nat.add_sub_cancel_left] at hlow ⊢
  rw [Nat.testBit_xor]
  rcases Nat.lt_trichotomy i m with hi | rfl | hi
  · rw [Nat.testBit_two_pow_of_ne (by omega), Nat.testBit_two_pow_add_gt hi, Bool.false_xor]
  · rw [Nat.testBit_two_pow_self, Nat.testBit_two_pow_add_eq, Bool.true_xor]
  · have hpow : 2 ^ (m + 1) ≤ 2 ^ i := Nat.pow_le_pow_right (by omega) hi
    rw [Nat.testBit_two_pow_of_ne (by omega),
      Nat.testBit_lt_two_pow (Nat.lt_of_lt_of_le (by omega : r < 2 ^ m)
        (Nat.pow_le_pow_right (by omega) (Nat.le_of_lt hi))),
      Nat.testBit_lt_two_pow (Nat.lt_of_lt_of_le hlt hpow)]
    rfl

/-- Below its top bit, adding that bit is XORing it. -/
theorem two_pow_add_eq_xor {m r : Nat} (h : r < 2 ^ m) : 2 ^ m + r = 2 ^ m ^^^ r := by
  have hsub := two_pow_xor_sub (m := m) (n := 2 ^ m + r) (by omega) (by
    rw [Nat.pow_succ]
    omega)
  rw [Nat.add_sub_cancel_left] at hsub
  exact hsub.symm

/-- A function on numbers that splits off the top bit by XOR is linear below
`2^m`. -/
theorem xor_of_top_bit {F : Nat → Nat} {m : Nat} (h0 : F 0 = 0)
    (h : ∀ k < m, ∀ j < 2 ^ k, F (2 ^ k + j) = F (2 ^ k) ^^^ F j) :
    ∀ a < 2 ^ m, ∀ b < 2 ^ m, F (a ^^^ b) = F a ^^^ F b := by
  induction m with
  | zero =>
    intro a ha b hb
    obtain rfl : a = 0 := by simpa using ha
    obtain rfl : b = 0 := by simpa using hb
    simp [h0]
  | succ m ih =>
    have ih := ih fun k hk => h k (by omega)
    have htop := h m (by omega)
    intro a ha b hb
    rw [Nat.pow_succ] at ha hb
    by_cases hal : a < 2 ^ m <;> by_cases hbl : b < 2 ^ m
    · exact ih a hal b hbl
    · obtain ⟨b', rfl⟩ : ∃ r, b = 2 ^ m + r := ⟨b - 2 ^ m, by omega⟩
      have hb' : b' < 2 ^ m := by omega
      have hxor : a ^^^ (2 ^ m + b') = 2 ^ m + (a ^^^ b') := by
        rw [two_pow_add_eq_xor hb', two_pow_add_eq_xor (Nat.xor_lt_two_pow hal hb')]
        ac_rfl
      rw [hxor, htop _ (Nat.xor_lt_two_pow hal hb'), htop _ hb', ih a hal b' hb']
      ac_rfl
    · obtain ⟨a', rfl⟩ : ∃ r, a = 2 ^ m + r := ⟨a - 2 ^ m, by omega⟩
      have ha' : a' < 2 ^ m := by omega
      have hxor : (2 ^ m + a') ^^^ b = 2 ^ m + (a' ^^^ b) := by
        rw [two_pow_add_eq_xor ha', two_pow_add_eq_xor (Nat.xor_lt_two_pow ha' hbl)]
        ac_rfl
      rw [hxor, htop _ (Nat.xor_lt_two_pow ha' hbl), htop _ ha', ih a' ha' b hbl]
      ac_rfl
    · obtain ⟨a', rfl⟩ : ∃ r, a = 2 ^ m + r := ⟨a - 2 ^ m, by omega⟩
      obtain ⟨b', rfl⟩ : ∃ r, b = 2 ^ m + r := ⟨b - 2 ^ m, by omega⟩
      have ha' : a' < 2 ^ m := by omega
      have hb' : b' < 2 ^ m := by omega
      have hcancel : ∀ t x y : Nat, (t ^^^ x) ^^^ (t ^^^ y) = x ^^^ y := by
        intro t x y
        have hswap : (t ^^^ x) ^^^ (t ^^^ y) = (t ^^^ t) ^^^ (x ^^^ y) := by ac_rfl
        rw [hswap, Nat.xor_self, Nat.zero_xor]
      rw [two_pow_add_eq_xor ha', two_pow_add_eq_xor hb', hcancel, ← two_pow_add_eq_xor ha',
        ← two_pow_add_eq_xor hb', htop _ ha', htop _ hb', hcancel, ih a' ha' b' hb']

/-- Two maps that take XOR to one operation and agree at `0` and at the powers below `2^m`
agree below `2^m`. -/
theorem eq_below_of_two_pow {γ : Type*} (op : γ → γ → γ) {f g : Nat → γ}
    (hf : ∀ a b, f (a ^^^ b) = op (f a) (f b)) (hg : ∀ a b, g (a ^^^ b) = op (g a) (g b))
    (h0 : f 0 = g 0) {m : Nat} (h : ∀ k < m, f (2 ^ k) = g (2 ^ k)) :
    ∀ n < 2 ^ m, f n = g n := by
  induction m with
  | zero =>
    intro n hn
    have hzero : n = 0 := by simpa using hn
    rw [hzero, h0]
  | succ m ih =>
    have ih := ih fun k hk => h k (by omega)
    intro n hn
    by_cases hlt : n < 2 ^ m
    · exact ih n hlt
    · -- the top bit and the rest
      have hsplit := two_pow_xor_sub (Nat.le_of_not_lt hlt) hn
      have hlow : n - 2 ^ m < 2 ^ m := by
        rw [Nat.pow_succ] at hn
        omega
      rw [← hsplit, hf, hg, h m (by omega), ih _ hlow]

theorem XorLinear.eq_of_two_pow {f g : Nat → β} (hf : XorLinear f) (hg : XorLinear g)
    (h0 : f 0 = g 0) (m : Nat) (h : ∀ k < m, f (2 ^ k) = g (2 ^ k)) :
    ∀ n < 2 ^ m, f n = g n :=
  eq_below_of_two_pow (· ^^^ ·) hf hg h0 h

/-- A linear map into words sends zero to zero. -/
theorem XorLinear.map_zero {a : α} (ha : a ^^^ a = a) {f : α → UInt64} (hf : XorLinear f) :
    f a = 0 := by
  have h := hf a a
  rwa [ha, UInt64.xor_self] at h

/-- Two linear maps on bytes that agree on the eight bits are equal. -/
theorem XorLinear.ext_uint8 {f g : UInt8 → β} (hf : XorLinear f) (hg : XorLinear g)
    (h0 : f 0 = g 0) (h : ∀ k < 8, f (UInt8.ofNat (2 ^ k)) = g (UInt8.ofNat (2 ^ k)))
    (b : UInt8) : f b = g b := by
  have hofNat : XorLinear UInt8.ofNat := fun m n => UInt8.ofNat_xor m n
  have hb := (hf.comp hofNat).eq_of_two_pow (hg.comp hofNat) h0 8 h b.toNat b.toNat_lt
  simpa using hb

/-- Two linear maps on 64-bit words that agree on the 64 bits are equal. -/
theorem XorLinear.ext_uint64 {f g : UInt64 → β} (hf : XorLinear f) (hg : XorLinear g)
    (h0 : f 0 = g 0) (h : ∀ k < 64, f (UInt64.ofNat (2 ^ k)) = g (UInt64.ofNat (2 ^ k)))
    (w : UInt64) : f w = g w := by
  have hofNat : XorLinear UInt64.ofNat := fun m n => UInt64.ofNat_xor m n
  have hw := (hf.comp hofNat).eq_of_two_pow (hg.comp hofNat) h0 64 h w.toNat w.toNat_lt
  simpa using hw

import UaCrypt.Lib.FinIndex

/-!
# Little-endian byte strings

Fixed-width little-endian encodings of natural numbers, over any width.

- `leBytes n x`: the `n` low bytes of `x`, byte `0` least significant.
- `leNat bs`: the number a byte string spells.
- `leNat_leBytes` / `leBytes_leNat`: the two are inverse (up to the width).
- `leBytes_xor`: encoding commutes with bitwise XOR, which is what carries an
  XOR argument from words to their bytes.
- `increment`: the ripple-carry loop of a byte counter; `leNat_increment`.
-/

namespace LittleEndian

/-- The `n` low bytes of `x`, least significant first. -/
def leBytes (n x : Nat) : Vector UInt8 n :=
  Vector.ofFn fun i => UInt8.ofNat (x >>> (8 * i.val))

/-- The number a little-endian byte string spells. -/
def leNat (bs : List UInt8) : Nat :=
  bs.foldr (fun b acc => b.toNat + 256 * acc) 0

@[simp] theorem leNat_nil : leNat [] = 0 := rfl

theorem leNat_cons (b : UInt8) (bs : List UInt8) :
    leNat (b :: bs) = b.toNat + 256 * leNat bs := rfl

@[simp] theorem getElem_leBytes (n x i : Nat) (h : i < n) :
    (leBytes n x)[i] = UInt8.ofNat (x >>> (8 * i)) := by
  simp [leBytes]

/-- Peeling off the low byte. -/
theorem leBytes_succ (n x : Nat) :
    (leBytes (n + 1) x).toList = UInt8.ofNat x :: (leBytes n (x >>> 8)).toList := by
  apply List.ext_getElem (by simp)
  intro i h₁ h₂
  cases i with
  | zero => simp
  | succ i =>
    have hshift : 8 * (i + 1) = 8 + 8 * i := by omega
    simp [hshift, Nat.shiftRight_add]

theorem leNat_lt (bs : List UInt8) : leNat bs < 256 ^ bs.length := by
  induction bs with
  | nil => simp
  | cons b bs ih =>
    have hb := b.toNat_lt
    rw [leNat_cons, List.length_cons, Nat.pow_succ]
    omega

/-- Reading back an encoding keeps the `n` low bytes. -/
theorem leNat_leBytes (n x : Nat) : leNat (leBytes n x).toList = x % 256 ^ n := by
  induction n generalizing x with
  | zero =>
    have hnil : (leBytes 0 x).toList = [] := List.eq_nil_of_length_eq_zero (by simp)
    rw [hnil, leNat_nil, Nat.pow_zero, Nat.mod_one]
  | succ n ih =>
    have hlow : (UInt8.ofNat x).toNat = x % 256 := by simp
    rw [leBytes_succ, leNat_cons, ih, hlow, Nat.shiftRight_eq_div_pow,
      Nat.pow_succ 256, Nat.mul_comm (256 ^ n), Nat.mod_mul]

/-- Reading back an encoding that fits is the identity. -/
theorem leNat_leBytes_of_lt {n x : Nat} (h : x < 256 ^ n) :
    leNat (leBytes n x).toList = x := by
  rw [leNat_leBytes, Nat.mod_eq_of_lt h]

theorem leNat_shiftRight (bs : List UInt8) (i : Nat) (h : i < bs.length) :
    UInt8.ofNat (leNat bs >>> (8 * i)) = bs[i] := by
  induction bs generalizing i with
  | nil => exact absurd h (by simp)
  | cons b bs ih =>
    have hb := b.toNat_lt
    cases i with
    | zero =>
      apply UInt8.toNat_inj.mp
      simp only [leNat_cons, Nat.mul_zero, Nat.shiftRight_zero, UInt8.toNat_ofNat',
        List.getElem_cons_zero]
      omega
    | succ i =>
      have hdiv : leNat (b :: bs) >>> 8 = leNat bs := by
        rw [leNat_cons, Nat.shiftRight_eq_div_pow]
        omega
      have hshift : 8 * (i + 1) = 8 + 8 * i := by omega
      rw [hshift, Nat.shiftRight_add, hdiv]
      simpa using ih i (by simpa using h)

/-- Encoding what a byte string spells gives the byte string back. -/
theorem leBytes_leNat {n : Nat} (bs : Vector UInt8 n) :
    leBytes n (leNat bs.toList) = bs := by
  apply Vector.ext
  intro i hi
  rw [getElem_leBytes, leNat_shiftRight _ _ (by simpa using hi)]
  simp

/-- Encoding commutes with XOR, byte by byte. -/
theorem leBytes_xor (n x y : Nat) :
    leBytes n (x ^^^ y) = Vector.zipWith (· ^^^ ·) (leBytes n x) (leBytes n y) := by
  apply Vector.ext
  intro i hi
  simp [Nat.shiftRight_xor_distrib]

theorem leNat_append (bs cs : List UInt8) :
    leNat (bs ++ cs) = leNat bs + 256 ^ bs.length * leNat cs := by
  induction bs with
  | nil => simp
  | cons b bs ih =>
    rw [List.cons_append, leNat_cons, leNat_cons, ih, List.length_cons, Nat.pow_succ]
    grind

/-- Byte strings of one length that spell the same number are the same. -/
theorem eq_of_leNat_eq {n : Nat} {bs cs : Vector UInt8 n}
    (h : leNat bs.toList = leNat cs.toList) : bs = cs := by
  rw [← leBytes_leNat bs, h, leBytes_leNat]

/-! ## Byte counters -/

/-- Adds one to each byte in turn, up to the first that does not wrap to zero. -/
def increment : List UInt8 → List UInt8
  | [] => []
  | b :: bs => if b + 1 ≠ 0 then (b + 1) :: bs else (b + 1) :: increment bs

@[simp] theorem length_increment (bs : List UInt8) : (increment bs).length = bs.length := by
  induction bs with
  | nil => rfl
  | cons b bs ih =>
    unfold increment
    split
    · rfl
    · rw [List.length_cons, ih, List.length_cons]

/-- The loop adds one, modulo the size of the string. -/
theorem leNat_increment (bs : List UInt8) :
    leNat (increment bs) = (leNat bs + 1) % 256 ^ bs.length := by
  induction bs with
  | nil => rfl
  | cons b bs ih =>
    have hb := b.toNat_lt
    have hbs := leNat_lt bs
    have hsum : (b + 1).toNat = (b.toNat + 1) % 256 := by
      rw [UInt8.toNat_add]
      rfl
    have hzero : b + 1 = 0 ↔ (b + 1).toNat = 0 := UInt8.toNat_inj.symm
    unfold increment
    rw [List.length_cons, Nat.pow_succ, Nat.mul_comm _ 256, leNat_cons]
    split
    · -- no carry
      rename_i hne
      have hlt : b.toNat + 1 < 256 := by
        by_contra hge
        exact hne (hzero.mpr (by omega))
      rw [leNat_cons, hsum, Nat.mod_eq_of_lt hlt, Nat.mod_eq_of_lt (by omega)]
      omega
    · rename_i hwrap
      have hlow : (b + 1).toNat = 0 := hzero.mp (not_not.mp hwrap)
      have hcarry : b.toNat + 256 * leNat bs + 1 = 256 * (leNat bs + 1) := by omega
      rw [leNat_cons, ih, hlow, hcarry, Nat.mul_mod_mul_left, Nat.zero_add]

/-! ## 64-bit words -/

/-- The eight little-endian bytes of a word. -/
def toLeBytes (w : UInt64) : Vector UInt8 8 := leBytes 8 w.toNat

/-- The word eight little-endian bytes spell. -/
def fromLeBytes (bs : Vector UInt8 8) : UInt64 := UInt64.ofNat (leNat bs.toList)

@[simp] theorem fromLeBytes_toLeBytes (w : UInt64) : fromLeBytes (toLeBytes w) = w := by
  rw [fromLeBytes, toLeBytes, leNat_leBytes_of_lt w.toNat_lt, UInt64.ofNat_toNat]

@[simp] theorem toLeBytes_fromLeBytes (bs : Vector UInt8 8) :
    toLeBytes (fromLeBytes bs) = bs := by
  have hlt : leNat bs.toList < 2 ^ 64 := by simpa using leNat_lt bs.toList
  rw [toLeBytes, fromLeBytes, UInt64.toNat_ofNat', Nat.mod_eq_of_lt hlt, leBytes_leNat]

theorem toLeBytes_xor (a b : UInt64) :
    toLeBytes (a ^^^ b) = Vector.zipWith (· ^^^ ·) (toLeBytes a) (toLeBytes b) := by
  rw [toLeBytes, UInt64.toNat_xor, leBytes_xor]
  rfl

theorem toLeBytes_injective {a b : UInt64} (h : toLeBytes a = toLeBytes b) : a = b := by
  rw [← fromLeBytes_toLeBytes a, h, fromLeBytes_toLeBytes]

/-! ### Assembling a word byte by byte -/

/-- Byte `i` of a byte shifted to position `o`. -/
theorem ofNat_shiftLeft_shiftRight (x : UInt8) (o i : Nat) :
    UInt8.ofNat ((x.toNat <<< (8 * o)) >>> (8 * i)) = if o = i then x else 0 := by
  have hx := x.toNat_lt
  apply UInt8.toNat_inj.mp
  rw [UInt8.toNat_ofNat', Nat.shiftLeft_eq, Nat.shiftRight_eq_div_pow]
  rcases Nat.lt_trichotomy o i with h | rfl | h
  · -- the byte sits below position `i`
    obtain ⟨d, rfl⟩ : ∃ d, i = o + (d + 1) := ⟨i - o - 1, by omega⟩
    have hpow : 2 ^ (8 * (o + (d + 1))) = 2 ^ (8 * (d + 1)) * 2 ^ (8 * o) := by
      rw [← Nat.pow_add]
      congr 1
      omega
    have hlt : x.toNat < 2 ^ (8 * (d + 1)) :=
      Nat.lt_of_lt_of_le hx (Nat.pow_le_pow_right (n := 2) (i := 8) (by decide) (by omega))
    rw [if_neg (by omega), hpow, Nat.mul_div_mul_right _ _ (Nat.two_pow_pos _),
      Nat.div_eq_of_lt hlt]
    rfl
  · rw [if_pos rfl, Nat.mul_div_cancel _ (Nat.two_pow_pos _), Nat.mod_eq_of_lt hx]
  · -- the byte sits above position `i`
    obtain ⟨d, rfl⟩ : ∃ d, o = i + (d + 1) := ⟨o - i - 1, by omega⟩
    have hpow : 2 ^ (8 * (i + (d + 1))) = 2 ^ 8 * 2 ^ (8 * d) * 2 ^ (8 * i) := by
      rw [← Nat.pow_add, ← Nat.pow_add]
      congr 1
      omega
    rw [if_neg (by omega), hpow, ← Nat.mul_assoc, Nat.mul_div_cancel _ (Nat.two_pow_pos _),
      Nat.mul_left_comm, Nat.mul_mod_right]
    rfl

/-- OR-ing in only the term at `j` leaves that term. -/
theorem foldl_or_ite {n : Nat} (f : Fin n → UInt8) (j : Fin n) (is : List (Fin n)) (acc : UInt8) :
    is.foldl (fun acc o => acc ||| if o = j then f o else 0) acc
      = acc ||| if j ∈ is then f j else 0 := by
  induction is generalizing acc with
  | nil => simp
  | cons o is ih =>
    rw [List.foldl_cons, ih]
    by_cases ho : o = j
    · subst ho
      by_cases hmem : o ∈ is <;> simp [hmem, UInt8.or_assoc]
    · have hmem : j ∈ o :: is ↔ j ∈ is := by simp [Ne.symm ho]
      simp [ho, hmem]

/-- The loop `word |= byte[i] << (8 * i)` spells the little-endian word. -/
theorem foldl_or_shiftLeft (bs : Vector UInt8 8) :
    (List.finRange 8).foldl (fun (word : UInt64) (i : Fin 8) =>
      word ||| bs[i].toUInt64 <<< UInt64.ofNat (8 * i.val)) 0 = fromLeBytes bs := by
  have hterm : ∀ o i : Fin 8, UInt8.ofNat
      ((bs[o].toUInt64 <<< UInt64.ofNat (8 * o.val)).toNat >>> (8 * i.val))
        = if o = i then bs[o] else 0 := by
    intro o i
    have ho : (8 * o.val) % 2 ^ 64 % 64 = 8 * o.val := by omega
    have hlt : bs[o].toNat <<< (8 * o.val) < 2 ^ 64 := by
      have hb := bs[o].toNat_lt
      have hle : 2 ^ (8 * o.val) ≤ 2 ^ 56 := Nat.pow_le_pow_right (by decide) (by omega)
      rw [Nat.shiftLeft_eq]
      calc bs[o].toNat * 2 ^ (8 * o.val) < 2 ^ 8 * 2 ^ (8 * o.val) :=
            Nat.mul_lt_mul_of_pos_right hb (Nat.two_pow_pos _)
        _ ≤ 2 ^ 8 * 2 ^ 56 := Nat.mul_le_mul_left _ hle
        _ = 2 ^ 64 := by decide
    rw [UInt64.toNat_shiftLeft, UInt8.toNat_toUInt64, UInt64.toNat_ofNat', ho,
      Nat.mod_eq_of_lt hlt, ofNat_shiftLeft_shiftRight]
    simp only [Fin.ext_iff]
  apply toLeBytes_injective
  rw [toLeBytes_fromLeBytes]
  apply Vector.ext
  intro i hi
  -- byte `i` goes through the fold and picks its own term
  have hfold : ∀ (is : List (Fin 8)) (w : UInt64),
      UInt8.ofNat ((is.foldl (fun (word : UInt64) (o : Fin 8) =>
        word ||| bs[o].toUInt64 <<< UInt64.ofNat (8 * o.val)) w).toNat >>> (8 * i))
      = is.foldl (fun acc o => acc ||| if o = ⟨i, hi⟩ then bs[o] else 0)
          (UInt8.ofNat (w.toNat >>> (8 * i))) := by
    intro is
    induction is with
    | nil => exact fun _ => rfl
    | cons o is ih =>
      intro w
      rw [List.foldl_cons, ih, List.foldl_cons, UInt64.toNat_or, Nat.shiftRight_or_distrib,
        UInt8.ofNat_or, hterm o ⟨i, hi⟩]
  rw [toLeBytes, getElem_leBytes, hfold, foldl_or_ite (fun o => bs[o])]
  simp

end LittleEndian

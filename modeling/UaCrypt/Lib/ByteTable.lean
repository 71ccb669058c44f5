import UaCrypt.Lib.LittleEndian
import UaCrypt.Lib.XorLinear

/-!
# Checking literal 256-entry tables

Facts about a literal table of 256 entries are settled by evaluation. Walking a
list for every lookup is what makes that slow, so a check first packs the table
into one number; a lookup is then a shift and a mask.

- `packed w ds`: the number with base-`2^w` digits `ds`, and its digits
  (`digit_packed`).
- `inverseCheck`, `linearCheck`, `composeCheck`: evaluable checks that one byte
  table undoes another, that a word table is XOR-linear, and that a word table
  is another one read through a byte table, each with the fact it establishes.
- `xorEntries tables bytes`: one table per byte position, entries XORed. Where
  the tables are linear so is the map on words (`xorLinear_xorEntries`), and
  `mixInverseCheck` decides that one such map undoes another.
-/

namespace ByteTable

open LittleEndian

/-- The entry of a 256-entry table at a byte. -/
def lookup {α : Type} (table : Vector α 256) (byte : UInt8) : α :=
  table.get ⟨byte.toNat, byte.toNat_lt⟩

theorem lookup_eq_getElem {α : Type} (table : Vector α 256) (byte : UInt8)
    (h : byte.toNat < 256) : lookup table byte = table[byte.toNat] := rfl

theorem lookup_ofFn {α : Type} (f : Fin 256 → α) (byte : UInt8) :
    lookup (Vector.ofFn f) byte = f ⟨byte.toNat, byte.toNat_lt⟩ := by
  rw [lookup_eq_getElem _ _ byte.toNat_lt, Vector.getElem_ofFn]

/-! ## Packing -/

/-- The number with the base-`2^w` digits `ds`, least significant first. -/
def packed (w : Nat) (ds : List Nat) : Nat :=
  ds.foldr (fun d acc => d + 2 ^ w * acc) 0

/-- Digit `i` of a packed table. -/
def digit (w n i : Nat) : Nat := (n >>> (w * i)) % 2 ^ w

theorem digit_packed {w : Nat} (ds : List Nat) (hds : ∀ d ∈ ds, d < 2 ^ w) (i : Nat)
    (hi : i < ds.length) : digit w (packed w ds) i = ds[i] := by
  induction ds generalizing i with
  | nil => exact absurd hi (by simp)
  | cons d ds ih =>
    have hd : d < 2 ^ w := hds d List.mem_cons_self
    show digit w (d + 2 ^ w * packed w ds) i = _
    cases i with
    | zero => simp [digit, Nat.mod_eq_of_lt hd]
    | succ i =>
      have hdiv : (d + 2 ^ w * packed w ds) >>> w = packed w ds := by
        rw [Nat.shiftRight_eq_div_pow, Nat.add_mul_div_left _ _ (Nat.two_pow_pos w),
          Nat.div_eq_of_lt hd, Nat.zero_add]
      have hshift : w * (i + 1) = w + w * i := by rw [Nat.mul_succ, Nat.add_comm]
      rw [digit, hshift, Nat.shiftRight_add, hdiv]
      exact ih (fun d hd => hds d (List.mem_cons_of_mem _ hd)) i (by simpa using hi)

/-- A byte table as one number. -/
def packBytes (table : Vector UInt8 256) : Nat := packed 8 (table.toList.map UInt8.toNat)

/-- A word table as one number. -/
def packWords (table : Vector UInt64 256) : Nat := packed 64 (table.toList.map UInt64.toNat)

theorem digit_packBytes (table : Vector UInt8 256) (byte : UInt8) :
    digit 8 (packBytes table) byte.toNat = (lookup table byte).toNat := by
  have hlt := byte.toNat_lt
  rw [packBytes, digit_packed _ _ _ (by simp [hlt])]
  · simp [lookup_eq_getElem _ _ hlt]
  · intro d hd
    obtain ⟨b, -, rfl⟩ := List.mem_map.mp hd
    exact b.toNat_lt

theorem digit_packWords (table : Vector UInt64 256) (byte : UInt8) :
    digit 64 (packWords table) byte.toNat = (lookup table byte).toNat := by
  have hlt := byte.toNat_lt
  rw [packWords, digit_packed _ _ _ (by simp [hlt])]
  · simp [lookup_eq_getElem _ _ hlt]
  · intro d hd
    obtain ⟨b, -, rfl⟩ := List.mem_map.mp hd
    exact b.toNat_lt

/-! ## Inverse byte tables -/

/-- `d[s[b]] = b` for every byte `b`. -/
def inverseCheck (s d : Vector UInt8 256) : Bool :=
  (List.range 256).all fun b => digit 8 (packBytes d) (digit 8 (packBytes s) b) == b

theorem lookup_lookup_of_inverseCheck {s d : Vector UInt8 256} (h : inverseCheck s d = true)
    (byte : UInt8) : lookup d (lookup s byte) = byte := by
  have hb := List.all_eq_true.mp h byte.toNat (List.mem_range.mpr byte.toNat_lt)
  rw [digit_packBytes, digit_packBytes, beq_iff_eq] at hb
  exact UInt8.toNat_inj.mp hb

/-! ## XOR-linear word tables -/

/-- Entry `0` is zero, and every entry with top bit `k` is the entry of that bit
XORed with the entry below it. -/
def linearCheck (t : Vector UInt64 256) : Bool :=
  digit 64 (packWords t) 0 == 0 && (List.range 8).all fun k => (List.range (2 ^ k)).all fun j =>
    digit 64 (packWords t) (2 ^ k + j)
      == digit 64 (packWords t) (2 ^ k) ^^^ digit 64 (packWords t) j

theorem xorLinear_of_linearCheck {t : Vector UInt64 256} (h : linearCheck t = true) :
    XorLinear (lookup t) := by
  obtain ⟨h0, hstep⟩ := Bool.and_eq_true_iff.mp h
  rw [beq_iff_eq] at h0
  have htop : ∀ k < 8, ∀ j < 2 ^ k, digit 64 (packWords t) (2 ^ k + j)
      = digit 64 (packWords t) (2 ^ k) ^^^ digit 64 (packWords t) j := by
    intro k hk j hj
    have hk := List.all_eq_true.mp hstep k (List.mem_range.mpr hk)
    exact beq_iff_eq.mp (List.all_eq_true.mp hk j (List.mem_range.mpr hj))
  intro a b
  have hab := xor_of_top_bit h0 htop a.toNat a.toNat_lt b.toNat b.toNat_lt
  rw [← UInt8.toNat_xor, digit_packWords, digit_packWords, digit_packWords,
    ← UInt64.toNat_xor] at hab
  exact UInt64.toNat_inj.mp hab

/-! ## A word table read through a byte table -/

/-- `t[b] = m[s[b]]` for every byte `b`. -/
def composeCheck (t m : Vector UInt64 256) (s : Vector UInt8 256) : Bool :=
  (List.range 256).all fun b =>
    digit 64 (packWords t) b == digit 64 (packWords m) (digit 8 (packBytes s) b)

theorem lookup_of_composeCheck {t m : Vector UInt64 256} {s : Vector UInt8 256}
    (h : composeCheck t m s = true) (byte : UInt8) :
    lookup t byte = lookup m (lookup s byte) := by
  have hb := List.all_eq_true.mp h byte.toNat (List.mem_range.mpr byte.toNat_lt)
  rw [digit_packWords, digit_packBytes, digit_packWords, beq_iff_eq] at hb
  exact UInt64.toNat_inj.mp hb

/-! ## One table per byte of a word -/

/-- The XOR of `tables[row][bytes[row]]` over the eight byte positions. -/
def xorEntries (tables : Vector (Vector UInt64 256) 8) (bytes : Vector UInt8 8) : UInt64 :=
  xorFold 0 fun row : Fin 8 => lookup tables[row] bytes[row]

/-- `xorEntries` on packed tables. -/
def xorDigits (tables : Vector (Vector UInt64 256) 8) (w : Nat) : Nat :=
  xorFold 0 fun row : Fin 8 => digit 64 (packWords tables[row]) (digit 8 w row)

theorem toNat_xorEntries (tables : Vector (Vector UInt64 256) 8) (w : UInt64) :
    (xorEntries tables (toLeBytes w)).toNat = xorDigits tables w.toNat := by
  have hlin : XorLinear UInt64.toNat := fun a b => UInt64.toNat_xor a b
  rw [xorEntries, hlin.map_xorFold, xorDigits]
  congr 1
  funext row
  have hbyte : digit 8 w.toNat row = (toLeBytes w)[row].toNat := by
    simp [digit, toLeBytes]
  rw [hbyte, digit_packWords]

theorem xorLinear_xorEntries {tables : Vector (Vector UInt64 256) 8}
    (h : ∀ row : Fin 8, XorLinear (lookup tables[row])) :
    XorLinear fun w => xorEntries tables (toLeBytes w) := by
  refine xorLinear_xorFold (by decide) fun row a b => ?_
  rw [toLeBytes_xor]
  simp only [FinIndex.getElem_fin, Vector.getElem_zipWith]
  exact h row _ _

/-- Mixing by `t` and then by `d` fixes every single-bit word. -/
def mixInverseCheck (t d : Vector (Vector UInt64 256) 8) : Bool :=
  (List.range 64).all fun k => xorDigits d (xorDigits t (2 ^ k)) == 2 ^ k

/-- Linear mixes that cancel on the single bits cancel. -/
theorem xorEntries_xorEntries {t d : Vector (Vector UInt64 256) 8}
    (ht : ∀ row : Fin 8, XorLinear (lookup t[row]))
    (hd : ∀ row : Fin 8, XorLinear (lookup d[row])) (h : mixInverseCheck t d = true)
    (w : UInt64) : xorEntries d (toLeBytes (xorEntries t (toLeBytes w))) = w := by
  have hcomp := (xorLinear_xorEntries hd).comp (xorLinear_xorEntries ht)
  have hid : XorLinear fun w : UInt64 => w := fun _ _ => rfl
  have hbits : ∀ k < 64, xorEntries d (toLeBytes (xorEntries t (toLeBytes (UInt64.ofNat (2 ^ k)))))
      = UInt64.ofNat (2 ^ k) := by
    intro k hk
    have hlt : 2 ^ k < 2 ^ 64 := Nat.pow_lt_pow_right (by decide) hk
    have hcheck := beq_iff_eq.mp (List.all_eq_true.mp h k (List.mem_range.mpr hk))
    apply UInt64.toNat_inj.mp
    rw [toNat_xorEntries, toNat_xorEntries, UInt64.toNat_ofNat', Nat.mod_eq_of_lt hlt, hcheck]
  exact hcomp.ext_uint64 hid (hcomp.map_zero (by decide)) hbits w

end ByteTable

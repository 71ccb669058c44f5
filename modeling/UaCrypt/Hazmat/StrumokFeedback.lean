import UaCrypt.Hazmat.Profiles

/-!
# Strumok's clock is invertible (`hazmat/strumok.rs`)

A clock overwrites one word of the ring with a sum of three taps, and drops the register `r1` into
a sum modulo `2^64`. What it overwrites can be computed back, since the map of its tap is
invertible, so two different states never run into one.

- `mulAlphaInv_mulAlpha`, `mulAlpha_mulAlphaInv`: the two maps undo each other. Both are linear,
  which leaves the single bits to check.
- `unclock`: the clock backwards, given a way back through `tFunction`.
- `tBack`: there is one.
- `feedback_inverse_and_next_bijective`: no two states merge, in either mode.
-/

namespace UaCrypt.Hazmat.Strumok

open LittleEndian ByteTable Tables ColumnState

/-! ## The feedback maps -/

theorem linearCheck_mulAlphaTable : linearCheck mulAlphaTable = true := by decide +kernel

theorem linearCheck_mulAlphaInvTable : linearCheck mulAlphaInvTable = true := by decide +kernel

theorem xorLinear_mulAlpha : XorLinear mulAlpha := by
  intro a b
  have htable := xorLinear_of_linearCheck linearCheck_mulAlphaTable (a >>> 56).toUInt8
    (b >>> 56).toUInt8
  rw [mulAlpha, UInt64.shiftLeft_xor, UInt64.shiftRight_xor, UInt64.toUInt8_xor, htable, mulAlpha,
    mulAlpha]
  ac_rfl

theorem toUInt8_low (w : UInt64) : (w &&& 0xff).toUInt8 = w.toUInt8 := by
  have hmask : (w &&& 0xff).toNat = w.toNat % 2 ^ 8 := by
    rw [UInt64.toNat_and]
    exact Nat.and_two_pow_sub_one_eq_mod w.toNat 8
  apply UInt8.toNat_inj.mp
  rw [UInt64.toNat_toUInt8, UInt64.toNat_toUInt8, hmask, Nat.mod_mod]

theorem xorLinear_mulAlphaInv : XorLinear mulAlphaInv := by
  intro a b
  have htable := xorLinear_of_linearCheck linearCheck_mulAlphaInvTable a.toUInt8 b.toUInt8
  rw [mulAlphaInv, UInt64.shiftRight_xor, toUInt8_low, UInt64.toUInt8_xor, htable, mulAlphaInv,
    mulAlphaInv, toUInt8_low, toUInt8_low]
  ac_rfl

theorem mulAlphaInv_mulAlpha_bits :
    ∀ k < 64, mulAlphaInv (mulAlpha (UInt64.ofNat (2 ^ k))) = UInt64.ofNat (2 ^ k) := by
  decide +kernel

theorem mulAlpha_mulAlphaInv_bits :
    ∀ k < 64, mulAlpha (mulAlphaInv (UInt64.ofNat (2 ^ k))) = UInt64.ofNat (2 ^ k) := by
  decide +kernel

theorem mulAlphaInv_mulAlpha (w : UInt64) : mulAlphaInv (mulAlpha w) = w := by
  have hcomp := xorLinear_mulAlphaInv.comp xorLinear_mulAlpha
  have hid : XorLinear fun w : UInt64 => w := fun _ _ => rfl
  exact hcomp.ext_uint64 hid (hcomp.map_zero (by decide)) mulAlphaInv_mulAlpha_bits w

theorem mulAlpha_mulAlphaInv (w : UInt64) : mulAlpha (mulAlphaInv w) = w := by
  have hcomp := xorLinear_mulAlpha.comp xorLinear_mulAlphaInv
  have hid : XorLinear fun w : UInt64 => w := fun _ _ => rfl
  exact hcomp.ext_uint64 hid (hcomp.map_zero (by decide)) mulAlpha_mulAlphaInv_bits w

/-! ## The clock backwards -/

/-- The ring's words and the two registers. -/
@[ext] structure Contents where
  s : Vector UInt64 16
  r0 : UInt64
  r1 : UInt64

def Registers.contents (g : Registers) : Contents := ⟨g.s, g.r0, g.r1⟩

def Contents.at (x : Contents) (head : Fin 16) : Registers := ⟨x.s, head, x.r0, x.r1⟩

/-- A clock at one head. -/
def clock (p : Profile) (initMode : Bool) (head : Fin 16) (x : Contents) : Contents :=
  (nextStep p (x.at head) initMode).contents

/-- What a clock XORs onto `mulAlpha s0`, from words it does not overwrite. -/
def taps (s : Vector UInt64 16) (head : Fin 16) (r0 r1 : UInt64) (initMode : Bool) : UInt64 :=
  let sum := mulAlphaInv s[head + 11] ^^^ s[head + 13]
  if initMode then sum ^^^ fsm s[head + 15] r0 r1 else sum

/-- A clock backwards; `t` goes back through `tFunction`. -/
def unclock (t : UInt64 → UInt64) (initMode : Bool) (head : Fin 16) (x : Contents) : Contents :=
  let r0 := t x.r1
  let r1 := x.r0 - x.s[head + 13]
  { s := x.s.set head (mulAlphaInv (x.s[head] ^^^ taps x.s head r0 r1 initMode)) (index_lt head)
    r0 := r0
    r1 := r1 }

theorem clock_eq (p : Profile) (initMode : Bool) (head : Fin 16) (x : Contents) :
    clock p initMode head x =
      { s := x.s.set head (mulAlpha x.s[head] ^^^ taps x.s head x.r0 x.r1 initMode) (index_lt head)
        r0 := x.r1 + x.s[head + 13]
        r1 := tFunction p x.r0 } := by
  cases initMode <;> simp [clock, nextStep, taps, Contents.at, Registers.contents, UInt64.xor_assoc]

/-- The other words stay. -/
theorem getElem_set_add (s : Vector UInt64 16) (head : Fin 16) (x : UInt64) {k : Fin 16}
    (hk : k ≠ 0) : (s.set head x (index_lt head))[head + k] = s[head + k] := by
  refine Vector.getElem_set_ne _ _ fun h => hk ?_
  have heq : head = head + k := Fin.ext h
  exact left_eq_add.mp heq

theorem taps_set (s : Vector UInt64 16) (head : Fin 16) (x r0 r1 : UInt64) (initMode : Bool) :
    taps (s.set head x (index_lt head)) head r0 r1 initMode = taps s head r0 r1 initMode := by
  have h11 := getElem_set_add s head x (k := 11) (by decide)
  have h13 := getElem_set_add s head x (k := 13) (by decide)
  have h15 := getElem_set_add s head x (k := 15) (by decide)
  rw [taps, taps, h11, h13, h15]

theorem xor_xor_cancel (a b : UInt64) : a ^^^ b ^^^ b = a := by
  rw [UInt64.xor_assoc, UInt64.xor_self, UInt64.xor_zero]

theorem getElem_set_head (s : Vector UInt64 16) (head : Fin 16) (x : UInt64) :
    (s.set head x (index_lt head))[head] = x := Vector.getElem_set_self _

variable {p : Profile} {t : UInt64 → UInt64}

theorem unclock_clock (ht : ∀ w, t (tFunction p w) = w) (initMode : Bool) (head : Fin 16)
    (x : Contents) : unclock t initMode head (clock p initMode head x) = x := by
  obtain ⟨s, r0, r1⟩ := x
  have h13 := getElem_set_add s head (mulAlpha s[head] ^^^ taps s head r0 r1 initMode) (k := 13)
    (by decide)
  rw [clock_eq]
  simp only [unclock, ht, h13, taps_set, getElem_set_head, add_sub_cancel_right, xor_xor_cancel,
    mulAlphaInv_mulAlpha]
  congr 1
  rw [Vector.set_set]
  exact Vector.set_getElem_self _

theorem clock_unclock (ht : ∀ w, tFunction p (t w) = w) (initMode : Bool) (head : Fin 16)
    (x : Contents) : clock p initMode head (unclock t initMode head x) = x := by
  obtain ⟨s, r0, r1⟩ := x
  have h13 := getElem_set_add s head (mulAlphaInv (s[head] ^^^ taps s head (t r1)
    (r0 - s[head + 13]) initMode)) (k := 13) (by decide)
  rw [clock_eq]
  simp only [unclock, ht, h13, taps_set, getElem_set_head, sub_add_cancel, xor_xor_cancel,
    mulAlpha_mulAlphaInv]
  congr 1
  rw [Vector.set_set]
  exact Vector.set_getElem_self _

/-- A clock at one head is a bijection if `tFunction` is. -/
theorem bijective_clock (h : Function.Bijective (tFunction p)) (initMode : Bool) (head : Fin 16) :
    Function.Bijective (clock p initMode head) := by
  obtain ⟨t, hleft, hright⟩ := Function.bijective_iff_has_inverse.mp h
  exact Function.bijective_iff_has_inverse.mpr
    ⟨unclock t initMode head, unclock_clock hleft initMode head, clock_unclock hright initMode head⟩

theorem bijective_nextStep (h : Function.Bijective (tFunction p)) (initMode : Bool) :
    Function.Bijective fun g => nextStep p g initMode := by
  constructor
  · intro g g' heq
    have hhead : g.head = g'.head := add_right_cancel (congrArg Registers.head heq)
    have hclock : clock p initMode g.head g.contents = clock p initMode g'.head g'.contents :=
      congrArg Registers.contents heq
    obtain ⟨s, head, r0, r1⟩ := g
    obtain ⟨s', head', r0', r1'⟩ := g'
    obtain rfl : head = head' := hhead
    have hcontents := (bijective_clock h initMode head).1 hclock
    injection hcontents with hs hr0 hr1
    rw [show s = s' from hs, show r0 = r0' from hr0, show r1 = r1' from hr1]
  · intro g
    obtain ⟨x, hx⟩ := (bijective_clock h initMode (g.head - 1)).2 g.contents
    refine ⟨x.at (g.head - 1), ?_⟩
    have hnext : nextStep p (x.at (g.head - 1)) initMode
        = (clock p initMode (g.head - 1) x).at (g.head - 1 + 1) := rfl
    dsimp only
    rw [hnext, hx, sub_add_cancel]
    rfl

/-! ## The substitution -/

/-- `tFunction` backwards. -/
def tBack (w : UInt64) : UInt64 :=
  let column := toLeBytes (xorEntries mdsInvTable (toLeBytes w))
  fromLeBytes (Vector.ofFn fun row : Fin 8 => substitute sboxesDec row column[row])

theorem tFunction_eq_xorEntries (p : Profile) (w : UInt64) :
    tFunction p w = xorEntries mdsTable
      (Vector.ofFn fun row : Fin 8 => substitute sboxes row (toLeBytes w)[row]) := by
  rw [tFunction_eq]
  simp [xorEntries]

theorem tBack_tFunction (p : Profile) (w : UInt64) : tBack (tFunction p w) = w := by
  rw [tBack, tFunction_eq_xorEntries, mix_inverse]
  simp

theorem tFunction_tBack (p : Profile) (w : UInt64) : tFunction p (tBack w) = w := by
  have hmix := mix_forward (toLeBytes w)
  rw [tFunction_eq_xorEntries, tBack]
  apply toLeBytes_injective
  simp [hmix]

theorem bijective_tFunction (p : Profile) : Function.Bijective (tFunction p) :=
  Function.bijective_iff_has_inverse.mpr ⟨tBack, tBack_tFunction p, tFunction_tBack p⟩

/-- Any number of clocks, each in its mode. -/
theorem bijective_clocks (h : Function.Bijective (tFunction p)) (modes : List Bool) :
    Function.Bijective fun g => modes.foldl (nextStep p) g := by
  induction modes with
  | nil => exact Function.bijective_id
  | cons mode modes ih => exact ih.comp (bijective_nextStep h mode)

/-- **The feedback maps are inverse linear maps, and no two states merge**: where `tFunction` is a
bijection, as it is, a clock is one on the ring and the registers, at every head and in both modes,
and so is every run of clocks. -/
theorem feedback_inverse_and_next_bijective :
    (∀ w, mulAlphaInv (mulAlpha w) = w ∧ mulAlpha (mulAlphaInv w) = w)
      ∧ XorLinear mulAlpha ∧ XorLinear mulAlphaInv
      ∧ ∀ p : Profile,
        (Function.Bijective (tFunction p) →
          (∀ initMode head, Function.Bijective (clock p initMode head))
            ∧ ∀ modes : List Bool, Function.Bijective fun g => modes.foldl (nextStep p) g)
          ∧ Function.Bijective (tFunction p) :=
  ⟨fun w => ⟨mulAlphaInv_mulAlpha w, mulAlpha_mulAlphaInv w⟩, xorLinear_mulAlpha,
    xorLinear_mulAlphaInv, fun p => ⟨fun h => ⟨bijective_clock h, bijective_clocks h⟩,
      bijective_tFunction p⟩⟩

end UaCrypt.Hazmat.Strumok

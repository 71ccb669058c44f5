import UaCrypt.Hazmat.KalynaCorrect

/-!
# Kalyna's key schedule in closed form

The loops of `key_expand` keep a key buffer that they rotate, a mask that they shift and a schedule
that they fill in. Here is what slot `m` of the schedule holds, from the key alone.

- `keyWords`, `phi`, `evenKey`, `oddKey`: the closed form.
- `keyExpandEvenLoop_getElem`, `keyExpandOddLoop_getElem`: what the loops leave in a slot, from any
  state they pass through.
- `keyExpand_even`, `keyExpand_odd`, `keyExpand_rest`: the schedule.
- `roundKeyFrom_bijective`: no even round key forgets anything of the words it is made from.
-/

namespace UaCrypt.Hazmat.Kalyna

open LittleEndian Tables ColumnState RoundCipher

variable {nb : Nat}

/-! ## The closed form -/

/-- The sandwich: two three-pass rounds with `tmp` added before, XORed between and added after. -/
def sandwich (p : Profile) (base tmp : State nb) : State nb :=
  addRoundKey (naiveEncipherRound p (xorRoundKey (naiveEncipherRound p (addRoundKey base tmp)) tmp))
    tmp

/-- `0x0001000100010001` shifted left by `i` bits in every column. -/
def phi (nb i : Nat) : State nb :=
  Vector.replicate nb (toLeBytes (0x0001000100010001 <<< UInt64.ofNat i))

section

variable (v : Variant) (key : Vector UInt8 v.keyBytes)

theorem keyBytes_le : v.nk * 8 ≤ v.keyBytes := Nat.le_refl _

/-- Word `j` of the key, counted round it. -/
def keyWord (j : Nat) : Column :=
  have hlt : j % v.nk < v.nk := Nat.mod_lt _ (by have h := v.nk_eq; have hpos := v.nb_pos; omega)
  (columnsFromBytes key v.nk (keyBytes_le v))[j % v.nk]

/-- `W_i`: the key rotated left by `i` words if it is one block, else a half of it rotated left by
half as many. -/
def keyWords (i : Nat) : State v.nb :=
  Vector.ofFn fun c : Fin v.nb =>
    if v.nk = v.nb then keyWord v key (c.val + i)
    else keyWord v key (c.val + i % 2 * v.nb + i / 2)

/-- `K_2i`. -/
def evenKey (p : Profile) (i : Nat) : State v.nb :=
  sandwich p (keyWords v key i) (modAddColumns (keyExpandKt p v key) (phi v.nb i))

/-- `K_2i+1` from `K_2i`: byte `m` is the one `2 * nb + 3` further on. -/
def oddKey (even : State nb) : State nb :=
  Vector.ofFn fun c : Fin nb => Vector.ofFn fun r : Fin 8 =>
    have hlt : (c.val * 8 + r.val + (2 * nb + 3)) % (nb * 8) < nb * 8 :=
      Nat.mod_lt _ (by have h := c.isLt; omega)
    (bytesFromColumns even)[(c.val * 8 + r.val + (2 * nb + 3)) % (nb * 8)]

end

/-! ## The steps of the loops -/

section PowerOfTwo

variable (hnb : nb.isPowerOfTwo)
include hnb

theorem roundKeyFrom_eq (p : Profile) (base tmp : State nb) :
    roundKeyFrom p base tmp = sandwich p base tmp := by
  have hround (state : State nb) : encipherRound p state = naiveEncipherRound p state :=
    encipherRoundN_eq_naive hnb p state
  simp only [roundKeyFrom, sandwich, hround]

/-- **The sandwich is a permutation of the states** for every `tmp`. -/
theorem roundKeyFrom_bijective (p : Profile) (tmp : State nb) :
    Function.Bijective fun base => roundKeyFrom p base tmp := by
  rw [Function.bijective_iff_has_inverse]
  refine ⟨fun state => subRoundKey (decipherRound p (xorRoundKey (decipherRound p
    (subRoundKey state tmp)) tmp)) tmp, ?_, ?_⟩
  · intro base
    dsimp only
    rw [roundKeyFrom_eq hnb, sandwich, subRoundKey_addRoundKey, decipherRound_naiveEncipherRound,
      xorRoundKey, xorRoundKey, xorState_xorState, decipherRound_naiveEncipherRound,
      subRoundKey_addRoundKey]
  · intro state
    dsimp only
    rw [roundKeyFrom_eq hnb, sandwich, addRoundKey_subRoundKey, naiveEncipherRound_decipherRound,
      xorRoundKey, xorRoundKey, xorState_xorState, naiveEncipherRound_decipherRound,
      addRoundKey_subRoundKey]

end PowerOfTwo

theorem shiftLeftWords_phi {i : Nat} (hi : i < 10) :
    shiftLeftWords (phi nb i) = phi nb (i + 1) := by
  have hshift : ∀ i : Fin 10, (0x0001000100010001 : UInt64) <<< UInt64.ofNat i.val <<< 1
      = 0x0001000100010001 <<< UInt64.ofNat (i.val + 1) := by
    decide
  rw [shiftLeftWords, phi, phi, Vector.map_replicate, fromLeBytes_toLeBytes, hshift ⟨i, hi⟩]

section

variable {v : Variant} (key : Vector UInt8 v.keyBytes)

/-- The key buffer after `r` rotations. -/
def rotated (r : Nat) : Vector Column v.nk := Vector.ofFn fun c : Fin v.nk => keyWord v key (c.val + r)

theorem rotated_zero : columnsFromBytes key v.nk (Nat.le_refl _) = rotated key 0 := by
  refine Vector.ext fun c hc => ?_
  simp only [rotated, Vector.getElem_ofFn, keyWord, Nat.add_zero, Nat.mod_eq_of_lt hc]

theorem rotateWordsLeft_rotated (r : Nat) : rotateWordsLeft (rotated key r) = rotated key (r + 1) := by
  refine Vector.ext fun c hc => ?_
  simp only [rotateWordsLeft, rotated, Vector.getElem_ofFn, keyWord]
  congr 1
  rw [Nat.mod_add_mod]
  congr 1
  omega

/-- A block's worth of the buffer. -/
theorem slice_rotated (start r : Nat) (h : start + v.nb ≤ v.nk) :
    slice (rotated key r) start v.nb h
      = Vector.ofFn fun c : Fin v.nb => keyWord v key (c.val + start + r) := by
  refine Vector.ext fun c hc => ?_
  simp only [slice, rotated, Vector.getElem_ofFn, Nat.add_comm start]

end

/-! ## What the loops leave -/

section Even

variable (p : Profile) {v : Variant} (key : Vector UInt8 v.keyBytes)

/-- An even round key, made the way the loop makes it. -/
theorem roundKeyFrom_evenKey (i : Nat) :
    roundKeyFrom p (keyWords v key i) (modAddColumns (keyExpandKt p v key) (phi v.nb i))
      = evenKey v key p i :=
  roundKeyFrom_eq (isPowerOfTwo_of_blockWords v.nb_eq) p _ _

/-- The words the loop takes from the front of its buffer. -/
theorem slice_front {i : Nat} (hwide : v.nk ≠ v.nb → i % 2 = 0) (h : 0 + v.nb ≤ v.nk) :
    slice (rotated key (if v.nk = v.nb then i else i / 2)) 0 v.nb h = keyWords v key i := by
  rw [slice_rotated, keyWords]
  congr 1
  funext c
  by_cases hnk : v.nk = v.nb
  · rw [if_pos hnk, if_pos hnk, Nat.add_zero]
  · rw [if_neg hnk, if_neg hnk, hwide hnk, Nat.zero_mul]

/-- Those it takes from the second half. -/
theorem slice_back {i : Nat} (hnk : v.nk ≠ v.nb) (hi : i % 2 = 0) (h : v.nb + v.nb ≤ v.nk) :
    slice (rotated key (if v.nk = v.nb then i else i / 2)) v.nb v.nb h
      = keyWords v key (i + 1) := by
  have hhalf : (i + 1) / 2 = i / 2 := by omega
  have hodd : (i + 1) % 2 = 1 := by omega
  rw [slice_rotated, keyWords]
  congr 1
  funext c
  rw [if_neg hnk, if_neg hnk, hodd, hhalf, Nat.one_mul]

/-- The even slots from `round` on are filled in, the others are left. -/
theorem keyExpandEvenLoop_getElem {i round : Nat} (hi : round = 2 * i)
    (hround : round ≤ v.nr ∧ round % 2 = 0) (hwide : v.nk ≠ v.nb → i % 2 = 0)
    {initialData : Vector Column v.nk}
    (hdata : initialData = rotated key (if v.nk = v.nb then i else i / 2)) {tmv : State v.nb}
    (htmv : tmv = phi v.nb i) (roundKeys : RoundKeys v.nb) {m : Nat} (hm : m < 19) :
    (keyExpandEvenLoop p v (keyExpandKt p v key) round hround initialData tmv roundKeys)[m]
      = if m % 2 = 0 ∧ round ≤ m ∧ m ≤ v.nr then evenKey v key p (m / 2) else roundKeys[m] := by
  induction hfuel : v.nr - round using Nat.strongRecOn
    generalizing i round initialData tmv roundKeys with
  | ind fuel ih =>
    subst hdata htmv hi
    have hnk := v.nk_eq
    have hlt := v.nr_lt
    have heven := v.nr_even
    rw [keyExpandEvenLoop]
    by_cases hdone : 2 * i = v.nr
    · -- the first exit
      rw [dif_pos hdone, slice_front key hwide, roundKeyFrom_evenKey, Vector.getElem_set]
      split
      · rename_i heq
        rw [if_pos (by omega), ← heq, Nat.mul_div_cancel_left i Nat.two_pos]
      · rw [if_neg (by omega)]
    rw [dif_neg hdone]
    by_cases hsame : v.nk = v.nb
    · -- one round key a turn
      rw [dif_neg (not_not.mpr hsame), slice_front key hwide, roundKeyFrom_evenKey]
      rw [ih _ (by omega) (i := i + 1) (by omega) _ (fun h => absurd hsame h)
        (by rw [if_pos hsame, if_pos hsame, rotateWordsLeft_rotated])
        (shiftLeftWords_phi (by omega)) _ rfl, Vector.getElem_set]
      by_cases heq : 2 * i = m
      · rw [if_neg (by omega), if_pos heq, if_pos (by omega), ← heq,
          Nat.mul_div_cancel_left i Nat.two_pos]
      · rw [if_neg heq]
        exact if_congr (by omega) rfl rfl
    · -- two round keys a turn
      have hi := hwide hsame
      rw [dif_pos hsame]
      by_cases hdone' : 2 * i + 2 = v.nr
      · rw [dif_pos hdone', slice_front key hwide, roundKeyFrom_evenKey, slice_back key hsame hi,
          shiftLeftWords_phi (by omega), roundKeyFrom_evenKey, Vector.getElem_set,
          Vector.getElem_set]
        by_cases hsecond : 2 * i + 2 = m
        · rw [if_pos hsecond, if_pos (by omega), ← hsecond]
          congr 1
          omega
        · rw [if_neg hsecond]
          by_cases hfirst : 2 * i = m
          · rw [if_pos hfirst, if_pos (by omega), ← hfirst,
              Nat.mul_div_cancel_left i Nat.two_pos]
          · rw [if_neg hfirst, if_neg (by omega)]
      · rw [dif_neg hdone', slice_front key hwide, roundKeyFrom_evenKey, slice_back key hsame hi,
          shiftLeftWords_phi (by omega), roundKeyFrom_evenKey]
        rw [ih _ (by omega) (i := i + 2) (by omega) _ (fun _ => by omega)
          (by rw [if_neg hsame, if_neg hsame, rotateWordsLeft_rotated]; congr 1; omega)
          (shiftLeftWords_phi (by omega)) _ rfl, Vector.getElem_set, Vector.getElem_set]
        by_cases hsecond : 2 * i + 2 = m
        · rw [if_neg (by omega), if_pos hsecond, if_pos (by omega), ← hsecond]
          congr 1
          omega
        · rw [if_neg hsecond]
          by_cases hfirst : 2 * i = m
          · rw [if_neg (by omega), if_pos hfirst, if_pos (by omega), ← hfirst,
              Nat.mul_div_cancel_left i Nat.two_pos]
          · rw [if_neg hfirst]
            exact if_congr (by omega) rfl rfl

theorem keyExpandEven_getElem (roundKeys : RoundKeys v.nb) {m : Nat} (hm : m < 19) :
    (keyExpandEven p v key (keyExpandKt p v key) roundKeys)[m]
      = if m % 2 = 0 ∧ m ≤ v.nr then evenKey v key p (m / 2) else roundKeys[m] := by
  have hmask : Vector.replicate v.nb (toLeBytes 0x0001000100010001) = phi v.nb 0 := rfl
  rw [keyExpandEven, keyExpandEvenLoop_getElem p key (i := 0) rfl _ (fun _ => rfl)
    (by rw [rotated_zero, Nat.zero_div, ite_self]) hmask roundKeys hm]
  exact if_congr (by omega) rfl rfl

end Even

/-- The odd slots from `i` on are made from those below them, the others are left. -/
theorem keyExpandOddLoop_getElem {nr : Nat} (hnr : nr < 19) {i : Nat} (hi : i % 2 = 1)
    (roundKeys : RoundKeys nb) {m : Nat} (hm : m < 19) :
    (keyExpandOddLoop nr hnr i roundKeys)[m]
      = if m % 2 = 1 ∧ i ≤ m ∧ m < nr then oddKey roundKeys[m - 1] else roundKeys[m] := by
  induction hfuel : nr - i using Nat.strongRecOn generalizing i roundKeys with
  | ind fuel ih =>
    rw [keyExpandOddLoop]
    by_cases hlt : i < nr
    · have hodd : columnsFromBytes (rotateBytesLeft (bytesFromColumns roundKeys[i - 1])
          (2 * nb + 3)) nb (Nat.le_refl _) = oddKey roundKeys[i - 1] := by
        refine Vector.ext fun c hc => Vector.ext fun r hr => ?_
        simp only [columnsFromBytes, slice, rotateBytesLeft, oddKey, Vector.getElem_ofFn]
      rw [dif_pos hlt, ih _ (by omega) (by omega) _ rfl]
      simp only [hodd]
      by_cases hlater : m % 2 = 1 ∧ i + 2 ≤ m ∧ m < nr
      · -- the slot below is not the one just written
        rw [if_pos hlater, if_pos (by omega), Vector.getElem_set_ne _ _ (by omega)]
      · rw [if_neg hlater, Vector.getElem_set]
        by_cases heq : i = m
        · subst heq
          rw [if_pos rfl, if_pos ⟨hi, Nat.le_refl _, hlt⟩]
        · rw [if_neg heq, if_neg (by omega)]
    · rw [dif_neg hlt, if_neg (by omega)]

/-! ## The schedule -/

section Schedule

variable (p : Profile) (v : Variant) (key : Vector UInt8 v.keyBytes)

theorem keyExpand_getElem {m : Nat} (hm : m < 19) :
    (keyExpand p v key)[m]
      = if m % 2 = 0 ∧ m ≤ v.nr then evenKey v key p (m / 2)
        else if m % 2 = 1 ∧ m < v.nr then oddKey (evenKey v key p (m / 2))
        else zeroState v.nb := by
  rw [keyExpand, keyExpandOdd]
  rw [keyExpandOddLoop_getElem v.nr_lt rfl _ hm, keyExpandEven_getElem p key _ hm,
    keyExpandEven_getElem p key _ (show m - 1 < 19 by omega)]
  by_cases heven : m % 2 = 0
  · rw [if_neg (by omega)]
    by_cases hle : m ≤ v.nr
    · rw [if_pos ⟨heven, hle⟩, if_pos ⟨heven, hle⟩]
    · rw [if_neg (by omega), if_neg (by omega), if_neg (by omega), Vector.getElem_replicate]
  · by_cases hlt : m < v.nr
    · rw [if_pos (by omega), if_pos (by omega), if_neg (by omega), if_pos (by omega)]
      congr 2
      omega
    · rw [if_neg (by omega), if_neg (by omega), if_neg (by omega), if_neg (by omega),
        Vector.getElem_replicate]

/-- **The key schedule in closed form.** The even round keys are sandwiches of the key's words, the
odd ones rotations of the even ones, and the slots above `nr` are not written. -/
theorem keyExpand_closed_form :
    (∀ i (hi : 2 * i ≤ v.nr),
        getElem (keyExpand p v key) (2 * i) (Nat.lt_of_le_of_lt hi v.nr_lt)
          = sandwich p (keyWords v key i) (modAddColumns (keyExpandKt p v key) (phi v.nb i)))
      ∧ (∀ i (hi : 2 * i + 1 ≤ v.nr), ∀ (c : Fin v.nb) (r : Fin 8),
          (getElem (keyExpand p v key) (2 * i + 1) (Nat.lt_of_le_of_lt hi v.nr_lt))[c][r]
            = getElem
                (bytesFromColumns
                  (getElem (keyExpand p v key) (2 * i) (by have h := v.nr_lt; omega)))
                ((c.val * 8 + r.val + (2 * v.nb + 3)) % (v.nb * 8))
                (Nat.mod_lt _ (by have h := c.isLt; omega)))
      ∧ (∀ m (hm : m < 19), v.nr < m → (keyExpand p v key)[m] = zeroState v.nb)
      ∧ ∀ tmp : State v.nb, Function.Bijective fun base => sandwich p base tmp := by
  have hlt := v.nr_lt
  have heven (i : Nat) (hi : 2 * i ≤ v.nr) : (keyExpand p v key)[2 * i] = evenKey v key p i := by
    rw [keyExpand_getElem, if_pos (by omega), Nat.mul_div_cancel_left i Nat.two_pos]
  refine ⟨heven, ?_, ?_, ?_⟩
  · intro i hi c r
    have hhalf : (2 * i + 1) / 2 = i := by omega
    have hodd : (keyExpand p v key)[2 * i + 1] = oddKey (evenKey v key p i) := by
      rw [keyExpand_getElem, if_neg (by omega), if_pos (by have h := v.nr_even; omega), hhalf]
    rw [hodd, heven i (by omega)]
    simp only [oddKey, FinIndex.getElem_fin, Vector.getElem_ofFn]
  · intro m hm hgt
    rw [keyExpand_getElem p v key hm, if_neg (by omega), if_neg (by omega)]
  · intro tmp
    have hround (base : State v.nb) : roundKeyFrom p base tmp = sandwich p base tmp :=
      roundKeyFrom_eq (isPowerOfTwo_of_blockWords v.nb_eq) p base tmp
    have hbijective := roundKeyFrom_bijective (isPowerOfTwo_of_blockWords v.nb_eq) p tmp
    simp only [hround] at hbijective
    exact hbijective

end Schedule

end UaCrypt.Hazmat.Kalyna

import UaCrypt.Hazmat.ColumnState

/-!
# The Kalyna block cipher (`hazmat/kalyna.rs`)

All five block/key-size variants, function by function as the crate computes
them. The source keeps every buffer `MAX_NB = 8` columns wide and works on the
`[..nb]` prefix; here a buffer is the live prefix itself, so a state of a variant
with `nb` words is a `State nb` and an index outside it cannot be written.

- The layers: `subBytes`, `shiftRows`, the two round-key additions and their
  inverses, over the column states of `ColumnState`.
- The fused rounds `encipherRoundN`, `fusedInvRoundN` and their runtime-`nb`
  twins: one gather-and-XOR pass each.
- The key schedule `keyExpand`: `keyExpandKt`, the even keys' loop, the odd keys.
- `encryptWithSchedule`, `decryptWithSchedule`: the unrolled index lists of the
  default profile, the slice loop of `small-tables`.
- `Kalyna.encrypt`, `Kalyna.decrypt`, `ExpandedKey`: the public functions of
  `kalyna_variant!`, over `Variant`.

The three-pass forms that the crate's tests compare against
(`naiveEncipherRound`, `naiveEncryptWithSchedule`, `naiveDecryptWithSchedule`)
stand at the end.
-/

namespace UaCrypt.Hazmat.Kalyna

open LittleEndian Tables ColumnState

/-! ## Variants -/

/-- The round counts the `const` assertion of the source admits. -/
inductive Rounds where
  | r10
  | r14
  | r18
  deriving DecidableEq, Repr

/-- `NR`. -/
def Rounds.nr : Rounds → Nat
  | .r10 => 10
  | .r14 => 14
  | .r18 => 18

theorem Rounds.nr_lt (r : Rounds) : r.nr < 19 := by
  cases r <;> decide

/-- The five `kalyna_variant!` instances, block bits then key bits. -/
inductive Variant where
  | kalyna128_128
  | kalyna128_256
  | kalyna256_256
  | kalyna256_512
  | kalyna512_512
  deriving DecidableEq, Repr

namespace Variant

/-- Block words. -/
@[reducible] def nb : Variant → Nat
  | .kalyna128_128 => 2
  | .kalyna128_256 => 2
  | .kalyna256_256 => 4
  | .kalyna256_512 => 4
  | .kalyna512_512 => 8

/-- Key words. -/
@[reducible] def nk : Variant → Nat
  | .kalyna128_128 => 2
  | .kalyna128_256 => 4
  | .kalyna256_256 => 4
  | .kalyna256_512 => 8
  | .kalyna512_512 => 8

/-- The round count. -/
def rounds : Variant → Rounds
  | .kalyna128_128 => .r10
  | .kalyna128_256 => .r14
  | .kalyna256_256 => .r14
  | .kalyna256_512 => .r18
  | .kalyna512_512 => .r18

abbrev nr (v : Variant) : Nat := v.rounds.nr

abbrev blockBytes (v : Variant) : Nat := v.nb * 8

abbrev keyBytes (v : Variant) : Nat := v.nk * 8

theorem nk_eq (v : Variant) : v.nk = v.nb ∨ v.nk = v.nb + v.nb := by
  cases v <;> decide

theorem nb_pos (v : Variant) : 0 < v.nb := by
  cases v <;> decide

theorem blockBytes_pos (v : Variant) : 0 < v.blockBytes := by
  cases v <;> decide

theorem nb_eq (v : Variant) : v.nb = 2 ∨ v.nb = 4 ∨ v.nb = 8 := by
  cases v <;> decide

theorem nr_lt (v : Variant) : v.nr < 19 := v.rounds.nr_lt

theorem nr_even (v : Variant) : v.nr % 2 = 0 := by
  cases v <;> decide

end Variant

/-- `RoundKeys`: room for `K_0 .. K_18` (`ROUND_KEYS_LEN = 19`). -/
abbrev RoundKeys (nb : Nat) := Vector (State nb) 19

variable {nb : Nat}

/-! ## Layers -/

def subBytes (state : State nb) : State nb := substituteState sboxes state

def invSubBytes (state : State nb) : State nb := substituteState sboxesDec state

/-- `row * nb / ROWS`, how far row `row` is rotated. -/
def rowShift (nb : Nat) (row : Fin 8) : Nat := row.val * nb / 8

def shiftRows (state : State nb) : State nb := rotateRows (rowShift nb) state

def invShiftRows (state : State nb) : State nb := unrotateRows (rowShift nb) state

/-- Round-key addition modulo `2^64` per column. -/
def addRoundKey (state key : State nb) : State nb :=
  state.zipWith (fun s k => toLeBytes (fromLeBytes s + fromLeBytes k)) key

def subRoundKey (state key : State nb) : State nb :=
  state.zipWith (fun s k => toLeBytes (fromLeBytes s - fromLeBytes k)) key

/-- Round-key addition by XOR. -/
def xorRoundKey (state key : State nb) : State nb := xorState state key

/-! ## Fused rounds -/

/-- One encryption round, on a slice of `nb` columns. -/
def encipherRound (p : Profile) (state : State nb) : State nb :=
  gatherRound (forwardSboxMds p) (forwardSrcCol (rowShift nb)) state

/-- One interior decryption round in equivalent-inverse form, on a slice. -/
def fusedInvRound (p : Profile) (state : State nb) : State nb :=
  gatherRound (inverseSboxMds p) (inverseSrcCol (rowShift nb)) state

/-- The const-generic twin of `encipherRound`. -/
def encipherRoundN (p : Profile) (state : State nb) : State nb :=
  gatherRound (forwardSboxMds p) (forwardSrcCol (rowShift nb)) state

/-- The const-generic twin of `fusedInvRound`. -/
def fusedInvRoundN (p : Profile) (state : State nb) : State nb :=
  gatherRound (inverseSboxMds p) (inverseSrcCol (rowShift nb)) state

/-- The unfused decryption round. -/
def decipherRound (p : Profile) (state : State nb) : State nb :=
  invSubBytes (invShiftRows (applyInverseMatrix p state))

/-- `DK[j] = apply_inverse_matrix(K[j])` for `1 ≤ j < nr`; the whitening keys pass
through. -/
def transformKeysForDecrypt (p : Profile) (roundKeys : RoundKeys nb) (nr : Nat) : RoundKeys nb :=
  roundKeys.mapIdx fun j key => if 1 ≤ j ∧ j < nr then applyInverseMatrix p key else key

/-! ## Key schedule -/

/-- The shared step behind `Kt` and every even-indexed round key. -/
def roundKeyFrom (p : Profile) (base tmp : State nb) : State nb :=
  let state := addRoundKey base tmp
  let state := encipherRound p state
  let state := xorRoundKey state tmp
  let state := encipherRound p state
  addRoundKey state tmp

/-- Doubles every column on its own, modulo `2^64`. -/
def shiftLeftWords (state : State nb) : State nb :=
  state.map fun column => toLeBytes (fromLeBytes column <<< 1)

/-- Rotates a buffer of words left by one word. -/
def rotateWordsLeft {count : Nat} (buf : Vector Column count) : Vector Column count :=
  Vector.ofFn fun i : Fin count =>
    have hlt := Nat.mod_lt (i.val + 1) i.pos
    buf[(i.val + 1) % count]

/-- Rotates a byte buffer left by `shift` positions. -/
def rotateBytesLeft {len : Nat} (buf : Vector UInt8 len) (shift : Nat) : Vector UInt8 len :=
  Vector.ofFn fun i : Fin len =>
    have hlt := Nat.mod_lt (i.val + shift) i.pos
    buf[(i.val + shift) % len]

def modAddColumns (a b : State nb) : State nb :=
  a.zipWith (fun x y => toLeBytes (fromLeBytes x + fromLeBytes y)) b

section KeySchedule

variable (p : Profile) (v : Variant)

/-- The intermediate key `Kσ`. -/
def keyExpandKt (key : Vector UInt8 v.keyBytes) : State v.nb :=
  have hnk := v.nk_eq
  let state := (zeroState v.nb).set 0 (toLeBytes (UInt64.ofNat (v.nb + v.nk + 1))) v.nb_pos
  let k0 := columnsFromBytes key v.nb (by rw [Variant.keyBytes]; omega)
  -- a key of one block is used for both halves
  let k1 :=
    if h : v.nk = v.nb then k0
    else columnsFromBytes (slice key (v.nb * 8) (v.nb * 8) (by rw [Variant.keyBytes]; omega))
      v.nb (Nat.le_refl _)
  let state := addRoundKey state k0
  let state := encipherRound p state
  let state := xorRoundKey state k1
  let state := encipherRound p state
  let state := addRoundKey state k0
  encipherRound p state

/-- The loop of `key_expand_even`, entered with `round` even and at most `nr`: that
is what keeps every write inside the schedule and makes the loop reach its
`break`. -/
def keyExpandEvenLoop (kt : State v.nb) (round : Nat) (hround : round ≤ v.nr ∧ round % 2 = 0)
    (initialData : Vector Column v.nk) (tmv : State v.nb) (roundKeys : RoundKeys v.nb) :
    RoundKeys v.nb :=
  have hnk := v.nk_eq
  have hlt := v.nr_lt
  have heven := v.nr_even
  let keyA := roundKeyFrom p (slice initialData 0 v.nb (by omega)) (modAddColumns kt tmv)
  let roundKeys := roundKeys.set round keyA (by omega)
  if hdone : round = v.nr then roundKeys
  else if hwide : v.nk ≠ v.nb then
    -- a key of two blocks gives a second round key before it is rotated
    let tmv := shiftLeftWords tmv
    let keyB := roundKeyFrom p (slice initialData v.nb v.nb (by omega)) (modAddColumns kt tmv)
    let roundKeys := roundKeys.set (round + 2) keyB (by omega)
    if hdone' : round + 2 = v.nr then roundKeys
    else
      keyExpandEvenLoop kt (round + 2 + 2) (by omega) (rotateWordsLeft initialData)
        (shiftLeftWords tmv) roundKeys
  else
    keyExpandEvenLoop kt (round + 2) (by omega) (rotateWordsLeft initialData)
      (shiftLeftWords tmv) roundKeys
termination_by v.nr - round

/-- The even-indexed round keys. -/
def keyExpandEven (key : Vector UInt8 v.keyBytes) (kt : State v.nb) (roundKeys : RoundKeys v.nb) :
    RoundKeys v.nb :=
  let initialData := columnsFromBytes key v.nk (Nat.le_refl _)
  let tmv := Vector.replicate v.nb (toLeBytes 0x0001000100010001)
  keyExpandEvenLoop p v kt 0 ⟨Nat.zero_le _, rfl⟩ initialData tmv roundKeys

end KeySchedule

/-- The loop of `key_expand_odd` from index `i`. -/
def keyExpandOddLoop (nr : Nat) (hnr : nr < 19) (i : Nat) (roundKeys : RoundKeys nb) :
    RoundKeys nb :=
  if hi : i < nr then
    let bytes := rotateBytesLeft (bytesFromColumns roundKeys[i - 1]) (2 * nb + 3)
    keyExpandOddLoop nr hnr (i + 2)
      (roundKeys.set i (columnsFromBytes bytes nb (Nat.le_refl _)) (by omega))
  else roundKeys
termination_by nr - i

/-- The odd-indexed round keys: the even key below, rotated by `2 * nb + 3` bytes. -/
def keyExpandOdd (nr : Nat) (hnr : nr < 19) (roundKeys : RoundKeys nb) : RoundKeys nb :=
  keyExpandOddLoop nr hnr 1 roundKeys

def keyExpand (p : Profile) (v : Variant) (key : Vector UInt8 v.keyBytes) : RoundKeys v.nb :=
  let kt := keyExpandKt p v key
  let roundKeys := Vector.replicate 19 (zeroState v.nb)
  keyExpandOdd v.nr v.nr_lt (keyExpandEven p v key kt roundKeys)

/-! ## Blocks -/

/-- `unroll_rounds!`: one round per listed index, in the listed order. -/
def unrollRounds (roundFn : State nb → State nb) (keys : RoundKeys nb) (idx : List (Fin 19))
    (state : State nb) : State nb :=
  idx.foldl (fun state i => xorRoundKey (roundFn state) keys[i]) state

/-- The index lists of `encrypt_with_schedule`. -/
def encryptIndices : Rounds → List (Fin 19)
  | .r10 => [1, 2, 3, 4, 5, 6, 7, 8, 9]
  | .r14 => [1, 2, 3, 4, 5, 6, 7, 8, 9, 10, 11, 12, 13]
  | .r18 => [1, 2, 3, 4, 5, 6, 7, 8, 9, 10, 11, 12, 13, 14, 15, 16, 17]

/-- The index lists of `decrypt_with_schedule`. -/
def decryptIndices : Rounds → List (Fin 19)
  | .r10 => [9, 8, 7, 6, 5, 4, 3, 2, 1]
  | .r14 => [13, 12, 11, 10, 9, 8, 7, 6, 5, 4, 3, 2, 1]
  | .r18 => [17, 16, 15, 14, 13, 12, 11, 10, 9, 8, 7, 6, 5, 4, 3, 2, 1]

/-- The slice `keys[1..nr]`. -/
def interiorKeys (keys : RoundKeys nb) (nr : Nat) : List (State nb) := (keys.toList.take nr).drop 1

/-- `K_NR`. -/
def lastKey (keys : RoundKeys nb) (r : Rounds) : State nb :=
  have hlt := r.nr_lt
  keys[r.nr]

theorem firstKey_lt : 0 < 19 := by decide

def encryptWithSchedule (p : Profile) (r : Rounds) (roundKeys : RoundKeys nb)
    (plaintext : Vector UInt8 (nb * 8)) : Vector UInt8 (nb * 8) :=
  let state := columnsFromBytes plaintext nb (Nat.le_refl _)
  let state := addRoundKey state (getElem roundKeys 0 firstKey_lt)
  let state :=
    match p with
    | .fused => unrollRounds (encipherRoundN p) roundKeys (encryptIndices r) state
    | .smallTables =>
      (interiorKeys roundKeys r.nr).foldl
        (fun state roundKey => xorRoundKey (encipherRoundN p state) roundKey) state
  let state := encipherRoundN p state
  let state := addRoundKey state (lastKey roundKeys r)
  bytesFromColumns state

def decryptWithSchedule (p : Profile) (r : Rounds) (roundKeys decKeys : RoundKeys nb)
    (ciphertext : Vector UInt8 (nb * 8)) : Vector UInt8 (nb * 8) :=
  let state := columnsFromBytes ciphertext nb (Nat.le_refl _)
  let state := subRoundKey state (lastKey roundKeys r)
  let state := applyInverseMatrix p state
  let state :=
    match p with
    | .fused => unrollRounds (fusedInvRoundN p) decKeys (decryptIndices r) state
    | .smallTables =>
      (interiorKeys decKeys r.nr).reverse.foldl
        (fun state decKey => xorRoundKey (fusedInvRoundN p state) decKey) state
  let state := invShiftRows state
  let state := invSubBytes state
  let state := subRoundKey state (getElem roundKeys 0 firstKey_lt)
  bytesFromColumns state

section Variants

variable (p : Profile) (v : Variant)

def encryptGeneric (key : Vector UInt8 v.keyBytes) (plaintext : Vector UInt8 v.blockBytes) :
    Vector UInt8 v.blockBytes :=
  let roundKeys := keyExpand p v key
  encryptWithSchedule p v.rounds roundKeys plaintext

def decryptGeneric (key : Vector UInt8 v.keyBytes) (ciphertext : Vector UInt8 v.blockBytes) :
    Vector UInt8 v.blockBytes :=
  let roundKeys := keyExpand p v key
  let decKeys := transformKeysForDecrypt p roundKeys v.nr
  decryptWithSchedule p v.rounds roundKeys decKeys ciphertext

/-- `Kalyna*::encrypt`. -/
def encrypt (key : Vector UInt8 v.keyBytes) (block : Vector UInt8 v.blockBytes) :
    Vector UInt8 v.blockBytes :=
  encryptGeneric p v key block

/-- `Kalyna*::decrypt`. -/
def decrypt (key : Vector UInt8 v.keyBytes) (block : Vector UInt8 v.blockBytes) :
    Vector UInt8 v.blockBytes :=
  decryptGeneric p v key block

/-- `Kalyna*ExpandedKey`: a cached schedule and its decryption transform. -/
structure ExpandedKey where
  roundKeys : RoundKeys v.nb
  decKeys : RoundKeys v.nb

/-- Expands `key` once. -/
def ExpandedKey.new (key : Vector UInt8 v.keyBytes) : ExpandedKey v :=
  let roundKeys := keyExpand p v key
  ⟨roundKeys, transformKeysForDecrypt p roundKeys v.nr⟩

variable {v}

def ExpandedKey.encryptBlock (key : ExpandedKey v) (block : Vector UInt8 v.blockBytes) :
    Vector UInt8 v.blockBytes :=
  encryptWithSchedule p v.rounds key.roundKeys block

def ExpandedKey.decryptBlock (key : ExpandedKey v) (block : Vector UInt8 v.blockBytes) :
    Vector UInt8 v.blockBytes :=
  decryptWithSchedule p v.rounds key.roundKeys key.decKeys block

end Variants

/-! ## The three-pass forms -/

/-- `sub_bytes`, `shift_rows`, then the MDS layer. -/
def naiveEncipherRound (p : Profile) (state : State nb) : State nb :=
  applyForwardMatrix p (shiftRows (subBytes state))

/-- Encryption as the plain loop over `round_keys[1..nr]` of the three-pass round. -/
def naiveEncryptWithSchedule (p : Profile) (r : Rounds) (roundKeys : RoundKeys nb)
    (plaintext : Vector UInt8 (nb * 8)) : Vector UInt8 (nb * 8) :=
  let state := columnsFromBytes plaintext nb (Nat.le_refl _)
  let state := addRoundKey state (getElem roundKeys 0 firstKey_lt)
  let state := (interiorKeys roundKeys r.nr).foldl
    (fun state roundKey => xorRoundKey (naiveEncipherRound p state) roundKey) state
  let state := naiveEncipherRound p state
  let state := addRoundKey state (lastKey roundKeys r)
  bytesFromColumns state

/-- Decryption with the three-pass `decipher_round` and the original keys, highest
first. -/
def naiveDecryptWithSchedule (p : Profile) (r : Rounds) (roundKeys : RoundKeys nb)
    (ciphertext : Vector UInt8 (nb * 8)) : Vector UInt8 (nb * 8) :=
  let state := columnsFromBytes ciphertext nb (Nat.le_refl _)
  let state := subRoundKey state (lastKey roundKeys r)
  let state := (interiorKeys roundKeys r.nr).reverse.foldl
    (fun state roundKey => xorRoundKey (decipherRound p state) roundKey) state
  let state := decipherRound p state
  let state := subRoundKey state (getElem roundKeys 0 firstKey_lt)
  bytesFromColumns state

end UaCrypt.Hazmat.Kalyna

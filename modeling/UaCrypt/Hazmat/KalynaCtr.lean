import UaCrypt.Hazmat.KalynaGcm
import UaCrypt.Lib.BufferedStream

/-!
# Kalyna-CTR (`hazmat/kalyna_ctr.rs`)

The counter mode: the iv is encrypted once to seed the counter, which is incremented over
the whole block before each keystream block.

- `Ctr.applyInPlace`: a call; `none` would be a panic.
- `Ctr.applyInPlace_streams`: no call panics, and the calls of a run take the bytes of one
  stream, `Ctr.keystream`, one after another.
- `incrementLow_iterate_eq_iff`: how far the counter of Kalyna-GCM, which does not carry
  past its low 64 bits, goes along with this one.
-/

namespace UaCrypt.Hazmat.KalynaCtr

open LittleEndian Tables ColumnState Kalyna ByteStream BufferedStream

/-- `Kalyna*Ctr`. -/
structure Ctr (v : Variant) where
  key : ExpandedKey v
  gamma : Vector UInt8 v.blockBytes
  feed : Vector UInt8 v.blockBytes
  usedGammaLen : Nat

/-- Adds one to the counter, carrying over the whole block. -/
def incrementCounter {n : Nat} (counter : Vector UInt8 n) : Vector UInt8 n :=
  ⟨(increment counter.toList).toArray, by simp⟩

variable (p : Profile) {v : Variant}

/-- The counter and the keystream block after it. -/
def nextGamma (key : ExpandedKey v) (feed : Vector UInt8 v.blockBytes) :
    Vector UInt8 v.blockBytes × Vector UInt8 v.blockBytes :=
  let feed := incrementCounter feed
  (feed, key.encryptBlock p feed)

namespace Ctr

def new (v : Variant) (key : Vector UInt8 v.keyBytes) (iv : Vector UInt8 v.blockBytes) : Ctr v :=
  let key := ExpandedKey.new p v key
  let gamma := key.encryptBlock p iv
  { key := key, gamma := gamma, feed := gamma, usedGammaLen := v.blockBytes }

/-- XORs the keystream into `buf`, from where the last call stopped. -/
def applyInPlace (ctr : Ctr v) (buf : List UInt8) : Option (Ctr v × List UInt8) :=
  match apply (nextGamma p ctr.key) (Nat.le_refl _) (KalynaGcm.blockBytes_pos v)
      ⟨ctr.feed, ctr.gamma, ctr.usedGammaLen⟩ buf with
  | none => none
  | some (s, out) =>
    some ({ ctr with gamma := s.keystream, feed := s.counter, usedGammaLen := s.used }, out)

/-! ## The stream of a state -/

/-- The bytes a state still gives. -/
def stream (ctr : Ctr v) : Nat → UInt8 :=
  BufferedStream.stream (nextGamma p ctr.key) (KalynaGcm.blockBytes_pos v) (Nat.le_refl _)
    ⟨ctr.feed, ctr.gamma, ctr.usedGammaLen⟩

theorem applyInPlace_streams :
    Streams (applyInPlace p (v := v)) (stream p) fun ctr => ctr.usedGammaLen ≤ v.blockBytes := by
  intro ctr buf hused
  obtain ⟨s, happly, hs, hstream⟩ := apply_streams (nextGamma p ctr.key)
    (KalynaGcm.blockBytes_pos v) (Nat.le_refl _) ⟨ctr.feed, ctr.gamma, ctr.usedGammaLen⟩ buf hused
  refine ⟨{ ctr with gamma := s.keystream, feed := s.counter, usedGammaLen := s.used }, ?_, hs,
    hstream⟩
  rw [applyInPlace, happly]
  rfl

/-- The keystream of a key and an iv. -/
def keystream (key : ExpandedKey v) (iv : Vector UInt8 v.blockBytes) : Nat → UInt8 :=
  generate (nextGamma p key) (KalynaGcm.blockBytes_pos v) (key.encryptBlock p iv)

theorem nextFront_nextGamma (key : ExpandedKey v) :
    nextFront (nextGamma p key) (Nat.le_refl _) = nextGamma p key := by
  funext counter
  refine Prod.ext rfl (Vector.ext fun i hi => ?_)
  simp only [nextFront, front, Vector.getElem_ofFn]
  rfl

theorem stream_new (key : Vector UInt8 v.keyBytes) (iv : Vector UInt8 v.blockBytes) :
    stream p (new p v key iv) = keystream p (ExpandedKey.new p v key) iv := by
  have hused := stream_of_used (nextGamma p (ExpandedKey.new p v key))
    (KalynaGcm.blockBytes_pos v) (Nat.le_refl _)
    (s := ⟨(new p v key iv).feed, (new p v key iv).gamma, v.blockBytes⟩) rfl
  rw [nextFront_nextGamma] at hused
  exact hused

/-- A call on a fresh state. -/
theorem applyInPlace_new (key : Vector UInt8 v.keyBytes) (iv : Vector UInt8 v.blockBytes)
    (buf : List UInt8) :
    ∃ ctr, (new p v key iv).applyInPlace p buf
      = some (ctr, xorWith (keystream p (ExpandedKey.new p v key) iv) buf) := by
  obtain ⟨ctr, happly, -, -⟩ := applyInPlace_streams p (new p v key iv) buf (Nat.le_refl _)
  rw [stream_new] at happly
  exact ⟨ctr, happly⟩

/-- Block `j` of the keystream is the encryption of the seed plus `j + 1`. -/
theorem keystream_eq_blockStream (key : ExpandedKey v) (iv : Vector UInt8 v.blockBytes) :
    keystream p key iv
      = blockStream (fun j => key.encryptBlock p (incrementCounter^[j + 1] (key.encryptBlock p iv)))
          (KalynaGcm.blockBytes_pos v) := by
  have hblocks : blocks (nextGamma p key) (key.encryptBlock p iv)
      = fun j => key.encryptBlock p (incrementCounter^[j + 1] (key.encryptBlock p iv)) :=
    funext fun j => blocks_counter incrementCounter (key.encryptBlock p) _ j
  rw [keystream, generate, hblocks]

end Ctr

/-! ## Against the counter of Kalyna-GCM -/

section Counters

open KalynaGcm

/-- The low 64 bits of a block, as a little-endian number. -/
def low64 (block : Vector UInt8 v.blockBytes) : Nat := leNat (block.toList.take 8)

/-- The bits above them. -/
def high (block : Vector UInt8 v.blockBytes) : Nat := leNat (block.toList.drop 8)

theorem length_take_eight (block : Vector UInt8 v.blockBytes) :
    (block.toList.take 8).length = 8 := by
  rw [List.length_take, Vector.length_toList, Nat.min_eq_left (eight_le_blockBytes v)]

theorem low64_lt (block : Vector UInt8 v.blockBytes) : low64 block < 2 ^ 64 := by
  have h := leNat_lt (block.toList.take 8)
  rw [length_take_eight] at h
  exact h

theorem high_lt (block : Vector UInt8 v.blockBytes) :
    high block < 256 ^ (v.blockBytes - 8) := by
  have h := leNat_lt (block.toList.drop 8)
  rw [List.length_drop, Vector.length_toList] at h
  exact h

/-- A block is its low 64 bits and the rest. -/
theorem leNat_eq (block : Vector UInt8 v.blockBytes) :
    leNat block.toList = low64 block + 2 ^ 64 * high block := by
  have h := leNat_append (block.toList.take 8) (block.toList.drop 8)
  rw [List.take_append_drop, length_take_eight] at h
  exact h

theorem pow_blockBytes (v : Variant) : 256 ^ v.blockBytes = 2 ^ 64 * 256 ^ (v.blockBytes - 8) := by
  cases v <;> decide

/-- Two blocks with the same low 64 bits and the same rest. -/
theorem eq_of_low64_of_high {x y : Vector UInt8 v.blockBytes} (hlow : low64 x = low64 y)
    (hhigh : high x = high y) : x = y := by
  refine eq_of_leNat_eq ?_
  rw [leNat_eq, leNat_eq, hlow, hhigh]

theorem leNat_incrementCounter {n : Nat} (counter : Vector UInt8 n) :
    leNat (incrementCounter counter).toList = (leNat counter.toList + 1) % 256 ^ n := by
  have h := leNat_increment counter.toList
  rw [Vector.length_toList] at h
  exact h

/-- After `j` increments, over the whole block. -/
theorem leNat_incrementCounter_iterate {n : Nat} (counter : Vector UInt8 n) (j : Nat) :
    leNat (incrementCounter^[j] counter).toList = (leNat counter.toList + j) % 256 ^ n := by
  induction j with
  | zero =>
    have hlt := leNat_lt counter.toList
    rw [Vector.length_toList] at hlt
    exact (Nat.mod_eq_of_lt hlt).symm
  | succ j ih =>
    rw [Function.iterate_succ_apply', leNat_incrementCounter, ih, Nat.mod_add_mod, Nat.add_assoc]

theorem toList_incrementLow (block : Vector UInt8 v.blockBytes) :
    (incrementLow block).toList
      = (toLeBytes (UInt64.ofNat (low64 block) + 1)).toList ++ block.toList.drop 8 := by
  have hle := eight_le_blockBytes v
  refine List.ext_getElem ?_ fun i h₁ h₂ => ?_
  · rw [List.length_append, List.length_drop, Vector.length_toList, Vector.length_toList,
      Vector.length_toList]
    omega
  · have hword : fromLeBytes (slice block 0 8 (by omega)) = UInt64.ofNat (low64 block) := by
      rw [fromLeBytes, toList_slice, List.drop_zero, low64]
    by_cases hi : i < 8
    · rw [List.getElem_append_left (by simpa using hi)]
      simp only [incrementLow, Vector.getElem_toList, Vector.getElem_ofFn, hi, dif_pos, hword]
    · rw [List.getElem_append_right (by simpa using hi)]
      simp only [incrementLow, Vector.getElem_toList, Vector.getElem_ofFn, hi, dif_neg,
        not_false_eq_true, List.getElem_drop, Vector.length_toList]
      simp only [Nat.add_sub_cancel' (Nat.le_of_not_lt hi)]
      rfl

theorem low64_incrementLow (block : Vector UInt8 v.blockBytes) :
    low64 (incrementLow block) = (low64 block + 1) % 2 ^ 64 := by
  rw [low64, toList_incrementLow, List.take_left' (by simp), toLeBytes,
    leNat_leBytes_of_lt (UInt64.toNat_lt _), UInt64.toNat_add, UInt64.toNat_ofNat',
    Nat.mod_add_mod]
  rfl

theorem high_incrementLow (block : Vector UInt8 v.blockBytes) :
    high (incrementLow block) = high block := by
  rw [high, toList_incrementLow, List.drop_left' (by simp), high]

/-- After `j` increments the low 64 bits have wrapped and the rest has not moved. -/
theorem low64_incrementLow_iterate (block : Vector UInt8 v.blockBytes) (j : Nat) :
    low64 (incrementLow^[j] block) = (low64 block + j) % 2 ^ 64
      ∧ high (incrementLow^[j] block) = high block := by
  induction j with
  | zero => exact ⟨(Nat.mod_eq_of_lt (low64_lt block)).symm, rfl⟩
  | succ j ih =>
    rw [Function.iterate_succ_apply', low64_incrementLow, high_incrementLow, ih.1, ih.2,
      Nat.mod_add_mod, Nat.add_assoc]
    exact ⟨rfl, rfl⟩

/-- The full-block counter, by the same two parts: the carry goes into the rest. -/
theorem low64_incrementCounter_iterate (block : Vector UInt8 v.blockBytes) (j : Nat) :
    low64 (incrementCounter^[j] block) = (low64 block + j) % 2 ^ 64
      ∧ high (incrementCounter^[j] block)
          = (high block + (low64 block + j) / 2 ^ 64) % 256 ^ (v.blockBytes - 8) := by
  have hsum := leNat_incrementCounter_iterate block j
  rw [leNat_eq, leNat_eq block, pow_blockBytes, Nat.mod_mul] at hsum
  have hlow := low64_lt (incrementCounter^[j] block)
  have hmod : (low64 block + 2 ^ 64 * high block + j) % 2 ^ 64 = (low64 block + j) % 2 ^ 64 := by
    omega
  have hdiv : (low64 block + 2 ^ 64 * high block + j) / 2 ^ 64
      = high block + (low64 block + j) / 2 ^ 64 := by
    omega
  rw [hmod, hdiv] at hsum
  have hrest := Nat.mod_lt (low64 block + j) (Nat.two_pow_pos 64)
  constructor <;> omega

/-- Within `2 ^ 64` blocks the two counters agree exactly as long as the low 64 bits do
not wrap. -/
theorem incrementLow_iterate_eq_iff (block : Vector UInt8 v.blockBytes) {j : Nat}
    (hj : j ≤ 2 ^ 64) :
    incrementLow^[j] block = incrementCounter^[j] block ↔ low64 block + j ≤ 2 ^ 64 - 1 := by
  obtain ⟨hlowG, hhighG⟩ := low64_incrementLow_iterate block j
  obtain ⟨hlowC, hhighC⟩ := low64_incrementCounter_iterate block j
  have hlow := low64_lt block
  have hhigh := high_lt block
  have hwide : 1 < 256 ^ (v.blockBytes - 8) := by
    cases v <;> decide
  constructor
  · intro heq
    by_contra hwrap
    -- one carry, which moves the rest of the full-block counter
    have hcarry : (low64 block + j) / 2 ^ 64 = 1 := by omega
    rw [← heq, hhighG, hcarry] at hhighC
    rcases Nat.lt_or_ge (high block + 1) (256 ^ (v.blockBytes - 8)) with hlt | hge
    · rw [Nat.mod_eq_of_lt hlt] at hhighC
      omega
    · have hlast : high block + 1 = 256 ^ (v.blockBytes - 8) := by omega
      rw [hlast, Nat.mod_self] at hhighC
      omega
  · intro hle
    have hcarry : (low64 block + j) / 2 ^ 64 = 0 := by omega
    refine eq_of_low64_of_high (hlowG.trans hlowC.symm) ?_
    rw [hhighG, hhighC, hcarry, Nat.add_zero, Nat.mod_eq_of_lt hhigh]

end Counters

/-- How many keystream blocks `len` bytes take. -/
def blockCount (v : Variant) (len : Nat) : Nat := (len + v.blockBytes - 1) / v.blockBytes

theorem div_lt_blockCount {i len : Nat} (h : i < len) :
    i / v.blockBytes < blockCount v len := by
  have hpos := KalynaGcm.blockBytes_pos v
  have hnext : i / v.blockBytes + 1 = (i + v.blockBytes) / v.blockBytes :=
    (Nat.add_div_right i hpos).symm
  have hle : (i + v.blockBytes) / v.blockBytes ≤ (len + v.blockBytes - 1) / v.blockBytes :=
    Nat.div_le_div_right (by omega)
  rw [blockCount]
  omega

/-- The keystream of Kalyna-GCM, by its counter. -/
theorem gcm_applyKeystream_eq_blockStream (b : Build) (gcm : KalynaGcm.Gcm v)
    (iv : Vector UInt8 v.blockBytes) (data : List UInt8) :
    gcm.applyKeystream b iv data
      = xorWith (blockStream (fun j => gcm.key.encryptBlock b.profile
          (KalynaGcm.incrementLow^[j + 1] (gcm.key.encryptBlock b.profile iv)))
          (KalynaGcm.blockBytes_pos v)) data := by
  have hblocks : blocks (KalynaGcm.Gcm.nextGamma b gcm) (gcm.key.encryptBlock b.profile iv)
      = fun j => gcm.key.encryptBlock b.profile
          (KalynaGcm.incrementLow^[j + 1] (gcm.key.encryptBlock b.profile iv)) :=
    funext fun j => blocks_counter KalynaGcm.incrementLow (gcm.key.encryptBlock b.profile) _ j
  rw [KalynaGcm.Gcm.applyKeystream, xorBlocks_eq_xorWith, generate, hblocks]

/-- It is the keystream of the counter mode while its counter does not wrap. -/
theorem gcm_applyKeystream_eq (b : Build) (gcm : KalynaGcm.Gcm v) (iv : Vector UInt8 v.blockBytes)
    {data : List UInt8}
    (h : low64 (gcm.key.encryptBlock b.profile iv) + blockCount v data.length ≤ 2 ^ 64 - 1) :
    gcm.applyKeystream b iv data = xorWith (Ctr.keystream b.profile gcm.key iv) data := by
  rw [gcm_applyKeystream_eq_blockStream, Ctr.keystream_eq_blockStream]
  refine xorWith_congr fun i hi => ?_
  have hblock := div_lt_blockCount (v := v) hi
  have hcounter := (incrementLow_iterate_eq_iff (gcm.key.encryptBlock b.profile iv)
    (j := i / v.blockBytes + 1) (by omega)).mpr (by omega)
  rw [blockStream, blockStream, hcounter]

end UaCrypt.Hazmat.KalynaCtr

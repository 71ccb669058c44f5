import UaCrypt.Hazmat.KalynaCorrect
import UaCrypt.Hazmat.KalynaGcm
import UaCrypt.Hazmat.GcmInput

/-!
# Kalyna-XTS (`hazmat/kalyna_xts.rs`)

Every block goes through the cipher between two XORs of its tweak, the tweaks doubling from
block to block. A last part of a block steals the end of the block before it. Every index and
slice of the source is checked: where the source would panic, a call returns `none`.

- `Xts.encryptInPlace`, `Xts.decryptInPlace`.
- `sweep`: what the block loops do, on a list of blocks; `crypt_whole`, `encryptInPlace_stolen`
  and `decryptInPlace_stolen`: the three calls on whole blocks and a tail.
- `xts_inverts`: the two directions undo each other at every length.
-/

namespace UaCrypt.Hazmat.KalynaXts

open Tables Kalyna Chunks

inductive XtsError where
  | invalidLength
  deriving DecidableEq, Repr

/-- The field of a variant's block size, `$gf`. -/
abbrev gf (v : Variant) : Gf2mWide.Pentanomial := KalynaGcm.field v

/-- `Kalyna*Xts`. -/
structure Xts (v : Variant) where
  key : ExpandedKey v

section Calls

variable {v : Variant}

def xorBlock (buf other : Vector UInt8 v.blockBytes) : Vector UInt8 v.blockBytes :=
  buf.zipWith (· ^^^ ·) other

/-- `gamma.double()`. -/
def nextTweak (gamma : Gf2mWide.Elem v.nb) : Gf2mWide.Elem v.nb :=
  Gf2mWide.double (gf v) gamma v.nb_pos

variable (crypt : Vector UInt8 v.blockBytes → Vector UInt8 v.blockBytes)

/-- One block under its tweak. -/
def cryptBlock (gamma : Gf2mWide.Elem v.nb) (block : Vector UInt8 v.blockBytes) :
    Vector UInt8 v.blockBytes :=
  let block := xorBlock block (Gf2mWide.toBytes gamma)
  xorBlock (crypt block) (Gf2mWide.toBytes gamma)

/-- The body of the block loops: the next tweak, and the block at `off` under it. -/
def loopBody (off : Nat) (gamma : Gf2mWide.Elem v.nb) (buffer : List UInt8) :
    Option (Gf2mWide.Elem v.nb × List UInt8) := do
  let gamma := nextTweak gamma
  let block ← chunkAt v.blockBytes buffer off
  let buffer ← copyInto buffer off (cryptBlock crypt gamma block).toList
  some (gamma, buffer)

/-- `while off < n`. -/
def whileBlocks (n off : Nat) (gamma : Gf2mWide.Elem v.nb) (buffer : List UInt8) :
    Option (Gf2mWide.Elem v.nb × List UInt8) :=
  if off < n then
    match loopBody crypt off gamma buffer with
    | none => none
    | some (gamma, buffer) => whileBlocks n (off + v.blockBytes) gamma buffer
  else some (gamma, buffer)
termination_by n - off
decreasing_by
  have hpos := KalynaGcm.blockBytes_pos v
  omega

/-- `for i in i..i + count`. -/
def forBlocks : (i count : Nat) → Gf2mWide.Elem v.nb → List UInt8 →
    Option (Gf2mWide.Elem v.nb × List UInt8)
  | _, 0, gamma, buffer => some (gamma, buffer)
  | i, count + 1, gamma, buffer =>
    match loopBody crypt (i * v.blockBytes) gamma buffer with
    | none => none
    | some (gamma, buffer) => forBlocks (i + 1) count gamma buffer

/-- `r` bytes of a tail in front, the rest of a block behind them. -/
def splice (r : Nat) (tail : List UInt8) (block : Vector UInt8 v.blockBytes) :
    Vector UInt8 v.blockBytes :=
  overwriteAt (overwrite (Vector.replicate v.blockBytes 0) tail) r (block.toList.drop r)

end Calls

namespace Xts

variable (p : Profile)

def new (v : Variant) (key : Vector UInt8 v.keyBytes) : Xts v := ⟨ExpandedKey.new p v key⟩

variable {v : Variant} (xts : Xts v)

/-- Encrypts `buffer` under `iv`, the seed of the tweaks. -/
def encryptInPlace (iv : Vector UInt8 v.blockBytes) (buffer : List UInt8) :
    Option (Except XtsError Unit × List UInt8) :=
  let n := buffer.length
  if n < v.blockBytes then some (.error .invalidLength, buffer)
  else
    let gamma := Gf2mWide.fromBytes (xts.key.encryptBlock p iv)
    let k := n / v.blockBytes
    let r := n % v.blockBytes
    if r = 0 then do
      let (_, buffer) ← whileBlocks (xts.key.encryptBlock p) n 0 gamma buffer
      some (.ok (), buffer)
    else do
      let (gamma, buffer) ← forBlocks (xts.key.encryptBlock p) 0 k gamma buffer
      let lastOff := (k - 1) * v.blockBytes
      let tailOff := k * v.blockBytes
      let scratch ← chunkAt v.blockBytes buffer lastOff
      let tail ← sliceAt buffer tailOff r
      let combined := splice r tail scratch
      let gamma := nextTweak gamma
      let combined := cryptBlock (xts.key.encryptBlock p) gamma combined
      let buffer ← copyInto buffer lastOff combined.toList
      let buffer ← copyInto buffer tailOff (scratch.toList.take r)
      some (.ok (), buffer)

/-- Decrypts `buffer` under `iv`. -/
def decryptInPlace (iv : Vector UInt8 v.blockBytes) (buffer : List UInt8) :
    Option (Except XtsError Unit × List UInt8) :=
  let n := buffer.length
  if n < v.blockBytes then some (.error .invalidLength, buffer)
  else
    let gamma := Gf2mWide.fromBytes (xts.key.encryptBlock p iv)
    let k := n / v.blockBytes
    let r := n % v.blockBytes
    if r = 0 then do
      let (_, buffer) ← whileBlocks (xts.key.decryptBlock p) n 0 gamma buffer
      some (.ok (), buffer)
    else do
      let (gamma, buffer) ← forBlocks (xts.key.decryptBlock p) 0 (k - 1) gamma buffer
      -- the last two tweaks, in the other order
      let gammaK := nextTweak gamma
      let gammaKPlus1 := nextTweak gammaK
      let lastOff := (k - 1) * v.blockBytes
      let tailOff := k * v.blockBytes
      let combined ← chunkAt v.blockBytes buffer lastOff
      let combined := cryptBlock (xts.key.decryptBlock p) gammaKPlus1 combined
      let tail ← sliceAt buffer tailOff r
      let reconstructed := splice r tail combined
      let reconstructed := cryptBlock (xts.key.decryptBlock p) gammaK reconstructed
      let buffer ← copyInto buffer lastOff reconstructed.toList
      let buffer ← copyInto buffer tailOff (combined.toList.take r)
      some (.ok (), buffer)

end Xts

/-! ## Blocks -/

section Blocks

variable {v : Variant} {crypt : Vector UInt8 v.blockBytes → Vector UInt8 v.blockBytes}

theorem xorBlock_xorBlock (buf other : Vector UInt8 v.blockBytes) :
    xorBlock (xorBlock buf other) other = buf := by
  apply Vector.ext
  intro i hi
  simp only [xorBlock, Vector.getElem_zipWith, UInt8.xor_assoc, UInt8.xor_self, UInt8.xor_zero]

theorem cryptBlock_cryptBlock {inverse : Vector UInt8 v.blockBytes → Vector UInt8 v.blockBytes}
    (hinv : ∀ block, inverse (crypt block) = block) (gamma : Gf2mWide.Elem v.nb)
    (block : Vector UInt8 v.blockBytes) :
    cryptBlock inverse gamma (cryptBlock crypt gamma block) = block := by
  simp only [cryptBlock, xorBlock_xorBlock, hinv]

theorem toList_splice {r : Nat} {tail : List UInt8} (htail : tail.length = r)
    (hr : r ≤ v.blockBytes) (block : Vector UInt8 v.blockBytes) :
    (splice r tail block).toList = tail ++ block.toList.drop r := by
  subst htail
  apply List.ext_getElem
  · simp
    omega
  · intro i h₁ h₂
    by_cases hi : i < tail.length
    · simp [splice, overwriteAt, overwrite, hi, Nat.not_le_of_lt hi]
    · have hle := Nat.le_of_not_lt hi
      have hlt : i < v.blockBytes := by simpa using h₁
      simp [splice, overwriteAt, overwrite, hle, List.getElem_append_right hle,
        Nat.add_sub_cancel' hle, Nat.sub_lt_sub_iff_right hle, hlt]

/-- What was stolen comes back. -/
theorem splice_take_splice {r : Nat} {tail : List UInt8} (htail : tail.length = r)
    (hr : r ≤ v.blockBytes) (block : Vector UInt8 v.blockBytes) :
    splice r (block.toList.take r) (splice r tail block) = block := by
  have hlen : (block.toList.take r).length = r := by
    rw [List.length_take, Vector.length_toList, Nat.min_eq_left hr]
  refine Vector.toList_inj.mp ?_
  rw [toList_splice hlen hr, toList_splice htail hr, List.drop_left' htail, List.take_append_drop]

theorem take_splice {r : Nat} {tail : List UInt8} (htail : tail.length = r)
    (hr : r ≤ v.blockBytes) (block : Vector UInt8 v.blockBytes) :
    (splice r tail block).toList.take r = tail := by
  rw [toList_splice htail hr, List.take_left' htail]

/-! ## The loops -/

variable (crypt)

/-- The blocks one after another, each under the tweak after the one before. -/
def sweep : Gf2mWide.Elem v.nb → List (Vector UInt8 v.blockBytes) →
    List (Vector UInt8 v.blockBytes)
  | _, [] => []
  | gamma, block :: blocks =>
    cryptBlock crypt (nextTweak gamma) block :: sweep (nextTweak gamma) blocks

@[simp] theorem length_sweep (gamma : Gf2mWide.Elem v.nb)
    (blocks : List (Vector UInt8 v.blockBytes)) : (sweep crypt gamma blocks).length = blocks.length := by
  induction blocks generalizing gamma with
  | nil => rfl
  | cons block blocks ih => rw [sweep, List.length_cons, ih, List.length_cons]

theorem sweep_append (gamma : Gf2mWide.Elem v.nb) (xs ys : List (Vector UInt8 v.blockBytes)) :
    sweep crypt gamma (xs ++ ys)
      = sweep crypt gamma xs ++ sweep crypt (nextTweak^[xs.length] gamma) ys := by
  induction xs generalizing gamma with
  | nil => rfl
  | cons x xs ih =>
    rw [List.cons_append, sweep, sweep, ih, List.cons_append, List.length_cons,
      Function.iterate_succ_apply]

theorem getElem_sweep (gamma : Gf2mWide.Elem v.nb) (blocks : List (Vector UInt8 v.blockBytes))
    {i : Nat} (hi : i < blocks.length) :
    getElem (sweep crypt gamma blocks) i (by simpa using hi)
      = cryptBlock crypt (nextTweak^[i + 1] gamma) blocks[i] := by
  induction blocks generalizing gamma i with
  | nil => exact absurd hi (Nat.not_lt_zero i)
  | cons block blocks ih =>
    cases i with
    | zero => rfl
    | succ i =>
      simp only [sweep, List.getElem_cons_succ]
      rw [ih (nextTweak gamma) (Nat.lt_of_succ_lt_succ hi), Function.iterate_succ_apply _ (i + 1)]

theorem sweep_sweep {inverse : Vector UInt8 v.blockBytes → Vector UInt8 v.blockBytes}
    (hinv : ∀ block, inverse (crypt block) = block) (gamma : Gf2mWide.Elem v.nb)
    (blocks : List (Vector UInt8 v.blockBytes)) :
    sweep inverse gamma (sweep crypt gamma blocks) = blocks := by
  induction blocks generalizing gamma with
  | nil => rfl
  | cons block blocks ih => rw [sweep, sweep, ih, cryptBlock_cryptBlock hinv]

theorem loopBody_eq {front : List UInt8} {off : Nat} (hoff : off = front.length)
    (gamma : Gf2mWide.Elem v.nb) (block : Vector UInt8 v.blockBytes) (rest : List UInt8) :
    loopBody crypt off gamma (front ++ block.toList ++ rest)
      = some (nextTweak gamma,
          front ++ (cryptBlock crypt (nextTweak gamma) block).toList ++ rest) := by
  have hcopy := copyInto_middle rest hoff
    (show block.toList.length = (cryptBlock crypt (nextTweak gamma) block).toList.length by
      rw [Vector.length_toList, Vector.length_toList])
  simp only [loopBody, chunkAt_middle front block rest hoff, Option.bind_eq_bind, Option.bind_some,
    hcopy]

theorem joinChunks_cons {n : Nat} (block : Vector UInt8 n) (blocks : List (Vector UInt8 n)) :
    joinChunks (block :: blocks) = block.toList ++ joinChunks blocks :=
  List.flatMap_cons

theorem joinChunks_singleton {n : Nat} (block : Vector UInt8 n) :
    joinChunks [block] = block.toList := by
  rw [joinChunks_cons]
  exact List.append_nil _

theorem forBlocks_eq {front : List UInt8} {i : Nat} (hi : i * v.blockBytes = front.length)
    (gamma : Gf2mWide.Elem v.nb) (blocks : List (Vector UInt8 v.blockBytes)) (rest : List UInt8) :
    forBlocks crypt i blocks.length gamma (front ++ joinChunks blocks ++ rest)
      = some (nextTweak^[blocks.length] gamma,
          front ++ joinChunks (sweep crypt gamma blocks) ++ rest) := by
  induction blocks generalizing front i gamma with
  | nil => rfl
  | cons block blocks ih =>
    have hnext : (i + 1) * v.blockBytes
        = (front ++ (cryptBlock crypt (nextTweak gamma) block).toList).length := by
      rw [List.length_append, Vector.length_toList, Nat.succ_mul, hi]
    have hstep := loopBody_eq crypt hi gamma block (joinChunks blocks ++ rest)
    rw [joinChunks_cons, ← List.append_assoc front, List.append_assoc _ (joinChunks blocks),
      List.length_cons, forBlocks, hstep]
    dsimp only
    rw [← List.append_assoc, ih hnext, Function.iterate_succ_apply, sweep, joinChunks_cons,
      ← List.append_assoc front]

theorem whileBlocks_eq {front : List UInt8} {n off : Nat} (hoff : off = front.length)
    (gamma : Gf2mWide.Elem v.nb) (blocks : List (Vector UInt8 v.blockBytes))
    (hn : n = off + v.blockBytes * blocks.length) :
    whileBlocks crypt n off gamma (front ++ joinChunks blocks)
      = some (nextTweak^[blocks.length] gamma, front ++ joinChunks (sweep crypt gamma blocks)) := by
  have hpos := KalynaGcm.blockBytes_pos v
  induction blocks generalizing front off gamma with
  | nil =>
    rw [whileBlocks, if_neg (by rw [hn, List.length_nil]; omega)]
    rfl
  | cons block blocks ih =>
    rw [List.length_cons, Nat.mul_succ] at hn
    have hnext : off + v.blockBytes
        = (front ++ (cryptBlock crypt (nextTweak gamma) block).toList).length := by
      rw [List.length_append, Vector.length_toList, hoff]
    have hstep := loopBody_eq crypt hoff gamma block (joinChunks blocks)
    rw [joinChunks_cons, ← List.append_assoc front, whileBlocks, if_pos (by omega), hstep]
    dsimp only
    rw [ih hnext _ (by omega), List.length_cons, Function.iterate_succ_apply, sweep,
      joinChunks_cons, ← List.append_assoc front]

end Blocks

/-! ## The calls -/

namespace Xts

variable (p : Profile) {v : Variant} (xts : Xts v)

/-- The seed of the tweaks. -/
def tweakSeed (iv : Vector UInt8 v.blockBytes) : Gf2mWide.Elem v.nb :=
  Gf2mWide.fromBytes (xts.key.encryptBlock p iv)

theorem encryptInPlace_of_short (iv : Vector UInt8 v.blockBytes) {buffer : List UInt8}
    (h : buffer.length < v.blockBytes) :
    xts.encryptInPlace p iv buffer = some (.error .invalidLength, buffer) := by
  rw [encryptInPlace, if_pos h]

theorem decryptInPlace_of_short (iv : Vector UInt8 v.blockBytes) {buffer : List UInt8}
    (h : buffer.length < v.blockBytes) :
    xts.decryptInPlace p iv buffer = some (.error .invalidLength, buffer) := by
  rw [decryptInPlace, if_pos h]

/-- Whole blocks. -/
theorem crypt_whole (iv : Vector UInt8 v.blockBytes) {blocks : List (Vector UInt8 v.blockBytes)}
    (h : blocks ≠ []) :
    xts.encryptInPlace p iv (joinChunks blocks)
        = some (.ok (), joinChunks (sweep (xts.key.encryptBlock p) (xts.tweakSeed p iv) blocks))
      ∧ xts.decryptInPlace p iv (joinChunks blocks)
        = some (.ok (), joinChunks (sweep (xts.key.decryptBlock p) (xts.tweakSeed p iv) blocks)) := by
  have hcount := List.length_pos_iff.mpr h
  have hlong : ¬(joinChunks blocks).length < v.blockBytes := by
    rw [length_joinChunks]
    exact Nat.not_lt_of_le (Nat.le_mul_of_pos_right _ hcount)
  have haligned : (joinChunks blocks).length % v.blockBytes = 0 := by
    rw [length_joinChunks, Nat.mul_mod_right]
  have hloop (crypt : Vector UInt8 v.blockBytes → Vector UInt8 v.blockBytes) :=
    whileBlocks_eq crypt (show 0 = ([] : List UInt8).length from rfl) (xts.tweakSeed p iv) blocks
      (show (joinChunks blocks).length = 0 + v.blockBytes * blocks.length by
        rw [length_joinChunks, Nat.zero_add])
  simp only [List.nil_append] at hloop
  rw [tweakSeed] at hloop
  constructor
  · simp only [encryptInPlace, if_neg hlong, if_pos haligned, hloop, Option.bind_eq_bind,
      Option.bind_some]
    rfl
  · simp only [decryptInPlace, if_neg hlong, if_pos haligned, hloop, Option.bind_eq_bind,
      Option.bind_some]
    rfl

section Stolen

variable (blocks : List (Vector UInt8 v.blockBytes)) {tail : List UInt8}
  (last : Vector UInt8 v.blockBytes)

/-- The lengths of blocks, a last one and a tail. -/
theorem length_stolen (htail : tail.length < v.blockBytes) :
    (joinChunks blocks ++ last.toList ++ tail).length / v.blockBytes = blocks.length + 1
      ∧ (joinChunks blocks ++ last.toList ++ tail).length % v.blockBytes = tail.length := by
  have hlen : (joinChunks blocks ++ last.toList ++ tail).length
      = v.blockBytes * (blocks.length + 1) + tail.length := by
    rw [List.length_append, List.length_append, length_joinChunks, Vector.length_toList,
      Nat.mul_succ]
  rw [hlen, Nat.mul_add_div (KalynaGcm.blockBytes_pos v), Nat.div_eq_of_lt htail, Nat.add_zero,
    Nat.mul_add_mod, Nat.mod_eq_of_lt htail]
  exact ⟨rfl, rfl⟩

/-- The two writes at the end of both calls. -/
theorem copyInto_stolen (front block : Vector UInt8 v.blockBytes) (start stolen : List UInt8)
    {off : Nat} (hoff : off = start.length) (hstolen : stolen.length = tail.length) :
    ((copyInto (start ++ block.toList ++ tail) off front.toList).bind fun buffer =>
        copyInto buffer (off + v.blockBytes) stolen)
      = some (start ++ front.toList ++ stolen) := by
  have hfirst := copyInto_middle tail hoff
    (show block.toList.length = front.toList.length by
      rw [Vector.length_toList, Vector.length_toList])
  have hsecond := copyInto_middle []
    (show off + v.blockBytes = (start ++ front.toList).length by
      rw [List.length_append, Vector.length_toList, hoff])
    hstolen.symm
  rw [List.append_nil, List.append_nil] at hsecond
  rw [hfirst, Option.bind_some, hsecond]

/-- The last block gives the end of itself to the tail, and the tail goes through the cipher
first in the buffer, last in the tweaks. -/
theorem encryptInPlace_stolen (iv : Vector UInt8 v.blockBytes) (htail : tail.length < v.blockBytes)
    (hpos : 0 < tail.length) :
    let crypt := xts.key.encryptBlock p
    let gamma := nextTweak^[blocks.length] (xts.tweakSeed p iv)
    let scratch := cryptBlock crypt (nextTweak gamma) last
    xts.encryptInPlace p iv (joinChunks blocks ++ last.toList ++ tail)
      = some (.ok (), joinChunks (sweep crypt (xts.tweakSeed p iv) blocks)
          ++ (cryptBlock crypt (nextTweak (nextTweak gamma)) (splice tail.length tail scratch)).toList
          ++ scratch.toList.take tail.length) := by
  intro crypt gamma scratch
  have hlast : joinChunks (blocks ++ [last]) = joinChunks blocks ++ last.toList := by
    rw [joinChunks_append, joinChunks_singleton]
  obtain ⟨hk, hr⟩ := length_stolen blocks last htail
  have hlong : ¬(joinChunks blocks ++ last.toList ++ tail).length < v.blockBytes := by
    rw [List.length_append, List.length_append, Vector.length_toList]
    omega
  have hloop := forBlocks_eq crypt (show 0 * v.blockBytes = ([] : List UInt8).length from Nat.zero_mul _)
    (xts.tweakSeed p iv)
    (blocks ++ [last]) tail
  have hsweep : joinChunks (sweep crypt (xts.tweakSeed p iv) (blocks ++ [last]))
      = joinChunks (sweep crypt (xts.tweakSeed p iv) blocks) ++ scratch.toList := by
    rw [sweep_append, joinChunks_append, sweep, sweep, joinChunks_singleton]
  rw [List.length_append, List.length_singleton, List.nil_append, List.nil_append, hlast, hsweep,
    Function.iterate_succ_apply', tweakSeed] at hloop
  have hoff : blocks.length * v.blockBytes
      = (joinChunks (sweep crypt (xts.tweakSeed p iv) blocks)).length := by
    rw [length_joinChunks, length_sweep, Nat.mul_comm]
  have hscratch := chunkAt_middle _ scratch tail hoff
  have hread := sliceAt_middle
    (joinChunks (sweep crypt (xts.tweakSeed p iv) blocks) ++ scratch.toList) tail []
    (show (blocks.length + 1) * v.blockBytes = _ by
      rw [List.length_append, Vector.length_toList, Nat.succ_mul, hoff]) (Eq.refl tail.length)
  have hstolen : (scratch.toList.take tail.length).length = tail.length := by
    rw [List.length_take, Vector.length_toList]
    omega
  have hwrite := copyInto_stolen
    (cryptBlock crypt (nextTweak (nextTweak gamma)) (splice tail.length tail scratch)) scratch _ _
    hoff hstolen
  rw [List.append_nil] at hread
  rw [← Nat.add_one_mul] at hwrite
  simp only [encryptInPlace, if_neg hlong, hr, hk, if_neg (Nat.ne_of_gt hpos),
    Option.bind_eq_bind]
  rw [hloop]
  simp only [Option.bind_some, Nat.add_sub_cancel]
  rw [tweakSeed] at hscratch hread hwrite
  simp only [hscratch, hread, Option.bind_some]
  rw [← Option.bind_assoc]
  exact congrArg (fun written : Option (List UInt8) => written.bind fun buffer =>
    some ((.ok () : Except XtsError Unit), buffer)) hwrite

/-- The other way round: the last two tweaks change places. -/
theorem decryptInPlace_stolen (iv : Vector UInt8 v.blockBytes) (htail : tail.length < v.blockBytes)
    (hpos : 0 < tail.length) :
    let crypt := xts.key.decryptBlock p
    let gamma := nextTweak^[blocks.length] (xts.tweakSeed p iv)
    let combined := cryptBlock crypt (nextTweak (nextTweak gamma)) last
    xts.decryptInPlace p iv (joinChunks blocks ++ last.toList ++ tail)
      = some (.ok (), joinChunks (sweep crypt (xts.tweakSeed p iv) blocks)
          ++ (cryptBlock crypt (nextTweak gamma) (splice tail.length tail combined)).toList
          ++ combined.toList.take tail.length) := by
  intro crypt gamma combined
  obtain ⟨hk, hr⟩ := length_stolen blocks last htail
  have hlong : ¬(joinChunks blocks ++ last.toList ++ tail).length < v.blockBytes := by
    rw [List.length_append, List.length_append, Vector.length_toList]
    omega
  have hloop := forBlocks_eq crypt (show 0 * v.blockBytes = ([] : List UInt8).length from Nat.zero_mul _)
    (xts.tweakSeed p iv)
    blocks (last.toList ++ tail)
  rw [List.nil_append, List.nil_append, ← List.append_assoc, ← List.append_assoc, tweakSeed]
    at hloop
  have hoff : blocks.length * v.blockBytes
      = (joinChunks (sweep crypt (xts.tweakSeed p iv) blocks)).length := by
    rw [length_joinChunks, length_sweep, Nat.mul_comm]
  have hlast := chunkAt_middle _ last tail hoff
  have hread := sliceAt_middle
    (joinChunks (sweep crypt (xts.tweakSeed p iv) blocks) ++ last.toList) tail []
    (show (blocks.length + 1) * v.blockBytes = _ by
      rw [List.length_append, Vector.length_toList, Nat.succ_mul, hoff]) (Eq.refl tail.length)
  have hstolen : (combined.toList.take tail.length).length = tail.length := by
    rw [List.length_take, Vector.length_toList]
    omega
  have hwrite := copyInto_stolen
    (cryptBlock crypt (nextTweak gamma) (splice tail.length tail combined)) last _ _ hoff hstolen
  rw [List.append_nil] at hread
  rw [← Nat.add_one_mul] at hwrite
  simp only [decryptInPlace, if_neg hlong, hr, hk, if_neg (Nat.ne_of_gt hpos),
    Option.bind_eq_bind, Nat.add_sub_cancel]
  rw [hloop]
  rw [tweakSeed] at hlast hread hwrite
  simp only [Option.bind_some, hlast, hread]
  rw [← Option.bind_assoc]
  exact congrArg (fun written : Option (List UInt8) => written.bind fun buffer =>
    some ((.ok () : Except XtsError Unit), buffer)) hwrite

end Stolen

/-! ## Both directions -/

/-- The two shapes of a buffer of at least one block. -/
theorem whole_or_stolen {buffer : List UInt8} (h : v.blockBytes ≤ buffer.length) :
    (∃ blocks : List (Vector UInt8 v.blockBytes), blocks ≠ [] ∧ buffer = joinChunks blocks)
      ∨ ∃ (blocks : List (Vector UInt8 v.blockBytes)) (last : Vector UInt8 v.blockBytes)
          (tail : List UInt8), buffer = joinChunks blocks ++ last.toList ++ tail
            ∧ tail.length < v.blockBytes ∧ 0 < tail.length := by
  have hpos := KalynaGcm.blockBytes_pos v
  obtain ⟨chunks, tail, rfl, htail, hcount, -⟩ := exists_joinChunks hpos buffer
  have hne : chunks ≠ [] := by
    have hcountPos := hcount.trans_ge (Nat.div_pos h hpos)
    exact List.length_pos_iff.mp hcountPos
  by_cases hwhole : tail = []
  · subst hwhole
    exact .inl ⟨chunks, hne, List.append_nil _⟩
  · refine .inr ⟨chunks.dropLast, chunks.getLast hne, tail, ?_, htail, List.length_pos_iff.mpr hwhole⟩
    rw [← joinChunks_singleton, ← joinChunks_append, List.dropLast_append_getLast hne]

/-- Stealing and giving back, in either order of the last two tweaks. -/
theorem cryptBlock_splice {crypt inverse : Vector UInt8 v.blockBytes → Vector UInt8 v.blockBytes}
    (hinv : ∀ block, inverse (crypt block) = block) (first second : Gf2mWide.Elem v.nb)
    (last : Vector UInt8 v.blockBytes) {tail : List UInt8} (htail : tail.length ≤ v.blockBytes) :
    let stolen := cryptBlock crypt first last
    let combined := cryptBlock inverse second
      (cryptBlock crypt second (splice tail.length tail stolen))
    cryptBlock inverse first (splice tail.length (stolen.toList.take tail.length) combined) = last
      ∧ combined.toList.take tail.length = tail := by
  dsimp only
  rw [cryptBlock_cryptBlock hinv, splice_take_splice rfl htail, cryptBlock_cryptBlock hinv,
    take_splice rfl htail]
  exact ⟨rfl, rfl⟩

/-- The bytes `encryptInPlace` leaves, the blocks before the last one under their tweaks. -/
theorem decryptInPlace_encryptInPlace
    (hinv : ∀ block, xts.key.decryptBlock p (xts.key.encryptBlock p block) = block)
    (iv : Vector UInt8 v.blockBytes) {buffer : List UInt8} (h : v.blockBytes ≤ buffer.length) :
    ∃ out, xts.encryptInPlace p iv buffer = some (.ok (), out) ∧ out.length = buffer.length
      ∧ xts.decryptInPlace p iv out = some (.ok (), buffer)
      ∧ ∀ i, i < buffer.length / v.blockBytes - 1 →
          ∃ block, chunkAt v.blockBytes buffer (i * v.blockBytes) = some block
            ∧ chunkAt v.blockBytes out (i * v.blockBytes)
              = some (cryptBlock (xts.key.encryptBlock p)
                  (nextTweak^[i + 1] (xts.tweakSeed p iv)) block) := by
  obtain ⟨blocks, hne, rfl⟩ | ⟨blocks, last, tail, rfl, htail, hpos⟩ := whole_or_stolen h
  · have hne' : sweep (xts.key.encryptBlock p) (xts.tweakSeed p iv) blocks ≠ [] := by
      rw [← List.length_pos_iff, length_sweep]
      exact List.length_pos_iff.mpr hne
    refine ⟨_, (xts.crypt_whole p iv hne).1, ?_, ?_, ?_⟩
    · rw [length_joinChunks, length_joinChunks, length_sweep]
    · rw [(xts.crypt_whole p iv hne').2, sweep_sweep _ hinv]
    · intro i hi
      rw [length_joinChunks, Nat.mul_div_cancel_left _ (KalynaGcm.blockBytes_pos v)] at hi
      have hlt : i < blocks.length := by omega
      refine ⟨blocks[i], ?_, ?_⟩
      · rw [← List.append_nil (joinChunks blocks), chunkAt_joinChunks]
      · rw [← List.append_nil (joinChunks (sweep _ _ _)),
          chunkAt_joinChunks _ _ (by rwa [length_sweep]), getElem_sweep _ _ _ hlt]
  · have hback := cryptBlock_splice hinv (nextTweak (nextTweak^[blocks.length] (xts.tweakSeed p iv)))
      (nextTweak (nextTweak (nextTweak^[blocks.length] (xts.tweakSeed p iv)))) last
      (Nat.le_of_lt htail)
    have hstolen (block : Vector UInt8 v.blockBytes) :
        (block.toList.take tail.length).length = tail.length := by
      rw [List.length_take, Vector.length_toList]
      omega
    have hshort (block : Vector UInt8 v.blockBytes) :
        (block.toList.take tail.length).length < v.blockBytes := by rwa [hstolen]
    have hlong (block : Vector UInt8 v.blockBytes) :
        0 < (block.toList.take tail.length).length := by rwa [hstolen]
    refine ⟨_, xts.encryptInPlace_stolen p blocks last iv htail hpos, ?_, ?_, ?_⟩
    · simp only [List.length_append, length_joinChunks, length_sweep, Vector.length_toList, hstolen]
    · have hdecrypt := xts.decryptInPlace_stolen p
        (sweep (xts.key.encryptBlock p) (xts.tweakSeed p iv) blocks)
        (cryptBlock (xts.key.encryptBlock p)
          (nextTweak (nextTweak (nextTweak^[blocks.length] (xts.tweakSeed p iv))))
          (splice tail.length tail (cryptBlock (xts.key.encryptBlock p)
            (nextTweak (nextTweak^[blocks.length] (xts.tweakSeed p iv))) last)))
        iv (hshort (cryptBlock (xts.key.encryptBlock p)
          (nextTweak (nextTweak^[blocks.length] (xts.tweakSeed p iv))) last)) (hlong _)
      simp only [length_sweep, hstolen, sweep_sweep _ hinv] at hdecrypt
      rw [hdecrypt, hback.1, hback.2]
    · intro i hi
      rw [(length_stolen blocks last htail).1, Nat.add_sub_cancel] at hi
      refine ⟨blocks[i], ?_, ?_⟩
      · rw [List.append_assoc, chunkAt_joinChunks]
      · rw [List.append_assoc, chunkAt_joinChunks _ _ (by rwa [length_sweep]),
          getElem_sweep _ _ _ hi]

/-- The same from the other side. -/
theorem encryptInPlace_decryptInPlace
    (hinv : ∀ block, xts.key.encryptBlock p (xts.key.decryptBlock p block) = block)
    (iv : Vector UInt8 v.blockBytes) {buffer : List UInt8} (h : v.blockBytes ≤ buffer.length) :
    ∃ out, xts.decryptInPlace p iv buffer = some (.ok (), out) ∧ out.length = buffer.length
      ∧ xts.encryptInPlace p iv out = some (.ok (), buffer) := by
  obtain ⟨blocks, hne, rfl⟩ | ⟨blocks, last, tail, rfl, htail, hpos⟩ := whole_or_stolen h
  · have hne' : sweep (xts.key.decryptBlock p) (xts.tweakSeed p iv) blocks ≠ [] := by
      rw [← List.length_pos_iff, length_sweep]
      exact List.length_pos_iff.mpr hne
    refine ⟨_, (xts.crypt_whole p iv hne).2, ?_, ?_⟩
    · rw [length_joinChunks, length_joinChunks, length_sweep]
    · rw [(xts.crypt_whole p iv hne').1, sweep_sweep _ hinv]
  · have hback := cryptBlock_splice hinv
      (nextTweak (nextTweak (nextTweak^[blocks.length] (xts.tweakSeed p iv))))
      (nextTweak (nextTweak^[blocks.length] (xts.tweakSeed p iv))) last (Nat.le_of_lt htail)
    have hstolen (block : Vector UInt8 v.blockBytes) :
        (block.toList.take tail.length).length = tail.length := by
      rw [List.length_take, Vector.length_toList]
      omega
    have hshort (block : Vector UInt8 v.blockBytes) :
        (block.toList.take tail.length).length < v.blockBytes := by rwa [hstolen]
    have hlong (block : Vector UInt8 v.blockBytes) :
        0 < (block.toList.take tail.length).length := by rwa [hstolen]
    refine ⟨_, xts.decryptInPlace_stolen p blocks last iv htail hpos, ?_, ?_⟩
    · simp only [List.length_append, length_joinChunks, length_sweep, Vector.length_toList, hstolen]
    · have hencrypt := xts.encryptInPlace_stolen p
        (sweep (xts.key.decryptBlock p) (xts.tweakSeed p iv) blocks)
        (cryptBlock (xts.key.decryptBlock p)
          (nextTweak (nextTweak^[blocks.length] (xts.tweakSeed p iv)))
          (splice tail.length tail (cryptBlock (xts.key.decryptBlock p)
            (nextTweak (nextTweak (nextTweak^[blocks.length] (xts.tweakSeed p iv)))) last)))
        iv (hshort (cryptBlock (xts.key.decryptBlock p)
          (nextTweak (nextTweak (nextTweak^[blocks.length] (xts.tweakSeed p iv)))) last)) (hlong _)
      simp only [length_sweep, hstolen, sweep_sweep _ hinv] at hencrypt
      rw [hencrypt, hback.1, hback.2]

end Xts

/-- The tweaks are the seed times the powers of the generator. -/
theorem toQuotient_nextTweak {v : Variant} (gamma : Gf2mWide.Elem v.nb) (i : Nat) :
    Gf2mWide.toQuotient (gf v) (nextTweak^[i] gamma)
      = Gf2mWide.toQuotient (gf v) gamma * AdjoinRoot.root (Gf2mWide.modulus v.nb (gf v)) ^ i := by
  induction i with
  | zero => rw [Function.iterate_zero_apply, pow_zero, mul_one]
  | succ i ih =>
    rw [Function.iterate_succ_apply', nextTweak, Gf2mWide.toQuotient_double, ih, pow_succ]
    ring

/-- Both directions undo each other at every length of at least a block and keep it, block `i`
before the last whole one goes under the seed times the `i + 1`st power of the generator, and
a shorter buffer is refused as it is. -/
theorem xts_inverts (p : Profile) (v : Variant) (key : Vector UInt8 v.keyBytes)
    (iv : Vector UInt8 v.blockBytes) :
    let xts := Xts.new p v key
    (∀ buffer : List UInt8, v.blockBytes ≤ buffer.length →
      ∃ out, xts.encryptInPlace p iv buffer = some (.ok (), out) ∧ out.length = buffer.length
        ∧ xts.decryptInPlace p iv out = some (.ok (), buffer)
        ∧ ∀ i, i < buffer.length / v.blockBytes - 1 → ∃ tweak block,
            Gf2mWide.toQuotient (gf v) tweak
              = Gf2mWide.toQuotient (gf v) (Gf2mWide.fromBytes (xts.key.encryptBlock p iv))
                * AdjoinRoot.root (Gf2mWide.modulus v.nb (gf v)) ^ (i + 1)
            ∧ chunkAt v.blockBytes buffer (i * v.blockBytes) = some block
            ∧ chunkAt v.blockBytes out (i * v.blockBytes)
              = some (xorBlock (xts.key.encryptBlock p (xorBlock block (Gf2mWide.toBytes tweak)))
                  (Gf2mWide.toBytes tweak)))
    ∧ (∀ buffer : List UInt8, v.blockBytes ≤ buffer.length →
      ∃ out, xts.decryptInPlace p iv buffer = some (.ok (), out) ∧ out.length = buffer.length
        ∧ xts.encryptInPlace p iv out = some (.ok (), buffer))
    ∧ ∀ buffer : List UInt8, buffer.length < v.blockBytes →
      xts.encryptInPlace p iv buffer = some (.error .invalidLength, buffer)
        ∧ xts.decryptInPlace p iv buffer = some (.error .invalidLength, buffer) := by
  intro xts
  refine ⟨?_, ?_, ?_⟩
  · intro buffer h
    obtain ⟨out, hout, hlen, hback, hblocks⟩ :=
      xts.decryptInPlace_encryptInPlace p (decryptBlock_encryptBlock p v key) iv h
    refine ⟨out, hout, hlen, hback, ?_⟩
    intro i hi
    obtain ⟨block, hin, hcrypt⟩ := hblocks i hi
    exact ⟨_, block, toQuotient_nextTweak (xts.tweakSeed p iv) (i + 1), hin, hcrypt⟩
  · intro buffer h
    exact xts.encryptInPlace_decryptInPlace p (encryptBlock_decryptBlock p v key) iv h
  · intro buffer h
    exact ⟨Xts.encryptInPlace_of_short p xts iv h, Xts.decryptInPlace_of_short p xts iv h⟩

end UaCrypt.Hazmat.KalynaXts

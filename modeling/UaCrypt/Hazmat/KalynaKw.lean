import UaCrypt.Hazmat.KalynaCorrect
import UaCrypt.Lib.Chunks

/-!
# Kalyna key wrap (`hazmat/kalyna_kw.rs`)

`6(2r + 1)` rounds over a queue of half blocks. Each round encrypts the register `B`
with the head of the queue, XORs the round number into one half of the result, which
becomes `B`, and queues the other half; unwrapping runs the rounds backwards.

The `b[..n - 1]` slots in use are the list `b`, never empty; the slots past them are not
touched by the source. A function that writes into a caller's buffer takes its old
contents and returns the contents it leaves.

- `wrapWithCipher`, `unwrapWithCipher`, `wrap`, `unwrap`.
- `unwrapStep_wrapStep`, `wrapStep_unwrapStep`: a round and its inverse, from which the
  whole runs are inverse (`unwrapRounds_wrapRounds`).
- `wrapBytes`, `unwrapBytes`: the two runs on byte strings, a bijection on the strings of
  at least two half blocks.
-/

namespace UaCrypt.Hazmat.KalynaKw

open LittleEndian Tables ColumnState Kalyna Chunks RoundCipher

inductive KwError where
  | invalidLength
  | checksumMismatch
  deriving DecidableEq, Repr

def maxR : Nat := 20

/-- `$half_bytes`. -/
@[reducible] def halfBytes (v : Variant) : Nat := v.nb * 4

theorem halfBytes_pos (v : Variant) : 0 < halfBytes v := by
  cases v <;> decide

theorem blockBytes_eq (v : Variant) : v.blockBytes = halfBytes v + halfBytes v := by
  cases v <;> rfl

/-- Two half blocks a block. -/
theorem halfBytes_mul (v : Variant) (k : Nat) : halfBytes v * (2 * k) = v.blockBytes * k := by
  rw [blockBytes_eq, ← Nat.two_mul, ← Nat.mul_assoc, Nat.mul_comm _ 2]

variable {v : Variant}

abbrev Half (v : Variant) := Vector UInt8 (halfBytes v)

/-! ## Halves of a block -/

/-- `block[..half] = low; block[half..] = high`. -/
def joinHalves (low high : Half v) : Vector UInt8 v.blockBytes :=
  Vector.ofFn fun i =>
    if h : i.val < halfBytes v then low[i.val]
    else
      have hlt : i.val - halfBytes v < halfBytes v := by
        have hi := Nat.lt_of_lt_of_eq i.isLt (blockBytes_eq v)
        omega
      high[i.val - halfBytes v]

/-- `block[..half]`. -/
def lowHalf (block : Vector UInt8 v.blockBytes) : Half v :=
  slice block 0 (halfBytes v) (by rw [blockBytes_eq]; omega)

/-- `block[half..]`. -/
def highHalf (block : Vector UInt8 v.blockBytes) : Half v :=
  slice block (halfBytes v) (halfBytes v) (by rw [blockBytes_eq])

@[simp] theorem lowHalf_joinHalves (low high : Half v) : lowHalf (joinHalves low high) = low := by
  refine Vector.ext fun i hi => ?_
  simp [lowHalf, joinHalves, slice]

@[simp] theorem highHalf_joinHalves (low high : Half v) :
    highHalf (joinHalves low high) = high := by
  refine Vector.ext fun i hi => ?_
  have hnot : ¬halfBytes v + i < halfBytes v := Nat.not_lt_of_le (Nat.le_add_right _ i)
  simp only [highHalf, joinHalves, slice, Vector.getElem_ofFn, dif_neg hnot,
    Nat.add_sub_cancel_left]

@[simp] theorem joinHalves_lowHalf_highHalf (block : Vector UInt8 v.blockBytes) :
    joinHalves (lowHalf block) (highHalf block) = block := by
  refine Vector.ext fun i hi => ?_
  by_cases h : i < halfBytes v
  · simp [joinHalves, lowHalf, slice, h]
  · simp [joinHalves, highHalf, slice, h, Nat.add_sub_cancel' (Nat.le_of_not_lt h)]

/-- `half[k] ^= (i as u32).to_le_bytes()[k]` for the first four bytes. -/
def xorTweak (i : Nat) (half : Half v) : Half v :=
  Vector.ofFn fun k => if h : k.val < 4 then half[k] ^^^ (leBytes 4 i)[k.val] else half[k]

@[simp] theorem xorTweak_xorTweak (i : Nat) (half : Half v) :
    xorTweak i (xorTweak i half) = half := by
  refine Vector.ext fun k hk => ?_
  by_cases h : k < 4
  · simp only [xorTweak, Vector.getElem_ofFn, FinIndex.getElem_fin, dif_pos h, UInt8.xor_assoc,
      UInt8.xor_self, UInt8.xor_zero]
  · simp [xorTweak, h]

/-! ## Rounds -/

/-- The register and the queue. -/
structure Queue (v : Variant) where
  bigB : Half v
  b : List (Half v)
  nonempty : b ≠ []

namespace Queue

theorem ext_of {s t : Queue v} (hbig : s.bigB = t.bigB) (hb : s.b = t.b) : s = t := by
  cases s
  cases t
  cases hbig
  cases hb
  rfl

end Queue

section Rounds

variable (p : Profile) (cipher : ExpandedKey v)

/-- Round `i` of `wrap`: the tweak goes into the upper half, the lower half is queued. -/
def wrapStep (s : Queue v) (i : Nat) : Queue v :=
  let tweaked := cipher.encryptBlock p (joinHalves s.bigB (s.b.head s.nonempty))
  { bigB := xorTweak i (highHalf tweaked)
    b := s.b.tail ++ [lowHalf tweaked]
    nonempty := List.concat_ne_nil _ _ }

/-- Round `i` of `unwrap`. -/
def unwrapStep (s : Queue v) (i : Nat) : Queue v :=
  let d := cipher.decryptBlock p (joinHalves (s.b.getLast s.nonempty) (xorTweak i s.bigB))
  { bigB := lowHalf d
    b := highHalf d :: s.b.dropLast
    nonempty := List.cons_ne_nil _ _ }

/-- `for i in 1..=v`. -/
def wrapRounds (s : Queue v) (count : Nat) : Queue v :=
  (List.range' 1 count).foldl (wrapStep p cipher) s

/-- `for i in (1..=v).rev()`. -/
def unwrapRounds (s : Queue v) (count : Nat) : Queue v :=
  (List.range' 1 count).reverse.foldl (unwrapStep p cipher) s

/-! ### Inverse runs -/

variable {p cipher}

theorem unwrapStep_wrapStep
    (hdec : ∀ block, cipher.decryptBlock p (cipher.encryptBlock p block) = block)
    (s : Queue v) (i : Nat) : unwrapStep p cipher (wrapStep p cipher s i) i = s := by
  refine Queue.ext_of ?_ ?_
  · simp [unwrapStep, wrapStep, hdec]
  · simp [unwrapStep, wrapStep, hdec]

theorem wrapStep_unwrapStep
    (henc : ∀ block, cipher.encryptBlock p (cipher.decryptBlock p block) = block)
    (s : Queue v) (i : Nat) : wrapStep p cipher (unwrapStep p cipher s i) i = s := by
  refine Queue.ext_of ?_ ?_
  · simp [unwrapStep, wrapStep, henc]
  · simp [unwrapStep, wrapStep, henc, List.dropLast_append_getLast]

end Rounds

/-! ## Wrapping and unwrapping -/

/-- What `out` receives from the queue. -/
def Queue.bytes (s : Queue v) : List UInt8 := s.bigB.toList ++ joinChunks s.b

section Modes

variable (p : Profile) (cipher : ExpandedKey v)

/-- The lengths `wrap` refuses. -/
def WrapRefuses (v : Variant) (plaintext out : List UInt8) : Prop :=
  plaintext.isEmpty ∨ plaintext.length % v.blockBytes ≠ 0 ∨ plaintext.length / v.blockBytes > maxR
    ∨ out.length ≠ plaintext.length + v.blockBytes

instance (plaintext out : List UInt8) : Decidable (WrapRefuses v plaintext out) :=
  inferInstanceAs (Decidable (_ ∨ _ ∨ _ ∨ _))

/-- The lengths `unwrap` refuses. -/
def UnwrapRefuses (v : Variant) (ciphertext out : List UInt8) : Prop :=
  ciphertext.length < 2 * v.blockBytes ∨ ciphertext.length % v.blockBytes ≠ 0
    ∨ ciphertext.length / v.blockBytes - 1 > maxR ∨ out.length ≠ ciphertext.length - v.blockBytes

instance (ciphertext out : List UInt8) : Decidable (UnwrapRefuses v ciphertext out) :=
  inferInstanceAs (Decidable (_ ∨ _ ∨ _ ∨ _))

/-- A whole number of blocks, from `lo` to `hi` of them. -/
def WholeBlocks (v : Variant) (lo hi len : Nat) : Prop :=
  ∃ r, lo ≤ r ∧ r ≤ hi ∧ len = v.blockBytes * r

theorem blockBytes_pos (v : Variant) : 0 < v.blockBytes := by
  cases v <;> decide

/-- As the source checks it. -/
theorem wholeBlocks_iff {lo hi len : Nat} :
    WholeBlocks v lo hi len
      ↔ lo * v.blockBytes ≤ len ∧ len % v.blockBytes = 0 ∧ len / v.blockBytes ≤ hi := by
  have hpos := blockBytes_pos v
  constructor
  · rintro ⟨r, hlo, hhi, rfl⟩
    refine ⟨?_, Nat.mul_mod_right _ _, ?_⟩
    · rw [Nat.mul_comm lo]
      exact Nat.mul_le_mul_left _ hlo
    · rw [Nat.mul_div_cancel_left r hpos]
      exact hhi
  · rintro ⟨hle, hmod, hhi⟩
    have hdiv := Nat.div_add_mod len v.blockBytes
    exact ⟨len / v.blockBytes, (Nat.le_div_iff_mul_le hpos).mpr hle, hhi, by omega⟩

theorem not_wrapRefuses_iff {plaintext out : List UInt8} :
    ¬WrapRefuses v plaintext out
      ↔ WholeBlocks v 1 maxR plaintext.length ∧ out.length = plaintext.length + v.blockBytes := by
  have hpos := blockBytes_pos v
  rw [wholeBlocks_iff]
  simp only [WrapRefuses, not_or, not_not, Nat.not_lt, List.isEmpty_iff_length_eq_zero]
  constructor
  · rintro ⟨hne, hmod, hle, hout⟩
    -- a positive multiple of the block is a block or more
    have hblock := Nat.le_of_dvd (Nat.pos_of_ne_zero hne) (Nat.dvd_of_mod_eq_zero hmod)
    exact ⟨⟨by omega, hmod, hle⟩, hout⟩
  · rintro ⟨⟨hblock, hmod, hle⟩, hout⟩
    exact ⟨by omega, hmod, hle, hout⟩

theorem not_unwrapRefuses_iff {ciphertext out : List UInt8} :
    ¬UnwrapRefuses v ciphertext out
      ↔ WholeBlocks v 2 (maxR + 1) ciphertext.length
        ∧ out.length + v.blockBytes = ciphertext.length := by
  rw [wholeBlocks_iff]
  simp only [UnwrapRefuses, not_or, not_not, Nat.not_lt]
  constructor
  · rintro ⟨htwo, hmod, hle, hout⟩
    exact ⟨⟨htwo, hmod, by omega⟩, by omega⟩
  · rintro ⟨⟨htwo, hmod, hle⟩, hout⟩
    exact ⟨htwo, hmod, by omega, by omega⟩

/-- The half blocks of whole blocks. -/
theorem WholeBlocks.halves {lo hi len : Nat} (h : WholeBlocks v lo hi len) :
    ∃ r, lo ≤ r ∧ r ≤ hi ∧ len = halfBytes v * (2 * r) := by
  obtain ⟨r, hlo, hhi, hlen⟩ := h
  refine ⟨r, hlo, hhi, ?_⟩
  rw [hlen, halfBytes_mul]

theorem WholeBlocks.half_le {lo hi len : Nat} (h : WholeBlocks v lo hi len) (hlo : 1 ≤ lo) :
    halfBytes v ≤ len := by
  obtain ⟨r, hr, -, rfl⟩ := h.halves
  exact Nat.le_mul_of_pos_right _ (by omega)

theorem WholeBlocks.half_le_drop {lo hi : Nat} {data : List UInt8}
    (h : WholeBlocks v lo hi data.length) (hlo : 1 ≤ lo) :
    halfBytes v ≤ (data.drop (halfBytes v)).length := by
  obtain ⟨r, hr, -, hlen⟩ := h.halves
  have htwo : halfBytes v * 2 ≤ halfBytes v * (2 * r) := Nat.mul_le_mul_left _ (by omega)
  rw [List.length_drop]
  omega

/-- The queue `wrap` starts from: the plaintext halves, then zero slots up to `n - 1`,
the checksum block. -/
def loadWrap (plaintext : List UInt8) (n : Nat) (h : halfBytes v ≤ plaintext.length) (hn : 1 < n) :
    Queue v :=
  let filled := chunksExact (halfBytes v) (halfBytes_pos v) (plaintext.drop (halfBytes v))
  { bigB := headChunk (halfBytes v) plaintext h
    b := filled ++ List.replicate (n - 1 - filled.length) (Vector.replicate (halfBytes v) 0)
    nonempty := by
      rw [← List.length_pos_iff, List.length_append, List.length_replicate]
      omega }

/-- The queue `unwrap` starts from. -/
def loadUnwrap (ciphertext : List UInt8) (h : halfBytes v ≤ ciphertext.length)
    (hdrop : halfBytes v ≤ (ciphertext.drop (halfBytes v)).length) : Queue v where
  bigB := headChunk (halfBytes v) ciphertext h
  b := chunksExact (halfBytes v) (halfBytes_pos v) (ciphertext.drop (halfBytes v))
  nonempty := by
    rw [← List.length_pos_iff, length_chunksExact]
    exact Nat.div_pos hdrop (halfBytes_pos v)

/-- Wraps `plaintext`, 1 to 20 whole blocks, into `out`, one block longer. -/
def wrapWithCipher (plaintext out : List UInt8) : Except KwError Unit × List UInt8 :=
  if h : WrapRefuses v plaintext out then (.error .invalidLength, out)
  else
    let r := plaintext.length / v.blockBytes
    let n := 2 * (r + 1)
    let start := loadWrap plaintext n ((not_wrapRefuses_iff.mp h).1.half_le (Nat.le_refl 1))
      (Nat.le_mul_of_pos_right 2 (Nat.succ_pos _))
    (.ok (), (wrapRounds p cipher start ((n - 1) * 6)).bytes)

/-- Unwraps `ciphertext`, 2 to 21 whole blocks, into `out`, one block shorter; nothing is
released before the checksum block is found zero. -/
def unwrapWithCipher (ciphertext out : List UInt8) : Except KwError Unit × List UInt8 :=
  if h : UnwrapRefuses v ciphertext out then (.error .invalidLength, out)
  else
    let hwhole := (not_unwrapRefuses_iff.mp h).1
    let r := ciphertext.length / v.blockBytes - 1
    let n := 2 * (r + 1)
    let start :=
      loadUnwrap ciphertext (hwhole.half_le (by decide)) (hwhole.half_le_drop (by decide))
    let s := unwrapRounds p cipher start ((n - 1) * 6)
    let zero := Vector.replicate (halfBytes v) 0
    if s.b[n - 3]? = some zero ∧ s.b[n - 2]? = some zero then
      (.ok (), s.bigB.toList ++ joinChunks (s.b.take (n - 3)))
    else (.error .checksumMismatch, out)

def wrap (v : Variant) (key : Vector UInt8 v.keyBytes) (plaintext out : List UInt8) :
    Except KwError Unit × List UInt8 :=
  wrapWithCipher p (ExpandedKey.new p v key) plaintext out

def unwrap (v : Variant) (key : Vector UInt8 v.keyBytes) (ciphertext out : List UInt8) :
    Except KwError Unit × List UInt8 :=
  unwrapWithCipher p (ExpandedKey.new p v key) ciphertext out

end Modes

/-! ## Byte strings as queues -/

theorem length_bytes (s : Queue v) : s.bytes.length = halfBytes v * (s.b.length + 1) := by
  rw [Queue.bytes, List.length_append, Vector.length_toList, length_joinChunks, Nat.mul_succ,
    Nat.add_comm]

/-- Every string of at least two half blocks, and no remainder, is a queue. -/
theorem exists_queue {data : List UInt8} {k : Nat} (hlen : data.length = halfBytes v * (k + 2)) :
    ∃ s : Queue v, s.b.length = k + 1 ∧ s.bytes = data := by
  have hpos := halfBytes_pos v
  have hle : halfBytes v ≤ data.length := by
    rw [hlen]
    exact Nat.le_mul_of_pos_right _ (by omega)
  have hdrop : (data.drop (halfBytes v)).length = halfBytes v * (k + 1) := by
    rw [List.length_drop, hlen, Nat.mul_succ, Nat.add_sub_cancel]
  have hdvd : halfBytes v ∣ (data.drop (halfBytes v)).length := ⟨k + 1, hdrop⟩
  have hdrop_le : halfBytes v ≤ (data.drop (halfBytes v)).length := by
    rw [hdrop]
    exact Nat.le_mul_of_pos_right _ (Nat.succ_pos k)
  refine ⟨loadUnwrap data hle hdrop_le, ?_, ?_⟩
  · show (chunksExact _ _ (data.drop (halfBytes v))).length = k + 1
    rw [length_chunksExact, hdrop, Nat.mul_div_cancel_left _ hpos]
  · show data.take (halfBytes v) ++ joinChunks (chunksExact _ _ (data.drop (halfBytes v))) = data
    rw [joinChunks_chunksExact _ hdvd, List.take_append_drop]

theorem headChunk_bytes (bigB : Half v) (rest : List UInt8)
    (h : halfBytes v ≤ (bigB.toList ++ rest).length) :
    headChunk (halfBytes v) (bigB.toList ++ rest) h = bigB := by
  refine Vector.toList_inj.mp ?_
  show (bigB.toList ++ rest).take (halfBytes v) = bigB.toList
  exact List.take_left' bigB.length_toList

theorem drop_bytes (bigB : Half v) (rest : List UInt8) :
    (bigB.toList ++ rest).drop (halfBytes v) = rest :=
  List.drop_left' bigB.length_toList

/-- Loading a queue's bytes gives the queue. -/
theorem loadUnwrap_bytes (s : Queue v) (h : halfBytes v ≤ s.bytes.length)
    (hdrop : halfBytes v ≤ (s.bytes.drop (halfBytes v)).length) :
    loadUnwrap s.bytes h hdrop = s := by
  refine Queue.ext_of ?_ ?_
  · exact headChunk_bytes s.bigB (joinChunks s.b) h
  · show chunksExact _ _ (s.bytes.drop (halfBytes v)) = s.b
    rw [Queue.bytes, drop_bytes, chunksExact_joinChunks]

/-- The queue with the checksum block after `filled`. -/
def checked (bigB : Half v) (filled : List (Half v)) : Queue v where
  bigB := bigB
  b := filled ++ List.replicate 2 (Vector.replicate (halfBytes v) 0)
  nonempty := by simp

/-- `wrap` loads the plaintext halves in front of the checksum block. -/
theorem loadWrap_eq_checked (bigB : Half v) {filled : List (Half v)} {n : Nat}
    (hn : filled.length + 3 = n)
    (h : halfBytes v ≤ (bigB.toList ++ joinChunks filled).length) (hlt : 1 < n) :
    loadWrap (bigB.toList ++ joinChunks filled) n h hlt = checked bigB filled := by
  refine Queue.ext_of (headChunk_bytes bigB _ h) ?_
  have htwo : n - 1 - filled.length = 2 := by omega
  simp only [loadWrap, drop_bytes, chunksExact_joinChunks, htwo]
  rfl

/-! ## The two directions -/

section Correct

variable (p : Profile) (cipher : ExpandedKey v)

theorem length_wrapRounds (s : Queue v) (count : Nat) :
    (wrapRounds p cipher s count).b.length = s.b.length := by
  unfold wrapRounds
  generalize List.range' 1 count = is
  induction is generalizing s with
  | nil => rfl
  | cons i is ih =>
    have hpos := List.length_pos_iff.mpr s.nonempty
    rw [List.foldl_cons, ih]
    simp only [wrapStep, List.length_append, List.length_tail, List.length_singleton]
    omega

theorem length_unwrapRounds (s : Queue v) (count : Nat) :
    (unwrapRounds p cipher s count).b.length = s.b.length := by
  unfold unwrapRounds
  generalize (List.range' 1 count).reverse = is
  induction is generalizing s with
  | nil => rfl
  | cons i is ih =>
    have hpos := List.length_pos_iff.mpr s.nonempty
    rw [List.foldl_cons, ih]
    simp only [unwrapStep, List.length_cons, List.length_dropLast]
    omega

theorem length_halves (bigB : Half v) {filled : List (Half v)} {r : Nat}
    (hfilled : filled.length + 1 = 2 * r) :
    (bigB.toList ++ joinChunks filled).length = v.blockBytes * r := by
  rw [List.length_append, Vector.length_toList, length_joinChunks, ← halfBytes_mul, ← hfilled,
    Nat.mul_succ, Nat.add_comm]

/-- `wrap` of the halves `bigB`, `filled`. -/
theorem wrapWithCipher_checked (bigB : Half v) {filled : List (Half v)} {r : Nat}
    (hr : 1 ≤ r ∧ r ≤ maxR) (hfilled : filled.length + 1 = 2 * r) {out : List UInt8}
    (hout : out.length = (bigB.toList ++ joinChunks filled).length + v.blockBytes) :
    wrapWithCipher p cipher (bigB.toList ++ joinChunks filled) out
      = (.ok (), (wrapRounds p cipher (checked bigB filled) ((2 * r + 1) * 6)).bytes) := by
  have hlen := length_halves bigB hfilled
  have hvalid := not_wrapRefuses_iff.mpr ⟨⟨r, hr.1, hr.2, hlen⟩, hout⟩
  have hdiv : (bigB.toList ++ joinChunks filled).length / v.blockBytes = r := by
    rw [hlen, Nat.mul_div_cancel_left r (blockBytes_pos v)]
  rw [wrapWithCipher, dif_neg hvalid]
  simp only [hdiv]
  rw [loadWrap_eq_checked bigB (by omega), show 2 * (r + 1) - 1 = 2 * r + 1 by omega]

/-- `unwrap` of a queue's bytes. -/
theorem unwrapWithCipher_bytes {s : Queue v} {r : Nat} (hr : 1 ≤ r ∧ r ≤ maxR)
    (hs : s.b.length = 2 * r + 1) {out : List UInt8}
    (hout : out.length + v.blockBytes = s.bytes.length) :
    unwrapWithCipher p cipher s.bytes out
      = let t := unwrapRounds p cipher s ((2 * r + 1) * 6)
        let zero := Vector.replicate (halfBytes v) 0
        if t.b[2 * r - 1]? = some zero ∧ t.b[2 * r]? = some zero then
          (.ok (), t.bigB.toList ++ joinChunks (t.b.take (2 * r - 1)))
        else (.error .checksumMismatch, out) := by
  have hlen : s.bytes.length = v.blockBytes * (r + 1) := by
    rw [length_bytes, hs, ← halfBytes_mul, Nat.mul_succ 2]
  have hvalid := not_unwrapRefuses_iff.mpr
    ⟨⟨r + 1, Nat.succ_le_succ hr.1, Nat.succ_le_succ hr.2, hlen⟩, hout⟩
  have hdiv : s.bytes.length / v.blockBytes - 1 = r := by
    rw [hlen, Nat.mul_div_cancel_left _ (blockBytes_pos v), Nat.add_sub_cancel]
  rw [unwrapWithCipher, dif_neg hvalid]
  simp only [hdiv, loadUnwrap_bytes]
  rw [show 2 * (r + 1) - 1 = 2 * r + 1 by omega, show 2 * (r + 1) - 3 = 2 * r - 1 by omega,
    show 2 * (r + 1) - 2 = 2 * r by omega]

variable {p cipher}

/-- The checksum test finds exactly the queues that end in the checksum block. -/
theorem checksum_iff {t : Queue v} {r : Nat} (hr : 1 ≤ r) (ht : t.b.length = 2 * r + 1) :
    (t.b[2 * r - 1]? = some (Vector.replicate (halfBytes v) 0)
        ∧ t.b[2 * r]? = some (Vector.replicate (halfBytes v) 0))
      ↔ t = checked t.bigB (t.b.take (2 * r - 1)) := by
  constructor
  · rintro ⟨h₁, h₂⟩
    have hdrop : t.b.drop (2 * r - 1) = List.replicate 2 (Vector.replicate (halfBytes v) 0) := by
      obtain ⟨hlt₁, hget₁⟩ := List.getElem?_eq_some_iff.mp h₁
      obtain ⟨hlt₂, hget₂⟩ := List.getElem?_eq_some_iff.mp h₂
      have hnext : 2 * r - 1 + 1 = 2 * r := by omega
      rw [List.drop_eq_getElem_cons hlt₁, hget₁, hnext, List.drop_eq_getElem_cons hlt₂, hget₂,
        List.drop_of_length_le (by omega)]
      rfl
    refine Queue.ext_of rfl ?_
    show t.b = t.b.take (2 * r - 1) ++ List.replicate 2 _
    rw [← hdrop, List.take_append_drop]
  · intro h
    have hlen : (t.b.take (2 * r - 1)).length = 2 * r - 1 := by
      rw [List.length_take]
      omega
    have hb : t.b = t.b.take (2 * r - 1) ++ List.replicate 2 (Vector.replicate (halfBytes v) 0) :=
      congrArg Queue.b h
    rw [hb]
    constructor
    · rw [List.getElem?_append_right (by omega), hlen, Nat.sub_self]
      rfl
    · rw [List.getElem?_append_right (by omega), hlen, show 2 * r - (2 * r - 1) = 1 by omega]
      rfl

/-- The plaintext strings are the halves in front of a checksum block. -/
theorem exists_halves {plaintext : List UInt8} {r : Nat} (hr : 1 ≤ r)
    (hlen : plaintext.length = v.blockBytes * r) :
    ∃ (bigB : Half v) (filled : List (Half v)),
      filled.length + 1 = 2 * r ∧ plaintext = bigB.toList ++ joinChunks filled := by
  obtain ⟨k, rfl⟩ : ∃ k, r = k + 1 := ⟨r - 1, by omega⟩
  rw [← halfBytes_mul, Nat.mul_succ] at hlen
  obtain ⟨s, hs, hbytes⟩ := exists_queue hlen
  exact ⟨s.bigB, s.b, by omega, hbytes.symm⟩

section Inverse

variable (hdec : ∀ block, cipher.decryptBlock p (cipher.encryptBlock p block) = block)
  (henc : ∀ block, cipher.encryptBlock p (cipher.decryptBlock p block) = block)

include hdec in
theorem unwrapRounds_wrapRounds (s : Queue v) (count : Nat) :
    unwrapRounds p cipher (wrapRounds p cipher s count) count = s :=
  foldl_reverse_cancel (unwrapStep_wrapStep hdec) (List.range' 1 count) s

include henc in
theorem wrapRounds_unwrapRounds (s : Queue v) (count : Nat) :
    wrapRounds p cipher (unwrapRounds p cipher s count) count = s := by
  have h := foldl_reverse_cancel (wrapStep_unwrapStep henc) (List.range' 1 count).reverse s
  rwa [List.reverse_reverse] at h

include hdec in
/-- What is wrapped unwraps. -/
theorem unwrapWithCipher_wrapWithCipher {plaintext out : List UInt8}
    (hwhole : WholeBlocks v 1 maxR plaintext.length)
    (hout : out.length = plaintext.length + v.blockBytes) :
    ∃ ciphertext, wrapWithCipher p cipher plaintext out = (.ok (), ciphertext)
      ∧ ciphertext.length = plaintext.length + v.blockBytes
      ∧ ∀ buf, buf.length = plaintext.length →
          unwrapWithCipher p cipher ciphertext buf = (.ok (), plaintext) := by
  obtain ⟨r, hlo, hhi, hlen⟩ := hwhole
  obtain ⟨bigB, filled, hfilled, rfl⟩ := exists_halves hlo hlen
  have hstart : (checked bigB filled).b.length = 2 * r + 1 := by
    show (filled ++ List.replicate 2 _).length = _
    rw [List.length_append, List.length_replicate]
    omega
  have hrounds := (length_wrapRounds p cipher (checked bigB filled) ((2 * r + 1) * 6)).trans hstart
  have hbytes : (wrapRounds p cipher (checked bigB filled) ((2 * r + 1) * 6)).bytes.length
      = (bigB.toList ++ joinChunks filled).length + v.blockBytes := by
    rw [length_bytes, hrounds, hlen, ← Nat.mul_succ, ← halfBytes_mul, Nat.mul_succ 2]
  refine ⟨_, wrapWithCipher_checked p cipher bigB ⟨hlo, hhi⟩ hfilled hout, hbytes, ?_⟩
  intro buf hbuf
  have htake : (checked bigB filled).b.take (2 * r - 1) = filled := List.take_left' (by omega)
  have hsum := (checksum_iff (t := checked bigB filled) hlo hstart).mpr (by rw [htake]; rfl)
  rw [unwrapWithCipher_bytes p cipher ⟨hlo, hhi⟩ hrounds (by rw [hbytes, hbuf])]
  simp only [unwrapRounds_wrapRounds hdec]
  rw [if_pos hsum, htake]
  rfl

/-- `wrap` succeeds only on lengths it does not refuse. -/
theorem not_wrapRefuses_of_ok {plaintext out ciphertext : List UInt8}
    (h : wrapWithCipher p cipher plaintext out = (.ok (), ciphertext)) :
    ¬WrapRefuses v plaintext out := by
  intro hrefuses
  rw [wrapWithCipher, dif_pos hrefuses] at h
  cases h

include hdec in
/-- Whatever `wrap` produces, `unwrap` takes back. -/
theorem unwrapWithCipher_of_wrapWithCipher {plaintext out buf ciphertext : List UInt8}
    (hwrap : wrapWithCipher p cipher plaintext out = (.ok (), ciphertext))
    (hbuf : buf.length + v.blockBytes = ciphertext.length) :
    unwrapWithCipher p cipher ciphertext buf = (.ok (), plaintext) := by
  obtain ⟨hwhole, hout⟩ := not_wrapRefuses_iff.mp (not_wrapRefuses_of_ok hwrap)
  obtain ⟨c, hc, hlen, hunwrap⟩ := unwrapWithCipher_wrapWithCipher hdec hwhole hout
  obtain rfl : c = ciphertext := (Prod.mk.inj (hc.symm.trans hwrap)).2
  exact hunwrap buf (by omega)

include hdec henc in
/-- What unwraps was wrapped, and what does not leaves the buffer. -/
theorem unwrapWithCipher_eq_ok_iff {ciphertext out buf : List UInt8}
    (hwhole : WholeBlocks v 2 (maxR + 1) ciphertext.length)
    (hout : out.length + v.blockBytes = ciphertext.length) (hbuf : buf.length = ciphertext.length) :
    (∀ plaintext, unwrapWithCipher p cipher ciphertext out = (.ok (), plaintext)
        ↔ wrapWithCipher p cipher plaintext buf = (.ok (), ciphertext))
      ∧ ((∀ plaintext, wrapWithCipher p cipher plaintext buf ≠ (.ok (), ciphertext)) →
          unwrapWithCipher p cipher ciphertext out = (.error .checksumMismatch, out)) := by
  obtain ⟨r', hlo, hhi, hlen⟩ := hwhole
  obtain ⟨r, rfl⟩ : ∃ r, r' = r + 1 := ⟨r' - 1, by omega⟩
  have hr : 1 ≤ r ∧ r ≤ maxR := by omega
  rw [← halfBytes_mul] at hlen
  obtain ⟨s, hs, rfl⟩ := exists_queue (k := 2 * r) hlen
  have hback (plaintext : List UInt8)
      (hwrap : wrapWithCipher p cipher plaintext buf = (.ok (), s.bytes)) :
      unwrapWithCipher p cipher s.bytes out = (.ok (), plaintext) :=
    unwrapWithCipher_of_wrapWithCipher hdec hwrap hout
  have hunwrap := unwrapWithCipher_bytes p cipher hr hs hout
  have hrounds := (length_unwrapRounds p cipher s ((2 * r + 1) * 6)).trans hs
  have hinv := wrapRounds_unwrapRounds henc s ((2 * r + 1) * 6)
  generalize unwrapRounds p cipher s ((2 * r + 1) * 6) = t at hunwrap hrounds hinv
  by_cases hsum : t.b[2 * r - 1]? = some (Vector.replicate (halfBytes v) 0)
      ∧ t.b[2 * r]? = some (Vector.replicate (halfBytes v) 0)
  · -- the recovered halves wrap to the ciphertext
    have ht := (checksum_iff hr.1 hrounds).mp hsum
    have htake : (t.b.take (2 * r - 1)).length + 1 = 2 * r := by
      rw [List.length_take]
      omega
    have hlength : buf.length
        = (t.bigB.toList ++ joinChunks (t.b.take (2 * r - 1))).length + v.blockBytes := by
      rw [length_halves t.bigB htake, hbuf, hlen, halfBytes_mul, Nat.mul_succ]
    have hwrap := wrapWithCipher_checked p cipher t.bigB hr htake hlength
    rw [← ht, hinv] at hwrap
    simp only [if_pos hsum] at hunwrap
    refine ⟨fun plaintext => ⟨fun h => ?_, hback plaintext⟩, fun hnone => absurd hwrap (hnone _)⟩
    obtain rfl := (Prod.mk.inj (hunwrap.symm.trans h)).2
    exact hwrap
  · simp only [if_neg hsum] at hunwrap
    refine ⟨fun plaintext => ⟨fun h => ?_, hback plaintext⟩, fun _ => hunwrap⟩
    rw [hunwrap] at h
    cases h

end Inverse

end Correct

theorem wrapWithCipher_of_refuses (p : Profile) (cipher : ExpandedKey v)
    {plaintext out : List UInt8}
    (h : WrapRefuses v plaintext out) :
    wrapWithCipher p cipher plaintext out = (.error .invalidLength, out) := by
  rw [wrapWithCipher, dif_pos h]

theorem unwrapWithCipher_of_refuses (p : Profile) (cipher : ExpandedKey v)
    {ciphertext out : List UInt8} (h : UnwrapRefuses v ciphertext out) :
    unwrapWithCipher p cipher ciphertext out = (.error .invalidLength, out) := by
  rw [unwrapWithCipher, dif_pos h]

/-- **Key wrap is a bijection** from the strings of 1 to 20 blocks onto the strings of
one block more that carry a zero checksum: unwrapping takes back what was wrapped and
nothing else, and what it does not accept leaves the buffer. Every other length, of
input or output, is refused on both sides. -/
theorem kw_bijection (p : Profile) (v : Variant) (key : Vector UInt8 v.keyBytes) :
    (∀ plaintext out buf, WholeBlocks v 1 20 plaintext.length →
        out.length = plaintext.length + v.blockBytes → buf.length = plaintext.length →
        ∃ ciphertext, wrap p v key plaintext out = (.ok (), ciphertext)
          ∧ ciphertext.length = plaintext.length + v.blockBytes
          ∧ unwrap p v key ciphertext buf = (.ok (), plaintext))
    ∧ (∀ ciphertext out buf, WholeBlocks v 2 21 ciphertext.length →
        out.length + v.blockBytes = ciphertext.length → buf.length = ciphertext.length →
        (∀ plaintext, unwrap p v key ciphertext out = (.ok (), plaintext)
            ↔ wrap p v key plaintext buf = (.ok (), ciphertext))
          ∧ ((∀ plaintext, wrap p v key plaintext buf ≠ (.ok (), ciphertext)) →
              unwrap p v key ciphertext out = (.error .checksumMismatch, out)))
    ∧ (∀ plaintext out, ¬(WholeBlocks v 1 20 plaintext.length
          ∧ out.length = plaintext.length + v.blockBytes) →
        wrap p v key plaintext out = (.error .invalidLength, out))
    ∧ (∀ ciphertext out, ¬(WholeBlocks v 2 21 ciphertext.length
          ∧ out.length + v.blockBytes = ciphertext.length) →
        unwrap p v key ciphertext out = (.error .invalidLength, out)) := by
  have hdec := decryptBlock_encryptBlock p v key
  have henc := encryptBlock_decryptBlock p v key
  refine ⟨?_, ?_, ?_, ?_⟩
  · intro plaintext out buf hwhole hout hbuf
    obtain ⟨c, hc, hlen, hunwrap⟩ := unwrapWithCipher_wrapWithCipher hdec hwhole hout
    exact ⟨c, hc, hlen, hunwrap buf hbuf⟩
  · intro ciphertext out buf hwhole hout hbuf
    exact unwrapWithCipher_eq_ok_iff hdec henc hwhole hout hbuf
  · intro plaintext out h
    refine wrapWithCipher_of_refuses p _ (Decidable.not_not.mp fun hvalid => h ?_)
    exact not_wrapRefuses_iff.mp hvalid
  · intro ciphertext out h
    refine unwrapWithCipher_of_refuses p _ (Decidable.not_not.mp fun hvalid => h ?_)
    exact not_unwrapRefuses_iff.mp hvalid

end UaCrypt.Hazmat.KalynaKw

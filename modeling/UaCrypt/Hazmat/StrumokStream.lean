import UaCrypt.Hazmat.Strumok
import UaCrypt.Lib.ByteStream
import UaCrypt.Lib.Chunks

/-!
# Strumok's keystream under any chunking (`hazmat/strumok.rs`)

The standard's cipher shifts a sixteen-word register one place a clock (`Lfsr`). The
crate keeps the words in place and moves a head instead, clocks sixteen times at once
from `head = 0` where it can, and buffers the unused bytes of a word. All three are
scheduling: a core stands for the bytes still buffered followed by the words of the
shift register it represents (`Core.stream`), and every phase of `apply_keystream`
consumes the front of that stream.

- `toLfsr_nextStep`, `strm_eq`: the ring refines the shift register; `toLfsr_rotate`:
  turning the ring to `head = 0` changes nothing logically.
- `nextBlock_eq`: sixteen literal-index steps are sixteen clocks.
- `call_streams`: the three phases together.
-/

namespace UaCrypt.Hazmat.Strumok

open LittleEndian ByteTable Tables ColumnState ByteStream Keystream

/-! ## The shift register -/

/-- The standard's state: `S[0]` to `S[15]` and the two FSM registers. -/
@[ext] structure Lfsr where
  s : Vector UInt64 16
  r0 : UInt64
  r1 : UInt64

namespace Lfsr

/-- What enters at `S[15]`. -/
def feedback (l : Lfsr) (initMode : Bool) : UInt64 :=
  let f := mulAlpha l.s[0] ^^^ mulAlphaInv l.s[11] ^^^ l.s[13]
  if initMode then f ^^^ fsm l.s[15] l.r0 l.r1 else f

/-- `Next`: every word moves down one place. -/
def next (p : Profile) (initMode : Bool) (l : Lfsr) : Lfsr where
  s := Vector.ofFn fun k : Fin 16 => if k = 15 then l.feedback initMode else l.s[k + 1]
  r0 := l.r1 + l.s[13]
  r1 := tFunction p l.r0

/-- `Strm`. -/
def strm (l : Lfsr) : UInt64 := fsm l.s[15] l.r0 l.r1 ^^^ l.s[0]

end Lfsr

namespace Registers

/-- The logical contents of the ring: `S[k]` lives at physical index `(head + k) & 15`. -/
def logical (g : Registers) : Vector UInt64 16 :=
  Vector.ofFn fun k : Fin 16 =>
    g.s.get ⟨(g.head.val + k.val) &&& 15, Nat.lt_succ_of_le Nat.and_le_right⟩

/-- The shift register the ring stands for. -/
def toLfsr (g : Registers) : Lfsr := ⟨g.logical, g.r0, g.r1⟩

theorem index_congr (s : Vector UInt64 16) {i j : Fin 16} (h : i = j) : s[i] = s[j] := by
  subst h
  rfl

theorem getElem_logical (g : Registers) (k : Fin 16) : g.logical[k] = g.s[g.head + k] := by
  have hidx : (g.head.val + k.val) &&& 15 = (g.head + k).val :=
    Nat.and_two_pow_sub_one_eq_mod (g.head.val + k.val) 4
  simp [logical, hidx]
  rfl

theorem getElem_logical_zero (g : Registers) : g.logical[0] = g.s[g.head] := by
  have h : g.logical[0] = g.s[g.head + 0] := getElem_logical g 0
  exact h.trans (index_congr g.s (Fin.add_zero g.head))

theorem feedback_toLfsr (g : Registers) (initMode : Bool) :
    (if initMode then mulAlpha g.s[g.head] ^^^ mulAlphaInv g.s[g.head + 11] ^^^ g.s[g.head + 13]
        ^^^ fsm g.s[g.head + 15] g.r0 g.r1
      else mulAlpha g.s[g.head] ^^^ mulAlphaInv g.s[g.head + 11] ^^^ g.s[g.head + 13])
      = g.toLfsr.feedback initMode := by
  rw [← getElem_logical_zero, ← getElem_logical, ← getElem_logical, ← getElem_logical]
  rfl

/-- Clocking the ring clocks the shift register. -/
theorem toLfsr_nextStep (p : Profile) (g : Registers) (initMode : Bool) :
    (nextStep p g initMode).toLfsr = g.toLfsr.next p initMode := by
  refine Lfsr.ext (Vector.ext fun i hi => ?_) ?_ rfl
  · -- only the slot of the old `S[0]`, the new `S[15]`, is written
    obtain ⟨k, rfl⟩ : ∃ k : Fin 16, k.val = i := ⟨⟨i, hi⟩, rfl⟩
    show (nextStep p g initMode).logical[k] = (g.toLfsr.next p initMode).s[k]
    have hleft : (nextStep p g initMode).logical[k]
        = (g.s.set g.head (g.toLfsr.feedback initMode))[g.head + 1 + k] := by
      rw [getElem_logical, ← feedback_toLfsr]
      rfl
    rw [hleft]
    by_cases hk : k = 15
    · have hself : g.head + 1 + k = g.head := by
        subst hk
        omega
      rw [index_congr _ hself]
      simp [Lfsr.next, hk]
    · have hne : g.head.val ≠ (g.head + 1 + k).val := by
        intro h
        apply hk
        omega
      have hright : (g.toLfsr.next p initMode).s[k] = g.logical[k + 1] := by
        simp [Lfsr.next, hk, toLfsr]
      have hidx : g.head + 1 + k = g.head + (k + 1) := by omega
      rw [hright, getElem_logical]
      exact (Vector.getElem_set_ne _ _ hne).trans (index_congr g.s hidx)
  · show g.r1 + g.s[g.head + 13] = g.r1 + g.logical[13]
    rw [← getElem_logical]
    rfl

theorem strm_eq (g : Registers) : Strumok.strm g = g.toLfsr.strm := by
  rw [Strumok.strm, ← getElem_logical_zero, ← getElem_logical]
  rfl

/-- `s.rotate_left(head); head = 0`. -/
def rotate (g : Registers) : Registers := { g with s := Core.rotateLeft g.s g.head, head := 0 }

theorem logical_rotate (g : Registers) : g.rotate.logical = g.logical := by
  refine Vector.ext fun i hi => ?_
  obtain ⟨k, rfl⟩ : ∃ k : Fin 16, k.val = i := ⟨⟨i, hi⟩, rfl⟩
  show g.rotate.logical[k] = g.logical[k]
  rw [getElem_logical, getElem_logical]
  show (Core.rotateLeft g.s g.head)[0 + k] = g.s[g.head + k]
  have hidx : k + g.head = g.head + k := by omega
  rw [index_congr _ (Fin.zero_add k), ← index_congr _ hidx]
  simp [Core.rotateLeft]

theorem toLfsr_rotate (g : Registers) : g.rotate.toLfsr = g.toLfsr := by
  have hlogical := logical_rotate g
  cases g with
  | mk s head r0 r1 =>
    unfold toLfsr
    rw [hlogical]
    rfl

end Registers

/-! ## Sixteen clocks at once -/

/-- The ring after `k` clocks; irreducible, so that no unification runs the cipher. -/
@[irreducible] def clocks (p : Profile) (g : Registers) (k : Nat) : Registers :=
  (nextStep p · false)^[k] g

theorem clocks_zero (p : Profile) (g : Registers) : clocks p g 0 = g := by
  unfold clocks
  rfl

theorem clocks_succ (p : Profile) (g : Registers) (k : Nat) :
    clocks p g (k + 1) = nextStep p (clocks p g k) false := by
  unfold clocks
  exact Function.iterate_succ_apply' _ k g

theorem head_clocks (p : Profile) {g : Registers} (hhead : g.head = 0) (k : Nat) :
    (clocks p g k).head = Fin.ofNat 16 k := by
  induction k with
  | zero => rw [clocks_zero, hhead, Fin.ofNat_zero]
  | succ k ih =>
    rw [clocks_succ]
    show (clocks p g k).head + 1 = _
    rw [ih]
    simp [Fin.ext_iff, Fin.val_add]

/-- The indices a step reads at `head = k`. -/
def stepIndices (k : Fin 16) : Fin 16 × Fin 16 × Fin 16 × Fin 16 := (k, k + 15, k + 11, k + 13)

/-- The literal indices are those of a clock at each head. -/
theorem blockIndices_eq :
    blockIndices = (List.range 16).map fun k => stepIndices (Fin.ofNat 16 k) := by
  decide

/-- A run in the middle of `next_block`, standing for the ring `g`. -/
def BlockRun.of (g : Registers) (out : Vector UInt64 16) : BlockRun := ⟨g.s, g.r0, g.r1, out⟩

/-- One `step!` is one keystream word and one clock. -/
theorem blockStep_of (p : Profile) (input : Vector UInt64 16) {g : Registers} {k : Fin 16}
    (hhead : g.head = k) (out : Vector UInt64 16) :
    blockStep p input (.of g out) (stepIndices k)
      = .of (nextStep p g false) (out.set k (input[k] ^^^ strm g)) := by
  subst hhead
  simp only [blockStep, stepIndices, BlockRun.of, nextStep, strm, UInt64.xor_assoc]
  rfl

/-- The words a batch writes. -/
def batchWords (p : Profile) (g : Registers) (input : Vector UInt64 16) (k : Nat) :
    Vector UInt64 16 :=
  Vector.ofFn fun j : Fin 16 => if j.val < k then input[j] ^^^ strm (clocks p g j) else 0

theorem foldl_blockStep (p : Profile) {g : Registers} (hhead : g.head = 0)
    (input : Vector UInt64 16) {k : Nat} (hk : k ≤ 16) :
    ((List.range k).map fun k => stepIndices (Fin.ofNat 16 k)).foldl (blockStep p input)
        (.of g (Vector.replicate 16 0))
      = .of (clocks p g k) (batchWords p g input k) := by
  induction k with
  | zero =>
    have hnone : batchWords p g input 0 = Vector.replicate 16 0 := by
      refine Vector.ext fun i hi => ?_
      simp [batchWords]
    rw [hnone, clocks_zero]
    rfl
  | succ k ih =>
    obtain ⟨j, hj⟩ : ∃ j : Fin 16, j = Fin.ofNat 16 k := ⟨_, rfl⟩
    have hval : j.val = k := by
      rw [hj]
      exact Nat.mod_eq_of_lt hk
    have hone : (batchWords p g input k).set j (input[j] ^^^ strm (clocks p g k))
        = batchWords p g input (k + 1) := by
      refine Vector.ext fun i hi => ?_
      rw [Vector.getElem_set]
      simp only [batchWords, Vector.getElem_ofFn, FinIndex.getElem_fin]
      grind
    rw [List.range_succ, List.map_append, List.foldl_append, ih (Nat.le_of_succ_le hk),
      List.map_singleton, List.foldl_cons, List.foldl_nil, ← hj,
      blockStep_of p input ((head_clocks p hhead k).trans hj.symm), hone, clocks_succ]

/-- `next_block` from `head = 0` is sixteen clocks, after which the head is back. -/
theorem nextBlock_eq (p : Profile) {g : Registers} (hhead : g.head = 0)
    (input : Vector UInt64 16) :
    nextBlock p g.s g.r0 g.r1 input
      = .of (clocks p g 16) (Vector.ofFn fun j : Fin 16 => input[j] ^^^ strm (clocks p g j)) := by
  have hall : batchWords p g input 16
      = Vector.ofFn fun j : Fin 16 => input[j] ^^^ strm (clocks p g j) := by
    refine Vector.ext fun i hi => ?_
    simp [batchWords]
  rw [nextBlock, blockIndices_eq, ← hall]
  exact foldl_blockStep p hhead input (Nat.le_refl 16)

/-! ## The stream of a core -/

/-- Keystream word `j` of the shift register, as bytes. -/
def Lfsr.words (p : Profile) (l : Lfsr) (j : Nat) : Vector UInt8 8 :=
  toLeBytes ((Lfsr.next p false)^[j] l).strm

theorem Lfsr.words_succ (p : Profile) (l : Lfsr) :
    (fun j => l.words p (j + 1)) = (l.next p false).words p := by
  funext j
  rw [words, words, Function.iterate_succ_apply]

theorem toLfsr_clocks (p : Profile) (g : Registers) (k : Nat) :
    (clocks p g k).toLfsr = (Lfsr.next p false)^[k] g.toLfsr := by
  induction k with
  | zero => rw [clocks_zero, Function.iterate_zero_apply]
  | succ k ih => rw [clocks_succ, Registers.toLfsr_nextStep, ih, Function.iterate_succ_apply']

theorem wordBytes_pos : 0 < 8 := by decide

/-- The bytes the words of a register give, without end. -/
def Lfsr.stream (p : Profile) (l : Lfsr) : Nat → UInt8 := blockStream (l.words p) wordBytes_pos

theorem Lfsr.stream_eq_prepend (p : Profile) (l : Lfsr) :
    l.stream p = prepend (toLeBytes l.strm).toList ((l.next p false).stream p) := by
  rw [Lfsr.stream, blockStream_eq_prepend, Lfsr.words_succ]
  rfl

/-- Whole words at a time. -/
theorem Lfsr.shift_stream (p : Profile) (l : Lfsr) (k : Nat) :
    shift (l.stream p) (8 * k) = ((Lfsr.next p false)^[k] l).stream p := by
  induction k generalizing l with
  | zero => exact shift_zero _
  | succ k ih =>
    have hone : shift (l.stream p) 8 = (l.next p false).stream p := by
      rw [Lfsr.stream_eq_prepend, shift_prepend _ (by simp), List.drop_of_length_le (by simp),
        prepend_nil]
    rw [Nat.mul_succ, Nat.add_comm, ← shift_shift, hone, ih, Function.iterate_succ_apply]

namespace Core

variable (p : Profile)

/-- What is left of the buffered word, then the words to come. -/
def stream (core : Core) : Nat → UInt8 :=
  prepend (core.block.toList.drop core.blockPos) (core.g.toLfsr.stream p)

/-- With nothing buffered only the register counts. -/
theorem stream_of_used {core : Core} (h : core.blockPos = 8) :
    core.stream p = core.g.toLfsr.stream p := by
  rw [stream, h, List.drop_of_length_le (by simp), prepend_nil]

theorem drop_block {core : Core} (h : core.blockPos < 8) :
    core.block.toList.drop core.blockPos
      = core.block[core.blockPos] :: core.block.toList.drop (core.blockPos + 1) := by
  rw [List.drop_eq_getElem_cons (by simpa using h), Vector.getElem_toList]

/-- Taking one buffered byte. -/
theorem stream_zero {core : Core} (h : core.blockPos < 8) :
    core.stream p 0 = core.block[core.blockPos] := by
  rw [stream, drop_block h, prepend_cons_zero]

theorem shift_stream_one {core : Core} (h : core.blockPos < 8) :
    shift (core.stream p) 1 = (core.advance h).stream p := by
  rw [stream, drop_block h, shift_prepend_cons]
  rfl

/-- A refill takes the next word off the register. -/
theorem stream_refill (core : Core) : (refill p core).val.stream p = core.stream p := by
  unfold refill
  split
  · rename_i h
    rw [stream_of_used p h, Lfsr.stream_eq_prepend, stream]
    simp only [List.drop_zero, Registers.strm_eq, Registers.toLfsr_nextStep]
  · rfl

/-! ## The phases -/

theorem consumes_byte {core : Core} (h : core.blockPos < 8) (b : UInt8) (data : List UInt8) :
    Consumes (stream p) core (b :: data)
      (core.advance h, [b ^^^ core.block[core.blockPos]], data) := by
  refine ⟨[b], rfl, ?_, (shift_stream_one p h).symm⟩
  rw [xorWith_cons, stream_zero p h]
  rfl

theorem drain_consumes (core : Core) (data : List UInt8) :
    Consumes (stream p) core data (drain core data) := by
  induction data generalizing core with
  | nil => exact .nothing core []
  | cons b data ih =>
    unfold drain
    split
    · rename_i h
      exact (consumes_byte p h b data).trans (ih (core.advance h))
    · exact .nothing core (b :: data)

theorem remainder_consumes (core : Core) (data : List UInt8) :
    Consumes (stream p) core data ((remainder p core data).1, (remainder p core data).2, []) := by
  induction data generalizing core with
  | nil => exact .nothing core []
  | cons b data ih =>
    have hbyte := consumes_byte p (refill p core).2 b data
    have h := hbyte.trans (ih ((refill p core).val.advance (refill p core).2))
    exact h.of_stream_eq (stream_refill p core)

/-- Words XORed and written back are the bytes XORed. -/
theorem flatMap_toLeBytes_xor (chunk : Vector UInt8 128) (word : Nat → UInt64) :
    (Vector.ofFn fun j : Fin 16 => (inputWords chunk)[j] ^^^ word j).toList.flatMap
        (fun w => (toLeBytes w).toList)
      = xorWith (blockStream (fun j => toLeBytes (word j)) (by decide)) chunk.toList := by
  have hbytes : xorWith (blockStream (fun j => toLeBytes (word j)) (by decide)) chunk.toList
      = List.ofFn fun i : Fin (16 * 8) =>
          chunk[i] ^^^ (toLeBytes (word (i.val / 8))).get ⟨i.val % 8, by omega⟩ := by
    refine List.ext_getElem ?_ fun i h₁ h₂ => ?_
    · rw [length_xorWith, Vector.length_toList, List.length_ofFn]
    · simp only [xorWith, blockStream, List.getElem_mapIdx, Vector.getElem_toList,
        List.getElem_ofFn, FinIndex.getElem_fin]
  have hword (j : Fin 16) : (toLeBytes ((inputWords chunk)[j] ^^^ word j)).toList
      = List.ofFn fun b : Fin 8 => chunk[j.val * 8 + b.val] ^^^ (toLeBytes (word j)).get b := by
    have hin : toLeBytes (inputWords chunk)[j] = slice chunk (j.val * 8) 8 (by omega) := by
      simp only [inputWords, FinIndex.getElem_fin, Vector.getElem_ofFn, wordLe, toLeBytes_fromLeBytes]
    rw [toLeBytes_xor, hin]
    refine List.ext_getElem ?_ fun i h₁ h₂ => ?_
    · rw [Vector.length_toList, List.length_ofFn]
    · simp only [Vector.getElem_toList, Vector.getElem_zipWith, slice, Vector.getElem_ofFn,
        List.getElem_ofFn]
      rfl
  rw [hbytes, List.ofFn_mul, List.flatMap, Vector.toList_ofFn, List.map_ofFn]
  congr 2
  funext j
  refine (hword j).trans ?_
  congr 1
  funext b
  have hdiv : (j.val * 8 + b.val) / 8 = j.val := by omega
  have hmod : (j.val * 8 + b.val) % 8 = b.val := by omega
  simp only [hdiv, hmod]
  rfl

/-- What a batch leaves of the core. -/
def afterBatch (core : Core) : Core := { core with g := clocks p core.g 16 }

/-- What a batch writes. -/
def batchBytes (core : Core) (chunk : Vector UInt8 128) : List UInt8 :=
  (Vector.ofFn fun j : Fin 16 => (inputWords chunk)[j] ^^^ strm (clocks p core.g j)).toList.flatMap
    fun w => (toLeBytes w).toList

theorem batchBytes_eq (core : Core) (chunk : Vector UInt8 128) :
    batchBytes p core chunk = xorWith (core.g.toLfsr.stream p) chunk.toList := by
  have hwords : (fun j => toLeBytes (strm (clocks p core.g j))) = core.g.toLfsr.words p := by
    funext j
    rw [Registers.strm_eq, toLfsr_clocks]
    rfl
  rw [batchBytes, flatMap_toLeBytes_xor chunk fun j => strm (clocks p core.g j), hwords,
    Lfsr.stream]

/-- One batch is sixteen words of the stream. -/
theorem consumes_batch {core : Core} (hpos : core.blockPos = 8) (chunk : Vector UInt8 128)
    (rest : List UInt8) :
    Consumes (stream p) core (chunk.toList ++ rest)
      (core.afterBatch p, batchBytes p core chunk, rest) := by
  have hafter : (core.afterBatch p).blockPos = 8 := hpos
  have hwords := Lfsr.shift_stream p core.g.toLfsr 16
  rw [← toLfsr_clocks] at hwords
  refine ⟨chunk.toList, rfl, ?_, ?_⟩
  · dsimp only
    rw [batchBytes_eq, stream_of_used p hpos]
  · dsimp only
    rw [stream_of_used p hafter, stream_of_used p hpos, Vector.length_toList, hwords, afterBatch]

/-- The iteration of `bulk`'s loop, through `next_block`. -/
theorem bulkLoop_eq {core : Core} (hhead : core.g.head = 0) {data : List UInt8}
    (h : 128 ≤ data.length) :
    bulkLoop p core data
      = let result := bulkLoop p (core.afterBatch p) (data.drop 128)
        (result.1, batchBytes p core (Chunks.headChunk 128 data h) ++ result.2.1, result.2.2) := by
  have hcore : ({ core with g := { core.g with
      s := (clocks p core.g 16).s, r0 := (clocks p core.g 16).r0,
      r1 := (clocks p core.g 16).r1 } } : Core) = core.afterBatch p := by
    have hback : core.g.head = (clocks p core.g 16).head := by
      rw [head_clocks p hhead, hhead]
      rfl
    simp only [afterBatch, hback]
  rw [bulkLoop, dif_pos h]
  simp only [nextBlock_eq p hhead, BlockRun.of, hcore]
  rfl

theorem bulkLoop_consumes {core : Core} (hpos : core.blockPos = 8) (hhead : core.g.head = 0)
    (data : List UInt8) : Consumes (stream p) core data (bulkLoop p core data) := by
  induction hlen : data.length using Nat.strongRecOn generalizing core data with
  | ind m ih =>
    by_cases h : 128 ≤ data.length
    · have hback : (core.afterBatch p).g.head = 0 := head_clocks p hhead 16
      have hrest := ih (data.drop 128).length (by rw [List.length_drop]; omega)
        (show (core.afterBatch p).blockPos = 8 from hpos) hback (data.drop 128) rfl
      have hbatch := consumes_batch p hpos (Chunks.headChunk 128 data h) (data.drop 128)
      rw [show (Chunks.headChunk 128 data h).toList ++ data.drop 128 = data from
        List.take_append_drop 128 data] at hbatch
      rw [bulkLoop_eq p hhead h]
      exact hbatch.trans hrest
    · rw [bulkLoop, dif_neg h]
      exact .nothing core data

/-- The rotation before the loop changes nothing the stream sees. -/
theorem bulk_consumes (core : Core) (data : List UInt8) :
    Consumes (stream p) core data (bulk p core data) := by
  unfold bulk
  split
  · exact .nothing core data
  · rename_i h
    rw [not_or, not_not] at h
    split
    · have hstream : ({ core with g := core.g.rotate } : Core).stream p = core.stream p := by
        rw [stream, stream, Registers.toLfsr_rotate]
      have hpos : ({ core with g := core.g.rotate } : Core).blockPos = 8 := h.1
      exact (bulkLoop_consumes p hpos rfl data).of_stream_eq hstream
    · rename_i hhead
      exact bulkLoop_consumes p h.1 (not_not.mp hhead) data

/-! ## The three phases together -/

/-- `apply_keystream` as a call of a run; it cannot fail. -/
def call (core : Core) (data : List UInt8) : Option (Core × List UInt8) :=
  some (applyKeystream p core data)

/-- `apply_keystream` uses the front of the core's stream, however its phases divide
the data. -/
theorem call_streams : Streams (call p) (stream p) fun _ => True := by
  intro core data _
  have hdrain := drain_consumes p core data
  have hbulk := bulk_consumes p (drain core data).1 (drain core data).2.2
  have hrest := remainder_consumes p (bulk p (drain core data).1 (drain core data).2.2).1
    (bulk p (drain core data).1 (drain core data).2.2).2.2
  have hall : Consumes (stream p) core data
      ((applyKeystream p core data).1, (applyKeystream p core data).2, []) :=
    (hdrain.trans hbulk).trans hrest
  obtain ⟨hwritten, hstream⟩ := hall.all
  exact ⟨(applyKeystream p core data).1, congrArg some (Prod.ext rfl hwritten), trivial, hstream⟩

/-- The byte-at-a-time reference of the crate's tests: `strm` and `next_step` whenever
eight bytes are used up. -/
def scalarReferenceApplyKeystream (core : Core) (data : List UInt8) : Core × List UInt8 :=
  data.foldl (fun run byte =>
    let ⟨core, h⟩ := refill p run.1
    (core.advance h, run.2 ++ [byte ^^^ core.block[core.blockPos]])) (core, [])

/-- The reference is phase 3 from the start. -/
theorem scalarReferenceApplyKeystream_eq (core : Core) (data : List UInt8) :
    scalarReferenceApplyKeystream p core data = remainder p core data := by
  have hrun : ∀ out, data.foldl (fun (run : Core × List UInt8) byte =>
      let ⟨core, h⟩ := refill p run.1
      (core.advance h, run.2 ++ [byte ^^^ core.block[core.blockPos]])) (core, out)
        = ((remainder p core data).1, out ++ (remainder p core data).2) := by
    induction data generalizing core with
    | nil =>
      intro out
      rw [remainder, List.append_nil]
      rfl
    | cons b data ih =>
      intro out
      rw [List.foldl_cons, ih, List.append_assoc]
      rfl
  exact hrun []

/-- Any split of the data into calls writes what the reference writes over the whole, a
second pass over any split of the output restores the data, and in every state reached
the buffer position and the head are in range and turning the ring to `head = 0` keeps
the logical register. -/
theorem applyKeystream_eq_scalarReference (size : KeySize) (key : Vector UInt8 size.bytes)
    (iv : Vector UInt8 32) (calls : List (List UInt8)) :
    let fresh := Core.new p size key iv
    ∃ core outs, runCalls (call p) fresh calls = some (core, outs)
      ∧ outs.flatten = (scalarReferenceApplyKeystream p fresh calls.flatten).2
      ∧ (∀ calls', calls'.flatten = outs.flatten →
          ∃ core' outs', runCalls (call p) fresh calls' = some (core', outs')
            ∧ outs'.flatten = calls.flatten)
      ∧ core.blockPos ≤ 8 ∧ core.g.head.val < 16
      ∧ core.g.rotate.head = 0 ∧ core.g.rotate.logical = core.g.logical := by
  intro fresh
  obtain ⟨core, outs, hrun, hout, -, -⟩ := (call_streams p).runCalls (s := fresh) trivial calls
  refine ⟨core, outs, hrun, ?_, ?_, core.blockPos_le, core.g.head.isLt, rfl,
    core.g.logical_rotate⟩
  · obtain ⟨hwritten, -⟩ := (remainder_consumes p fresh calls.flatten).all
    rw [hout, scalarReferenceApplyKeystream_eq, hwritten]
  · intro calls' hcalls
    exact (call_streams p).runCalls_runCalls trivial (hcalls.trans hout)

end Core

end UaCrypt.Hazmat.Strumok

import UaCrypt.Hazmat.ColumnState
import UaCrypt.Hazmat.StrumokData

/-!
# The Strumok stream cipher (`hazmat/strumok.rs`)

The 16-word LFSR kept as a ring buffer, the two-register FSM, and the three-phase
`apply_keystream`. `data` is processed in place in the source; here each phase
returns what it wrote and the part of `data` it left to the next one.

- `tFunction`: eight combined tables, or S-box and MDS on demand.
- `nextStep`, `strm`: one clock and one keystream word.
- `nextBlock`: sixteen clocks with literal indices, fused with the input XOR.
- `Core.new`, `Core.drain`, `Core.bulk`, `Core.remainder`, `Core.applyKeystream`.
-/

namespace UaCrypt.Hazmat.Strumok

open LittleEndian ByteTable Tables ColumnState

/-- `mul_alpha`: `(w << 8) xor MUL_ALPHA[top byte]`. -/
def mulAlpha (w : UInt64) : UInt64 := (w <<< 8) ^^^ lookup mulAlphaTable (w >>> 56).toUInt8

/-- `mul_alpha_inv`: `(w >> 8) xor MUL_ALPHA_INV[bottom byte]`. -/
def mulAlphaInv (w : UInt64) : UInt64 := (w >>> 8) ^^^ lookup mulAlphaInvTable (w &&& 0xff).toUInt8

/-- The nonlinear substitution `T`. -/
def tFunction (p : Profile) (w : UInt64) : UInt64 :=
  match p with
  | .fused =>
    lookup t0 (w &&& 0xff).toUInt8
      ^^^ lookup t1 ((w >>> 8) &&& 0xff).toUInt8
      ^^^ lookup t2 ((w >>> 16) &&& 0xff).toUInt8
      ^^^ lookup t3 ((w >>> 24) &&& 0xff).toUInt8
      ^^^ lookup t4 ((w >>> 32) &&& 0xff).toUInt8
      ^^^ lookup t5 ((w >>> 40) &&& 0xff).toUInt8
      ^^^ lookup t6 ((w >>> 48) &&& 0xff).toUInt8
      ^^^ lookup t7 ((w >>> 56) &&& 0xff).toUInt8
  | .smallTables =>
    let column := toLeBytes w
    let column := Vector.ofFn fun row : Fin 8 => substitute sboxes row column[row]
    fromLeBytes (getElem (applyForwardMatrix .smallTables #v[column]) 0 Nat.one_pos)

/-- `FSM(x, y, z) = (x +64 y) xor z`. -/
def fsm (x y z : UInt64) : UInt64 := (x + y) ^^^ z

/-- Word `index` of a byte buffer. -/
def wordLe {len : Nat} (bytes : Vector UInt8 len) (index : Nat) (h : index * 8 + 8 ≤ len) :
    UInt64 :=
  fromLeBytes (slice bytes (index * 8) 8 h)

/-- The two key sizes. -/
inductive KeySize where
  | k32
  | k64
  deriving DecidableEq, Repr

def KeySize.bytes : KeySize → Nat
  | .k32 => 32
  | .k64 => 64

/-- `Init(K, IV)`: the key and IV words to the register. -/
def initState (size : KeySize) (key : Vector UInt8 size.bytes) (iv : Vector UInt8 32) :
    Vector UInt64 16 :=
  let ivw (i : Fin 4) := wordLe iv i (by omega)
  match size with
  | .k32 =>
    let kw (i : Fin 4) := wordLe key i (by rw [KeySize.bytes]; omega)
    #v[kw 3 ^^^ ivw 0, kw 2, kw 1 ^^^ ivw 1, kw 0 ^^^ ivw 2,
      kw 3, kw 2 ^^^ ivw 3, ~~~(kw 1), ~~~(kw 0),
      kw 3, kw 2, ~~~(kw 1), kw 0,
      kw 3, ~~~(kw 2), kw 1, ~~~(kw 0)]
  | .k64 =>
    let kw (i : Fin 8) := wordLe key i (by rw [KeySize.bytes]; omega)
    #v[kw 7 ^^^ ivw 0, kw 6, kw 5, kw 4 ^^^ ivw 1,
      kw 3, kw 2 ^^^ ivw 2, kw 1, ~~~(kw 0),
      kw 4 ^^^ ivw 3, ~~~(kw 6), kw 5, ~~~(kw 7),
      kw 3, kw 2, ~~~(kw 1), kw 0]

/-! ## Clocking -/

/-- The register as a ring with its head, and the FSM. -/
structure Registers where
  s : Vector UInt64 16
  /-- Physical index of logical `S[0]`, always taken `& 15`. -/
  head : Fin 16
  r0 : UInt64
  r1 : UInt64

/-- `Next(S_i, mode)`. -/
def nextStep (p : Profile) (g : Registers) (initMode : Bool) : Registers :=
  let s0 := g.s[g.head]
  let s11 := g.s[g.head + 11]
  let s13 := g.s[g.head + 13]
  let s15 := g.s[g.head + 15]
  let newR1 := tFunction p g.r0
  let newR0 := g.r1 + s13
  let feedback := mulAlpha s0 ^^^ mulAlphaInv s11 ^^^ s13
  let feedback := if initMode then feedback ^^^ fsm s15 g.r0 g.r1 else feedback
  { s := g.s.set g.head feedback, head := g.head + 1, r0 := newR0, r1 := newR1 }

/-- `Strm(S_i)`: one keystream word. -/
def strm (g : Registers) : UInt64 := fsm g.s[g.head + 15] g.r0 g.r1 ^^^ g.s[g.head]

theorem index_lt (k : Fin 16) : k.val < 16 := k.isLt

/-- What `next_block` threads through its steps. -/
structure BlockRun where
  s : Vector UInt64 16
  r0 : UInt64
  r1 : UInt64
  out : Vector UInt64 16

/-- The `step!($k, $prev, $p11, $p13)` macro of `next_block`. -/
def blockStep (p : Profile) (input : Vector UInt64 16) (run : BlockRun)
    (idx : Fin 16 × Fin 16 × Fin 16 × Fin 16) : BlockRun :=
  let (k, prev, p11, p13) := idx
  let sk := run.s[k]
  let out := run.out.set k (input[k] ^^^ fsm run.s[prev] run.r0 run.r1 ^^^ sk) (index_lt k)
  let newR1 := tFunction p run.r0
  let newR0 := run.r1 + run.s[p13]
  let feedback := mulAlpha sk ^^^ mulAlphaInv run.s[p11] ^^^ run.s[p13]
  { s := run.s.set k feedback (index_lt k), r0 := newR0, r1 := newR1, out := out }

/-- The sixteen `step!` invocations. -/
def blockIndices : List (Fin 16 × Fin 16 × Fin 16 × Fin 16) :=
  [(0, 15, 11, 13), (1, 0, 12, 14), (2, 1, 13, 15), (3, 2, 14, 0),
    (4, 3, 15, 1), (5, 4, 0, 2), (6, 5, 1, 3), (7, 6, 2, 4),
    (8, 7, 3, 5), (9, 8, 4, 6), (10, 9, 5, 7), (11, 10, 6, 8),
    (12, 11, 7, 9), (13, 12, 8, 10), (14, 13, 9, 11), (15, 14, 10, 12)]

/-- Sixteen clocks from `head = 0`, fused with the input XOR. -/
def nextBlock (p : Profile) (s : Vector UInt64 16) (r0 r1 : UInt64) (input : Vector UInt64 16) :
    BlockRun :=
  blockIndices.foldl (blockStep p input)
    { s := s, r0 := r0, r1 := r1, out := Vector.replicate 16 0 }

/-! ## Keystream -/

/-- The state machine behind both key sizes. -/
structure Core where
  g : Registers
  /-- The current keystream word. -/
  block : Vector UInt8 8
  /-- How much of `block` is used; `8` when none is left. -/
  blockPos : Nat
  blockPos_le : blockPos ≤ 8

namespace Core

variable (p : Profile)

def new (size : KeySize) (key : Vector UInt8 size.bytes) (iv : Vector UInt8 32) : Core :=
  let g : Registers := { s := initState size key iv, head := 0, r0 := 0, r1 := 0 }
  let g := (List.range 32).foldl (fun g _ => nextStep p g true) g
  { g := nextStep p g false
    block := Vector.replicate 8 0
    blockPos := 8
    blockPos_le := by decide }

/-- `self.block_pos += 1`. -/
def advance (core : Core) (h : core.blockPos < 8) : Core :=
  { core with blockPos := core.blockPos + 1, blockPos_le := h }

/-- Phase 1: the rest of the buffered word. Returns the bytes written and the data
not reached. -/
def drain (core : Core) : List UInt8 → Core × List UInt8 × List UInt8
  | [] => (core, [], [])
  | b :: data =>
    if h : core.blockPos < 8 then
      let (core', written, rest) := drain (core.advance h) data
      (core', (b ^^^ core.block[core.blockPos]) :: written, rest)
    else (core, [], b :: data)

/-- `s.rotate_left(head)`. -/
def rotateLeft (s : Vector UInt64 16) (head : Fin 16) : Vector UInt64 16 :=
  Vector.ofFn fun i : Fin 16 => s[i + head]

/-- The words of a 128-byte chunk. -/
def inputWords (chunk : Vector UInt8 128) : Vector UInt64 16 :=
  Vector.ofFn fun i : Fin 16 => wordLe chunk i (by omega)

/-- The `while data.len() - pos >= 128` loop of `bulk`. -/
def bulkLoop (core : Core) (data : List UInt8) : Core × List UInt8 × List UInt8 :=
  if h : 128 ≤ data.length then
    let input := inputWords ⟨(data.take 128).toArray, by simp [h]⟩
    let run := nextBlock p core.g.s core.g.r0 core.g.r1 input
    let core := { core with g := { core.g with s := run.s, r0 := run.r0, r1 := run.r1 } }
    let (core', written, rest) := bulkLoop core (data.drop 128)
    (core', run.out.toList.flatMap (fun word => (toLeBytes word).toList) ++ written, rest)
  else (core, [], data)
termination_by data.length
decreasing_by
  rw [List.length_drop]
  omega

/-- Phase 2: whole 128-byte chunks, once the buffered word is used up. -/
def bulk (core : Core) (data : List UInt8) : Core × List UInt8 × List UInt8 :=
  if core.blockPos ≠ 8 ∨ data.length < 128 then (core, [], data)
  else
    let core :=
      if core.g.head ≠ 0 then
        { core with g := { core.g with s := rotateLeft core.g.s core.g.head, head := 0 } }
      else core
    bulkLoop p core data

/-- The refill of phase 3: a new keystream word when the buffered one is used up,
after which there is a byte to take. -/
def refill (core : Core) : { c : Core // c.blockPos < 8 } :=
  if h : core.blockPos = 8 then
    ⟨{ g := nextStep p core.g false, block := toLeBytes (strm core.g), blockPos := 0,
       blockPos_le := by decide }, Nat.zero_lt_succ 7⟩
  else ⟨core, Nat.lt_of_le_of_ne core.blockPos_le h⟩

/-- Phase 3: byte by byte. -/
def remainder (core : Core) : List UInt8 → Core × List UInt8
  | [] => (core, [])
  | b :: data =>
    let ⟨core, h⟩ := refill p core
    let (core', written) := remainder (core.advance h) data
    (core', (b ^^^ core.block[core.blockPos]) :: written)

/-- XORs the keystream into `data`. -/
def applyKeystream (core : Core) (data : List UInt8) : Core × List UInt8 :=
  let (core, written₁, data) := drain core data
  let (core, written₂, data) := bulk p core data
  let (core, written₃) := remainder p core data
  (core, written₁ ++ written₂ ++ written₃)

end Core

def Strumok256.new (p : Profile) (key : Vector UInt8 32) (iv : Vector UInt8 32) : Core :=
  Core.new p .k32 key iv

def Strumok512.new (p : Profile) (key : Vector UInt8 64) (iv : Vector UInt8 32) : Core :=
  Core.new p .k64 key iv

end UaCrypt.Hazmat.Strumok

import UaCrypt.Hazmat.ColumnState
import UaCrypt.Lib.Chunks

/-!
# The Kupyna hash function (`hazmat/kupyna.rs`)

The streaming core, the one-shot digests and the padding, as the crate computes
them. `KupynaCore` is only ever built with 8 or 16 columns, so the runtime fields
`columns`, `rounds` and `last_row_shift` are functions of a `Width`, and the
`unreachable!` arms of the source have no counterpart. The buffered tail is the
list `buffer[..buffer_len]`; that it is shorter than a block is a field.

- `subShiftMixN`, `tTransformN`, `tPlusTransformN`, `compressN`: the compression
  function.
- `kupynaPadding`: `0x80`, zeros, the 96-bit length.
- `KupynaCore.new`, `update`, `finalize`, `output`.
- `Kupyna256.digest`, `Kupyna384.digest`, `Kupyna512.digest`.
- `Kupyna256Hasher`, `Kupyna384Hasher`, `Kupyna512Hasher`: the streaming wrappers.
-/

namespace UaCrypt.Hazmat.Kupyna

open LittleEndian Tables ColumnState Chunks

/-- The two state widths: 8 columns and 10 rounds, or 16 columns and 14 rounds. -/
inductive Width where
  | narrow
  | wide
  deriving DecidableEq, Repr

namespace Width

def columns : Width → Nat
  | .narrow => 8
  | .wide => 16

def rounds : Width → Nat
  | .narrow => 10
  | .wide => 14

def lastRowShift : Width → Nat
  | .narrow => 7
  | .wide => 11

/-- `columns * ROWS`. -/
abbrev blockBytes (w : Width) : Nat := w.columns * 8

theorem blockBytes_pos (w : Width) : 0 < w.blockBytes := by
  cases w <;> decide

end Width

variable (p : Profile) {w : Width}

/-! ## Compression -/

/-- Row `r` moves by `r`, the last row by `last_row_shift`. -/
def bytesShift (w : Width) (row : Fin 8) : Nat := if row = 7 then w.lastRowShift else row.val

/-- The fused `sub_bytes`, `shift_bytes`, `mix_columns`. -/
def subShiftMixN (state : State w.columns) : State w.columns :=
  gatherRound (forwardSboxMds p) (forwardSrcCol (bytesShift w)) state

/-- `column[0] ^= (col as u8).wrapping_mul(0x10) ^ round`. -/
def addRoundConstantXorN (state : State w.columns) (round : UInt8) : State w.columns :=
  state.mapIdx fun col column => column.set 0 (column[0] ^^^ (UInt8.ofNat col * 0x10 ^^^ round))

/-- The modulo-`2^64` round constant, its top byte counting the columns down. -/
def addRoundConstantAddN (state : State w.columns) (round : UInt8) : State w.columns :=
  state.mapIdx fun col column =>
    let topByte := UInt8.ofNat (w.columns - 1 - col) * 0x10 ^^^ round
    let addend := fromLeBytes #v[0xF3, 0xF0, 0xF0, 0xF0, 0xF0, 0xF0, 0xF0, topByte]
    toLeBytes (fromLeBytes column + addend)

/-- `T`: `rounds` iterations of XOR constant, then the fused layer. -/
def tTransformN (state : State w.columns) : State w.columns :=
  (List.range w.rounds).foldl
    (fun state round => subShiftMixN p (addRoundConstantXorN state (UInt8.ofNat round))) state

/-- `T+`: the same with the additive constant. -/
def tPlusTransformN (state : State w.columns) : State w.columns :=
  (List.range w.rounds).foldl
    (fun state round => subShiftMixN p (addRoundConstantAddN state (UInt8.ofNat round))) state

/-- `h <- h xor T(h xor m) xor T+(m)`. -/
def compressN (h block : State w.columns) : State w.columns :=
  xorState h (xorState (tTransformN p (xorState h block)) (tPlusTransformN p block))

/-! ## The streaming core -/

/-- `prefix || 0x80 || zeros || 96-bit length`, up to a whole number of blocks. -/
def kupynaPadding (buffered : List UInt8) (msgBits blockBytes : Nat) : List UInt8 :=
  let used := buffered.length + 1 + 12
  let zeroBytes := (blockBytes - used % blockBytes) % blockBytes
  buffered ++ [0x80] ++ List.replicate zeroBytes 0 ++ (leBytes 12 msgBits).toList

/-- Incremental compression state. -/
structure KupynaCore (w : Width) where
  h : State w.columns
  /-- Bytes not yet folded into `h`. -/
  buffer : List UInt8
  /-- Always fewer than a block. -/
  buffer_lt : buffer.length < w.blockBytes
  /-- Bytes ever passed to `update`. -/
  totalLen : UInt64

namespace KupynaCore

/-- The initial value: `h[0][0] = block_bytes as u8`. -/
def new (w : Width) : KupynaCore w where
  h := setByte (zeroState w.columns) ⟨0, by cases w <;> decide⟩ 0 (UInt8.ofNat w.blockBytes)
  buffer := []
  buffer_lt := w.blockBytes_pos
  totalLen := 0

/-- The `h` update of `compress_block`. -/
def compressBlock (h : State w.columns) (block : Vector UInt8 w.blockBytes) : State w.columns :=
  compressN p h (columnsFromBytes block w.columns (Nat.le_refl _))

/-- The part of `update` after the buffer is empty: whole blocks, then the
remainder into the buffer. -/
def updateBlocks (h : State w.columns) (totalLen : UInt64) (data : List UInt8) : KupynaCore w where
  h := (chunksExact w.blockBytes w.blockBytes_pos data).foldl (compressBlock p) h
  buffer := remainder w.blockBytes data
  buffer_lt := length_remainder_lt w.blockBytes_pos data
  totalLen := totalLen

/-- Feeds more message bytes in. -/
def update (core : KupynaCore w) (data : List UInt8) : KupynaCore w :=
  let totalLen := core.totalLen + UInt64.ofNat data.length
  if core.buffer.length = 0 then updateBlocks p core.h totalLen data
  else
    -- the buffer is topped up first, and compressed once it is a whole block
    let take := min (w.blockBytes - core.buffer.length) data.length
    let buffer := core.buffer ++ data.take take
    if hlt : buffer.length < w.blockBytes then
      { h := core.h, buffer := buffer, buffer_lt := hlt, totalLen := totalLen }
    else
      updateBlocks p (compressBlock p core.h (headChunk w.blockBytes buffer (Nat.le_of_not_lt hlt)))
        totalLen (data.drop take)

/-- The output transformation: the last `output_bytes` bytes of `T(h) xor h`. -/
def output (h : State w.columns) (outputBytes : Nat) (hle : outputBytes ≤ w.blockBytes) :
    Vector UInt8 outputBytes :=
  let flat := bytesFromColumns (xorState h (tTransformN p h))
  slice flat (w.blockBytes - outputBytes) outputBytes (Nat.le_of_eq (Nat.sub_add_cancel hle))

/-- Pads the buffered tail and runs the output transformation. -/
def finalize (core : KupynaCore w) (outputBytes : Nat) (hle : outputBytes ≤ w.blockBytes) :
    Vector UInt8 outputBytes :=
  let msgBits := core.totalLen.toNat * 8
  let tail := kupynaPadding core.buffer msgBits w.blockBytes
  let h := (chunksExact w.blockBytes w.blockBytes_pos tail).foldl (compressBlock p) core.h
  output p h outputBytes hle

end KupynaCore

/-! ## Digests -/

def digestGeneric (w : Width) (message : List UInt8) (outputBytes : Nat)
    (hle : outputBytes ≤ w.blockBytes) : Vector UInt8 outputBytes :=
  ((KupynaCore.new w).update p message).finalize p outputBytes hle

theorem le_narrow : 32 ≤ Width.narrow.blockBytes := by decide

theorem le_wide : 64 ≤ Width.wide.blockBytes := by decide

theorem truncated_le_wide : 48 ≤ Width.wide.blockBytes := by decide

def Kupyna256.digest (message : List UInt8) : Vector UInt8 32 :=
  digestGeneric p .narrow message 32 le_narrow

def Kupyna384.digest (message : List UInt8) : Vector UInt8 48 :=
  digestGeneric p .wide message 48 truncated_le_wide

def Kupyna512.digest (message : List UInt8) : Vector UInt8 64 :=
  digestGeneric p .wide message 64 le_wide

/-! ## Streaming hashers -/

/-- The three digest sizes. -/
inductive Size where
  | kupyna256
  | kupyna384
  | kupyna512
  deriving DecidableEq, Repr

namespace Size

def width : Size → Width
  | .kupyna256 => .narrow
  | .kupyna384 => .wide
  | .kupyna512 => .wide

def outputBytes : Size → Nat
  | .kupyna256 => 32
  | .kupyna384 => 48
  | .kupyna512 => 64

theorem outputBytes_le (s : Size) : s.outputBytes ≤ s.width.blockBytes := by
  cases s <;> decide

/-- The one-shot digest of the size. -/
def digest (s : Size) (message : List UInt8) : Vector UInt8 s.outputBytes :=
  match s with
  | .kupyna256 => Kupyna256.digest p message
  | .kupyna384 => Kupyna384.digest p message
  | .kupyna512 => Kupyna512.digest p message

end Size

/-- The newtype the three hashers share. -/
structure Hasher (s : Size) where
  core : KupynaCore s.width

namespace Hasher

variable {s : Size}

def new (s : Size) : Hasher s := ⟨KupynaCore.new s.width⟩

def update (hasher : Hasher s) (data : List UInt8) : Hasher s := ⟨hasher.core.update p data⟩

def finalize (hasher : Hasher s) : Vector UInt8 s.outputBytes :=
  hasher.core.finalize p s.outputBytes s.outputBytes_le

end Hasher

abbrev Kupyna256Hasher := Hasher .kupyna256

abbrev Kupyna384Hasher := Hasher .kupyna384

abbrev Kupyna512Hasher := Hasher .kupyna512

end UaCrypt.Hazmat.Kupyna

import UaCrypt.Hazmat.KalynaOfb
import UaCrypt.Lib.Chunks
import UaCrypt.Lib.Runs

/-!
# Kalyna-CBC (`hazmat/kalyna_cbc.rs`)

Cipher block chaining, on buffers of whole blocks. The register that goes on from block to block
is the last ciphertext block in both directions.

- `Cbc.new`, `Cbc.encryptInPlace`, `Cbc.decryptInPlace`.
- `encryptInPlace_append`: two calls for one.
- `decryptInPlace_encryptInPlace`: from one register.
- `cbc_calls`: calls cut in any way at block boundaries.
-/

namespace UaCrypt.Hazmat.KalynaCbc

open Tables Kalyna Keystream Chunks Runs

/-- The buffer's length is not a multiple of the block size. -/
structure InvalidLength where
  deriving DecidableEq, Repr

/-- `Kalyna*Cbc`. -/
structure Cbc (v : Variant) where
  key : ExpandedKey v
  gamma : Vector UInt8 v.blockBytes

variable (p : Profile) {v : Variant}

/-- The body of the encryption loop. -/
def encryptStep (key : ExpandedKey v) (gamma block : Vector UInt8 v.blockBytes) :
    Vector UInt8 v.blockBytes × Vector UInt8 v.blockBytes :=
  let gamma := xorArray gamma block
  let gamma := key.encryptBlock p gamma
  (gamma, gamma)

/-- The body of the decryption loop. -/
def decryptStep (key : ExpandedKey v) (gamma block : Vector UInt8 v.blockBytes) :
    Vector UInt8 v.blockBytes × Vector UInt8 v.blockBytes :=
  let ciphertextBlock := block
  let decrypted := key.decryptBlock p ciphertextBlock
  (ciphertextBlock, xorArray decrypted gamma)

namespace Cbc

def new (v : Variant) (key : Vector UInt8 v.keyBytes) (iv : Vector UInt8 v.blockBytes) : Cbc v :=
  { key := ExpandedKey.new p v key, gamma := iv }

/-- What both directions share: the check, and the loop over whole blocks. -/
def inPlace (step : Vector UInt8 v.blockBytes → Vector UInt8 v.blockBytes →
    Vector UInt8 v.blockBytes × Vector UInt8 v.blockBytes) (cbc : Cbc v) (buf : List UInt8) :
    Except InvalidLength Unit × Cbc v × List UInt8 :=
  if buf.length % v.blockBytes ≠ 0 then (.error .mk, cbc, buf)
  else
    let (gamma, blocks) := mapChunks step cbc.gamma (chunksExact v.blockBytes v.blockBytes_pos buf)
    (.ok (), { cbc with gamma := gamma }, joinChunks blocks)

def encryptInPlace (cbc : Cbc v) (buf : List UInt8) :
    Except InvalidLength Unit × Cbc v × List UInt8 :=
  cbc.inPlace (encryptStep p cbc.key) buf

def decryptInPlace (cbc : Cbc v) (buf : List UInt8) :
    Except InvalidLength Unit × Cbc v × List UInt8 :=
  cbc.inPlace (decryptStep p cbc.key) buf

end Cbc

/-! ## One call -/

section Calls

variable (step : Vector UInt8 v.blockBytes → Vector UInt8 v.blockBytes →
  Vector UInt8 v.blockBytes × Vector UInt8 v.blockBytes)

/-- A call of another length changes nothing. -/
theorem inPlace_unaligned (cbc : Cbc v) {buf : List UInt8} (h : ¬v.blockBytes ∣ buf.length) :
    cbc.inPlace step buf = (.error .mk, cbc, buf) := by
  rw [Cbc.inPlace, if_pos (mt Nat.dvd_of_mod_eq_zero h)]

theorem inPlace_aligned (cbc : Cbc v) {buf : List UInt8} (h : v.blockBytes ∣ buf.length) :
    cbc.inPlace step buf
      = (.ok (), { cbc with
            gamma := (mapChunks step cbc.gamma
              (chunksExact v.blockBytes v.blockBytes_pos buf)).1 },
          joinChunks (mapChunks step cbc.gamma
            (chunksExact v.blockBytes v.blockBytes_pos buf)).2) := by
  rw [Cbc.inPlace, if_neg (not_not.mpr (Nat.mod_eq_zero_of_dvd h))]

/-- An empty call. -/
theorem inPlace_nil (cbc : Cbc v) : cbc.inPlace step [] = (.ok (), cbc, []) := by
  rw [inPlace_aligned step cbc (show v.blockBytes ∣ ([] : List UInt8).length from Nat.dvd_zero _),
    chunksExact_of_lt v.blockBytes_pos (show ([] : List UInt8).length < _ from v.blockBytes_pos)]
  rfl

/-- **The register goes on**: a call and a call from where it ended are one call. -/
theorem inPlace_append (cbc : Cbc v) {front rest : List UInt8}
    (hfront : v.blockBytes ∣ front.length) (hrest : v.blockBytes ∣ rest.length) :
    cbc.inPlace step (front ++ rest)
      = (.ok (), ((cbc.inPlace step front).2.1.inPlace step rest).2.1,
          (cbc.inPlace step front).2.2
            ++ ((cbc.inPlace step front).2.1.inPlace step rest).2.2) := by
  have hboth : v.blockBytes ∣ (front ++ rest).length := by
    rw [List.length_append]
    exact Nat.dvd_add hfront hrest
  rw [inPlace_aligned step cbc hboth, inPlace_aligned step cbc hfront, inPlace_aligned step _ hrest,
    chunksExact_append_of_dvd v.blockBytes_pos rest hfront, mapChunks_append, joinChunks_append]

end Calls

theorem decryptStep_encryptStep (key : Vector UInt8 v.keyBytes)
    (gamma block : Vector UInt8 v.blockBytes) :
    decryptStep p (ExpandedKey.new p v key) gamma
        (encryptStep p (ExpandedKey.new p v key) gamma block).2
      = ((encryptStep p (ExpandedKey.new p v key) gamma block).1, block) := by
  simp only [decryptStep, encryptStep, decryptBlock_encryptBlock]
  rw [xorArray_comm gamma block, xorArray_xorArray]

/-- **Decryption gives a call's buffer back**, from the register the call started on. -/
theorem decryptInPlace_encryptInPlace (key : Vector UInt8 v.keyBytes)
    (iv : Vector UInt8 v.blockBytes) {buf : List UInt8} (h : v.blockBytes ∣ buf.length) :
    (Cbc.new p v key iv).decryptInPlace p ((Cbc.new p v key iv).encryptInPlace p buf).2.2
      = (.ok (), ((Cbc.new p v key iv).encryptInPlace p buf).2.1, buf) := by
  have hpos := v.blockBytes_pos
  rw [Cbc.encryptInPlace, inPlace_aligned _ _ h]
  dsimp only
  have hlen : v.blockBytes ∣ (joinChunks (mapChunks
      (encryptStep p (Cbc.new p v key iv).key) (Cbc.new p v key iv).gamma
      (chunksExact v.blockBytes hpos buf)).2).length := by
    rw [length_joinChunks]
    exact Nat.dvd_mul_right _ _
  rw [Cbc.decryptInPlace, inPlace_aligned _ _ hlen, chunksExact_joinChunks hpos]
  show _ = (_, (⟨ExpandedKey.new p v key, _⟩ : Cbc v), _)
  have hmirror := mapChunks_mirror (decryptStep_encryptStep p key) iv (chunksExact _ hpos buf)
  simp only [Cbc.new, hmirror, joinChunks_chunksExact hpos h]

/-! ## Sequences of calls -/

/-- A call of a sequence: its result and the buffer it leaves. -/
def call (f : Cbc v → List UInt8 → Except InvalidLength Unit × Cbc v × List UInt8)
    (cbc : Cbc v) (buf : List UInt8) : Option ((Except InvalidLength Unit × List UInt8) × Cbc v) :=
  let (result, cbc, buf) := f cbc buf
  some ((result, buf), cbc)

/-- All lengths are multiples of the block size. -/
def Aligned (v : Variant) (bufs : List (List UInt8)) : Prop :=
  ∀ buf ∈ bufs, v.blockBytes ∣ buf.length

theorem Aligned.flatten {bufs : List (List UInt8)} (h : Aligned v bufs) :
    v.blockBytes ∣ bufs.flatten.length := by
  rw [List.length_flatten]
  exact List.dvd_sum fun _ hmem => by
    obtain ⟨buf, hbuf, rfl⟩ := List.mem_map.mp hmem
    exact h buf hbuf

/-- The run lemma: aligned calls write what one call would, and end in its state. -/
theorem run_aligned (step : ExpandedKey v → Vector UInt8 v.blockBytes →
      Vector UInt8 v.blockBytes → Vector UInt8 v.blockBytes × Vector UInt8 v.blockBytes)
    (cbc : Cbc v) {bufs : List (List UInt8)} (h : Aligned v bufs) :
    ∃ (outs : List (List UInt8)) (s : Cbc v),
      runAll (call fun cbc => cbc.inPlace (step cbc.key)) cbc bufs
        = some (outs.map (.ok (), ·), s)
      ∧ cbc.inPlace (step cbc.key) bufs.flatten = (.ok (), s, outs.flatten) := by
  induction bufs generalizing cbc with
  | nil => exact ⟨[], cbc, rfl, inPlace_nil _ cbc⟩
  | cons buf bufs ih =>
    have hbuf : v.blockBytes ∣ buf.length := h buf List.mem_cons_self
    have hbufs : Aligned v bufs := fun b hb => h b (List.mem_cons_of_mem _ hb)
    have hcall := inPlace_aligned (step cbc.key) cbc hbuf
    obtain ⟨outs, s, hrun, hone⟩ := ih (cbc.inPlace (step cbc.key) buf).2.1 hbufs
    have hkey : (cbc.inPlace (step cbc.key) buf).2.1.key = cbc.key := by rw [hcall]
    rw [hkey] at hone
    have hfirst : call (fun cbc => cbc.inPlace (step cbc.key)) cbc buf
        = some ((.ok (), (cbc.inPlace (step cbc.key) buf).2.2),
            (cbc.inPlace (step cbc.key) buf).2.1) := by
      simp only [call, hcall]
    refine ⟨(cbc.inPlace (step cbc.key) buf).2.2 :: outs, s, ?_, ?_⟩
    · exact runAll_cons_eq_some.mpr ⟨_, _, _, hfirst, hrun, rfl⟩
    · rw [List.flatten_cons, inPlace_append _ cbc hbuf hbufs.flatten, hone, List.flatten_cons]

/-- **CBC under any calls.** Calls of whole blocks write what one call writes; in any other calls
of whole blocks what they wrote decrypts to the message; and a call of another length is refused
and changes nothing. -/
theorem cbc_calls (v : Variant) (key : Vector UInt8 v.keyBytes) (iv : Vector UInt8 v.blockBytes) :
    (∀ bufs, Aligned v bufs →
        ∃ (outs : List (List UInt8)) (s : Cbc v),
          runAll (call (Cbc.encryptInPlace p)) (Cbc.new p v key iv) bufs
            = some (outs.map (.ok (), ·), s)
          ∧ (Cbc.new p v key iv).encryptInPlace p bufs.flatten = (.ok (), s, outs.flatten)
          ∧ ∀ bufs', Aligned v bufs' → bufs'.flatten = outs.flatten →
              ∃ outs' : List (List UInt8),
                runAll (call (Cbc.decryptInPlace p)) (Cbc.new p v key iv) bufs'
                  = some (outs'.map (.ok (), ·), s)
                ∧ outs'.flatten = bufs.flatten)
      ∧ ∀ (s : Cbc v) (buf : List UInt8), ¬v.blockBytes ∣ buf.length →
          s.encryptInPlace p buf = (.error .mk, s, buf)
            ∧ s.decryptInPlace p buf = (.error .mk, s, buf) := by
  refine ⟨?_, fun s buf h => ⟨inPlace_unaligned _ s h, inPlace_unaligned _ s h⟩⟩
  intro bufs hbufs
  obtain ⟨outs, s, hrun, hone⟩ := run_aligned (encryptStep p) (Cbc.new p v key iv) hbufs
  refine ⟨outs, s, hrun, hone, ?_⟩
  intro bufs' hbufs' hflat
  obtain ⟨outs', s', hrun', hone'⟩ := run_aligned (decryptStep p) (Cbc.new p v key iv) hbufs'
  have hback := decryptInPlace_encryptInPlace p key iv hbufs.flatten
  have hencrypt : (Cbc.new p v key iv).encryptInPlace p bufs.flatten = (.ok (), s, outs.flatten) :=
    hone
  rw [hencrypt] at hback
  dsimp only at hback
  rw [← hflat] at hback
  have hboth := hone'.symm.trans hback
  simp only [Prod.mk.injEq, true_and] at hboth
  obtain ⟨rfl, hout⟩ := hboth
  exact ⟨outs', hrun', hout⟩

/-- **Both modes under any calls.** -/
theorem ofb_cbc_calls (p : Profile) (v : Variant) (key : Vector UInt8 v.keyBytes)
    (iv : Vector UInt8 v.blockBytes) :
    (∀ calls : List (List UInt8),
        ∃ s outs, ByteStream.runCalls (KalynaOfb.Ofb.applyInPlace p)
            (KalynaOfb.Ofb.new p v key iv) calls = some (s, outs)
          ∧ (KalynaOfb.Ofb.new p v key iv).applyInPlace p calls.flatten = some (s, outs.flatten)
          ∧ ∀ calls', calls'.flatten = outs.flatten →
              ∃ outs', ByteStream.runCalls (KalynaOfb.Ofb.applyInPlace p)
                  (KalynaOfb.Ofb.new p v key iv) calls' = some (s, outs')
                ∧ outs'.flatten = calls.flatten)
      ∧ (∀ bufs, Aligned v bufs →
          ∃ (outs : List (List UInt8)) (s : Cbc v),
            runAll (call (Cbc.encryptInPlace p)) (Cbc.new p v key iv) bufs
              = some (outs.map (.ok (), ·), s)
            ∧ (Cbc.new p v key iv).encryptInPlace p bufs.flatten = (.ok (), s, outs.flatten)
            ∧ ∀ bufs', Aligned v bufs' → bufs'.flatten = outs.flatten →
                ∃ outs' : List (List UInt8),
                  runAll (call (Cbc.decryptInPlace p)) (Cbc.new p v key iv) bufs'
                    = some (outs'.map (.ok (), ·), s)
                  ∧ outs'.flatten = bufs.flatten)
      ∧ ∀ (s : Cbc v) (buf : List UInt8), ¬v.blockBytes ∣ buf.length →
          s.encryptInPlace p buf = (.error .mk, s, buf)
            ∧ s.decryptInPlace p buf = (.error .mk, s, buf) :=
  ⟨KalynaOfb.ofb_calls p v key iv, cbc_calls p v key iv⟩

end UaCrypt.Hazmat.KalynaCbc

import UaCrypt.Lib.Keystream

/-!
# Stream ciphers as infinite byte streams

A stream cipher's state stands for the infinite string of keystream bytes it has left
(`Nat → UInt8`). However it buffers or batches, a call XORs the front of that string
into the data and leaves the rest (`Streams`); nothing else has to be known about the
state to compare two ciphers or two ways to cut the data into calls.

- `xorWith ks data`, `shift ks k`: use a stream, and what is left of it.
- `prepend front ks`, `blockStream block`: the buffered bytes, and a stream made of blocks;
  `blocks next s` for the blocks a generator makes (`xorBlocks_eq_xorWith`).
- `Consumes stream s data result`: one phase of a call, which may leave data to the next.
- `Streams apply stream`: the specification of a call; `Streams.runCalls` and
  `Streams.runCalls_runCalls` for whole sequences of calls.
-/

namespace ByteStream

open Keystream

variable {σ : Type} {n : Nat}

/-! ## Streams -/

/-- What is left of a stream after its first `k` bytes. -/
def shift (ks : Nat → UInt8) (k : Nat) : Nat → UInt8 := fun i => ks (k + i)

/-- The data XORed with the front of a stream. -/
def xorWith (ks : Nat → UInt8) (data : List UInt8) : List UInt8 :=
  data.mapIdx fun i b => b ^^^ ks i

@[simp] theorem shift_zero (ks : Nat → UInt8) : shift ks 0 = ks := by
  funext i
  rw [shift, Nat.zero_add]

theorem shift_shift (ks : Nat → UInt8) (j k : Nat) : shift (shift ks j) k = shift ks (j + k) := by
  funext i
  rw [shift, shift, shift, Nat.add_assoc]

@[simp] theorem length_xorWith (ks : Nat → UInt8) (data : List UInt8) :
    (xorWith ks data).length = data.length := by
  rw [xorWith, List.length_mapIdx]

@[simp] theorem xorWith_nil (ks : Nat → UInt8) : xorWith ks [] = [] := rfl

theorem xorWith_cons (ks : Nat → UInt8) (b : UInt8) (data : List UInt8) :
    xorWith ks (b :: data) = (b ^^^ ks 0) :: xorWith (shift ks 1) data := by
  rw [xorWith, List.mapIdx_cons, xorWith]
  simp only [shift, Nat.add_comm 1]

theorem xorWith_append (ks : Nat → UInt8) (data more : List UInt8) :
    xorWith ks (data ++ more) = xorWith ks data ++ xorWith (shift ks data.length) more := by
  rw [xorWith, List.mapIdx_append, xorWith, xorWith]
  simp only [shift, Nat.add_comm data.length]

theorem xorWith_xorWith (ks : Nat → UInt8) (data : List UInt8) :
    xorWith ks (xorWith ks data) = data := by
  induction data generalizing ks with
  | nil => rfl
  | cons b data ih =>
    rw [xorWith_cons, xorWith_cons, ih, UInt8.xor_assoc, UInt8.xor_self, UInt8.xor_zero]

theorem xorWith_take (ks : Nat → UInt8) (data : List UInt8) (k : Nat) :
    (xorWith ks data).take k = xorWith ks (data.take k) := by
  induction data generalizing ks k with
  | nil => rw [xorWith_nil, List.take_nil, xorWith_nil]
  | cons b data ih =>
    cases k with
    | zero => rfl
    | succ k => rw [xorWith_cons, List.take_succ_cons, List.take_succ_cons, xorWith_cons, ih]

/-- A mask goes through the keystream. -/
theorem xorBytes_xorWith (ks : Nat → UInt8) (data mask : List UInt8) :
    xorBytes (xorWith ks data) mask = xorWith ks (xorBytes data mask) := by
  induction data generalizing ks mask with
  | nil => rfl
  | cons b data ih =>
    cases mask with
    | nil => simp [xorBytes]
    | cons m mask =>
      have hrest := ih (shift ks 1) mask
      simp only [xorBytes, xorWith_cons, List.zipWith_cons_cons] at hrest ⊢
      rw [hrest, UInt8.xor_assoc, UInt8.xor_comm (ks 0), ← UInt8.xor_assoc]

/-- Two messages under one stream: it cancels. -/
theorem xorBytes_xorWith_xorWith (ks : Nat → UInt8) (data other : List UInt8) :
    xorBytes (xorWith ks data) (xorWith ks other) = xorBytes data other := by
  induction data generalizing ks other with
  | nil => rfl
  | cons b data ih =>
    cases other with
    | nil => simp [xorBytes]
    | cons c other =>
      have hrest := ih (shift ks 1) other
      have hpair : (b ^^^ ks 0) ^^^ (c ^^^ ks 0) = b ^^^ c := by
        rw [UInt8.xor_comm c, ← UInt8.xor_assoc, UInt8.xor_assoc b, UInt8.xor_self,
          UInt8.xor_zero]
      simp only [xorBytes, xorWith_cons, List.zipWith_cons_cons] at hrest ⊢
      rw [hrest, hpair]

theorem xorWith_congr {ks ks' : Nat → UInt8} {data : List UInt8}
    (h : ∀ i, i < data.length → ks i = ks' i) : xorWith ks data = xorWith ks' data := by
  refine List.ext_getElem (by simp) fun i h₁ _ => ?_
  rw [length_xorWith] at h₁
  simp only [xorWith, List.getElem_mapIdx, h i h₁]

/-! ## Buffered bytes and blocks -/

/-- `front`, then `ks`. -/
def prepend (front : List UInt8) (ks : Nat → UInt8) : Nat → UInt8 := fun i =>
  if h : i < front.length then front[i] else ks (i - front.length)

@[simp] theorem prepend_nil (ks : Nat → UInt8) : prepend [] ks = ks := by
  funext i
  simp [prepend]

theorem prepend_cons_zero (b : UInt8) (front : List UInt8) (ks : Nat → UInt8) :
    prepend (b :: front) ks 0 = b := by
  simp [prepend]

theorem shift_prepend_cons (b : UInt8) (front : List UInt8) (ks : Nat → UInt8) :
    shift (prepend (b :: front) ks) 1 = prepend front ks := by
  funext i
  rw [shift, prepend, prepend, Nat.add_comm 1 i]
  simp

/-- Data no longer than the buffered bytes uses them alone. -/
theorem xorWith_prepend (ks : Nat → UInt8) {front data : List UInt8}
    (h : data.length ≤ front.length) : xorWith (prepend front ks) data = xorBytes data front := by
  induction data generalizing front with
  | nil => rfl
  | cons b data ih =>
    cases front with
    | nil => exact absurd h (by simp)
    | cons g front =>
      rw [xorWith_cons, prepend_cons_zero, shift_prepend_cons, ih (Nat.le_of_succ_le_succ h)]
      rfl

theorem shift_prepend (ks : Nat → UInt8) {front : List UInt8} {k : Nat} (h : k ≤ front.length) :
    shift (prepend front ks) k = prepend (front.drop k) ks := by
  induction k generalizing front with
  | zero => rw [shift_zero, List.drop_zero]
  | succ k ih =>
    cases front with
    | nil => exact absurd h (by simp)
    | cons b front =>
      rw [Nat.add_comm, ← shift_shift, shift_prepend_cons, ih (Nat.le_of_succ_le_succ h),
        Nat.add_comm, List.drop_succ_cons]

/-- The bytes of the blocks `block 0`, `block 1`, … -/
def blockStream (block : Nat → Vector UInt8 n) (hn : 0 < n) : Nat → UInt8 := fun i =>
  (block (i / n)).get ⟨i % n, Nat.mod_lt i hn⟩

/-- The first block is the front of the stream. -/
theorem blockStream_eq_prepend (block : Nat → Vector UInt8 n) (hn : 0 < n) :
    blockStream block hn
      = prepend (block 0).toList (blockStream (fun j => block (j + 1)) hn) := by
  funext i
  unfold prepend
  split
  · rename_i h
    rw [Vector.length_toList] at h
    simp only [blockStream, Nat.div_eq_of_lt h, Nat.mod_eq_of_lt h, Vector.getElem_toList]
    rfl
  · rename_i h
    rw [Vector.length_toList] at h ⊢
    have hle := Nat.le_of_not_lt h
    simp only [blockStream, Nat.div_eq_sub_div hn hle, Nat.mod_eq_sub_mod hle]

/-- Block `j` of a generator started from `s`. -/
def blocks (next : σ → σ × Vector UInt8 n) (s : σ) (j : Nat) : Vector UInt8 n :=
  (next ((fun s => (next s).1)^[j] s)).2

theorem blocks_succ (next : σ → σ × Vector UInt8 n) (s : σ) :
    (fun j => blocks next s (j + 1)) = blocks next (next s).1 := rfl

/-- A generator that steps a counter and makes the block from it. -/
theorem blocks_counter (step : σ → σ) (block : σ → Vector UInt8 n) (s : σ) (j : Nat) :
    blocks (fun s => (step s, block (step s))) s j = block (step^[j + 1] s) := by
  rw [Function.iterate_succ_apply']
  rfl

/-- The bytes of a generator's blocks. -/
def generate (next : σ → σ × Vector UInt8 n) (hn : 0 < n) (s : σ) : Nat → UInt8 :=
  blockStream (blocks next s) hn

theorem generate_eq_prepend (next : σ → σ × Vector UInt8 n) (hn : 0 < n) (s : σ) :
    generate next hn s = prepend (next s).2.toList (generate next hn (next s).1) := by
  rw [generate, blockStream_eq_prepend, blocks_succ]
  rfl

theorem shift_generate (next : σ → σ × Vector UInt8 n) (hn : 0 < n) (s : σ) :
    shift (generate next hn s) n = generate next hn (next s).1 := by
  rw [generate_eq_prepend, shift_prepend _ (by simp), List.drop_of_length_le (by simp),
    prepend_nil]

/-- Two generators that make the same blocks from corresponding states. -/
theorem generate_of_corresponding {τ : Type} (next : σ → σ × Vector UInt8 n)
    (next' : τ → τ × Vector UInt8 n) (hn : 0 < n) (state : σ → τ)
    (h : ∀ s, next' (state s) = (state (next s).1, (next s).2)) (s : σ) :
    generate next hn s = generate next' hn (state s) := by
  have hblocks (j : Nat) : ∀ s, blocks next s j = blocks next' (state s) j := by
    induction j with
    | zero =>
      intro s
      exact (congrArg Prod.snd (h s)).symm
    | succ j ih =>
      intro s
      have hstep : (next' (state s)).1 = state (next s).1 := congrArg Prod.fst (h s)
      show blocks next (next s).1 j = blocks next' (next' (state s)).1 j
      rw [ih, hstep]
  rw [generate, generate, funext fun j => hblocks j s]

/-- The block loop XORs the generator's bytes into the data. -/
theorem xorBlocks_eq_xorWith (next : σ → σ × Vector UInt8 n) (hn : 0 < n) (s : σ)
    (data : List UInt8) : xorBlocks next hn s data = xorWith (generate next hn s) data := by
  induction hlen : data.length using Nat.strongRecOn generalizing s data with
  | ind m ih =>
    by_cases h : data.length = 0
    · obtain rfl : data = [] := List.eq_nil_of_length_eq_zero h
      rw [xorBlocks_nil, xorWith_nil]
    · have hfront : (data.take n).length ≤ (next s).2.toList.length := by
        rw [List.length_take, Vector.length_toList]
        exact Nat.min_le_left _ _
      have hrest := ih (data.drop n).length (by rw [List.length_drop]; omega) (next s).1 _ rfl
      have hsplit := xorWith_append (generate next hn s) (data.take n) (data.drop n)
      rw [List.take_append_drop] at hsplit
      rw [xorBlocks_of_ne_nil next hn s h, hrest, hsplit, generate_eq_prepend next hn s,
        xorWith_prepend _ hfront]
      by_cases hshort : data.length ≤ n
      · -- the last block: no data is left for the blocks after it
        rw [List.drop_eq_nil_of_le hshort, xorWith_nil, xorWith_nil]
      · rw [List.length_take, Nat.min_eq_left (by omega), ← generate_eq_prepend, shift_generate]

/-! ## Phases of a call -/

/-- A phase that wrote to a part of the data and left the rest. -/
def Consumes (stream : σ → Nat → UInt8) (s : σ) (data : List UInt8)
    (result : σ × List UInt8 × List UInt8) : Prop :=
  ∃ front, data = front ++ result.2.2 ∧ result.2.1 = xorWith (stream s) front
    ∧ stream result.1 = shift (stream s) front.length

namespace Consumes

variable {stream : σ → Nat → UInt8}

theorem nothing (s : σ) (data : List UInt8) : Consumes stream s data (s, [], data) :=
  ⟨[], rfl, rfl, (shift_zero _).symm⟩

/-- A phase starts from a state through its stream alone. -/
theorem of_stream_eq {s t : σ} {data : List UInt8} {result : σ × List UInt8 × List UInt8}
    (h : Consumes stream t data result) (hs : stream t = stream s) :
    Consumes stream s data result := by
  unfold Consumes at h ⊢
  rwa [hs] at h

/-- One phase after another. -/
theorem trans {s t : σ} {data written rest : List UInt8} {result : σ × List UInt8 × List UInt8}
    (h : Consumes stream s data (t, written, rest)) (h' : Consumes stream t rest result) :
    Consumes stream s data (result.1, written ++ result.2.1, result.2.2) := by
  obtain ⟨front, hdata, hwritten, hstream⟩ := h
  obtain ⟨front', hrest, hwritten', hstream'⟩ := h'
  refine ⟨front ++ front', ?_, ?_, ?_⟩
  · rw [List.append_assoc, ← hrest, hdata]
  · show written ++ result.2.1 = _
    rw [hwritten', xorWith_append, ← hstream]
    exact congrArg (· ++ _) hwritten
  · rw [hstream', hstream, shift_shift, List.length_append]

/-- A phase that left nothing used the data up. -/
theorem all {s t : σ} {data written : List UInt8} (h : Consumes stream s data (t, written, [])) :
    written = xorWith (stream s) data ∧ stream t = shift (stream s) data.length := by
  obtain ⟨front, hdata, hwritten, hstream⟩ := h
  rw [List.append_nil] at hdata
  subst hdata
  exact ⟨hwritten, hstream⟩

end Consumes

/-! ## Ciphers -/

/-- From a state of `inv`, a call does not fail, XORs the front of the state's stream into
the data and leaves the rest. -/
def Streams (apply : σ → List UInt8 → Option (σ × List UInt8)) (stream : σ → Nat → UInt8)
    (inv : σ → Prop) : Prop :=
  ∀ s data, inv s → ∃ s', apply s data = some (s', xorWith (stream s) data) ∧ inv s'
    ∧ stream s' = shift (stream s) data.length

/-- Successive calls: the last state and what each call wrote. -/
def runCalls (apply : σ → List UInt8 → Option (σ × List UInt8)) :
    σ → List (List UInt8) → Option (σ × List (List UInt8))
  | s, [] => some (s, [])
  | s, data :: calls =>
    match apply s data with
    | none => none
    | some (s', written) =>
      match runCalls apply s' calls with
      | none => none
      | some (s'', rest) => some (s'', written :: rest)

namespace Streams

variable {apply : σ → List UInt8 → Option (σ × List UInt8)} {stream : σ → Nat → UInt8}
  {inv : σ → Prop}

/-- However the data is cut into calls, the calls write what one call would. -/
theorem runCalls (h : Streams apply stream inv) {s : σ} (hs : inv s) (calls : List (List UInt8)) :
    ∃ s' outs, ByteStream.runCalls apply s calls = some (s', outs)
      ∧ outs.flatten = xorWith (stream s) calls.flatten ∧ inv s'
      ∧ stream s' = shift (stream s) calls.flatten.length := by
  induction calls generalizing s with
  | nil => exact ⟨s, [], rfl, rfl, hs, (shift_zero _).symm⟩
  | cons data calls ih =>
    obtain ⟨t, hcall, ht, hstream⟩ := h s data hs
    obtain ⟨s', outs, hrun, hout, hs', hrest⟩ := ih ht
    refine ⟨s', xorWith (stream s) data :: outs, ?_, ?_, hs', ?_⟩
    · rw [ByteStream.runCalls, hcall]
      simp only [hrun]
    · rw [List.flatten_cons, List.flatten_cons, hout, hstream, xorWith_append]
    · rw [hrest, hstream, shift_shift, List.flatten_cons, List.length_append]

/-- The output run through the cipher again, cut in any other way, is the data. -/
theorem runCalls_runCalls (h : Streams apply stream inv) {s : σ} (hs : inv s)
    {calls calls' : List (List UInt8)}
    (hcalls : calls'.flatten = xorWith (stream s) calls.flatten) :
    ∃ s' outs, ByteStream.runCalls apply s calls' = some (s', outs)
      ∧ outs.flatten = calls.flatten := by
  obtain ⟨s', outs, hrun, hout, -, -⟩ := h.runCalls hs calls'
  refine ⟨s', outs, hrun, ?_⟩
  rw [hout, hcalls, xorWith_xorWith]

end Streams

end ByteStream

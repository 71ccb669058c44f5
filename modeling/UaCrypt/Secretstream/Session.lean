import UaCrypt.Secretstream.PushPull

/-!
# Whole secretstream sessions

- `pullChunk_eq_some_iff`: pull undoes push chunk by chunk; `lockstep_session`: over
  any session the code can take, the two sides stay in the same session state and
  the pulled chunks are the pushed ones; `pushAll_of_pullAll`: and nothing else is
  pulled.
- `push_not_ok`, `pull_not_ok`: a call that does not succeed leaves the session as
  it was.
- `session_counter_exhausted`: a session of `2^64` chunks is not one of them.
- `no_iv_reuse`: no two successful pushes of a run share an IV or an AAD.
-/

namespace UaCrypt.Secretstream

open LittleEndian Hazmat Runs

/-- A chunk to send. -/
abbrev Chunk := Tag × List UInt8

/-- What is transmitted for a chunk. -/
structure Wire where
  tagByte : UInt8
  ciphertext : List UInt8
  authTag : Vector UInt8 16
  deriving DecidableEq

/-- One push into a fresh buffer of the chunk's length. -/
def PushState.pushChunk (b : Build) (st : PushState) (chunk : Chunk) : Option (Wire × PushState) :=
  match st.push b chunk.1 chunk.2 (List.replicate chunk.2.length 0) with
  | (.ok authTag, st', ciphertext) => some (⟨chunk.1.toByte, ciphertext, authTag⟩, st')
  | _ => none

/-- One pull into a fresh buffer of the ciphertext's length. -/
def PullState.pullChunk (b : Build) (st : PullState) (wire : Wire) : Option (Chunk × PullState) :=
  match st.pull b wire.tagByte wire.ciphertext wire.authTag.toList
    (List.replicate wire.ciphertext.length 0) with
  | (.ok tag, st', plaintext) => some ((tag, plaintext), st')
  | _ => none

section

variable (b : Build)

theorem pushChunk_eq_some {st st' : PushState} {chunk : Chunk} {wire : Wire} :
    st.pushChunk b chunk = some (wire, st')
      ↔ wire.tagByte = chunk.1.toByte
        ∧ st.push b chunk.1 chunk.2 (List.replicate chunk.2.length 0)
          = (.ok wire.authTag, st', wire.ciphertext) := by
  rw [PushState.pushChunk]
  split
  · rename_i authTag st'' ciphertext hpush
    rw [hpush]
    constructor
    · intro h
      cases h
      exact ⟨rfl, rfl⟩
    · rintro ⟨htag, h⟩
      obtain ⟨tagByte, ct, auth⟩ := wire
      cases h
      cases htag
      rfl
  · rename_i hne
    constructor
    · intro h
      cases h
    · rintro ⟨-, h⟩
      exact absurd h (hne _ _ _)

theorem pullChunk_eq_some {st st' : PullState} {wire : Wire} {chunk : Chunk} :
    st.pullChunk b wire = some (chunk, st')
      ↔ st.pull b wire.tagByte wire.ciphertext wire.authTag.toList
          (List.replicate wire.ciphertext.length 0) = (.ok chunk.1, st', chunk.2) := by
  rw [PullState.pullChunk]
  split
  · rename_i tag st'' plaintext hpull
    rw [hpull]
    constructor
    · intro h
      cases h
      rfl
    · intro h
      obtain ⟨t, p⟩ := chunk
      cases h
      rfl
  · rename_i hne
    constructor
    · intro h
      cases h
    · intro h
      exact absurd h (hne _ _ _)

theorem length_eq_of_push {st st' : PushState} {tag : Tag} {plaintext out ciphertext : List UInt8}
    {auth : Vector UInt8 16} (h : st.push b tag plaintext out = (.ok auth, st', ciphertext)) :
    ciphertext.length = plaintext.length := by
  obtain ⟨-, -, -, rfl⟩ := (push_eq_ok_iff b).mp h
  exact length_chunkCiphertext b st plaintext

/-- **Pull undoes push**, chunk by chunk. -/
theorem pullChunk_eq_some_iff {st st' : PullState} {wire : Wire} {chunk : Chunk} :
    st.pullChunk b wire = some (chunk, st')
      ↔ st.toPush.pushChunk b chunk = some (wire, st'.toPush) := by
  rw [pullChunk_eq_some, pushChunk_eq_some, pull_eq_ok_iff_push]
  constructor
  · rintro ⟨htag, auth, hauth, hpush⟩
    have hlen := length_eq_of_push b hpush
    rw [Vector.toList_inj.mp hauth, ← hlen]
    exact ⟨htag, hpush⟩
  · rintro ⟨htag, hpush⟩
    have hlen := length_eq_of_push b hpush
    rw [hlen]
    exact ⟨htag, wire.authTag, rfl, hpush⟩

/-- A push does not depend on what its buffer held. -/
theorem push_of_pushChunk {st st' : PushState} {tag : Tag} {plaintext out : List UInt8}
    {wire : Wire} (h : st.pushChunk b (tag, plaintext) = some (wire, st'))
    (hout : out.length = plaintext.length) :
    st.push b tag plaintext out = (.ok wire.authTag, st', wire.ciphertext) := by
  obtain ⟨-, hpush⟩ := (pushChunk_eq_some b).mp h
  obtain ⟨⟨hready, hbits⟩, hauth, hnext, hct⟩ := (push_eq_ok_iff b).mp hpush
  exact (push_eq_ok_iff b).mpr
    ⟨⟨⟨hready.not_finalized, hout, hready.counter_lt⟩, hbits⟩, hauth, hnext, hct⟩

theorem pushChunk_of_push {st st' : PushState} {tag : Tag} {plaintext out ciphertext : List UInt8}
    {authTag : Vector UInt8 16} (h : st.push b tag plaintext out = (.ok authTag, st', ciphertext)) :
    st.pushChunk b (tag, plaintext) = some (⟨tag.toByte, ciphertext, authTag⟩, st') := by
  obtain ⟨⟨hready, hbits⟩, hauth, hnext, hct⟩ := (push_eq_ok_iff b).mp h
  exact (pushChunk_eq_some b).mpr ⟨rfl, (push_eq_ok_iff b).mpr
    ⟨⟨⟨hready.not_finalized, List.length_replicate, hready.counter_lt⟩, hbits⟩, hauth, hnext, hct⟩⟩

/-- Nor does a pull. -/
theorem pull_of_pullChunk {st st' : PullState} {wire : Wire} {chunk : Chunk} {out : List UInt8}
    (h : st.pullChunk b wire = some (chunk, st')) (hout : out.length = wire.ciphertext.length) :
    st.pull b wire.tagByte wire.ciphertext wire.authTag.toList out
      = (.ok chunk.1, st', chunk.2) := by
  have hpush := (pullChunk_eq_some_iff b).mp h
  have hlen := length_eq_of_push b ((pushChunk_eq_some b).mp hpush).2
  exact (pull_eq_ok_iff_push b).mpr ⟨((pushChunk_eq_some b).mp hpush).1, wire.authTag, rfl,
    push_of_pushChunk b hpush (by rw [hout, hlen])⟩

theorem pullChunk_of_pull {st st' : PullState} {tag : Tag} {tagByte : UInt8}
    {ciphertext authTag out plaintext : List UInt8}
    (h : st.pull b tagByte ciphertext authTag out = (.ok tag, st', plaintext)) :
    tagByte = tag.toByte ∧ ∃ auth : Vector UInt8 16, authTag = auth.toList
      ∧ st.pullChunk b ⟨tagByte, ciphertext, auth⟩ = some ((tag, plaintext), st') := by
  obtain ⟨rfl, auth, hauth, hpush⟩ := (pull_eq_ok_iff_push b).mp h
  exact ⟨rfl, auth, hauth, (pullChunk_eq_some_iff b).mpr (pushChunk_of_push b hpush)⟩

theorem length_eq_of_pullChunk {st st' : PullState} {wire : Wire} {chunk : Chunk}
    (h : st.pullChunk b wire = some (chunk, st')) :
    chunk.2.length = wire.ciphertext.length :=
  (length_eq_of_push b ((pushChunk_eq_some b).mp ((pullChunk_eq_some_iff b).mp h)).2).symm

/-! ## Lock-step -/

/-- A push into a fresh buffer succeeds on an open session with counters left, for a
chunk whose bit length fits a `u64`. -/
theorem pushChunk_of_open {st : PushState} {chunk : Chunk} (hfin : st.finalized = false)
    (hctr : st.counter.toNat + 1 < 2 ^ 64) (hlen : chunk.2.length * 8 < 2 ^ 64) :
    ∃ wire, st.pushChunk b chunk = some (wire, st.next b chunk.1) := by
  have hready : st.Ready chunk.2 (List.replicate chunk.2.length 0) :=
    ⟨hfin, List.length_replicate, hctr⟩
  exact ⟨⟨chunk.1.toByte, _, _⟩, (pushChunk_eq_some b).mpr
    ⟨rfl, push_of_ready b hready hlen⟩⟩

theorem next_of_pushChunk {st st' : PushState} {chunk : Chunk} {wire : Wire}
    (h : st.pushChunk b chunk = some (wire, st')) :
    st' = st.next b chunk.1 ∧ st.counter.toNat + 1 < 2 ^ 64 := by
  obtain ⟨-, hpush⟩ := (pushChunk_eq_some b).mp h
  obtain ⟨⟨hready, -⟩, -, hnext, -⟩ := (push_eq_ok_iff b).mp hpush
  exact ⟨hnext, hready.counter_lt⟩

/-- `Final` occurs at most once, and only last. -/
def FinalOnlyLast (chunks : List Chunk) : Prop := ∀ chunk ∈ chunks.dropLast, chunk.1 ≠ .final

instance (chunks : List Chunk) : Decidable (FinalOnlyLast chunks) :=
  inferInstanceAs (Decidable (∀ chunk ∈ chunks.dropLast, chunk.1 ≠ .final))

/-- The counter counts the chunks. -/
theorem counter_of_pushAll {st st' : PushState} {chunks : List Chunk} {wires : List Wire}
    (h : runAll (PushState.pushChunk b) st chunks = some (wires, st')) :
    st'.counter.toNat = st.counter.toNat + chunks.length := by
  induction chunks generalizing st wires with
  | nil =>
    cases h
    rfl
  | cons chunk chunks ih =>
    obtain ⟨wire, st₁, wires, hpush, hrest, rfl⟩ := runAll_cons_eq_some.mp h
    obtain ⟨rfl, hctr⟩ := next_of_pushChunk b hpush
    rw [ih hrest, PushState.next, toNat_succ hctr, List.length_cons]
    omega

/-- Every session within the limits can be pushed. -/
theorem pushAll_of_limits {st : PushState} {chunks : List Chunk} (hfin : st.finalized = false)
    (hctr : st.counter.toNat + chunks.length < 2 ^ 64) (hlast : FinalOnlyLast chunks)
    (hlen : ∀ chunk ∈ chunks, chunk.2.length * 8 < 2 ^ 64) :
    ∃ wires st', runAll (PushState.pushChunk b) st chunks = some (wires, st') := by
  induction chunks generalizing st with
  | nil => exact ⟨[], st, rfl⟩
  | cons chunk chunks ih =>
    rw [List.length_cons] at hctr
    obtain ⟨wire, hpush⟩ := pushChunk_of_open b hfin (by omega)
      (hlen chunk List.mem_cons_self)
    cases chunks with
    | nil => exact ⟨[wire], _, runAll_cons_eq_some.mpr ⟨wire, _, [], hpush, rfl, rfl⟩⟩
    | cons chunk' chunks =>
      -- not the last chunk, so it does not close the session
      have hopen : (st.next b chunk.1).finalized = false := by
        rw [PushState.next, if_neg (hlast chunk List.mem_cons_self)]
        exact hfin
      have hcount : (st.next b chunk.1).counter.toNat + (chunk' :: chunks).length < 2 ^ 64 := by
        rw [PushState.next, toNat_succ (by omega)]
        omega
      obtain ⟨wires, st', hrest⟩ := ih hopen hcount
        (fun c hc => hlast c (List.mem_cons_of_mem _ hc))
        (fun c hc => hlen c (List.mem_cons_of_mem _ hc))
      exact ⟨wire :: wires, st', runAll_cons_eq_some.mpr ⟨wire, _, wires, hpush, hrest, rfl⟩⟩

/-- What a run of pushes emits, a run of pulls from the same session takes back. -/
theorem pullAll_of_pushAll {st st' : PushState} {chunks : List Chunk} {wires : List Wire}
    (h : runAll (PushState.pushChunk b) st chunks = some (wires, st')) :
    runAll (PullState.pullChunk b) st.toPull wires = some (chunks, st'.toPull) := by
  obtain ⟨t, hpull, rfl⟩ := runAll_mirror (fun (s : PushState) t => t = s.toPull)
    (fun s t chunk wire s' hrel hpush => ⟨s'.toPull, by
      rw [hrel, pullChunk_eq_some_iff]
      exact hpush, rfl⟩) rfl h
  exact hpull

/-- What a run of pulls accepts, a run of pushes from the same session emits. -/
theorem pushAll_of_pullAll {st st' : PullState} {chunks : List Chunk} {wires : List Wire}
    (h : runAll (PullState.pullChunk b) st wires = some (chunks, st')) :
    runAll (PushState.pushChunk b) st.toPush chunks = some (wires, st'.toPush) := by
  obtain ⟨t, hpush, rfl⟩ := runAll_mirror (fun (s : PullState) t => t = s.toPush)
    (fun s t wire chunk s' hrel hpull => ⟨s'.toPush, by
      rw [hrel]
      exact (pullChunk_eq_some_iff b).mp hpull, rfl⟩) rfl h
  exact hpush

/-- A push that does not succeed leaves session and buffer as they were. -/
theorem push_not_ok {st : PushState} {tag : Tag} {plaintext out : List UInt8}
    (h : ∀ auth, (st.push b tag plaintext out).1 ≠ .ok auth) :
    (st.push b tag plaintext out).2 = (st, out) := by
  by_cases hready : st.Ready plaintext out ∧ plaintext.length * 8 < 2 ^ 64
  · rw [push_of_ready b hready.1 hready.2] at h
    exact absurd rfl (h _)
  · obtain ⟨r, -, hpush⟩ := push_of_not_ready b tag hready
    rw [hpush]

/-- A pull that does not succeed leaves the session as it was. -/
theorem pull_not_ok {st : PullState} {tagByte : UInt8} {ciphertext authTag out : List UInt8}
    {e : SecretstreamError} (h : (st.pull b tagByte ciphertext authTag out).1 = .error e) :
    (st.pull b tagByte ciphertext authTag out).2.1 = st := by
  rcases pull_cases b st tagByte ciphertext authTag out with
    ⟨tag, out', -, -, -, -, -, heq⟩ | ⟨e', heq⟩
  · rw [heq] at h
    cases h
  · rw [heq]

/-- **Lock-step.** For every session of fewer than `2^64` chunks, each below `2^61`
bytes, with `Final` at most last: pushing succeeds, and after every `k` chunks
pulling what was emitted has returned those chunks and left the two sides with
the same subkey, counter and flag, the counter being `k`. Whatever is refused, on
either side, leaves the session alone, so the genuine chunk is still accepted
after a forged one. -/
theorem lockstep_session (key header : Vector UInt8 32) (chunks : List Chunk)
    (hlast : FinalOnlyLast chunks) (hcount : chunks.length < 2 ^ 64)
    (hlen : ∀ chunk ∈ chunks, chunk.2.length < 2 ^ 61) :
    (∃ wires : List Wire, wires.length = chunks.length ∧ ∀ k, k ≤ chunks.length → ∃ push pull,
        runAll (PushState.pushChunk b) (PushState.start b key header) (chunks.take k)
            = some (wires.take k, push)
          ∧ runAll (PullState.pullChunk b) (PullState.init b key header) (wires.take k)
            = some (chunks.take k, pull)
          ∧ push.subkey = pull.subkey ∧ push.counter = pull.counter
          ∧ push.finalized = pull.finalized ∧ push.counter.toNat = k)
      ∧ (∀ (st : PushState) tag plaintext out,
          (∀ auth, (st.push b tag plaintext out).1 ≠ .ok auth) →
            (st.push b tag plaintext out).2.1 = st)
      ∧ (∀ (st : PullState) tagByte ciphertext authTag out e,
          (st.pull b tagByte ciphertext authTag out).1 = .error e →
            (st.pull b tagByte ciphertext authTag out).2.1 = st
            ∧ ∀ wire chunk st', st.pullChunk b wire = some (chunk, st') →
              (st.pull b tagByte ciphertext authTag out).2.1.pullChunk b wire
                = some (chunk, st')) := by
  refine ⟨?_, ?_, ?_⟩
  · have hopen : (PushState.start b key header).finalized = false := rfl
    obtain ⟨wires, st', hrun⟩ := pushAll_of_limits b hopen
      (by rw [PushState.start]; simpa using hcount) hlast
      (fun chunk hchunk => by have := hlen chunk hchunk; omega)
    refine ⟨wires, length_of_runAll hrun, fun k hk => ?_⟩
    obtain ⟨st, hpush⟩ := runAll_take hrun k
    refine ⟨st, st.toPull, hpush, pullAll_of_pushAll b hpush, rfl, rfl, rfl, ?_⟩
    rw [counter_of_pushAll b hpush, List.length_take, Nat.min_eq_left hk]
    exact Nat.zero_add k
  · intro st tag plaintext out h
    rw [push_not_ok b h]
  · intro st tagByte ciphertext authTag out e h
    have hst := pull_not_ok b h
    refine ⟨hst, fun wire chunk st' hgenuine => ?_⟩
    rw [hst]
    exact hgenuine

theorem lockstep_session_rekey_final :
    ∃ wires : List Wire, wires.length = 3 ∧ ∀ k, k ≤ 3 → ∃ push pull,
      runAll (PushState.pushChunk ⟨.fused, false⟩)
          (PushState.start ⟨.fused, false⟩ (Vector.replicate 32 0) (Vector.replicate 32 1))
          (([(.message, [1, 2]), (.rekey, []), (.final, [3])] : List Chunk).take k)
          = some (wires.take k, push)
        ∧ runAll (PullState.pullChunk ⟨.fused, false⟩)
          (PullState.init ⟨.fused, false⟩ (Vector.replicate 32 0) (Vector.replicate 32 1))
          (wires.take k)
          = some (([(.message, [1, 2]), (.rekey, []), (.final, [3])] : List Chunk).take k, pull)
        ∧ push.subkey = pull.subkey ∧ push.counter = pull.counter
        ∧ push.finalized = pull.finalized ∧ push.counter.toNat = k :=
  (lockstep_session ⟨.fused, false⟩ (Vector.replicate 32 0) (Vector.replicate 32 1)
    [(.message, [1, 2]), (.rekey, []), (.final, [3])] (by decide) (by decide) (by decide)).1

/-- A session of `2^64` empty chunks has no `Final` out of place, and still cannot be
pushed: the counter runs out. Nor can a single chunk of `2^61` bytes. -/
theorem session_counter_exhausted :
    (FinalOnlyLast (List.replicate (2 ^ 64) (.message, []))
      ∧ runAll (PushState.pushChunk ⟨.fused, false⟩)
          (PushState.start ⟨.fused, false⟩ (Vector.replicate 32 0) (Vector.replicate 32 0))
          (List.replicate (2 ^ 64) (.message, [])) = none)
    ∧ FinalOnlyLast [(.message, List.replicate (2 ^ 61) 0)]
      ∧ runAll (PushState.pushChunk ⟨.fused, false⟩)
          (PushState.start ⟨.fused, false⟩ (Vector.replicate 32 0) (Vector.replicate 32 0))
          [(.message, List.replicate (2 ^ 61) 0)] = none := by
  refine ⟨⟨?_, ?_⟩, ?_, ?_⟩
  · intro chunk hchunk
    rw [List.eq_of_mem_replicate (List.mem_of_mem_dropLast hchunk)]
    decide
  · rw [Option.eq_none_iff_forall_ne_some]
    rintro ⟨wires, st'⟩ hrun
    have hctr := counter_of_pushAll _ hrun
    have hlt := st'.counter.toNat_lt
    rw [List.length_replicate] at hctr
    omega
  · intro chunk hchunk
    cases hchunk
  · rw [Option.eq_none_iff_forall_ne_some]
    rintro ⟨wires, st'⟩ hrun
    obtain ⟨wire, st, -, hpush, -, -⟩ := runAll_cons_eq_some.mp hrun
    obtain ⟨-, hpush⟩ := (pushChunk_eq_some _).mp hpush
    have hbits := ((push_eq_ok_iff _).mp hpush).1.2
    simp only [List.length_replicate] at hbits
    omega

end

/-! ## No IV reuse -/

/-- The arguments of one `push` call. -/
structure PushCall where
  tag : Tag
  plaintext : List UInt8
  ciphertextOut : List UInt8

/-- One call: its outcome and the buffer it leaves, and the next state. -/
def PushState.call (b : Build) (st : PushState) (c : PushCall) :
    (Outcome SecretstreamError (Vector UInt8 16) × List UInt8) × PushState :=
  let (outcome, st', out) := st.push b c.tag c.plaintext c.ciphertextOut
  ((outcome, out), st')

def Outcome.isOk {ε α : Type} : Outcome ε α → Bool
  | .ok _ => true
  | .err _ => false
  | .panic => false

/-- The successful calls of a run. -/
def successes (b : Build) (st : PushState) (calls : List PushCall) :
    List (Event PushState PushCall (Outcome SecretstreamError (Vector UInt8 16) × List UInt8)) :=
  (trace (PushState.call b) st calls).filter fun e => e.answer.1.isOk

/-- A call either succeeds with a counter to spare and advances, or changes nothing. -/
theorem pushCall_cases (b : Build) (st : PushState) (c : PushCall) :
    ((PushState.call b st c).1.1.isOk = true ∧ st.counter.toNat + 1 < 2 ^ 64
        ∧ (PushState.call b st c).2 = st.next b c.tag)
      ∨ ((PushState.call b st c).1.1.isOk = false
        ∧ PushState.call b st c = (((PushState.call b st c).1.1, c.ciphertextOut), st)) := by
  by_cases h : st.Ready c.plaintext c.ciphertextOut ∧ c.plaintext.length * 8 < 2 ^ 64
  · left
    rw [PushState.call, push_of_ready b h.1 h.2]
    exact ⟨rfl, h.1.counter_lt, rfl⟩
  · right
    obtain ⟨r, hr, hpush⟩ := push_of_not_ready b c.tag h
    rw [PushState.call, hpush]
    refine ⟨?_, rfl⟩
    cases r with
    | ok a => exact absurd rfl (hr a)
    | err e => rfl
    | panic => rfl

theorem counter_le_call (b : Build) (st : PushState) (c : PushCall) :
    st.counter.toNat ≤ (PushState.call b st c).2.counter.toNat := by
  rcases pushCall_cases b st c with ⟨-, hctr, hnext⟩ | ⟨-, hsame⟩
  · rw [hnext, PushState.next, toNat_succ hctr]
    omega
  · rw [hsame]

theorem counter_lt_call (b : Build) (st : PushState) (c : PushCall)
    (hok : (PushState.call b st c).1.1.isOk = true) :
    st.counter.toNat < (PushState.call b st c).2.counter.toNat := by
  rcases pushCall_cases b st c with ⟨-, hctr, hnext⟩ | ⟨hnot, -⟩
  · rw [hnext, PushState.next, toNat_succ hctr]
    omega
  · rw [hok] at hnot
    cases hnot

/-- The counters of the successful calls of a run rise. -/
theorem successes_pairwise (b : Build) (st : PushState) (calls : List PushCall) :
    (successes b st calls).Pairwise fun e e' => e.before.counter.toNat < e'.before.counter.toNat :=
  trace_filter_pairwise (m := fun st : PushState => st.counter.toNat) (counter_le_call b)
    (fun answer => answer.1.isOk) (counter_lt_call b) st calls

theorem chunkIv_inj {c c' : UInt64} (h : chunkIv c = chunkIv c') : c = c' := by
  apply toLeBytes_injective
  apply Vector.ext
  intro i hi
  have hget := congrArg (fun iv : Vector UInt8 32 => iv[i]) h
  simpa [chunkIv, hi] using hget

/-- The AAD determines the counter, the tag byte and the length. -/
theorem chunkAad_inj {c c' : UInt64} {t t' : UInt8} {len len' : Nat}
    (h : chunkAad c t len = chunkAad c' t' len') :
    c = c' ∧ t = t' ∧ UInt64.ofNat len = UInt64.ofNat len' := by
  have hlist := congrArg Vector.toList h
  simp only [chunkAad, Vector.toList_append] at hlist
  obtain ⟨hhead, hlen⟩ := List.append_inj hlist (by simp)
  obtain ⟨hctr, htag⟩ := List.append_inj hhead (by simp)
  refine ⟨?_, ?_, ?_⟩
  · exact toLeBytes_injective (Vector.toList_inj.mp hctr)
  · simpa using htag
  · exact toLeBytes_injective (Vector.toList_inj.mp hlen)

/-- **No IV reuse.** Over any run of pushes on one state, whatever its counter was,
the IVs of the successful calls are pairwise distinct, and so are their AADs. At
counter `2^64 - 1` no call succeeds, state and buffer stay as they were, and an
otherwise valid call is told `CounterExhausted`. The AAD encodes counter, tag byte
and length injectively. -/
theorem no_iv_reuse (b : Build) (st : PushState) (calls : List PushCall) :
    ((successes b st calls).map fun e => chunkIv e.before.counter).Nodup
      ∧ ((successes b st calls).map fun e =>
          chunkAad e.before.counter e.input.tag.toByte e.input.plaintext.length).Nodup
      ∧ (∀ e ∈ trace (PushState.call b) st calls, e.before.counter.toNat = 2 ^ 64 - 1 →
          e.answer.1.isOk = false ∧ e.answer.2 = e.input.ciphertextOut
            ∧ (PushState.call b e.before e.input).2 = e.before
            ∧ (e.before.finalized = false →
              e.input.ciphertextOut.length = e.input.plaintext.length →
              e.answer.1 = .err .counterExhausted))
      ∧ (∀ (c c' : UInt64) (t t' : UInt8) (len len' : UInt64),
          chunkAad c t len.toNat = chunkAad c' t' len'.toNat → c = c' ∧ t = t' ∧ len = len') := by
  have hrise := successes_pairwise b st calls
  refine ⟨?_, ?_, ?_, ?_⟩
  · refine List.pairwise_map.mpr (hrise.imp fun {e e'} hlt heq => ?_)
    rw [chunkIv_inj heq] at hlt
    exact Nat.lt_irrefl _ hlt
  · refine List.pairwise_map.mpr (hrise.imp fun {e e'} hlt heq => ?_)
    rw [(chunkAad_inj heq).1] at hlt
    exact Nat.lt_irrefl _ hlt
  · intro e he hmax
    have hanswer := answer_of_mem_trace he
    rcases pushCall_cases b e.before e.input with ⟨-, hctr, -⟩ | ⟨hnot, hsame⟩
    · omega
    · refine ⟨?_, ?_, ?_, ?_⟩
      · rw [hanswer]
        exact hnot
      · rw [hanswer, hsame]
      · rw [hsame]
      · intro hopen hlen
        have hexhausted : ¬e.before.counter.toNat + 1 < 2 ^ 64 := by omega
        rw [hanswer, PushState.call, PushState.push, if_neg (by simp [hopen]),
          if_neg (not_not_intro hlen), checkedSucc_eq_none hexhausted]
  · intro c c' t t' len len' h
    obtain ⟨hctr, htag, hlen⟩ := chunkAad_inj h
    refine ⟨hctr, htag, ?_⟩
    simpa using hlen

end UaCrypt.Secretstream

import UaCrypt.Secretstream.File

/-!
# The stream-file reader under any sequence of calls

`FileDecryptor.run key calls` is what happens when `feed` and `finish` are called on a
fresh decryptor, in any order, with any inputs and any buffers. The calls' effects
are all in `feed_cases` and `finish_cases`; the run lemmas carry them along.

- `fileDecryptor_contract`: what the module promises its callers, over every run.
-/

namespace UaCrypt.Secretstream

open Hazmat Chunks Runs FileDecryptor

/-- A call on the reader. -/
inductive Call where
  | feed (input plaintextOut : List UInt8)
  | finish (plaintextOut : List UInt8)

/-- The caller's buffer. -/
def Call.plaintextOut : Call → List UInt8
  | .feed _ out => out
  | .finish out => out

/-- A result, and what the call left in the caller's buffer. -/
abbrev Answer := Except FileError Nat × List UInt8

def FileDecryptor.call (b : Build) (dec : FileDecryptor) : Call → Answer × FileDecryptor
  | .feed input out =>
    let (result, dec', out') := dec.feed b input out
    ((result, out'), dec')
  | .finish out =>
    let (result, dec', out') := dec.finish out
    ((result, out'), dec')

/-- Every call of a run on a fresh decryptor. -/
def FileDecryptor.run (b : Build) (key : Vector UInt8 32) (calls : List Call) :
    List (Event FileDecryptor Call Answer) :=
  trace (FileDecryptor.call b) (FileDecryptor.new key) calls

/-- Not a caller's mistake about lengths. -/
def Answer.heeded : Answer → Bool
  | (.error .invalidLength, _) => false
  | _ => true

/-- The calls after which there are no more: any other error, or a successful `finish`. -/
def Closes : Call → Answer → Prop
  | _, (.error e, _) => e ≠ .invalidLength
  | .finish _, (.ok _, _) => True
  | .feed _ _, (.ok _, _) => False

/-- `input` is the body of the record due, its tag verifies under the session's current
subkey and counter, and it carries `piece` under `tag`. -/
def Verifies (b : Build) (dec : FileDecryptor) (input : List UInt8) (tag : Tag)
    (piece : List UInt8) : Prop :=
  ∃ wire pull pull', dec.state = .recordBody wire.tagByte wire.ciphertext.length
    ∧ dec.pull = some pull ∧ input = Wire.body wire
    ∧ pull.pullChunk b wire = some ((tag, piece), pull')

section

variable {b : Build} {dec : FileDecryptor}

theorem call_feed {input out out' : List UInt8} {result : Except FileError Nat}
    {dec' : FileDecryptor} (h : dec.feed b input out = (result, dec', out')) :
    dec.call b (.feed input out) = ((result, out'), dec') := by
  rw [FileDecryptor.call, h]

theorem call_finish {out out' : List UInt8} {result : Except FileError Nat} {dec' : FileDecryptor}
    (h : dec.finish out = (result, dec', out')) :
    dec.call b (.finish out) = ((result, out'), dec') := by
  rw [FileDecryptor.call, h]

/-- Everything a call can do: nothing, as the decryptor is done or the lengths are
wrong; fail for good; take input; or release the `Final` record. -/
theorem call_cases (b : Build) (hinv : dec.Inv) (c : Call) :
    (dec.state = .done ∧ dec.call b c = ((.error .finished, c.plaintextOut), dec))
      ∨ (dec.state ≠ .done ∧ dec.call b c = ((.error .invalidLength, c.plaintextOut), dec))
      ∨ (∃ e out', dec.state ≠ .done ∧ Fatal e ∧ Refused dec c.plaintextOut out'
        ∧ dec.call b c = ((.error e, out'), dec.fail))
      ∨ (∃ input out released dec', c = .feed input out ∧ Accepts b dec input released dec'
        ∧ dec.call b c = ((.ok released.length, released ++ out.drop released.length), dec'))
      ∨ (∃ out, c = .finish out ∧ dec.state = .afterFinal ∧ dec.call b c
        = ((.ok dec.finalLen,
            dec.finalPlaintext.toList.take dec.finalLen ++ out.drop dec.finalLen), dec.fail)) := by
  cases c with
  | feed input out =>
    rcases feed_cases b hinv input out with ⟨hdone, h⟩ | ⟨hdone, h⟩ |
      ⟨released, dec', haccepts, h⟩ | ⟨e, out', hdone, hfatal, hrefused, h⟩
    · exact Or.inl ⟨hdone, call_feed h⟩
    · exact Or.inr (Or.inl ⟨hdone, call_feed h⟩)
    · exact Or.inr (Or.inr (Or.inr (Or.inl
        ⟨input, out, released, dec', rfl, haccepts, call_feed h⟩)))
    · exact Or.inr (Or.inr (Or.inl ⟨e, out', hdone, hfatal, hrefused, call_feed h⟩))
  | finish out =>
    rcases finish_cases dec out with ⟨hdone, h⟩ | ⟨hdone, h⟩ | ⟨hafter, h⟩ | ⟨hdone, -, h⟩
    · exact Or.inl ⟨hdone, call_finish h⟩
    · exact Or.inr (Or.inl ⟨hdone, call_finish h⟩)
    · exact Or.inr (Or.inr (Or.inr (Or.inr ⟨out, rfl, hafter, call_finish h⟩)))
    · exact Or.inr (Or.inr (Or.inl ⟨.truncated, out, hdone, ⟨by decide, by decide⟩, Or.inl rfl,
        call_finish h⟩))

theorem inv_call (dec : FileDecryptor) (c : Call) (hinv : dec.Inv) : (dec.call b c).2.Inv := by
  rcases call_cases b hinv c with ⟨-, h⟩ | ⟨-, h⟩ | ⟨e, out', -, -, -, h⟩ |
    ⟨input, out, released, dec', -, haccepts, h⟩ | ⟨out, -, -, h⟩
  · rw [h]
    exact hinv
  · rw [h]
    exact hinv
  · rw [h]
    exact inv_fail dec
  · rw [h]
    exact haccepts.inv hinv
  · rw [h]
    exact inv_fail dec

/-- A call told `InvalidLength` was ignored. -/
theorem call_of_not_heeded (dec : FileDecryptor) (c : Call) (hinv : dec.Inv)
    (h : (dec.call b c).1.heeded = false) : (dec.call b c).2 = dec := by
  rcases call_cases b hinv c with ⟨-, hcall⟩ | ⟨-, hcall⟩ | ⟨e, out', -, hfatal, -, hcall⟩ |
    ⟨input, out, released, dec', -, -, hcall⟩ | ⟨out, -, -, hcall⟩
  · rw [hcall]
  · rw [hcall]
  · rw [hcall] at h
    cases e <;> first | exact absurd rfl hfatal.1 | cases h
  · rw [hcall] at h
    cases h
  · rw [hcall] at h
    cases h

theorem call_of_done (hdone : dec.state = .done) (c : Call) :
    dec.call b c = ((.error .finished, c.plaintextOut), dec) := by
  have hinv : dec.Inv := by
    rw [FileDecryptor.Inv, hdone]
    trivial
  rcases call_cases b hinv c with ⟨-, h⟩ | ⟨hne, -⟩ | ⟨e, out', hne, -⟩ |
    ⟨input, out, released, dec', -, haccepts, -⟩ | ⟨out, -, hafter, -⟩
  · exact h
  · exact absurd hdone hne
  · exact absurd hdone hne
  · exact absurd hdone haccepts.state_ne.2
  · rw [hdone] at hafter
    cases hafter

theorem done_of_closes (dec : FileDecryptor) (c : Call) (hinv : dec.Inv)
    (h : Closes c (dec.call b c).1) : (dec.call b c).2.state = .done := by
  rcases call_cases b hinv c with ⟨hdone, hcall⟩ | ⟨-, hcall⟩ | ⟨e, out', -, -, -, hcall⟩ |
    ⟨input, out, released, dec', rfl, -, hcall⟩ | ⟨out, -, -, hcall⟩
  · rw [hcall]
    exact hdone
  · rw [hcall] at h
    cases c <;> exact absurd rfl h
  · rw [hcall]
    rfl
  · rw [hcall] at h
    cases h
  · rw [hcall]
    rfl

/-- `Finished` is only ever the answer of a decryptor that is done. -/
theorem done_of_finished (hinv : dec.Inv) {c : Call} (h : (dec.call b c).1.1 = .error .finished) :
    dec.state = .done := by
  rcases call_cases b hinv c with ⟨hdone, -⟩ | ⟨-, hcall⟩ | ⟨e, out', -, hfatal, -, hcall⟩ |
    ⟨input, out, released, dec', -, -, hcall⟩ | ⟨out, -, -, hcall⟩
  · exact hdone
  · rw [hcall] at h
    cases h
  · rw [hcall] at h
    exact absurd (Except.error.inj h) hfatal.2
  · rw [hcall] at h
    cases h
  · rw [hcall] at h
    cases h

/-- Only a verified `Final` record leads to where `finish` succeeds, and only ignored
calls stay there. -/
theorem call_afterFinal (hinv : dec.Inv) {c : Call} (hnext : (dec.call b c).2.state = .afterFinal) :
    (dec.state = .afterFinal ∧ (dec.call b c).2 = dec ∧ (dec.call b c).1.1 = .error .invalidLength)
      ∨ (dec.state ≠ .afterFinal ∧ ∃ input out piece, c = .feed input out
        ∧ Verifies b dec input .final piece ∧ (dec.call b c).1 = (.ok 0, out)
        ∧ (dec.call b c).2.finalLen = piece.length
        ∧ (dec.call b c).2.finalPlaintext.toList.take piece.length = piece) := by
  rcases call_cases b hinv c with ⟨hdone, hcall⟩ | ⟨-, hcall⟩ | ⟨e, out', -, -, -, hcall⟩ |
    ⟨input, out, released, dec', rfl, haccepts, hcall⟩ | ⟨out, -, -, hcall⟩
  · rw [hcall] at hnext
    exact absurd (hdone.symm.trans hnext) (by decide)
  · rw [hcall] at hnext ⊢
    exact Or.inl ⟨hnext, rfl, rfl⟩
  · rw [hcall] at hnext
    exact absurd hnext (by simp [fail])
  · right
    refine ⟨haccepts.state_ne.1, input, out, ?_⟩
    rw [hcall] at hnext ⊢
    cases haccepts with
    | version => cases hnext
    | header => cases hnext
    | recordHead => cases hnext
    | body => cases hnext
    | @final wire piece pull pull' hstate hpull hopen =>
      have hlen : piece.length = wire.ciphertext.length := length_eq_of_pullChunk b hopen
      have hle : piece.length ≤ chunkBytes := hlen ▸ hinv.len_le hstate
      refine ⟨piece, rfl, ⟨wire, pull, pull', hstate, hpull, rfl, hopen⟩, rfl, hlen.symm, ?_⟩
      rw [toList_overwrite _ hle, List.take_left]
  · rw [hcall] at hnext
    exact absurd hnext (by simp [fail])

/-- What a successful `feed` writes: nothing, or a verified record that is not `Final`. -/
theorem feed_writes (hinv : dec.Inv) {input out : List UInt8} {n : Nat}
    (h : (dec.call b (.feed input out)).1.1 = .ok n) :
    (n = 0 ∧ (dec.call b (.feed input out)).1.2 = out)
      ∨ ∃ tag piece, tag ≠ .final ∧ Verifies b dec input tag piece ∧ n = piece.length
        ∧ (dec.call b (.feed input out)).1.2 = piece ++ out.drop n := by
  rcases call_cases b hinv (.feed input out) with ⟨-, hcall⟩ | ⟨-, hcall⟩ |
    ⟨e, out', -, -, -, hcall⟩ | ⟨input', out', released, dec', heq, haccepts, hcall⟩ |
    ⟨out', heq, -, hcall⟩
  · rw [hcall] at h
    cases h
  · rw [hcall] at h
    cases h
  · rw [hcall] at h
    cases h
  · cases heq
    rw [hcall] at h ⊢
    cases h
    cases haccepts with
    | version => exact Or.inl ⟨rfl, rfl⟩
    | header => exact Or.inl ⟨rfl, rfl⟩
    | recordHead => exact Or.inl ⟨rfl, rfl⟩
    | @body wire tag piece pull pull' hstate hpull htag hopen =>
      exact Or.inr ⟨tag, _, htag, ⟨wire, pull, pull', hstate, hpull, rfl, hopen⟩, rfl, rfl⟩
    | final => exact Or.inl ⟨rfl, rfl⟩
  · cases heq

/-- The caller's buffer never sees a `Final` record while it is fed. -/
theorem feed_final_writes (hinv : dec.Inv) {input out : List UInt8} {len : Nat}
    (hstate : dec.state = .recordBody Tag.final.toByte len) :
    (dec.call b (.feed input out)).1.2 = out := by
  rcases call_cases b hinv (.feed input out) with ⟨-, hcall⟩ | ⟨-, hcall⟩ |
    ⟨e, out', -, -, hrefused, hcall⟩ | ⟨input', out', released, dec', heq, haccepts, hcall⟩ |
    ⟨out', heq, -, -⟩
  · rw [hcall]
    rfl
  · rw [hcall]
    rfl
  · rw [hcall]
    rcases hrefused with rfl | ⟨tagByte, len', hstate', hne, -⟩
    · rfl
    · obtain ⟨rfl, -⟩ := State.recordBody.inj (hstate.symm.trans hstate')
      exact absurd rfl hne
  · cases heq
    rw [hcall]
    obtain ⟨wire, tag, piece, pull, pull', -, hbyte, -, -, hopen, hcase⟩ :=
      haccepts.at_recordBody hstate
    have htag : tag = .final := Tag.toByte_inj ((tag_of_pullChunk hopen).symm.trans hbyte)
    rcases hcase with ⟨hne, -, -⟩ | ⟨-, rfl, -⟩
    · exact absurd htag hne
    · rfl
  · cases heq

end

/-! ## Runs -/

section

variable (b : Build) (key : Vector UInt8 32) (calls : List Call)

theorem inv_run {e : Event FileDecryptor Call Answer} (he : e ∈ FileDecryptor.run b key calls) :
    e.before.Inv :=
  inv_of_mem_trace inv_call (inv_new key) he

/-- A successful `finish` follows the verified `Final` record it releases, with only
ignored calls between. -/
theorem finish_releases {pre post : List (Event FileDecryptor Call Answer)}
    {e : Event FileDecryptor Call Answer} {out : List UInt8} {n : Nat}
    (hrun : FileDecryptor.run b key calls = pre ++ e :: post) (hinput : e.input = .finish out)
    (hok : e.answer.1 = .ok n) :
    ∃ pre' e' mid input out' piece, pre = pre' ++ e' :: mid ∧ e'.input = .feed input out'
      ∧ Verifies b e'.before input .final piece ∧ e'.answer = (.ok 0, out')
      ∧ (∀ m ∈ mid, m.answer.1 = .error .invalidLength)
      ∧ n = piece.length ∧ e.answer.2 = piece ++ out.drop n := by
  have hmem : e ∈ FileDecryptor.run b key calls := by
    rw [hrun]
    exact List.mem_append_right _ List.mem_cons_self
  have hanswer := answer_of_mem_trace hmem
  rw [hinput] at hanswer
  have hcall : e.before.state = .afterFinal ∧ (e.before.call b (.finish out)).1
      = (.ok e.before.finalLen,
        e.before.finalPlaintext.toList.take e.before.finalLen ++ out.drop e.before.finalLen) := by
    rcases call_cases b (inv_run b key calls hmem) (.finish out) with ⟨-, hcall⟩ | ⟨-, hcall⟩ |
      ⟨e', out', -, -, -, hcall⟩ | ⟨input', out', released, dec', heq, -, -⟩ |
      ⟨out', heq, hafter, hcall⟩
    · rw [hanswer, hcall] at hok
      cases hok
    · rw [hanswer, hcall] at hok
      cases hok
    · rw [hanswer, hcall] at hok
      cases hok
    · cases heq
    · cases heq
      rw [hcall]
      exact ⟨hafter, rfl⟩
  obtain ⟨hafter, hcall⟩ := hcall
  rw [hcall] at hanswer
  rw [hanswer] at hok
  cases hok
  -- `afterFinal` was entered by the call that fed the `Final` record
  rcases trace_entered inv_call (fun dec : FileDecryptor => dec.state = .afterFinal)
    (fun answer : Answer => answer.1 = .error .invalidLength)
    (fun dec c hinv hmarked hnext => by
      rcases call_afterFinal hinv hnext with ⟨-, hsame, hquiet⟩ | ⟨hnot, -⟩
      · exact ⟨hsame, hquiet⟩
      · exact absurd hmarked hnot) (inv_new key) hrun hafter with
    ⟨hnew, -, -⟩ | ⟨pre', e', mid, rfl, hnot, hnext, hquiet⟩
  · cases hnew
  · have hmem' : e' ∈ FileDecryptor.run b key calls := by
      rw [hrun]
      exact List.mem_append_left _ (List.mem_append_right _ List.mem_cons_self)
    rcases call_afterFinal (inv_run b key calls hmem') (c := e'.input) (by rw [hnext]; exact hafter)
      with ⟨hmarked, -, -⟩ | ⟨-, input, out', piece, hfeed, hverifies, hanswer', hlen, hheld⟩
    · exact absurd hmarked hnot
    · rw [hnext] at hlen hheld
      refine ⟨pre', e', mid, input, out', piece, rfl, hfeed, hverifies, ?_, hquiet, hlen, ?_⟩
      · rw [answer_of_mem_trace hmem', hanswer']
      · rw [hanswer, hlen, hheld]

theorem run_ignores :
    (∀ e ∈ FileDecryptor.run b key calls, e.answer.1 = .error .invalidLength →
        (e.before.call b e.input).2 = e.before)
      ∧ FileDecryptor.run b key
          (((FileDecryptor.run b key calls).filter fun e => e.answer.heeded).map Event.input)
        = (FileDecryptor.run b key calls).filter fun e => e.answer.heeded := by
  constructor
  · intro e he hanswer
    refine call_of_not_heeded e.before e.input (inv_run b key calls he) ?_
    rw [← answer_of_mem_trace he]
    obtain ⟨before, input, result, out⟩ := e
    cases hanswer
    rfl
  · exact trace_of_kept inv_call call_of_not_heeded (inv_new key) calls

theorem run_closed :
    (FileDecryptor.run b key calls).Pairwise (fun e e' => Closes e.input e.answer →
        e'.answer.1 = .error .finished ∧ e'.before.nextLen = 0)
      ∧ ∀ e ∈ FileDecryptor.run b key calls, Closes e.input e.answer →
        (e.before.call b e.input).2.nextLen = 0 := by
  constructor
  · have hstay : ∀ (dec : FileDecryptor) c, dec.state = .done →
        (dec.call b c).2.state = .done := by
      intro dec c hdone
      rw [call_of_done hdone]
      exact hdone
    have hpair := trace_pairwise_closed inv_call (fun dec : FileDecryptor => dec.state = .done)
      Closes hstay done_of_closes (inv_new key) calls
    refine hpair.imp_of_mem fun {e e'} _ he' hclosed hcloses => ?_
    have hdone := hclosed hcloses
    refine ⟨?_, by rw [nextLen, hdone]⟩
    rw [answer_of_mem_trace he', call_of_done hdone]
  · intro e he hcloses
    rw [answer_of_mem_trace he] at hcloses
    rw [nextLen, done_of_closes e.before e.input (inv_run b key calls he) hcloses]

theorem pull_isSome_of_inv {dec : FileDecryptor} (hinv : dec.Inv)
    (hstate : dec.state = .recordHead ∨ (∃ tagByte len, dec.state = .recordBody tagByte len)
      ∨ dec.state = .afterFinal) : dec.pull.isSome = true := by
  rw [FileDecryptor.Inv] at hinv
  rcases hstate with hs | ⟨tagByte, len, hs⟩ | hs
  · rw [hs] at hinv
    obtain ⟨pull, hpull, -⟩ := hinv
    rw [hpull]
    rfl
  · rw [hs] at hinv
    obtain ⟨tag, pull, -, -, -, hpull, -⟩ := hinv
    rw [hpull]
    rfl
  · rw [hs] at hinv
    obtain ⟨⟨pull, hpull⟩, -⟩ := hinv
    rw [hpull]
    rfl

/-- **The reader's contract**, over every sequence of calls on a fresh decryptor.
A call told `InvalidLength` is ignored, and the run without such calls is the
same. After any other error, or a successful `finish`, every call is told
`Finished` and nothing more is wanted. A `feed` writes nothing, or a verified
record that is not `Final`, and leaves the buffer alone while the `Final` record is
due; that record is written by a `finish` that follows it with only ignored calls
between. A session is there whenever a record is, and only a decryptor that is done
answers `Finished`. -/
theorem fileDecryptor_contract :
    ((∀ e ∈ FileDecryptor.run b key calls, e.answer.1 = .error .invalidLength →
        (e.before.call b e.input).2 = e.before)
      ∧ FileDecryptor.run b key
          (((FileDecryptor.run b key calls).filter fun e => e.answer.heeded).map Event.input)
        = (FileDecryptor.run b key calls).filter fun e => e.answer.heeded)
    ∧ ((FileDecryptor.run b key calls).Pairwise (fun e e' => Closes e.input e.answer →
          e'.answer.1 = .error .finished ∧ e'.before.nextLen = 0)
      ∧ ∀ e ∈ FileDecryptor.run b key calls, Closes e.input e.answer →
        (e.before.call b e.input).2.nextLen = 0)
    ∧ (∀ e ∈ FileDecryptor.run b key calls, ∀ input out len, e.input = .feed input out →
        e.before.state = .recordBody Tag.final.toByte len → e.answer.2 = out)
    ∧ (∀ pre e post out n, FileDecryptor.run b key calls = pre ++ e :: post →
        e.input = .finish out → e.answer.1 = .ok n →
        ∃ pre' e' mid input out' piece, pre = pre' ++ e' :: mid ∧ e'.input = .feed input out'
          ∧ Verifies b e'.before input .final piece ∧ e'.answer = (.ok 0, out')
          ∧ (∀ m ∈ mid, m.answer.1 = .error .invalidLength)
          ∧ n = piece.length ∧ e.answer.2 = piece ++ out.drop n)
    ∧ (∀ e ∈ FileDecryptor.run b key calls, ∀ input out n, e.input = .feed input out →
        e.answer.1 = .ok n → (n = 0 ∧ e.answer.2 = out)
          ∨ ∃ tag piece, tag ≠ .final ∧ Verifies b e.before input tag piece ∧ n = piece.length
            ∧ e.answer.2 = piece ++ out.drop n)
    ∧ ∀ e ∈ FileDecryptor.run b key calls,
        ((e.before.state = .recordHead ∨ (∃ tagByte len, e.before.state = .recordBody tagByte len)
          ∨ e.before.state = .afterFinal) → e.before.pull.isSome = true)
        ∧ (e.answer.1 = .error .finished → e.before.state = .done) := by
  refine ⟨run_ignores b key calls, run_closed b key calls, ?_, ?_, ?_, ?_⟩
  · intro e he input out len hinput hstate
    rw [answer_of_mem_trace he, hinput]
    exact feed_final_writes (inv_run b key calls he) hstate
  · intro pre e post out n hrun hinput hok
    exact finish_releases b key calls hrun hinput hok
  · intro e he input out n hinput hok
    rw [answer_of_mem_trace he, hinput] at hok ⊢
    exact feed_writes (inv_run b key calls he) hok
  · intro e he
    have hinv := inv_run b key calls he
    refine ⟨pull_isSome_of_inv hinv, fun hfinished => ?_⟩
    rw [answer_of_mem_trace he] at hfinished
    exact done_of_finished hinv hfinished

end

end UaCrypt.Secretstream

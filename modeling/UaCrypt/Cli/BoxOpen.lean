import UaCrypt.Cli.StreamLoops
import UaCrypt.CryptoBox.Wire

/-!
# Opening boxes from the command line (`run_box_open_command`)

`box-open` reads the prefix and then streams the records, instead of reading the whole
file as `crypto_box::open` does.

- `openAll_error_cases`: what a fresh decryptor can report, and that a file has to be
  `2^64` bytes long to use up the record counter.
- `stream_loops_compute_codec`: the loops of the command line against the library's.
-/

namespace UaCrypt.Cli

open Chunks Framing ShortReads FileTree Hazmat Secretstream CryptoBox

/-! ## Errors of a fresh decryptor -/

section

variable {b : Build}

theorem pull_counterExhausted {pull pull' : PullState} {tagByte : UInt8}
    {ciphertext authTag out out' : List UInt8}
    (h : pull.pull b tagByte ciphertext authTag out = (.error .counterExhausted, pull', out')) :
    ¬pull.counter.toNat + 1 < 2 ^ 64 := by
  intro hctr
  rw [PullState.pull, checkedSucc_eq_some hctr] at h
  split at h
  · cases h
  · split at h
    · cases h
    · split at h
      · cases h
      · dsimp only at h
        split at h <;> cases h

theorem ofSecretstream_counterExhausted {e : SecretstreamError}
    (h : FileError.ofSecretstream e = .counterExhausted) : e = .counterExhausted := by
  cases e <;> first | rfl | cases h

/-- The counter is used up only where it is used. -/
theorem step_counterExhausted {dec dec' : FileDecryptor} {input out out' : List UInt8}
    (h : dec.step b input out = (.error .counterExhausted, dec', out')) :
    ∃ pull, dec.pull = some pull ∧ ¬pull.counter.toNat + 1 < 2 ^ 64 := by
  rw [FileDecryptor.step] at h
  split at h
  · split at h <;> cases h
  · cases h
  · dsimp only at h
    split at h
    · cases h
    · split at h
      · cases h
      · split at h <;> cases h
  · dsimp only at h
    split at h
    · cases h
    · rename_i pull hpull
      refine ⟨pull, hpull, ?_⟩
      split at h
      · split at h
        · rename_i e pull' held hpulled
          obtain rfl : e = .counterExhausted :=
            ofSecretstream_counterExhausted (Except.error.inj (congrArg Prod.fst h))
          exact pull_counterExhausted hpulled
        · cases h
      · split at h
        · rename_i e pull' opened hpulled
          obtain rfl : e = .counterExhausted :=
            ofSecretstream_counterExhausted (Except.error.inj (congrArg Prod.fst h))
          exact pull_counterExhausted hpulled
        · cases h
  · cases h
  · cases h

/-- What a feed of the right length is refused for. -/
theorem feed_error {dec dec' : FileDecryptor} {input out out' : List UInt8} {e : FileError}
    (hinv : dec.Inv) (hstate : dec.state ≠ .done) (hlen : input.length = dec.nextLen)
    (hout : chunkBytes ≤ out.length) (h : dec.feed b input out = (.error e, dec', out')) :
    FileDecryptor.Fatal e ∧ (e = .counterExhausted →
      ∃ pull, dec.pull = some pull ∧ ¬pull.counter.toNat + 1 < 2 ^ 64) := by
  have hpass : ¬(input.length ≠ dec.nextLen ∨ out.length < chunkBytes) := by
    rw [not_or, not_not]
    exact ⟨hlen, Nat.not_lt_of_le hout⟩
  rw [FileDecryptor.feed, if_neg hstate, if_neg hpass] at h
  rcases FileDecryptor.step_cases (b := b) hinv hstate hlen hout with
    ⟨released, dec₁, haccepts⟩ | ⟨e₁, dec₁, out₁, hfatal, -, hstep⟩
  · rw [FileDecryptor.step_of_accepts hinv haccepts hout] at h
    cases h
  · rw [hstep] at h
    cases h
    refine ⟨hfatal, ?_⟩
    rintro rfl
    exact step_counterExhausted hstep

/-- The record counter of a decryptor. -/
def counterOf (dec : FileDecryptor) : Nat := (dec.pull.map fun pull => pull.counter.toNat).getD 0

/-- A feed that goes through counts at most one record, and the reader stays open. -/
theorem counter_of_accepts {dec dec' : FileDecryptor} {input released : List UInt8}
    (h : FileDecryptor.Accepts b dec input released dec') :
    counterOf dec' ≤ counterOf dec + input.length ∧ dec'.state ≠ .done := by
  have hbody : ∀ {wire : Wire} {chunk : Chunk} {pull pull' : PullState},
      pull.pullChunk b wire = some (chunk, pull') →
        pull'.counter.toNat ≤ pull.counter.toNat + wire.body.length := by
    intro wire chunk pull pull' hopen
    obtain ⟨hnext, hctr⟩ := next_of_pushChunk b ((pullChunk_eq_some_iff b).mp hopen)
    have hcount : pull'.counter.toNat = pull.counter.toNat + 1 := by
      have hcounter := congrArg PushState.counter hnext
      rw [PushState.next] at hcounter
      rw [show pull'.counter = pull.counter + 1 from hcounter]
      exact toNat_succ hctr
    rw [hcount, wire.length_body, tagLen]
    omega
  cases h with
  | version hstate => exact ⟨Nat.le_add_right _ _, by simp⟩
  | header hstate header =>
    refine ⟨?_, by simp⟩
    show (PullState.init b dec.key header).counter.toNat ≤ _
    exact Nat.zero_le _
  | recordHead hstate hlen hfull => exact ⟨Nat.le_add_right _ _, by simp⟩
  | body hstate hpull htag hopen =>
    refine ⟨?_, by simp⟩
    rw [counterOf, counterOf, hpull]
    exact hbody hopen
  | final hstate hpull hopen =>
    refine ⟨?_, by simp⟩
    rw [counterOf, counterOf, hpull]
    exact hbody hopen

theorem counter_of_reads {s s' : Opening} {file outs : List UInt8}
    (h : (fileReader b).Reads s file outs s') (hinv : s.dec.Inv) (hstate : s.dec.state ≠ .done) :
    counterOf s'.dec ≤ counterOf s.dec + file.length ∧ s'.dec.Inv ∧ s'.dec.state ≠ .done := by
  induction h with
  | nil s => exact ⟨Nat.le_add_right _ _, hinv, hstate⟩
  | @cons s s₁ s' input file out outs hlen hfeed hrest ih =>
    have haccepts := accepts_of_feed_eq_ok hinv hfeed
    obtain ⟨hcount, hstate₁⟩ := counter_of_accepts haccepts
    obtain ⟨hcount', hend⟩ := ih (haccepts.inv hinv) hstate₁
    rw [List.length_append]
    exact ⟨by omega, hend⟩

/-- **What a fresh decryptor can report.** It is never misused, and it takes a file of
`2^64` bytes to run out of records. -/
theorem openAll_error_cases {key : Vector UInt8 32} {file : List UInt8} {e : FileError}
    (h : openAll b (FileDecryptor.new key) file = .error e) :
    FileDecryptor.Fatal e ∧ (e = .counterExhausted → 2 ^ 64 ≤ file.length) := by
  obtain ⟨used, rest, outs, s', rfl, hreads, hend⟩ := Reader.reads_of_read_eq_error h
  obtain ⟨hcount, hinv, hstate⟩ := counter_of_reads hreads (FileDecryptor.inv_new key)
    (by simp [FileDecryptor.new])
  have hfresh : counterOf (FileDecryptor.new key) = 0 := rfl
  rw [hfresh, Nat.zero_add] at hcount
  rcases hend with ⟨-, hfin⟩ | ⟨input, tail, rfl, hlen, hfeed⟩
  · rcases FileDecryptor.finish_cases s'.dec s'.chunk.toList with ⟨hdone, -⟩ | ⟨-, hbad⟩ |
      ⟨-, hok⟩ | ⟨-, -, htrunc⟩
    · exact absurd hdone hstate
    · rw [FileDecryptor.finish, if_neg hstate, if_neg (by simp)] at hbad
      split at hbad <;> cases hbad
    · simp only [fileReader, hok] at hfin
      cases hfin
    · simp only [fileReader, htrunc] at hfin
      cases hfin
      exact ⟨⟨by decide, by decide⟩, by simp⟩
  · have hout : chunkBytes ≤ s'.chunk.toList.length := by simp
    rcases hresult : s'.dec.feed b input s'.chunk.toList with ⟨r, dec', out'⟩
    cases r with
    | ok n =>
      simp only [fileReader, hresult] at hfeed
      cases hfeed
    | error e' =>
      simp only [fileReader, hresult] at hfeed
      cases hfeed
      obtain ⟨hfatal, hexhausted⟩ := feed_error hinv hstate hlen hout hresult
      refine ⟨hfatal, fun he => ?_⟩
      obtain ⟨pull, hpull, hctr⟩ := hexhausted he
      rw [counterOf, hpull] at hcount
      simp only [Option.map_some, Option.getD_some] at hcount
      -- the refused record's own bytes come on top of those counted
      have hpos : 0 < s'.dec.nextLen := by
        rw [FileDecryptor.nextLen]
        cases hs : s'.dec.state with
        | done => exact absurd hs hstate
        | _ => simp [headerBytes, recordHeadBytes, tagLen]
      have hlen' : input.length = s'.dec.nextLen := hlen
      simp only [List.length_append]
      omega

/-- What the command line reports for it is an error, not a panic. -/
theorem ofFile_of_openAll_error {key : Vector UInt8 32} {file : List UInt8} {e : FileError}
    (h : openAll b (FileDecryptor.new key) file = .error e) (hlen : file.length < 2 ^ 64) :
    ∃ e', CliError.ofFile e = .err e' := by
  obtain ⟨⟨hinvalid, hfinished⟩, hexhausted⟩ := openAll_error_cases h
  cases e with
  | invalidLength => exact absurd rfl hinvalid
  | finished => exact absurd rfl hfinished
  | counterExhausted => exact absurd (hexhausted rfl) (Nat.not_le_of_lt hlen)
  | _ => exact ⟨_, rfl⟩

end

/-! ## `box-open` -/

/-- `AnyBoxSecret::curve_label`. -/
def curveLabel : Curve → String
  | .l256 => "l(p)=256"
  | .l384 => "l(p)=384"
  | .l512 => "l(p)=512"

/-- `box_open_error!`: an `OpenError` in `box-open`'s words. -/
def boxOpenError (c : Curve) : OpenError → CliError
  | .truncated => .boxOpenTruncated (curveLabel c)
  | .invalidCiphertext => .boxOpenFailed (curveLabel c)
  | .unsupportedVersion => .boxOpenUnsupportedVersion

/-- `AnyBoxSecret::stream_error`: a stream-file error in `box-open`'s words. -/
def streamError (c : Curve) : CliError → CliError
  | .secretstreamTruncated => .boxOpenTruncated (curveLabel c)
  | .secretstreamVerifyFailed => .boxOpenFailed (curveLabel c)
  | .secretstreamUnsupportedVersion _ => .boxOpenFailed (curveLabel c)
  | .secretstreamChunkTooLarge => .boxOpenFailed (curveLabel c)
  | .secretstreamBadChunkLength => .boxOpenFailed (curveLabel c)
  | .secretstreamUnknownTag => .boxOpenFailed (curveLabel c)
  | .secretstreamTrailingData => .boxOpenFailed (curveLabel c)
  | other => other

section

variable {σ ω : Type} {c : Curve} (b : Build) (decapsulate : Decapsulate c)
  (src : Source σ IoError UInt8) (source : PathName) (w : WriteOutput ω)

/-- `run_box_open_command` from the opened input up to the result `Output::finish` gets;
`create` is what `Output::create` answers. -/
def boxOpenStream (create : Except CliError ω) (s : σ) : Outcome CliError Unit × Option ω :=
  match src.fill s (List.replicate 1 0) with
  | (.error e, _, _) => (.err (.io source e.message), none)
  | (.ok got, first, s) =>
    if got = 0 then (.err (.boxOpenTruncated (curveLabel c)), none)
    else if first.head? ≠ some CryptoBox.formatVersion then (.err .boxOpenUnsupportedVersion, none)
    else
      match src.fill s (List.replicate c.kemCiphertextLen 0) with
      | (.error e, _, _) => (.err (.io source e.message), none)
      | (.ok got, kem, s) =>
        if got < c.kemCiphertextLen then (.err (.boxOpenTruncated (curveLabel c)), none)
        else
          match openStream decapsulate (overwrite (Vector.replicate c.prefixLen 0) (first ++ kem)) with
          | .error e => (.err (boxOpenError c e), none)
          | .ok dec =>
            match create with
            | .error e => (.err e, none)
            | .ok out =>
              match decryptStreamRecords b src source w dec s out with
              | (.ok (), _, _, out) => (.ok (), some out)
              | (.err e, _, _, out) => (.err (streamError c e), some out)
              | (.panic, _, _, out) => (.panic, some out)

variable {src w} {written : ω → List UInt8}

/-- A fresh decryptor's errors, in `box-open`'s words and in `crypto_box::open`'s. -/
theorem streamError_ofFile {key : Vector UInt8 32} {file : List UInt8} {e : FileError}
    (h : openAll b (FileDecryptor.new key) file = .error e) (hlen : file.length < 2 ^ 64) :
    ∃ e', CliError.ofFile e = .err e'
      ∧ streamError c e' = boxOpenError c (match e with
        | .truncated => .truncated
        | _ => .invalidCiphertext) := by
  obtain ⟨e', he'⟩ := ofFile_of_openAll_error h hlen
  refine ⟨e', he', ?_⟩
  cases e <;> cases he' <;> rfl

/-- **Streaming a box is opening it.** -/
theorem boxOpenStream_eq (hsrc : src.Faultless) (hw : w.Collects written) (s : σ) (out : ω)
    (hmin : c.minSealedLen ≤ (src.rest s).length) (hlen : (src.rest s).length < 2 ^ 64) :
    match openSealed b decapsulate (src.rest s) with
    | .ok p => ∃ out', boxOpenStream b decapsulate src source w (.ok out) s = (.ok (), some out')
      ∧ written out' = written out ++ p
    | .error e => (boxOpenStream b decapsulate src source w (.ok out) s).1
      = .err (boxOpenError c e) := by
  have hpre : 1 + c.kemCiphertextLen ≤ (src.rest s).length := by
    rw [Curve.minSealedLen, Curve.sealStreamPrefixBytes, Curve.prefixLen] at hmin
    omega
  obtain ⟨version, rest, hfile⟩ : ∃ version rest, src.rest s = version :: rest := by
    cases hcase : src.rest s with
    | nil =>
      rw [hcase, List.length_nil] at hpre
      omega
    | cons version rest => exact ⟨version, rest, rfl⟩
  -- the version byte, then the KEM ciphertext, arrive whole
  obtain ⟨got, first, s₁, hfill, hgot, hfirst, htake, hrest, hshort, -⟩ :=
    fill_chunk_eq hsrc s (List.length_replicate (n := 1) (a := (0 : UInt8)))
  obtain ⟨got', kem, s₂, hfill', hgot', hkem, htake', hrest', hshort', -⟩ :=
    fill_chunk_eq hsrc s₁ (List.length_replicate (n := c.kemCiphertextLen) (a := (0 : UInt8)))
  have hgot₁ : got = 1 := by omega
  rw [hgot₁, List.take_of_length_le (Nat.le_of_eq hfirst), hfile] at htake
  rw [hfile] at hrest
  have hfirst' : first = [version] := htake
  have hrest₁ : src.rest s₁ = rest := hrest
  have hlong : c.kemCiphertextLen ≤ rest.length := by
    rw [hfile, List.length_cons] at hpre
    omega
  have hgot₂ : got' = c.kemCiphertextLen := by
    rw [hrest₁] at hshort'
    omega
  rw [hgot₂, List.take_of_length_le (Nat.le_of_eq hkem), hrest₁] at htake'
  rw [hrest₁] at hrest'
  have hfits : c.prefixLen ≤ (version :: rest).length := by
    rw [hfile] at hpre
    exact hpre
  have hprefix : overwrite (Vector.replicate c.prefixLen 0) (first ++ kem)
      = headChunk c.prefixLen (version :: rest) hfits := by
    apply Vector.toList_inj.mp
    rw [toList_overwrite_of_length _ (by rw [List.length_append, hfirst, hkem, Curve.prefixLen])]
    show first ++ kem = (version :: rest).take c.prefixLen
    rw [hfirst', htake', Curve.prefixLen, Nat.add_comm, List.take_succ_cons, List.singleton_append]
  rw [boxOpenStream]
  simp only [hfill, hfill', hgot₁, hgot₂, hprefix]
  rw [if_neg (by decide), if_neg (Nat.lt_irrefl _)]
  have hhead : first.head? = some version := by rw [hfirst']; rfl
  rw [hhead, hfile]
  by_cases hversion : version = CryptoBox.formatVersion
  · have hbig : ¬(version :: rest).length < c.minSealedLen := by
      rw [hfile] at hmin
      exact Nat.not_lt_of_le hmin
    have hdrop : (version :: rest).drop c.prefixLen = src.rest s₂ := by
      rw [hrest', Curve.prefixLen, Nat.add_comm, List.drop_succ_cons]
    rw [if_neg (by simp [hversion])]
    simp only [openSealed, List.head?_cons, if_neg (not_not_intro hversion), if_neg hbig]
    rw [dif_pos hfits]
    cases hopen : openStream decapsulate (headChunk c.prefixLen (version :: rest) hfits) with
    | error e => rfl
    | ok dec =>
      -- only a fresh decryptor comes out of `openStream`
      obtain ⟨key, rfl⟩ : ∃ key, dec = FileDecryptor.new key := by
        rw [openStream] at hopen
        split at hopen
        · cases hopen
        · split at hopen
          · cases hopen
          · cases hopen
            exact ⟨_, rfl⟩
      obtain ⟨dec', s', out', released, hloop, hwritten, hreleased⟩ :=
        decryptStreamRecords_eq (b := b) source hsrc hw (FileDecryptor.inv_new key) s₂ out
      rw [hdrop]
      simp only [hloop]
      have hlen₂ : (src.rest s₂).length < 2 ^ 64 := by
        rw [hfile, List.length_cons] at hlen
        rw [hrest', List.length_drop]
        omega
      cases hread : openAll b (FileDecryptor.new key) (src.rest s₂) with
      | ok p =>
        rw [openAll] at hread
        rw [Released, hread] at hreleased
        exact ⟨out', rfl, by rw [hwritten, hreleased]⟩
      | error e =>
        obtain ⟨e', he', hstream⟩ := streamError_ofFile b (c := c) hread hlen₂
        simp only [ofOpen, he', hstream]
        cases e <;> rfl
  · rw [if_pos (by simp [hversion])]
    simp only [openSealed, List.head?_cons, if_pos hversion]
    rfl

end

/-! ## The loops against the codec -/

/-- A streamed reading of `file` under `key` ends as `openAll` does: it wrote the whole
plaintext, or reports the same error, having written the plaintext of whole verified
records and nothing that an intact file would not begin with. -/
structure StreamedAs (b : Build) (key : Vector UInt8 32) (file before after : List UInt8)
    (result : Outcome CliError Unit) : Prop where
  ok_iff : ∀ p, result = .ok () ∧ after = before ++ p
    ↔ openAll b (FileDecryptor.new key) file = .ok p
  error : ∀ e, openAll b (FileDecryptor.new key) file = .error e →
    result = CliError.ofFile e ∧ (file.length < 2 ^ 64 → ∃ e', result = .err e')
      ∧ ∃ consumed tail released, file = consumed ++ tail ∧ after = before ++ released
        ∧ VerifiedRecords b key consumed released
        ∧ ∀ tail' p, openAll b (FileDecryptor.new key) (consumed ++ tail') = .ok p →
          released <+: p

section

variable {b : Build}

theorem streamedAs_of_released {key : Vector UInt8 32} {file before after released : List UInt8}
    {result : Outcome CliError Unit}
    (hresult : result = ofOpen (openAll b (FileDecryptor.new key) file))
    (hafter : after = before ++ released)
    (hreleased : Released b ⟨FileDecryptor.new key, Vector.replicate chunkBytes 0⟩ file released) :
    StreamedAs b key file before after result := by
  rw [Released, ← openAll] at hreleased
  cases hopen : openAll b (FileDecryptor.new key) file with
  | ok p =>
    rw [hopen] at hresult hreleased
    refine ⟨fun p' => ⟨?_, ?_⟩, fun e he => ?_⟩
    · rintro ⟨-, hp'⟩
      rw [hafter, hreleased] at hp'
      rw [hopen, List.append_cancel_left hp']
    · intro hp'
      rw [hopen] at hp'
      cases hp'
      exact ⟨hresult, by rw [hafter, hreleased]⟩
    · rw [hopen] at he
      cases he
  | error e =>
    rw [hopen] at hresult hreleased
    obtain ⟨consumed, tail, s', hfile, hreads⟩ := hreleased
    refine ⟨fun p => ⟨?_, ?_⟩, fun e' he' => ?_⟩
    · rintro ⟨hok, -⟩
      rw [hresult, ofOpen] at hok
      cases e <;> cases hok
    · intro hp
      rw [hopen] at hp
      cases hp
    · rw [hopen] at he'
      cases he'
      refine ⟨hresult, fun hlen => ?_, consumed, tail, released, hfile, hafter,
        verifiedRecords_of_reads hreads, ?_⟩
      · obtain ⟨e', he'⟩ := ofFile_of_openAll_error hopen hlen
        exact ⟨e', hresult.trans he'⟩
      · intro tail' p hp
        rw [openAll, Reader.read_append hreads] at hp
        cases hrest : (fileReader b).read s' tail' with
        | error e' =>
          rw [hrest] at hp
          cases hp
        | ok last =>
          rw [hrest] at hp
          cases hp
          exact List.prefix_append _ _

/-- **The stream loops compute the codec**, however the input arrives: writing records is
`seal_all`, reading them is `open_all` from the version byte or from the box prefix on,
and a box streamed is a box opened. -/
theorem stream_loops_compute_codec {σ ω : Type} (b : Build) {src : Source σ IoError UInt8}
    (hsrc : src.Faultless) {w : WriteOutput ω} {written : ω → List UInt8}
    (hw : w.Collects written) (source : PathName) :
    (∀ enc s out, ∃ s' out', writeStreamRecords b src source w enc s out
          = (ofSeal (enc.sealAll b (src.rest s) (written out)).1,
            (enc.sealAll b (src.rest s) (written out)).2.1, s', out')
        ∧ written out' = (enc.sealAll b (src.rest s) (written out)).2.2)
      ∧ (∀ key first s out, ∃ result dec' s' out',
          decryptAfterVersion b src source w key first s out = (result, dec', s', out')
            ∧ StreamedAs b key (first :: src.rest s) (written out) (written out') result)
      ∧ (∀ key s out, ∃ result dec' s' out',
          decryptStreamRecords b src source w (FileDecryptor.new key) s out
              = (result, dec', s', out')
            ∧ StreamedAs b key (src.rest s) (written out) (written out') result)
      ∧ ∀ (c : Curve) (decapsulate : Decapsulate c) s out,
        c.minSealedLen ≤ (src.rest s).length → (src.rest s).length < 2 ^ 64 →
          match openSealed b decapsulate (src.rest s) with
          | .ok p => ∃ out', boxOpenStream b decapsulate src source w (.ok out) s
              = (.ok (), some out') ∧ written out' = written out ++ p
          | .error e => (boxOpenStream b decapsulate src source w (.ok out) s).1
            = .err (boxOpenError c e) := by
  refine ⟨fun enc s out => writeStreamRecords_eq b source hsrc hw enc s out, ?_, ?_, ?_⟩
  · intro key first s out
    obtain ⟨dec', s', out', released, hrun, hwritten, hreleased⟩ :=
      decryptAfterVersion_eq (b := b) source hsrc hw key first s out
    exact ⟨_, dec', s', out', hrun, streamedAs_of_released rfl hwritten hreleased⟩
  · intro key s out
    obtain ⟨dec', s', out', released, hrun, hwritten, hreleased⟩ :=
      decryptStreamRecords_eq (b := b) source hsrc hw (FileDecryptor.inv_new key) s out
    exact ⟨_, dec', s', out', hrun, streamedAs_of_released rfl hwritten hreleased⟩
  · intro c decapsulate s out hmin hlen
    exact boxOpenStream_eq b decapsulate source hsrc hw s out hmin hlen

/-- A box under a key that opens no KEM ciphertext. -/
theorem openSealed_of_error {c : Curve} {rest : List UInt8} {e : OpenError}
    (hmin : c.minSealedLen ≤ (CryptoBox.formatVersion :: rest).length) :
    openSealed (c := c) b (fun _ => .error e) (CryptoBox.formatVersion :: rest) = .error e := by
  have hfits : c.prefixLen ≤ (CryptoBox.formatVersion :: rest).length := by
    rw [Curve.minSealedLen, Curve.sealStreamPrefixBytes] at hmin
    omega
  have hfront : (headChunk c.prefixLen (CryptoBox.formatVersion :: rest) hfits).toList.head?
      = some CryptoBox.formatVersion := by
    show ((CryptoBox.formatVersion :: rest).take c.prefixLen).head? = _
    rw [Curve.prefixLen, Nat.add_comm, List.take_succ_cons, List.head?_cons]
  simp only [openSealed, List.head?_cons, ne_eq, not_true_eq_false, if_false,
    if_neg (Nat.not_lt_of_le hmin), dif_pos hfits, openStream, hfront]

/-- A message of three bytes that arrives one by one, interrupted twice, and a box whose
KEM ciphertext does not open. -/
theorem stream_loops_compute_codec_bytewise :
    (scheduled IoError UInt8).Faultless ∧ vecOutput.Collects id
      ∧ (∃ s' out', writeStreamRecords ⟨.fused, false⟩ (scheduled IoError UInt8) ["-"] vecOutput
          (FileEncryptor.init ⟨.fused, false⟩ (Vector.replicate 32 0) (Vector.replicate 32 1)).1
          ([1, 2, 3], [none, some 1, some 1, none, some 1]) []
        = (ofSeal ((FileEncryptor.init ⟨.fused, false⟩ (Vector.replicate 32 0)
            (Vector.replicate 32 1)).1.sealAll ⟨.fused, false⟩ [1, 2, 3] []).1,
          ((FileEncryptor.init ⟨.fused, false⟩ (Vector.replicate 32 0)
            (Vector.replicate 32 1)).1.sealAll ⟨.fused, false⟩ [1, 2, 3] []).2.1, s', out')
      ∧ out' = ((FileEncryptor.init ⟨.fused, false⟩ (Vector.replicate 32 0)
            (Vector.replicate 32 1)).1.sealAll ⟨.fused, false⟩ [1, 2, 3] []).2.2)
      ∧ (boxOpenStream (c := .l256) ⟨.fused, false⟩ (fun _ => .error .invalidCiphertext)
          (scheduled IoError UInt8) ["-"] vecOutput (.ok [])
          (CryptoBox.formatVersion :: List.replicate 182 0, [none, some 100])).1
        = .err (.boxOpenFailed "l(p)=256") := by
  obtain ⟨hwrite, -, -, hbox⟩ := stream_loops_compute_codec ⟨.fused, false⟩
    (faultless_scheduled IoError UInt8) collects_vecOutput ["-"]
  refine ⟨faultless_scheduled _ _, collects_vecOutput,
    hwrite _ ([1, 2, 3], [none, some 1, some 1, none, some 1]) [], ?_⟩
  -- the tail is kept opaque: only its length matters
  obtain ⟨rest, hrest⟩ : ∃ rest : List UInt8, rest = List.replicate 182 0 := ⟨_, rfl⟩
  have hlen : (CryptoBox.formatVersion :: rest).length = 183 := by
    rw [List.length_cons, hrest, List.length_replicate]
  have hmin : Curve.minSealedLen .l256 ≤ (CryptoBox.formatVersion :: rest).length := by
    rw [hlen]
    decide
  have hfits : (CryptoBox.formatVersion :: rest).length < 2 ^ 64 := by
    rw [hlen]
    decide
  rw [← hrest]
  have hstream := hbox .l256 (fun _ => .error .invalidCiphertext)
    (CryptoBox.formatVersion :: rest, [none, some 100]) [] hmin hfits
  rw [show (scheduled IoError UInt8).rest (CryptoBox.formatVersion :: rest, [none, some 100])
    = CryptoBox.formatVersion :: rest from rfl, openSealed_of_error hmin] at hstream
  exact hstream

end

end UaCrypt.Cli

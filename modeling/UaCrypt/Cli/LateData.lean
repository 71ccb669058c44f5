import UaCrypt.Lib.ScriptedReads
import UaCrypt.Cli.StreamLoops

/-!
# Data after the end (`write_stream_records` in `lib.rs`)

`write_stream_records` takes a short chunk for the last one. That is right for a reader whose
end lasts; here the reader may do anything the `Read` contract allows. The loop is that of
`StreamLoops`, over any `Input` (`writeStreamRecords_toInput`).

- `InOrder`: no fill that gets data comes after a short one, and the counter lasts.
- `writeLoop_of_inOrder`, `writeLoop_panics`: what the loop does in the two cases.
- `writeStreamRecords_sound_iff`: no panic and no lost input exactly in order.
-/

namespace UaCrypt.Cli.LateData

open Chunks Framing ShortReads FileTree Hazmat Secretstream Runs

section

variable {σ ω : Type} (b : Build) (inp : Input σ IoError UInt8) (source : PathName)
  (w : WriteOutput ω)

section

variable {inp} {cur next next' : List UInt8} {curLen nextLen : Nat} {s s' : σ}

theorem chunk_le (hfull : (cur.take curLen).length = chunkBytes) :
    chunkBytes ≤ (cur.take curLen).length := Nat.le_of_eq hfull.symm

theorem left_lt (hfill : inp.fill s next = (.ok nextLen, next', s')) (hend : nextLen ≠ 0) :
    inp.left s' < inp.left s := by
  have hleft := Input.left_of_fill hfill
  omega

end

/-- The loop of `write_stream_records`: `cur` is sealed once `next` has been looked at. -/
def writeLoop (enc : FileEncryptor) (record : Vector UInt8 maxRecordBytes) (cur : List UInt8)
    (curLen : Nat) (next : List UInt8) (s : σ) (out : ω) :
    Outcome CliError Unit × FileEncryptor × σ × ω :=
  match hfill : inp.fill s next with
  | (.error e, _, s') => (.err (.io source e.message), enc, s', out)
  | (.ok nextLen, next', s') =>
    if hend : nextLen = 0 then
      match enc.sealFinal b (cur.take curLen) record.toList with
      | (.err e, enc, _) => (CliError.ofFile e, enc, s', out)
      | (.panic, enc, _) => (.panic, enc, s', out)
      | (.ok n, enc, record) =>
        match w.writeAll out (record.take n) with
        | (.error e, out) => (.err e, enc, s', out)
        | (.ok (), out) => (.ok (), enc, s', out)
    else if hfull : (cur.take curLen).length = chunkBytes then
      match enc.sealChunk b (headChunk chunkBytes (cur.take curLen) (chunk_le hfull)) record with
      | (.err e, enc, _) => (CliError.ofFile e, enc, s', out)
      | (.panic, enc, _) => (.panic, enc, s', out)
      | (.ok (), enc, record) =>
        match w.writeAll out record.toList with
        | (.error e, out) => (.err e, enc, s', out)
        | (.ok (), out) =>
          have := left_lt hfill hend
          writeLoop enc record next' nextLen cur s' out
    -- `unreachable!`: "fill_chunk returns a short chunk only at the end of the input"
    else (.panic, enc, s', out)
termination_by inp.left s

/-- `write_stream_records` over any reader. -/
def writeStreamRecords (enc : FileEncryptor) (s : σ) (out : ω) :
    Outcome CliError Unit × FileEncryptor × σ × ω :=
  match inp.fill s (List.replicate chunkBytes 0) with
  | (.error e, _, s') => (.err (.io source e.message), enc, s', out)
  | (.ok curLen, cur, s') =>
    writeLoop b inp source w enc (Vector.replicate maxRecordBytes 0) cur curLen
      (List.replicate chunkBytes 0) s' out

end

/-! ## One turn of the loop -/

section

variable {σ ω : Type} (b : Build) {inp : Input σ IoError UInt8} (source : PathName)
  (w : WriteOutput ω) (enc : FileEncryptor) (record : Vector UInt8 maxRecordBytes)
  (cur : List UInt8) (curLen : Nat) {next next' : List UInt8} {s s' : σ} (out : ω)

theorem writeLoop_of_error {e : IoError} (hfill : inp.fill s next = (.error e, next', s')) :
    writeLoop b inp source w enc record cur curLen next s out
      = (.err (.io source e.message), enc, s', out) := by
  rw [writeLoop]
  split <;> rename_i h <;> rw [hfill] at h <;> cases h
  rfl

theorem writeLoop_of_end (hfill : inp.fill s next = (.ok 0, next', s')) :
    writeLoop b inp source w enc record cur curLen next s out
      = match enc.sealFinal b (cur.take curLen) record.toList with
        | (.err e, enc, _) => (CliError.ofFile e, enc, s', out)
        | (.panic, enc, _) => (.panic, enc, s', out)
        | (.ok n, enc, record) =>
          match w.writeAll out (record.take n) with
          | (.error e, out) => (.err e, enc, s', out)
          | (.ok (), out) => (.ok (), enc, s', out) := by
  rw [writeLoop]
  split <;> rename_i h <;> rw [hfill] at h <;> cases h
  exact dif_pos rfl

variable {nextLen : Nat}

/-- A short chunk, and data after it. -/
theorem writeLoop_of_short (hfill : inp.fill s next = (.ok nextLen, next', s')) (hend : nextLen ≠ 0)
    (hshort : (cur.take curLen).length ≠ chunkBytes) :
    writeLoop b inp source w enc record cur curLen next s out = (.panic, enc, s', out) := by
  rw [writeLoop]
  split <;> rename_i h <;> rw [hfill] at h <;> cases h
  rw [dif_neg hend, dif_neg hshort]

theorem writeLoop_of_chunk (hfill : inp.fill s next = (.ok nextLen, next', s')) (hend : nextLen ≠ 0)
    (hfull : (cur.take curLen).length = chunkBytes) :
    writeLoop b inp source w enc record cur curLen next s out
      = match enc.sealChunk b
            (headChunk chunkBytes (cur.take curLen) (Nat.le_of_eq hfull.symm)) record with
        | (.err e, enc, _) => (CliError.ofFile e, enc, s', out)
        | (.panic, enc, _) => (.panic, enc, s', out)
        | (.ok (), enc, record) =>
          match w.writeAll out record.toList with
          | (.error e, out) => (.err e, enc, s', out)
          | (.ok (), out) => writeLoop b inp source w enc record next' nextLen cur s' out := by
  rw [writeLoop]
  split <;> rename_i h <;> rw [hfill] at h <;> cases h
  rw [dif_neg hend, dif_pos hfull]

end

section

variable {σ ω : Type} (b : Build) (src : Source σ IoError UInt8) (source : PathName)
  (w : WriteOutput ω)

/-- Over a source the loop is the one of `StreamLoops`. -/
theorem writeLoop_toInput (enc : FileEncryptor) (record : Vector UInt8 maxRecordBytes)
    (cur : List UInt8) (curLen : Nat) (next : List UInt8) (s : σ) (out : ω) :
    writeLoop b src.toInput source w enc record cur curLen next s out
      = Cli.writeLoop b src source w enc record cur curLen next s out := by
  induction hn : (src.rest s).length using Nat.strongRecOn
    generalizing enc record cur curLen next s out with
  | ind n ih =>
    rw [Cli.writeLoop]
    split
    · rename_i e next' s' hfill
      exact writeLoop_of_error b source w enc record cur curLen out
        ((fill_toInput src s next).trans hfill)
    · rename_i nextLen next' s' hfill
      have hfill' := (fill_toInput src s next).trans hfill
      by_cases hend : nextLen = 0
      · subst hend
        rw [writeLoop_of_end b source w enc record cur curLen out hfill']
        symm
        exact dif_pos rfl
      · have hless : (src.rest s').length < n := by
          have hcount := Source.length_of_fill hfill
          omega
        rw [dif_neg hend]
        by_cases hfull : (cur.take curLen).length = chunkBytes
        · rw [writeLoop_of_chunk b source w enc record cur curLen out hfill' hend hfull,
            dif_pos hfull]
          rcases enc.sealChunk b (headChunk chunkBytes (cur.take curLen)
            (Nat.le_of_eq hfull.symm)) record with ⟨r, enc', record'⟩
          match r with
          | .err e => rfl
          | .panic => rfl
          | .ok () =>
            dsimp only
            rcases w.writeAll out record'.toList with ⟨r, out'⟩
            match r with
            | .error e => rfl
            | .ok () => exact ih _ hless enc' record' next' nextLen cur s' out' rfl
        · rw [writeLoop_of_short b source w enc record cur curLen out hfill' hend hfull,
            dif_neg hfull]

theorem writeStreamRecords_toInput (enc : FileEncryptor) (s : σ) (out : ω) :
    writeStreamRecords b src.toInput source w enc s out
      = Cli.writeStreamRecords b src source w enc s out := by
  rw [writeStreamRecords, Cli.writeStreamRecords, fill_toInput]
  rcases src.fill s (List.replicate chunkBytes 0) with ⟨r, cur, s'⟩
  cases r with
  | error e => rfl
  | ok curLen => exact writeLoop_toInput b src source w enc _ cur curLen _ s' out

end

/-! ## Sealing one chunk -/

section

variable (b : Build) {enc : FileEncryptor}

/-- An encryptor that has sealed `count` records and not the last one. -/
structure Sealed (enc : FileEncryptor) (count : Nat) : Prop where
  open_ : enc.push.finalized = false
  counter : enc.push.counter.toNat = count

theorem length_le_record {n : Nat} {piece : List UInt8} (hpiece : piece.length ≤ chunkBytes)
    (hn : n = maxRecordBytes) : piece.length + recordOverheadBytes ≤ n := by
  rw [hn]
  exact Nat.add_le_add_right hpiece _

/-- While the counter lasts, a record of any tag is sealed. -/
theorem sealRecord_of_sealed {count : Nat} (henc : Sealed enc count) (hcount : count + 1 < 2 ^ 64)
    (tag : Tag) {piece out : List UInt8} (hpiece : piece.length ≤ chunkBytes)
    (hout : out.length = maxRecordBytes) :
    ∃ frame enc', enc.sealRecord b tag piece out
        = (.ok frame.length, enc', frame ++ out.drop frame.length)
      ∧ frame.length = piece.length + recordOverheadBytes ∧ enc.emit b (tag, piece) = some (frame, enc')
      ∧ (tag ≠ .final → Sealed enc' (count + 1)) := by
  have hbits : piece.length * 8 < 2 ^ 64 := by
    have hchunk : chunkBytes * 8 < 2 ^ 64 := by decide
    omega
  obtain ⟨wire, hpush⟩ := pushChunk_of_open b henc.open_
    (by rw [henc.counter]; exact hcount) (show ((tag, piece) : Chunk).2.length * 8 < 2 ^ 64 from hbits)
  have hct := length_eq_of_push b ((pushChunk_eq_some b).mp hpush).2
  refine ⟨wire.frame, _, FileEncryptor.sealRecord_of_pushChunk b hpush hpiece
    (length_le_record hpiece hout), ?_, ?_, ?_⟩
  · rw [wire.length_frame, hct]
  · exact (FileEncryptor.emit_eq_some_iff b).mpr ⟨hpiece, wire, hpush, rfl⟩
  · intro htag
    refine ⟨?_, ?_⟩
    · rw [PushState.next, if_neg htag]
      exact henc.open_
    · rw [PushState.next]
      dsimp only
      rw [toNat_succ (by rw [henc.counter]; exact hcount), henc.counter]

/-- A full chunk fills the record. -/
theorem sealChunk_of_sealed {count : Nat} (henc : Sealed enc count) (hcount : count + 1 < 2 ^ 64)
    (chunk : Vector UInt8 chunkBytes) (record : Vector UInt8 maxRecordBytes) :
    ∃ enc' record', enc.sealChunk b chunk record = (.ok (), enc', record')
      ∧ enc.emit b (.message, chunk.toList) = some (record'.toList, enc')
      ∧ Sealed enc' (count + 1) := by
  obtain ⟨frame, enc', hseal, hlen, hemit, hsealed⟩ := sealRecord_of_sealed b henc hcount .message
    (Nat.le_of_eq chunk.length_toList) record.length_toList
  have hframe : frame.length = maxRecordBytes := by rw [hlen, chunk.length_toList, maxRecordBytes]
  rw [List.drop_of_length_le (by rw [record.length_toList, hframe]), List.append_nil] at hseal
  refine ⟨enc', overwrite record frame, ?_, ?_, hsealed (by decide)⟩
  · rw [FileEncryptor.sealChunk, hseal]
  · rw [toList_overwrite_of_length _ hframe, hemit]

/-- After the last counter value nothing is sealed. -/
theorem sealRecord_of_exhausted {count : Nat} (henc : Sealed enc count)
    (hcount : ¬count + 1 < 2 ^ 64) (tag : Tag) {piece out : List UInt8}
    (hpiece : piece.length ≤ chunkBytes) (hout : out.length = maxRecordBytes) :
    ∃ enc' out', enc.sealRecord b tag piece out = (.err .counterExhausted, enc', out') := by
  have hroom := length_le_record hpiece hout
  have hguard : ¬(piece.length > chunkBytes ∨ out.length < piece.length + recordOverheadBytes) := by
    omega
  have hfits : piece.length < 2 ^ 32 := Nat.lt_of_le_of_lt hpiece (by decide)
  have hbuf : ((out.drop recordHeadBytes).take piece.length).length = piece.length := by
    rw [List.length_take_of_le]
    rw [List.length_drop]
    rw [recordOverheadBytes] at hroom
    omega
  have hpush : enc.push.push b tag piece ((out.drop recordHeadBytes).take piece.length)
      = (.err .counterExhausted, enc.push, (out.drop recordHeadBytes).take piece.length) := by
    rw [PushState.push, if_neg (by simp [henc.open_]), if_neg (not_not_intro hbuf),
      checkedSucc_eq_none (by rw [henc.counter]; exact hcount)]
  rw [FileEncryptor.sealRecord, if_neg (by simp [henc.open_])]
  simp only [if_neg hguard, if_neg (not_not_intro hfits), hpush]
  exact ⟨_, _, rfl⟩

end

/-! ## The run -/

/-- What a writer did not refuse is there. -/
def Appends {ω : Type} (w : WriteOutput ω) (written : ω → List UInt8) : Prop :=
  ∀ out data out', w.writeAll out data = (.ok (), out') → written out' = written out ++ data

theorem appends_of_collects {ω : Type} {w : WriteOutput ω} {written : ω → List UInt8}
    (hw : w.Collects written) : Appends w written := by
  intro out data out' h
  obtain ⟨out'', hwrite, hwritten⟩ := hw out data
  rw [hwrite] at h
  cases h
  exact hwritten

/-- Pieces as the chunks of a file, the last one final. -/
def tagged : List (List UInt8) → List Chunk
  | [] => []
  | [piece] => [(.final, piece)]
  | piece :: next :: pieces => (.message, piece) :: tagged (next :: pieces)

theorem plaintextOf_tagged (pieces : List (List UInt8)) :
    plaintextOf (tagged pieces) = pieces.flatten := by
  induction pieces with
  | nil => rfl
  | cons piece pieces ih =>
    cases pieces with
    | nil => rfl
    | cons next pieces =>
      rw [tagged, plaintextOf_cons, ih]
      rfl

theorem framed_tagged {piece : List UInt8} {pieces : List (List UInt8)}
    (hle : ∀ x ∈ piece :: pieces, x.length ≤ chunkBytes)
    (hfull : ∀ x ∈ (piece :: pieces).dropLast, x.length = chunkBytes) :
    Framed (tagged (piece :: pieces)) := by
  induction pieces generalizing piece with
  | nil => exact .last (hle piece List.mem_cons_self)
  | cons next pieces ih =>
    rw [List.dropLast_cons_of_ne_nil (List.cons_ne_nil _ _)] at hfull
    exact .cons (by decide) (hfull piece List.mem_cons_self)
      (ih (fun x hx => hle x (List.mem_cons_of_mem _ hx))
        (fun x hx => hfull x (List.mem_cons_of_mem _ hx)))

/-- How many records the fills of a script lead to: with an error at the end, the last chunk
is not sealed. -/
def recordsOf {ε : Type} (taken : List (List UInt8) × Option ε) : Nat :=
  taken.1.length - (if taken.2.isSome then 1 else 0)

theorem recordsOf_cons_cons {ε : Type} (piece next : List UInt8) (pieces : List (List UInt8))
    (stop : Option ε) :
    recordsOf (piece :: next :: pieces, stop) = recordsOf (next :: pieces, stop) + 1 := by
  simp only [recordsOf, List.length_cons]
  split <;> omega

/-- In the fills of a script, only the last chunk is short; the counter lasts. -/
def Full {ε : Type} (taken : List (List UInt8) × Option ε) : Prop :=
  (∀ piece ∈ taken.1.dropLast, piece.length = chunkBytes) ∧ recordsOf taken < 2 ^ 64

section

variable {ω : Type} (b : Build) (source : PathName) {w : WriteOutput ω} {written : ω → List UInt8}

/-- The chunk in hand and those to come: with only the last one short, the loop ends in an
error or has written their records. -/
theorem writeLoop_of_full (hw : Appends w written) {enc : FileEncryptor} {count : Nat}
    (henc : Sealed enc count) (record : Vector UInt8 maxRecordBytes) {cur next : List UInt8}
    {curLen : Nat} (script : List (ReadResult IoError UInt8)) (out : ω)
    (hcur : cur.length = chunkBytes) (hnext : next.length = chunkBytes) (hle : curLen ≤ chunkBytes)
    (hfull : ∀ piece ∈ (cur.take curLen :: (chunksUpTo chunkBytes script).1).dropLast,
      piece.length = chunkBytes)
    (hcount : count + recordsOf (cur.take curLen :: (chunksUpTo chunkBytes script).1,
      (chunksUpTo chunkBytes script).2) < 2 ^ 64) :
    ∃ r enc' s' out', writeLoop b (scripted IoError UInt8) source w enc record cur curLen next
          script out = (r, enc', s', out')
      ∧ ((∃ e, r = .err e) ∨ r = .ok () ∧ (chunksUpTo chunkBytes script).2 = none
        ∧ ∃ records enc'', runAll (FileEncryptor.emit b) enc
            (tagged (cur.take curLen :: (chunksUpTo chunkBytes script).1)) = some (records, enc'')
          ∧ written out' = written out ++ records.flatten) := by
  have hpiece : (cur.take curLen).length ≤ chunkBytes := by
    rw [List.length_take]
    omega
  fun_induction chunksUpTo chunkBytes script generalizing enc record cur curLen next out count with
  | case1 script e script' hchunk =>
    obtain ⟨buf, hfill⟩ := fill_of_nextChunk_error hnext hchunk
    exact ⟨_, _, _, _, writeLoop_of_error b source w enc record cur curLen out hfill,
      .inl ⟨_, rfl⟩⟩
  | case2 script script' hchunk =>
    obtain ⟨buf, hfill, -, -⟩ := fill_of_nextChunk hnext hchunk
    obtain ⟨frame, enc', hseal, -, hemit, -⟩ := sealRecord_of_sealed b henc
      (by simpa [recordsOf] using hcount) .final hpiece record.length_toList
    rw [writeLoop_of_end b source w enc record cur curLen out hfill, FileEncryptor.sealFinal, hseal]
    dsimp only
    rw [List.take_left]
    rcases hwrite : w.writeAll out frame with ⟨r, out'⟩
    cases r with
    | error e => exact ⟨_, _, _, _, rfl, .inl ⟨e, rfl⟩⟩
    | ok u =>
      refine ⟨_, _, _, _, rfl, .inr ⟨rfl, rfl, [frame], enc', ?_, ?_⟩⟩
      · exact runAll_cons_eq_some.mpr ⟨frame, enc', [], hemit, rfl, rfl⟩
      · rw [hw _ _ _ hwrite]
        simp
  | case3 script data script' hchunk hend hdec ih =>
    obtain ⟨next', hfill, hnext', htake⟩ := fill_of_nextChunk hnext hchunk
    have hend' : data.length ≠ 0 := mt List.eq_nil_of_length_eq_zero hend
    have hdata := (nextChunk_spec chunkBytes hchunk).1
    rw [List.dropLast_cons_of_ne_nil (List.cons_ne_nil _ _)] at hfull
    dsimp only at hcount
    rw [recordsOf_cons_cons] at hcount
    have hchunkFull : (cur.take curLen).length = chunkBytes := hfull _ List.mem_cons_self
    obtain ⟨enc', record', hseal, hemit, hsealed⟩ := sealChunk_of_sealed b henc (by omega)
      (headChunk chunkBytes (cur.take curLen) (Nat.le_of_eq hchunkFull.symm)) record
    rw [writeLoop_of_chunk b source w enc record cur curLen out hfill hend' hchunkFull, hseal]
    dsimp only
    rcases hwrite : w.writeAll out record'.toList with ⟨r, out'⟩
    cases r with
    | error e => exact ⟨_, _, _, _, rfl, .inl ⟨e, rfl⟩⟩
    | ok u =>
      rw [← htake] at hfull hcount
      obtain ⟨r, enc'', s', out'', hloop, hresult⟩ := ih hsealed record' out' hnext' hcur hdata
        (fun x hx => hfull x (List.mem_cons_of_mem _ hx)) (by omega) (by rw [htake]; exact hdata)
      refine ⟨r, enc'', s', out'', hloop, hresult.imp id ?_⟩
      rintro ⟨hr, hstop, records, last, hrun, hwritten⟩
      refine ⟨hr, hstop, record'.toList :: records, last, ?_, ?_⟩
      · rw [← htake, tagged]
        have hhead : (headChunk chunkBytes (cur.take curLen) (Nat.le_of_eq hchunkFull.symm)).toList
            = cur.take curLen := List.take_of_length_le (Nat.le_of_eq hchunkFull)
        rw [hhead] at hemit
        exact runAll_cons_eq_some.mpr ⟨_, enc', records, hemit, hrun, rfl⟩
      · rw [hwritten, hw _ _ _ hwrite, List.flatten_cons, List.append_assoc]

/-- Otherwise, with a writer that refuses nothing, it panics. -/
theorem writeLoop_panics (hw : w.Collects written) {enc : FileEncryptor} {count : Nat}
    (henc : Sealed enc count) (record : Vector UInt8 maxRecordBytes) {cur next : List UInt8}
    {curLen : Nat} (script : List (ReadResult IoError UInt8)) (out : ω)
    (hcur : cur.length = chunkBytes) (hnext : next.length = chunkBytes) (hle : curLen ≤ chunkBytes)
    (hnot : ¬((∀ piece ∈ (cur.take curLen :: (chunksUpTo chunkBytes script).1).dropLast,
        piece.length = chunkBytes)
      ∧ count + recordsOf (cur.take curLen :: (chunksUpTo chunkBytes script).1,
        (chunksUpTo chunkBytes script).2) < 2 ^ 64)) (hlast : count < 2 ^ 64) :
    (writeLoop b (scripted IoError UInt8) source w enc record cur curLen next script out).1
      = .panic := by
  have hpiece : (cur.take curLen).length ≤ chunkBytes := by
    rw [List.length_take]
    omega
  fun_induction chunksUpTo chunkBytes script generalizing enc record cur curLen next out count with
  | case1 script e script' hchunk =>
    refine absurd ⟨?_, ?_⟩ hnot
    · intro piece hmem
      cases hmem
    · simpa [recordsOf] using hlast
  | case2 script script' hchunk =>
    obtain ⟨buf, hfill, -, -⟩ := fill_of_nextChunk hnext hchunk
    have hexhausted : ¬count + 1 < 2 ^ 64 := by
      intro hcount
      refine hnot ⟨?_, by simpa [recordsOf] using hcount⟩
      intro piece hmem
      cases hmem
    obtain ⟨enc', out', hseal⟩ := sealRecord_of_exhausted b henc hexhausted .final hpiece
      record.length_toList
    rw [writeLoop_of_end b source w enc record cur curLen out hfill, FileEncryptor.sealFinal, hseal]
    rfl
  | case3 script data script' hchunk hend hdec ih =>
    obtain ⟨next', hfill, hnext', htake⟩ := fill_of_nextChunk hnext hchunk
    have hend' : data.length ≠ 0 := mt List.eq_nil_of_length_eq_zero hend
    have hdata := (nextChunk_spec chunkBytes hchunk).1
    by_cases hfull : (cur.take curLen).length = chunkBytes
    · by_cases hcount : count + 1 < 2 ^ 64
      · obtain ⟨enc', record', hseal, -, hsealed⟩ := sealChunk_of_sealed b henc hcount
          (headChunk chunkBytes (cur.take curLen) (Nat.le_of_eq hfull.symm)) record
        obtain ⟨out', hwrite, -⟩ := hw out record'.toList
        rw [writeLoop_of_chunk b source w enc record cur curLen out hfill hend' hfull, hseal]
        simp only [hwrite]
        refine ih hsealed record' out' hnext' hcur hdata ?_ hcount (by rw [htake]; exact hdata)
        rintro ⟨hrest, hrecords⟩
        rw [htake] at hrest hrecords
        refine hnot ⟨?_, by dsimp only; rw [recordsOf_cons_cons]; omega⟩
        rw [List.dropLast_cons_of_ne_nil (List.cons_ne_nil _ _)]
        intro piece hmem
        obtain rfl | hmem := List.mem_cons.mp hmem
        · exact hfull
        · exact hrest piece hmem
      · obtain ⟨enc', out', hseal⟩ := sealRecord_of_exhausted b henc hcount .message
          (Nat.le_of_eq
            (headChunk chunkBytes (cur.take curLen) (Nat.le_of_eq hfull.symm)).length_toList)
          record.length_toList
        rw [writeLoop_of_chunk b source w enc record cur curLen out hfill hend' hfull,
          FileEncryptor.sealChunk, hseal]
        rfl
    · rw [writeLoop_of_short b source w enc record cur curLen out hfill hend' hfull]

/-! ## The contract -/

/-- The chunks a script fills come in order: only the last one is short, and there are fewer
than `2^64` records. -/
def InOrder (script : List (ReadResult IoError UInt8)) : Prop :=
  Full (fills chunkBytes script)

/-- No panic, and a file that is reported complete decrypts to what the reader gave out before
a reported end. -/
def Sound (key header : Vector UInt8 32) (w : WriteOutput ω) (written : ω → List UInt8)
    (script : List (ReadResult IoError UInt8)) (out : ω) : Prop :=
  let run := writeStreamRecords b (scripted IoError UInt8) source w
    (FileEncryptor.init b key header).1 script out
  run.1 ≠ .panic ∧ (run.1 = .ok () → ∃ plaintext,
    openAll b (FileDecryptor.new key) (written run.2.2.2) = .ok plaintext
      ∧ EndsAt script plaintext)

theorem sealed_init (key header : Vector UInt8 32) :
    Sealed (FileEncryptor.init b key header).1 0 := ⟨rfl, rfl⟩

/-- Chunks up to an empty one, and where the reader was then. -/
theorem endsAt_chunksUpTo {script : List (ReadResult IoError UInt8)}
    (h : (chunksUpTo chunkBytes script).2 = none) :
    EndsAt script (chunksUpTo chunkBytes script).1.flatten := by
  fun_induction chunksUpTo chunkBytes script with
  | case1 script e script' hchunk => cases h
  | case2 script script' hchunk => exact endsAt_of_nextChunk_nil (by decide) hchunk
  | case3 script data script' hchunk hend hdec ih =>
    rw [List.flatten_cons]
    exact EndsAt.of_nextChunk hchunk (ih h)

theorem length_chunksUpTo_le (script : List (ReadResult IoError UInt8)) :
    ∀ piece ∈ (chunksUpTo chunkBytes script).1, piece.length ≤ chunkBytes := by
  fun_induction chunksUpTo chunkBytes script with
  | case1 script e script' hchunk => simp
  | case2 script script' hchunk => simp
  | case3 script data script' hchunk hend hdec ih =>
    intro piece hmem
    obtain rfl | hmem := List.mem_cons.mp hmem
    · exact (nextChunk_spec chunkBytes hchunk).1
    · exact ih piece hmem

variable {source} {key header : Vector UInt8 32} {script : List (ReadResult IoError UInt8)} {out : ω}

theorem sound_of_inOrder (hw : Appends w written)
    (hout : written out = (FileEncryptor.init b key header).2.toList) (horder : InOrder script) :
    Sound b source key header w written script out := by
  rw [Sound, writeStreamRecords]
  rw [InOrder, Full, fills] at horder
  have hbuf := List.length_replicate (n := chunkBytes) (a := (0 : UInt8))
  rcases hchunk : nextChunk chunkBytes script with ⟨first, script'⟩
  rw [hchunk] at horder
  match first with
  | .error e =>
    obtain ⟨buf, hfill⟩ := fill_of_nextChunk_error hbuf hchunk
    simp only [hfill]
    exact ⟨nofun, nofun⟩
  | .ok first =>
    obtain ⟨cur, hfill, hcur, htake⟩ := fill_of_nextChunk hbuf hchunk
    have hfirst := (nextChunk_spec chunkBytes hchunk).1
    dsimp only at horder
    obtain ⟨hfull, hcount⟩ := horder
    rw [← htake] at hfull hcount
    obtain ⟨r, enc', s', out', hloop, hresult⟩ := writeLoop_of_full b source hw
      (sealed_init b key header) (Vector.replicate maxRecordBytes 0) script' out hcur hbuf hfirst
      hfull (by rwa [Nat.zero_add])
    simp only [hfill, hloop]
    obtain ⟨e, rfl⟩ | ⟨rfl, hstop, records, last, hrun, hwritten⟩ := hresult
    · exact ⟨nofun, nofun⟩
    · refine ⟨nofun, fun _ => ⟨_, ?_, EndsAt.of_nextChunk hchunk (endsAt_chunksUpTo hstop)⟩⟩
      have hle : ∀ piece ∈ cur.take first.length :: (chunksUpTo chunkBytes script').1,
          piece.length ≤ chunkBytes := by
        intro piece hmem
        obtain rfl | hmem := List.mem_cons.mp hmem
        · rw [htake]
          exact hfirst
        · exact length_chunksUpTo_le script' piece hmem
      refine openAll_eq_ok_iff_isFile.mpr ⟨header, _, ⟨framed_tagged hle hfull, records, last, hrun, ?_⟩, ?_⟩
      · rw [hwritten, hout]
      · rw [plaintextOf_tagged, List.flatten_cons, htake]

theorem panic_of_not_inOrder (hw : w.Collects written) (horder : ¬InOrder script) :
    (writeStreamRecords b (scripted IoError UInt8) source w (FileEncryptor.init b key header).1
      script out).1 = .panic := by
  rw [writeStreamRecords]
  rw [InOrder, Full, fills] at horder
  have hbuf := List.length_replicate (n := chunkBytes) (a := (0 : UInt8))
  rcases hchunk : nextChunk chunkBytes script with ⟨first, script'⟩
  rw [hchunk] at horder
  match first with
  | .error e =>
    refine absurd ⟨?_, show 0 < 2 ^ 64 by decide⟩ horder
    intro piece hmem
    cases hmem
  | .ok first =>
    obtain ⟨cur, hfill, hcur, htake⟩ := fill_of_nextChunk hbuf hchunk
    simp only [hfill]
    refine writeLoop_panics b source hw (sealed_init b key header) _ script' out hcur hbuf
      (nextChunk_spec chunkBytes hchunk).1 ?_ (by decide)
    rw [htake, Nat.zero_add]
    exact horder

/-- **Exactly in order.** With any writer a run in order is sound; with one that refuses
nothing, no other run is. -/
theorem writeStreamRecords_sound_iff (source : PathName) (key header : Vector UInt8 32)
    (w : WriteOutput ω) (written : ω → List UInt8) (script : List (ReadResult IoError UInt8))
    (out : ω) (hout : written out = (FileEncryptor.init b key header).2.toList) :
    (Appends w written → InOrder script → Sound b source key header w written script out)
      ∧ (w.Collects written → (Sound b source key header w written script out ↔ InOrder script)) := by
  refine ⟨fun hw horder => sound_of_inOrder b hw hout horder, ?_⟩
  intro hw
  constructor
  · intro hsound
    by_contra horder
    exact hsound.1 (panic_of_not_inOrder b hw horder)
  · exact sound_of_inOrder b (appends_of_collects hw) hout

end

/-- One byte, then the end: in order. -/
theorem writeStreamRecords_sound_iff_byte :
    Sound ⟨.fused, false⟩ ["in"] (Vector.replicate 32 0) (Vector.replicate 32 1) vecOutput id
      [.ok [7], .interrupted, .ok []]
      (FileEncryptor.init ⟨.fused, false⟩ (Vector.replicate 32 0) (Vector.replicate 32 1)).2.toList := by
  refine ((writeStreamRecords_sound_iff ⟨.fused, false⟩ ["in"] (Vector.replicate 32 0)
    (Vector.replicate 32 1) vecOutput id [.ok [7], .interrupted, .ok []] _ rfl).2
      collects_vecOutput).mpr ?_
  have hfills : fills chunkBytes ([.ok [7], .interrupted, .ok []] : List (ReadResult IoError UInt8))
      = ([[7]], none) := by
    simp [fills, chunksUpTo, nextChunk, chunkBytes]
  rw [InOrder, hfills]
  exact ⟨by simp, by decide⟩

/-- A byte, a reported end, and another byte: the loop takes the first for a chunk that cannot
be followed, and panics. -/
theorem late_data_panics :
    ¬Sound ⟨.fused, false⟩ ["in"] (Vector.replicate 32 0) (Vector.replicate 32 1) vecOutput id
      [.ok [7], .ok [], .ok [8]]
      (FileEncryptor.init ⟨.fused, false⟩ (Vector.replicate 32 0) (Vector.replicate 32 1)).2.toList := by
  have hfills : fills chunkBytes ([.ok [7], .ok [], .ok [8]] : List (ReadResult IoError UInt8))
      = ([[7], [8]], none) := by
    simp [fills, chunksUpTo, nextChunk, chunkBytes]
  intro hsound
  refine hsound.1 (panic_of_not_inOrder ⟨.fused, false⟩ collects_vecOutput ?_)
  rw [InOrder, hfills]
  rintro ⟨hfull, -⟩
  exact absurd (hfull [7] (by simp)) (by decide)

end UaCrypt.Cli.LateData

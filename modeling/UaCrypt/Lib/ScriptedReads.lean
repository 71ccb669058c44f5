import UaCrypt.Lib.ShortReads

/-!
# Readers whose end need not last

A `read` call that gives nothing reports the end of the input, but nothing keeps a reader
from giving more afterwards, as a file does that is still being written. An `Input` is any
reader that cannot go on for ever.

- `Input.fill`: reads until a buffer is full or an end is reported; `fillFrom_toInput`: over a
  `Source` the same loop.
- `scripted`: the reader that answers by a given list of results.
- `nextChunk`, `fills`: what successive fills get from a script; `fill_of_nextChunk`.
- `EndsAt`: where a script reports an end.
-/

namespace ShortReads

open Chunks

/-- A reader in state `s` delivers at most `left s` symbols from there on. -/
structure Input (σ ε α : Type) where
  read : σ → Nat → ReadResult ε α × σ
  left : σ → Nat
  /-- A bound on the interruptions before the next answer. -/
  waits : σ → Nat
  read_ok : ∀ {s n data s'}, 0 < n → read s n = (.ok data, s') →
    data.length ≤ n ∧ left s' + data.length ≤ left s
  read_interrupted : ∀ {s n s'}, read s n = (.interrupted, s') → left s' ≤ left s ∧ waits s' < waits s

namespace Input

variable {σ ε α : Type} (inp : Input σ ε α)

section

variable {inp} {s s' : σ} {buf : List α} {filled : Nat}

theorem room_lt {data : List α} (hlt : filled < buf.length)
    (hread : inp.read s (buf.length - filled) = (.ok data, s')) (hend : data ≠ []) :
    (writeAt buf filled data).length - (filled + data.length) < buf.length - filled := by
  have hle := (inp.read_ok (Nat.sub_pos_of_lt hlt) hread).1
  have hpos := List.length_pos_iff.mpr hend
  rw [Source.length_writeAt (by omega)]
  omega

theorem waits_lt (hread : inp.read s (buf.length - filled) = (.interrupted, s')) :
    inp.waits s' < inp.waits s := (inp.read_interrupted hread).2

end

/-- Reads into `buf` from `filled` on, until it is full or an end is reported. -/
def fillFrom (s : σ) (buf : List α) (filled : Nat) : Except ε Nat × List α × σ :=
  if hlt : filled < buf.length then
    match hread : inp.read s (buf.length - filled) with
    | (.ok data, s') =>
      if hend : data = [] then (.ok filled, buf, s')
      else
        have := room_lt hlt hread hend
        fillFrom s' (writeAt buf filled data) (filled + data.length)
    | (.interrupted, s') =>
      have := waits_lt hread
      fillFrom s' buf filled
    | (.failed e, s') => (.error e, buf, s')
  else (.ok filled, buf, s)
termination_by (buf.length - filled, inp.waits s)

/-- Reads until `buf` is full or an end is reported. -/
def fill (s : σ) (buf : List α) : Except ε Nat × List α × σ := inp.fillFrom s buf 0

variable {inp}

/-! One read of the loop. -/

theorem fillFrom_full {s : σ} {buf : List α} {filled : Nat} (h : ¬filled < buf.length) :
    inp.fillFrom s buf filled = (.ok filled, buf, s) := by
  rw [fillFrom, dif_neg h]

theorem fillFrom_of_end {s s' : σ} {buf : List α} {filled : Nat} (hlt : filled < buf.length)
    (hread : inp.read s (buf.length - filled) = (.ok [], s')) :
    inp.fillFrom s buf filled = (.ok filled, buf, s') := by
  rw [fillFrom, dif_pos hlt]
  split <;> rename_i hread' <;> rw [hread] at hread' <;> cases hread'
  rfl

theorem fillFrom_of_data {s s' : σ} {buf data : List α} {filled : Nat} (hlt : filled < buf.length)
    (hdata : data ≠ []) (hread : inp.read s (buf.length - filled) = (.ok data, s')) :
    inp.fillFrom s buf filled
      = inp.fillFrom s' (writeAt buf filled data) (filled + data.length) := by
  rw [fillFrom, dif_pos hlt]
  split <;> rename_i hread' <;> rw [hread] at hread' <;> cases hread'
  exact dif_neg hdata

theorem fillFrom_of_interrupted {s s' : σ} {buf : List α} {filled : Nat} (hlt : filled < buf.length)
    (hread : inp.read s (buf.length - filled) = (.interrupted, s')) :
    inp.fillFrom s buf filled = inp.fillFrom s' buf filled := by
  rw [fillFrom, dif_pos hlt]
  split <;> rename_i hread' <;> rw [hread] at hread' <;> cases hread'
  rfl

theorem fillFrom_of_failed {s s' : σ} {buf : List α} {filled : Nat} {e : ε}
    (hlt : filled < buf.length) (hread : inp.read s (buf.length - filled) = (.failed e, s')) :
    inp.fillFrom s buf filled = (.error e, buf, s') := by
  rw [fillFrom, dif_pos hlt]
  split <;> rename_i hread' <;> rw [hread] at hread' <;> cases hread'
  rfl

theorem left_of_fillFrom {s s' : σ} {buf buf' : List α} {filled n : Nat}
    (hfilled : filled ≤ buf.length) (h : inp.fillFrom s buf filled = (.ok n, buf', s')) :
    inp.left s' + n ≤ inp.left s + filled := by
  fun_induction fillFrom inp s buf filled with
  | case1 s buf filled hlt t hread =>
    obtain ⟨-, hleft⟩ := inp.read_ok (Nat.sub_pos_of_lt hlt) hread
    cases h
    simpa using hleft
  | case2 s buf filled hlt data t hread hend hdec ih =>
    obtain ⟨hle, hleft⟩ := inp.read_ok (Nat.sub_pos_of_lt hlt) hread
    have hrest := ih (by rw [Source.length_writeAt (by omega)]; omega) h
    omega
  | case3 s buf filled hlt t hread hdec ih =>
    obtain ⟨hleft, -⟩ := inp.read_interrupted hread
    have hrest := ih hfilled h
    omega
  | case4 s buf filled hlt e t hread => cases h
  | case5 s buf filled hge =>
    cases h
    exact Nat.le_refl _

theorem left_of_fill {s s' : σ} {buf buf' : List α} {n : Nat}
    (h : inp.fill s buf = (.ok n, buf', s')) : inp.left s' + n ≤ inp.left s :=
  left_of_fillFrom (Nat.zero_le _) h

end Input

section

variable {σ ε α : Type}

/-- A source is a reader whose end lasts. -/
def Source.toInput (src : Source σ ε α) : Input σ ε α where
  read := src.read
  left s := (src.rest s).length
  waits := src.waits
  read_ok hn h := by
    obtain ⟨hle, hrest, -⟩ := src.read_ok hn h
    refine ⟨hle, ?_⟩
    rw [hrest, List.length_append, Nat.add_comm]
  read_interrupted h := by
    obtain ⟨hrest, hwaits⟩ := src.read_interrupted h
    exact ⟨Nat.le_of_eq (congrArg List.length hrest), hwaits⟩

theorem fillFrom_toInput (src : Source σ ε α) (s : σ) (buf : List α) (filled : Nat) :
    src.toInput.fillFrom s buf filled = src.fillFrom s buf filled := by
  fun_induction Source.fillFrom src s buf filled with
  | case1 s buf filled hlt t hread => exact Input.fillFrom_of_end hlt hread
  | case2 s buf filled hlt data t hread hend hle hdec ih =>
    rw [Input.fillFrom_of_data hlt hend hread, ih]
  | case3 s buf filled hlt t hread hdec ih => rw [Input.fillFrom_of_interrupted hlt hread, ih]
  | case4 s buf filled hlt e t hread => exact Input.fillFrom_of_failed hlt hread
  | case5 s buf filled hge => exact Input.fillFrom_full hge

theorem fill_toInput (src : Source σ ε α) (s : σ) (buf : List α) :
    src.toInput.fill s buf = src.fill s buf :=
  fillFrom_toInput src s buf 0

/-! ## Scripts -/

/-- The symbols of a list of results. -/
def delivered : List (ReadResult ε α) → List α
  | [] => []
  | .ok data :: script => data ++ delivered script
  | .interrupted :: script => delivered script
  | .failed _ :: script => delivered script

/-- The reader that gives the results of a script one after another, what does not fit in a
buffer with the next call, and reports the end after the last one. -/
def scripted (ε α : Type) : Input (List (ReadResult ε α)) ε α where
  read
    | [], _ => (.ok [], [])
    | .ok data :: script, n =>
      if data.length ≤ n then (.ok data, script)
      else (.ok (data.take n), .ok (data.drop n) :: script)
    | .interrupted :: script, _ => (.interrupted, script)
    | .failed e :: script, _ => (.failed e, script)
  left script := (delivered script).length
  waits script := script.length
  read_ok := by
    rintro script n data script' - h
    match script with
    | [] =>
      cases h
      exact ⟨Nat.zero_le _, Nat.le_refl _⟩
    | .ok all :: script =>
      dsimp only at h
      split at h
      · rename_i hle
        cases h
        refine ⟨hle, ?_⟩
        rw [delivered, List.length_append, Nat.add_comm]
      · cases h
        refine ⟨List.length_take_le _ _, ?_⟩
        simp only [delivered, List.length_append, List.length_take, List.length_drop]
        omega
    | .interrupted :: script => cases h
    | .failed e :: script => cases h
  read_interrupted := by
    rintro script n script' h
    match script with
    | [] => cases h
    | .ok all :: script =>
      dsimp only at h
      split at h <;> cases h
    | .interrupted :: script =>
      cases h
      exact ⟨Nat.le_refl _, Nat.lt_succ_self _⟩
    | .failed e :: script => cases h

theorem read_ok_scripted (data : List α) (script : List (ReadResult ε α)) (n : Nat) :
    (scripted ε α).read (.ok data :: script) n
      = if data.length ≤ n then (.ok data, script)
        else (.ok (data.take n), .ok (data.drop n) :: script) := rfl

/-- What one fill of `n` symbols gets from a script, and what it leaves. -/
def nextChunk : Nat → List (ReadResult ε α) → Except ε (List α) × List (ReadResult ε α)
  | 0, script => (.ok [], script)
  | _ + 1, [] => (.ok [], [])
  | _ + 1, .ok [] :: script => (.ok [], script)
  | n + 1, .ok (a :: data) :: script =>
    if (a :: data).length ≤ n + 1 then
      match nextChunk (n + 1 - (a :: data).length) script with
      | (.ok more, script) => (.ok (a :: data ++ more), script)
      | (.error e, script) => (.error e, script)
    else (.ok ((a :: data).take (n + 1)), .ok ((a :: data).drop (n + 1)) :: script)
  | n + 1, .interrupted :: script => nextChunk (n + 1) script
  | _ + 1, .failed e :: script => (.error e, script)

theorem nextChunk_spec (n : Nat) {script script' : List (ReadResult ε α)} {data : List α}
    (h : nextChunk n script = (.ok data, script')) :
    data.length ≤ n ∧ (delivered script).length = data.length + (delivered script').length := by
  fun_induction nextChunk n script generalizing data with
  | case1 script =>
    cases h
    exact ⟨Nat.le_refl _, (Nat.zero_add _).symm⟩
  | case2 n =>
    cases h
    exact ⟨Nat.zero_le _, rfl⟩
  | case3 n script =>
    cases h
    exact ⟨Nat.zero_le _, (Nat.zero_add _).symm⟩
  | case4 n a data script hle more script₁ hmore ih =>
    cases h
    obtain ⟨hmoreLe, hlen⟩ := ih hmore
    rw [delivered, List.length_append, List.length_append, hlen]
    omega
  | case5 n a data script hle e script₁ hfail ih => cases h
  | case6 n a data script hgt =>
    cases h
    simp only [delivered, List.length_append, List.length_take, List.length_drop]
    omega
  | case7 n script ih => exact ih h
  | case8 n e script => cases h

theorem writeAt_nil (buf : List α) (off : Nat) : writeAt buf off [] = buf := by
  simp [writeAt]

theorem writeAt_writeAt {buf data more : List α} {off : Nat}
    (h : off + data.length ≤ buf.length) :
    writeAt (writeAt buf off data) (off + data.length) more = writeAt buf off (data ++ more) := by
  have hfront : (buf.take off ++ data).length = off + data.length := by
    rw [List.length_append, List.length_take]
    omega
  rw [writeAt, writeAt, List.take_left' hfront, ← hfront, List.drop_length_add_append, hfront,
    List.drop_drop, writeAt, List.append_assoc (buf.take off), List.length_append, Nat.add_assoc]

/-- What a fill of `n` symbols into a buffer comes to. -/
def Fills (n : Nat) (script : List (ReadResult ε α)) (buf : List α) (filled : Nat)
    (result : Except ε Nat × List α × List (ReadResult ε α)) : Prop :=
  match nextChunk n script with
  | (.ok data, script') => result = (.ok (filled + data.length), writeAt buf filled data, script')
  | (.error e, script') => ∃ buf', result = (.error e, buf', script')

/-- The loop over a script, with room for `n` symbols after `filled`. -/
theorem fillFrom_scripted (script : List (ReadResult ε α)) {buf : List α} {n filled : Nat}
    (hn : buf.length = filled + n) :
    Fills n script buf filled ((scripted ε α).fillFrom script buf filled) := by
  rw [Fills]
  fun_induction nextChunk n script generalizing buf filled with
  | case1 script =>
    rw [Input.fillFrom_full (by omega)]
    simp [writeAt_nil]
  | case2 n =>
    have hread : (scripted ε α).read [] (buf.length - filled) = (.ok [], []) := rfl
    rw [Input.fillFrom_of_end (by omega) hread]
    simp [writeAt_nil]
  | case3 n script =>
    have hread : (scripted ε α).read (.ok [] :: script) (buf.length - filled) = (.ok [], script) := by
      rw [read_ok_scripted]
      exact if_pos (Nat.zero_le _)
    rw [Input.fillFrom_of_end (by omega) hread]
    simp [writeAt_nil]
  | case4 n a data script hle more script' hmore ih =>
    have hread : (scripted ε α).read (.ok (a :: data) :: script) (buf.length - filled)
        = (.ok (a :: data), script) := by
      rw [read_ok_scripted, if_pos (by omega)]
    have hlen : (writeAt buf filled (a :: data)).length
        = filled + (a :: data).length + (n + 1 - (a :: data).length) := by
      rw [Source.length_writeAt (by omega)]
      omega
    have hrest := ih hlen
    rw [hmore] at hrest
    dsimp only at hrest ⊢
    rw [Input.fillFrom_of_data (by omega) (List.cons_ne_nil _ _) hread, hrest,
      writeAt_writeAt (by omega), List.length_append, Nat.add_assoc]
  | case5 n a data script hle e script' hfail ih =>
    have hread : (scripted ε α).read (.ok (a :: data) :: script) (buf.length - filled)
        = (.ok (a :: data), script) := by
      rw [read_ok_scripted, if_pos (by omega)]
    have hlen : (writeAt buf filled (a :: data)).length
        = filled + (a :: data).length + (n + 1 - (a :: data).length) := by
      rw [Source.length_writeAt (by omega)]
      omega
    have hrest := ih hlen
    rw [hfail] at hrest
    rw [Input.fillFrom_of_data (by omega) (List.cons_ne_nil _ _) hread]
    exact hrest
  | case6 n a data script hgt =>
    have hroom : buf.length - filled = n + 1 := by omega
    have hread : (scripted ε α).read (.ok (a :: data) :: script) (buf.length - filled)
        = (.ok ((a :: data).take (n + 1)), .ok ((a :: data).drop (n + 1)) :: script) := by
      rw [read_ok_scripted, hroom, if_neg hgt]
    have hlen : ((a :: data).take (n + 1)).length = n + 1 := by
      rw [List.length_take]
      omega
    rw [Input.fillFrom_of_data (by omega) (by simp) hread, Input.fillFrom_full]
    rw [Source.length_writeAt (by omega)]
    omega
  | case7 n script ih =>
    have hread : (scripted ε α).read (.interrupted :: script) (buf.length - filled)
        = (.interrupted, script) := rfl
    rw [Input.fillFrom_of_interrupted (by omega) hread]
    exact ih hn
  | case8 n e script =>
    exact ⟨buf, Input.fillFrom_of_failed (by omega) rfl⟩

/-- A fill takes the next chunk of the script. -/
theorem fill_of_nextChunk {script script' : List (ReadResult ε α)} {buf data : List α} {n : Nat}
    (hbuf : buf.length = n) (h : nextChunk n script = (.ok data, script')) :
    ∃ buf', (scripted ε α).fill script buf = (.ok data.length, buf', script')
      ∧ buf'.length = n ∧ buf'.take data.length = data := by
  have hfill := fillFrom_scripted script (show buf.length = 0 + n from hbuf.trans (Nat.zero_add n).symm)
  have hle := (nextChunk_spec n h).1
  rw [Fills, h] at hfill
  dsimp only at hfill
  rw [Nat.zero_add] at hfill
  refine ⟨_, hfill, ?_, ?_⟩
  · rw [Source.length_writeAt (by omega), hbuf]
  · rw [writeAt, List.take_zero, List.nil_append, List.take_left]

theorem fill_of_nextChunk_error {script script' : List (ReadResult ε α)} {buf : List α} {n : Nat}
    {e : ε} (hbuf : buf.length = n) (h : nextChunk n script = (.error e, script')) :
    ∃ buf', (scripted ε α).fill script buf = (.error e, buf', script') := by
  have hfill := fillFrom_scripted script (show buf.length = 0 + n from hbuf.trans (Nat.zero_add n).symm)
  rw [Fills, h] at hfill
  exact hfill

/-! ## Chunks of a script -/

/-- The chunks that fills of `n` symbols get, up to an empty one or an error. -/
def chunksUpTo (n : Nat) (script : List (ReadResult ε α)) : List (List α) × Option ε :=
  match hnext : nextChunk n script with
  | (.error e, _) => ([], some e)
  | (.ok data, script') =>
    if hend : data = [] then ([], none)
    else
      have : (delivered script').length < (delivered script).length := by
        have hspec := (nextChunk_spec n hnext).2
        have hpos := List.length_pos_iff.mpr hend
        omega
      (data :: (chunksUpTo n script').1, (chunksUpTo n script').2)
termination_by (delivered script).length

/-- The chunks that fills of `n` symbols get, the first one as it is, those after it up to an
empty one or an error. -/
def fills (n : Nat) (script : List (ReadResult ε α)) : List (List α) × Option ε :=
  match nextChunk n script with
  | (.error e, _) => ([], some e)
  | (.ok first, script') => (first :: (chunksUpTo n script').1, (chunksUpTo n script').2)

/-- The script delivers these symbols and then reports the end. -/
def EndsAt (script : List (ReadResult ε α)) (symbols : List α) : Prop :=
  ∃ front rest, script = front ++ rest ∧ delivered front = symbols
    ∧ (rest = [] ∨ ∃ rest', rest = .ok [] :: rest')

/-- An empty fill comes from a reported end. -/
theorem endsAt_of_nextChunk_nil {n : Nat} (hn : 0 < n) {script script' : List (ReadResult ε α)}
    (h : nextChunk n script = (.ok [], script')) : EndsAt script [] := by
  fun_induction nextChunk n script with
  | case1 script => exact absurd hn (Nat.lt_irrefl 0)
  | case2 n => exact ⟨[], [], rfl, rfl, .inl rfl⟩
  | case3 n script => exact ⟨[], _, rfl, rfl, .inr ⟨script, rfl⟩⟩
  | case4 n a data script hle more script₁ hmore ih => cases h
  | case5 n a data script hle e script₁ hfail ih => cases h
  | case6 n a data script hgt => cases h
  | case7 n script ih =>
    obtain ⟨front, rest, rfl, hfront, hrest⟩ := ih hn h
    exact ⟨.interrupted :: front, rest, rfl, hfront, hrest⟩
  | case8 n e script => cases h

/-- Where a script ends after a fill, it ends after what the fill got as well. -/
theorem EndsAt.of_nextChunk {n : Nat} {script script' : List (ReadResult ε α)}
    {data symbols : List α} (h : nextChunk n script = (.ok data, script'))
    (hends : EndsAt script' symbols) : EndsAt script (data ++ symbols) := by
  fun_induction nextChunk n script generalizing data with
  | case1 script =>
    cases h
    exact hends
  | case2 n =>
    cases h
    exact hends
  | case3 n script =>
    cases h
    obtain ⟨front, rest, rfl, hfront, hrest⟩ := hends
    exact ⟨.ok [] :: front, rest, rfl, hfront, hrest⟩
  | case4 n a data script hle more script₁ hmore ih =>
    cases h
    obtain ⟨front, rest, rfl, hfront, hrest⟩ := ih hmore
    exact ⟨.ok (a :: data) :: front, rest, rfl, by rw [delivered, hfront, List.append_assoc], hrest⟩
  | case5 n a data script hle e script₁ hfail ih => cases h
  | case6 n a data script hgt =>
    cases h
    obtain ⟨front, rest, hsplit, hfront, hrest⟩ := hends
    cases front with
    | nil =>
      -- what is left of the data is not an end
      have hne : (a :: data).drop (n + 1) ≠ [] := by
        rw [ne_eq, List.drop_eq_nil_iff]
        omega
      obtain rfl | ⟨rest', rfl⟩ := hrest
      · cases hsplit
      · rw [List.nil_append, List.cons.injEq, ReadResult.ok.injEq] at hsplit
        exact absurd hsplit.1 hne
    | cons result front =>
      rw [List.cons_append, List.cons.injEq] at hsplit
      obtain ⟨rfl, rfl⟩ := hsplit
      refine ⟨.ok (a :: data) :: front, rest, rfl, ?_, hrest⟩
      rw [← hfront, delivered, delivered, ← List.append_assoc, List.take_append_drop]
  | case7 n script ih =>
    obtain ⟨front, rest, rfl, hfront, hrest⟩ := ih h
    exact ⟨.interrupted :: front, rest, rfl, hfront, hrest⟩
  | case8 n e script => cases h

end

end ShortReads

import UaCrypt.Lib.Chunks

/-!
# Sources that answer short

A `read` call may give fewer symbols than it was asked for, or be interrupted and give
none. A `Source` is anything that delivers a list in this way: it carries what it still
has to deliver, and how many interruptions may come before the next answer.

- `Source.fill`: reads until a buffer is full or the source ends.
- `fill_eq`: **short reads do not show**: a filled buffer holds the next symbols of the
  source, as many as fit or as there are.
- `scheduled`: a list delivered by a given schedule of short reads and interruptions.
-/

namespace ShortReads

open Chunks

/-- The answer to one `read` call. -/
inductive ReadResult (ε α : Type) where
  | ok (data : List α)
  | interrupted
  | failed (e : ε)
  deriving DecidableEq, Repr

/-- A source in state `s` has still to deliver `rest s`. Its end is stable: it answers
with nothing only once nothing is left. -/
structure Source (σ ε α : Type) where
  read : σ → Nat → ReadResult ε α × σ
  rest : σ → List α
  /-- A bound on the interruptions before the next answer. -/
  waits : σ → Nat
  read_ok : ∀ {s n data s'}, 0 < n → read s n = (.ok data, s') →
    data.length ≤ n ∧ rest s = data ++ rest s' ∧ (data = [] → rest s = [])
  read_interrupted : ∀ {s n s'}, read s n = (.interrupted, s') →
    rest s' = rest s ∧ waits s' < waits s

namespace Source

variable {σ ε α : Type} (src : Source σ ε α)

/-- No call fails for good. -/
def Faultless : Prop := ∀ s n e s', src.read s n ≠ (.failed e, s')

theorem length_writeAt {buf data : List α} {off : Nat} (h : off + data.length ≤ buf.length) :
    (writeAt buf off data).length = buf.length := by
  simp only [writeAt, List.length_append, List.length_take, List.length_drop]
  omega

/-- Reads into `buf` from `filled` on, until it is full or the source ends. -/
def fillFrom (s : σ) (buf : List α) (filled : Nat) : Except ε Nat × List α × σ :=
  if hlt : filled < buf.length then
    match hread : src.read s (buf.length - filled) with
    | (.ok data, s') =>
      if hend : data = [] then (.ok filled, buf, s')
      else
        have hle := (src.read_ok (Nat.sub_pos_of_lt hlt) hread).1
        have : (writeAt buf filled data).length - (filled + data.length)
            < buf.length - filled := by
          have hpos := List.length_pos_iff.mpr hend
          rw [length_writeAt (by omega)]
          omega
        fillFrom s' (writeAt buf filled data) (filled + data.length)
    | (.interrupted, s') =>
      have := (src.read_interrupted hread).2
      fillFrom s' buf filled
    | (.failed e, s') => (.error e, buf, s')
  else (.ok filled, buf, s)
termination_by (buf.length - filled, src.waits s)

/-- Reads until `buf` is full or the source ends. -/
def fill (s : σ) (buf : List α) : Except ε Nat × List α × σ := src.fillFrom s buf 0

variable {src}

/-- What went into the buffer is what the source delivered. -/
theorem length_of_fillFrom {s s' : σ} {buf buf' : List α} {filled n : Nat}
    (hfilled : filled ≤ buf.length) (h : src.fillFrom s buf filled = (.ok n, buf', s')) :
    (src.rest s').length + n = (src.rest s).length + filled := by
  fun_induction fillFrom src s buf filled with
  | case1 s buf filled hlt t hread =>
    obtain ⟨-, hrest, -⟩ := src.read_ok (Nat.sub_pos_of_lt hlt) hread
    cases h
    rw [hrest, List.nil_append]
  | case2 s buf filled hlt data t hread hend hle hdec ih =>
    obtain ⟨-, hrest, -⟩ := src.read_ok (Nat.sub_pos_of_lt hlt) hread
    have hlen := ih (by rw [length_writeAt (by omega)]; omega) h
    rw [hrest, List.length_append]
    omega
  | case3 s buf filled hlt t hread hdec ih =>
    rw [← (src.read_interrupted hread).1]
    exact ih hfilled h
  | case4 s buf filled hlt e t hread => cases h
  | case5 s buf filled hge =>
    cases h
    rfl

theorem length_of_fill {s s' : σ} {buf buf' : List α} {n : Nat}
    (h : src.fill s buf = (.ok n, buf', s')) :
    (src.rest s').length + n = (src.rest s).length := length_of_fillFrom (Nat.zero_le _) h

/-- What the loop leaves: the next symbols after those already there. -/
theorem fillFrom_eq (hsrc : src.Faultless) (s : σ) (buf : List α) {filled : Nat}
    (hfilled : filled ≤ buf.length) :
    ∃ s', src.fillFrom s buf filled
        = (.ok (filled + ((src.rest s).take (buf.length - filled)).length),
          writeAt buf filled ((src.rest s).take (buf.length - filled)), s')
      ∧ src.rest s' = (src.rest s).drop (buf.length - filled) := by
  fun_induction fillFrom src s buf filled with
  | case1 s buf filled hlt s' hread =>
    obtain ⟨-, hrest, hnil⟩ := src.read_ok (Nat.sub_pos_of_lt hlt) hread
    have hempty := hnil rfl
    rw [List.nil_append] at hrest
    refine ⟨s', ?_, ?_⟩
    · simp [hempty, writeAt]
    · rw [← hrest, hempty, List.drop_nil]
  | case2 s buf filled hlt data s' hread hend hle hdec ih =>
    obtain ⟨-, hrest, -⟩ := src.read_ok (Nat.sub_pos_of_lt hlt) hread
    have hlen : (writeAt buf filled data).length = buf.length := length_writeAt (by omega)
    obtain ⟨t, heq, hrest'⟩ := ih (by omega)
    have hsub : buf.length - (filled + data.length) = buf.length - filled - data.length :=
      Nat.sub_add_eq _ _ _
    rw [hlen, hsub] at heq hrest'
    -- the symbols just read, then those the rest of the loop reads
    have htake : (src.rest s).take (buf.length - filled)
        = data ++ (src.rest s').take (buf.length - filled - data.length) := by
      rw [hrest, List.take_append, List.take_of_length_le hle]
    refine ⟨t, ?_, ?_⟩
    · rw [heq, htake, List.length_append, Nat.add_assoc]
      congr 2
      simp only [writeAt, List.length_append, List.append_assoc, ← List.drop_drop]
      rw [List.take_append, List.take_append, List.drop_append, List.drop_append]
      simp [Nat.min_eq_left hfilled, List.take_take]
    · rw [hrest', hrest, List.drop_append, List.drop_of_length_le hle, List.nil_append]
  | case3 s buf filled hlt s' hread hdec ih =>
    obtain ⟨t, heq, hrest⟩ := ih hfilled
    rw [(src.read_interrupted hread).1] at heq hrest
    exact ⟨t, heq, hrest⟩
  | case4 s buf filled hlt e s' hread => exact absurd hread (hsrc _ _ _ _)
  | case5 s buf filled hge =>
    have hzero : buf.length - filled = 0 := by omega
    exact ⟨s, by simp [hzero, writeAt], by rw [hzero, List.drop_zero]⟩

/-- **Short reads do not show.** -/
theorem fill_eq (hsrc : src.Faultless) (s : σ) (buf : List α) :
    ∃ s', src.fill s buf
        = (.ok (min buf.length (src.rest s).length),
          (src.rest s).take buf.length ++ buf.drop (src.rest s).length, s')
      ∧ src.rest s' = (src.rest s).drop buf.length := by
  obtain ⟨s', heq, hrest⟩ := fillFrom_eq hsrc s buf (Nat.zero_le _)
  rw [Nat.sub_zero] at heq hrest
  refine ⟨s', ?_, hrest⟩
  rw [fill, heq, writeAt, List.take_zero, List.nil_append, Nat.zero_add, List.length_take]
  rcases Nat.le_total buf.length (src.rest s).length with hle | hle
  · rw [Nat.min_eq_left hle, List.drop_of_length_le (Nat.le_refl _),
      List.drop_of_length_le hle]
  · rw [Nat.min_eq_right hle]

end Source

/-- Delivers a list by a schedule: `none` interrupts, `some k` answers with at most `k`
symbols, but never with none of those left. After the schedule nothing is held back. -/
def scheduled (ε α : Type) : Source (List α × List (Option Nat)) ε α where
  read s n :=
    match s.2 with
    | [] => (.ok (s.1.take n), (s.1.drop n, []))
    | none :: schedule => (.interrupted, (s.1, schedule))
    | some k :: schedule =>
      (.ok (s.1.take (min (max k 1) n)), (s.1.drop (min (max k 1) n), schedule))
  rest s := s.1
  waits s := s.2.length
  read_ok := by
    rintro ⟨rest, schedule⟩ n data s' hn h
    have hnil : ∀ {k : Nat}, 0 < k → rest.take k = [] → rest = [] := by
      intro k hk hnil
      rw [List.take_eq_nil_iff] at hnil
      exact hnil.resolve_left (Nat.ne_of_gt hk)
    match schedule with
    | [] =>
      cases h
      exact ⟨List.length_take_le _ _, (List.take_append_drop _ _).symm, hnil hn⟩
    | none :: schedule => cases h
    | some k :: schedule =>
      cases h
      refine ⟨Nat.le_trans (List.length_take_le _ _) (Nat.min_le_right _ _),
        (List.take_append_drop _ _).symm, hnil ?_⟩
      omega
  read_interrupted := by
    rintro ⟨rest, schedule⟩ n s' h
    match schedule with
    | [] => cases h
    | none :: schedule =>
      cases h
      exact ⟨rfl, Nat.lt_succ_self _⟩
    | some k :: schedule => cases h

theorem faultless_scheduled (ε α : Type) : (scheduled ε α).Faultless := by
  rintro ⟨rest, schedule⟩ n e s' h
  match schedule with
  | [] => cases h
  | none :: schedule => cases h
  | some k :: schedule => cases h

end ShortReads

import Mathlib

/-!
# Readers of framed input

A reader asks for a number of symbols at a time, takes exactly so many, and is told
when the input ends before that.

- `Reader.read`: the loop over an input held in memory.
- `Reader.Reads`: the feeds that went through, with what they consumed and gave out.
- `Reader.read_append`: the loop over consumed input goes on from where it led.
- `Reader.read_eq_ok_iff`: what an accepted input is made of.
- `Reader.read_of_cut`: **a cut input is decided by `finish`**, in a state that
  would have accepted more.
-/

namespace Framing

/-- A reader of `α`s with state `σ`, errors `ε` and output `β`s. -/
structure Reader (σ ε α β : Type) where
  want : σ → Nat
  feed : σ → List α → Except ε (List β × σ)
  finish : σ → Except ε (List β)
  /-- A reader that asks for nothing takes nothing, so that the loop ends. -/
  want_pos : ∀ {s input out s'}, feed s input = .ok (out, s') → 0 < want s

namespace Reader

variable {σ ε α β : Type} (r : Reader σ ε α β)

/-- Feeds as much as is wanted while the input lasts, then finishes. -/
def read (s : σ) (file : List α) : Except ε (List β) :=
  if hlen : r.want s ≤ file.length then
    match hfeed : r.feed s (file.take (r.want s)) with
    | .error e => .error e
    | .ok (out, s') =>
      have hpos := r.want_pos hfeed
      have : (file.drop (r.want s)).length < file.length := by
        rw [List.length_drop]
        exact Nat.sub_lt (Nat.lt_of_lt_of_le hpos hlen) hpos
      match read s' (file.drop (r.want s)) with
      | .error e => .error e
      | .ok rest => .ok (out ++ rest)
  else r.finish s
termination_by file.length

/-- The loop when the input is too short. -/
theorem read_of_lt {s : σ} {file : List α} (h : file.length < r.want s) :
    r.read s file = r.finish s := by
  rw [read, dif_neg (Nat.not_le_of_lt h)]

/-- One turn of the loop. -/
theorem read_of_length {s : σ} {input rest : List α} (hlen : input.length = r.want s) :
    r.read s (input ++ rest)
      = match r.feed s input with
        | .error e => .error e
        | .ok (out, s') => (r.read s' rest).map (out ++ ·) := by
  have hle : r.want s ≤ (input ++ rest).length := by
    rw [List.length_append, hlen]
    exact Nat.le_add_right _ _
  have htake : (input ++ rest).take (r.want s) = input := by
    rw [← hlen, List.take_left]
  have hdrop : (input ++ rest).drop (r.want s) = rest := by
    rw [← hlen, List.drop_left]
  rw [read, dif_pos hle]
  split
  · rename_i e herr
    rw [htake] at herr
    rw [herr]
  · rename_i out s' hok
    rw [htake] at hok
    rw [hok]
    simp only [hdrop]
    cases r.read s' rest <;> rfl

/-- The loop when what is wanted is refused. -/
theorem read_of_error {s : σ} {input rest : List α} {e : ε} (hlen : input.length = r.want s)
    (hfeed : r.feed s input = .error e) : r.read s (input ++ rest) = .error e := by
  rw [read_of_length r hlen, hfeed]

/-- The loop when what is wanted is taken. -/
theorem read_of_ok {s s' : σ} {input rest : List α} {out : List β}
    (hlen : input.length = r.want s) (hfeed : r.feed s input = .ok (out, s')) :
    r.read s (input ++ rest) = (r.read s' rest).map (out ++ ·) := by
  rw [read_of_length r hlen, hfeed]

/-- `Reads s file out s'`: feeds from `s` that consume `file`, give out `out` and end
in `s'`. -/
inductive Reads : σ → List α → List β → σ → Prop
  | nil (s : σ) : Reads s [] [] s
  | cons {s s' s'' : σ} {input file : List α} {out outs : List β}
      (hlen : input.length = r.want s) (hfeed : r.feed s input = .ok (out, s'))
      (hrest : Reads s' file outs s'') : Reads s (input ++ file) (out ++ outs) s''

variable {r}

theorem Reads.trans {s s' s'' : σ} {file file' : List α} {outs outs' : List β}
    (h : r.Reads s file outs s') (h' : r.Reads s' file' outs' s'') :
    r.Reads s (file ++ file') (outs ++ outs') s'' := by
  induction h with
  | nil s => exact h'
  | cons hlen hfeed _ ih =>
    rw [List.append_assoc, List.append_assoc]
    exact .cons hlen hfeed (ih h')

/-- One feed is a reading. -/
theorem Reads.single {s s' : σ} {input : List α} {out : List β} (hlen : input.length = r.want s)
    (hfeed : r.feed s input = .ok (out, s')) : r.Reads s input out s' := by
  have h := Reads.cons hlen hfeed (.nil s')
  rwa [List.append_nil, List.append_nil] at h

/-- The loop over consumed input goes on from where it led. -/
theorem read_append {s s' : σ} {file : List α} {outs : List β} (h : r.Reads s file outs s')
    (rest : List α) : r.read s (file ++ rest) = (r.read s' rest).map (outs ++ ·) := by
  induction h with
  | nil s =>
    simp only [List.nil_append]
    cases r.read s rest <;> rfl
  | cons hlen hfeed _ ih =>
    rw [List.append_assoc, read_of_ok r hlen hfeed, ih]
    cases r.read _ rest with
    | error e => rfl
    | ok last => simp only [Except.map, List.append_assoc]

/-- Accepted input either is too short for what is wanted, in a state that may finish,
or begins with what is wanted, and the rest is accepted. -/
theorem read_eq_ok_cases {s : σ} {file : List α} {res : List β} (h : r.read s file = .ok res) :
    (file.length < r.want s ∧ r.finish s = .ok res)
      ∨ ∃ input rest out s' res', file = input ++ rest ∧ input.length = r.want s
        ∧ r.feed s input = .ok (out, s') ∧ r.read s' rest = .ok res' ∧ res = out ++ res' := by
  by_cases hlen : r.want s ≤ file.length
  · right
    have hsplit : file = file.take (r.want s) ++ file.drop (r.want s) :=
      (List.take_append_drop _ _).symm
    have htake : (file.take (r.want s)).length = r.want s := List.length_take_of_le hlen
    rw [hsplit] at h
    cases hfeed : r.feed s (file.take (r.want s)) with
    | error e =>
      rw [read_of_error r htake hfeed] at h
      cases h
    | ok p =>
      obtain ⟨out, s'⟩ := p
      rw [read_of_ok r htake hfeed] at h
      cases hread : r.read s' (file.drop (r.want s)) with
      | error e =>
        rw [hread] at h
        cases h
      | ok res' =>
        rw [hread] at h
        cases h
        exact ⟨_, _, out, s', res', hsplit, htake, hfeed, hread, rfl⟩
  · left
    have hshort := Nat.lt_of_not_le hlen
    rw [read_of_lt r hshort] at h
    exact ⟨hshort, h⟩

/-- Accepted input: feeds that went through, then fewer symbols than wanted, in a
state that may finish. -/
theorem reads_of_read_eq_ok {s : σ} {file : List α} {res : List β}
    (h : r.read s file = .ok res) :
    ∃ used rest outs s' last, file = used ++ rest ∧ r.Reads s used outs s'
      ∧ rest.length < r.want s' ∧ r.finish s' = .ok last ∧ res = outs ++ last := by
  -- every feed takes at least one symbol, so what is left gets shorter
  induction hn : file.length using Nat.strongRecOn generalizing s file res with
  | ind n ih =>
    rcases read_eq_ok_cases h with ⟨hshort, hfin⟩ | ⟨input, rest, out, s', res', rfl, hlen, hfeed,
      hread, rfl⟩
    · exact ⟨[], file, [], s, res, rfl, .nil s, hshort, hfin, rfl⟩
    · have hpos := r.want_pos hfeed
      rw [List.length_append] at hn
      obtain ⟨used, rest', outs, t, last, rfl, hreads, hshort, hfin, rfl⟩ :=
        ih rest.length (by omega) hread rfl
      exact ⟨input ++ used, rest', out ++ outs, t, last, (List.append_assoc _ _ _).symm,
        .cons hlen hfeed hreads, hshort, hfin, (List.append_assoc _ _ _).symm⟩

/-- Refused input: feeds that went through, then either too little, in a state that may
not finish, or something the next feed refuses. -/
theorem reads_of_read_eq_error {s : σ} {file : List α} {e : ε} (h : r.read s file = .error e) :
    ∃ used rest outs s', file = used ++ rest ∧ r.Reads s used outs s'
      ∧ ((rest.length < r.want s' ∧ r.finish s' = .error e)
        ∨ ∃ input tail, rest = input ++ tail ∧ input.length = r.want s'
          ∧ r.feed s' input = .error e) := by
  induction hn : file.length using Nat.strongRecOn generalizing s file with
  | ind n ih =>
    by_cases hlen : r.want s ≤ file.length
    · have htake : (file.take (r.want s)).length = r.want s := List.length_take_of_le hlen
      have hsplit : file = file.take (r.want s) ++ file.drop (r.want s) :=
        (List.take_append_drop _ _).symm
      cases hfeed : r.feed s (file.take (r.want s)) with
      | error e' =>
        rw [hsplit, read_of_error r htake hfeed] at h
        cases h
        exact ⟨[], file, [], s, rfl, .nil s, Or.inr ⟨_, _, hsplit, htake, hfeed⟩⟩
      | ok fed =>
        obtain ⟨out, s'⟩ := fed
        have hpos := r.want_pos hfeed
        rw [hsplit, read_of_ok r htake hfeed] at h
        cases hread : r.read s' (file.drop (r.want s)) with
        | ok res =>
          rw [hread] at h
          cases h
        | error e' =>
          rw [hread] at h
          cases h
          obtain ⟨used, rest, outs, t, hrest, hreads, hend⟩ :=
            ih (file.drop (r.want s)).length (by rw [List.length_drop]; omega) hread rfl
          refine ⟨file.take (r.want s) ++ used, rest, out ++ outs, t, ?_,
            .cons htake hfeed hreads, hend⟩
          rw [List.append_assoc, ← hrest, List.take_append_drop]
    · have hshort := Nat.lt_of_not_le hlen
      rw [read_of_lt r hshort] at h
      exact ⟨[], file, [], s, rfl, .nil s, Or.inl ⟨hshort, h⟩⟩

/-- An accepted input, exactly. -/
theorem read_eq_ok_iff {s : σ} {file : List α} {res : List β} :
    r.read s file = .ok res
      ↔ ∃ used rest outs s' last, file = used ++ rest ∧ r.Reads s used outs s'
        ∧ rest.length < r.want s' ∧ r.finish s' = .ok last ∧ res = outs ++ last := by
  constructor
  · exact reads_of_read_eq_ok
  · rintro ⟨used, rest, outs, s', last, rfl, hreads, hshort, hfin, rfl⟩
    rw [read_append hreads, read_of_lt r hshort, hfin]
    rfl

/-- **A cut input is decided by `finish`.** What is left of consumed input after a cut
leads to a state that would have taken more, and the loop ends there. -/
theorem read_of_cut {s s' : σ} {file : List α} {outs : List β} (h : r.Reads s file outs s')
    {kept lost : List α} (hcut : file = kept ++ lost) (hlost : lost ≠ []) :
    ∃ used t outs' input out t', r.Reads s used outs' t ∧ r.feed t input = .ok (out, t')
      ∧ r.read s kept = (r.finish t).map (outs' ++ ·) := by
  induction h generalizing kept with
  | nil s =>
    have hnil := List.append_eq_nil_iff.mp hcut.symm
    exact absurd hnil.2 hlost
  | @cons s s' s'' input file out outs hlen hfeed hrest ih =>
    rcases Nat.lt_or_ge kept.length input.length with hlt | hge
    · -- the cut falls into this feed
      refine ⟨[], s, [], input, out, s', .nil s, hfeed, ?_⟩
      rw [read_of_lt r (hlen ▸ hlt)]
      cases r.finish s <;> rfl
    · -- the cut comes later
      obtain ⟨kept', rfl⟩ : ∃ kept', kept = input ++ kept' := by
        refine ⟨kept.drop input.length, ?_⟩
        have hpre : input = kept.take input.length := by
          have htake := congrArg (List.take input.length) hcut
          rwa [List.take_left, List.take_append_of_le_length hge] at htake
        calc kept = kept.take input.length ++ kept.drop input.length :=
              (List.take_append_drop _ _).symm
          _ = input ++ kept.drop input.length := by rw [← hpre]
      rw [List.append_assoc] at hcut
      obtain ⟨used, t, outs', input', out', t', hreads, hfeed', hread⟩ :=
        ih (List.append_cancel_left hcut)
      refine ⟨input ++ used, t, out ++ outs', input', out', t', .cons hlen hfeed hreads, hfeed',
        ?_⟩
      rw [read_of_ok r hlen hfeed, hread]
      cases r.finish t with
      | error e => rfl
      | ok last => simp only [Except.map, List.append_assoc]

end Reader

end Framing

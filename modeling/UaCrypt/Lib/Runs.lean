import Mathlib

/-!
# Runs of fallible state machines

- `runAll step s as`: a fallible step over a list of inputs, up to the first
  failure.
- `runAll_append`, `runAll_total`: runs one after another, and runs that cannot fail.
- `runAll_mirror`: when every step of one machine is undone by a step of another,
  related states stay related and whole runs are undone.
- `trace step s as`: a step that always answers, run over a list of calls, each
  answer with the state the call found.
- `trace_filter_pairwise`: what strictly grows with every successful call differs
  between any two successful calls of a run.
- `trace_of_kept`, `trace_pairwise_closed`, `trace_entered`: calls that change nothing,
  states that are never left, and how a run came to a state.
-/

namespace Runs

variable {σ τ α β : Type}

/-- The outputs and the last state, if every step succeeds. -/
def runAll (step : σ → α → Option (β × σ)) : σ → List α → Option (List β × σ)
  | s, [] => some ([], s)
  | s, a :: as =>
    match step s a with
    | none => none
    | some (b, s') =>
      match runAll step s' as with
      | none => none
      | some (bs, s'') => some (b :: bs, s'')

/-- A run over a nonempty list is one step and a run from where it ends. -/
theorem runAll_cons_eq_some {step : σ → α → Option (β × σ)} {s s'' : σ} {a : α} {as : List α}
    {out : List β} :
    runAll step s (a :: as) = some (out, s'')
      ↔ ∃ b s' bs, step s a = some (b, s') ∧ runAll step s' as = some (bs, s'')
        ∧ out = b :: bs := by
  constructor
  · intro h
    rw [runAll] at h
    split at h
    · cases h
    · rename_i b s' hstep
      split at h
      · cases h
      · rename_i bs t hrun
        cases h
        exact ⟨b, s', bs, hstep, hrun, rfl⟩
  · rintro ⟨b, s', bs, hstep, hrun, rfl⟩
    rw [runAll, hstep]
    simp only [hrun]

/-- One run after another. -/
theorem runAll_append {step : σ → α → Option (β × σ)} {s t u : σ} {as as' : List α}
    {bs bs' : List β} (h : runAll step s as = some (bs, t))
    (h' : runAll step t as' = some (bs', u)) :
    runAll step s (as ++ as') = some (bs ++ bs', u) := by
  induction as generalizing s bs with
  | nil =>
    cases h
    exact h'
  | cons a as ih =>
    obtain ⟨b, s', bs, hstep, hrun, rfl⟩ := runAll_cons_eq_some.mp h
    exact runAll_cons_eq_some.mpr ⟨b, s', bs ++ bs', hstep, ih hrun, rfl⟩

/-- A step that never fails from a state of `inv`, and stays there, never fails in a run. -/
theorem runAll_total {step : σ → α → Option (β × σ)} {inv : σ → Prop}
    (hstep : ∀ s a, inv s → ∃ b s', step s a = some (b, s') ∧ inv s') {s : σ} (hs : inv s)
    (as : List α) : ∃ bs s', runAll step s as = some (bs, s') ∧ inv s' := by
  induction as generalizing s with
  | nil => exact ⟨[], s, rfl, hs⟩
  | cons a as ih =>
    obtain ⟨b, s', hb, hs'⟩ := hstep s a hs
    obtain ⟨bs, s'', hrun, hs''⟩ := ih hs'
    exact ⟨b :: bs, s'', runAll_cons_eq_some.mpr ⟨b, s', bs, hb, hrun, rfl⟩, hs''⟩

theorem length_of_runAll {step : σ → α → Option (β × σ)} {s s' : σ} {as : List α} {bs : List β}
    (h : runAll step s as = some (bs, s')) : bs.length = as.length := by
  induction as generalizing s bs with
  | nil =>
    cases h
    rfl
  | cons a as ih =>
    obtain ⟨b, t, bs, -, hrun, rfl⟩ := runAll_cons_eq_some.mp h
    rw [List.length_cons, List.length_cons, ih hrun]

/-- The first `k` steps of a run. -/
theorem runAll_take {step : σ → α → Option (β × σ)} {s s' : σ} {as : List α} {bs : List β}
    (h : runAll step s as = some (bs, s')) (k : Nat) :
    ∃ t, runAll step s (as.take k) = some (bs.take k, t) := by
  induction k generalizing s as bs with
  | zero => exact ⟨s, rfl⟩
  | succ k ih =>
    cases as with
    | nil =>
      cases h
      exact ⟨_, rfl⟩
    | cons a as =>
      obtain ⟨b, t, bs, hstep, hrun, rfl⟩ := runAll_cons_eq_some.mp h
      obtain ⟨u, hu⟩ := ih hrun
      exact ⟨u, runAll_cons_eq_some.mpr ⟨b, t, _, hstep, hu, rfl⟩⟩

/-- If every step of `send` is undone by a step of `recv` from any related state,
every run is. -/
theorem runAll_mirror {send : σ → α → Option (β × σ)} {recv : τ → β → Option (α × τ)}
    (rel : σ → τ → Prop)
    (hstep : ∀ s t a b s', rel s t → send s a = some (b, s') →
      ∃ t', recv t b = some (a, t') ∧ rel s' t')
    {s s' : σ} {t : τ} (hrel : rel s t) {as : List α} {bs : List β}
    (hrun : runAll send s as = some (bs, s')) :
    ∃ t', runAll recv t bs = some (as, t') ∧ rel s' t' := by
  induction as generalizing s t bs with
  | nil =>
    cases hrun
    exact ⟨t, rfl, hrel⟩
  | cons a as ih =>
    obtain ⟨b, u, bs, hsend, hrest, rfl⟩ := runAll_cons_eq_some.mp hrun
    obtain ⟨u', hrecv, hrel'⟩ := hstep s t a b u hrel hsend
    obtain ⟨t', hall, hrel''⟩ := ih hrel' hrest
    exact ⟨t', runAll_cons_eq_some.mpr ⟨a, u', as, hrecv, hall, rfl⟩, hrel''⟩

/-! ## Machines that always answer -/

/-- One call of a run: the state it found, its input, its answer. -/
structure Event (σ α β : Type) where
  before : σ
  input : α
  answer : β

/-- Every call of a run in order. -/
def trace (step : σ → α → β × σ) : σ → List α → List (Event σ α β)
  | _, [] => []
  | s, a :: as => ⟨s, a, (step s a).1⟩ :: trace step (step s a).2 as

theorem answer_of_mem_trace {step : σ → α → β × σ} {s : σ} {as : List α} {e : Event σ α β}
    (he : e ∈ trace step s as) : e.answer = (step e.before e.input).1 := by
  induction as generalizing s with
  | nil => cases he
  | cons a as ih =>
    rcases List.mem_cons.mp he with rfl | he
    · rfl
    · exact ih he

section Measure

variable {step : σ → α → β × σ} {m : σ → Nat} (hmono : ∀ s a, m s ≤ m (step s a).2)
include hmono

theorem measure_le_of_mem_trace {s : σ} {as : List α} {e : Event σ α β}
    (he : e ∈ trace step s as) : m s ≤ m e.before := by
  induction as generalizing s with
  | nil => cases he
  | cons a as ih =>
    rcases List.mem_cons.mp he with rfl | he
    · exact Nat.le_refl _
    · exact Nat.le_trans (hmono s a) (ih he)

/-- Where a measure never falls, and rises with every `good` answer, the `good`
calls of a run find it at ever higher values. -/
theorem trace_filter_pairwise (good : β → Bool)
    (hgood : ∀ s a, good (step s a).1 = true → m s < m (step s a).2) (s : σ) (as : List α) :
    ((trace step s as).filter fun e => good e.answer).Pairwise
      fun e e' => m e.before < m e'.before := by
  induction as generalizing s with
  | nil => exact List.Pairwise.nil
  | cons a as ih =>
    rw [trace, List.filter_cons]
    split
    · rename_i hok
      refine List.Pairwise.cons (fun e he => ?_) (ih _)
      have hle := measure_le_of_mem_trace hmono (List.mem_filter.mp he).1
      exact Nat.lt_of_lt_of_le (hgood s a hok) hle
    · exact ih _

end Measure

section Invariant

variable {step : σ → α → β × σ} {inv : σ → Prop} (hinv : ∀ s a, inv s → inv (step s a).2)
include hinv

theorem inv_of_mem_trace {s : σ} {as : List α} {e : Event σ α β} (hs : inv s)
    (he : e ∈ trace step s as) : inv e.before := by
  induction as generalizing s with
  | nil => cases he
  | cons a as ih =>
    rcases List.mem_cons.mp he with rfl | he
    · exact hs
    · exact ih (hinv s a hs) he

/-- Calls that change nothing can be left out of a run: the others find and answer the
same. -/
theorem trace_of_kept {keep : β → Bool}
    (hquiet : ∀ s a, inv s → keep (step s a).1 = false → (step s a).2 = s) {s : σ} (hs : inv s)
    (as : List α) :
    trace step s (((trace step s as).filter fun e => keep e.answer).map Event.input)
      = (trace step s as).filter fun e => keep e.answer := by
  induction as generalizing s with
  | nil => rfl
  | cons a as ih =>
    rw [trace, List.filter_cons]
    split
    · rw [List.map_cons, trace, ih (hinv s a hs)]
    · rename_i hkeep
      -- the call is dropped, and the next one finds the same state
      rw [hquiet s a hs (by simpa using hkeep)]
      exact ih hs

/-- What is left behind by a call that closes, and never left again, is found by every
later call. -/
theorem trace_pairwise_closed (closed : σ → Prop) (closes : α → β → Prop)
    (hstay : ∀ s a, closed s → closed (step s a).2)
    (hclose : ∀ s a, inv s → closes a (step s a).1 → closed (step s a).2) {s : σ} (hs : inv s)
    (as : List α) :
    (trace step s as).Pairwise fun e e' => closes e.input e.answer → closed e'.before := by
  induction as generalizing s with
  | nil => exact List.Pairwise.nil
  | cons a as ih =>
    refine List.Pairwise.cons (fun e' he' hcloses => ?_) (ih (hinv s a hs))
    exact inv_of_mem_trace hstay (hclose s a hs hcloses) he'

/-- How a run came to a marked state that only quiet calls stay in: it started in it, or
some call entered it, and there were only quiet calls since. -/
theorem trace_entered (marked : σ → Prop) (quiet : β → Prop)
    (hstay : ∀ s a, inv s → marked s → marked (step s a).2 →
      (step s a).2 = s ∧ quiet (step s a).1)
    {s : σ} (hs : inv s) {as : List α} {pre post : List (Event σ α β)} {e : Event σ α β}
    (htrace : trace step s as = pre ++ e :: post) (he : marked e.before) :
    (marked s ∧ e.before = s ∧ ∀ m ∈ pre, quiet m.answer)
      ∨ ∃ pre' e' mid, pre = pre' ++ e' :: mid ∧ ¬marked e'.before
        ∧ (step e'.before e'.input).2 = e.before ∧ ∀ m ∈ mid, quiet m.answer := by
  induction as generalizing s pre with
  | nil => simp [trace] at htrace
  | cons a as ih =>
    rw [trace] at htrace
    cases pre with
    | nil =>
      obtain ⟨rfl, -⟩ := List.cons.inj htrace
      exact Or.inl ⟨he, rfl, by simp⟩
    | cons e₀ pre =>
      obtain ⟨rfl, hrest⟩ := List.cons.inj htrace
      rcases ih (hinv s a hs) hrest with ⟨hmarked, hbefore, hquiet⟩ |
        ⟨pre', e', mid, rfl, hnot, hnext, hquiet⟩
      · -- the state after this call was never left again: was it there before the call?
        by_cases hm : marked s
        · obtain ⟨hsame, hq⟩ := hstay s a hs hm hmarked
          refine Or.inl ⟨hm, hbefore.trans hsame, fun m hmem => ?_⟩
          rcases List.mem_cons.mp hmem with rfl | hmem
          · exact hq
          · exact hquiet m hmem
        · exact Or.inr ⟨[], ⟨s, a, (step s a).1⟩, pre, rfl, hm, hbefore.symm, hquiet⟩
      · exact Or.inr ⟨_ :: pre', e', mid, rfl, hnot, hnext, hquiet⟩

end Invariant

end Runs

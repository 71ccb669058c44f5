import UaCrypt.Cli.Ledger

/-!
# The outputs of one command

One command, one `--force` flag, any number of outputs at paths of their own. Their steps
come in any order, and any call may fail except the removals of `Drop`. With `--force` no
output is renamed onto the temp file of another (`FreshRename`): those names are random.

- `CrewInv`: the outputs are sound and everything on the disk is accounted for.
- `crewInv_of_run`: **that holds in every state of a run.**
- `CrewSafe`: what is left of that when removals may fail.
-/

namespace UaCrypt.Cli

open FileTree FileTree.Files

/-- The outputs of a command, and the one table of files to remove on a signal. -/
structure Crew (ι : Type) where
  disk : Disk
  cleanup : Cleanup
  life : ι → Life

section

variable {ι : Type}

def Crew.start (disk : Disk) (path : ι → PathName) (input : Option PathName) (force : Bool) :
    Crew ι where
  disk := disk
  cleanup := .empty
  life i := Life.start (path i) input force

/-- With `--force`, no temp file of another output is at the path when `i` is renamed onto
it. -/
def FreshRename (cwd : Loc) (disk₀ : Disk) (path : ι → PathName) (s : Crew ι) (i : ι) : Prop :=
  (s.life i).force = true → (s.life i).point = .held →
    ∀ e, disk₀.entry cwd (path i) = .ok e → ∀ j, j ≠ i →
      ∀ tmp τ, (s.life j).temp = some (tmp, τ) → τ ≠ e

/-- The removals of `Drop` succeed and temp names are fresh. -/
def Regular (cwd : Loc) (disk₀ : Disk) (path : ι → PathName) (s : Crew ι) (i : ι)
    (choice : Choice) : Prop :=
  RemovalSucceeds ⟨s.disk, s.cleanup, s.life i⟩ choice ∧ FreshRename cwd disk₀ path s i

/-- What each output holds. -/
def Crew.holding (s : Crew ι) (i : ι) : Holding := (s.life i).holding

/-- The outputs are sound. -/
structure CrewSound (cwd : Loc) (disk₀ : Disk) (path : ι → PathName) (force : Bool)
    (s : Crew ι) : Prop where
  sound : Sound cwd disk₀ path (fun _ => force) s.disk s.holding
  ok : ∀ i, (s.life i).Ok
  same : ∀ i, SameLife (path i) force (s.life i)

/-- Besides, everything on the disk is accounted for. -/
structure CrewInv (cwd : Loc) (disk₀ : Disk) (path : ι → PathName) (force : Bool) (s : Crew ι) :
    Prop extends CrewSound cwd disk₀ path force s where
  accounted : Accounted cwd disk₀ path s.disk s.holding

/-- Besides, what was there is safe. -/
structure CrewSafe (cwd : Loc) (disk₀ : Disk) (path : ι → PathName) (force : Bool) (s : Crew ι) :
    Prop extends CrewSound cwd disk₀ path force s where
  preserved : Preserved cwd disk₀ path s.disk s.holding

variable {cwd : Loc} {disk₀ : Disk} {path : ι → PathName} {force : Bool} {s : Crew ι} {i : ι}
  {choice : Choice}

theorem crewSound_start (input : Option PathName) :
    CrewSound cwd disk₀ path force (Crew.start disk₀ path input force) :=
  ⟨sound_start _ fun _ => ⟨rfl, rfl, rfl⟩, fun i => ok_start _ _ _,
    fun i => ⟨rfl, rfl, by rintro ⟨⟩⟩⟩

theorem crewInv_start (input : Option PathName) :
    CrewInv cwd disk₀ path force (Crew.start disk₀ path input force) :=
  ⟨crewSound_start input, accounted_start _ fun _ => ⟨rfl, rfl, rfl⟩⟩

theorem crewSafe_start (input : Option PathName) :
    CrewSafe cwd disk₀ path force (Crew.start disk₀ path input force) :=
  ⟨crewSound_start input, preserved_start _ fun _ => ⟨rfl, rfl, rfl⟩⟩

variable [DecidableEq ι]

/-- Output `i` takes a step. -/
def Crew.next (cwd : Loc) (s : Crew ι) (i : ι) (choice : Choice) : Crew ι :=
  let next := step cwd s.disk s.cleanup (s.life i) choice
  { disk := next.1
    cleanup := next.2.1
    life := Function.update s.life i next.2.2 }

/-- `s'` is reached from `s` by steps at which `P` holds. -/
def CrewRun (cwd : Loc) (P : Crew ι → ι → Choice → Prop) : Crew ι → Crew ι → Prop :=
  Relation.ReflTransGen fun s s' => ∃ i choice, P s i choice ∧ s' = s.next cwd i choice

theorem Crew.moves (cwd : Loc) (s : Crew ι) (i : ι) (choice : Choice) :
    Moves cwd choice s.disk s.cleanup (s.life i) (s.next cwd i choice).disk
      (s.next cwd i choice).cleanup ((s.next cwd i choice).life i) := by
  have hmove := moves_step cwd s.disk s.cleanup (s.life i) choice
  rw [Crew.next]
  simp only [Function.update_self]
  exact hmove

theorem Crew.life_next (s : Crew ι) (i : ι) (choice : Choice) :
    (s.next cwd i choice).life = Function.update s.life i ((s.next cwd i choice).life i) := by
  rw [Crew.next]
  simp only [Function.update_self]

theorem Crew.life_next_of_ne {j : ι} (hj : j ≠ i) :
    (s.next cwd i choice).life j = s.life j := by
  rw [Crew.life_next, Function.update_of_ne hj]

theorem Crew.holding_next (s : Crew ι) (i : ι) (choice : Choice) :
    (s.next cwd i choice).holding
      = Function.update s.holding i ((s.next cwd i choice).life i).holding := by
  ext1 j
  by_cases hj : j = i
  · subst hj
    rw [Function.update_self, Crew.holding]
  · rw [Function.update_of_ne hj, Crew.holding, Crew.life_next_of_ne hj, Crew.holding]

/-- What holds of the life that moves, and of all lives before, holds of all lives after. -/
theorem Crew.forall_life_next {P : ι → Life → Prop} (hall : ∀ j, P j (s.life j))
    (hnext : P i ((s.next cwd i choice).life i)) (j : ι) :
    P j ((s.next cwd i choice).life j) := by
  by_cases hj : j = i
  · subst hj
    exact hnext
  · rw [Crew.life_next_of_ne hj]
    exact hall j

/-- A step of an output acts on what it holds. -/
theorem CrewSound.acts (hinv : CrewSound cwd disk₀ path force s) (i : ι) (choice : Choice) :
    Acts cwd (path i) force (¬RemovalSucceeds ⟨s.disk, s.cleanup, s.life i⟩ choice) s.disk
      (s.holding i) (s.next cwd i choice).disk ((s.next cwd i choice).life i).holding := by
  have hacts := (s.moves cwd i choice).acts (hinv.ok i)
  rw [(hinv.same i).1, (hinv.same i).2.1] at hacts
  exact hacts

/-- **One step keeps the outputs sound.** -/
theorem CrewSound.next (hinv : CrewSound cwd disk₀ path force s)
    (hfresh : FreshRename cwd disk₀ path s i) :
    CrewSound cwd disk₀ path force (s.next cwd i choice) := by
  have hmove := s.moves cwd i choice
  have hacts := hinv.acts i choice
  refine ⟨?_, ?_, ?_⟩
  · rw [Crew.holding_next]
    refine hinv.sound.acts hacts fun hold hnew => ?_
    refine hinv.sound.rename_clear (fun _ => rfl) hacts (fun hforce => ?_) hold hnew
    obtain ⟨hpoint, -⟩ := hmove.published_made (hinv.ok i) hold hnew
    exact hfresh ((hinv.same i).2.1.trans hforce) hpoint
  · exact Crew.forall_life_next hinv.ok (hmove.ok (hinv.ok i))
  · exact Crew.forall_life_next hinv.same (hmove.sameLife (hinv.same i))

/-- One step keeps the account complete, if what it gives up is gone. -/
theorem CrewInv.next_of_gone (hinv : CrewInv cwd disk₀ path force s)
    (hfresh : FreshRename cwd disk₀ path s i)
    (hgone : Gone cwd disk₀ (path i) (s.next cwd i choice).disk (s.holding i)
      ((s.next cwd i choice).life i).holding) :
    CrewInv cwd disk₀ path force (s.next cwd i choice) := by
  refine ⟨hinv.toCrewSound.next hfresh, ?_⟩
  rw [Crew.holding_next]
  exact hinv.accounted.acts hinv.sound (hinv.acts i choice) hgone

/-- **One step keeps the outputs sound and the account complete.** -/
theorem CrewInv.next (hinv : CrewInv cwd disk₀ path force s) (hsteady : Steady cwd disk₀ path)
    (hregular : Regular cwd disk₀ path s i choice) :
    CrewInv cwd disk₀ path force (s.next cwd i choice) :=
  hinv.next_of_gone hregular.2
    (hinv.accounted.gone hinv.sound hsteady (not_not_intro hregular.1) (hinv.acts i choice))

/-- **Every state of a run is sound and accounted for.** -/
theorem crewInv_of_run {input : Option PathName} {P : Crew ι → ι → Choice → Prop}
    (hsteady : Steady cwd disk₀ path)
    (hP : ∀ s i choice, P s i choice → Regular cwd disk₀ path s i choice)
    (hrun : CrewRun cwd P (Crew.start disk₀ path input force) s) :
    CrewInv cwd disk₀ path force s := by
  induction hrun with
  | refl => exact crewInv_start input
  | tail _ hstep ih =>
    obtain ⟨i, choice, hregular, rfl⟩ := hstep
    exact ih.next hsteady (hP _ i choice hregular)

/-- **One step keeps what was there safe**, even if a removal fails. -/
theorem CrewSafe.next (hsafe : CrewSafe cwd disk₀ path force s)
    (hfresh : FreshRename cwd disk₀ path s i) :
    CrewSafe cwd disk₀ path force (s.next cwd i choice) := by
  refine ⟨hsafe.toCrewSound.next hfresh, ?_⟩
  rw [Crew.holding_next]
  exact hsafe.preserved.acts hsafe.sound (hsafe.acts i choice)

/-! ## Running a list of choices -/

/-- `check` passes at every step of a list of choices. -/
def Crew.along (cwd : Loc) (check : Crew ι → ι → Choice → Bool) :
    Crew ι → List (ι × Choice) → Bool
  | _, [] => true
  | s, (i, choice) :: rest => check s i choice && Crew.along cwd check (s.next cwd i choice) rest

theorem crewRun_of_along {check : Crew ι → ι → Choice → Bool} {P : Crew ι → ι → Choice → Prop}
    (hcheck : ∀ s i choice, check s i choice = true → P s i choice)
    {choices : List (ι × Choice)} (h : s.along cwd check choices = true) :
    CrewRun cwd P s (choices.foldl (fun s choice => s.next cwd choice.1 choice.2) s) := by
  induction choices generalizing s with
  | nil => exact .refl
  | cons choice rest ih =>
    rw [Crew.along, Bool.and_eq_true] at h
    exact .head ⟨choice.1, choice.2, hcheck _ _ _ h.1, rfl⟩ (ih h.2)

end

end UaCrypt.Cli

import UaCrypt.Cli.Crew

/-!
# Outputs named together (`check_outputs` in `lib.rs`)

A command refuses an output that names the same file as another output or as a key input.
Paths are compared as written, made absolute, and, when both exist, after following links.

- `outputs_clobber`: that does not see every spelling: `a` and `d/../a` both pass, and with
  `--force` the second output replaces the first.
- `outputs_unclobbered_iff`: **after a command that went through, every output is at its path
  and every key is where it was, just when** outputs that name the same directory entry were
  given the same bytes, and no output's and no key's path runs through a link that an output
  has replaced.
-/

namespace UaCrypt.Cli

open FileTree FileTree.Files

/-! ## The check -/

/-- `Path::components` of a path behind its root: no empty names, no `.`; `..` stays. -/
def components (p : PathName) : List String := p.filter fun c => c ≠ "" && c ≠ "."

/-- The components of `std::path::absolute`, none for the empty path. -/
def absolute (cwd : Loc) (p : PathName) : Option (List String) :=
  if p = [] ∨ p = [""] then none else some (start cwd p ++ components p)

/-- The two arguments are taken to name the same file. -/
def samePath (cwd : Loc) (disk : Disk) (a b : PathName) : Bool :=
  absolute cwd a = absolute cwd b || sameFile cwd disk a b

/-- `check_outputs`: the first output that names another output or a key. -/
def checkOutputs (cwd : Loc) (disk : Disk) (outputs keys : List (String × PathName)) :
    Except CliError Unit :=
  match outputs with
  | [] => .ok ()
  | (flag, path) :: rest =>
    match (rest ++ keys).find? fun other => samePath cwd disk path other.2 with
    | some (other, _) => .error (.sameOutputPath flag other)
    | none => checkOutputs cwd disk rest keys

/-- No output that passes leads to a key. -/
theorem not_sameFile_of_check {cwd : Loc} {disk : Disk} {outputs keys : List (String × PathName)}
    (h : checkOutputs cwd disk outputs keys = .ok ()) {output key : String × PathName}
    (houtput : output ∈ outputs) (hkey : key ∈ keys) :
    sameFile cwd disk output.2 key.2 = false := by
  induction outputs with
  | nil => cases houtput
  | cons first rest ih =>
    obtain ⟨flag, path⟩ := first
    rw [checkOutputs] at h
    split at h
    · cases h
    · rename_i hnone
      rcases List.mem_cons.mp houtput with rfl | hrest
      · have hkey' := List.find?_eq_none.mp hnone key (List.mem_append_right _ hkey)
        rw [samePath, Bool.or_eq_true, not_or] at hkey'
        exact Bool.not_eq_true _ ▸ hkey'.2
      · exact ih h hrest

/-! ## Commands that go through -/

/-- The output is being dropped. -/
def Life.dropped (life : Life) : Bool :=
  match life.point with
  | .dropping _ | .tempRemoved _ => true
  | _ => false

section

variable {ι : Type} [DecidableEq ι]

/-- A step that fails no output. -/
def Succeeds (cwd : Loc) (disk₀ : Disk) (path : ι → PathName) (s : Crew ι) (i : ι)
    (choice : Choice) : Prop :=
  ((s.next cwd i choice).life i).dropped = false ∧ FreshRename cwd disk₀ path s i

/-- Every output path leads to what was written to it, every key to the file it led to, with
the content it had. -/
def Unclobbered (cwd : Loc) (disk₀ : Disk) (path : ι → PathName) (keys : List (String × PathName))
    (s : Crew ι) : Prop :=
  (∀ i, s.disk.stat cwd (path i) = some (.file (s.life i).written))
    ∧ ∀ key ∈ keys, s.disk.resolve cwd key.2 = disk₀.resolve cwd key.2
      ∧ s.disk.stat cwd key.2 = disk₀.stat cwd key.2

/-- The locations the outputs are written to. -/
def AtOutput (cwd : Loc) (disk₀ : Disk) (path : ι → PathName) (l : Loc) : Prop :=
  ∃ i, (disk₀.entry cwd (path i)).map Entry.loc = .ok l

instance [Fintype ι] (cwd : Loc) (disk₀ : Disk) (path : ι → PathName) :
    DecidablePred (AtOutput cwd disk₀ path) := fun _ => inferInstanceAs (Decidable (∃ _, _))

/-- Outputs at the same entry get the same bytes, and no path runs through a link at an
output. -/
def Separate [Fintype ι] (cwd : Loc) (disk₀ : Disk) (path : ι → PathName)
    (keys : List (String × PathName)) (written : ι → List UInt8) : Prop :=
  (∀ i j e, disk₀.entry cwd (path i) = .ok e → disk₀.entry cwd (path j) = .ok e →
      written i = written j)
    ∧ (∀ i, (disk₀.withoutLinks (AtOutput cwd disk₀ path)).entry cwd (path i)
      = disk₀.entry cwd (path i))
    ∧ ∀ key ∈ keys, (disk₀.withoutLinks (AtOutput cwd disk₀ path)).resolve cwd key.2
      = disk₀.resolve cwd key.2

end

/-- An output that is not dropped gives its files up only by publishing them. -/
theorem Moves.held_of_not_dropped {cwd : Loc} {choice : Choice} {disk disk' : Disk}
    {c c' : Cleanup} {life life' : Life} (hmove : Moves cwd choice disk c life disk' c' life')
    (hok : life.Ok) (hdropped : life.dropped = false) :
    (life.holding.temp ≠ none → life'.holding.temp = none → life'.holding.published = true)
      ∧ (life.holding.placeholder = true → life'.holding.Shown) := by
  cases hmove with
  | stay => exact ⟨fun h h' => absurd h' h, Or.inl⟩
  | rename hpoint htmp hchoice hren => exact ⟨fun _ _ => rfl, fun _ => Or.inr rfl⟩
  | registerTemp hpoint =>
    simp only [Life.Ok, hpoint] at hok
    obtain ⟨τ, hfile⟩ := Option.isSome_iff_exists.mp hok.1
    refine ⟨by simp [Life.holding, Life.temp, hfile], fun hp => Or.inl ?_⟩
    simpa [Life.holding, Life.holdsPlaceholder, hpoint] using hp
  | _ =>
    simp_all [Life.holding, Life.holdsPlaceholder, Life.temp, Life.published, Life.dropped,
      Holding.Shown, Life.Ok]

/-- What is given up by publishing is gone. -/
theorem Acts.gone_of_published {cwd : Loc} {disk₀ disk disk' : Disk} {path : PathName}
    {force : Bool} {leaks : Prop} {h h' : Holding}
    (hact : Acts cwd path force leaks disk h disk' h') (hown : Own cwd disk₀ path force disk h)
    (hshape : disk.ShapeLe disk₀)
    (htemp : h.temp ≠ none → h'.temp = none → h'.published = true)
    (hplaceholder : h.placeholder = true → h'.Shown) : Gone cwd disk₀ path disk' h h' := by
  refine ⟨?_, fun e hp hnot _ => absurd (hplaceholder hp) hnot⟩
  intro tmp τ hτ hnone
  have hpub := htemp (by rw [hτ]; simp) hnone
  have hold : h.published = false := hown.not_published (Or.inl (by rw [hτ]; simp))
  cases hact with
  | publish hτ' hintact hmode hren =>
    rw [hτ] at hτ'
    cases hτ'
    obtain ⟨e, -, hset, -, hne, rfl⟩ := hown.publish hshape hτ hintact hren
    rw [node_set_of_ne (loc_ne_of_ne hne), node_set_self hset]
  | _ =>
    rw [hold] at hpub
    cases hpub

section

variable {ι : Type} [DecidableEq ι] {cwd : Loc} {disk₀ : Disk} {path : ι → PathName}
  {force : Bool} {input : Option PathName} {s : Crew ι}

/-- **A command that fails no output keeps the account**, whatever links it replaces. -/
theorem crewInv_of_success
    (hrun : CrewRun cwd (Succeeds cwd disk₀ path) (Crew.start disk₀ path input force) s) :
    CrewInv cwd disk₀ path force s ∧ ∀ i, (s.life i).dropped = false := by
  induction hrun with
  | refl => exact ⟨crewInv_start input, fun i => rfl⟩
  | @tail t _ _ hstep ih =>
    obtain ⟨i, choice, ⟨hdropped, hfresh⟩, rfl⟩ := hstep
    obtain ⟨hinv, hall⟩ := ih
    obtain ⟨htemp, hplaceholder⟩ := (t.moves cwd i choice).held_of_not_dropped (hinv.ok i) (hall i)
    refine ⟨hinv.next_of_gone hfresh ?_, 
      Crew.forall_life_next (P := fun _ life => life.dropped = false) hall hdropped⟩
    exact (hinv.acts i choice).gone_of_published (hinv.sound.own i) hinv.sound.shape htemp
      hplaceholder

end

/-! ## The disk when all is published -/

section

variable {ι : Type} {cwd : Loc} {disk₀ : Disk} {path : ι → PathName} {force : Bool} {s : Crew ι}

theorem atOutput_of_entry {i : ι} {e : Entry} (he : disk₀.entry cwd (path i) = .ok e) :
    AtOutput cwd disk₀ path e.loc := ⟨i, by rw [he]; rfl⟩

theorem AtOutput.exists_entry {l : Loc} (h : AtOutput cwd disk₀ path l) :
    ∃ i e, disk₀.entry cwd (path i) = .ok e ∧ l = e.loc := by
  obtain ⟨i, hi⟩ := h
  cases he : disk₀.entry cwd (path i) with
  | error err =>
    rw [he] at hi
    cases hi
  | ok e =>
    rw [he] at hi
    cases hi
    exact ⟨i, e, he, rfl⟩

/-- Away from the outputs nothing has changed. -/
theorem CrewInv.node_of_not_atOutput (hinv : CrewInv cwd disk₀ path force s)
    (hpub : ∀ i, (s.life i).published = true) {l : Loc} (hl : ¬AtOutput cwd disk₀ path l) :
    s.disk.node l = disk₀.node l := by
  rcases hinv.accounted.rest l with hsame | ⟨i, tmp, τ, htemp, -⟩ | ⟨i, e, -, he, rfl⟩
  · exact hsame
  · rw [((hinv.sound.own i).done (hpub i)).1] at htemp
    cases htemp
  · exact absurd (atOutput_of_entry he) hl

/-- If an output path leads to what was written, it names the entry it named before. -/
theorem CrewInv.entry_of_stat (hinv : CrewInv cwd disk₀ path force s)
    (hpub : ∀ i, (s.life i).published = true) {i : ι} {e : Entry}
    (hstat : s.disk.stat cwd (path i) = some (.file (s.life i).written))
    (he : disk₀.entry cwd (path i) = .ok e) :
    s.disk.entry cwd (path i) = .ok e
      ∧ s.disk.node e.loc = some (.file (s.life i).written) := by
  rw [stat] at hstat
  split at hstat
  · cases hstat
  · rename_i l hres
    cases hentry : s.disk.entry cwd (path i) with
    | error err =>
      have hdir := isDirAt_of_resolve hentry hres
      rw [isDirAt_iff, hstat] at hdir
      cases hdir
    | ok e' =>
      have he' := entry_of_shapeLe hinv.sound.shape hentry
      obtain rfl : e' = e := Except.ok.inj (he'.symm.trans he)
      refine ⟨rfl, ?_⟩
      obtain ⟨e'', k, he'', -, -, -, hdata⟩ := hinv.sound.published (i := i) (hpub i)
      obtain rfl : e'' = e' := Except.ok.inj (he''.symm.trans he)
      have hlstat : s.disk.lstat cwd (path i) = some (.file (s.holding k).written) := by
        rw [lstat, hentry]
        exact hdata
      have hnode := node_of_resolve hlstat hres
      rw [hstat] at hnode
      rw [hdata, ← hnode]

variable [Fintype ι]

/-- The disk has the directories and links it had, less the links at outputs. -/
theorem CrewInv.shape_of_published (hinv : CrewInv cwd disk₀ path force s)
    (hpub : ∀ i, (s.life i).published = true) :
    s.disk.ShapeLe (disk₀.withoutLinks (AtOutput cwd disk₀ path))
      ∧ (disk₀.withoutLinks (AtOutput cwd disk₀ path)).ShapeLe s.disk := by
  have hfile : ∀ {l}, AtOutput cwd disk₀ path l → ∃ data, s.disk.node l = some (.file data) := by
    intro l hl
    obtain ⟨i, e, he, rfl⟩ := hl.exists_entry
    obtain ⟨e', k, he', -, -, -, hdata⟩ := hinv.sound.published (i := i) (hpub i)
    obtain rfl : e' = e := Except.ok.inj (he'.symm.trans he)
    exact ⟨_, hdata⟩
  refine ⟨?_, ?_⟩
  · intro l n hn hl
    by_cases hout : AtOutput cwd disk₀ path l
    · obtain ⟨data, hdata⟩ := hfile hout
      rw [hdata] at hl
      cases hl
      cases hn
    · rw [node_withoutLinks_of_not hout, ← hinv.node_of_not_atOutput hpub hout]
      exact hl
  · intro l n hn hl
    by_cases hout : AtOutput cwd disk₀ path l
    · -- no directory is at an output, and a link there has been taken away
      obtain ⟨i, e, he, rfl⟩ := hout.exists_entry
      have hdir := hinv.accounted.published_new (i := i) (hpub i) he
      have hold := withoutLinks_shapeLe disk₀ (AtOutput cwd disk₀ path) e.loc n hn hl
      cases n with
      | dir => exact absurd hold hdir
      | file data => cases hn
      | symlink target =>
        simp only [withoutLinks, hold, if_pos hout] at hl
        cases hl
    · rw [hinv.node_of_not_atOutput hpub hout, ← node_withoutLinks_of_not hout]
      exact hl

theorem CrewInv.separate (hinv : CrewInv cwd disk₀ path force s)
    (hpub : ∀ i, (s.life i).published = true) {keys : List (String × PathName)}
    (hkeys : ∀ key ∈ keys, ∃ l data, disk₀.resolve cwd key.2 = .ok l
      ∧ disk₀.node l = some (.file data))
    (h : Unclobbered cwd disk₀ path keys s) :
    Separate cwd disk₀ path keys fun i => (s.life i).written := by
  obtain ⟨houtputs, hkept⟩ := h
  have hle := (hinv.shape_of_published hpub).1
  refine ⟨?_, ?_, ?_⟩
  · intro i j e hi hj
    have hsame := (hinv.entry_of_stat hpub (houtputs i) hi).2.symm.trans
      (hinv.entry_of_stat hpub (houtputs j) hj).2
    simpa using hsame
  · intro i
    obtain ⟨e, -, he, -⟩ := hinv.sound.published (i := i) (hpub i)
    rw [he]
    exact entry_of_shapeLe hle (hinv.entry_of_stat hpub (houtputs i) he).1
  · intro key hkey
    obtain ⟨l, data, hres, hnode⟩ := hkeys key hkey
    obtain ⟨hres', hstat⟩ := hkept key hkey
    rw [hres] at hres' ⊢
    rw [stat, hres', stat, hres] at hstat
    dsimp only at hstat
    refine resolve_of_shapeLe hle ?_ hres'
    intro n hn
    rw [node_withoutLinks_of_ne (by simp [hnode]), ← hstat]
    exact hn

theorem CrewInv.unclobbered (hinv : CrewInv cwd disk₀ path force s)
    (hpub : ∀ i, (s.life i).published = true) {keys : List (String × PathName)}
    (hkeys : ∀ key ∈ keys, ∃ l, disk₀.resolve cwd key.2 = .ok l ∧ ¬AtOutput cwd disk₀ path l)
    (h : Separate cwd disk₀ path keys fun i => (s.life i).written) :
    Unclobbered cwd disk₀ path keys s := by
  obtain ⟨hsame, hentries, hkept⟩ := h
  have hge := (hinv.shape_of_published hpub).2
  refine ⟨?_, ?_⟩
  · intro i
    obtain ⟨e, k, he, hk, -, -, hdata⟩ := hinv.sound.published (i := i) (hpub i)
    have hentry := entry_of_shapeLe hge ((hentries i).trans he)
    rw [stat, resolve_of_entry hentry hdata]
    dsimp only
    rw [hdata]
    exact congrArg (fun data => some (Node.file data)) (hsame k i e hk he)
  · intro key hkey
    obtain ⟨l, hres, hout⟩ := hkeys key hkey
    have hl := hinv.node_of_not_atOutput hpub hout
    have hres' : s.disk.resolve cwd key.2 = .ok l := by
      refine resolve_of_shapeLe hge ?_ ((hkept key hkey).trans hres)
      intro n hn
      rw [hl, ← node_withoutLinks_of_not hout]
      exact hn
    refine ⟨hres'.trans hres.symm, ?_⟩
    rw [stat, hres', stat, hres]
    exact hl

end

/-- **When a command clobbers nothing.** -/
theorem outputs_unclobbered_iff (cwd : Loc) (disk₀ : Disk)
    (outputs keys : List (String × PathName)) (input : Option PathName) (force : Bool)
    (hcheck : checkOutputs cwd disk₀ outputs keys = .ok ())
    (hkeys : ∀ key ∈ keys, ∃ l data, disk₀.resolve cwd key.2 = .ok l
      ∧ disk₀.node l = some (.file data))
    (s : Crew (Fin outputs.length))
    (hrun : CrewRun cwd (Succeeds cwd disk₀ fun i => (outputs.get i).2)
      (Crew.start disk₀ (fun i => (outputs.get i).2) input force) s)
    (hdone : ∀ i, (s.life i).output.committed = true) :
    Unclobbered cwd disk₀ (fun i => (outputs.get i).2) keys s
      ↔ Separate cwd disk₀ (fun i => (outputs.get i).2) keys fun i => (s.life i).written := by
  obtain ⟨hinv, -⟩ := crewInv_of_success hrun
  have hpub : ∀ i, (s.life i).published = true := by
    intro i
    rw [Life.published]
    split
    · rfl
    · exact hdone i
  refine ⟨hinv.separate hpub hkeys, hinv.unclobbered hpub ?_⟩
  intro key hkey
  obtain ⟨l, data, hres, hnode⟩ := hkeys key hkey
  refine ⟨l, hres, ?_⟩
  -- the check has found that no output leads to the key
  intro hl
  obtain ⟨i, e, he, rfl⟩ := hl.exists_entry
  have hnot := not_sameFile_of_check hcheck (List.get_mem outputs i) hkey
  rw [sameFile, resolve_of_entry he hnode, hres] at hnot
  simp at hnot

/-! ## Two spellings of one file -/

/-- The conditions of `Succeeds`, checked. -/
def succeedsCheck {ι : Type} [DecidableEq ι] [Fintype ι] (cwd : Loc) (disk₀ : Disk)
    (path : ι → PathName) (s : Crew ι) (i : ι) (choice : Choice) : Bool :=
  !((s.next cwd i choice).life i).dropped
    && decide (∀ j, j ≠ i → (s.life j).temp.all fun temp => disk₀.entry cwd (path i) ≠ .ok temp.2)

theorem succeeds_of_check {ι : Type} [DecidableEq ι] [Fintype ι] {cwd : Loc} {disk₀ : Disk}
    {path : ι → PathName} {s : Crew ι} {i : ι} {choice : Choice}
    (h : succeedsCheck cwd disk₀ path s i choice = true) :
    Succeeds cwd disk₀ path s i choice := by
  rw [succeedsCheck, Bool.and_eq_true, Bool.not_eq_true', decide_eq_true_eq] at h
  refine ⟨h.1, ?_⟩
  rintro _ _ e he j hj tmp τ htemp rfl
  have hne := h.2 j hj
  rw [htemp] at hne
  exact of_decide_eq_true hne he

/-- A directory `d` and a key file `k`. -/
def keyDisk : Disk :=
  ((Files.onlyRoot _).set ⟨[], "d"⟩ (some .dir)).set ⟨[], "k"⟩ (some (.file [7]))

/-- Two outputs saved with `--force`, one after the other. -/
def savedTwice : List (Fin 2 × Choice) :=
  ((savingChoices (Vector.replicate 8 0) [1]).eraseIdx 1).map (0, ·)
    ++ ((savingChoices (Vector.replicate 8 1) [2]).eraseIdx 1).map (1, ·)

/-- A command line with two outputs and a key. -/
def twoSpellings : List (String × PathName) := [("--out", ["a"]), ("--tag", ["d", "..", "a"])]

def twoNames : List (String × PathName) := [("--out", ["a"]), ("--tag", ["b"])]

def oneKey : List (String × PathName) := [("--key", ["k"])]

/-- The end of a command that saves the two outputs. -/
def savedState (outputs : Fin 2 → PathName) : Crew (Fin 2) :=
  savedTwice.foldl (fun s choice => s.next [] choice.1 choice.2)
    (Crew.start keyDisk outputs none true)

theorem crewRun_savedState {outputs : Fin 2 → PathName}
    (h : (Crew.start keyDisk outputs none true).along [] (succeedsCheck [] keyDisk outputs)
      savedTwice = true) :
    CrewRun [] (Succeeds [] keyDisk outputs) (Crew.start keyDisk outputs none true)
      (savedState outputs) :=
  crewRun_of_along (fun _ _ _ => succeeds_of_check) h

/-- `a` and `d/../a` pass the check, and the second output replaces the first. -/
theorem outputs_clobber :
    checkOutputs [] keyDisk twoSpellings oneKey = .ok ()
      ∧ keyDisk.stat [] ["k"] = some (.file [7])
      ∧ ¬∀ s : Crew (Fin 2), CrewRun [] (Succeeds [] keyDisk fun i => (twoSpellings.get i).2)
          (Crew.start keyDisk (fun i => (twoSpellings.get i).2) none true) s →
        (∀ i, (s.life i).output.committed = true) →
        Unclobbered [] keyDisk (fun i => (twoSpellings.get i).2) oneKey s := by
  refine ⟨by decide, by decide, ?_⟩
  intro h
  have hout := (h _ (crewRun_savedState (by decide)) (by decide)).1 (0 : Fin 2)
  exact absurd hout (by decide)

theorem outputs_unclobbered_iff_names :
    let s := savedState fun i => (twoNames.get i).2
    s.disk.stat [] ["a"] = some (.file [1]) ∧ s.disk.stat [] ["b"] = some (.file [2])
      ∧ (Unclobbered [] keyDisk (fun i => (twoNames.get i).2) oneKey s
        ↔ Separate [] keyDisk (fun i => (twoNames.get i).2) oneKey fun i => (s.life i).written) := by
  refine ⟨by decide, by decide, ?_⟩
  refine outputs_unclobbered_iff [] keyDisk twoNames oneKey none true (by decide) ?_ _
    (crewRun_savedState (by decide)) (by decide)
  intro key hkey
  obtain rfl : key = ("--key", ["k"]) := List.mem_singleton.mp hkey
  exact ⟨["k"], [7], by decide, by decide⟩

end UaCrypt.Cli

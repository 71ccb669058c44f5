import UaCrypt.Cli.Outputs

/-!
# Everything on the disk is accounted for

The outputs of one command: their paths are given, and `disk₀` is the disk before it. Where
the disk has changed, one of them has a temp file or a placeholder or has been published
(`Accounted`), as long as the removals succeed and the names of an output keep their meaning
while the others are published (`Steady`).

- `Accounted.acts`: every action keeps the account.
- `Sound.rename_clear`: with one `--force` flag for all, no rename goes onto a placeholder of
  another.
- `Preserved.acts`: whatever the removals do, what was there is safe.
- `steady_of_no_links`: names keep their meaning unless a link is replaced.
-/

namespace UaCrypt.Cli

open FileTree FileTree.Files

section

variable {ι : Type} (cwd : Loc) (disk₀ : Disk) (path : ι → PathName)

/-- The path of an output, or of a temp file beside it. -/
def Beside (p q : PathName) : Prop := p = q ∨ ∃ suffix, p = tempPathBeside q suffix

/-- `disk` has the directories and links of `disk₀`, apart from links at the paths of outputs
other than `j`. -/
def KeepsApart (j : ι) (disk : Disk) : Prop :=
  ∀ l n, n.isFile = false → disk₀.node l = some n →
    ((∃ target, n = .symlink target) → ∀ i, i ≠ j → ∀ e, disk₀.entry cwd (path i) = .ok e →
      l ≠ e.loc) →
    disk.node l = some n

/-- **No output's path runs through a link that another output replaces**: it keeps its
meaning, and so do the names of temp files beside it. -/
def Steady : Prop :=
  ∀ j disk, KeepsApart cwd disk₀ path j disk →
    ∀ p e, Beside p (path j) → disk₀.entry cwd p = .ok e → disk.entry cwd p = .ok e

/-- An output has something at the location, or has been published there. -/
def Covered (h : ι → Holding) (l : Loc) : Prop :=
  (∃ i tmp τ, (h i).temp = some (tmp, τ) ∧ l = τ.loc)
    ∨ ∃ i e, (h i).Shown ∧ disk₀.entry cwd (path i) = .ok e ∧ l = e.loc

/-- Whatever is not as it was belongs to an output; what an output has was not there, and
no directory was replaced. -/
structure Accounted (disk : Disk) (h : ι → Holding) : Prop where
  rest : ∀ l, disk.node l = disk₀.node l ∨ Covered cwd disk₀ path h l
  temp_new : ∀ {i tmp τ}, (h i).temp = some (tmp, τ) → disk₀.node τ.loc = none
  placeholder_new : ∀ {i e}, (h i).placeholder = true → disk₀.entry cwd (path i) = .ok e →
    disk₀.node e.loc = none
  published_new : ∀ {i e}, (h i).published = true → disk₀.entry cwd (path i) = .ok e →
    disk₀.node e.loc ≠ some .dir

end

section

variable {ι : Type} {cwd : Loc} {disk₀ disk disk' : Disk} {path : ι → PathName}
  {force : ι → Bool} {h : ι → Holding} {i : ι} {h' : Holding}

/-- Where no output's path holds a link, names keep their meaning. -/
theorem steady_of_no_links (hlinks : ∀ i e, disk₀.entry cwd (path i) = .ok e →
    ∀ target, disk₀.node e.loc ≠ some (.symlink target)) : Steady cwd disk₀ path := by
  intro j disk hkeeps p e _ he
  refine entry_of_shapeLe ?_ he
  intro l n hn hl
  refine hkeeps l n hn hl ?_
  rintro ⟨target, rfl⟩ i - e' he' rfl
  exact hlinks i e' he' target hl

theorem steady_onlyRoot (path : ι → PathName) : Steady cwd (Files.onlyRoot _) path := by
  refine steady_of_no_links ?_
  intro i e _ target hnode
  rw [Files.onlyRoot] at hnode
  dsimp only at hnode
  split at hnode
  · cases hnode
  · cases hnode

theorem accounted_start (h : ι → Holding)
    (hnone : ∀ i, (h i).placeholder = false ∧ (h i).temp = none ∧ (h i).published = false) :
    Accounted cwd disk₀ path disk₀ h := by
  refine ⟨fun l => Or.inl rfl, ?_, ?_, ?_⟩
  · intro i tmp τ htemp
    rw [(hnone i).2.1] at htemp
    cases htemp
  · intro i e hp
    rw [(hnone i).1] at hp
    cases hp
  · intro i e hpub
    rw [(hnone i).2.2] at hpub
    cases hpub

/-- With one flag for all outputs no rename goes onto another's placeholder, and without
`--force` none onto another's temp file. -/
theorem Sound.rename_clear (hs : Sound cwd disk₀ path force disk h) {leaks : Prop}
    (huniform : ∀ j, force j = force i)
    (hact : Acts cwd (path i) (force i) leaks disk (h i) disk' h')
    (hfresh : force i = true → ∀ e, disk₀.entry cwd (path i) = .ok e → ∀ j, j ≠ i →
      ∀ tmp τ, (h j).temp = some (tmp, τ) → τ ≠ e)
    (hold : (h i).published = false) (hnew : h'.published = true) :
    RenameClear cwd disk₀ path h i := by
  intro e he j hj
  rcases hact.published_made (hs.own i) hs.shape hnew with hpub | ⟨hforce | hp, -⟩
  · rw [hold] at hpub
    cases hpub
  · refine ⟨?_, hfresh hforce e he j hj⟩
    intro hp
    have hfree := ((hs.own j).reserved hp).1
    rw [huniform j, hforce] at hfree
    cases hfree
  · exact ⟨fun hp' => hs.apart (Ne.symm hj) hp (Or.inl hp') he,
      fun tmp τ hτ => hs.fresh hτ (Or.inl hp) he⟩

/-- Something is at a covered location. -/
theorem Sound.node_of_covered (hs : Sound cwd disk₀ path force disk h) {l : Loc}
    (hcover : Covered cwd disk₀ path h l) : disk.node l ≠ none := by
  rcases hcover with ⟨i, tmp, τ, htemp, rfl⟩ | ⟨i, e, hshown, he, rfl⟩
  · exact hs.node_of_temp htemp
  · exact hs.node_of_shown hshown he

/-- Where there is nothing, there was nothing. -/
theorem Accounted.none_of_none (hacc : Accounted cwd disk₀ path disk h)
    (hs : Sound cwd disk₀ path force disk h) {l : Loc} (hnode : disk.node l = none) :
    disk₀.node l = none := by
  rcases hacc.rest l with hsame | hcover
  · rw [← hsame]
    exact hnode
  · exact absurd hnode (hs.node_of_covered hcover)

/-- The names of an output that is not published still mean what they meant. -/
theorem Accounted.resolves (hacc : Accounted cwd disk₀ path disk h)
    (hsteady : Steady cwd disk₀ path) (hpub : (h i).published = false) {p : PathName} {e : Entry}
    (hbeside : Beside p (path i)) (he : disk₀.entry cwd p = .ok e) :
    disk.entry cwd p = .ok e := by
  refine hsteady i disk ?_ p e hbeside he
  intro l n hn hl hapart
  rcases hacc.rest l with hsame | ⟨k, tmp, τ, htemp, rfl⟩ | ⟨k, e', hp | hpub', he', rfl⟩
  · rw [hsame]
    exact hl
  · rw [hacc.temp_new htemp] at hl
    cases hl
  · rw [hacc.placeholder_new hp he'] at hl
    cases hl
  · cases n with
    | dir => exact absurd hl (hacc.published_new hpub' he')
    | file data => cases hn
    | symlink target =>
      have hk : k ≠ i := by
        rintro rfl
        rw [hpub] at hpub'
        cases hpub'
      exact absurd rfl (hapart ⟨target, rfl⟩ k hk e' he')

theorem Own.not_published {path : PathName} {force : Bool} {h : Holding}
    (hown : Own cwd disk₀ path force disk h) (hheld : h.temp ≠ none ∨ h.placeholder = true) :
    h.published = false := by
  rw [← Bool.not_eq_true]
  intro hpub
  obtain ⟨htemp, hp⟩ := hown.done hpub
  rcases hheld with hheld | hheld
  · exact hheld htemp
  · rw [hp] at hheld
    cases hheld

/-- Removing a temp file by its name removes it. -/
theorem Accounted.unlink_temp (hacc : Accounted cwd disk₀ path disk h)
    (hs : Sound cwd disk₀ path force disk h) (hsteady : Steady cwd disk₀ path) {tmp : PathName}
    {τ : Entry} (htemp : (h i).temp = some (tmp, τ)) :
    (disk.unlink cwd tmp).2 = disk.set τ none := by
  obtain ⟨hτ, hsuffix, data, hnode, -⟩ := (hs.own i).temp htemp
  have hpub := (hs.own i).not_published (Or.inl (by rw [htemp]; simp))
  rw [unlink_of_file (hacc.resolves hsteady hpub (Or.inr hsuffix) hτ) hnode]

/-- Removing a placeholder by its name removes it. -/
theorem Accounted.unlink_placeholder (hacc : Accounted cwd disk₀ path disk h)
    (hs : Sound cwd disk₀ path force disk h) (hsteady : Steady cwd disk₀ path)
    (hp : (h i).placeholder = true) {e : Entry} (he : disk₀.entry cwd (path i) = .ok e) :
    (disk.unlink cwd (path i)).2 = disk.set e none ∧ disk.CanSet e := by
  obtain ⟨-, e', he', hnode⟩ := (hs.own i).reserved hp
  obtain rfl : e' = e := Except.ok.inj (he'.symm.trans he)
  have hpub := (hs.own i).not_published (Or.inr hp)
  rw [unlink_of_file (hacc.resolves hsteady hpub (Or.inl rfl) he) hnode]
  exact ⟨rfl, canSet_of_file hnode⟩

/-- What an output gives up other than by publishing it is gone from the disk. -/
def Gone (cwd : Loc) (disk₀ : Disk) (path : PathName) (disk : Disk) (h h' : Holding) : Prop :=
  (∀ tmp τ, h.temp = some (tmp, τ) → h'.temp = none → disk.node τ.loc = none)
    ∧ ∀ e, h.placeholder = true → ¬h'.Shown → disk₀.entry cwd path = .ok e →
      disk.node e.loc = none

/-- Removals that succeed remove what they are meant to. -/
theorem Accounted.gone {leaks : Prop} (hacc : Accounted cwd disk₀ path disk h)
    (hs : Sound cwd disk₀ path force disk h) (hsteady : Steady cwd disk₀ path) (hleaks : ¬leaks)
    (hact : Acts cwd (path i) (force i) leaks disk (h i) disk' h') :
    Gone cwd disk₀ (path i) disk' (h i) h' := by
  have hown := hs.own i
  refine ⟨?_, ?_⟩
  · intro tmp τ htemp hnone
    cases hact with
    | makeTemp hfree hpub hwritten hentry hnode => cases hnone
    | publish htemp' hintact hmode hren =>
      rw [htemp] at htemp'
      cases htemp'
      obtain ⟨e, -, hset, -, hne, rfl⟩ := hown.publish hs.shape htemp hintact hren
      rw [node_set_of_ne (loc_ne_of_ne hne), node_set_self hset]
    | removeTemp htemp' =>
      rw [htemp] at htemp'
      cases htemp'
      obtain ⟨-, -, data, hnode, -⟩ := hown.temp htemp
      rw [hacc.unlink_temp hs hsteady htemp, node_set_self (canSet_of_file hnode)]
    | forgetTemp hleak =>
      rw [htemp] at hleak
      exact absurd (hleak.resolve_right hleaks) (by simp)
    | _ =>
      rw [htemp] at hnone
      cases hnone
  · intro e hp hnot he
    cases hact with
    | reserve hforce hpub hentry hnode => exact absurd (Or.inl rfl) hnot
    | publish htemp hintact hmode hren => exact absurd (Or.inr rfl) hnot
    | removePlaceholder _ =>
      obtain ⟨hunlink, hset⟩ := hacc.unlink_placeholder hs hsteady hp he
      rw [hunlink, node_set_self hset]
    | forgetPlaceholder hleak =>
      rw [hp] at hleak
      exact absurd (hleak.resolve_right hleaks) (by simp)
    | _ => exact absurd (Or.inl hp) hnot

variable [DecidableEq ι]

/-- What an action leaves covered: all but the temp file and the placeholder it gives up. -/
theorem Covered.update {l : Loc} (hcover : Covered cwd disk₀ path h l)
    (htemp : ∀ tmp τ, (h i).temp = some (tmp, τ) → l = τ.loc → h'.temp = some (tmp, τ))
    (hentry : ∀ e, (h i).Shown → disk₀.entry cwd (path i) = .ok e → l = e.loc → h'.Shown) :
    Covered cwd disk₀ path (Function.update h i h') l := by
  rcases hcover with ⟨k, tmp, τ, hτ, hl⟩ | ⟨k, e, hheld, he, hl⟩
  · refine Or.inl ⟨k, tmp, τ, ?_, hl⟩
    by_cases hk : k = i
    · subst hk
      rw [Function.update_self]
      exact htemp tmp τ hτ hl
    · rw [Function.update_of_ne hk]
      exact hτ
  · refine Or.inr ⟨k, e, ?_, he, hl⟩
    by_cases hk : k = i
    · subst hk
      rw [Function.update_self]
      exact hentry e hheld he hl
    · rw [Function.update_of_ne hk]
      exact hheld

theorem covered_temp {tmp : PathName} {τ : Entry} (htemp : h'.temp = some (tmp, τ)) :
    Covered cwd disk₀ path (Function.update h i h') τ.loc :=
  Or.inl ⟨i, tmp, τ, by rw [Function.update_self]; exact htemp, rfl⟩

theorem covered_entry {e : Entry} (he : disk₀.entry cwd (path i) = .ok e)
    (hheld : h'.Shown) :
    Covered cwd disk₀ path (Function.update h i h') e.loc :=
  Or.inr ⟨i, e, by rw [Function.update_self]; exact hheld, he, rfl⟩

/-- The disk is as it was, or the location is covered, after an action. -/
theorem Accounted.rest_acts {leaks : Prop} (hacc : Accounted cwd disk₀ path disk h)
    (hs : Sound cwd disk₀ path force disk h)
    (hact : Acts cwd (path i) (force i) leaks disk (h i) disk' h')
    (hgone : Gone cwd disk₀ (path i) disk' (h i) h') (l : Loc) :
    disk'.node l = disk₀.node l ∨ Covered cwd disk₀ path (Function.update h i h') l := by
  have hown := hs.own i
  -- a covered location that is given up is empty again, as it was
  by_cases hlost : (∃ tmp τ, (h i).temp = some (tmp, τ) ∧ l = τ.loc ∧ h'.temp = none)
      ∨ ∃ e, (h i).placeholder = true ∧ ¬h'.Shown ∧ disk₀.entry cwd (path i) = .ok e ∧ l = e.loc
  · left
    rcases hlost with ⟨tmp, τ, htemp, rfl, hnone⟩ | ⟨e, hp, hnot, he, rfl⟩
    · rw [hgone.1 tmp τ htemp hnone, hacc.temp_new htemp]
    · rw [hgone.2 e hp hnot he, hacc.placeholder_new hp he]
  · have htemp : ∀ tmp τ, (h i).temp = some (tmp, τ) → l = τ.loc → h'.temp = some (tmp, τ) := by
      intro tmp τ hτ hl
      rcases hact.temp_kept hτ with hkept | hnone
      · exact hkept
      · exact absurd (Or.inl ⟨tmp, τ, hτ, hl, hnone⟩) hlost
    have hshown : ∀ e, (h i).Shown → disk₀.entry cwd (path i) = .ok e → l = e.loc →
        h'.Shown := by
      rintro e (hp | hpub) he hl
      · by_contra hnot
        exact hlost (Or.inr ⟨e, hp, hnot, he, hl⟩)
      · exact Or.inr (hact.published_kept hown hpub).1
    rcases hact.frame hown hs.shape l with hsame | ⟨tmp, τ, hl, hτ | ⟨-, hτ⟩⟩
      | ⟨e, hl, he, ⟨-, hp⟩ | hp | ⟨-, hpub⟩⟩
    · rcases hacc.rest l with hold | hcover
      · exact Or.inl (hsame.trans hold)
      · exact Or.inr (hcover.update htemp hshown)
    · exact Or.inr (hl ▸ covered_temp (htemp tmp τ hτ hl))
    · exact Or.inr (hl ▸ covered_temp hτ)
    · exact Or.inr (hl ▸ covered_entry he (Or.inl hp))
    · exact Or.inr (hl ▸ covered_entry he (hshown e (Or.inl hp) he hl))
    · exact Or.inr (hl ▸ covered_entry he (Or.inr hpub))

/-- A rename does not go onto a directory. -/
theorem Acts.not_dir {leaks : Prop} {path : PathName} {force : Bool} {h : Holding} {e : Entry}
    (hact : Acts cwd path force leaks disk h disk' h') (hown : Own cwd disk₀ path force disk h)
    (hshape : disk.ShapeLe disk₀) (hold : h.published = false) (hnew : h'.published = true)
    (he : disk₀.entry cwd path = .ok e) : disk.node e.loc ≠ some .dir := by
  cases hact with
  | @publish tmp τ _ htemp hintact hmode hren =>
    obtain ⟨e', he', hset, hset', hne, -⟩ := hown.publish hshape htemp hintact hren
    obtain rfl : e' = e := Except.ok.inj (he'.symm.trans he)
    intro hdir
    have hset := hset'.loc_ne (l := e'.loc)
    rw [node_set_of_ne (loc_ne_of_ne hne.symm)] at hset
    exact hset hdir rfl
  | _ =>
    rw [hold] at hnew
    cases hnew

/-- **An action keeps the account.** -/
theorem Accounted.acts {leaks : Prop} (hacc : Accounted cwd disk₀ path disk h)
    (hs : Sound cwd disk₀ path force disk h)
    (hact : Acts cwd (path i) (force i) leaks disk (h i) disk' h')
    (hgone : Gone cwd disk₀ (path i) disk' (h i) h') :
    Accounted cwd disk₀ path disk' (Function.update h i h') := by
  refine ⟨hacc.rest_acts hs hact hgone, ?_, ?_, ?_⟩
  · intro j tmp τ hτ
    by_cases hj : j = i
    · subst hj
      rw [Function.update_self] at hτ
      rcases hact.temp_made hτ with hold | hnone
      · exact hacc.temp_new hold
      · exact hacc.none_of_none hs hnone
    · rw [Function.update_of_ne hj] at hτ
      exact hacc.temp_new hτ
  · intro j e hp he
    by_cases hj : j = i
    · subst hj
      rw [Function.update_self] at hp
      rcases hact.placeholder_made hs.shape he hp with hold | hnone
      · exact hacc.placeholder_new hold he
      · exact hacc.none_of_none hs hnone
    · rw [Function.update_of_ne hj] at hp
      exact hacc.placeholder_new hp he
  · intro j e hpub he
    by_cases hj : j = i
    · subst hj
      rw [Function.update_self] at hpub
      by_cases hold : (h j).published = true
      · exact hacc.published_new hold he
      · have hdir := hact.not_dir (hs.own j) hs.shape (Bool.not_eq_true _ ▸ hold) hpub he
        rcases hacc.rest e.loc with hsame | ⟨k, tmp, τ, hτ, hl⟩ | ⟨k, e', hp | hpub', he', hl⟩
        · rw [← hsame]
          exact hdir
        · rw [hl, hacc.temp_new hτ]
          simp
        · rw [hl, hacc.placeholder_new hp he']
          simp
        · rw [hl]
          exact hacc.published_new hpub' he'
    · rw [Function.update_of_ne hj] at hpub
      exact hacc.published_new hpub he

end

/-! ## Removals that fail

Then something may be left where there was nothing, but what was there is safe. -/

section

variable {ι : Type}

/-- Whatever was there is as it was, unless an output has been published there. -/
structure Preserved (cwd : Loc) (disk₀ : Disk) (path : ι → PathName) (disk : Disk)
    (h : ι → Holding) : Prop where
  kept : ∀ {l n}, disk₀.node l = some n → disk.node l = some n
    ∨ ∃ i e, (h i).published = true ∧ disk₀.entry cwd (path i) = .ok e ∧ l = e.loc
  temp_new : ∀ {i tmp τ}, (h i).temp = some (tmp, τ) → disk₀.node τ.loc = none
  placeholder_new : ∀ {i e}, (h i).placeholder = true → disk₀.entry cwd (path i) = .ok e →
    disk₀.node e.loc = none

variable {cwd : Loc} {disk₀ disk disk' : Disk} {path : ι → PathName} {force : ι → Bool}
  {h : ι → Holding} {i : ι} {h' : Holding}

theorem preserved_start (h : ι → Holding)
    (hnone : ∀ i, (h i).placeholder = false ∧ (h i).temp = none ∧ (h i).published = false) :
    Preserved cwd disk₀ path disk₀ h := by
  have hacc : Accounted cwd disk₀ path disk₀ h := accounted_start h hnone
  exact ⟨fun hn => Or.inl hn, hacc.temp_new, hacc.placeholder_new⟩

/-- Where there is nothing, there was nothing. -/
theorem Preserved.none_of_none (hkept : Preserved cwd disk₀ path disk h)
    (hs : Sound cwd disk₀ path force disk h) {l : Loc} (hnode : disk.node l = none) :
    disk₀.node l = none := by
  cases hold : disk₀.node l with
  | none => rfl
  | some n =>
    rcases hkept.kept hold with hsame | ⟨i, e, hpub, he, rfl⟩
    · rw [hnode] at hsame
      cases hsame
    · exact absurd hnode (hs.node_of_shown (Or.inr hpub) he)

variable [DecidableEq ι]

/-- **An action preserves what was there**, whether removals succeed or not. -/
theorem Preserved.acts {leaks : Prop} (hkept : Preserved cwd disk₀ path disk h)
    (hs : Sound cwd disk₀ path force disk h)
    (hact : Acts cwd (path i) (force i) leaks disk (h i) disk' h') :
    Preserved cwd disk₀ path disk' (Function.update h i h') := by
  have hpublished : ∀ {k e}, (h k).published = true → disk₀.entry cwd (path k) = .ok e →
      ∃ j e', (Function.update h i h' j).published = true ∧ disk₀.entry cwd (path j) = .ok e'
        ∧ e.loc = e'.loc := by
    intro k e hpub he
    refine ⟨k, e, ?_, he, rfl⟩
    by_cases hk : k = i
    · subst hk
      rw [Function.update_self]
      exact (hact.published_kept (hs.own k) hpub).1
    · rw [Function.update_of_ne hk]
      exact hpub
  refine ⟨?_, ?_, ?_⟩
  · intro l n hn
    rcases hkept.kept hn with hsame | ⟨k, e, hpub, he, rfl⟩
    · rcases hact.frame (hs.own i) hs.shape l with hframe | ⟨tmp, τ, rfl, hτ | ⟨hnone, -⟩⟩
        | ⟨e, rfl, he, ⟨hnone, -⟩ | hp | ⟨-, hpub⟩⟩
      · exact Or.inl (hframe.trans hsame)
      · rw [hkept.temp_new hτ] at hn
        cases hn
      · rw [hsame] at hnone
        cases hnone
      · rw [hsame] at hnone
        cases hnone
      · rw [hkept.placeholder_new hp he] at hn
        cases hn
      · exact Or.inr ⟨i, e, by rw [Function.update_self]; exact hpub, he, rfl⟩
    · exact Or.inr (hpublished hpub he)
  · intro j tmp τ hτ
    by_cases hj : j = i
    · subst hj
      rw [Function.update_self] at hτ
      rcases hact.temp_made hτ with hold | hnone
      · exact hkept.temp_new hold
      · exact hkept.none_of_none hs hnone
    · rw [Function.update_of_ne hj] at hτ
      exact hkept.temp_new hτ
  · intro j e hp he
    by_cases hj : j = i
    · subst hj
      rw [Function.update_self] at hp
      rcases hact.placeholder_made hs.shape he hp with hold | hnone
      · exact hkept.placeholder_new hold he
      · exact hkept.none_of_none hs hnone
    · rw [Function.update_of_ne hj] at hp
      exact hkept.placeholder_new hp he

end

end UaCrypt.Cli

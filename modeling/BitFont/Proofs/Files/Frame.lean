import BitFont.Files.Access
import Mathlib.Logic.Relation

/-!
# What file operations leave alone

Without links a path leads, wherever it leads at all, to the names that its steps spell out from the
root (`Path.names`). Removing a directory changes nothing but what lies at its names or below them
(`get?_removeDirectory`). Making directories, whether it succeeds or stops half way, adds directories
of the path and its parents and changes nothing that is there (`gainsDirectories_makeDirectories`).
-/

namespace BitFont

/-- The names behind one more step. -/
def Step.advance (names : List String) : Step → List String
  | .stay => names
  | .up => names.dropLast
  | .into name => names ++ [name]

/-- The names that a path spells out from the root. -/
def Path.names (path : Path) : List String := path.steps.foldl Step.advance []

/-- One path is the parent of another, or the parent of its parent, and so on. -/
def Path.IsAncestor (outer path : Path) : Prop :=
  Relation.TransGen (fun inner around : Path => inner.parent? = some around) path outer

theorem Path.isAncestor_of_mem_parentsUpTo {fuel : Nat} {path outer : Path}
    (h : outer ∈ parentsUpTo fuel path) : outer.IsAncestor path := by
  induction fuel generalizing path with
  | zero => simp [parentsUpTo] at h
  | succ fuel ih =>
    rw [parentsUpTo] at h
    split at h
    · simp at h
    · rename_i parent hparent
      split at h
      · simp at h
      · rcases List.mem_cons.mp h with rfl | houter
        · exact .single hparent
        · exact .head hparent (ih houter)

namespace FileTree

/-! ## Where paths lead -/

theorem walk_eq_ok {tree : FileTree} {here dir : tree.Dir} {steps : List Step}
    (h : tree.walk here steps = .ok dir) : dir.1 = steps.foldl Step.advance here.1 := by
  induction steps generalizing here with
  | nil =>
    rw [walk] at h
    obtain rfl := Except.ok.inj h
    rfl
  | cons step rest ih =>
    cases step with
    | stay =>
      rw [walk] at h
      exact ih h
    | up =>
      rw [walk] at h
      exact ih h
    | into name =>
      rw [walk] at h
      split at h
      · contradiction
      · contradiction
      · exact ih h

/-- The names of a place, counted from the root. -/
def Place.names {tree : FileTree} : tree.Place → List String
  | .directory dir _ => dir.1
  | .named parent name => parent.1 ++ [name]

theorem names_of_locate {tree : FileTree} {path : Path} {place : tree.Place}
    (h : tree.locate path = .ok place) : place.names = path.names := by
  unfold locate at h
  split at h
  · contradiction
  · split at h
    · contradiction
    · split at h
      · -- The last step names something: the walk goes up to its parent.
        rename_i name hlast
        cases hwalk : tree.walk ⟨[], rfl⟩ path.steps.dropLast with
        | error error =>
          rw [hwalk] at h
          contradiction
        | ok parent =>
          rw [hwalk] at h
          obtain rfl := Except.ok.inj h
          obtain ⟨before, hsteps⟩ := List.getLast?_eq_some_iff.mp hlast
          have hparent := walk_eq_ok hwalk
          rw [hsteps, List.dropLast_concat] at hparent
          rw [Place.names, Path.names, hsteps, List.foldl_append, hparent]
          rfl
      · cases hwalk : tree.walk ⟨[], rfl⟩ path.steps with
        | error error =>
          rw [hwalk] at h
          contradiction
        | ok dir =>
          rw [hwalk] at h
          obtain rfl := Except.ok.inj h
          exact walk_eq_ok hwalk

/-! ## Removing -/

/-- Nothing changes outside of what a removed path leads to, whether the removal succeeds or not. -/
theorem get?_removeDirectory (tree : FileTree) (path : Path) {names : List String}
    (h : ¬ path.names <+: names) :
    (tree.removeDirectory path).2.get? names = tree.get? names := by
  unfold removeDirectory
  cases hlocate : tree.locate path with
  | error error => rfl
  | ok place =>
    cases place with
    | directory dir last =>
      have hdir : dir.1 = path.names := names_of_locate hlocate
      have hkept : (tree.removeBelow dir.1).get? names = tree.get? names := by
        rw [get?_removeBelow, hdir, if_neg (fun hbelow => h hbelow.1)]
      dsimp only
      split <;> exact hkept
    | named parent name =>
      have hnames : parent.1 ++ [name] = path.names := names_of_locate hlocate
      dsimp only
      split
      · rfl
      · rfl
      · rw [get?_remove, hnames, if_neg h]

/-! ## Files -/

/-- The same files, whatever directories there are. -/
def SameFiles (tree other : FileTree) : Prop :=
  ∀ names content, other.get? names = some (.file content) ↔ tree.get? names = some (.file content)

theorem SameFiles.refl (tree : FileTree) : SameFiles tree tree := fun _ _ => Iff.rfl

/-! ## Making -/

/-- The other tree has all that the tree has, and besides it only directories, each of them at the
names of a path that could be made. -/
def GainsDirectories (made : Path → Prop) (tree other : FileTree) : Prop :=
  ∀ names, other.get? names = tree.get? names ∨
    (tree.get? names = none ∧ other.get? names = some .dir ∧ ∃ path, made path ∧ path.names = names)

namespace GainsDirectories

variable {made others : Path → Prop} {tree other next : FileTree}

theorem refl (made : Path → Prop) (tree : FileTree) : GainsDirectories made tree tree :=
  fun _ => .inl rfl

theorem trans (h : GainsDirectories made tree other) (hnext : GainsDirectories made other next) :
    GainsDirectories made tree next := by
  intro names
  rcases hnext names with hsame | ⟨hfree, hdir, hmade⟩
  · rw [hsame]
    exact h names
  · -- What is new at the second step was not there before the first one.
    rcases h names with hsame | ⟨-, hbefore, -⟩
    · exact .inr ⟨hsame.symm.trans hfree, hdir, hmade⟩
    · rw [hbefore] at hfree
      contradiction

theorem mono (h : GainsDirectories made tree other) (hothers : ∀ path, made path → others path) :
    GainsDirectories others tree other := by
  intro names
  rcases h names with hsame | ⟨hfree, hdir, path, hmade, hnames⟩
  · exact .inl hsame
  · exact .inr ⟨hfree, hdir, path, hothers path hmade, hnames⟩

theorem sameFiles (h : GainsDirectories made tree other) : SameFiles tree other := by
  intro names content
  rcases h names with hsame | ⟨hfree, hdir, -⟩
  · rw [hsame]
  · simp [hfree, hdir]

theorem keepsDir (h : GainsDirectories made tree other) {names : List String}
    (hdir : tree.get? names = some .dir) : other.get? names = some .dir := by
  rcases h names with hsame | ⟨-, hother, -⟩
  · exact hsame.trans hdir
  · exact hother

end GainsDirectories

theorem gainsDirectories_makeDirectory {tree other : FileTree} {path : Path}
    (h : tree.makeDirectory path = .ok other) : GainsDirectories (· = path) tree other := by
  unfold makeDirectory at h
  split at h
  · contradiction
  · contradiction
  · rename_i parent name hlocate
    have hnames : parent.1 ++ [name] = path.names := names_of_locate hlocate
    split at h
    · contradiction
    · rename_i hfree
      obtain rfl := Except.ok.inj h
      intro names
      rw [get?_addDir]
      by_cases hsame : names = parent.1 ++ [name]
      · subst hsame
        exact .inr ⟨hfree, if_pos rfl, path, rfl, hnames.symm⟩
      · exact .inl (if_neg hsame)

theorem gainsDirectories_ensureDirectory {tree other : FileTree} {path : Path}
    (h : tree.ensureDirectory path = .ok other) : GainsDirectories (· = path) tree other := by
  unfold ensureDirectory at h
  split at h
  · rename_i made hmade
    obtain rfl := Except.ok.inj h
    exact gainsDirectories_makeDirectory hmade
  · split at h
    · obtain rfl := Except.ok.inj h
      exact .refl _ tree
    · contradiction

theorem gainsDirectories_makeNested (tree : FileTree) (paths : List Path) :
    GainsDirectories (· ∈ paths) tree (tree.makeNested paths).2 := by
  induction paths generalizing tree with
  | nil => exact .refl _ tree
  | cons path around ih =>
    have hensure {before after : FileTree} (hmade : before.ensureDirectory path = .ok after) :
        GainsDirectories (· ∈ path :: around) before after :=
      (gainsDirectories_ensureDirectory hmade).mono (by simp)
    unfold makeNested
    split
    · rename_i made hmade
      exact hensure hmade
    · -- The directories around come first, and the directory itself is tried again.
      have haround : GainsDirectories (· ∈ path :: around) tree (tree.makeNested around).2 :=
        (ih tree).mono fun _ => List.mem_cons_of_mem path
      split
      · rename_i error after hafter
        rw [hafter] at haround
        exact haround
      · rename_i after hafter
        rw [hafter] at haround
        split
        · rename_i made hmade
          exact haround.trans (hensure hmade)
        · exact haround
    · exact .refl _ tree

theorem gainsDirectories_makeDirectories (tree : FileTree) (path : Path) :
    GainsDirectories (· ∈ path :: path.parents) tree (tree.makeDirectories path).2 := by
  unfold makeDirectories
  split
  · exact .refl _ tree
  · exact gainsDirectories_makeNested tree _

/-- Making the directory around a path. -/
theorem gainsDirectories_makeParent (tree : FileTree) {path parent : Path}
    (hparent : path.parent? = some parent) :
    GainsDirectories (·.IsAncestor path) tree (tree.makeDirectories parent).2 := by
  refine (gainsDirectories_makeDirectories tree parent).mono ?_
  intro outer houter
  rcases List.mem_cons.mp houter with rfl | hbeyond
  · exact .single hparent
  · exact .head hparent (Path.isAncestor_of_mem_parentsUpTo hbeyond)

theorem sameFiles_makeDirectories (tree : FileTree) (path : Path) :
    SameFiles tree (tree.makeDirectories path).2 :=
  (gainsDirectories_makeDirectories tree path).sameFiles

/-! ## Removing and making -/

/-- The same files everywhere but at the names of some paths and below. -/
def SameFilesOutside (paths : List Path) (tree other : FileTree) : Prop :=
  ∀ names, (∀ path ∈ paths, ¬ path.names <+: names) → ∀ content,
    other.get? names = some (.file content) ↔ tree.get? names = some (.file content)

namespace SameFilesOutside

variable {paths others : List Path} {tree other next : FileTree}

theorem trans (h : SameFilesOutside paths tree other) (hnext : SameFilesOutside others other next) :
    SameFilesOutside (paths ++ others) tree next := by
  intro names houtside content
  have hpaths : ∀ path ∈ paths, ¬ path.names <+: names :=
    fun path hpath => houtside path (List.mem_append_left _ hpath)
  have hothers : ∀ path ∈ others, ¬ path.names <+: names :=
    fun path hpath => houtside path (List.mem_append_right _ hpath)
  exact (hnext names hothers content).trans (h names hpaths content)

end SameFilesOutside

theorem SameFiles.outside {tree other : FileTree} (h : SameFiles tree other) (paths : List Path) :
    SameFilesOutside paths tree other := fun names _ content => h names content

theorem sameFilesOutside_removeDirectory (tree : FileTree) (path : Path) :
    SameFilesOutside [path] tree (tree.removeDirectory path).2 := by
  intro names houtside content
  rw [get?_removeDirectory tree path (houtside path List.mem_cons_self)]

end FileTree

end BitFont

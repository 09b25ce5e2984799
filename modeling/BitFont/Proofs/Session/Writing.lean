import BitFont.Proofs.Files.Outcomes
import BitFont.Proofs.Session.Performing

/-!
# Writing in a session

Writing a text makes the directory around the file first, if the path names one. When both succeed,
the tree has the file and the directories that lead to it, and is otherwise as it was
(`hasWritten_of_perform_writeText`). When one of them fails, there may be new directories that the
path names, and nothing else has changed (`gainsDirectories_of_perform_writeText`).
-/

namespace BitFont.Session

theorem perform_write (session : Session) (fails : FileError → Failure) (path : Path)
    (content : ByteArray) :
    session.perform (Action.attempt fails (Host.write path content)) =
      match session.tree.write path content with
      | .ok tree => (.ok (), { session with tree })
      | .error error => (.error (fails error), session) := by
  have hrun : (Host.write path content : StateM Session (Except FileError Unit)).run session =
      match session.tree.write path content with
      | .ok tree => (.ok (), { session with tree })
      | .error error => (.error error, session) := rfl
  rw [perform_attempt, hrun]
  cases session.tree.write path content <;> rfl

theorem tree_of_perform_write {session after : Session} {fails : FileError → Failure} {path : Path}
    {content : ByteArray}
    (h : session.perform (Action.attempt fails (Host.write path content)) = (.ok (), after)) :
    session.tree.write path content = .ok after.tree := by
  rw [perform_write] at h
  split at h
  · rename_i tree hwrite
    obtain ⟨-, rfl⟩ := Prod.mk.inj h
    exact hwrite
  · simp at h

theorem tree_of_perform_makeDirectories {session after : Session} {path : Path}
    (h : session.perform (Action.makeDirectories path) = (.ok (), after)) :
    session.tree.makeDirectories path = (.ok (), after.tree) := by
  rw [perform_makeDirectories] at h
  obtain ⟨hresult, rfl⟩ := Prod.mk.inj h
  cases hmade : session.tree.makeDirectories path with
  | mk result tree =>
    rw [hmade] at hresult
    cases result with
    | error error => contradiction
    | ok value => rfl

theorem perform_writeText_of_bare (session : Session) {path parent : Path}
    (hparent : path.parent? = some parent) (hbare : parent.text = "") (text : String) :
    session.perform (Action.writeText path text) =
      session.perform (Action.attempt (.unwritable path) (Host.write path text.toUTF8)) := by
  unfold Action.writeText
  rw [hparent]
  dsimp only
  rw [if_pos hbare]

theorem perform_writeText_of_parent (session : Session) {path parent : Path}
    (hparent : path.parent? = some parent) (hnamed : parent.text ≠ "") (text : String) :
    session.perform (Action.writeText path text) =
      session.perform (Action.makeDirectories parent >>= fun _ =>
        Action.attempt (.unwritable path) (Host.write path text.toUTF8)) := by
  unfold Action.writeText
  rw [hparent]
  dsimp only
  rw [if_neg hnamed]

theorem hasWritten_of_perform_writeText {session after : Session} {path : Path} {text : String}
    (hordinary : path.IsOrdinary)
    (h : session.perform (Action.writeText path text) = (.ok (), after)) :
    session.tree.HasWritten path.names text.toUTF8 after.tree := by
  have hparent := hordinary.parent?_eq
  by_cases hsingle : path.segments.dropLast = []
  · -- A single name lies in the root, which is there.
    rw [perform_writeText_of_bare session hparent (by rw [hsingle]; rfl)] at h
    have hroot : ∀ query, session.tree.get? query =
        if query <+: path.names.dropLast then some .dir else session.tree.get? query := by
      intro query
      rw [hordinary.names_eq, hsingle]
      split
      · rename_i hquery
        rw [List.prefix_nil.mp hquery, FileTree.get?_root]
      · rfl
    exact FileTree.hasWritten_of_write hordinary.names_ne_nil (.refl _) hroot
      (tree_of_perform_write h)
  · obtain ⟨haround, hnames⟩ := hordinary.isOrdinary_dropLast hsingle
    rw [perform_writeText_of_parent session hparent haround.text_ne_empty, perform_bind] at h
    split at h
    · rename_i value made hmade
      have hmakes := tree_of_perform_makeDirectories hmade
      have hfiles := FileTree.sameFiles_makeDirectories session.tree
        (Path.ofSegments path.segments.dropLast)
      have hdirs := FileTree.get?_makeDirectories haround hmakes
      rw [hmakes] at hfiles
      rw [hnames] at hdirs
      exact FileTree.hasWritten_of_write hordinary.names_ne_nil hfiles hdirs
        (tree_of_perform_write h)
    · simp at h

/-! ## Any path -/

/-- Writing a text is writing a file, behind the making of a directory where the path names one. -/
theorem perform_writeText_cases (session : Session) (path : Path) (text : String) :
    (session.perform (Action.writeText path text) =
        session.perform (Action.attempt (.unwritable path) (Host.write path text.toUTF8)) ∧
      ∀ parent, path.parent? = some parent → parent.text = "") ∨
    ∃ parent, path.parent? = some parent ∧ parent.text ≠ "" ∧
      session.perform (Action.writeText path text) =
        session.perform (Action.makeDirectories parent >>= fun _ =>
          Action.attempt (.unwritable path) (Host.write path text.toUTF8)) := by
  cases hparent : path.parent? with
  | none =>
    refine .inl ⟨?_, fun parent hsome => by contradiction⟩
    unfold Action.writeText
    rw [hparent]
  | some parent =>
    by_cases hbare : parent.text = ""
    · refine .inl ⟨perform_writeText_of_bare session hparent hbare text, ?_⟩
      intro other hother
      rwa [← Option.some.inj hother]
    · exact .inr ⟨parent, rfl, hbare, perform_writeText_of_parent session hparent hbare text⟩

/-- The file is written in a tree that has the directories around it. -/
theorem exists_write_of_perform_writeText {session after : Session} {path : Path} {text : String}
    (h : session.perform (Action.writeText path text) = (.ok (), after)) :
    ∃ made, session.tree.GainsDirectories (·.IsAncestor path) made ∧
      (∀ parent, path.parent? = some parent → parent.text ≠ "" → made.isDirectory parent = true) ∧
      made.write path text.toUTF8 = .ok after.tree := by
  rcases session.perform_writeText_cases path text with
    ⟨hrun, hbare⟩ | ⟨parent, hparent, hnamed, hrun⟩
  · rw [hrun] at h
    refine ⟨session.tree, .refl _ _, ?_, tree_of_perform_write h⟩
    intro parent hparent hnamed
    exact absurd (hbare parent hparent) hnamed
  · rw [hrun, perform_bind] at h
    split at h
    · rename_i value made hmade
      have hmakes := tree_of_perform_makeDirectories hmade
      have hgains := session.tree.gainsDirectories_makeParent hparent
      rw [hmakes] at hgains
      refine ⟨made.tree, hgains, ?_, tree_of_perform_write h⟩
      intro other hother _
      obtain rfl : parent = other := Option.some.inj (hparent.symm.trans hother)
      exact FileTree.isDirectory_of_makeDirectories hmakes hnamed
    · simp at h

/-- The file has the text then, and the other files are as they were. -/
theorem read_of_perform_writeText {session after : Session} {path : Path} {text : String}
    (h : session.perform (Action.writeText path text) = (.ok (), after)) :
    after.tree.read path = .ok text.toUTF8 ∧
      ∀ names, names ≠ path.names → ∀ content,
        after.tree.get? names = some (.file content) ↔
          session.tree.get? names = some (.file content) := by
  obtain ⟨made, hgains, -, hwrite⟩ := exists_write_of_perform_writeText h
  refine ⟨FileTree.read_of_write hwrite, ?_⟩
  intro names hne content
  rw [(FileTree.get?_write hwrite).2, if_neg hne]
  exact hgains.sameFiles names content

/-- Directories may have been made for a file that is not written. -/
theorem gainsDirectories_of_perform_writeText {session after : Session} {path : Path} {text : String}
    {failure : Failure} (h : session.perform (Action.writeText path text) = (.error failure, after)) :
    session.tree.GainsDirectories (·.IsAncestor path) after.tree := by
  have hwrite {before : Session}
      (hfails : before.perform (Action.attempt (.unwritable path) (Host.write path text.toUTF8)) =
        (.error failure, after)) : after.tree = before.tree := by
    rw [perform_write] at hfails
    split at hfails
    · simp at hfails
    · obtain ⟨-, rfl⟩ := Prod.mk.inj hfails
      rfl
  rcases session.perform_writeText_cases path text with ⟨hrun, -⟩ | ⟨parent, hparent, -, hrun⟩
  · rw [hrun] at h
    rw [hwrite h]
    exact .refl _ session.tree
  · have hgains := session.tree.gainsDirectories_makeParent hparent
    rw [hrun, perform_bind, perform_makeDirectories] at h
    cases hmade : session.tree.makeDirectories parent with
    | mk result made =>
      rw [hmade] at h hgains
      cases result with
      | ok value =>
        rw [hwrite h]
        exact hgains
      | error error =>
        dsimp only [Except.mapError] at h
        obtain ⟨-, rfl⟩ := Prod.mk.inj h
        exact hgains

theorem sameFiles_of_perform_writeText {session after : Session} {path : Path} {text : String}
    {failure : Failure} (h : session.perform (Action.writeText path text) = (.error failure, after)) :
    session.tree.SameFiles after.tree := (gainsDirectories_of_perform_writeText h).sameFiles

/-! ## Ordinary paths -/

/-- A text can be written where no file is on the way and no directory at the names of the path. -/
theorem perform_writeText_of_free (session : Session) {path : Path} (hordinary : path.IsOrdinary)
    (hnul : path.hasNul = false) (haround : ¬ session.tree.IsBlocked path.names.dropLast)
    (hfree : session.tree.get? path.names ≠ some .dir) (text : String) :
    ∃ after, session.perform (Action.writeText path text) = (.ok (), after) := by
  have hwrite (before : Session) (hdir : before.tree.get? path.names.dropLast = some .dir)
      (hfree : before.tree.get? path.names ≠ some .dir) :
      ∃ after, before.perform
        (Action.attempt (.unwritable path) (Host.write path text.toUTF8)) = (.ok (), after) := by
    obtain ⟨other, hother⟩ :=
      (FileTree.write_ok_iff hordinary text.toUTF8).mpr ⟨hnul, hdir, hfree⟩
    rw [perform_write, hother]
    exact ⟨_, rfl⟩
  have hparent := hordinary.parent?_eq
  by_cases hsingle : path.segments.dropLast = []
  · rw [perform_writeText_of_bare session hparent (by rw [hsingle]; rfl)]
    refine hwrite session ?_ hfree
    rw [hordinary.names_eq, hsingle]
    rfl
  · obtain ⟨hordinaryAround, hnames⟩ := hordinary.isOrdinary_dropLast hsingle
    rw [← hnames] at haround
    obtain ⟨made, hmade, hview⟩ := FileTree.makeDirectories_of_not_isBlocked hordinaryAround
      (hordinary.hasNul_dropLast hnul) haround
    rw [hnames] at hview
    rw [perform_writeText_of_parent session hparent hordinaryAround.text_ne_empty, perform_bind,
      perform_makeDirectories, hmade]
    refine hwrite { session with tree := made } ?_ ?_
    · show made.get? path.names.dropLast = some .dir
      rw [hview, if_pos List.prefix_rfl]
    · show made.get? path.names ≠ some .dir
      rw [hview, if_neg (FileTree.not_prefix_dropLast hordinary.names_ne_nil)]
      exact hfree

end BitFont.Session

import BitFont.Proofs.Session.Writing
import Mathlib.Data.List.TakeWhile

/-!
# What writing a text touches

Whatever dots, slashes and missing directories a path has, writing a text to it touches nothing but
the file at the path and the directories that the path names as its ancestors
(`perform_writeText_footprint`). A file that can be written always has a parent
(`exists_parent?_of_write`).
-/

namespace BitFont

theorem Path.stepOfSegment_of_isIdle {segment : String} (h : isIdle segment = true) :
    stepOfSegment segment = none ∨ stepOfSegment segment = some .stay := by
  have hcases : segment = "" ∨ segment = "." := by simpa [isIdle] using h
  rcases hcases with rfl | rfl
  · exact .inl rfl
  · exact .inr rfl

/-- A path without a parent leads nowhere. -/
theorem Path.eq_stay_of_parent?_eq_none {path : Path} (h : path.parent? = none) :
    ∀ step ∈ path.steps, step = .stay := by
  have hidle : ∀ segment ∈ path.segments, isIdle segment = true := by
    unfold parent? at h
    split at h
    · rename_i hnil
      exact absurd hnil path.segments_ne_nil
    · rename_i first rest hsegments
      split at h
      · rename_i htrim
        split at h
        · rename_i hfirst
          have hrest : ∀ segment ∈ rest, isIdle segment = true := by
            simpa [trimEnd, List.dropWhile_eq_nil_iff] using htrim
          rw [hsegments, List.forall_mem_cons]
          exact ⟨by rw [hfirst]; rfl, hrest⟩
        · contradiction
      · contradiction
  intro step hstep
  obtain ⟨segment, hsegment, hmeans⟩ := List.mem_filterMap.mp hstep
  rcases stepOfSegment_of_isIdle (hidle segment hsegment) with hnone | hstay
  · rw [hnone] at hmeans
    contradiction
  · exact (Option.some.inj (hstay.symm.trans hmeans)).symm

namespace FileTree

variable {tree other : FileTree} {path : Path} {content : ByteArray}

theorem exists_parent?_of_write (h : tree.write path content = .ok other) :
    ∃ parent, path.parent? = some parent := by
  by_contra hnone
  have hstay := Path.eq_stay_of_parent?_eq_none (Option.eq_none_iff_forall_ne_some.mpr
    fun parent hparent => hnone ⟨parent, hparent⟩)
  unfold write at h
  split at h
  · contradiction
  · contradiction
  · -- Only a path whose last step goes into a name leads to a place for a file.
    rename_i parent name hlocate
    unfold locate at hlocate
    split at hlocate
    · contradiction
    · split at hlocate
      · contradiction
      · split at hlocate
        · rename_i last hlast
          have hstep := hstay _ (List.mem_of_getLast? hlast)
          contradiction
        · cases hwalk : tree.walk ⟨[], rfl⟩ path.steps with
          | error error => simp [hwalk, Except.map] at hlocate
          | ok dir => simp [hwalk, Except.map] at hlocate

end FileTree

namespace Session

/-- Nothing of a session but its tree changes when a text is written. -/
theorem perform_writeText_tree (session : Session) (path : Path) (text : String) :
    ∃ tree, (session.perform (Action.writeText path text)).2 = { session with tree } := by
  have hwrite (before : Session) : ∃ tree, (before.perform
      (Action.attempt (.unwritable path) (Host.write path text.toUTF8))).2 =
        { before with tree } := by
    rw [perform_write]
    split
    · exact ⟨_, rfl⟩
    · exact ⟨before.tree, rfl⟩
  rcases session.perform_writeText_cases path text with ⟨hrun, -⟩ | ⟨parent, -, -, hrun⟩
  · rw [hrun]
    exact hwrite session
  · rw [hrun, perform_bind, perform_makeDirectories]
    cases (session.tree.makeDirectories parent).1 with
    | error error => exact ⟨_, rfl⟩
    | ok value =>
      obtain ⟨tree, htree⟩ :=
        hwrite { session with tree := (session.tree.makeDirectories parent).2 }
      exact ⟨tree, htree⟩

/-- When a text is written, the file at the path has it, the directory around it is there, and all
else is as it was, or a new directory that the path names as an ancestor. When it is not written, no
file has changed, and there is nothing new but such directories. -/
theorem perform_writeText_footprint (session : Session) (path : Path) (text : String) :
    (∀ after, session.perform (Action.writeText path text) = (.ok (), after) →
      after.tree.read path = .ok text.toUTF8 ∧
      (∃ parent, path.parent? = some parent ∧
        (parent.text = "" ∨ after.tree.isDirectory parent = true)) ∧
      (∀ names, names ≠ path.names → ∀ content,
        after.tree.get? names = some (.file content) ↔
          session.tree.get? names = some (.file content)) ∧
      (∀ names, session.tree.get? names = some .dir → after.tree.get? names = some .dir) ∧
      ∀ names, names ≠ path.names → after.tree.get? names ≠ session.tree.get? names →
        session.tree.get? names = none ∧ after.tree.get? names = some .dir ∧
          ∃ outer : Path, outer.IsAncestor path ∧ outer.names = names) ∧
    (∀ failure after, session.perform (Action.writeText path text) = (.error failure, after) →
      session.tree.SameFiles after.tree ∧
      ∀ names, after.tree.get? names ≠ session.tree.get? names →
        session.tree.get? names = none ∧ after.tree.get? names = some .dir ∧
          ∃ outer : Path, outer.IsAncestor path ∧ outer.names = names) ∧
    ∃ tree, (session.perform (Action.writeText path text)).2 = { session with tree } := by
  refine ⟨?_, ?_, session.perform_writeText_tree path text⟩
  · intro after h
    obtain ⟨made, hgains, haround, hwrite⟩ := exists_write_of_perform_writeText h
    obtain ⟨hread, hfiles⟩ := read_of_perform_writeText h
    obtain ⟨parent, hparent⟩ := FileTree.exists_parent?_of_write hwrite
    have hkeeps (names) (hdir : made.get? names = some .dir) : after.tree.get? names = some .dir :=
      FileTree.keepsDir_write hwrite hdir
    refine ⟨hread, ⟨parent, hparent, ?_⟩, hfiles,
      fun names hdir => hkeeps names (hgains.keepsDir hdir), ?_⟩
    · by_cases hbare : parent.text = ""
      · exact .inl hbare
      · exact .inr (FileTree.isDirectory_mono hkeeps (haround parent hparent hbare))
    · intro names hne hnew
      rw [(FileTree.get?_write hwrite).2, if_neg hne] at hnew ⊢
      exact (hgains names).resolve_left hnew
  · intro failure after h
    have hgains := gainsDirectories_of_perform_writeText h
    exact ⟨hgains.sameFiles, fun names hnew => (hgains names).resolve_left hnew⟩

/-- One path leaves a directory again and goes through a missing one to a new file. Another path
goes through a missing directory too, but then there is a file in its way. -/
theorem perform_writeText_footprint_dotted :
    let files := FileTree.empty.addDir [] "kept" rfl
    let files := files.putFile ["kept"] "flag" "old".toUTF8 (by decide +kernel) (by decide +kernel)
    let session : Session := { tree := files }
    (∃ after, session.perform (Action.writeText ⟨"kept/../gen//./flag"⟩ "new") = (.ok (), after) ∧
      after.tree.read ⟨"kept/../gen//./flag"⟩ = .ok "new".toUTF8 ∧
      (∀ content, after.tree.get? ["kept", "flag"] = some (.file content) ↔
        session.tree.get? ["kept", "flag"] = some (.file content)) ∧
      after.tree.get? ["kept"] = some .dir) ∧
    ∃ failure after,
      session.perform (Action.writeText ⟨"made/../kept/flag/deep"⟩ "new") = (.error failure, after) ∧
      after.tree.get? ["made"] = some .dir ∧ session.tree.SameFiles after.tree ∧
      ∃ outer : Path, outer.IsAncestor ⟨"made/../kept/flag/deep"⟩ ∧ outer.names = ["made"] := by
  intro files files session
  constructor
  · have hok : (session.perform (Action.writeText ⟨"kept/../gen//./flag"⟩ "new")).1.toBool = true := by
      decide +kernel
    obtain ⟨⟨⟩, after, hrun⟩ := exists_perform_eq_ok hok
    obtain ⟨hread, -, hfiles, hdirs, -⟩ := (perform_writeText_footprint _ _ _).1 after hrun
    exact ⟨after, hrun, hread, hfiles _ (by decide +kernel), hdirs _ (by decide +kernel)⟩
  · have hfails :
        (session.perform (Action.writeText ⟨"made/../kept/flag/deep"⟩ "new")).1.toBool = false := by
      decide +kernel
    have hmade : (session.perform
        (Action.writeText ⟨"made/../kept/flag/deep"⟩ "new")).2.tree.get? ["made"] = some .dir := by
      decide +kernel
    rcases hrun : session.perform (Action.writeText ⟨"made/../kept/flag/deep"⟩ "new") with
      ⟨result, after⟩
    rw [hrun] at hfails hmade
    cases result with
    | ok value => exact absurd hfails.symm Bool.false_ne_true
    | error failure =>
      obtain ⟨hfiles, hnew⟩ := (perform_writeText_footprint _ _ _).2.1 failure after hrun
      have hfree : session.tree.get? ["made"] ≠ some .dir := by decide +kernel
      have hchanged : after.tree.get? ["made"] ≠ session.tree.get? ["made"] := by
        rw [hmade]
        exact hfree.symm
      exact ⟨failure, after, rfl, hmade, hfiles, (hnew ["made"] hchanged).2.2⟩

end Session

end BitFont

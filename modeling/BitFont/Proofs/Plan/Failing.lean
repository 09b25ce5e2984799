import BitFont.Plan.Run
import BitFont.Proofs.Files.Frame
import BitFont.Proofs.Session.Generating

/-!
# Runs that fail

A run has three phases, and only the first and the last change the tree. So an entry that cannot be
generated ends the run with the tree that the clean phase left, wherever the entry stands. A clean
step that fails ends the run at once, and no file outside of the paths that were cleaned up to then
is touched.
-/

namespace BitFont.Plan

/-! ## Generating -/

/-- A stem of its own changes nothing about what an entry denies. -/
theorem Entry.denyProblems_settings (entry : Entry) (settings : Settings) :
    (entry.settings settings).denyProblems = settings.denyProblems := by
  unfold Entry.settings
  split <;> rfl

/-- One entry fails exactly if its source cannot be used, and leaves the tree as it is. -/
theorem perform_generate (session : Session) (entry : Entry) (settings : Settings) :
    ∃ result remarks, session.perform (entry.generate settings) =
      (result, { session.afterReading entry.source with remarks }) ∧
        ((∃ failure, result = .error failure) ↔
          Source.Unusable settings (session.content entry.source)) := by
  obtain ⟨result, remarks, hperform, hiff⟩ :=
    session.perform_readAndGenerate entry.source entry.artifact (entry.settings settings)
  have hdeny := entry.denyProblems_settings settings
  refine ⟨result, remarks, hperform, hiff.trans ⟨?_, ?_⟩⟩
  · exact Source.Unusable.of_denyProblems_eq hdeny
  · exact Source.Unusable.of_denyProblems_eq hdeny.symm

/-- A source that cannot be used is still there behind an entry that was generated. -/
theorem unusable_afterReading {session : Session} {settings : Settings} {entry other : Entry}
    (hentry : ¬ Source.Unusable settings (session.content entry.source))
    (hother : Source.Unusable settings (session.content other.source)) (remarks : Array Remark) :
    Source.Unusable settings
      (Session.content { session.afterReading entry.source with remarks } other.source) := by
  have hcontent : Session.content { session.afterReading entry.source with remarks } other.source =
      session.content other.source := by
    unfold Session.content Session.afterReading at *
    by_cases hinput : Source.isInput other.source = true
    · -- Only an entry that takes the standard input could use it up, and its source is the same.
      have hfile : ¬ Source.isInput entry.source = true := by
        intro htaken
        simp only [hinput, htaken, if_true] at hentry hother
        exact hentry hother
      simp only [hinput, hfile, if_true, Bool.false_eq_true, if_false]
    · simp only [hinput, Bool.false_eq_true, if_false]
      split <;> rfl
  rw [hcontent]
  exact hother

theorem perform_mapM_generate_of_unusable {settings : Settings} {entries : List Entry}
    {session : Session}
    (h : ∃ entry ∈ entries, Source.Unusable settings (session.content entry.source)) :
    ∃ failure after, session.perform (entries.mapM (Entry.generate · settings)) =
      (.error failure, after) ∧ after.tree = session.tree := by
  induction entries generalizing session with
  | nil => simp at h
  | cons entry rest ih =>
    obtain ⟨result, remarks, hperform, hiff⟩ := perform_generate session entry settings
    have htree : ({ session.afterReading entry.source with remarks } : Session).tree =
        session.tree := session.tree_afterReading entry.source
    rw [List.mapM_cons]
    cases result with
    | error failure => exact ⟨failure, _, Session.perform_bind_of_error hperform _, htree⟩
    | ok text =>
      have hentry : ¬ Source.Unusable settings (session.content entry.source) := by
        intro hunusable
        obtain ⟨failure, hfailure⟩ := hiff.mpr hunusable
        contradiction
      obtain ⟨other, hmem, hother⟩ := h
      have hrest : other ∈ rest := by
        rcases List.mem_cons.mp hmem with rfl | hrest
        · exact absurd hother hentry
        · exact hrest
      obtain ⟨failure, after, hafter, hkept⟩ :=
        ih ⟨other, hrest, unusable_afterReading hentry hother remarks⟩
      refine ⟨failure, after, ?_, hkept.trans htree⟩
      rw [Session.perform_bind_of_ok hperform]
      exact Session.perform_bind_of_error hafter _

/-! ## Cleaning -/

/-- One clean step touches no file outside of its path, whether it succeeds or not. -/
theorem sameFilesOutside_renew (session : Session) (path : Path) :
    session.tree.SameFilesOutside [path] (session.perform (renew path)).2.tree := by
  have hmake (before : Session) : before.tree.SameFiles
      (before.perform do
        Action.notify (.creating path.text)
        Action.makeDirectories path).2.tree := by
    rw [Session.perform_bind_of_ok (before.perform_notify _), Session.perform_makeDirectories]
    exact FileTree.sameFiles_makeDirectories before.tree path
  unfold renew
  rw [Session.perform_bind_of_ok (session.perform_isPresent path)]
  dsimp only
  split
  · rw [Session.perform_bind_of_ok (session.perform_notify _), Session.perform_bind,
      Session.perform_removeDirectory]
    have hremove := FileTree.sameFilesOutside_removeDirectory session.tree path
    cases (session.tree.removeDirectory path).1 with
    | error error => exact hremove
    | ok value => exact hremove.trans ((hmake _).outside [])
  · exact (hmake session).outside [path]

theorem sameFilesOutside_forM_renew (session : Session) (paths : List Path) :
    session.tree.SameFilesOutside paths (session.perform (paths.forM renew)).2.tree := by
  induction paths generalizing session with
  | nil => exact (FileTree.SameFiles.refl session.tree).outside []
  | cons path rest ih =>
    have hpath := sameFilesOutside_renew session path
    rw [Session.perform_forM_cons, Session.perform_bind]
    generalize session.perform (renew path) = performed at hpath
    obtain ⟨result, after⟩ := performed
    cases result with
    | error failure => exact hpath.trans ((FileTree.SameFiles.refl _).outside rest)
    | ok value => exact hpath.trans (ih after)

/-- A clean phase that fails ends with its first failing step. -/
theorem exists_failing_step {paths : List Path} {session after : Session} {failure : Failure}
    (h : session.perform (paths.forM renew) = (.error failure, after)) :
    ∃ done path rest before, paths = done ++ path :: rest ∧
      session.perform (done.forM renew) = (.ok (), before) ∧
      before.perform (renew path) = (.error failure, after) := by
  induction paths generalizing session with
  | nil =>
    rw [Session.perform_forM_nil] at h
    simp at h
  | cons path rest ih =>
    rw [Session.perform_forM_cons, Session.perform_bind] at h
    cases hpath : session.perform (renew path) with
    | mk result first =>
      rw [hpath] at h
      cases result with
      | error other => exact ⟨[], path, rest, session, rfl, rfl, hpath.trans h⟩
      | ok value =>
        obtain ⟨done, failing, later, before, hpaths, hdone, hfails⟩ := ih h
        refine ⟨path :: done, failing, later, before, ?_, ?_, hfails⟩
        · rw [hpaths, List.cons_append]
        · rw [Session.perform_forM_cons, Session.perform_bind_of_ok hpath]
          exact hdone

/-! ## Runs -/

theorem perform_run_of_renewAll {plan : Plan} {session cleaned : Session}
    (h : session.perform plan.renewAll = (.ok (), cleaned)) (settings : Settings) :
    session.perform (plan.run settings) =
      cleaned.perform (plan.generateAll settings >>= plan.writeAll) :=
  Session.perform_bind_of_ok h _

/-- A run whose entries cannot all be generated behind the clean phase fails and leaves the tree of
a run without entries, whichever entry it is. A run whose clean phase fails does nothing behind the
failing step, and outside of the paths up to that step no file has changed. -/
theorem run_of_failing (plan : Plan) (settings : Settings) (session : Session) :
    (∀ cleaned, session.perform plan.renewAll = (.ok (), cleaned) →
      (∃ entry ∈ plan.entries, Source.Unusable settings (cleaned.content entry.source)) →
        (∃ failure, (session.perform (plan.run settings)).1 = .error failure) ∧
          (session.perform (plan.run settings)).2.tree =
            (session.perform (run { plan with entries := [] } settings)).2.tree) ∧
      ∀ failure cleaned, session.perform plan.renewAll = (.error failure, cleaned) →
        session.perform (plan.run settings) = (.error failure, cleaned) ∧
          ∃ done path rest before, plan.clean = done ++ path :: rest ∧
            session.perform (done.forM renew) = (.ok (), before) ∧
            before.perform (renew path) = (.error failure, cleaned) ∧
            session.tree.SameFilesOutside (done ++ [path]) cleaned.tree := by
  constructor
  · intro cleaned hcleaned hunusable
    obtain ⟨failure, after, hafter, htree⟩ := perform_mapM_generate_of_unusable hunusable
    have hrun : session.perform (plan.run settings) = (.error failure, after) := by
      rw [perform_run_of_renewAll hcleaned]
      exact Session.perform_bind_of_error hafter _
    have hempty :
        session.perform (run { plan with entries := [] } settings) = (.ok (), cleaned) := by
      have hrenewed : session.perform (renewAll { plan with entries := [] }) = (.ok (), cleaned) :=
        hcleaned
      rw [perform_run_of_renewAll hrenewed]
      rfl
    rw [hrun, hempty]
    exact ⟨⟨failure, rfl⟩, htree⟩
  · intro failure cleaned hcleaned
    obtain ⟨done, path, rest, before, hpaths, hdone, hfails⟩ := exists_failing_step hcleaned
    refine ⟨Session.perform_bind_of_error hcleaned _, done, path, rest, before, hpaths, hdone,
      hfails, ?_⟩
    have hbefore := sameFilesOutside_forM_renew session done
    have hstep := sameFilesOutside_renew before path
    rw [hdone] at hbefore
    rw [hfails] at hstep
    exact hbefore.trans hstep

/-- An entry behind a good one whose source goes with a cleaned directory, and a clean step between
two others that finds a file. -/
theorem run_of_failing_cleaned_source :
    let files := FileTree.empty.addDir [] "out" rfl
    let files := files.putFile ["out"] "b" "ID b\n".toUTF8 (by decide +kernel) (by decide +kernel)
    let files := files.putFile [] "a" "ID a\n".toUTF8 (by decide +kernel) (by decide +kernel)
    let session : Session := { tree := files }
    let first : Entry := ⟨⟨"a"⟩, ⟨"out/a.h"⟩, .header, none⟩
    let second : Entry := ⟨⟨"out/b"⟩, ⟨"new/b.h"⟩, .header, some "B"⟩
    let plan : Plan := { clean := [⟨"out"⟩], entries := [first, second] }
    let broken : Plan := { clean := [⟨"out"⟩, ⟨"a"⟩, ⟨"c"⟩], entries := [first] }
    (∃ cleaned, session.perform plan.renewAll = (.ok (), cleaned) ∧
      Source.Unusable {} (cleaned.content second.source) ∧
        (session.perform (plan.run {})).2.tree =
          (session.perform (run { plan with entries := [] } {})).2.tree) ∧
      ∃ failure stopped, session.perform broken.renewAll = (.error failure, stopped) ∧
        session.perform (broken.run {}) = (.error failure, stopped) := by
  intro files files' files'' session first second plan broken
  have hok : (session.perform plan.renewAll).1.toBool = true := by decide +kernel
  have hgone : ((session.perform plan.renewAll).2.content second.source).toBool = false := by
    decide +kernel
  have hbroken : (session.perform broken.renewAll).1.toBool = false := by decide +kernel
  constructor
  · obtain ⟨hruns, -⟩ := run_of_failing plan {} session
    generalize hcleaned : session.perform plan.renewAll = performed at hok hgone
    obtain ⟨result, cleaned⟩ := performed
    cases result with
    | error failure => contradiction
    | ok value =>
      have hunusable : Source.Unusable {} (cleaned.content second.source) := by
        dsimp only at hgone
        cases hcontent : cleaned.content second.source with
        | error error => exact .unreadable error
        | ok bytes =>
          rw [hcontent] at hgone
          contradiction
      obtain ⟨-, htree⟩ := hruns cleaned hcleaned ⟨second, by simp [plan], hunusable⟩
      exact ⟨cleaned, rfl, hunusable, htree⟩
  · obtain ⟨-, hstops⟩ := run_of_failing broken {} session
    generalize hfailed : session.perform broken.renewAll = performed at hbroken
    obtain ⟨result, stopped⟩ := performed
    cases result with
    | error failure => exact ⟨failure, stopped, rfl, (hstops failure stopped hfailed).1⟩
    | ok value => contradiction

end BitFont.Plan

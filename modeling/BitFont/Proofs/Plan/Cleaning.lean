import BitFont.Plan.Run
import BitFont.Proofs.Files.Outcomes
import BitFont.Proofs.Session.Performing

/-!
# What cleaning does

A directory can be renewed unless a file is at its names or on the way there
(`perform_renew_of_free`, `perform_renew_of_not_free`). Renewing acts on every list of names for
itself (`renewedAt`), and so does the whole clean phase (`renewedBy`): what has to do with one of the
paths comes out the same whatever lay there, and the rest stays (`renewedBy_eq_or`).
-/

namespace BitFont.Plan

/-- What lies at some names once a directory is renewed, by what lay there before. -/
def renewedAt (query : List String) (found : Option Node) (path : Path) : Option Node :=
  if query <+: path.names then some .dir
  else if path.names <+: query then none
  else found

/-- What lies at some names once directories are renewed in order, by what lay there before. -/
def renewedBy (paths : List Path) (query : List String) (found : Option Node) : Option Node :=
  paths.foldl (renewedAt query) found

/-! ## One directory -/

theorem perform_create_of_free (session : Session) {path : Path} (hordinary : path.IsOrdinary)
    (hnul : path.hasNul = false)
    (hfree : ¬ session.tree.IsBlocked path.names) (notice : Notice) :
    ∃ after, (session.perform do
        Action.notify notice
        Action.makeDirectories path) = (.ok (), after) ∧
      ∀ query, after.tree.get? query =
        if query <+: path.names then some .dir else session.tree.get? query := by
  obtain ⟨made, hmade, hview⟩ := FileTree.makeDirectories_of_not_isBlocked hordinary hnul hfree
  refine ⟨{ session with remarks := session.remarks.push (.notice notice), tree := made }, ?_, hview⟩
  rw [Session.perform_bind_of_ok (session.perform_notify notice), Session.perform_makeDirectories,
    hmade]
  rfl

variable {session : Session} {path : Path}

/-- A directory that is there is removed and made again. -/
theorem perform_renew_of_dir (hordinary : path.IsOrdinary) (hnul : path.hasNul = false)
    (hdir : session.tree.get? path.names = some .dir) :
    ∃ after, session.perform (renew path) = (.ok (), after) ∧
      ∀ query, after.tree.get? query = renewedAt query (session.tree.get? query) path := by
  have hpresent : session.tree.isPresent path = true :=
    (FileTree.isPresent_iff hordinary).mpr ⟨hnul, Option.isSome_of_eq_some hdir⟩
  obtain ⟨emptied, hremoved, hview⟩ := FileTree.removeDirectory_of_dir hordinary hnul hdir
  -- Removing puts no file in the way.
  have hfree : ¬ emptied.IsBlocked path.names := by
    rintro ⟨query, content, hquery, hfile⟩
    rw [hview] at hfile
    split at hfile
    · contradiction
    · exact FileTree.not_isBlocked_of_dir hdir ⟨query, content, hquery, hfile⟩
  unfold renew
  rw [Session.perform_bind_of_ok (session.perform_isPresent path)]
  dsimp only
  rw [if_pos hpresent, Session.perform_bind_of_ok (session.perform_notify _),
    Session.perform_bind, Session.perform_removeDirectory]
  dsimp only
  rw [hremoved]
  dsimp only [Except.mapError]
  obtain ⟨after, hafter, hmade⟩ := perform_create_of_free
    { session with remarks := session.remarks.push _, tree := emptied } hordinary hnul hfree
    (.creating path.text)
  refine ⟨after, hafter, ?_⟩
  intro query
  rw [hmade, hview, renewedAt]

/-- A directory that is missing is only made: there was nothing below its names. -/
theorem perform_renew_of_missing (hordinary : path.IsOrdinary) (hnul : path.hasNul = false)
    (hfree : ¬ session.tree.IsBlocked path.names) (hnone : session.tree.get? path.names = none) :
    ∃ after, session.perform (renew path) = (.ok (), after) ∧
      ∀ query, after.tree.get? query = renewedAt query (session.tree.get? query) path := by
  have habsent : ¬ session.tree.isPresent path = true := by
    rw [FileTree.isPresent_iff hordinary, hnone]
    simp
  unfold renew
  rw [Session.perform_bind_of_ok (session.perform_isPresent path)]
  dsimp only
  rw [if_neg habsent]
  obtain ⟨after, hafter, hmade⟩ :=
    perform_create_of_free session hordinary hnul hfree (.creating path.text)
  refine ⟨after, hafter, ?_⟩
  intro query
  rw [hmade, renewedAt]
  split
  · rfl
  · split
    · rename_i hbelow
      exact FileTree.get?_eq_none_below hnone hbelow
    · rfl

theorem perform_renew_of_free (hordinary : path.IsOrdinary) (hnul : path.hasNul = false)
    (hfree : ¬ session.tree.IsBlocked path.names) :
    ∃ after, session.perform (renew path) = (.ok (), after) ∧
      ∀ query, after.tree.get? query = renewedAt query (session.tree.get? query) path := by
  by_cases hdir : session.tree.get? path.names = some .dir
  · exact perform_renew_of_dir hordinary hnul hdir
  · exact perform_renew_of_missing hordinary hnul hfree
      (FileTree.get?_eq_none_of_not_dir hfree hdir)

/-- A file at the names of the path cannot be removed like a directory, and one on the way lets no
directory be made. -/
theorem perform_renew_of_not_free (hordinary : path.IsOrdinary)
    (h : ¬ (path.hasNul = false ∧ ¬ session.tree.IsBlocked path.names)) :
    ∃ failure after, session.perform (renew path) = (.error failure, after) ∧
      after.tree = session.tree := by
  unfold renew
  rw [Session.perform_bind_of_ok (session.perform_isPresent path)]
  dsimp only
  by_cases hpresent : session.tree.isPresent path = true
  · have hdir : ¬ (path.hasNul = false ∧ session.tree.get? path.names = some .dir) :=
      fun hboth => h ⟨hboth.1, FileTree.not_isBlocked_of_dir hboth.2⟩
    obtain ⟨error, hremoved⟩ := FileTree.removeDirectory_of_not_dir hordinary hdir
    rw [if_pos hpresent, Session.perform_bind_of_ok (session.perform_notify _),
      Session.perform_bind, Session.perform_removeDirectory]
    dsimp only
    rw [hremoved]
    exact ⟨_, _, rfl, rfl⟩
  · obtain ⟨error, hmade⟩ := FileTree.makeDirectories_of_error hordinary h
    rw [if_neg hpresent, Session.perform_bind_of_ok (session.perform_notify _),
      Session.perform_makeDirectories]
    dsimp only
    rw [hmade]
    exact ⟨_, _, rfl, rfl⟩

/-- A step that succeeds found nothing in its way. -/
theorem of_perform_renew {after : Session} (hordinary : path.IsOrdinary)
    (h : session.perform (renew path) = (.ok (), after)) :
    path.hasNul = false ∧ ¬ session.tree.IsBlocked path.names ∧
      ∀ query, after.tree.get? query = renewedAt query (session.tree.get? query) path := by
  by_cases hfree : path.hasNul = false ∧ ¬ session.tree.IsBlocked path.names
  · obtain ⟨renewed, hrenewed, hview⟩ := perform_renew_of_free hordinary hfree.1 hfree.2
    obtain ⟨-, rfl⟩ := Prod.mk.inj (hrenewed.symm.trans h)
    exact ⟨hfree.1, hfree.2, hview⟩
  · obtain ⟨failure, stopped, hstopped, -⟩ := perform_renew_of_not_free hordinary hfree
    rw [hstopped] at h
    simp at h

/-! ## All directories -/

theorem renewedAt_ne_file {query : List String} {found : Option Node}
    (h : ∀ content, found ≠ some (.file content)) (path : Path) :
    ∀ content, renewedAt query found path ≠ some (.file content) := by
  intro content
  unfold renewedAt
  split
  · simp
  · split
    · simp
    · exact h content

theorem renewedBy_ne_file {query : List String} {found : Option Node}
    (h : ∀ content, found ≠ some (.file content)) (paths : List Path) :
    ∀ content, renewedBy paths query found ≠ some (.file content) := by
  induction paths generalizing found with
  | nil => exact h
  | cons path rest ih => exact ih (renewedAt_ne_file h path)

/-- What a clean phase leaves at some names is the same for all that could lie there, or it is just
what lay there. -/
theorem renewedBy_eq_or (paths : List Path) (query : List String) (found other : Option Node) :
    renewedBy paths query other = renewedBy paths query found ∨
      renewedBy paths query other = other := by
  induction paths generalizing found other with
  | nil => exact .inr rfl
  | cons path rest ih =>
    rw [renewedBy, renewedBy, List.foldl_cons, List.foldl_cons]
    by_cases htouched : query <+: path.names ∨ path.names <+: query
    · have hsame : renewedAt query other path = renewedAt query found path := by
        unfold renewedAt
        by_cases hleads : query <+: path.names
        · rw [if_pos hleads, if_pos hleads]
        · have hbelow := htouched.resolve_left hleads
          rw [if_neg hleads, if_neg hleads, if_pos hbelow, if_pos hbelow]
      rw [hsame]
      exact .inl rfl
    · rw [not_or] at htouched
      have hkept : renewedAt query other path = other := by
        rw [renewedAt, if_neg htouched.1, if_neg htouched.2]
      rw [hkept]
      exact ih (renewedAt query found path) other

/-- A clean phase succeeds if nothing is in the way of its paths: no step puts a file anywhere. -/
theorem perform_forM_renew_of_free {paths : List Path} (hordinary : ∀ path ∈ paths, path.IsOrdinary)
    (hnul : ∀ path ∈ paths, path.hasNul = false)
    (hfree : ∀ path ∈ paths, ¬ session.tree.IsBlocked path.names) :
    ∃ after, session.perform (paths.forM renew) = (.ok (), after) ∧
      ∀ query, after.tree.get? query = renewedBy paths query (session.tree.get? query) := by
  induction paths generalizing session with
  | nil => exact ⟨session, rfl, fun _ => rfl⟩
  | cons path rest ih =>
    obtain ⟨hpath, hordinary⟩ := List.forall_mem_cons.mp hordinary
    obtain ⟨hpathNul, hnul⟩ := List.forall_mem_cons.mp hnul
    obtain ⟨hpathFree, hfree⟩ := List.forall_mem_cons.mp hfree
    obtain ⟨renewed, hrenewed, hview⟩ := perform_renew_of_free hpath hpathNul hpathFree
    have hrest : ∀ other ∈ rest, ¬ renewed.tree.IsBlocked other.names := by
      rintro other hother ⟨query, content, hquery, hfile⟩
      rw [hview] at hfile
      refine renewedAt_ne_file ?_ path content hfile
      exact fun content hold => hfree other hother ⟨query, content, hquery, hold⟩
    obtain ⟨after, hafter, hviews⟩ := ih hordinary hnul hrest
    refine ⟨after, ?_, ?_⟩
    · rw [Session.perform_forM_cons, Session.perform_bind_of_ok hrenewed]
      exact hafter
    · intro query
      rw [hviews, hview]
      rfl

/-- A clean phase that succeeds leaves nothing in the way of its paths. -/
theorem of_perform_forM_renew {paths : List Path} {after : Session}
    (hordinary : ∀ path ∈ paths, path.IsOrdinary)
    (h : session.perform (paths.forM renew) = (.ok (), after)) :
    (∀ path ∈ paths, path.hasNul = false ∧ ¬ after.tree.IsBlocked path.names) ∧
      ∀ query, after.tree.get? query = renewedBy paths query (session.tree.get? query) := by
  induction paths generalizing session with
  | nil =>
    obtain ⟨-, rfl⟩ := Prod.mk.inj h
    exact ⟨by simp, fun _ => rfl⟩
  | cons path rest ih =>
    obtain ⟨hpath, hrest⟩ := List.forall_mem_cons.mp hordinary
    rw [Session.perform_forM_cons, Session.perform_bind] at h
    split at h
    · rename_i value renewed hrenewed
      obtain ⟨hnul, -, hview⟩ := of_perform_renew hpath hrenewed
      obtain ⟨hothers, hviews⟩ := ih hrest h
      have hall (query : List String) :
          after.tree.get? query = renewedBy (path :: rest) query (session.tree.get? query) := by
        rw [hviews, hview]
        rfl
      refine ⟨?_, hall⟩
      rw [List.forall_mem_cons]
      refine ⟨⟨hnul, ?_⟩, hothers⟩
      -- On the way to the renewed directory there are directories, which no later step makes files.
      rintro ⟨query, content, hquery, hfile⟩
      rw [hviews, hview, renewedAt, if_pos hquery] at hfile
      exact renewedBy_ne_file (by simp) rest content hfile
    · simp at h

end BitFont.Plan

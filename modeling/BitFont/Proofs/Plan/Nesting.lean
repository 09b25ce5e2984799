import BitFont.Proofs.Plan.Cleaning

/-!
# Cleaned directories in one another

The directories of a clean phase are renewed one after the other, and renewing one takes away all
that lies in it. So a directory is still there at the end unless the list comes back to a directory
around it and does not return (`IsRestored`). Where they stand, the cleaned directories are clean:
besides each other and the ways to each other they hold nothing (`of_perform_renewAll`).
-/

namespace BitFont.Plan

/-- Every path of the list that lies strictly around some names is followed by one at these names
or below. -/
def IsRestored (paths : List Path) (names : List String) : Prop :=
  ∀ (around : Path) (later : List Path), around :: later <:+ paths →
    around.names <+: names → around.names ≠ names → ∃ path ∈ later, names <+: path.names

theorem isRestored_nil (names : List String) : IsRestored [] names := by
  intro around later hsuffix
  exact absurd (List.suffix_nil.mp hsuffix) (List.cons_ne_nil _ _)

theorem isRestored_cons {path : Path} {rest : List Path} {names : List String} :
    IsRestored (path :: rest) names ↔
      (path.names <+: names → path.names ≠ names → ∃ later ∈ rest, names <+: later.names) ∧
        IsRestored rest names := by
  simp only [IsRestored, List.suffix_cons_iff, List.cons.injEq]
  constructor
  · intro h
    exact ⟨h path rest (.inl ⟨rfl, rfl⟩), fun around later hsuffix => h around later (.inr hsuffix)⟩
  · rintro ⟨hpath, hrest⟩ around later (⟨rfl, rfl⟩ | hsuffix)
    · exact hpath
    · exact hrest around later hsuffix

instance decidableIsRestored : (paths : List Path) → (names : List String) →
    Decidable (IsRestored paths names)
  | [], names => isTrue (isRestored_nil names)
  | _ :: rest, names =>
    have := decidableIsRestored rest names
    decidable_of_iff' _ isRestored_cons

/-- A directory that is there in the end was never lost for good, and was there before or is on the
way to a cleaned one. -/
theorem renewedBy_eq_dir_iff {paths : List Path} {query : List String} {found : Option Node} :
    renewedBy paths query found = some .dir ↔
      IsRestored paths query ∧
        (found = some .dir ∨ ∃ path ∈ paths, query <+: path.names) := by
  induction paths generalizing found with
  | nil => simp [renewedBy, isRestored_nil]
  | cons path rest ih =>
    have hfoldl : renewedBy (path :: rest) query found =
        renewedBy rest query (renewedAt query found path) := rfl
    rw [hfoldl, ih, isRestored_cons, List.exists_mem_cons_iff]
    by_cases hleads : query <+: path.names
    · -- The step makes the directory, and cannot lie strictly around it.
      have hnot : path.names <+: query → path.names = query :=
        fun h => h.eq_of_length_le hleads.length_le
      have hstep : renewedAt query found path = some .dir := if_pos hleads
      simp only [hstep, true_or, and_true, hleads, or_true]
      exact ⟨fun h => ⟨fun haround hne => absurd (hnot haround) hne, h⟩, And.right⟩
    · by_cases haround : path.names <+: query
      · -- The step takes it away, so a later one has to make it again.
        have hne : path.names ≠ query := fun h => hleads (h ▸ List.prefix_rfl)
        have hstep : renewedAt query found path = none := by
          rw [renewedAt, if_neg hleads, if_pos haround]
        simp only [hstep, reduceCtorEq, false_or, haround, hne, ne_eq, not_false_eq_true,
          true_imp_iff, hleads]
        constructor
        · rintro ⟨hrest, hlater⟩
          exact ⟨⟨hlater, hrest⟩, .inr hlater⟩
        · rintro ⟨⟨hlater, hrest⟩, -⟩
          exact ⟨hrest, hlater⟩
      · have hstep : renewedAt query found path = found := by
          rw [renewedAt, if_neg hleads, if_neg haround]
        simp only [hstep, hleads, haround, false_or, false_imp_iff, true_and]

/-- What is left lies on the way to a cleaned directory, or has nothing to do with one. -/
theorem renewedBy_cases {paths : List Path} {query : List String} {found : Option Node} {node : Node}
    (h : renewedBy paths query found = some node) :
    (node = .dir ∧ ∃ path ∈ paths, query <+: path.names) ∨
      (found = some node ∧ ∀ path ∈ paths, ¬ path.names <+: query) := by
  induction paths generalizing found with
  | nil => exact .inr ⟨h, by simp⟩
  | cons path rest ih =>
    rcases ih h with ⟨hdir, other, hother, hleads⟩ | ⟨hstep, hrest⟩
    · exact .inl ⟨hdir, other, List.mem_cons_of_mem path hother, hleads⟩
    · unfold renewedAt at hstep
      split at hstep
      · rename_i hleads
        exact .inl ⟨(Option.some.inj hstep).symm, path, List.mem_cons_self, hleads⟩
      · split at hstep
        · contradiction
        · rename_i hnot
          exact .inr ⟨hstep, List.forall_mem_cons.mpr ⟨hnot, hrest⟩⟩

/-- A clean phase that succeeds leaves a listed directory exactly if the list returns to it, or to
something in it, behind every directory around it. In the listed directories there is nothing but
directories that are listed or lead to listed ones. -/
theorem of_perform_renewAll {plan : Plan} (hordinary : ∀ path ∈ plan.clean, path.IsOrdinary)
    {session cleaned : Session} (h : session.perform plan.renewAll = (.ok (), cleaned)) :
    ∀ path ∈ plan.clean,
      (cleaned.tree.get? path.names = some .dir ↔ IsRestored plan.clean path.names) ∧
        ∀ (query : List String) (node : Node), path.names <+: query →
          cleaned.tree.get? query = some node →
            node = .dir ∧ ∃ other ∈ plan.clean, query <+: other.names := by
  intro path hpath
  obtain ⟨-, hview⟩ := of_perform_forM_renew hordinary h
  constructor
  · rw [hview, renewedBy_eq_dir_iff]
    exact and_iff_left (.inr ⟨path, hpath, List.prefix_rfl⟩)
  · intro query node hbelow hnode
    rw [hview] at hnode
    exact (renewedBy_cases hnode).resolve_right fun hkept => hkept.2 path hpath hbelow

/-- The list comes back to the directory around and then to one below. Before, there is a file. -/
theorem of_perform_renewAll_returning :
    let files := FileTree.empty.addDir [] "built" rfl
    let files := files.addDir ["built"] "deep" (by decide +kernel)
    let files := files.putFile ["built", "deep"] "old" "x".toUTF8 (by decide +kernel)
      (by decide +kernel)
    let session : Session := { tree := files }
    let plan : Plan := { clean := [⟨"built/deep"⟩, ⟨"built"⟩, ⟨"built/deep/er"⟩], entries := [] }
    ∃ cleaned, session.perform plan.renewAll = (.ok (), cleaned) ∧
      cleaned.tree.get? ["built", "deep"] = some .dir ∧
        ∀ (query : List String) (node : Node), ["built", "deep"] <+: query →
          cleaned.tree.get? query = some node →
            node = .dir ∧ ∃ other ∈ plan.clean, query <+: other.names := by
  intro files files files session plan
  have hordinary : ∀ path ∈ plan.clean, path.IsOrdinary := by decide +kernel
  have hok : (session.perform plan.renewAll).1.toBool = true := by decide +kernel
  have hnames : Path.names ⟨"built/deep"⟩ = ["built", "deep"] := by decide +kernel
  obtain ⟨⟨⟩, cleaned, hrun⟩ := Session.exists_perform_eq_ok hok
  obtain ⟨hdir, hcontent⟩ :=
    of_perform_renewAll hordinary hrun ⟨"built/deep"⟩ (List.mem_cons_self ..)
  rw [hnames] at hdir hcontent
  exact ⟨cleaned, hrun, hdir.mpr (by decide +kernel), hcontent⟩

/-- A directory that is listed before the one around it is gone in the end. -/
theorem not_dir_of_listed_before_around :
    ¬ ∀ (plan : Plan) (session cleaned : Session), (∀ path ∈ plan.clean, path.IsOrdinary) →
      session.perform plan.renewAll = (.ok (), cleaned) → ∀ path ∈ plan.clean,
        cleaned.tree.get? path.names = some .dir ∧
          ∀ (query : List String) (node : Node), path.names <+: query →
            cleaned.tree.get? query = some node →
              node = .dir ∧ ∃ other ∈ plan.clean, query <+: other.names := by
  intro hall
  let plan : Plan := { clean := [⟨"a/b"⟩, ⟨"a"⟩], entries := [] }
  let session : Session := {}
  have hordinary : ∀ path ∈ plan.clean, path.IsOrdinary := by decide +kernel
  have hok : (session.perform plan.renewAll).1.toBool = true := by decide +kernel
  obtain ⟨⟨⟩, cleaned, hrun⟩ := Session.exists_perform_eq_ok hok
  obtain ⟨hdir, -⟩ := hall plan session cleaned hordinary hrun ⟨"a/b"⟩ (List.mem_cons_self ..)
  obtain ⟨-, hview⟩ := of_perform_forM_renew hordinary hrun
  rw [hview, renewedBy_eq_dir_iff] at hdir
  exact absurd hdir.1 (by decide +kernel)

end BitFont.Plan

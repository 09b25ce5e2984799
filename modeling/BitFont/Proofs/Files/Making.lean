import BitFont.Proofs.Files.Ordinary

/-!
# What making and writing achieve

Where a directory is made, there are directories at all names that lead to it, and nothing else
changes (`get?_makeDirectories`). A file is written where no directory is, and nothing else changes
(`get?_write`). When the directory around a file is made before it is written, the tree has the file
and the directories that lead to it besides what it had (`HasWritten`).
-/

namespace BitFont.FileTree

variable {tree other : FileTree} {path : Path}

/-! ## What lies at a path -/

/-- A directory lies in directories only. -/
theorem get?_eq_dir_of_isPrefix {names query : List String} (h : tree.get? names = some .dir)
    (hleads : query <+: names) : tree.get? query = some .dir := by
  obtain ⟨rest, rfl⟩ := hleads
  induction rest using List.reverseRecOn with
  | nil => rwa [List.append_nil] at h
  | append_singleton rest name ih =>
    rw [← List.append_assoc] at h
    have hpresent : (tree.get? (query ++ rest ++ [name])).isSome := by
      rw [h]
      rfl
    exact ih (tree.get?_parent hpresent)

/-- What lies somewhere is a file, a directory or nothing. -/
theorem get?_congr {names query : List String}
    (hfile : ∀ content, other.get? query = some (.file content) ↔
      tree.get? names = some (.file content))
    (hdir : other.get? query = some .dir ↔ tree.get? names = some .dir) :
    other.get? query = tree.get? names := by
  cases hfound : tree.get? names with
  | some node =>
    cases node with
    | dir => exact hdir.mpr hfound
    | file content => exact (hfile content).mpr hfound
  | none =>
    rw [hfound] at hfile hdir
    cases hother : other.get? query with
    | none => rfl
    | some node =>
      rw [hother] at hfile hdir
      cases node with
      | dir => simp at hdir
      | file content => simpa using hfile content

theorem get?_of_find {node : Node} (h : tree.find path = .ok node) :
    tree.get? path.names = some node := by
  unfold find at h
  split at h
  · contradiction
  · rename_i dir last hlocate
    obtain rfl := Except.ok.inj h
    rw [← names_of_locate hlocate]
    exact dir.2
  · rename_i parent name hlocate
    rw [← names_of_locate hlocate, Place.names]
    split at h
    · contradiction
    · rename_i hdir
      obtain rfl := Except.ok.inj h
      exact hdir
    · rename_i content hfile
      split at h
      · contradiction
      · obtain rfl := Except.ok.inj h
        exact hfile

theorem find_of_isDirectory (h : tree.isDirectory path = true) : tree.find path = .ok .dir := by
  unfold isDirectory at h
  split at h
  · assumption
  · contradiction

theorem isDirectory_of_locate {place : tree.Place} (h : tree.locate path = .ok place)
    (hdir : tree.get? path.names = some .dir) : tree.isDirectory path = true := by
  have hplace := names_of_locate h
  rw [isDirectory, find, h]
  cases place with
  | directory dir last => rfl
  | named parent name =>
    have hnames : parent.1 ++ [name] = path.names := hplace
    dsimp only
    rw [hnames, hdir]

theorem get?_of_read {content : ByteArray} (h : tree.read path = .ok content) :
    tree.get? path.names = some (.file content) := by
  unfold read at h
  split at h
  · contradiction
  · contradiction
  · rename_i found hfind
    obtain rfl := Except.ok.inj h
    exact get?_of_find hfind

/-! ## Directories -/

theorem get?_makeDirectory (h : tree.makeDirectory path = .ok other) (query : List String) :
    other.get? query = if query <+: path.names then some .dir else tree.get? query := by
  unfold makeDirectory at h
  split at h
  · contradiction
  · contradiction
  · rename_i parent name hlocate
    have hnames : parent.1 ++ [name] = path.names := names_of_locate hlocate
    split at h
    · contradiction
    · obtain rfl := Except.ok.inj h
      rw [get?_addDir, ← hnames]
      by_cases hsame : query = parent.1 ++ [name]
      · rw [if_pos hsame, if_pos (hsame ▸ List.prefix_rfl)]
      · -- Above the new directory there were directories before.
        rw [if_neg hsame]
        split
        · rename_i hleads
          have habove := (List.prefix_concat_iff.mp hleads).resolve_left hsame
          exact get?_eq_dir_of_isPrefix parent.2 habove
        · rfl

theorem get?_ensureDirectory (h : tree.ensureDirectory path = .ok other) (query : List String) :
    other.get? query = if query <+: path.names then some .dir else tree.get? query := by
  unfold ensureDirectory at h
  split at h
  · rename_i made hmade
    obtain rfl := Except.ok.inj h
    exact get?_makeDirectory hmade query
  · split at h
    · rename_i hdirectory
      obtain rfl := Except.ok.inj h
      split
      · rename_i hleads
        exact get?_eq_dir_of_isPrefix (get?_of_find (find_of_isDirectory hdirectory)) hleads
      · rfl
    · contradiction

/-- The innermost directory is there at the first try, or it is made in the tree that has the ones
around it. -/
theorem ensureDirectory_of_makeNested {around : List Path}
    (h : tree.makeNested (path :: around) = (.ok (), other)) :
    tree.ensureDirectory path = .ok other ∨
      ∃ after, tree.makeNested around = (.ok (), after) ∧ after.ensureDirectory path = .ok other := by
  rw [makeNested.eq_def] at h
  dsimp only at h
  split at h
  · rename_i made hmade
    obtain ⟨-, rfl⟩ := Prod.mk.inj h
    exact .inl hmade
  · split at h
    · simp at h
    · rename_i after hafter
      split at h
      · rename_i made hmade
        obtain ⟨-, rfl⟩ := Prod.mk.inj h
        exact .inr ⟨after, hafter, hmade⟩
      · simp at h
  · simp at h

/-- Directories that lie in one another, the innermost first. -/
theorem get?_makeNested {around : List Path}
    (hchain : List.IsChain (fun inner outer : Path => outer.names <+: inner.names)
      (path :: around))
    (h : tree.makeNested (path :: around) = (.ok (), other)) (query : List String) :
    other.get? query = if query <+: path.names then some .dir else tree.get? query := by
  induction around generalizing path other with
  | nil =>
    rcases ensureDirectory_of_makeNested h with hmade | ⟨after, hafter, hmade⟩
    · exact get?_ensureDirectory hmade query
    · obtain rfl : tree = after := (Prod.mk.inj hafter).2
      exact get?_ensureDirectory hmade query
  | cons outer around ih =>
    obtain ⟨houter, hrest⟩ := List.isChain_cons_cons.mp hchain
    rcases ensureDirectory_of_makeNested h with hmade | ⟨after, hafter, hmade⟩
    · exact get?_ensureDirectory hmade query
    · rw [get?_ensureDirectory hmade, ih hrest hafter]
      -- What leads to the outer directory leads to the inner one.
      by_cases hquery : query <+: path.names
      · rw [if_pos hquery, if_pos hquery]
      · rw [if_neg hquery, if_neg hquery, if_neg fun hshort => hquery (hshort.trans houter)]

theorem get?_makeDirectories (hordinary : path.IsOrdinary)
    (h : tree.makeDirectories path = (.ok (), other)) (query : List String) :
    other.get? query = if query <+: path.names then some .dir else tree.get? query := by
  rw [makeDirectories, if_neg hordinary.text_ne_empty] at h
  exact get?_makeNested (hordinary.isChain_parentsUpTo _) h query

/-! ## Files -/

theorem get?_write {content : ByteArray} (h : tree.write path content = .ok other) :
    tree.get? path.names ≠ some .dir ∧
      ∀ query, other.get? query =
        if query = path.names then some (.file content) else tree.get? query := by
  unfold write at h
  split at h
  · contradiction
  · contradiction
  · rename_i parent name hlocate
    have hnames : parent.1 ++ [name] = path.names := names_of_locate hlocate
    split at h
    · contradiction
    · split at h
      · contradiction
      · rename_i hfree
        obtain rfl := Except.ok.inj h
        rw [← hnames]
        exact ⟨hfree, fun query => get?_putFile ..⟩

/-- A walk leads to the same names in a tree that has all the directories. -/
theorem walk_mono (hdirs : ∀ names, tree.get? names = some .dir → other.get? names = some .dir)
    {here dir : tree.Dir} {steps : List Step} (h : tree.walk here steps = .ok dir) :
    other.walk ⟨here.1, hdirs _ here.2⟩ steps = .ok ⟨dir.1, hdirs _ dir.2⟩ := by
  induction steps generalizing here with
  | nil =>
    rw [walk] at h ⊢
    obtain rfl := Except.ok.inj h
    rfl
  | cons step rest ih =>
    cases step with
    | stay =>
      rw [walk] at h ⊢
      exact ih h
    | up =>
      rw [walk] at h ⊢
      exact ih h
    | into name =>
      rw [walk] at h ⊢
      split at h
      · contradiction
      · contradiction
      · rename_i hdir
        have hother := hdirs _ hdir
        split
        · rename_i hnone
          rw [hother] at hnone
          contradiction
        · rename_i content hfile
          rw [hother] at hfile
          simp at hfile
        · exact ih h

/-- The same place in a tree that has all the directories. -/
def Place.transfer (hdirs : ∀ names, tree.get? names = some .dir → other.get? names = some .dir) :
    tree.Place → other.Place
  | .directory dir last => .directory ⟨dir.1, hdirs _ dir.2⟩ last
  | .named parent name => .named ⟨parent.1, hdirs _ parent.2⟩ name

theorem locate_mono (hdirs : ∀ names, tree.get? names = some .dir → other.get? names = some .dir)
    {place : tree.Place} (h : tree.locate path = .ok place) :
    other.locate path = .ok (place.transfer hdirs) := by
  unfold locate at h ⊢
  split at h
  · contradiction
  · rename_i htext
    rw [if_neg htext]
    split at h
    · contradiction
    · rename_i hnul
      rw [if_neg hnul]
      split at h
      · rename_i last hlast
        cases hwalk : tree.walk ⟨[], rfl⟩ path.steps.dropLast with
        | error error =>
          rw [hwalk] at h
          contradiction
        | ok dir =>
          rw [hwalk] at h
          obtain rfl := Except.ok.inj h
          have hother := walk_mono hdirs hwalk
          dsimp only at hother
          rw [hother]
          rfl
      · cases hwalk : tree.walk ⟨[], rfl⟩ path.steps with
        | error error =>
          rw [hwalk] at h
          contradiction
        | ok dir =>
          rw [hwalk] at h
          obtain rfl := Except.ok.inj h
          have hother := walk_mono hdirs hwalk
          dsimp only at hother
          rw [hother]
          rfl

theorem isDirectory_mono (hdirs : ∀ names, tree.get? names = some .dir → other.get? names = some .dir)
    (h : tree.isDirectory path = true) : other.isDirectory path = true := by
  have hfind := find_of_isDirectory h
  cases hlocate : tree.locate path with
  | error error =>
    rw [find, hlocate] at hfind
    contradiction
  | ok place =>
    exact isDirectory_of_locate (locate_mono hdirs hlocate) (hdirs _ (get?_of_find hfind))

/-- What was made is a directory at the same path, whatever dots there are in it. -/
theorem isDirectory_of_ensureDirectory (h : tree.ensureDirectory path = .ok other) :
    other.isDirectory path = true := by
  have hmade := get?_ensureDirectory h
  unfold ensureDirectory at h
  split at h
  · rename_i made hmake
    obtain rfl := Except.ok.inj h
    have hdirs (names) (hdir : tree.get? names = some .dir) : made.get? names = some .dir := by
      rw [hmade, hdir, ite_self]
    cases hlocate : tree.locate path with
    | error error =>
      rw [makeDirectory, hlocate] at hmake
      contradiction
    | ok place =>
      refine isDirectory_of_locate (locate_mono hdirs hlocate) ?_
      rw [hmade, if_pos List.prefix_rfl]
  · split at h
    · rename_i hdirectory
      obtain rfl := Except.ok.inj h
      exact hdirectory
    · contradiction

theorem isDirectory_of_makeDirectories (h : tree.makeDirectories path = (.ok (), other))
    (hnamed : path.text ≠ "") : other.isDirectory path = true := by
  rw [makeDirectories, if_neg hnamed] at h
  rcases ensureDirectory_of_makeNested h with hmade | ⟨after, -, hmade⟩
  · exact isDirectory_of_ensureDirectory hmade
  · exact isDirectory_of_ensureDirectory hmade

theorem keepsDir_write {content : ByteArray} (h : tree.write path content = .ok other)
    {names : List String} (hdir : tree.get? names = some .dir) : other.get? names = some .dir := by
  obtain ⟨hfree, hview⟩ := get?_write h
  have hne : names ≠ path.names := by
    rintro rfl
    exact hfree hdir
  rw [hview, if_neg hne, hdir]

/-- What was written is read at the same path, whatever dots there are in it. -/
theorem read_of_write {content : ByteArray} (h : tree.write path content = .ok other) :
    other.read path = .ok content := by
  have hdirs (names) (hdir : tree.get? names = some .dir) := keepsDir_write h hdir
  have hwritten := (get?_write h).2 path.names
  rw [if_pos rfl] at hwritten
  unfold write at h
  split at h
  · contradiction
  · contradiction
  · rename_i parent name hlocate
    have hnames : parent.1 ++ [name] = path.names := names_of_locate hlocate
    have hslash : path.endsInSlash = false := by
      split at h
      · contradiction
      · rename_i hslash
        simpa using hslash
    rw [read, find, locate_mono hdirs hlocate]
    dsimp only [Place.transfer]
    rw [hnames, hwritten, hslash]
    rfl

/-- One tree has a file at some names, the directories that lead to it, and otherwise what another
tree has. -/
structure HasWritten (names : List String) (content : ByteArray) (tree other : FileTree) : Prop where
  file : ∀ query found, other.get? query = some (.file found) ↔
    if query = names then found = content else tree.get? query = some (.file found)
  dir : ∀ query, other.get? query = some .dir ↔
    tree.get? query = some .dir ∨ (query <+: names ∧ query ≠ names)

theorem prefix_dropLast_iff {α : Type} {list items : List α} (h : items ≠ []) :
    list <+: items.dropLast ↔ list <+: items ∧ list ≠ items := by
  obtain ⟨before, last, rfl⟩ := (List.eq_nil_or_concat items).resolve_left h
  rw [List.concat_eq_append, List.dropLast_concat, List.prefix_concat_iff]
  constructor
  · intro hshort
    refine ⟨.inr hshort, ?_⟩
    rintro rfl
    have hlength := hshort.length_le
    rw [List.length_append, List.length_singleton] at hlength
    omega
  · rintro ⟨hleads, hne⟩
    exact hleads.resolve_left hne

theorem not_prefix_dropLast {α : Type} {list : List α} (h : list ≠ []) : ¬ list <+: list.dropLast :=
  fun hlong => ((prefix_dropLast_iff h).mp hlong).2 rfl

/-- A file is written into a directory that was made for it before. -/
theorem hasWritten_of_write {made : FileTree} {content : ByteArray} (hne : path.names ≠ [])
    (hfiles : tree.SameFiles made)
    (hmade : ∀ query, made.get? query =
      if query <+: path.names.dropLast then some .dir else tree.get? query)
    (h : made.write path content = .ok other) : HasWritten path.names content tree other := by
  obtain ⟨hfree, hwritten⟩ := get?_write h
  constructor
  · intro query found
    rw [hwritten]
    split
    · simp [eq_comm]
    · exact hfiles query found
  · intro query
    rw [hwritten, ← prefix_dropLast_iff hne]
    split
    · rename_i hsame
      subst hsame
      rw [hmade] at hfree
      split at hfree
      · contradiction
      · rename_i hlong
        simp [hfree, hlong]
    · rw [hmade]
      split
      · rename_i hshort
        simp [hshort]
      · rename_i hlong
        simp [hlong]

end BitFont.FileTree

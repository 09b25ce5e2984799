import BitFont.Proofs.Files.Making

/-!
# When file operations succeed

On an ordinary path an operation is decided by what lies at the names of the path and on the way
there. A directory can be made unless a file is at its names or on the way
(`makeDirectories_of_not_isBlocked`), it can be removed if it is there (`removeDirectory_of_dir`), and
a file can be written where its directory is and no directory has its names (`write_ok_iff`). An
operation that fails leaves the tree as it was.
-/

namespace BitFont.FileTree

variable {tree : FileTree} {path : Path}

/-- A file lies at some names or on the way to them. -/
def IsBlocked (tree : FileTree) (names : List String) : Prop :=
  ∃ query content, query <+: names ∧ tree.get? query = some (.file content)

theorem IsBlocked.mono {names longer : List String} (h : tree.IsBlocked names)
    (hleads : names <+: longer) : tree.IsBlocked longer := by
  obtain ⟨query, content, hquery, hfile⟩ := h
  exact ⟨query, content, hquery.trans hleads, hfile⟩

theorem not_isBlocked_of_dir {names : List String} (h : tree.get? names = some .dir) :
    ¬ tree.IsBlocked names := by
  rintro ⟨query, content, hquery, hfile⟩
  rw [get?_eq_dir_of_isPrefix h hquery] at hfile
  simp at hfile

/-- Where nothing is in the way and nothing lies, there is nothing further down either. -/
theorem get?_eq_none_below {names query : List String} (h : tree.get? names = none)
    (hleads : names <+: query) : tree.get? query = none := by
  obtain ⟨rest, rfl⟩ := hleads
  induction rest using List.reverseRecOn with
  | nil => rwa [List.append_nil]
  | append_singleton rest name ih =>
    rw [← List.append_assoc, ← Option.not_isSome_iff_eq_none]
    intro hpresent
    rw [tree.get?_parent hpresent] at ih
    contradiction

/-! ## Walks -/

theorem walk_of_dir {here dir : tree.Dir} {names : List String} (h : dir.1 = here.1 ++ names) :
    tree.walk here (names.map .into) = .ok dir := by
  induction names generalizing here with
  | nil =>
    rw [List.append_nil] at h
    rw [List.map_nil, walk, Subtype.ext h]
  | cons name rest ih =>
    have hnext : tree.get? (here.1 ++ [name]) = some .dir :=
      get?_eq_dir_of_isPrefix dir.2 ⟨rest, by rw [h, List.append_assoc, List.singleton_append]⟩
    rw [List.map_cons, walk]
    split
    · rename_i hnone
      rw [hnone] at hnext
      contradiction
    · rename_i content hfile
      rw [hfile] at hnext
      simp at hnext
    · apply ih
      rw [h, List.append_assoc, List.singleton_append]

theorem walk_of_isBlocked {here : tree.Dir} {names : List String}
    (h : tree.IsBlocked (here.1 ++ names)) :
    tree.walk here (names.map .into) = .error .notADirectory := by
  induction names generalizing here with
  | nil =>
    rw [List.append_nil] at h
    exact absurd h (not_isBlocked_of_dir here.2)
  | cons name rest ih =>
    have hcut : here.1 ++ name :: rest = here.1 ++ [name] ++ rest := by
      rw [List.append_assoc, List.singleton_append]
    rw [hcut] at h
    rw [List.map_cons, walk]
    split
    · -- Nothing lies below a missing name, and the way to it goes through directories.
      rename_i hnone
      obtain ⟨query, content, hquery, hfile⟩ := h
      have hlonger : ¬ here.1 ++ [name] <+: query := by
        intro hbelow
        rw [get?_eq_none_below hnone hbelow] at hfile
        contradiction
      have hshorter : query <+: here.1 ++ [name] :=
        (List.prefix_or_prefix_of_prefix hquery (List.prefix_append _ _)).resolve_right hlonger
      rcases List.prefix_concat_iff.mp hshorter with rfl | habove
      · exact absurd List.prefix_rfl hlonger
      · rw [get?_eq_dir_of_isPrefix here.2 habove] at hfile
        simp at hfile
    · rfl
    · exact ih h

theorem walk_of_missing {here : tree.Dir} {names : List String}
    (hmissing : tree.get? (here.1 ++ names) = none) (hfree : ¬ tree.IsBlocked (here.1 ++ names)) :
    tree.walk here (names.map .into) = .error .notFound := by
  induction names generalizing here with
  | nil =>
    rw [List.append_nil, here.2] at hmissing
    contradiction
  | cons name rest ih =>
    have hcut : here.1 ++ name :: rest = here.1 ++ [name] ++ rest := by
      rw [List.append_assoc, List.singleton_append]
    rw [hcut] at hmissing hfree
    rw [List.map_cons, walk]
    split
    · rfl
    · rename_i content hfile
      exact absurd ⟨_, content, List.prefix_append _ _, hfile⟩ hfree
    · exact ih hmissing hfree

/-! ## Places -/

/-- Where nothing is in the way, either a directory is there or nothing. -/
theorem get?_eq_none_of_not_dir {names : List String} (hfree : ¬ tree.IsBlocked names)
    (h : tree.get? names ≠ some .dir) : tree.get? names = none := by
  cases hfound : tree.get? names with
  | none => rfl
  | some node =>
    cases node with
    | dir => exact absurd hfound h
    | file content => exact absurd ⟨_, content, List.prefix_rfl, hfound⟩ hfree

theorem locate_of_hasNul (hordinary : path.IsOrdinary) (hnul : path.hasNul = true) :
    tree.locate path = .error .invalidName := by
  rw [locate, if_neg hordinary.text_ne_empty, if_pos hnul]

/-- An ordinary path leads to the directory around its last name. -/
theorem locate_eq_walk (hordinary : path.IsOrdinary) (hnul : path.hasNul = false)
    {around : List String} {name : String} (h : path.names = around ++ [name]) :
    tree.locate path =
      (tree.walk ⟨[], rfl⟩ (around.map .into)).map fun parent => .named parent name := by
  have hsteps : path.steps = around.map .into ++ [.into name] := by
    rw [hordinary.steps_eq, ← hordinary.names_eq, h, List.map_append]
    rfl
  rw [locate, if_neg hordinary.text_ne_empty, if_neg (by simp [hnul]), hsteps,
    List.getLast?_concat, List.dropLast_concat]

theorem exists_names_eq_concat (hordinary : path.IsOrdinary) :
    ∃ around name, path.names = around ++ [name] ∧ path.names.dropLast = around := by
  obtain ⟨around, name, hnames⟩ := (List.eq_nil_or_concat path.names).resolve_left
    hordinary.names_ne_nil
  rw [List.concat_eq_append] at hnames
  refine ⟨around, name, hnames, ?_⟩
  rw [hnames, List.dropLast_concat]

theorem locate_of_dir (hordinary : path.IsOrdinary) (hnul : path.hasNul = false)
    (h : tree.get? path.names.dropLast = some .dir) :
    ∃ parent name, tree.locate path = .ok (.named parent name) ∧ path.names = parent.1 ++ [name] := by
  obtain ⟨around, name, hnames, haround⟩ := exists_names_eq_concat hordinary
  rw [haround] at h
  refine ⟨⟨around, h⟩, name, ?_, hnames⟩
  have hwalk : tree.walk ⟨[], rfl⟩ (around.map .into) = .ok ⟨around, h⟩ := walk_of_dir rfl
  rw [locate_eq_walk hordinary hnul hnames, hwalk]
  rfl

theorem locate_of_isBlocked (hordinary : path.IsOrdinary) (hnul : path.hasNul = false)
    (h : tree.IsBlocked path.names.dropLast) : tree.locate path = .error .notADirectory := by
  obtain ⟨around, name, hnames, haround⟩ := exists_names_eq_concat hordinary
  rw [haround] at h
  have hwalk : tree.walk ⟨[], rfl⟩ (around.map .into) = .error .notADirectory :=
    walk_of_isBlocked h
  rw [locate_eq_walk hordinary hnul hnames, hwalk]
  rfl

theorem locate_of_missing (hordinary : path.IsOrdinary) (hnul : path.hasNul = false)
    (hmissing : tree.get? path.names.dropLast = none)
    (hfree : ¬ tree.IsBlocked path.names.dropLast) : tree.locate path = .error .notFound := by
  obtain ⟨around, name, hnames, haround⟩ := exists_names_eq_concat hordinary
  rw [haround] at hmissing hfree
  have hwalk : tree.walk ⟨[], rfl⟩ (around.map .into) = .error .notFound :=
    walk_of_missing hmissing hfree
  rw [locate_eq_walk hordinary hnul hnames, hwalk]
  rfl

/-- A path that leads anywhere has no NUL, and a directory around its last name. -/
theorem locate_ok_iff (hordinary : path.IsOrdinary) :
    (∃ place, tree.locate path = .ok place) ↔
      path.hasNul = false ∧ tree.get? path.names.dropLast = some .dir := by
  constructor
  · rintro ⟨place, hplace⟩
    cases hnul : path.hasNul with
    | true =>
      rw [locate_of_hasNul hordinary hnul] at hplace
      contradiction
    | false =>
      refine ⟨rfl, ?_⟩
      by_contra hdir
      by_cases hblocked : tree.IsBlocked path.names.dropLast
      · rw [locate_of_isBlocked hordinary hnul hblocked] at hplace
        contradiction
      · have hmissing := get?_eq_none_of_not_dir hblocked hdir
        rw [locate_of_missing hordinary hnul hmissing hblocked] at hplace
        contradiction
  · rintro ⟨hnul, hdir⟩
    obtain ⟨parent, name, hlocate, -⟩ := locate_of_dir hordinary hnul hdir
    exact ⟨_, hlocate⟩

/-- What lies somewhere lies in a directory. -/
theorem get?_dropLast_of_isSome {names : List String} (h : (tree.get? names).isSome) :
    tree.get? names.dropLast = some .dir := by
  rcases List.eq_nil_or_concat names with rfl | ⟨around, name, rfl⟩
  · rfl
  · rw [List.concat_eq_append] at h ⊢
    rw [List.dropLast_concat]
    exact tree.get?_parent h

/-! ## Looking -/

theorem find_ok_iff (hordinary : path.IsOrdinary) {node : Node} :
    tree.find path = .ok node ↔ path.hasNul = false ∧ tree.get? path.names = some node := by
  constructor
  · intro hfind
    refine ⟨?_, get?_of_find hfind⟩
    cases hlocate : tree.locate path with
    | error error =>
      simp [find, hlocate] at hfind
    | ok place => exact ((locate_ok_iff hordinary).mp ⟨place, hlocate⟩).1
  · rintro ⟨hnul, hnode⟩
    obtain ⟨parent, name, hlocate, hnames⟩ :=
      locate_of_dir hordinary hnul (get?_dropLast_of_isSome (Option.isSome_of_eq_some hnode))
    rw [hnames] at hnode
    rw [find, hlocate]
    dsimp only
    rw [hnode]
    cases node with
    | dir => rfl
    | file content =>
      dsimp only
      rw [hordinary.endsInSlash_eq_false, if_neg Bool.false_ne_true]

theorem isPresent_iff (hordinary : path.IsOrdinary) :
    tree.isPresent path = true ↔ path.hasNul = false ∧ (tree.get? path.names).isSome := by
  rw [isPresent, Option.isSome_iff_exists, ← exists_and_left]
  simp only [← find_ok_iff hordinary]
  cases tree.find path with
  | error error => simp [Except.toBool]
  | ok node => simp [Except.toBool]

theorem isDirectory_iff (hordinary : path.IsOrdinary) :
    tree.isDirectory path = true ↔ path.hasNul = false ∧ tree.get? path.names = some .dir := by
  rw [← find_ok_iff hordinary, isDirectory]
  split
  · rename_i hfind
    simp [hfind]
  · rename_i hfind
    simpa using hfind

theorem read_ok_iff (hordinary : path.IsOrdinary) {content : ByteArray} :
    tree.read path = .ok content ↔
      path.hasNul = false ∧ tree.get? path.names = some (.file content) := by
  rw [← find_ok_iff hordinary, read]
  split
  · rename_i error hfind
    simp [hfind]
  · rename_i hfind
    simp [hfind]
  · rename_i found hfind
    simp [hfind]

/-- Reading hangs on what lies at the names of the path and on its NULs. -/
theorem read_congr {other : FileTree} (hordinary : path.IsOrdinary)
    {content : ByteArray} (hfile : tree.get? path.names = some (.file content))
    (hother : other.get? path.names = some (.file content)) :
    other.read path = tree.read path := by
  cases hnul : path.hasNul with
  | true =>
    rw [read, read, find, find, locate_of_hasNul hordinary hnul, locate_of_hasNul hordinary hnul]
  | false =>
    rw [(read_ok_iff hordinary).mpr ⟨hnul, hfile⟩, (read_ok_iff hordinary).mpr ⟨hnul, hother⟩]

/-! ## Removing -/

theorem removeDirectory_of_dir (hordinary : path.IsOrdinary) (hnul : path.hasNul = false)
    (h : tree.get? path.names = some .dir) :
    ∃ after, tree.removeDirectory path = (.ok (), after) ∧
      ∀ query, after.get? query = if path.names <+: query then none else tree.get? query := by
  obtain ⟨parent, name, hnamed, hnames⟩ := locate_of_dir hordinary hnul (tree.get?_dropLast h)
  rw [hnames] at h ⊢
  refine ⟨tree.remove (parent.1 ++ [name]) (by simp), ?_, fun query => get?_remove ..⟩
  rw [removeDirectory, hnamed]
  dsimp only
  rw [h]

theorem removeDirectory_of_not_dir (hordinary : path.IsOrdinary)
    (h : ¬ (path.hasNul = false ∧ tree.get? path.names = some .dir)) :
    ∃ error, tree.removeDirectory path = (.error error, tree) := by
  cases hlocate : tree.locate path with
  | error error =>
    refine ⟨error, ?_⟩
    rw [removeDirectory, hlocate]
  | ok place =>
    obtain ⟨hnul, haround⟩ := (locate_ok_iff hordinary).mp ⟨place, hlocate⟩
    obtain ⟨parent, name, hnamed, hnames⟩ := locate_of_dir hordinary hnul haround
    have hdir : tree.get? (parent.1 ++ [name]) ≠ some .dir := fun hdir => h ⟨hnul, hnames ▸ hdir⟩
    rw [removeDirectory, hnamed]
    dsimp only
    cases hfound : tree.get? (parent.1 ++ [name]) with
    | none => exact ⟨_, rfl⟩
    | some node =>
      cases node with
      | dir => exact absurd hfound hdir
      | file content => exact ⟨_, rfl⟩

/-! ## Writing -/

theorem write_ok_iff (hordinary : path.IsOrdinary) (content : ByteArray) :
    (∃ other, tree.write path content = .ok other) ↔
      path.hasNul = false ∧ tree.get? path.names.dropLast = some .dir ∧
        tree.get? path.names ≠ some .dir := by
  constructor
  · rintro ⟨other, hwrite⟩
    have hfree := (get?_write hwrite).1
    cases hlocate : tree.locate path with
    | error error => simp [write, hlocate] at hwrite
    | ok place =>
      obtain ⟨hnul, haround⟩ := (locate_ok_iff hordinary).mp ⟨place, hlocate⟩
      exact ⟨hnul, haround, hfree⟩
  · rintro ⟨hnul, haround, hfree⟩
    obtain ⟨parent, name, hnamed, hnames⟩ := locate_of_dir hordinary hnul haround
    rw [hnames] at hfree
    rw [write, hnamed]
    dsimp only
    rw [hordinary.endsInSlash_eq_false, if_neg Bool.false_ne_true, dif_neg hfree]
    exact ⟨_, rfl⟩

/-! ## Making directories -/

theorem ensureDirectory_of_dir (hordinary : path.IsOrdinary) (hnul : path.hasNul = false)
    (h : tree.get? path.names = some .dir) : tree.ensureDirectory path = .ok tree := by
  obtain ⟨parent, name, hnamed, hnames⟩ := locate_of_dir hordinary hnul (tree.get?_dropLast h)
  have hdirectory : tree.isDirectory path = true := (isDirectory_iff hordinary).mpr ⟨hnul, h⟩
  rw [hnames] at h
  have hexists : tree.makeDirectory path = .error .alreadyExists := by
    rw [makeDirectory, hnamed]
    dsimp only
    rw [h]
  rw [ensureDirectory, hexists]
  dsimp only
  rw [if_pos hdirectory]

theorem ensureDirectory_of_free (hordinary : path.IsOrdinary) (hnul : path.hasNul = false)
    (haround : tree.get? path.names.dropLast = some .dir) (hfree : tree.get? path.names = none) :
    ∃ made, tree.ensureDirectory path = .ok made := by
  obtain ⟨parent, name, hnamed, hnames⟩ := locate_of_dir hordinary hnul haround
  rw [hnames] at hfree
  have hmade : tree.makeDirectory path = .ok (tree.addDir parent.1 name parent.2) := by
    rw [makeDirectory, hnamed]
    dsimp only
    rw [hfree]
  rw [ensureDirectory, hmade]
  exact ⟨_, rfl⟩

theorem ensureDirectory_of_around (hordinary : path.IsOrdinary) (hnul : path.hasNul = false)
    (hfree : ¬ tree.IsBlocked path.names) (haround : tree.get? path.names.dropLast = some .dir) :
    ∃ made, tree.ensureDirectory path = .ok made := by
  by_cases hdir : tree.get? path.names = some .dir
  · exact ⟨tree, ensureDirectory_of_dir hordinary hnul hdir⟩
  · exact ensureDirectory_of_free hordinary hnul haround (get?_eq_none_of_not_dir hfree hdir)

/-- A directory that is not there is not made where its path does not lead anywhere. -/
theorem ensureDirectory_of_error (hordinary : path.IsOrdinary) {error : FileError}
    (hmake : tree.makeDirectory path = .error error) (hdir : tree.get? path.names ≠ some .dir) :
    tree.ensureDirectory path = .error error := by
  have hdirectory : ¬ tree.isDirectory path = true := by
    rw [isDirectory_iff hordinary]
    exact fun hboth => hdir hboth.2
  rw [ensureDirectory, hmake]
  dsimp only
  rw [if_neg hdirectory]

theorem ensureDirectory_of_hasNul (hordinary : path.IsOrdinary) (hnul : path.hasNul = true) :
    tree.ensureDirectory path = .error .invalidName := by
  have hdirectory : ¬ tree.isDirectory path = true := by
    rw [isDirectory_iff hordinary, hnul]
    simp
  have hmake : tree.makeDirectory path = .error .invalidName := by
    rw [makeDirectory, locate_of_hasNul hordinary hnul]
  rw [ensureDirectory, hmake]
  dsimp only
  rw [if_neg hdirectory]

theorem ensureDirectory_of_isBlocked (hordinary : path.IsOrdinary) (hnul : path.hasNul = false)
    (h : tree.IsBlocked path.names) :
    ∃ error, error ≠ .notFound ∧ tree.ensureDirectory path = .error error := by
  have hdir : tree.get? path.names ≠ some .dir := fun hdir => not_isBlocked_of_dir hdir h
  by_cases haround : tree.IsBlocked path.names.dropLast
  · refine ⟨.notADirectory, by simp, ensureDirectory_of_error hordinary ?_ hdir⟩
    rw [makeDirectory, locate_of_isBlocked hordinary hnul haround]
  · -- The file has the very names of the path.
    obtain ⟨query, content, hquery, hfile⟩ := h
    have hnames : query = path.names := by
      by_contra hne
      have hshort := (prefix_dropLast_iff hordinary.names_ne_nil).mpr ⟨hquery, hne⟩
      exact haround ⟨query, content, hshort, hfile⟩
    rw [hnames] at hfile
    obtain ⟨parent, name, hnamed, hcut⟩ := locate_of_dir hordinary hnul
      (get?_dropLast_of_isSome (Option.isSome_of_eq_some hfile))
    rw [hcut] at hfile
    refine ⟨.alreadyExists, by simp, ensureDirectory_of_error hordinary ?_ hdir⟩
    rw [makeDirectory, hnamed]
    dsimp only
    rw [hfile]

theorem ensureDirectory_of_missing (hordinary : path.IsOrdinary) (hnul : path.hasNul = false)
    (hmissing : tree.get? path.names.dropLast = none)
    (hfree : ¬ tree.IsBlocked path.names.dropLast) :
    tree.ensureDirectory path = .error .notFound := by
  have hnone : tree.get? path.names = none :=
    get?_eq_none_below hmissing (List.dropLast_prefix _)
  refine ensureDirectory_of_error hordinary ?_ (by simp [hnone])
  rw [makeDirectory, locate_of_missing hordinary hnul hmissing hfree]

/-- The paths around are tried until one of them does not lead to a missing directory. If nothing is
in the way, the root is such a one at the latest. -/
theorem makeNested_of_not_isBlocked (hordinary : path.IsOrdinary) (hnul : path.hasNul = false)
    (hfree : ¬ tree.IsBlocked path.names) (fuel : Nat) (hfuel : path.segments.length ≤ fuel + 1) :
    ∃ made, tree.makeNested (path :: Path.parentsUpTo fuel path) = (.ok (), made) := by
  induction fuel generalizing path with
  | zero =>
    have hbare : path.names.dropLast = [] := by
      rw [← List.length_eq_zero_iff, List.length_dropLast, hordinary.names_eq]
      omega
    obtain ⟨made, hmade⟩ := ensureDirectory_of_around hordinary hnul hfree (hbare ▸ rfl)
    exact ⟨made, by rw [makeNested, hmade]⟩
  | succ fuel ih =>
    by_cases haround : tree.get? path.names.dropLast = some .dir
    · obtain ⟨made, hmade⟩ := ensureDirectory_of_around hordinary hnul hfree haround
      exact ⟨made, by rw [makeNested, hmade]⟩
    · have hfreeAround : ¬ tree.IsBlocked path.names.dropLast :=
        fun hblocked => hfree (hblocked.mono (List.dropLast_prefix _))
      have hmissing := get?_eq_none_of_not_dir hfreeAround haround
      have hne : path.segments.dropLast ≠ [] := by
        intro hnil
        rw [hordinary.names_eq, hnil] at haround
        exact haround rfl
      obtain ⟨hparent, hnames⟩ := hordinary.isOrdinary_dropLast hne
      have hparents : Path.parentsUpTo (fuel + 1) path =
          Path.ofSegments path.segments.dropLast ::
            Path.parentsUpTo fuel (Path.ofSegments path.segments.dropLast) := by
        rw [Path.parentsUpTo, hordinary.parent?_eq]
        dsimp only
        rw [if_neg hparent.text_ne_empty]
      have hlength : (Path.ofSegments path.segments.dropLast).segments.length ≤ fuel + 1 := by
        rw [← hparent.names_eq, hnames, hordinary.names_eq, List.length_dropLast]
        omega
      obtain ⟨between, hbetween⟩ :=
        ih hparent (hordinary.hasNul_dropLast hnul) (hnames ▸ hfreeAround) hlength
      -- The directory around is there now, and nothing has come to lie at the names of the path.
      have hview := get?_makeNested (hparent.isChain_parentsUpTo fuel) hbetween
      rw [hnames] at hview
      have hdir : between.get? path.names.dropLast = some .dir := by
        rw [hview, if_pos List.prefix_rfl]
      have hnone : between.get? path.names = none := by
        rw [hview, if_neg (not_prefix_dropLast hordinary.names_ne_nil)]
        exact get?_eq_none_below hmissing (List.dropLast_prefix _)
      obtain ⟨made, hmade⟩ := ensureDirectory_of_free hordinary hnul hdir hnone
      refine ⟨made, ?_⟩
      rw [hparents, makeNested, ensureDirectory_of_missing hordinary hnul hmissing hfreeAround]
      dsimp only
      rw [hbetween]
      dsimp only
      rw [hmade]

theorem makeDirectories_of_not_isBlocked (hordinary : path.IsOrdinary) (hnul : path.hasNul = false)
    (h : ¬ tree.IsBlocked path.names) :
    ∃ made, tree.makeDirectories path = (.ok (), made) ∧
      ∀ query, made.get? query = if query <+: path.names then some .dir else tree.get? query := by
  obtain ⟨made, hmade⟩ := makeNested_of_not_isBlocked hordinary hnul h path.segments.length
    (Nat.le_succ _)
  have hmakes : tree.makeDirectories path = (.ok (), made) := by
    rw [makeDirectories, if_neg hordinary.text_ne_empty]
    exact hmade
  exact ⟨made, hmakes, get?_makeDirectories hordinary hmakes⟩

/-- A path with a NUL, or with a file in the way, fails at the first try. -/
theorem makeDirectories_of_error (hordinary : path.IsOrdinary)
    (h : ¬ (path.hasNul = false ∧ ¬ tree.IsBlocked path.names)) :
    ∃ error, tree.makeDirectories path = (.error error, tree) := by
  have hfirst : ∃ error, error ≠ .notFound ∧ tree.ensureDirectory path = .error error := by
    cases hnul : path.hasNul with
    | true => exact ⟨_, by simp, ensureDirectory_of_hasNul hordinary hnul⟩
    | false =>
      have hblocked : tree.IsBlocked path.names := by
        by_contra hfree
        exact h ⟨hnul, hfree⟩
      exact ensureDirectory_of_isBlocked hordinary hnul hblocked
  obtain ⟨error, hne, hensure⟩ := hfirst
  refine ⟨error, ?_⟩
  rw [makeDirectories, if_neg hordinary.text_ne_empty, makeNested, hensure]
  cases error with
  | notFound => contradiction
  | _ => rfl

end BitFont.FileTree

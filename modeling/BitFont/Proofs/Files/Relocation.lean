import BitFont.Proofs.Files.Outcomes

/-!
# Trees in a directory

A tree can be placed in a directory of another one that holds nothing else (`FileTree.place`). Behind
the name of the directory everything lies as it lay (`IsPlaced`), and a path that goes through the
directory (`IsFileName.under`) leads to what the path itself led to. So such paths are as free, and
hold the same files, as the paths without the directory.
-/

namespace BitFont

namespace Path

/-! ## Paths under an ordinary one -/

theorem IsOrdinary.isAbsolute_eq_false {path : Path} (h : path.IsOrdinary) :
    path.isAbsolute = false := by
  rw [isAbsolute, beq_eq_false_iff_ne]
  intro hslash
  obtain ⟨rest, htext⟩ := List.head?_eq_some_iff.mp hslash
  have hsegment : "" ∈ path.segments := by
    rw [segments, htext, ← List.nil_append ('/' :: rest), Text.fields_append_cons [] rfl,
      List.map_append]
    exact List.mem_append_left _ (List.mem_singleton_self _)
  exact (h "" hsegment).1 rfl

section

variable {root path : Path}

theorem under_eq (hroot : root.IsOrdinary) (hpath : path.IsOrdinary) :
    root.under path = ⟨root.text ++ "/" ++ path.text⟩ := by
  rw [under, hpath.isAbsolute_eq_false, hroot.endsInSlash_eq_false, Bool.false_or,
    if_neg (by simpa using hroot.text_ne_empty), if_neg Bool.false_ne_true]

/-- A path under another one goes on behind its segments. -/
theorem segments_under (hroot : root.IsOrdinary) (hpath : path.IsOrdinary) :
    (root.under path).segments = root.segments ++ path.segments := by
  have htext : (root.text ++ "/" ++ path.text).toList =
      root.text.toList ++ '/' :: path.text.toList := by
    simp [String.toList_append]
  rw [under_eq hroot hpath, segments, htext, Text.fields_append_cons _ rfl, List.map_append]
  rfl

theorem isOrdinary_under (hroot : root.IsOrdinary) (hpath : path.IsOrdinary) :
    (root.under path).IsOrdinary := by
  rw [IsOrdinary, segments_under hroot hpath, List.forall_mem_append]
  exact ⟨hroot, hpath⟩

theorem under_under {outer : Path} (houter : outer.IsOrdinary) (hroot : root.IsOrdinary)
    (hpath : path.IsOrdinary) : (outer.under root).under path = outer.under (root.under path) := by
  rw [under_eq (isOrdinary_under houter hroot) hpath, under_eq houter (isOrdinary_under hroot hpath),
    under_eq houter hroot, under_eq hroot hpath]
  simp only [String.append_assoc]

end

/-! ## Paths in a directory -/

/-- What a directory can be called: no dots, no slash and no NUL. -/
structure IsFileName (name : String) : Prop where
  isName : IsName name
  slash : Text.Lacks '/' name
  nul : Text.Lacks '\x00' name

namespace IsFileName

variable {name : String} {path : Path}

theorem segments (h : IsFileName name) : (⟨name⟩ : Path).segments = [name] := by
  have hsegments := segments_ofSegments (List.cons_ne_nil name [])
    (List.forall_mem_singleton.mpr h.slash)
  rwa [ofSegments, String.intercalate_singleton] at hsegments

theorem isOrdinary (h : IsFileName name) : (⟨name⟩ : Path).IsOrdinary := by
  rw [IsOrdinary, h.segments]
  exact List.forall_mem_singleton.mpr h.isName

theorem segments_under (h : IsFileName name) (hpath : path.IsOrdinary) :
    ((⟨name⟩ : Path).under path).segments = name :: path.segments := by
  rw [Path.segments_under h.isOrdinary hpath, h.segments, List.singleton_append]

theorem names_under (h : IsFileName name) (hpath : path.IsOrdinary) :
    ((⟨name⟩ : Path).under path).names = name :: path.names := by
  rw [(isOrdinary_under h.isOrdinary hpath).names_eq, h.segments_under hpath, hpath.names_eq]

theorem hasNul (h : IsFileName name) : (⟨name⟩ : Path).hasNul = false := by
  rw [Path.hasNul, List.any_eq_false]
  intro c hc
  simpa using h.nul c hc

theorem hasNul_under (h : IsFileName name) (hpath : path.IsOrdinary) :
    ((⟨name⟩ : Path).under path).hasNul = path.hasNul := by
  have hname : name.toList.any (· == '\x00') = false := h.hasNul
  rw [hasNul_eq_any_segments, h.segments_under hpath, List.any_cons, hname, Bool.false_or,
    ← hasNul_eq_any_segments]

/-- The path around a path in a directory is the directory or a path in it. -/
theorem ofSegments_under (h : IsFileName name) (hpath : path.IsOrdinary) :
    ofSegments ((⟨name⟩ : Path).under path).segments.dropLast =
      if path.segments.dropLast = [] then ⟨name⟩
      else (⟨name⟩ : Path).under (ofSegments path.segments.dropLast) := by
  rw [h.segments_under hpath, List.dropLast_cons_of_ne_nil path.segments_ne_nil]
  split
  · rename_i hbare
    rw [hbare, ofSegments, String.intercalate_singleton]
  · rename_i hne
    rw [under_eq h.isOrdinary (hpath.isOrdinary_dropLast hne).1, ofSegments,
      String.intercalate_cons_of_ne_nil hne]
    rfl

end IsFileName

end Path

namespace FileTree

/-! ## Placing a tree -/

/-- The nodes of a tree in a directory, and the directory. -/
def placed (nodes : Nodes) (directory : String) : Nodes :=
  ([directory], .dir) :: nodes.map fun entry => (directory :: entry.1, entry.2)

theorem lookup_placed (nodes : Nodes) (directory name : String) (names : List String) :
    lookup (placed nodes directory) (name :: names) =
      if name = directory then lookup nodes names else none := by
  rw [lookup, if_neg (List.cons_ne_nil name names), placed]
  by_cases hname : name = directory
  · subst hname
    rw [if_pos rfl, lookup]
    by_cases hroot : names = []
    · subst hroot
      simp
    · rw [if_neg hroot, List.find?_cons_of_neg (by simpa using Ne.symm hroot), List.find?_map,
        Option.map_map]
      simp [Function.comp_def]
  · rw [if_neg hname, Option.map_eq_none_iff, List.find?_eq_none, List.forall_mem_cons,
      List.forall_mem_map]
    simp [Ne.symm hname]

/-- The tree that holds another one in a directory of its root, and nothing else. -/
def place (tree : FileTree) (directory : String) : FileTree where
  nodes := placed tree.nodes directory
  closed := by
    intro names name present
    cases names with
    | nil => rfl
    | cons first rest =>
      rw [List.cons_append, lookup_placed] at present
      rw [lookup_placed]
      split at present
      · rename_i same
        rw [if_pos same]
        exact tree.closed rest name present
      · contradiction

/-- One tree has another one in a directory of its root, and nothing else. -/
structure IsPlaced (directory : String) (tree other : FileTree) : Prop where
  below : ∀ names, other.get? (directory :: names) = tree.get? names
  beside : ∀ name names, name ≠ directory → other.get? (name :: names) = none

theorem isPlaced_place (tree : FileTree) (directory : String) :
    IsPlaced directory tree (tree.place directory) where
  below names := (lookup_placed tree.nodes directory directory names).trans (if_pos rfl)
  beside name names hname := (lookup_placed tree.nodes directory name names).trans (if_neg hname)

namespace IsPlaced

variable {directory : String} {tree other after otherAfter : FileTree} {path : Path}

theorem isBlocked_iff (h : IsPlaced directory tree other) (names : List String) :
    other.IsBlocked (directory :: names) ↔ tree.IsBlocked names := by
  constructor
  · rintro ⟨query, content, hquery, hfile⟩
    cases query with
    | nil => simp at hfile
    | cons name rest =>
      obtain ⟨rfl, hrest⟩ := List.cons_prefix_cons.mp hquery
      rw [h.below] at hfile
      exact ⟨rest, content, hrest, hfile⟩
  · rintro ⟨query, content, hquery, hfile⟩
    refine ⟨directory :: query, content, List.cons_prefix_cons.mpr ⟨rfl, hquery⟩, ?_⟩
    rw [h.below]
    exact hfile

section

variable (h : IsPlaced directory tree other) (hdirectory : Path.IsFileName directory)
  (hpath : path.IsOrdinary)

include h hdirectory hpath

theorem isDir_iff :
    (((⟨directory⟩ : Path).under path).hasNul = false ∧
        other.get? ((⟨directory⟩ : Path).under path).names = some .dir) ↔
      path.hasNul = false ∧ tree.get? path.names = some .dir := by
  rw [hdirectory.hasNul_under hpath, hdirectory.names_under hpath, h.below]

theorem isFree_iff :
    (((⟨directory⟩ : Path).under path).hasNul = false ∧
        ¬ other.IsBlocked ((⟨directory⟩ : Path).under path).names) ↔
      path.hasNul = false ∧ ¬ tree.IsBlocked path.names := by
  rw [hdirectory.hasNul_under hpath, hdirectory.names_under hpath, h.isBlocked_iff]

theorem isPresent_eq : other.isPresent ((⟨directory⟩ : Path).under path) = tree.isPresent path := by
  rw [Bool.eq_iff_iff, isPresent_iff (Path.isOrdinary_under hdirectory.isOrdinary hpath),
    isPresent_iff hpath, hdirectory.hasNul_under hpath, hdirectory.names_under hpath, h.below]

/-- A file can be read in both trees, where it has the same content, or in neither. -/
theorem read :
    (∃ content, tree.read path = .ok content ∧
        other.read ((⟨directory⟩ : Path).under path) = .ok content) ∨
      ∃ error otherError, tree.read path = .error error ∧
        other.read ((⟨directory⟩ : Path).under path) = .error otherError := by
  have hiff (content : ByteArray) :
      other.read ((⟨directory⟩ : Path).under path) = .ok content ↔
        tree.read path = .ok content := by
    rw [read_ok_iff (Path.isOrdinary_under hdirectory.isOrdinary hpath), read_ok_iff hpath,
      hdirectory.hasNul_under hpath, hdirectory.names_under hpath, h.below]
  cases hread : tree.read path with
  | ok content => exact .inl ⟨content, rfl, (hiff content).mpr hread⟩
  | error error =>
    cases hother : other.read ((⟨directory⟩ : Path).under path) with
    | ok content =>
      rw [(hiff content).mp hother] at hread
      contradiction
    | error otherError => exact .inr ⟨error, otherError, rfl, rfl⟩

/-- A directory can be removed in both trees or in neither. -/
theorem removeDirectory :
    ((other.removeDirectory ((⟨directory⟩ : Path).under path)).1.toBool =
        (tree.removeDirectory path).1.toBool) ∧
      IsPlaced directory (tree.removeDirectory path).2
        (other.removeDirectory ((⟨directory⟩ : Path).under path)).2 := by
  have hunder := Path.isOrdinary_under hdirectory.isOrdinary hpath
  have hiff := h.isDir_iff hdirectory hpath
  by_cases hdir : path.hasNul = false ∧ tree.get? path.names = some .dir
  · have hdirUnder := hiff.mpr hdir
    obtain ⟨after, hafter, hview⟩ := removeDirectory_of_dir hpath hdir.1 hdir.2
    obtain ⟨otherAfter, hother, hviewOther⟩ :=
      removeDirectory_of_dir hunder hdirUnder.1 hdirUnder.2
    rw [hafter, hother]
    refine ⟨rfl, fun names => ?_, fun name names hname => ?_⟩
    · rw [hviewOther, hview, hdirectory.names_under hpath, h.below]
      simp only [List.cons_prefix_cons, true_and]
    · rw [hviewOther, h.beside name names hname, ite_self]
  · obtain ⟨error, hfails⟩ := removeDirectory_of_not_dir hpath hdir
    obtain ⟨otherError, hfailsOther⟩ := removeDirectory_of_not_dir hunder (hiff.not.mpr hdir)
    rw [hfails, hfailsOther]
    exact ⟨rfl, h⟩

/-- A directory can be made in both trees or in neither. -/
theorem makeDirectories :
    ((other.makeDirectories ((⟨directory⟩ : Path).under path)).1.toBool =
        (tree.makeDirectories path).1.toBool) ∧
      IsPlaced directory (tree.makeDirectories path).2
        (other.makeDirectories ((⟨directory⟩ : Path).under path)).2 := by
  have hunder := Path.isOrdinary_under hdirectory.isOrdinary hpath
  have hiff := h.isFree_iff hdirectory hpath
  by_cases hfree : path.hasNul = false ∧ ¬ tree.IsBlocked path.names
  · have hfreeUnder := hiff.mpr hfree
    obtain ⟨after, hafter, hview⟩ := makeDirectories_of_not_isBlocked hpath hfree.1 hfree.2
    obtain ⟨otherAfter, hother, hviewOther⟩ :=
      makeDirectories_of_not_isBlocked hunder hfreeUnder.1 hfreeUnder.2
    rw [hafter, hother]
    refine ⟨rfl, fun names => ?_, fun name names hname => ?_⟩
    · rw [hviewOther, hview, hdirectory.names_under hpath, h.below]
      simp only [List.cons_prefix_cons, true_and]
    · rw [hviewOther, hdirectory.names_under hpath, h.beside name names hname]
      simp [List.cons_prefix_cons, hname]
  · obtain ⟨error, hfails⟩ := makeDirectories_of_error hpath hfree
    obtain ⟨otherError, hfailsOther⟩ := makeDirectories_of_error hunder (hiff.not.mpr hfree)
    rw [hfails, hfailsOther]
    exact ⟨rfl, h⟩

/-- A file can be written in both trees or in neither. -/
theorem write (content : ByteArray) :
    (∃ after otherAfter, tree.write path content = .ok after ∧
        other.write ((⟨directory⟩ : Path).under path) content = .ok otherAfter ∧
        IsPlaced directory after otherAfter) ∨
      ∃ error otherError, tree.write path content = .error error ∧
        other.write ((⟨directory⟩ : Path).under path) content = .error otherError := by
  have hunder := Path.isOrdinary_under hdirectory.isOrdinary hpath
  have hiff : (∃ otherAfter,
      other.write ((⟨directory⟩ : Path).under path) content = .ok otherAfter) ↔
        ∃ after, tree.write path content = .ok after := by
    rw [write_ok_iff hunder, write_ok_iff hpath, hdirectory.hasNul_under hpath,
      hdirectory.names_under hpath, List.dropLast_cons_of_ne_nil hpath.names_ne_nil, h.below,
      h.below]
  cases hafter : tree.write path content with
  | ok after =>
    obtain ⟨otherAfter, hother⟩ := hiff.mpr ⟨after, hafter⟩
    have hview := (get?_write hafter).2
    have hviewOther := (get?_write hother).2
    refine .inl ⟨after, otherAfter, rfl, hother, fun names => ?_, fun name names hname => ?_⟩
    · rw [hviewOther, hview, hdirectory.names_under hpath, h.below]
      simp only [List.cons_inj_right]
    · rw [hviewOther, hdirectory.names_under hpath, h.beside name names hname]
      simp [hname]
  | error error =>
    cases hother : other.write ((⟨directory⟩ : Path).under path) content with
    | ok otherAfter =>
      obtain ⟨after, hok⟩ := hiff.mp ⟨otherAfter, hother⟩
      rw [hok] at hafter
      contradiction
    | error otherError => exact .inr ⟨error, otherError, rfl, rfl⟩

end

/-- The directory that holds the tree is there. -/
theorem makeDirectories_self (h : IsPlaced directory tree other)
    (hdirectory : Path.IsFileName directory) :
    ∃ after, other.makeDirectories ⟨directory⟩ = (.ok (), after) ∧
      IsPlaced directory tree after := by
  have hnames : (⟨directory⟩ : Path).names = [directory] := by
    rw [hdirectory.isOrdinary.names_eq, hdirectory.segments]
  have hdir : other.get? (⟨directory⟩ : Path).names = some .dir := by
    rw [hnames, h.below, get?_root]
  obtain ⟨after, hafter, hview⟩ := makeDirectories_of_not_isBlocked hdirectory.isOrdinary
    hdirectory.hasNul (not_isBlocked_of_dir hdir)
  have hsame (query : List String) : after.get? query = other.get? query := by
    rw [hview]
    split
    · rename_i hquery
      rw [get?_eq_dir_of_isPrefix hdir hquery]
    · rfl
  refine ⟨after, hafter, fun names => ?_, fun name names hname => ?_⟩
  · rw [hsame, h.below]
  · rw [hsame, h.beside name names hname]

end IsPlaced

end FileTree

end BitFont

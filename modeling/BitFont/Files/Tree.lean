/-!
# Trees of files

A file tree lists its files and directories by the names that lead to them from the root. The view
`get?` says what lies at a list of names; each operation is described by one equation about it.
What has a name always lies in a directory.
-/

namespace BitFont

/-- What a name stands for. -/
inductive Node where
  | dir
  | file (content : ByteArray)

/-- Whether there is a directory can be decided without a look at any content. -/
instance (found : Option Node) : Decidable (found = some .dir) :=
  match found with
  | some .dir => isTrue rfl
  | some (.file _) => isFalse (by simp)
  | none => isFalse (by simp)

namespace FileTree

/-- The nodes of a tree by the names that lead to them. -/
abbrev Nodes := List (List String × Node)

/-- What lies at the end of a list of names. The root is a directory. -/
def lookup (nodes : Nodes) (names : List String) : Option Node :=
  if names = [] then some .dir else (nodes.find? (·.1 == names)).map (·.2)

/-- Everything lies in a directory. -/
def Closed (nodes : Nodes) : Prop :=
  ∀ names name, (lookup nodes (names ++ [name])).isSome → lookup nodes names = some .dir

def put (nodes : Nodes) (names : List String) (node : Node) : Nodes :=
  nodes.filter (·.1 != names) ++ [(names, node)]

/-- The nodes without all that lies at some names or below. -/
def cut (nodes : Nodes) (names : List String) : Nodes :=
  nodes.filter fun entry => decide (¬ names <+: entry.1)

/-- The nodes without all that lies below some names. -/
def clear (nodes : Nodes) (names : List String) : Nodes :=
  nodes.filter fun entry => decide (¬ (names <+: entry.1 ∧ entry.1 ≠ names))

private theorem find?_filter_of_true (nodes : Nodes) (keep : List String → Bool)
    (names : List String) (kept : keep names = true) :
    (nodes.filter (fun entry => keep entry.1)).find? (·.1 == names) =
      nodes.find? (·.1 == names) := by
  induction nodes with
  | nil => rfl
  | cons entry rest ih =>
    rw [List.filter_cons]
    by_cases same : entry.1 = names
    · simp [same, kept]
    · split
      · simp [same, ih]
      · simp [same, ih]

private theorem find?_filter_of_false (nodes : Nodes) (keep : List String → Bool)
    (names : List String) (dropped : keep names = false) :
    (nodes.filter (fun entry => keep entry.1)).find? (·.1 == names) = none := by
  rw [List.find?_eq_none]
  intro entry member same
  have kept := (List.mem_filter.mp member).2
  simp only [beq_iff_eq] at same
  rw [same, dropped] at kept
  contradiction

theorem lookup_put (nodes : Nodes) (names query : List String) (node : Node)
    (named : names ≠ []) :
    lookup (put nodes names node) query = if query = names then some node else lookup nodes query := by
  unfold lookup put
  by_cases root : query = []
  · subst root
    simp [Ne.symm named]
  · simp only [root, if_false, List.find?_append]
    by_cases same : query = names
    · subst same
      rw [find?_filter_of_false nodes (fun key => key != query) query (by simp)]
      simp
    · rw [find?_filter_of_true nodes (fun key => key != names) query (by simpa using same)]
      simp [same, Ne.symm same]

theorem lookup_cut (nodes : Nodes) (names query : List String) (named : names ≠ []) :
    lookup (cut nodes names) query = if names <+: query then none else lookup nodes query := by
  unfold lookup cut
  by_cases root : query = []
  · subst root
    simp [List.prefix_nil, named]
  · simp only [root, if_false]
    by_cases below : names <+: query
    · rw [find?_filter_of_false nodes (fun key => decide (¬ names <+: key)) query (by simpa using below)]
      simp [below]
    · rw [find?_filter_of_true nodes (fun key => decide (¬ names <+: key)) query (by simpa using below)]
      simp [below]

theorem lookup_clear (nodes : Nodes) (names query : List String) :
    lookup (clear nodes names) query =
      if names <+: query ∧ query ≠ names then none else lookup nodes query := by
  unfold lookup clear
  by_cases root : query = []
  · subst root
    have same : names <+: [] → ([] : List String) ≠ names → False := by
      intro short different
      exact different (List.prefix_nil.mp short).symm
    simp only [if_true]
    split
    · rename_i both
      exact (same both.1 both.2).elim
    · rfl
  · simp only [root, if_false]
    by_cases below : names <+: query ∧ query ≠ names
    · rw [find?_filter_of_false nodes (fun key => decide (¬ (names <+: key ∧ key ≠ names))) query
        (by simpa using below)]
      simp [below]
    · rw [find?_filter_of_true nodes (fun key => decide (¬ (names <+: key ∧ key ≠ names))) query
        (decide_eq_true below)]
      simp [below]

/-- A directory may be put where nothing or a directory is. -/
theorem closed_put_dir {nodes : Nodes} (closed : Closed nodes) (parent : List String)
    (name : String) (inside : lookup nodes parent = some .dir) :
    Closed (put nodes (parent ++ [name]) .dir) := by
  intro names child present
  rw [lookup_put _ _ _ _ (by simp)] at present ⊢
  split
  · rfl
  · split at present
    · rename_i same
      rw [List.append_inj_left' same rfl]
      exact inside
    · exact closed names child present

/-- A file may be put where no directory is. -/
theorem closed_put_file {nodes : Nodes} (closed : Closed nodes) (parent : List String)
    (name : String) (content : ByteArray) (inside : lookup nodes parent = some .dir)
    (free : lookup nodes (parent ++ [name]) ≠ some .dir) :
    Closed (put nodes (parent ++ [name]) (.file content)) := by
  intro names child present
  rw [lookup_put _ _ _ _ (by simp)] at present ⊢
  split at present
  · rename_i same
    have parents : names = parent := List.append_inj_left' same rfl
    subst parents
    have longer : names ≠ names ++ [name] := by simp
    rw [if_neg longer]
    exact inside
  · have above := closed names child present
    have different : names ≠ parent ++ [name] := by
      intro same
      rw [same] at above
      exact free above
    rw [if_neg different]
    exact above

theorem closed_cut {nodes : Nodes} (closed : Closed nodes) (names : List String)
    (named : names ≠ []) : Closed (cut nodes names) := by
  intro query child present
  rw [lookup_cut _ _ _ named] at present ⊢
  split at present
  · simp at present
  · rename_i outside
    have shorter : ¬ names <+: query := fun below => outside (below.trans (List.prefix_append _ _))
    rw [if_neg shorter]
    exact closed query child present

theorem closed_clear {nodes : Nodes} (closed : Closed nodes) (names : List String) :
    Closed (clear nodes names) := by
  intro query child present
  rw [lookup_clear] at present ⊢
  split at present
  · simp at present
  · rename_i outside
    have shorter : ¬ (names <+: query ∧ query ≠ names) := by
      rintro ⟨below, -⟩
      apply outside
      refine ⟨below.trans (List.prefix_append _ _), ?_⟩
      intro same
      have lengths := below.length_le
      rw [← same, List.length_append, List.length_singleton] at lengths
      omega
    rw [if_neg shorter]
    exact closed query child present

end FileTree

/-- A tree of files and directories. -/
structure FileTree where
  nodes : FileTree.Nodes
  closed : FileTree.Closed nodes

namespace FileTree

/-- The tree that holds only its root. -/
def empty : FileTree where
  nodes := []
  closed := by
    intro names name present
    simp [lookup] at present

instance : Inhabited FileTree := ⟨empty⟩

/-- What lies at the end of a list of names. -/
def get? (tree : FileTree) (names : List String) : Option Node := lookup tree.nodes names

@[simp] theorem get?_root (tree : FileTree) : tree.get? [] = some .dir := rfl

/-- What has a name lies in a directory. -/
theorem get?_parent (tree : FileTree) {names : List String} {name : String}
    (present : (tree.get? (names ++ [name])).isSome) : tree.get? names = some .dir :=
  tree.closed names name present

/-- The directory around a directory. -/
theorem get?_dropLast (tree : FileTree) {names : List String}
    (inside : tree.get? names = some .dir) : tree.get? names.dropLast = some .dir := by
  by_cases root : names = []
  · subst root
    rfl
  · have present : (tree.get? (names.dropLast ++ [names.getLast root])).isSome := by
      rw [List.dropLast_concat_getLast, inside]
      rfl
    exact tree.get?_parent present

/-- Puts a directory into a directory. -/
def addDir (tree : FileTree) (parent : List String) (name : String)
    (inside : tree.get? parent = some .dir) : FileTree where
  nodes := put tree.nodes (parent ++ [name]) .dir
  closed := closed_put_dir tree.closed parent name inside

/-- Puts a file into a directory, where no directory has its name. -/
def putFile (tree : FileTree) (parent : List String) (name : String) (content : ByteArray)
    (inside : tree.get? parent = some .dir)
    (free : tree.get? (parent ++ [name]) ≠ some .dir) : FileTree where
  nodes := put tree.nodes (parent ++ [name]) (.file content)
  closed := closed_put_file tree.closed parent name content inside free

/-- Removes what lies at some names and all below. -/
def remove (tree : FileTree) (names : List String) (named : names ≠ []) : FileTree where
  nodes := cut tree.nodes names
  closed := closed_cut tree.closed names named

/-- Removes all that lies below some names. -/
def removeBelow (tree : FileTree) (names : List String) : FileTree where
  nodes := clear tree.nodes names
  closed := closed_clear tree.closed names

theorem get?_addDir (tree : FileTree) (parent query : List String) (name : String)
    (inside : tree.get? parent = some .dir) :
    (tree.addDir parent name inside).get? query =
      if query = parent ++ [name] then some .dir else tree.get? query :=
  lookup_put _ _ _ _ (by simp)

theorem get?_putFile (tree : FileTree) (parent query : List String) (name : String)
    (content : ByteArray) (inside : tree.get? parent = some .dir)
    (free : tree.get? (parent ++ [name]) ≠ some .dir) :
    (tree.putFile parent name content inside free).get? query =
      if query = parent ++ [name] then some (.file content) else tree.get? query :=
  lookup_put _ _ _ _ (by simp)

theorem get?_remove (tree : FileTree) (names query : List String) (named : names ≠ []) :
    (tree.remove names named).get? query =
      if names <+: query then none else tree.get? query :=
  lookup_cut _ _ _ named

theorem get?_removeBelow (tree : FileTree) (names query : List String) :
    (tree.removeBelow names).get? query =
      if names <+: query ∧ query ≠ names then none else tree.get? query :=
  lookup_clear _ _ _

/-- All nodes with their paths, in the order of the paths. -/
def listing (tree : FileTree) : List (String × Node) :=
  (tree.nodes.map fun entry => ("/".intercalate entry.1, entry.2)).mergeSort
    (fun a b => decide (a.1 ≤ b.1))

end FileTree

end BitFont

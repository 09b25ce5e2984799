import BitFont.Files.Error
import BitFont.Files.Path
import BitFont.Files.Tree

/-!
# Working in a file tree by path

A path is walked step by step from the root, and every step but the last needs a directory to
stand in. The operations give the errors of a file system without links or permissions; the
current directory is the root of the tree. An operation that fails half way leaves what it has
done so far.
-/

namespace BitFont.FileTree

/-- A directory of a tree, by the names that lead to it. -/
abbrev Dir (tree : FileTree) := { names : List String // tree.get? names = some .dir }

/-- Walks along steps from a directory to a directory. -/
def walk (tree : FileTree) (here : tree.Dir) : List Step → Except FileError tree.Dir
  | [] => .ok here
  | .stay :: rest => walk tree here rest
  | .up :: rest => walk tree ⟨here.1.dropLast, tree.get?_dropLast here.2⟩ rest
  | .into name :: rest =>
    match found : tree.get? (here.1 ++ [name]) with
    | none => .error .notFound
    | some (.file _) => .error .notADirectory
    | some .dir => walk tree ⟨here.1 ++ [name], found⟩ rest

/-- Where a path leads. -/
inductive Place (tree : FileTree) where
  /-- To a directory, by a last step that names nothing. -/
  | directory (dir : tree.Dir) (last : Option Step)
  /-- To a name in a directory, whether something has it or not. -/
  | named (parent : tree.Dir) (name : String)

/-- Finds the place of a path. The empty path leads nowhere. -/
def locate (tree : FileTree) (path : Path) : Except FileError tree.Place :=
  if path.text = "" then .error .notFound
  else if path.hasNul then .error .invalidName
  else
    match path.steps.getLast? with
    | some (.into name) =>
      (tree.walk ⟨[], rfl⟩ path.steps.dropLast).map fun parent => .named parent name
    | last => (tree.walk ⟨[], rfl⟩ path.steps).map fun dir => .directory dir last

/-- What lies at a path. A slash at the end asks for a directory. -/
def find (tree : FileTree) (path : Path) : Except FileError Node :=
  match tree.locate path with
  | .error error => .error error
  | .ok (.directory ..) => .ok .dir
  | .ok (.named parent name) =>
    match tree.get? (parent.1 ++ [name]) with
    | none => .error .notFound
    | some .dir => .ok .dir
    | some (.file content) =>
      if path.endsInSlash then .error .notADirectory else .ok (.file content)

def isPresent (tree : FileTree) (path : Path) : Bool := (tree.find path).toBool

def isDirectory (tree : FileTree) (path : Path) : Bool :=
  match tree.find path with
  | .ok .dir => true
  | _ => false

def read (tree : FileTree) (path : Path) : Except FileError ByteArray :=
  match tree.find path with
  | .error error => .error error
  | .ok .dir => .error .isADirectory
  | .ok (.file content) => .ok content

/-- Puts content into the file at a path, which is created if nothing has its name. -/
def write (tree : FileTree) (path : Path) (content : ByteArray) : Except FileError FileTree :=
  match tree.locate path with
  | .error error => .error error
  | .ok (.directory ..) => .error .isADirectory
  | .ok (.named parent name) =>
    if path.endsInSlash then .error .isADirectory
    else if free : tree.get? (parent.1 ++ [name]) = some .dir then .error .isADirectory
    else .ok (tree.putFile parent.1 name content parent.2 free)

/-- Makes one directory, where nothing has its name. -/
def makeDirectory (tree : FileTree) (path : Path) : Except FileError FileTree :=
  match tree.locate path with
  | .error error => .error error
  | .ok (.directory ..) => .error .alreadyExists
  | .ok (.named parent name) =>
    match tree.get? (parent.1 ++ [name]) with
    | some _ => .error .alreadyExists
    | none => .ok (tree.addDir parent.1 name parent.2)

def ensureDirectory (tree : FileTree) (path : Path) : Except FileError FileTree :=
  match tree.makeDirectory path with
  | .ok tree => .ok tree
  | .error error => if tree.isDirectory path then .ok tree else .error error

/-- Makes the first of some nested directories, given from the inside out. When its parent is
missing, the ones around it are made first. -/
def makeNested (tree : FileTree) : List Path → Except FileError Unit × FileTree
  | [] => (.ok (), tree)
  | path :: around =>
    match tree.ensureDirectory path with
    | .ok tree => (.ok (), tree)
    | .error .notFound =>
      match tree.makeNested around with
      | (.error error, tree) => (.error error, tree)
      | (.ok (), tree) =>
        match tree.ensureDirectory path with
        | .ok tree => (.ok (), tree)
        | .error error => (.error error, tree)
    | .error error => (.error error, tree)

/-- Makes a directory and all directories around it that are missing. The empty path stands for
the current directory, which is there. -/
def makeDirectories (tree : FileTree) (path : Path) : Except FileError Unit × FileTree :=
  if path.text = "" then (.ok (), tree) else tree.makeNested (path :: path.parents)

/-- Removes a directory and all that it holds. A path that ends in dots has no name that could be
removed: its directory is only emptied, which is an error unless the path led through a name that
went with the content. -/
def removeDirectory (tree : FileTree) (path : Path) : Except FileError Unit × FileTree :=
  match tree.locate path with
  | .error error => (.error error, tree)
  | .ok (.directory dir _) =>
    let emptied := tree.removeBelow dir.1
    match emptied.walk ⟨[], rfl⟩ path.steps.dropLast with
    | .error _ => (.ok (), emptied)
    | .ok _ => (.error .invalidArgument, emptied)
  | .ok (.named parent name) =>
    match tree.get? (parent.1 ++ [name]) with
    | none => (.error .notFound, tree)
    | some (.file _) => (.error .notADirectory, tree)
    | some .dir => (.ok (), tree.remove (parent.1 ++ [name]) (by simp))

end BitFont.FileTree

import BitFont.Files.Access
import BitFont.Host

/-!
# Sessions

A session is a host in memory: a file tree, the bytes of the standard input, and the remarks that
were made so far.
-/

namespace BitFont

/-- Surroundings of the tool as a value. -/
structure Session where
  tree : FileTree := .empty
  input : ByteArray := .empty
  remarks : Array Remark := #[]

namespace Session

/-- Changes the tree by an operation that leaves it as it was when it fails. -/
def change (operation : FileTree → Except FileError FileTree) :
    StateM Session (Except FileError Unit) :=
  modifyGet fun session =>
    match operation session.tree with
    | .ok tree => (.ok (), { session with tree })
    | .error error => (.error error, session)

/-- Changes the tree by an operation that may fail half way. -/
def work (operation : FileTree → Except FileError Unit × FileTree) :
    StateM Session (Except FileError Unit) :=
  modifyGet fun session =>
    let (result, tree) := operation session.tree
    (result, { session with tree })

instance : Host (StateM Session) where
  isPresent path := return (← get).tree.isPresent path
  read path := return (← get).tree.read path
  readInput := modifyGet fun session => (.ok session.input, { session with input := .empty })
  write path content := change fun tree => tree.write path content
  makeDirectories path := work fun tree => tree.makeDirectories path
  removeDirectory path := work fun tree => tree.removeDirectory path
  remark remark := modify fun session => { session with remarks := session.remarks.push remark }

/-- Runs an action in a session. -/
def perform {α : Type} (session : Session) (action : Action (StateM Session) α) :
    Except Failure α × Session :=
  action.run.run session

def notices (session : Session) : List Notice := session.remarks.toList.filterMap Remark.notice?

end Session

end BitFont

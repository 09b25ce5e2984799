import BitFont.Session

/-!
# What actions do in a session

One equation for each action that the tool is built from: the result and the session that it leaves.
A sequence of actions stops at the first failure, with the session that the failed action leaves
(`perform_bind`).
-/

namespace BitFont.Session

variable {α β : Type}

theorem exists_perform_eq_ok {session : Session} {action : Action (StateM Session) α}
    (h : (session.perform action).1.toBool = true) :
    ∃ value after, session.perform action = (.ok value, after) := by
  rcases hrun : session.perform action with ⟨result, after⟩
  rw [hrun] at h
  cases result with
  | error failure => exact absurd h Bool.false_ne_true
  | ok value => exact ⟨value, after, rfl⟩

theorem perform_bind (session : Session) (action : Action (StateM Session) α)
    (next : α → Action (StateM Session) β) :
    session.perform (action >>= next) =
      match session.perform action with
      | (.ok value, after) => after.perform (next value)
      | (.error failure, after) => (.error failure, after) := by
  unfold perform
  rw [ExceptT.run_bind, StateT.run_bind]
  rcases action.run.run session with ⟨result, after⟩
  cases result <;> rfl

theorem perform_bind_of_ok {session after : Session} {action : Action (StateM Session) α}
    {value : α} (h : session.perform action = (.ok value, after)) (next : α → Action (StateM Session) β) :
    session.perform (action >>= next) = after.perform (next value) := by
  rw [perform_bind, h]

theorem perform_bind_of_error {session after : Session} {action : Action (StateM Session) α}
    {failure : Failure} (h : session.perform action = (.error failure, after))
    (next : α → Action (StateM Session) β) :
    session.perform (action >>= next) = (.error failure, after) := by
  rw [perform_bind, h]

theorem perform_forM_nil (session : Session) (each : α → Action (StateM Session) Unit) :
    session.perform ([].forM each) = (.ok (), session) := rfl

theorem perform_forM_cons (session : Session) (item : α) (rest : List α)
    (each : α → Action (StateM Session) Unit) :
    session.perform ((item :: rest).forM each) =
      session.perform (each item >>= fun _ => rest.forM each) := rfl

theorem perform_attempt (session : Session) (fails : FileError → Failure)
    (effect : StateM Session (Except FileError α)) :
    session.perform (Action.attempt fails effect) =
      ((effect.run session).1.mapError fails, (effect.run session).2) := by
  unfold perform Action.attempt
  show (effect >>= _).run session = _
  rw [StateT.run_bind]
  rcases effect.run session with ⟨result, after⟩
  cases result <;> rfl

theorem perform_notify (session : Session) (notice : Notice) :
    session.perform (Action.notify notice) =
      (.ok (), { session with remarks := session.remarks.push (.notice notice) }) := rfl

theorem perform_isPresent (session : Session) (path : Path) :
    session.perform (ExceptT.lift (Host.isPresent path)) =
      (.ok (session.tree.isPresent path), session) := rfl

theorem perform_readText (session : Session) (path : Path) :
    session.perform (Action.readText path) =
      ((Action.decodeText (session.tree.read path)).mapError (.unreadable path), session) := by
  rw [Action.readText, perform_attempt]
  rfl

theorem perform_removeDirectory (session : Session) (fails : FileError → Failure) (path : Path) :
    session.perform (Action.attempt fails (Host.removeDirectory path)) =
      ((session.tree.removeDirectory path).1.mapError fails,
        { session with tree := (session.tree.removeDirectory path).2 }) := by
  rw [perform_attempt]
  rfl

theorem perform_makeDirectories (session : Session) (path : Path) :
    session.perform (Action.makeDirectories path) =
      ((session.tree.makeDirectories path).1.mapError (.directoryNotMade path),
        { session with tree := (session.tree.makeDirectories path).2 }) := by
  rw [Action.makeDirectories, perform_attempt]
  rfl

/-- Remarks are kept in order, and change nothing else. -/
theorem run_forM_remark (session : Session) (remarks : List Remark) :
    (remarks.forM Host.remark : StateM Session Unit).run session =
      ((), { session with remarks := session.remarks ++ remarks }) := by
  induction remarks generalizing session with
  | nil =>
    show ((), session) = _
    simp
  | cons remark rest ih =>
    have hstep : ((remark :: rest).forM Host.remark : StateM Session Unit).run session =
        (rest.forM Host.remark : StateM Session Unit).run
          { session with remarks := session.remarks.push remark } := rfl
    have hremarks : session.remarks.push remark ++ rest = session.remarks ++ (remark :: rest) := by
      apply Array.ext'
      simp
    rw [hstep, ih, hremarks]

theorem perform_deliver (session : Session) (outcome : Outcome α) :
    session.perform (Action.deliver outcome) =
      (outcome.result, { session with remarks := session.remarks ++ outcome.remarks }) := by
  have hremarks : session.perform (ExceptT.lift (outcome.remarks.forM Host.remark)) =
      (.ok (), { session with remarks := session.remarks ++ outcome.remarks }) := by
    have hrun := run_forM_remark session outcome.remarks
    unfold perform
    rw [ExceptT.run_lift, StateT.run_map, hrun]
    rfl
  rw [Action.deliver, perform_bind_of_ok hremarks]
  rfl

/-! ## Sources -/

/-- The content that a path stands for: the standard input for a dash, and a file otherwise. -/
def content (session : Session) (path : Path) : Except FileError ByteArray :=
  if Source.isInput path then .ok session.input else session.tree.read path

/-- Reading a source uses the standard input up, and changes nothing else. -/
def afterReading (session : Session) (path : Path) : Session :=
  if Source.isInput path then { session with input := .empty } else session

theorem tree_afterReading (session : Session) (path : Path) :
    (session.afterReading path).tree = session.tree := by
  unfold afterReading
  split <;> rfl

/-- The name and the words of a failure, by the path that is read. -/
def readFailure (path : Path) : FileError → Failure :=
  if Source.isInput path then .inputUnreadable else .unreadable path

def sourceName (path : Path) : String := if Source.isInput path then Source.inputName else path.text

theorem perform_readInput (session : Session) :
    session.perform Source.readInput =
      (((Action.decodeText (.ok session.input)).mapError .inputUnreadable).map
          fun text => { name := Source.inputName, text },
        { session with input := .empty }) := by
  have hread : (Action.decodeText <$> Host.readInput : StateM Session _).run session =
      (Action.decodeText (.ok session.input), { session with input := .empty }) := rfl
  rw [Source.readInput, perform_bind, perform_attempt, hread]
  cases Action.decodeText (.ok session.input) <;> rfl

theorem perform_read (session : Session) (path : Path) :
    session.perform (Source.read (some path)) =
      (((Action.decodeText (session.content path)).mapError (readFailure path)).map
          fun text => { name := sourceName path, text },
        session.afterReading path) := by
  unfold Source.read content afterReading readFailure sourceName
  by_cases hinput : Source.isInput path = true
  · simp only [hinput, if_true]
    exact perform_readInput session
  · simp only [hinput, Bool.false_eq_true, if_false]
    rw [perform_bind, perform_readText]
    cases Action.decodeText (session.tree.read path) <;> rfl

/-- What begins with reading a source goes on with its text. -/
theorem perform_read_bind (session : Session) (path : Path)
    (next : Source → Action (StateM Session) α) :
    session.perform (Source.read (some path) >>= next) =
      match Action.decodeText (session.content path) with
      | .error error => (.error (readFailure path error), session.afterReading path)
      | .ok text => (session.afterReading path).perform (next { name := sourceName path, text }) := by
  rw [perform_bind, perform_read]
  cases Action.decodeText (session.content path) <;> rfl

end BitFont.Session

import BitFont.Command.Run
import BitFont.Proofs.Command.Parts
import BitFont.Proofs.Session.Generating
import BitFont.Proofs.Session.Writing

/-!
# Where output goes

A command that generates an artifact reads its input and compiles it before it opens anything for
writing. So a path for the output changes where the text goes and nothing else: the text is what the
same command has for the standard output on the same tree, also when the output replaces the input
(`ofArguments_generate`).
-/

namespace BitFont

namespace Session

/-! ## Writing -/

/-- A failure comes before anything is written. -/
theorem perform_runGenerate_of_error {session : Session} {artifact : Artifact}
    {input : Option Path} {settings : Settings} {failure : Failure}
    (h : session.generated input artifact settings = .error failure) (output : Option Path) :
    ∃ after, session.perform (Command.runGenerate artifact input output settings) =
      (.error failure, after) ∧ after.tree = session.tree := by
  obtain ⟨after, hafter, htree⟩ :=
    session.perform_readAndGenerate_generated input artifact settings
  rw [h] at hafter
  refine ⟨after, ?_, htree⟩
  unfold Command.runGenerate
  exact perform_bind_of_error hafter _

theorem perform_runGenerate_none (session : Session) (artifact : Artifact) (input : Option Path)
    (settings : Settings) :
    ∃ after, session.perform (Command.runGenerate artifact input none settings) =
      (session.generated input artifact settings, after) ∧ after.tree = session.tree := by
  obtain ⟨after, hafter, htree⟩ :=
    session.perform_readAndGenerate_generated input artifact settings
  refine ⟨after, ?_, htree⟩
  unfold Command.runGenerate
  rw [perform_bind, hafter]
  cases session.generated input artifact settings <;> rfl

/-- With a path, the text is in the file at the path in the end, or no file has changed. -/
theorem perform_runGenerate_some (session : Session) (artifact : Artifact) (input : Option Path)
    (path : Path) (settings : Settings) :
    (∃ text after, session.generated input artifact settings = .ok text ∧
        session.perform (Command.runGenerate artifact input (some path) settings) = (.ok "", after) ∧
        after.tree.read path = .ok text.toUTF8 ∧
        ∀ names, names ≠ path.names → ∀ content,
          after.tree.get? names = some (.file content) ↔
            session.tree.get? names = some (.file content)) ∨
      ∃ failure after,
        session.perform (Command.runGenerate artifact input (some path) settings) =
          (.error failure, after) ∧ session.tree.SameFiles after.tree := by
  cases hgenerated : session.generated input artifact settings with
  | error failure =>
    obtain ⟨after, hafter, htree⟩ := perform_runGenerate_of_error hgenerated (some path)
    refine .inr ⟨failure, after, hafter, ?_⟩
    rw [htree]
    exact .refl session.tree
  | ok text =>
    obtain ⟨between, hbetween, htree⟩ :=
      session.perform_readAndGenerate_generated input artifact settings
    rw [hgenerated] at hbetween
    unfold Command.runGenerate
    rw [perform_bind_of_ok hbetween]
    dsimp only
    rw [Plan.writeOut, perform_bind, perform_bind_of_ok (between.perform_notify _), ← htree]
    cases hwritten : Session.perform _ (Action.writeText path text) with
    | mk result after =>
      cases result with
      | ok value =>
        obtain ⟨hread, hfiles⟩ := read_of_perform_writeText hwritten
        exact .inl ⟨text, after, rfl, rfl, hread, hfiles⟩
      | error failure =>
        have hfiles := sameFiles_of_perform_writeText hwritten
        exact .inr ⟨failure, after, rfl, hfiles⟩

/-! ## Denied problems -/

/-- The input is readable, and its text has problems. -/
def HasProblems (session : Session) (input : Option Path) : Prop :=
  ∃ source, (session.perform (Source.read input)).1 = .ok source ∧
    (Compilation.ofText source.text).diagnostics ≠ []

theorem hasProblems_iff {session : Session} {input : Option Path} {source : Source}
    (h : (session.perform (Source.read input)).1 = .ok source) :
    session.HasProblems input ↔ (Compilation.ofText source.text).diagnostics ≠ [] := by
  constructor
  · rintro ⟨other, hother, hdiagnostics⟩
    obtain rfl := Except.ok.inj (h.symm.trans hother)
    exact hdiagnostics
  · exact fun hdiagnostics => ⟨source, h, hdiagnostics⟩

theorem generated_of_hasProblems {session : Session} {input : Option Path} {settings : Settings}
    (h : session.HasProblems input) (hdeny : settings.denyProblems = true) (artifact : Artifact) :
    ∃ failure, session.generated input artifact settings = .error failure := by
  obtain ⟨source, hsource, hdiagnostics⟩ := h
  have hproblems : (Compilation.ofText source.text).hasProblems = true := by
    simpa [Compilation.hasProblems] using hdiagnostics
  unfold generated
  rw [hsource]
  exact ⟨_, source.result_generate_of_denied hdeny hproblems artifact⟩

/-- Without problems it does not matter whether they are denied. -/
theorem perform_readAndGenerate_of_not_hasProblems {session : Session} {input : Option Path}
    (h : ¬ session.HasProblems input) (artifact : Artifact) (settings : Settings) (deny : Bool) :
    session.perform
        (Source.readAndGenerate input artifact { settings with denyProblems := deny }) =
      session.perform (Source.readAndGenerate input artifact settings) := by
  unfold Source.readAndGenerate
  rw [perform_bind, perform_bind]
  cases hread : session.perform (Source.read input) with
  | mk result after =>
    cases result with
    | error failure => rfl
    | ok source =>
      have hnone : (Compilation.ofText source.text).diagnostics = [] := by
        rwa [hasProblems_iff (congrArg Prod.fst hread), not_not] at h
      dsimp only
      rw [source.generate_of_diagnostics_eq_nil hnone]

theorem perform_runGenerate_of_not_hasProblems {session : Session} {input : Option Path}
    (h : ¬ session.HasProblems input) (artifact : Artifact) (output : Option Path)
    (settings : Settings) (deny : Bool) :
    session.perform (Command.runGenerate artifact input output
        { settings with denyProblems := deny }) =
      session.perform (Command.runGenerate artifact input output settings) := by
  unfold Command.runGenerate
  rw [perform_bind, perform_readAndGenerate_of_not_hasProblems h, perform_bind]

end Session

/-! ## Command lines -/

theorem Response.run_of_asked {arguments : List String} {command : Command} {settings : Settings}
    (h : Command.Asked arguments command settings) (session : Session) :
    (Response.ofArguments arguments : StateM Session Response).run session =
      (ofResult (session.perform (command.run settings)).1,
        (session.perform (command.run settings)).2) := by
  obtain ⟨verbosity, harguments⟩ := h
  rw [Response.ofArguments, harguments]
  rfl

/-- What the tool answers to a command line, and the session behind it. -/
def Session.respond (session : Session) (arguments : List String) : Response × Session :=
  (Response.ofArguments arguments : StateM Session Response).run session

namespace Command.Request

variable {request : Request} {arguments : List String} {artifact : Artifact} {session : Session}

/-- The answer to a request for an artifact, next to the answers to parts of the request. -/
structure IsAnswered (request : Request) (artifact : Artifact) (session : Session)
    (answer : Response × Session) : Prop where
  /-- Without an output the tree is left alone, and the text is shown. -/
  shown : request.output? = none → answer.2.tree = session.tree ∧
    answer.1 = Response.ofResult (session.generated request.input? artifact request.settings)
  /-- With an output nothing is shown. Either the output has what is shown to any command line for
  the request without it, and the other files are as they were, or the command fails and all files
  are. -/
  written : ∀ path, request.output? = some path →
    answer.1.output = "" ∧
    (∃ bare, request.withoutOutput.Spells bare) ∧
    ∀ bare, request.withoutOutput.Spells bare →
      (answer.1.code = 0 ∧ (session.respond bare).1.code = 0 ∧
        answer.2.tree.read path = .ok (session.respond bare).1.output.toUTF8 ∧
        ∀ names, names ≠ path.names → ∀ content,
          answer.2.tree.get? names = some (.file content) ↔
            session.tree.get? names = some (.file content)) ∨
      (answer.1.code = 1 ∧ session.tree.SameFiles answer.2.tree)
  /-- An input with problems is refused if problems are denied. -/
  denied : request.denies = true → session.HasProblems request.input? → answer.1.code = 1
  /-- To deny problems makes no difference for any other input. -/
  allowed : request.denies = true → ¬ session.HasProblems request.input? →
    (∃ allowed, request.withoutDenial.Spells allowed) ∧
    ∀ allowed, request.withoutDenial.Spells allowed → answer = session.respond allowed

/-- Without its output a request shows the text of the artifact. -/
theorem respond_withoutOutput (haccepted : request.IsAccepted)
    (hverb : request.verb = .generate artifact) {bare : List String}
    (hbare : request.withoutOutput.Spells bare) :
    (session.respond bare).1 =
      Response.ofResult (session.generated request.input? artifact request.settings) := by
  obtain ⟨after, hafter, -⟩ :=
    session.perform_runGenerate_none artifact request.input? request.settings
  have hasked := asked_withoutOutput haccepted hverb hbare
  have hrespond : session.respond bare = _ := Response.run_of_asked hasked session
  rw [hrespond]
  dsimp only [Command.run]
  rw [hafter]

theorem isAnswered (h : request.Spells arguments) (haccepted : request.IsAccepted)
    (hverb : request.verb = .generate artifact) :
    request.IsAnswered artifact session (session.respond arguments) := by
  have hrespond : session.respond arguments = _ :=
    Response.run_of_asked (asked h haccepted hverb) session
  rw [hrespond]
  dsimp only [Command.run]
  exact {
    shown := by
      intro houtput
      obtain ⟨after, hafter, htree⟩ :=
        session.perform_runGenerate_none artifact request.input? request.settings
      rw [houtput, hafter]
      exact ⟨htree, rfl⟩
    written := by
      intro path houtput
      have hbare := exists_spells_withoutOutput h
      rw [houtput]
      rcases session.perform_runGenerate_some artifact request.input? path request.settings with
        ⟨text, after, hgenerated, hafter, hread, hfiles⟩ | ⟨failure, after, hafter, hfiles⟩
      · rw [hafter]
        refine ⟨rfl, hbare, ?_⟩
        intro bare hspells
        rw [respond_withoutOutput haccepted hverb hspells, hgenerated]
        exact .inl ⟨rfl, rfl, hread, hfiles⟩
      · rw [hafter]
        exact ⟨rfl, hbare, fun _ _ => .inr ⟨rfl, hfiles⟩⟩
    denied := by
      intro hdenies hproblems
      have hfailure : ∃ failure,
          session.generated request.input? artifact request.settings = .error failure :=
        Session.generated_of_hasProblems hproblems hdenies artifact
      obtain ⟨failure, hfailure⟩ := hfailure
      obtain ⟨after, hafter, -⟩ := Session.perform_runGenerate_of_error hfailure request.output?
      rw [hafter]
      rfl
    allowed := by
      intro hdenies hnone
      refine ⟨exists_spells_withoutDenial h, ?_⟩
      intro allowed hallowed
      have hasked := asked_withoutDenial haccepted hverb hallowed
      have hsame : session.respond allowed = _ := Response.run_of_asked hasked session
      rw [hsame]
      dsimp only [Command.run]
      rw [Session.perform_runGenerate_of_not_hasProblems hnone artifact request.output?
        request.settings false] }

end Command.Request

/-- A command line that is read as a command for an artifact is a spelling of a request. Whatever
request it is a spelling of, the request is for that artifact, and is answered as it says. -/
theorem Response.ofArguments_generate {arguments : List String} {artifact : Artifact}
    {input output : Option Path} {settings : Settings} {verbosity : Nat}
    (h : Invocation.ofArguments arguments =
      .ok { command := .generate artifact input output, settings, verbosity })
    (session : Session) :
    (∃ request : Command.Request, request.Spells arguments) ∧
      ∀ request : Command.Request, request.Spells arguments →
        request.verb = .generate artifact ∧
          request.IsAnswered artifact session (session.respond arguments) := by
  refine ⟨Command.Request.exists_of_ofArguments h, ?_⟩
  intro request hrequest
  obtain ⟨hverb, haccepted⟩ := Command.Request.isAccepted_of_ofArguments hrequest h
  exact ⟨hverb, Command.Request.isAnswered hrequest haccepted hverb⟩

/-- The output replaces the input, which has problems or has none, and these are denied or not. -/
theorem Response.ofArguments_generate_in_place :
    let session (text : String) : Session :=
      { tree := FileTree.empty.putFile [] "glyphs" text.toUTF8 rfl (by decide +kernel) }
    let flawed := session "ID t\nDIM 1 8\nX\n"
    let sound := session "ID t\nDIM 1 8\nX\n-\nX\n-\nX\n-\nX\n-\n"
    let arguments := ["--prefix", "F", "header", "-vo", "./glyphs", "glyphs"]
    let bare := ["--prefix=F", "header", "--verbose", "glyphs"]
    (flawed.respond bare).1.output =
        "#ifndef __FS__\n#define __FS__\nenum F \x7b\n    F_t                  = 0,\n" ++
        "    F_t_WIDTH            = 1,\n    F_t_HEIGHT           = 8,\n" ++
        "    F_t_OFFSET           = 0,\n    F_t_SIZE             = 2,\n" ++
        "    F_NUM                = 1\n\x7d;\n#endif // __FS__\n" ∧
      (flawed.respond bare).2.tree = flawed.tree ∧
      (flawed.respond arguments).1.output = "" ∧
      (flawed.respond arguments).2.tree.read ⟨"./glyphs"⟩ =
        .ok (flawed.respond bare).1.output.toUTF8 ∧
      (flawed.respond ("--deny-diagnostics" :: arguments)).1.code = 1 ∧
      sound.respond ("--deny-diagnostics" :: arguments) = sound.respond arguments := by
  intro session flawed sound arguments bare
  let request : Command.Request :=
    { verb := .generate .header
      before := [.stem "F"]
      behind := [.verbose, .output "./glyphs", .operand "glyphs"] }
  let denying : Command.Request := { request with before := [.denyProblems, .stem "F"] }
  have hread : Invocation.ofArguments arguments =
      .ok { command := .generate .header (some ⟨"glyphs"⟩) (some ⟨"./glyphs"⟩)
            settings := { naming := ⟨"F"⟩ }
            verbosity := 1 } := by
    decide +kernel
  have hdenying : Invocation.ofArguments ("--deny-diagnostics" :: arguments) =
      .ok { command := .generate .header (some ⟨"glyphs"⟩) (some ⟨"./glyphs"⟩)
            settings := { naming := ⟨"F"⟩, denyProblems := true }
            verbosity := 1 } := by
    decide +kernel
  have hbare : Invocation.ofArguments bare =
      .ok { command := .generate .header (some ⟨"glyphs"⟩) none
            settings := { naming := ⟨"F"⟩ }
            verbosity := 1 } := by
    decide +kernel
  have hbehind : Command.SpellsBehind request.behind ["-vo", "./glyphs", "glyphs"] :=
    .option (.letterOutput 1 (by decide)) (.operand (by decide) .nil)
  have hspells : request.Spells arguments :=
    ⟨["--prefix", "F"], _, rfl, .option (.stem (by decide)) .nil, hbehind⟩
  have hspellsDenying : denying.Spells ("--deny-diagnostics" :: arguments) :=
    ⟨["--deny-diagnostics", "--prefix", "F"], _, rfl,
      .option .denyProblems (.option (.stem (by decide)) .nil), hbehind⟩
  have hspellsBare : request.withoutOutput.Spells bare :=
    ⟨["--prefix=F"], ["--verbose", "glyphs"], rfl, .option (.stemJoined "F") .nil,
      .option .verbose (.operand (by decide) .nil)⟩
  have hproblems : flawed.HasProblems (some ⟨"glyphs"⟩) := by
    have hsource : (flawed.perform (Source.read (some ⟨"glyphs"⟩))).1 =
        .ok ⟨"glyphs", "ID t\nDIM 1 8\nX\n"⟩ := by
      decide +kernel
    exact (Session.hasProblems_iff hsource).mpr (by decide +kernel)
  have hnone : ¬ sound.HasProblems (some ⟨"glyphs"⟩) := by
    have hsource : (sound.perform (Source.read (some ⟨"glyphs"⟩))).1 =
        .ok ⟨"glyphs", "ID t\nDIM 1 8\nX\n-\nX\n-\nX\n-\nX\n-\n"⟩ := by
      decide +kernel
    rw [Session.hasProblems_iff hsource, not_not]
    decide +kernel
  have hok : (flawed.respond arguments).1.code = 0 := by decide +kernel
  obtain ⟨-, hanswer⟩ := (ofArguments_generate hread flawed).2 request hspells
  obtain ⟨-, hanswerBare⟩ := (ofArguments_generate hbare flawed).2 request.withoutOutput hspellsBare
  obtain ⟨-, hflawed⟩ := (ofArguments_generate hdenying flawed).2 denying hspellsDenying
  obtain ⟨-, hsound⟩ := (ofArguments_generate hdenying sound).2 denying hspellsDenying
  obtain ⟨houtput, -, hwritten⟩ := hanswer.written ⟨"./glyphs"⟩ rfl
  refine ⟨by decide +kernel, (hanswerBare.shown rfl).1, houtput, ?_, hflawed.denied rfl hproblems,
    (hsound.allowed rfl hnone).2 _ hspells⟩
  rcases hwritten bare hspellsBare with ⟨-, -, hcontent, -⟩ | ⟨hfailed, -⟩
  · exact hcontent
  · rw [hok] at hfailed
    contradiction

end BitFont

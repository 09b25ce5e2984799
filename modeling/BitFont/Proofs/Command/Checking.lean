import BitFont.Proofs.Artifact.Sheets
import BitFont.Proofs.Command.Output
import BitFont.Proofs.Plan.Failing

/-!
# Checking and generating

A check, the two artifacts and the entries of plans go different ways to the same font: each reads a
path, compiles the text and gives up or goes on with the font (`Session.compiled?`). So they end
well together, and the numbers of a check are those of the generated sources
(`Response.ofArguments_check`).
-/

namespace BitFont

/-! ## Reading and compiling -/

/-- What is shown to the author of a text. -/
def Remark.report? : Remark → Option Report
  | .notice _ => none
  | .report told => some told

namespace Session

def reports (session : Session) : List Report := session.remarks.toList.filterMap Remark.report?

/-- The content that a path stands for is a text. -/
def Reads (session : Session) (path : Path) (text : String) : Prop :=
  ∃ bytes, session.content path = .ok bytes ∧ String.fromUTF8? bytes = some text

/-- The font of what a path stands for, if that is a text. A text with problems has none where these
are denied. -/
def compiled? (session : Session) (path : Path) (deny : Bool) : Option Compilation :=
  match Action.decodeText (session.content path) with
  | .error _ => none
  | .ok text =>
    if deny && (Compilation.ofText text).hasProblems then none else some (Compilation.ofText text)

theorem reads_iff {session : Session} {path : Path} {text : String} :
    session.Reads path text ↔ Action.decodeText (session.content path) = .ok text := by
  unfold Reads
  cases session.content path with
  | error error => simp [Action.decodeText]
  | ok bytes =>
    cases htext : String.fromUTF8? bytes with
    | none => simp [Action.decodeText, htext]
    | some other => simp [Action.decodeText, htext]

theorem compiled?_of_reads {session : Session} {path : Path} {text : String}
    (h : session.Reads path text) (deny : Bool) :
    session.compiled? path deny =
      if deny && (Compilation.ofText text).hasProblems then none
      else some (Compilation.ofText text) := by
  rw [compiled?, reads_iff.mp h]

theorem exists_of_compiled? {session : Session} {path : Path} {deny : Bool} {font : Compilation}
    (h : session.compiled? path deny = some font) :
    ∃ text, session.Reads path text ∧ font = Compilation.ofText text := by
  unfold compiled? at h
  split at h
  · contradiction
  · rename_i text htext
    split at h
    · contradiction
    · exact ⟨text, reads_iff.mpr htext, (Option.some.inj h).symm⟩

/-- What is compiled although problems are denied is compiled otherwise, too. -/
theorem compiled?_false_of_true {session : Session} {path : Path} {font : Compilation}
    (h : session.compiled? path true = some font) : session.compiled? path false = some font := by
  obtain ⟨text, htext, rfl⟩ := exists_of_compiled? h
  rw [compiled?_of_reads htext]
  rfl

end Session

namespace Source

theorem result_compile (source : Source) (settings : Settings) :
    (source.compile settings).result.toOption =
      if settings.denyProblems && (Compilation.ofText source.text).hasProblems then none
      else some (Compilation.ofText source.text) := by
  unfold compile
  dsimp only
  split <;> rfl

/-- Generating is compiling and one step more. -/
theorem result_generate_eq_map (source : Source) (artifact : Artifact) (settings : Settings) :
    (source.generate artifact settings).result =
      (source.compile settings).result.map (artifact.generate settings.naming) := by
  unfold generate
  dsimp only
  cases (source.compile settings).result <;> rfl

theorem filterMap_report?_compile (source : Source) (settings : Settings) :
    (source.compile settings).remarks.filterMap Remark.report? =
      source.reports (Compilation.ofText source.text) settings.severity := by
  have hnotices (notices : List Notice) :
      (notices.map Remark.notice).filterMap Remark.report? = [] := by
    rw [List.filterMap_map]
    exact List.filterMap_eq_nil_iff.mpr fun _ _ => rfl
  have hreports (reports : List Report) :
      (reports.map Remark.report).filterMap Remark.report? = reports := by
    rw [List.filterMap_map]
    exact List.filterMap_some
  unfold compile
  dsimp only
  rw [List.filterMap_append, hnotices, hreports, List.nil_append]

end Source

theorem toOption_eq_some_iff {α : Type} {result : Except Failure α} {value : α} :
    result.toOption = some value ↔ result = .ok value := by
  cases result <;> simp [Except.toOption]

theorem toOption_map {α β : Type} (result : Except Failure α) (f : α → β) :
    (result.map f).toOption = result.toOption.map f := by
  cases result <;> rfl

namespace Session

theorem toOption_readAndGenerate (session : Session) (path : Path) (artifact : Artifact)
    (settings : Settings) :
    (session.perform (Source.readAndGenerate (some path) artifact settings)).1.toOption =
      (session.compiled? path settings.denyProblems).map (artifact.generate settings.naming) := by
  rw [perform_readAndGenerate_eq, compiled?]
  cases Action.decodeText (session.content path) with
  | error error => rfl
  | ok text =>
    dsimp only
    rw [Source.result_generate_eq_map, toOption_map, Source.result_compile]

theorem perform_runCheck (session : Session) (path : Path) (settings : Settings) :
    session.perform (Command.runCheck (some path) settings) =
      match Action.decodeText (session.content path) with
      | .error error => (.error (readFailure path error), session.afterReading path)
      | .ok text =>
        let source : Source := { name := sourceName path, text }
        ((source.compile settings).result.map (Command.summary source.name),
          { session.afterReading path with
            remarks := (session.afterReading path).remarks ++
              (source.compile settings).remarks }) := by
  unfold Command.runCheck
  rw [perform_read_bind]
  cases Action.decodeText (session.content path) with
  | error error => rfl
  | ok text =>
    dsimp only
    rw [perform_bind, perform_deliver]
    cases (Source.compile { name := sourceName path, text } settings).result <;> rfl

theorem toOption_runCheck (session : Session) (path : Path) (settings : Settings) :
    (session.perform (Command.runCheck (some path) settings)).1.toOption =
      (session.compiled? path settings.denyProblems).map
        (Command.summary (sourceName path)) := by
  rw [perform_runCheck, compiled?]
  cases Action.decodeText (session.content path) with
  | error error => rfl
  | ok text =>
    dsimp only
    rw [toOption_map, Source.result_compile]

theorem reports_perform_runCheck {session : Session} {path : Path} {text : String}
    (h : session.Reads path text) (settings : Settings) :
    (session.perform (Command.runCheck (some path) settings)).2.reports =
      session.reports ++
        Source.reports { name := sourceName path, text } (Compilation.ofText text)
          settings.severity := by
  have hremarks : (session.afterReading path).remarks = session.remarks := by
    unfold afterReading
    split <;> rfl
  rw [perform_runCheck, reads_iff.mp h]
  dsimp only [reports]
  rw [hremarks, Array.toList_appendList, List.filterMap_append, Source.filterMap_report?_compile]

theorem toOption_runGenerate (session : Session) (artifact : Artifact) (path : Path)
    (settings : Settings) :
    (session.perform (Command.runGenerate artifact (some path) none settings)).1.toOption =
      (session.compiled? path settings.denyProblems).map (artifact.generate settings.naming) := by
  obtain ⟨after, hafter, -⟩ := session.perform_runGenerate_none artifact (some path) settings
  obtain ⟨between, hbetween, -⟩ :=
    session.perform_readAndGenerate_generated (some path) artifact settings
  rw [hafter, ← toOption_readAndGenerate, hbetween]

theorem toOption_generate (session : Session) (entry : Plan.Entry) (settings : Settings) :
    (session.perform (entry.generate settings)).1.toOption =
      (session.compiled? entry.source settings.denyProblems).map
        (entry.artifact.generate ⟨entry.stem.getD settings.naming.stem⟩) := by
  have hnaming : (entry.settings settings).naming = ⟨entry.stem.getD settings.naming.stem⟩ := by
    unfold Plan.Entry.settings
    cases entry.stem <;> rfl
  rw [← hnaming, ← entry.denyProblems_settings settings]
  exact session.toOption_readAndGenerate entry.source entry.artifact (entry.settings settings)

end Session

/-! ## Answers -/

namespace Response

/-- The output of a command that ends well. -/
def output? (response : Response) : Option String :=
  if response.code = 0 then some response.output else none

theorem output?_ofResult (result : Except Failure String) :
    (ofResult result).output? = result.toOption := by
  cases result <;> rfl

theorem output?_eq_some_iff {response : Response} {output : String} :
    response.output? = some output ↔ response.code = 0 ∧ response.output = output := by
  unfold output?
  split <;> simp_all

/-- A command that makes its output of a font ends well if there is one. -/
theorem code_eq_zero_iff {response : Response} {font? : Option Compilation}
    {write : Compilation → String} (h : response.output? = font?.map write) :
    response.code = 0 ↔ ∃ font, font? = some font := by
  unfold output? at h
  split at h
  · rename_i hcode
    obtain ⟨font, hfont, -⟩ := Option.map_eq_some_iff.mp h.symm
    simp only [hcode, hfont, Option.some.injEq, exists_eq']
  · rename_i hcode
    have hnone := Option.map_eq_none_iff.mp h.symm
    simp only [hcode, hnone, reduceCtorEq, exists_false]

theorem output_of_eq_some {response : Response} {font? : Option Compilation}
    {write : Compilation → String} (h : response.output? = font?.map write) {font : Compilation}
    (hfont : font? = some font) : response.output = write font := by
  rw [hfont, Option.map_some, output?_eq_some_iff] at h
  exact h.2

end Response

/-! ## Command lines -/

namespace Command

/-- A command line for a command that takes an input. -/
def line (verb : Verb) (settings : Settings) (path : Path) : List String :=
  (if settings.denyProblems then ["--deny-diagnostics"] else []) ++
    ["--prefix=" ++ settings.naming.stem, verb.name, "--", path.text]

/-- What a command line for an input is a spelling of. -/
def lineRequest (verb : Verb) (settings : Settings) (path : Path) : Request :=
  { verb
    before := (if settings.denyProblems then [.denyProblems] else []) ++
      [.stem settings.naming.stem]
    behind := [.operand path.text] }

theorem spells_line (verb : Verb) (settings : Settings) (path : Path) :
    (lineRequest verb settings path).Spells (line verb settings path) := by
  have hstem : SpellsFront [.stem settings.naming.stem] ["--prefix=" ++ settings.naming.stem] :=
    .option (.stemJoined _) .nil
  have hbehind : SpellsBehind [.operand path.text] ["--", path.text] := .escape [path.text]
  unfold line lineRequest
  cases settings.denyProblems with
  | false => exact ⟨_, _, rfl, hstem, hbehind⟩
  | true => exact ⟨_, _, rfl, .option .denyProblems hstem, hbehind⟩

/-- Whatever the stem is and whatever the path begins with, there is a command line for them. -/
theorem asked_line {verb : Verb} {settings : Settings} {path : Path} (h : path.text ≠ "")
    {command : Command} (hcommand : ofGiven verb { operands := #[path.text] } = .ok command) :
    Asked (line verb settings path) command settings := by
  have hbefore : Given.takeAll? toolFlags {} (lineRequest verb settings path).before =
      some { stem := some settings.naming.stem, denyProblems := settings.denyProblems } := by
    unfold lineRequest
    cases settings.denyProblems <;> rfl
  have hbehind : Given.takeAll? (verbFlags verb) {} (lineRequest verb settings path).behind =
      some { operands := #[path.text] } := by
    rw [lineRequest, Given.takeAll?_singleton, Given.take?_eq_some_iff]
    exact ⟨h, rfl⟩
  refine ⟨0, (Request.ofArguments_eq_ok_iff (spells_line verb settings path)).mpr ?_⟩
  refine ⟨_, _, command, hbefore, hbehind, hcommand, ?_⟩
  rw [Given.settings, Bool.or_false]
  rfl

theorem asked_check {path : Path} (h : path.text ≠ "") (settings : Settings) :
    Asked (line .check settings path) (.check (some path)) settings := asked_line h rfl

theorem asked_generate {path : Path} (h : path.text ≠ "") (artifact : Artifact)
    (settings : Settings) :
    Asked (line (.generate artifact) settings path) (.generate artifact (some path) none)
      settings := asked_line h rfl

end Command

/-! ## Numbers -/

/-- The line of a check. -/
def Command.tally (name : String) (glyphs bytes problems : Nat) : String :=
  s!"{name}: {glyphs} glyphs, {bytes} bytes of data, {problems} problem(s)\n"

theorem Command.summary_eq_tally {font : Compilation} (hfont : font.IsLaidOut) (name : String) :
    summary name font =
      tally name font.glyphs.length font.payload.length font.diagnostics.length := by
  rw [summary, tally, hfont.length_layout, hfont.totalSize]
  simp only [String.append_assoc]

theorem Header.exists_generate_eq {font : Compilation} (hfont : font.IsLaidOut) (naming : Naming) :
    ∃ front, Artifact.header.generate naming font =
      Listing.text (front ++
        [ enumeratorLine { name := s!"{naming.stem}_NUM", value := font.glyphs.length },
          "\x7d;",
          s!"#endif // {naming.guardName}" ]) := by
  rw [← hfont.length_layout]
  exact ⟨_, rfl⟩

/-! ## Agreement -/

/-- What the commands for one input have in common with each other, whether or not problems are
denied, and with the entries of plans that have this input for a source. -/
structure CommandsAgree (session : Session) (path : Path) (naming : Naming)
    (checked : Bool → Response × Session) (generated : Artifact → Bool → Response × Session) :
    Prop where
  /-- Both artifacts are generated where a check ends well. -/
  together : ∀ deny artifact, (generated artifact deny).1.code = 0 ↔ (checked deny).1.code = 0
  /-- So is every entry of a plan, whatever its stem and its target are. -/
  entries : ∀ (entry : Plan.Entry) (run : Settings), entry.source = path →
    ((∃ text, (session.perform (entry.generate run)).1 = .ok text) ↔
      (checked run.denyProblems).1.code = 0)
  /-- An input that is a text is refused for nothing but problems, and only if these are denied. -/
  refused : ∀ deny text, session.Reads path text →
    ((checked deny).1.code ≠ 0 ↔ deny = true ∧ (Compilation.ofText text).diagnostics ≠ [])
  /-- The numbers of a check are those of the generated sources and of its own reports. -/
  numbers : ∀ deny, (checked deny).1.code = 0 → ∃ text glyphs bytes problems front sheet,
    session.Reads path text ∧
    (checked deny).1.output = Command.tally (Session.sourceName path) glyphs bytes problems ∧
    (generated .header deny).1.output =
      Listing.text (front ++
        [ Header.enumeratorLine { name := s!"{naming.stem}_NUM", value := glyphs },
          "\x7d;",
          s!"#endif // {naming.guardName}" ]) ∧
    (generated .data deny).1.output = Listing.text (Sheet.lines naming glyphs bytes sheet) ∧
    sheet.Fills naming (Compilation.ofText text) ∧
    sheet.bytes.length = bytes ∧
    (checked deny).2.reports.length = session.reports.length + problems
  /-- The text of an entry is what the command for its artifact has for the standard output, if the
  stem of the entry or else that of the run is the stem of the command. -/
  texts : ∀ (entry : Plan.Entry) (run : Settings) (text : String), entry.source = path →
    entry.stem.getD run.naming.stem = naming.stem →
    ((session.perform (entry.generate run)).1 = .ok text ↔
      (generated entry.artifact run.denyProblems).1.code = 0 ∧
        (generated entry.artifact run.denyProblems).1.output = text)
  /-- To deny problems does not change the output of a command that ends well. -/
  allowed : ∀ artifact, (generated artifact true).1.code = 0 →
    (generated artifact false).1.code = 0 ∧
      (generated artifact false).1.output = (generated artifact true).1.output

/-- Commands agree if each of them makes its output of the same font. -/
theorem commandsAgree_of_output? {session : Session} {path : Path} {naming : Naming}
    {checked : Bool → Response × Session} {generated : Artifact → Bool → Response × Session}
    (hchecked : ∀ deny, (checked deny).1.output? =
      (session.compiled? path deny).map (Command.summary (Session.sourceName path)))
    (hgenerated : ∀ artifact deny, (generated artifact deny).1.output? =
      (session.compiled? path deny).map (artifact.generate naming))
    (hreports : ∀ deny text, session.Reads path text →
      (checked deny).2.reports.length =
        session.reports.length + (Compilation.ofText text).diagnostics.length) :
    CommandsAgree session path naming checked generated where
  together := by
    intro deny artifact
    rw [Response.code_eq_zero_iff (hchecked deny),
      Response.code_eq_zero_iff (hgenerated artifact deny)]
  entries := by
    rintro entry run rfl
    rw [Response.code_eq_zero_iff (hchecked run.denyProblems)]
    simp only [← toOption_eq_some_iff, session.toOption_generate, Option.map_eq_some_iff]
    constructor
    · rintro ⟨text, font, hfont, -⟩
      exact ⟨font, hfont⟩
    · rintro ⟨font, hfont⟩
      exact ⟨_, font, hfont, rfl⟩
  refused := by
    intro deny text htext
    rw [ne_eq, Response.code_eq_zero_iff (hchecked deny), Session.compiled?_of_reads htext,
      Compilation.hasProblems]
    cases deny <;> simp
  numbers := by
    intro deny hcode
    obtain ⟨font, hfont⟩ := (Response.code_eq_zero_iff (hchecked deny)).mp hcode
    obtain ⟨text, htext, rfl⟩ := Session.exists_of_compiled? hfont
    have hlaid := Compilation.isLaidOut_ofText text
    have hfills := Data.fills_sheet naming text
    obtain ⟨front, hfront⟩ := Header.exists_generate_eq hlaid naming
    refine ⟨text, (Compilation.ofText text).glyphs.length, (Compilation.ofText text).payload.length,
      (Compilation.ofText text).diagnostics.length, front,
      Data.sheet naming (Compilation.ofText text), htext, ?_, ?_, ?_, hfills, ?_, hreports deny text htext⟩
    · rw [Response.output_of_eq_some (hchecked deny) hfont, Command.summary_eq_tally hlaid]
    · rw [Response.output_of_eq_some (hgenerated .header deny) hfont, hfront]
    · rw [Response.output_of_eq_some (hgenerated .data deny) hfont, ← Data.lines_eq_lines_sheet]
      rfl
    · rw [hfills.bytes, Listing.length_commaSeparated, List.length_map]
  texts := by
    rintro entry run text rfl hstem
    have hentry := session.toOption_generate entry run
    rw [hstem] at hentry
    rw [← Response.output?_eq_some_iff, hgenerated, ← hentry, toOption_eq_some_iff]
  allowed := by
    intro artifact hcode
    obtain ⟨font, hfont⟩ := (Response.code_eq_zero_iff (hgenerated artifact true)).mp hcode
    have hallowed := Session.compiled?_false_of_true hfont
    rw [Response.code_eq_zero_iff (hgenerated artifact false),
      Response.output_of_eq_some (hgenerated artifact false) hallowed,
      Response.output_of_eq_some (hgenerated artifact true) hfont]
    exact ⟨⟨font, hallowed⟩, rfl⟩

/-- Whatever the tree holds at a path, the commands for this path agree. -/
theorem Response.ofArguments_check {path : Path} {naming : Naming}
    {checking : Bool → List String} {generating : Artifact → Bool → List String}
    (hcheck : ∀ deny, Command.Asked (checking deny) (.check (some path))
      { naming, denyProblems := deny })
    (hgenerate : ∀ artifact deny, Command.Asked (generating artifact deny)
      (.generate artifact (some path) none) { naming, denyProblems := deny })
    (session : Session) :
    CommandsAgree session path naming
      (fun deny => (Response.ofArguments (checking deny) : StateM Session Response).run session)
      (fun artifact deny =>
        (Response.ofArguments (generating artifact deny) : StateM Session Response).run
          session) := by
  have hchecked (deny : Bool) :
      ((Response.ofArguments (checking deny) : StateM Session Response).run session).1.output? =
        (session.compiled? path deny).map (Command.summary (Session.sourceName path)) := by
    rw [run_of_asked (hcheck deny), output?_ofResult]
    exact session.toOption_runCheck path _
  have hgenerated (artifact : Artifact) (deny : Bool) :
      ((Response.ofArguments (generating artifact deny) :
        StateM Session Response).run session).1.output? =
        (session.compiled? path deny).map (artifact.generate naming) := by
    rw [run_of_asked (hgenerate artifact deny), output?_ofResult]
    exact session.toOption_runGenerate artifact path _
  refine commandsAgree_of_output? hchecked hgenerated ?_
  intro deny text htext
  have hreports := Session.reports_perform_runCheck htext { naming, denyProblems := deny }
  rw [run_of_asked (hcheck deny)]
  dsimp only [Command.run]
  rw [hreports, List.length_append, Source.reports, List.length_map]

/-- The input has problems, which are denied or not. -/
theorem Response.ofArguments_check_problems :
    let text := "ID a\nDIM 3 8\n- X\nX\nID b\nDIM 2\n"
    let files := FileTree.empty.putFile [] "g" text.toUTF8 rfl (by decide +kernel)
    let session : Session := { tree := files }
    let respond (verb : Command.Verb) (deny : Bool) : Response × Session :=
      (Response.ofArguments
        (Command.line verb { naming := ⟨"-B"⟩, denyProblems := deny } ⟨"./g"⟩) :
          StateM Session Response).run session
    CommandsAgree session ⟨"./g"⟩ ⟨"-B"⟩ (respond .check)
        (fun artifact => respond (.generate artifact)) ∧
      (respond .check false).1 =
        { code := 0, output := "./g: 2 glyphs, 5 bytes of data, 5 problem(s)\n" } ∧
      (respond .check true).1.code = 1 := by
  intro text files session respond
  have hpath : (⟨"./g"⟩ : Path).text ≠ "" := by decide
  have hcheck (deny : Bool) :=
    Command.asked_check hpath { naming := ⟨"-B"⟩, denyProblems := deny }
  have hgenerate (artifact : Artifact) (deny : Bool) :=
    Command.asked_generate hpath artifact { naming := ⟨"-B"⟩, denyProblems := deny }
  have hagree := Response.ofArguments_check hcheck hgenerate session
  exact ⟨hagree, by decide +kernel, by decide +kernel⟩

end BitFont

import BitFont.Proofs.Session.Performing

/-!
# Generating in a session

Generating an artifact reads its source, makes remarks and changes nothing else. It fails exactly if
the content of the source cannot be used (`perform_readAndGenerate`).
-/

namespace BitFont

namespace Source

/-- What cannot be generated from: a source that is missing or unreadable, one that is not UTF-8,
and one with problems where these are denied. -/
inductive Unusable (settings : Settings) : Except FileError ByteArray → Prop
  | unreadable (error : FileError) : Unusable settings (.error error)
  | notText {bytes : ByteArray} (h : String.fromUTF8? bytes = none) :
      Unusable settings (.ok bytes)
  | denied {bytes : ByteArray} {text : String} (htext : String.fromUTF8? bytes = some text)
      (hdeny : settings.denyProblems = true)
      (hproblems : (Definitions.ofText text).diagnostics ≠ #[]) : Unusable settings (.ok bytes)

theorem Unusable.of_denyProblems_eq {settings other : Settings}
    (hdeny : settings.denyProblems = other.denyProblems) {content : Except FileError ByteArray}
    (h : Unusable settings content) : Unusable other content := by
  cases h with
  | unreadable error => exact .unreadable error
  | notText hnone => exact .notText hnone
  | denied htext hdenied hproblems => exact .denied htext (hdeny ▸ hdenied) hproblems

theorem hasProblems_eq_true_iff (text : String) :
    (Compilation.ofText text).hasProblems = true ↔ (Definitions.ofText text).diagnostics ≠ #[] := by
  rw [Compilation.hasProblems, Compilation.ofText, Compilation.ofDefinitions, Array.isEmpty_toList,
    Bool.not_eq_true', Array.isEmpty_eq_false_iff]

theorem result_generate_of_denied (source : Source) {settings : Settings}
    (hdeny : settings.denyProblems = true)
    (hproblems : (Compilation.ofText source.text).hasProblems = true) (artifact : Artifact) :
    (source.generate artifact settings).result =
      .error (.problems (Compilation.ofText source.text).diagnostics.length source.name) := by
  have hdenied :
      (settings.denyProblems && (Compilation.ofText source.text).hasProblems) = true := by
    rw [hdeny, hproblems]
    rfl
  simp only [generate, compile, hdenied, if_true]

theorem result_generate (source : Source) {settings : Settings}
    (h : ¬ (settings.denyProblems = true ∧ (Compilation.ofText source.text).hasProblems = true))
    (artifact : Artifact) :
    (source.generate artifact settings).result =
      .ok (artifact.generate settings.naming (Compilation.ofText source.text)) := by
  rw [← Bool.and_eq_true] at h
  simp only [generate, compile, h, Bool.false_eq_true, if_false]

/-- Generating from text makes the artifact, unless the text has problems and these are denied. -/
theorem result_generate_cases (source : Source) (settings : Settings) (artifact : Artifact)
    {bytes : ByteArray} (htext : String.fromUTF8? bytes = some source.text) :
    (Unusable settings (.ok bytes) ∧
        ∃ failure, (source.generate artifact settings).result = .error failure) ∨
      (¬ Unusable settings (.ok bytes) ∧
        (source.generate artifact settings).result =
          .ok (artifact.generate settings.naming (Compilation.ofText source.text))) := by
  by_cases hdenied : settings.denyProblems = true ∧
      (Compilation.ofText source.text).hasProblems = true
  · have hproblems := (hasProblems_eq_true_iff source.text).mp hdenied.2
    exact .inl ⟨.denied htext hdenied.1 hproblems, _,
      source.result_generate_of_denied hdenied.1 hdenied.2 artifact⟩
  · refine .inr ⟨?_, source.result_generate hdenied artifact⟩
    intro hunusable
    cases hunusable with
    | notText hnone =>
      rw [htext] at hnone
      contradiction
    | denied hsome hdeny hproblems =>
      obtain rfl := Option.some.inj (htext.symm.trans hsome)
      exact hdenied ⟨hdeny, (hasProblems_eq_true_iff source.text).mpr hproblems⟩

theorem read_none {m : Type → Type} [Monad m] [Host m] :
    (read none : Action m Source) = read (some ⟨"-"⟩) := by
  unfold read
  dsimp only
  rw [if_pos (by decide +kernel)]

/-- Whether problems are denied matters to no text without problems. -/
theorem generate_of_diagnostics_eq_nil (source : Source)
    (h : (Compilation.ofText source.text).diagnostics = []) (artifact : Artifact)
    (settings : Settings) (deny : Bool) :
    source.generate artifact { settings with denyProblems := deny } =
      source.generate artifact settings := by
  have hproblems : (Compilation.ofText source.text).hasProblems = false := by
    rw [Compilation.hasProblems, h]
    rfl
  unfold generate compile reports
  simp only [h, hproblems, Bool.and_false, Bool.false_eq_true, if_false, List.map_nil]

end Source

namespace Session

/-- Reading comes first, and what could be read is compiled and formatted. -/
theorem perform_readAndGenerate_eq (session : Session) (path : Path) (artifact : Artifact)
    (settings : Settings) :
    session.perform (Source.readAndGenerate (some path) artifact settings) =
      match Action.decodeText (session.content path) with
      | .error error => (.error (readFailure path error), session.afterReading path)
      | .ok text =>
        let source : Source := { name := sourceName path, text }
        ((source.generate artifact settings).result,
          { session.afterReading path with
            remarks := (session.afterReading path).remarks ++
              (source.generate artifact settings).remarks }) := by
  unfold Source.readAndGenerate
  rw [perform_read_bind]
  cases Action.decodeText (session.content path) with
  | error error => rfl
  | ok text => exact perform_deliver _ _

/-- Generating from a file either fails on content that cannot be used, or makes the artifact of its
text; the session is that after reading, with some remarks. -/
theorem perform_readAndGenerate_cases (session : Session) (path : Path) (artifact : Artifact)
    (settings : Settings) :
    ∃ result remarks, session.perform (Source.readAndGenerate (some path) artifact settings) =
        (result, { session.afterReading path with remarks }) ∧
      ((Source.Unusable settings (session.content path) ∧ ∃ failure, result = .error failure) ∨
        (¬ Source.Unusable settings (session.content path) ∧
          ∃ bytes text, session.content path = .ok bytes ∧ String.fromUTF8? bytes = some text ∧
            result = .ok (artifact.generate settings.naming (Compilation.ofText text)))) := by
  rw [perform_readAndGenerate_eq]
  cases session.content path with
  | error error => exact ⟨_, _, rfl, .inl ⟨.unreadable error, _, rfl⟩⟩
  | ok bytes =>
    cases htext : String.fromUTF8? bytes with
    | none =>
      have hdecode : Action.decodeText (.ok bytes) = .error .invalidText := by
        simp only [Action.decodeText, htext]
      rw [hdecode]
      exact ⟨_, _, rfl, .inl ⟨.notText htext, _, rfl⟩⟩
    | some text =>
      have hdecode : Action.decodeText (.ok bytes) = .ok text := by
        simp only [Action.decodeText, htext]
      rw [hdecode]
      refine ⟨_, _, rfl, ?_⟩
      let source : Source := { name := sourceName path, text }
      rcases source.result_generate_cases settings artifact htext with
        hfailed | ⟨husable, hresult⟩
      · exact .inl hfailed
      · exact .inr ⟨husable, bytes, text, rfl, htext, hresult⟩

theorem perform_readAndGenerate (session : Session) (path : Path) (artifact : Artifact)
    (settings : Settings) :
    ∃ result remarks, session.perform (Source.readAndGenerate (some path) artifact settings) =
      (result, { session.afterReading path with remarks }) ∧
        ((∃ failure, result = .error failure) ↔
          Source.Unusable settings (session.content path)) := by
  obtain ⟨result, remarks, hperform, ⟨hunusable, hfailure⟩ | ⟨husable, _, _, -, -, rfl⟩⟩ :=
    session.perform_readAndGenerate_cases path artifact settings
  · exact ⟨result, remarks, hperform, fun _ => hunusable, fun _ => hfailure⟩
  · refine ⟨_, remarks, hperform, ?_, fun hunusable => absurd hunusable husable⟩
    rintro ⟨failure, hfailure⟩
    contradiction

/-- What is generated from a file hangs on the tree alone, and leaves it alone. -/
theorem text_of_perform_readAndGenerate {session after : Session} {path : Path}
    {artifact : Artifact} {settings : Settings} {text : String}
    (hfile : Source.isInput path = false)
    (h : session.perform (Source.readAndGenerate (some path) artifact settings) =
      (.ok text, after)) :
    after.tree = session.tree ∧ ∃ content source, session.tree.read path = .ok content ∧
      String.fromUTF8? content = some source ∧
      text = artifact.generate settings.naming (Compilation.ofText source) := by
  have hcontent : session.content path = session.tree.read path := if_neg (by simp [hfile])
  obtain ⟨result, remarks, hperform, hcases⟩ :=
    session.perform_readAndGenerate_cases path artifact settings
  obtain ⟨rfl, rfl⟩ := Prod.mk.inj (hperform.symm.trans h)
  refine ⟨session.tree_afterReading path, ?_⟩
  rcases hcases with ⟨-, failure, hfailure⟩ | ⟨-, bytes, source, hbytes, hsource, hresult⟩
  · contradiction
  · exact ⟨bytes, source, hcontent ▸ hbytes, hsource, Except.ok.inj hresult⟩

/-! ## Any input -/

/-- Reading a source leaves the tree alone. -/
theorem tree_perform_read (session : Session) (input : Option Path) :
    (session.perform (Source.read input)).2.tree = session.tree := by
  cases input with
  | none =>
    rw [Source.read_none, perform_read]
    exact session.tree_afterReading _
  | some path =>
    rw [perform_read]
    exact session.tree_afterReading path

/-- What is generated from an input, or why it is not. -/
def generated (session : Session) (input : Option Path) (artifact : Artifact)
    (settings : Settings) : Except Failure String := do
  let source ← (session.perform (Source.read input)).1
  (source.generate artifact settings).result

theorem perform_readAndGenerate_generated (session : Session) (input : Option Path)
    (artifact : Artifact) (settings : Settings) :
    ∃ after, session.perform (Source.readAndGenerate input artifact settings) =
      (session.generated input artifact settings, after) ∧ after.tree = session.tree := by
  have htree := session.tree_perform_read input
  unfold Source.readAndGenerate generated
  rw [perform_bind]
  generalize session.perform (Source.read input) = performed at htree ⊢
  obtain ⟨result, after⟩ := performed
  cases result with
  | error failure => exact ⟨after, rfl, htree⟩
  | ok source =>
    dsimp only
    rw [perform_deliver]
    exact ⟨_, rfl, htree⟩

end Session

end BitFont

import BitFont.Proofs.Definitions.Reading

/-!
# Significant lines

A line that is blank or a comment says nothing, and nothing behind the `END` line is read. What is
left are the significant lines of a text, and a text is read as these lines alone
(`untraced_ofText_eq_foldl`). Whether a line is significant, and what it says, hangs on its words.
-/

namespace BitFont

/-! ## What words say -/

/-- The statements that a list of words can be, by its first words. -/
inductive Statement.Says : List String → Statement → Prop
  | blank : Says [] .skip
  | comment {first : String} (rest : List String) (h : isComment first = true) :
      Says (first :: rest) .skip
  | noIdentifier : Says ["ID"] (.malformed .missingIdentifier)
  | glyph (id : String) (rest : List String) : Says ("ID" :: id :: rest) (.glyph id)
  | dimensions (width height : Nat) (rest : List String) :
      Says ("DIM" :: rest) (.dimensions width height)
  | badMeasures (fault : DirectiveFault) (rest : List String) :
      Says ("DIM" :: rest) (.malformed fault)
  | finish (rest : List String) : Says ("END" :: rest) .finish
  | row {first : String} (rest : List String) (hcomment : isComment first = false)
      (hid : first ≠ "ID") (hend : first ≠ "END") :
      Says (first :: rest) (.row ((first :: rest).map pixelOfWord))

theorem Statement.ofWords_id (id : String) (rest : List String) :
    ofWords ("ID" :: id :: rest) = .glyph id := by
  simp [ofWords, isComment]

theorem Statement.ofWords_dim (rest : List String) : ofWords ("DIM" :: rest) = ofMeasures rest := by
  simp [ofWords, isComment]

theorem Statement.says_ofWords (words : List String) : Says words (ofWords words) := by
  cases words with
  | nil => exact .blank
  | cons first rest =>
    rw [ofWords.eq_def]
    dsimp only
    split
    · rename_i hcomment
      exact .comment rest hcomment
    · rename_i hcomment
      split
      · rename_i hid
        subst hid
        cases rest with
        | nil => exact .noIdentifier
        | cons id rest => exact .glyph id rest
      · rename_i hid
        split
        · rename_i hdim
          subst hdim
          unfold ofMeasures
          split
          · exact .badMeasures _ rest
          · split
            · exact .badMeasures _ rest
            · exact .dimensions _ _ rest
        · split
          · rename_i hend
            subst hend
            exact .finish rest
          · rename_i hend
            exact .row rest (by simpa using hcomment) hid hend

/-! ## Lines that count -/

namespace Line

/-- A line with a word that does not begin a comment. -/
def isSignificant (line : Line) : Bool :=
  match line.words with
  | [] => false
  | first :: _ => !Statement.isComment first

/-- A line whose first word is `END`. -/
def isEnd (line : Line) : Bool := line.words.head? == some "END"

/-- The lines of a text that count: those before the first `END` line that are neither blank nor
comments. -/
def significant (text : String) : List Line :=
  ((Line.ofText text).takeWhile fun line => !line.isEnd).filter isSignificant

theorem says_statement (line : Line) : Statement.Says line.words line.statement :=
  Statement.says_ofWords line.words

theorem statement_eq_of_words {line other : Line} (h : line.words = other.words) :
    line.statement = other.statement := congrArg Statement.ofWords h

theorem statement_of_not_isSignificant {line : Line} (h : line.isSignificant = false) :
    line.statement = .skip := by
  have hsays := line.says_statement
  unfold isSignificant at h
  generalize line.words = words at h hsays
  generalize line.statement = statement at hsays
  cases hsays with
  | blank => rfl
  | comment rest hcomment => rfl
  | row rest hcomment hid hend => simp [hcomment] at h
  | _ => simp [Statement.isComment] at h

theorem isEnd_iff (line : Line) : line.isEnd = true ↔ line.statement = .finish := by
  have hsays := line.says_statement
  unfold isEnd
  generalize line.words = words at hsays
  generalize line.statement = statement at hsays
  cases hsays with
  | comment rest hcomment =>
    have hne : ¬ Statement.isComment "END" = true := by decide
    simp only [List.head?_cons, beq_iff_eq, Option.some.injEq, reduceCtorEq, iff_false]
    rintro rfl
    exact hne hcomment
  | row rest hcomment hid hend => simp [hend]
  | _ => simp

/-- Only a line that says `ID` and an identifier opens a block. -/
theorem opened?_of_words {line : Line} {id : String} {rest : List String}
    (h : line.words = "ID" :: id :: rest) : line.opened? = some id := by
  have hstatement : line.statement = Statement.ofWords ("ID" :: id :: rest) :=
    congrArg Statement.ofWords h
  rw [opened?, hstatement]
  simp [Statement.ofWords, Statement.isComment]

theorem beforeEnd_eq_takeWhile (lines : List Line) :
    beforeEnd lines = lines.takeWhile fun line => !line.isEnd := by
  have hend : (fun line : Line => decide (line.statement ≠ .finish)) = fun line => !line.isEnd := by
    funext line
    rw [Bool.eq_iff_iff, decide_eq_true_iff, Bool.not_eq_true', ← Bool.not_eq_true, isEnd_iff]
  rw [beforeEnd, hend]

end Line

/-! ## Reading them alone -/

namespace Reading

theorem step_of_not_isSignificant (reading : Reading) {line : Line}
    (h : line.isSignificant = false) : reading.step line = reading := by
  rw [step, Line.statement_of_not_isSignificant h, apply]

/-- Blank lines and comments may be left out. -/
theorem foldl_step_filter (reading : Reading) (lines : List Line) :
    (lines.filter Line.isSignificant).foldl step reading = lines.foldl step reading := by
  induction lines generalizing reading with
  | nil => rfl
  | cons line rest ih =>
    rw [List.foldl_cons, List.filter_cons]
    cases hline : line.isSignificant with
    | true => rw [if_pos rfl, List.foldl_cons, ih]
    | false => rw [if_neg (by simp), ih, step_of_not_isSignificant reading hline]

theorem untraced_finish (reading : Reading) :
    reading.finish.untraced = reading.untraced.finish :=
  Definitions.untraced_close reading.found reading.draft

end Reading

/-- A text is read as its significant lines, one step for each, up to the close of the last
draft. -/
theorem Definitions.untraced_ofText_eq_foldl (text : String) :
    (ofText text).untraced = ((Line.significant text).foldl Reading.step {}).finish := by
  rw [ofText, Reading.untraced_finish, Reading.untraced_readLines, Line.beforeEnd_eq_takeWhile,
    Line.significant, Reading.foldl_step_filter]
  rfl

end BitFont

import BitFont.Command.Reader
import BitFont.Proofs.Text.Words

/-!
# How options are spelled

An argument has one of four forms (`Argument.hasForm_ofText`). An option can be written in several
ways, and short ones may share an argument; what they say is a list of items (`Spells`). Items are
taken one after the other, as long as each may stand where it does (`Given.takeAll?`).
-/

namespace BitFont.Command

open Text

/-! ## Forms of arguments -/

/-- Text that is no option: its first character is no dash, or its only one. -/
def IsPlain (text : String) : Prop := text = "-" ∨ text.toList.head? ≠ some '-'

instance (text : String) : Decidable (IsPlain text) := inferInstanceAs (Decidable (_ ∨ _))

namespace Argument

/-- The value that is joined to a long option. -/
def joined : Option String → String
  | none => ""
  | some value => "=" ++ value

/-- What an argument of each form looks like. -/
inductive HasForm : String → Argument → Prop
  | plain {text : String} (h : IsPlain text) : HasForm text (.plain text)
  | escape : HasForm "--" .escape
  | long {name : String} {value : Option String} (hname : Lacks '=' name)
      (h : name ≠ "" ∨ value ≠ none) : HasForm ("--" ++ name ++ joined value) (.long name value)
  | cluster {letters : List Char} (hne : letters ≠ []) (h : letters.head? ≠ some '-') :
      HasForm ("-" ++ String.ofList letters) (.cluster letters)

theorem ofLong_eq {name : String} (h : Lacks '=' name) (value : Option String) :
    ofLong (name ++ joined value).toList = .long name value := by
  rw [String.toList_append, ofLong, List.takeWhile_append_of_pos h, List.dropWhile_append_of_pos h]
  cases value with
  | none => simp [joined, String.ofList_toList]
  | some value => simp [joined, String.ofList_toList]

theorem ofText_of_hasForm {text : String} {argument : Argument} (h : HasForm text argument) :
    ofText text = argument := by
  cases h with
  | plain h =>
    unfold ofText
    rcases h with rfl | h
    · rfl
    · split <;> simp_all
  | escape => rfl
  | @long name value hname h =>
    have hchars : ("--" ++ name ++ joined value).toList =
        '-' :: '-' :: (name ++ joined value).toList := by
      simp [String.toList_append]
    have hlong := ofLong_eq hname value
    rw [ofText, hchars]
    generalize hbody : (name ++ joined value).toList = body at hlong
    cases body with
    | nil =>
      have hempty : name ++ joined value = "" := String.toList_eq_nil_iff.mp hbody
      cases value with
      | none => simp_all [joined]
      | some value => simp [joined] at hempty
    | cons c rest => exact hlong
  | @cluster letters hne h =>
    have hchars : ("-" ++ String.ofList letters).toList = '-' :: letters := by
      simp [String.toList_append]
    rw [ofText, hchars]
    split <;> simp_all

theorem hasForm_ofLong {body : List Char} (hne : body ≠ []) :
    HasForm ("--" ++ String.ofList body) (ofLong body) := by
  have hbody := List.takeWhile_append_dropWhile (p := (· != '=')) (l := body)
  have hname : Lacks '=' (String.ofList (body.takeWhile (· != '='))) := by
    intro c hc
    rw [String.toList_ofList] at hc
    exact List.all_eq_true.mp List.all_takeWhile c hc
  unfold ofLong
  cases hrest : body.dropWhile (· != '=') with
  | nil =>
    rw [hrest, List.append_nil] at hbody
    rw [hbody] at hname ⊢
    have hform : HasForm ("--" ++ String.ofList body ++ joined none) _ :=
      .long hname (.inl (by simpa using hne))
    rwa [joined, String.append_empty] at hform
  | cons c value =>
    have hc : c = '=' := by
      have hhead := List.head?_dropWhile_not (· != '=') body
      rw [hrest] at hhead
      simpa using hhead
    have htext : "--" ++ String.ofList body = "--" ++ String.ofList (body.takeWhile (· != '=')) ++
        joined (some (String.ofList value)) := by
      rw [← String.toList_inj]
      conv => lhs; rw [← hbody, hrest, hc]
      simp [joined, String.toList_append]
    rw [htext]
    exact .long hname (.inr (by simp))

/-- Every argument has one of the forms. -/
theorem hasForm_ofText (text : String) : HasForm text (ofText text) := by
  obtain ⟨chars, rfl⟩ : ∃ chars, text = String.ofList chars := ⟨text.toList, by simp⟩
  rw [ofText, String.toList_ofList]
  split
  · exact .plain (.inl rfl)
  · exact .escape
  · rename_i body hne
    have hform : HasForm ("--" ++ String.ofList body) (ofLong body) :=
      hasForm_ofLong (by simpa using hne)
    have htext : String.ofList ('-' :: '-' :: body) = "--" ++ String.ofList body := by
      rw [← String.toList_inj]
      simp [String.toList_append]
    rwa [htext]
  · rename_i letters hdash hbody hne
    have htext : String.ofList ('-' :: letters) = "-" ++ String.ofList letters := by
      rw [← String.toList_inj]
      simp [String.toList_append]
    rw [htext]
    refine .cluster hdash ?_
    intro hhead
    obtain ⟨rest, rfl⟩ := List.head?_eq_some_iff.mp hhead
    exact hne rest rfl
  · rename_i hplain
    refine .plain (.inr ?_)
    rw [String.toList_ofList]
    intro hhead
    obtain ⟨rest, rfl⟩ := List.head?_eq_some_iff.mp hhead
    exact hplain rest rfl

end Argument

/-! ## Options and their items -/

/-- One thing that arguments say. -/
inductive Item where
  | stem (text : String)
  | denyProblems
  | verbose
  | output (path : String)
  | operand (text : String)
  deriving DecidableEq, Repr

/-- A dash, so many letters for more notices, and what stands behind them. -/
def cluster (loud : Nat) (rest : String) : String :=
  "-" ++ String.ofList (List.replicate loud 'v' ++ rest.toList)

/-- The ways to write an option, or a few short ones in one argument. A value that is an argument of
its own is no option; one that is joined may be anything. -/
inductive Spells : List Item → List String → Prop
  | denyProblems : Spells [.denyProblems] ["--deny-diagnostics"]
  | verbose : Spells [.verbose] ["--verbose"]
  | stem {text : String} (h : IsPlain text) : Spells [.stem text] ["--prefix", text]
  | stemJoined (text : String) : Spells [.stem text] ["--prefix=" ++ text]
  | output {path : String} (h : IsPlain path) : Spells [.output path] ["--output", path]
  | outputJoined (path : String) : Spells [.output path] ["--output=" ++ path]
  | letters (more : Nat) : Spells (List.replicate (more + 1) .verbose) [cluster (more + 1) ""]
  | letterOutput (loud : Nat) {path : String} (h : IsPlain path) :
      Spells (List.replicate loud .verbose ++ [.output path]) [cluster loud "o", path]
  | letterOutputJoined (loud : Nat) {path : String} (hne : path ≠ "")
      (h : path.toList.head? ≠ some '=') :
      Spells (List.replicate loud .verbose ++ [.output path]) [cluster loud ("o" ++ path)]
  | letterOutputEquals (loud : Nat) (path : String) :
      Spells (List.replicate loud .verbose ++ [.output path]) [cluster loud ("o=" ++ path)]

namespace Given

/-- An option may stand here and was not given here before. Nothing but a prefix may be empty. -/
def Accepts (flags : List Flag) (given : Given) : Item → Prop
  | .stem _ => .stem ∈ flags ∧ given.stem = none
  | .denyProblems => .denyProblems ∈ flags ∧ given.denyProblems = false
  | .verbose => .verbose ∈ flags
  | .output path => .output ∈ flags ∧ given.output = none ∧ path ≠ ""
  | .operand text => text ≠ ""

instance (flags : List Flag) (given : Given) (item : Item) : Decidable (Accepts flags given item) :=
  match item with
  | .stem _ => inferInstanceAs (Decidable (_ ∧ _))
  | .denyProblems => inferInstanceAs (Decidable (_ ∧ _))
  | .verbose => inferInstanceAs (Decidable (_ ∈ _))
  | .output _ => inferInstanceAs (Decidable (_ ∧ _ ∧ _))
  | .operand _ => inferInstanceAs (Decidable (_ ≠ _))

def take (given : Given) : Item → Given
  | .stem text => { given with stem := some text }
  | .denyProblems => { given with denyProblems := true }
  | .verbose => { given with verbosity := given.verbosity + 1 }
  | .output path => { given with output := some ⟨path⟩ }
  | .operand text => { given with operands := given.operands.push text }

/-- Takes one item, if it is accepted. -/
def take? (flags : List Flag) (given : Given) (item : Item) : Option Given :=
  if given.Accepts flags item then some (given.take item) else none

/-- Takes items one after the other. -/
def takeAll? (flags : List Flag) (given : Given) (items : List Item) : Option Given :=
  items.foldlM (take? flags) given

variable {flags : List Flag} {given next : Given}

theorem take?_eq_some_iff {item : Item} :
    given.take? flags item = some next ↔ given.Accepts flags item ∧ given.take item = next := by
  rw [take?, Option.ite_none_right_eq_some, Option.some.injEq]

theorem takeAll?_cons (item : Item) (rest : List Item) :
    given.takeAll? flags (item :: rest) =
      (given.take? flags item).bind fun after => after.takeAll? flags rest := rfl

theorem takeAll?_singleton (item : Item) :
    given.takeAll? flags [item] = given.take? flags item := by
  rw [takeAll?_cons]
  exact Option.bind_fun_some _

theorem takeAll?_append (items others : List Item) :
    given.takeAll? flags (items ++ others) =
      (given.takeAll? flags items).bind fun after => after.takeAll? flags others :=
  List.foldlM_append

/-- No item waits for a value. -/
theorem awaiting_of_take? {item : Item} (h : given.take? flags item = some next) :
    next.awaiting = given.awaiting := by
  obtain ⟨-, rfl⟩ := take?_eq_some_iff.mp h
  cases item <;> rfl

theorem awaiting_of_takeAll? {items : List Item} (h : given.takeAll? flags items = some next) :
    next.awaiting = given.awaiting := by
  induction items generalizing given with
  | nil => rw [← Option.some.inj h]
  | cons item rest ih =>
    rw [takeAll?_cons] at h
    obtain ⟨after, hitem, hrest⟩ := Option.bind_eq_some_iff.mp h
    rw [ih hrest, awaiting_of_take? hitem]

end Given

end BitFont.Command

import BitFont.Text.CaseTable

/-!
# Capital and small letters

The full case mappings of one letter, which may give several, and the mappings of whole texts that
change ASCII letters only.
-/

namespace BitFont.Text

/-- Maps a letter by a list of expansions first and by shifts after that. -/
def mapLetter (expansions : List (Char × List Char)) (shifts : List Shift) (c : Char) : List Char :=
  match expansions.find? (fun entry => entry.1 == c) with
  | some entry => entry.2
  | none =>
    match shifts.findSome? (fun shift => shift.image? c.toNat) with
    | some n => [Char.ofNat n]
    | none => [c]

/-- The capital form of a letter. -/
def capital (c : Char) : List Char := mapLetter upperExpansions upperShifts c

/-- The small form of a letter, wherever it stands in a word. -/
def small (c : Char) : List Char := mapLetter lowerExpansions lowerShifts c

/-- A name with its first letter capital and all others small. -/
def capitalized (name : String) : String :=
  match name.toList with
  | [] => ""
  | first :: rest => String.ofList (capital first ++ rest.flatMap small)

/-- The text with ASCII letters in capitals; all other characters stay. -/
def asciiCapital (text : String) : String :=
  String.ofList (text.toList.map Char.toUpper)

/-- The text with ASCII letters small; all other characters stay. -/
def asciiSmall (text : String) : String :=
  String.ofList (text.toList.map Char.toLower)

end BitFont.Text

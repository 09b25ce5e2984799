/-!
# Fields and words

Cutting text at separators. `fields` keeps every piece between two separators, empty ones too;
`words` keeps the pieces that are not blank. White space is the Unicode property, so no-break and
ideographic spaces separate words as well.
-/

namespace BitFont.Text

/-- A character with the Unicode property `White_Space`. -/
def isBlank (c : Char) : Bool :=
  let n := c.toNat
  (9 ≤ n && n ≤ 13) || n == 0x20 || n == 0x85 || n == 0xA0 || n == 0x1680 ||
    (0x2000 ≤ n && n ≤ 0x200A) || n == 0x2028 || n == 0x2029 || n == 0x202F || n == 0x205F ||
    n == 0x3000

/-- Adds one character in front of text that is already cut. -/
def fieldStep (separates : Char → Bool) (c : Char) (cut : List (List Char)) : List (List Char) :=
  if separates c then
    [] :: cut
  else
    match cut with
    | [] => [[c]]
    | field :: rest => (c :: field) :: rest

/-- The pieces between separators, one more than there are separators. -/
def fields (separates : Char → Bool) (text : List Char) : List (List Char) :=
  text.foldr (fieldStep separates) [[]]

@[simp] theorem fields_nil (separates : Char → Bool) : fields separates [] = [[]] := rfl

@[simp] theorem fields_cons (separates : Char → Bool) (c : Char) (text : List Char) :
    fields separates (c :: text) = fieldStep separates c (fields separates text) := rfl

/-- There is always a piece, even in the empty text. -/
theorem fields_ne_nil (separates : Char → Bool) (text : List Char) :
    fields separates text ≠ [] := by
  cases text with
  | nil => simp
  | cons c rest =>
    rw [fields_cons, fieldStep.eq_def]
    split
    · simp
    · split <;> simp

/-- No piece holds a separator. -/
theorem not_separates_of_mem_fields (separates : Char → Bool) (text : List Char) :
    ∀ field ∈ fields separates text, ∀ c ∈ field, separates c = false := by
  induction text with
  | nil => simp
  | cons c rest ih =>
    rw [fields_cons, fieldStep.eq_def]
    split
    · simpa using ih
    · rename_i keeps
      split
      · simpa using keeps
      · rename_i field others same
        rw [same] at ih
        simp only [List.mem_cons, forall_eq_or_imp] at ih ⊢
        exact ⟨⟨by simpa using keeps, ih.1⟩, ih.2⟩

/-- The words of a line: maximal runs of characters that are not blank. -/
def words (text : String) : List String :=
  ((fields isBlank text.toList).filter (fun field => !field.isEmpty)).map String.ofList

end BitFont.Text

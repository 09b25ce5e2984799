/-!
# Lines of generated sources

A listing is a list of lines; `Listing.text` ends each with a line feed. The helpers cut long lists
into lines and pad names to columns.
-/

namespace BitFont.Listing

/-- The indentation of everything between braces. -/
def indent : String := "    "

def text (lines : List String) : String :=
  String.join (lines.map (· ++ "\n"))

/-- A name filled up with spaces to a number of characters. -/
def padded (columns : Nat) (name : String) : String :=
  name ++ String.ofList (List.replicate (columns - name.length) ' ')

/-- A list cut into pieces of `size` items; the last may be shorter, and none is empty. -/
def chunks {α : Type} (size : Nat) (items : List α) : List (List α) :=
  match items with
  | [] => []
  | first :: rest =>
    (first :: rest.take (size - 1)) :: chunks size (rest.drop (size - 1))
termination_by items.length
decreasing_by
  simp only [List.length_drop, List.length_cons]
  omega

/-- Cutting a list loses nothing. -/
theorem flatten_chunks {α : Type} (size : Nat) (items : List α) :
    (chunks size items).flatten = items := by
  fun_induction chunks size items with
  | case1 => rfl
  | case2 first rest ih =>
    rw [List.flatten_cons, ih, List.cons_append, List.take_append_drop]

/-- The lines with a comma behind each but the last. -/
def commaSeparated : List String → List String
  | [] => []
  | [last] => [last]
  | line :: next :: rest => (line ++ ",") :: commaSeparated (next :: rest)

end BitFont.Listing

import BitFont.Artifact.Header
import BitFont.Proofs.Artifact.Listing

/-!
# Reading generated sources

What a generated source declares, read back from its text. The reader knows the C notation and not
how the sources are laid out: white space separates words, a declaration begins with a line that
ends in a brace, and the commas between items stand behind them. Names are never cut at other
characters, since a glyph's identifier may hold any.
-/

namespace BitFont

/-! ## Lines and items -/

namespace Listing

/-- The lines of a text; behind the last line feed there is an empty one. -/
def lines (text : String) : List String :=
  (Text.fields (· == '\n') text.toList).map String.ofList

def withoutComma? (item : String) : Option String :=
  if item.toList.getLast? = some ',' then some (String.ofList item.toList.dropLast) else none

/-- The items of a list that has a comma behind each but the last. -/
def separated? : List String → Option (List String)
  | [] => some []
  | [last] => some [last]
  | item :: next :: rest => do
    let item ← withoutComma? item
    let others ← separated? (next :: rest)
    return item :: others

theorem lines_text {listing : List String} (h : ∀ line ∈ listing, Text.Lacks '\n' line) :
    lines (text listing) = listing ++ [""] := by
  induction listing with
  | nil => rfl
  | cons line rest ih =>
    obtain ⟨hline, hrest⟩ := List.forall_mem_cons.mp h
    have hfields : Text.fields (· == '\n') line.toList = [line.toList] := by
      apply Text.fields_of_forall
      intro c hc
      rw [beq_eq_false_iff_ne]
      exact bne_iff_ne.mp (hline c hc)
    have hcut : (text (line :: rest)).toList = line.toList ++ '\n' :: (text rest).toList := by
      simp [text_cons, String.toList_append]
    have hlines := ih hrest
    rw [lines] at hlines ⊢
    rw [hcut, Text.fields_append_cons _ rfl, hfields, List.map_append, hlines, List.map_singleton,
      String.ofList_toList, List.singleton_append, List.cons_append]

theorem withoutComma?_append (item : String) : withoutComma? (item ++ ",") = some item := by
  have hcomma : (item ++ ",").toList = item.toList ++ [','] := by
    simp [String.toList_append]
  rw [withoutComma?, hcomma, List.getLast?_concat, if_pos rfl, List.dropLast_concat,
    String.ofList_toList]

theorem separated?_commaSeparated (items : List String) :
    separated? (commaSeparated items) = some items := by
  induction items with
  | nil => rfl
  | cons item rest ih =>
    cases rest with
    | nil => rfl
    | cons next others =>
      rw [commaSeparated]
      cases hrest : commaSeparated (next :: others) with
      | nil => cases others <;> simp [commaSeparated] at hrest
      | cons first later =>
        rw [hrest] at ih
        rw [separated?, withoutComma?_append, ih]
        rfl

end Listing

/-! ## Declarations -/

/-- The words before the opening brace, and the lines up to the closing one. -/
structure Declaration where
  head : List String
  body : List String
  deriving DecidableEq, Repr

namespace Declaration

def head? (line : String) : Option (List String) :=
  if line.toList.getLast? = some '{' then
    some (Text.words (String.ofList line.toList.dropLast))
  else
    none

/-- Reads all declarations, going on with the one that is open. -/
def readLines? (current : Option Declaration) : List String → Option (List Declaration)
  | [] => if current.isNone then some [] else none
  | line :: rest =>
    match current with
    | none => readLines? ((head? line).map fun head => { head, body := [] }) rest
    | some declaration =>
      if line = "\x7d;" then
        (readLines? none rest).map (declaration :: ·)
      else
        readLines? (some { declaration with body := declaration.body ++ [line] }) rest

def readText? (text : String) : Option (List Declaration) := readLines? none (Listing.lines text)

theorem readLines?_none_append {outside : List String} (h : ∀ line ∈ outside, head? line = none)
    (rest : List String) : readLines? none (outside ++ rest) = readLines? none rest := by
  induction outside with
  | nil => rfl
  | cons line others ih =>
    obtain ⟨hline, hothers⟩ := List.forall_mem_cons.mp h
    rw [List.cons_append, readLines?, hline, Option.map_none, ih hothers]

theorem readLines?_some_append (declaration : Declaration) {body : List String}
    (h : "\x7d;" ∉ body) (rest : List String) :
    readLines? (some declaration) (body ++ "\x7d;" :: rest) =
      (readLines? none rest).map
        ({ declaration with body := declaration.body ++ body } :: ·) := by
  induction body generalizing declaration with
  | nil => simp [readLines?]
  | cons line others ih =>
    rw [List.mem_cons, not_or] at h
    rw [List.cons_append, readLines?, if_neg (Ne.symm h.1), ih _ h.2, List.append_assoc,
      List.singleton_append]

theorem readLines?_declaration {line : String} {head body : List String}
    (hhead : head? line = some head) (hbody : "\x7d;" ∉ body) (rest : List String) :
    readLines? none (line :: (body ++ "\x7d;" :: rest)) =
      (readLines? none rest).map ({ head, body } :: ·) := by
  rw [readLines?, hhead, Option.map_some, readLines?_some_append _ hbody, List.nil_append]

/-- A line opens a declaration by its last character alone. -/
theorem head?_append_brace (line : String) : head? (line ++ "\x7b") = some (Text.words line) := by
  have hbrace : (line ++ "\x7b").toList = line.toList ++ ['\x7b'] := by
    simp [String.toList_append]
  rw [head?, hbrace, List.getLast?_concat, if_pos rfl, List.dropLast_concat, String.ofList_toList]

theorem head?_eq_none_of_lacks {line : String} (h : Text.Lacks '\x7b' line) :
    head? line = none := by
  rw [head?, if_neg]
  intro hlast
  have hbrace := h '\x7b' (List.mem_of_getLast? hlast)
  contradiction

end Declaration

theorem mapM_map_eq_some {α β : Type} {write : α → β} {read? : β → Option α} {items : List α}
    (h : ∀ item ∈ items, read? (write item) = some item) :
    (items.map write).mapM read? = some items := by
  induction items with
  | nil => rfl
  | cons item rest ih =>
    obtain ⟨hitem, hrest⟩ := List.forall_mem_cons.mp h
    rw [List.map_cons, List.mapM_cons, hitem, ih hrest]
    rfl

/-! ## Headers -/

/-- The value of a word of decimal digits. -/
def decimal? (word : String) : Option Nat :=
  if word.toList ≠ [] ∧ word.toList.all Char.isDigit then
    some (Nat.ofDigitChars 10 word.toList 0)
  else
    none

theorem decimal?_toString (n : Nat) : decimal? (toString n) = some n := by
  have hdigits : (toString n).toList = Nat.toDigits 10 n := by
    rw [Nat.toString_eq_repr, Nat.repr_eq_ofList_toDigits, String.toList_ofList]
  have hall : (Nat.toDigits 10 n).all Char.isDigit = true := by
    rw [List.all_eq_true]
    intro c hc
    exact Nat.isDigit_of_mem_toDigits (by decide) (by decide) hc
  rw [decimal?, hdigits, if_pos ⟨Nat.toDigits_ne_nil, hall⟩, Nat.ofDigitChars_ten_toDigits]

namespace Enumerator

def read? (line : String) : Option Enumerator :=
  match Text.words line with
  | [name, "=", numeral] => (decimal? numeral).map fun value => { name, value }
  | _ => none

/-- The value of a name. -/
def value? (constants : List Enumerator) (name : String) : Option Nat :=
  (constants.find? (·.name == name)).map (·.value)

end Enumerator

/-- The constants that the text of a header declares. -/
def Header.read? (text : String) : Option (List Enumerator) :=
  match Declaration.readText? text with
  | some [declaration] =>
    if declaration.head.head? = some "enum" then
      (Listing.separated? declaration.body).bind (·.mapM Enumerator.read?)
    else
      none
  | _ => none

/-! ## Tables -/

/-- A constant array, and what stands between its brackets. -/
structure Table (α : Type) where
  elementType : String
  name : String
  bound : String
  cells : List α
  deriving DecidableEq, Repr

namespace Table

/-- A name and what stands in the brackets behind it. -/
def declarator? (word : String) : Option (String × String) :=
  match Text.fields (fun c => c == '[' || c == ']') word.toList with
  | [name, bound, []] => some (String.ofList name, String.ofList bound)
  | _ => none

def read? {α : Type} (cells? : List String → Option (List α)) (declaration : Declaration) :
    Option (Table α) :=
  match declaration.head with
  | ["const", "unsigned", elementType, declarator, "="] => do
    let (name, bound) ← declarator? declarator
    let cells ← cells? declaration.body
    return { elementType, name, bound, cells }
  | _ => none

def nameCells? (body : List String) : Option (List String) :=
  Listing.separated? (body.flatMap Text.words)

def hexValue? (c : Char) : Option Nat :=
  if '0' ≤ c ∧ c ≤ '9' then some (c.toNat - '0'.toNat)
  else if 'a' ≤ c ∧ c ≤ 'f' then some (c.toNat - 'a'.toNat + 10)
  else none

def byte? : List Char → Option UInt8
  | ['0', 'x', high, low] => do
    let high ← hexValue? high
    let low ← hexValue? low
    return UInt8.ofNat (16 * high + low)
  | _ => none

def isComment (line : String) : Bool :=
  ['/', '/'].isPrefixOf (line.toList.dropWhile Text.isBlank)

/-- The pieces of a line between blanks and commas. -/
def pieces (line : String) : List (List Char) :=
  Text.runs (fun c => Text.isBlank c || c == ',') line.toList

def byteCells? (body : List String) : Option (List UInt8) :=
  ((body.filter fun line => !isComment line).flatMap pieces).mapM byte?

end Table

/-- The tables that the text of a data file declares, in this order. -/
structure Tables where
  offsets : Table String
  sizes : Table String
  stream : Table UInt8
  deriving DecidableEq, Repr

def Data.read? (text : String) : Option Tables :=
  match Declaration.readText? text with
  | some [offsets, sizes, stream] => do
    let offsets ← Table.read? Table.nameCells? offsets
    let sizes ← Table.read? Table.nameCells? sizes
    let stream ← Table.read? Table.byteCells? stream
    return { offsets, sizes, stream }
  | _ => none

end BitFont

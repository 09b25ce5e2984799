import BitFont.Proofs.Text.Words
import BitFont.Text.Line

/-!
# Lines of joined texts

When a text ends in a line feed, the lines of another text put behind it are lines of their own:
they follow with their numbers and byte ranges moved on (`ofText_append`). So a text that is put
together from lines has the words of these lines (`map_words_ofText_join`).
-/

namespace BitFont

namespace Text

theorem pieceStep_append (c : Char) {cut : List (List Char)} (h : cut ≠ [])
    (others : List (List Char)) : pieceStep c (cut ++ others) = pieceStep c cut ++ others := by
  unfold pieceStep
  split
  · rfl
  · cases cut with
    | nil => contradiction
    | cons piece rest => rfl

theorem pieces_ne_nil {text : List Char} (h : text ≠ []) : pieces text ≠ [] := by
  intro hnone
  apply h
  rw [← flatten_pieces text, hnone, List.flatten_nil]

/-- A cut falls between two texts if the first ends in a line feed. -/
theorem pieces_append {text : List Char} (h : ∀ last ∈ text.getLast?, last = '\n')
    (other : List Char) : pieces (text ++ other) = pieces text ++ pieces other := by
  induction text with
  | nil => rfl
  | cons c rest ih =>
    rw [List.cons_append, pieces_cons, pieces_cons]
    cases rest with
    | nil =>
      obtain rfl : c = '\n' := h c rfl
      rfl
    | cons d rest =>
      have hrest : pieces (d :: rest) ≠ [] := pieces_ne_nil (List.cons_ne_nil d rest)
      rw [List.getLast?_cons_cons] at h
      rw [ih h, pieceStep_append c hrest]

theorem pieces_terminated {line : List Char} (h : '\n' ∉ line) :
    pieces (line ++ ['\n']) = [line ++ ['\n']] := by
  induction line with
  | nil => rfl
  | cons c rest ih =>
    rw [List.mem_cons, not_or] at h
    rw [List.cons_append, pieces_cons, ih h.2, pieceStep, if_neg (Ne.symm h.1)]

theorem pieces_join {lines : List String} (h : ∀ line ∈ lines, Lacks '\n' line) :
    pieces (String.join (lines.map (· ++ "\n"))).toList =
      lines.map fun line => line.toList ++ ['\n'] := by
  induction lines with
  | nil => rfl
  | cons line rest ih =>
    obtain ⟨hline, hrest⟩ := List.forall_mem_cons.mp h
    have hmem : '\n' ∉ line.toList := fun hfeed => absurd rfl (bne_iff_ne.mp (hline _ hfeed))
    have hlast : ∀ last ∈ (line.toList ++ ['\n']).getLast?, last = '\n' := by
      simp
    have hcut : (String.join ((line :: rest).map (· ++ "\n"))).toList =
        (line.toList ++ ['\n']) ++ (String.join (rest.map (· ++ "\n"))).toList := by
      rw [List.map_cons, String.join_cons, String.toList_append, String.toList_append]
      rfl
    rw [hcut, pieces_append hlast, pieces_terminated hmem, ih hrest, List.map_cons,
      List.singleton_append]

theorem exists_eq_withoutEnding_append (piece : List Char) :
    ∃ ending, piece = withoutEnding piece ++ ending ∧ ∀ c ∈ ending, c = '\n' ∨ c = '\r' := by
  refine ⟨(piece.reverse.takeWhile fun c => c == '\n' || c == '\r').reverse, ?_, ?_⟩
  · rw [withoutEnding, ← List.reverse_append, List.takeWhile_append_dropWhile, List.reverse_reverse]
  · intro c hc
    have hending := List.all_eq_true.mp List.all_takeWhile c (List.mem_reverse.mp hc)
    rwa [Bool.or_eq_true, beq_iff_eq, beq_iff_eq] at hending

/-- Line endings are white space. -/
theorem words_withoutEnding (piece : List Char) :
    words (String.ofList (withoutEnding piece)) = words (String.ofList piece) := by
  obtain ⟨ending, hpiece, hending⟩ := exists_eq_withoutEnding_append piece
  have hblank : Only isBlank (String.ofList ending) := by
    intro c hc
    rw [String.toList_ofList] at hc
    rcases hending c hc with rfl | rfl <;> decide
  conv => rhs; rw [hpiece]
  rw [String.ofList_append, words_append_of_blank_right hblank]

end Text

/-! ## Moved lines -/

/-- The location behind some lines and bytes more. -/
def Location.shift (lines bytes : Nat) (location : Location) : Location :=
  { line := location.line + lines
    start := location.start + bytes
    stop := location.stop + bytes }

namespace Line

/-- The line behind some lines and bytes more. -/
def shift (lines bytes : Nat) (line : Line) : Line :=
  { line with location := line.location.shift lines bytes }

/-- The lines of some pieces, numbered from `number` on and placed from `offset` on. -/
def listed (number offset : Nat) : List (List Char) → List Line
  | [] => []
  | piece :: rest =>
    ofPiece number offset piece ::
      listed (number + 1) (offset + (String.ofList piece).utf8ByteSize) rest

theorem toList_placed (number offset : Nat) (done : Array Line) (pieces : List (List Char)) :
    (placed number offset done pieces).toList = done.toList ++ listed number offset pieces := by
  induction pieces generalizing number offset done with
  | nil => rw [placed, listed, List.append_nil]
  | cons piece rest ih =>
    rw [placed, ih, listed, Array.toList_push, List.append_assoc, List.singleton_append]

theorem ofText_eq_listed (text : String) : ofText text = listed 1 0 (Text.pieces text.toList) := by
  rw [ofText, toList_placed, List.nil_append]

theorem length_listed (number offset : Nat) (pieces : List (List Char)) :
    (listed number offset pieces).length = pieces.length := by
  induction pieces generalizing number offset with
  | nil => rfl
  | cons piece rest ih => rw [listed, List.length_cons, ih, List.length_cons]

theorem listed_append (number offset : Nat) (pieces others : List (List Char)) :
    listed number offset (pieces ++ others) =
      listed number offset pieces ++
        listed (number + pieces.length) (offset + (String.ofList pieces.flatten).utf8ByteSize)
          others := by
  induction pieces generalizing number offset with
  | nil => rfl
  | cons piece rest ih =>
    rw [List.cons_append, listed, ih, listed, List.cons_append, List.flatten_cons,
      String.ofList_append, String.utf8ByteSize_append, List.length_cons]
    simp only [Nat.add_assoc, Nat.add_comm 1]

theorem ofPiece_shift (number offset lines bytes : Nat) (piece : List Char) :
    ofPiece (number + lines) (offset + bytes) piece =
      (ofPiece number offset piece).shift lines bytes := by
  simp only [ofPiece, shift, Location.shift, Line.mk.injEq, Location.mk.injEq, true_and]
  omega

theorem listed_shift (number offset lines bytes : Nat) (pieces : List (List Char)) :
    listed (number + lines) (offset + bytes) pieces =
      (listed number offset pieces).map (shift lines bytes) := by
  induction pieces generalizing number offset with
  | nil => rfl
  | cons piece rest ih =>
    have hnumber : number + lines + 1 = number + 1 + lines := by omega
    have hoffset : offset + bytes + (String.ofList piece).utf8ByteSize =
        offset + (String.ofList piece).utf8ByteSize + bytes := by omega
    rw [listed, listed, List.map_cons, hnumber, hoffset, ih, ofPiece_shift]

/-- The lines of a text behind a text that ends in a line feed. -/
theorem ofText_append {text : String} (h : ∀ last ∈ text.toList.getLast?, last = '\n')
    (other : String) :
    ofText (text ++ other) =
      ofText text ++ (ofText other).map (shift (ofText text).length text.utf8ByteSize) := by
  have hbytes : (String.ofList (Text.pieces text.toList).flatten).utf8ByteSize =
      text.utf8ByteSize := by
    rw [Text.flatten_pieces, String.ofList_toList]
  rw [ofText_eq_listed, ofText_eq_listed, ofText_eq_listed, String.toList_append,
    Text.pieces_append h, listed_append, hbytes, length_listed, listed_shift]

theorem map_words_listed (number offset : Nat) (pieces : List (List Char)) :
    (listed number offset pieces).map (fun line => Text.words line.text) =
      pieces.map fun piece => Text.words (String.ofList piece) := by
  induction pieces generalizing number offset with
  | nil => rfl
  | cons piece rest ih =>
    rw [listed, List.map_cons, ih, List.map_cons]
    exact congrArg (· :: _) (Text.words_withoutEnding piece)

theorem map_words_ofText_join {lines : List String} (h : ∀ line ∈ lines, Text.Lacks '\n' line) :
    (ofText (String.join (lines.map (· ++ "\n")))).map (fun line => Text.words line.text) =
      lines.map Text.words := by
  rw [ofText_eq_listed, map_words_listed, Text.pieces_join h, List.map_map]
  apply List.map_congr_left
  intro line _
  have hline : String.ofList (line.toList ++ ['\n']) = line ++ "\n" := by
    rw [String.ofList_append, String.ofList_toList]
  rw [Function.comp_apply, hline, Text.words_append_of_blank_right (by decide)]

end Line

end BitFont

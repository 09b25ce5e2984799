import BitFont.Proofs.Text.Lines

/-!
# Where lines stand

Cutting a text behind every line feed gives its pieces (`isCut_pieces`), and each line is made of
one of them. The location of the line marks that piece: it has the number of the piece, and its byte
range holds the piece without the carriage returns and line feeds at its end (`marks_of_mem_ofText`).
-/

namespace BitFont

/-- The pieces of a text that is cut behind every line feed. The last piece may lack one. -/
structure Text.IsCut (text : String) (pieces : List String) : Prop where
  join : String.join pieces = text
  nonempty : ∀ piece ∈ pieces, piece ≠ ""
  /-- A line feed ends its piece. -/
  single : ∀ piece ∈ pieces, '\n' ∉ piece.toList.dropLast
  terminated : ∀ piece ∈ pieces.dropLast, piece.toList.getLast? = some '\n'

/-- A piece without the carriage returns and line feeds at its end. -/
structure Text.IsContent (piece content : String) : Prop where
  ending : ∃ ending, piece = content ++ ending ∧ ∀ c ∈ ending.toList, c = '\n' ∨ c = '\r'
  stripped : ∀ last ∈ content.toList.getLast?, last ≠ '\n' ∧ last ≠ '\r'

/-- A location has the number of a piece, counted from one, and the bytes of its content. -/
structure Location.Marks (location : Location) (text : String) (pieces : List String) : Prop where
  line_pos : 1 ≤ location.line
  line_le : location.line ≤ pieces.length
  start_eq : location.start = (String.join (pieces.take (location.line - 1))).utf8ByteSize
  start_le_stop : location.start ≤ location.stop
  content : ∃ piece content, pieces[location.line - 1]? = some piece ∧
    Text.IsContent piece content ∧ '\n' ∉ content.toList ∧
      text.toUTF8.extract location.start location.stop = content.toUTF8
  /-- Both ends lie between characters of the text. -/
  isValid_start : String.Pos.Raw.IsValid text ⟨location.start⟩
  isValid_stop : String.Pos.Raw.IsValid text ⟨location.stop⟩

namespace Text

/-! ## Pieces -/

/-- A character in front of a text begins its first piece, unless it is a line feed, which is a
piece of its own. -/
theorem pieces_cons_cases (c : Char) (text : List Char) :
    (c = '\n' ∧ pieces (c :: text) = ['\n'] :: pieces text) ∨
      (c ≠ '\n' ∧ pieces text = [] ∧ pieces (c :: text) = [[c]]) ∨
      ∃ piece rest, c ≠ '\n' ∧ pieces text = piece :: rest ∧
        pieces (c :: text) = (c :: piece) :: rest := by
  rw [pieces_cons, pieceStep.eq_def]
  by_cases hfeed : c = '\n'
  · subst hfeed
    exact .inl ⟨rfl, if_pos rfl⟩
  · rw [if_neg hfeed]
    cases hcut : pieces text with
    | nil => exact .inr (.inl ⟨hfeed, rfl, rfl⟩)
    | cons piece rest => exact .inr (.inr ⟨piece, rest, hfeed, rfl, rfl⟩)

theorem ne_nil_of_mem_pieces (text : List Char) : ∀ piece ∈ pieces text, piece ≠ [] := by
  induction text with
  | nil => simp
  | cons c text ih =>
    rcases pieces_cons_cases c text with ⟨-, hcut⟩ | ⟨-, -, hcut⟩ | ⟨first, rest, -, hrest, hcut⟩
    · rw [hcut, List.forall_mem_cons]
      exact ⟨List.cons_ne_nil _ _, ih⟩
    · simp [hcut]
    · rw [hrest, List.forall_mem_cons] at ih
      rw [hcut, List.forall_mem_cons]
      exact ⟨List.cons_ne_nil _ _, ih.2⟩

theorem feed_not_mem_dropLast {text : List Char} :
    ∀ piece ∈ pieces text, '\n' ∉ piece.dropLast := by
  induction text with
  | nil => simp
  | cons c text ih =>
    have hne := ne_nil_of_mem_pieces text
    rcases pieces_cons_cases c text with
      ⟨-, hcut⟩ | ⟨-, -, hcut⟩ | ⟨first, rest, hfeed, hrest, hcut⟩
    · rw [hcut, List.forall_mem_cons]
      exact ⟨by simp, ih⟩
    · simp [hcut]
    · rw [hrest, List.forall_mem_cons] at ih hne
      rw [hcut, List.forall_mem_cons, List.dropLast_cons_of_ne_nil hne.1, List.mem_cons, not_or]
      exact ⟨⟨Ne.symm hfeed, ih.1⟩, ih.2⟩

theorem getLast?_of_mem_dropLast_pieces {text : List Char} :
    ∀ piece ∈ (pieces text).dropLast, piece.getLast? = some '\n' := by
  induction text with
  | nil => simp
  | cons c text ih =>
    rcases pieces_cons_cases c text with ⟨-, hcut⟩ | ⟨-, -, hcut⟩ | ⟨first, rest, -, hrest, hcut⟩
    · rw [hcut]
      cases hcuts : pieces text with
      | nil => simp
      | cons piece others =>
        rw [hcuts] at ih
        rw [List.dropLast_cons_of_ne_nil (List.cons_ne_nil _ _), List.forall_mem_cons]
        exact ⟨rfl, ih⟩
    · simp [hcut]
    · rw [hcut]
      rw [hrest] at ih
      cases rest with
      | nil => simp
      | cons next others =>
        rw [List.dropLast_cons_of_ne_nil (List.cons_ne_nil _ _), List.forall_mem_cons] at ih ⊢
        obtain ⟨hfirst, hothers⟩ := ih
        obtain ⟨before, rfl⟩ := List.getLast?_eq_some_iff.mp hfirst
        exact ⟨List.getLast?_eq_some_iff.mpr ⟨c :: before, rfl⟩, hothers⟩

theorem join_map_ofList (pieces : List (List Char)) :
    String.join (pieces.map String.ofList) = String.ofList pieces.flatten := by
  induction pieces with
  | nil => rfl
  | cons piece rest ih =>
    rw [List.map_cons, String.join_cons, ih, List.flatten_cons, String.ofList_append]

theorem isCut_pieces (text : String) : IsCut text ((pieces text.toList).map String.ofList) where
  join := by rw [join_map_ofList, flatten_pieces, String.ofList_toList]
  nonempty := by
    rw [List.forall_mem_map]
    intro piece hpiece hempty
    exact ne_nil_of_mem_pieces _ piece hpiece (String.ofList_eq_empty_iff.mp hempty)
  single := by
    rw [List.forall_mem_map]
    intro piece hpiece
    rw [String.toList_ofList]
    exact feed_not_mem_dropLast piece hpiece
  terminated := by
    rw [← List.map_dropLast, List.forall_mem_map]
    intro piece hpiece
    rw [String.toList_ofList]
    exact getLast?_of_mem_dropLast_pieces piece hpiece

/-! ## Contents -/

theorem isContent_withoutEnding (piece : List Char) :
    IsContent (String.ofList piece) (String.ofList (withoutEnding piece)) where
  ending := by
    obtain ⟨ending, hpiece, hending⟩ := exists_eq_withoutEnding_append piece
    refine ⟨String.ofList ending, ?_, ?_⟩
    · rw [← String.ofList_append, ← hpiece]
    · rwa [String.toList_ofList]
  stripped := by
    intro last hlast
    rw [String.toList_ofList, withoutEnding, List.getLast?_reverse] at hlast
    have hstop := List.head?_dropWhile_not (fun c => c == '\n' || c == '\r') piece.reverse
    rw [Option.mem_def.mp hlast] at hstop
    simpa using hstop

/-- The content of a piece has no line feed, since that of the piece stands at its end. -/
theorem feed_not_mem_of_isContent {piece content : String} (h : IsContent piece content)
    (hsingle : '\n' ∉ piece.toList.dropLast) : '\n' ∉ content.toList := by
  obtain ⟨ending, rfl, -⟩ := h.ending
  intro hfeed
  by_cases hending : ending.toList = []
  · -- Then the piece is its content, whose last character is no line feed.
    rw [String.toList_append, hending, List.append_nil] at hsingle
    obtain ⟨last, hlast⟩ := Option.isSome_iff_exists.mp
      (List.getLast?_isSome.mpr (List.ne_nil_of_mem hfeed))
    obtain ⟨before, hbefore⟩ := List.getLast?_eq_some_iff.mp hlast
    rw [hbefore, List.dropLast_concat] at hsingle
    rw [hbefore, List.mem_append, List.mem_singleton] at hfeed
    exact (h.stripped last hlast).1 (hfeed.resolve_left hsingle).symm
  · apply hsingle
    rw [String.toList_append, List.dropLast_append_of_ne_nil hending]
    exact List.mem_append_left _ hfeed

/-- The bytes of a text between two others. -/
theorem extract_toUTF8_append (before content rest : String) :
    (before ++ (content ++ rest)).toUTF8.extract before.utf8ByteSize
      (before.utf8ByteSize + content.utf8ByteSize) = content.toUTF8 := by
  simp only [String.toUTF8_eq_toByteArray, String.toByteArray_append]
  rw [← String.size_toByteArray, ← String.size_toByteArray]
  have hrest : (before.toByteArray ++ (content.toByteArray ++ rest.toByteArray)).extract
      (before.toByteArray.size + 0) (before.toByteArray.size + content.toByteArray.size) =
        (content.toByteArray ++ rest.toByteArray).extract 0 content.toByteArray.size :=
    ByteArray.extract_append_size_add
  rw [Nat.add_zero] at hrest
  rw [hrest, ByteArray.extract_append_eq_left rfl]

end Text

namespace Line

/-! ## Lines -/

/-- Every line is made of one piece, behind the number and the bytes of the pieces in front of it. -/
theorem exists_of_mem_listed {number offset : Nat} {pieces : List (List Char)} {line : Line}
    (h : line ∈ listed number offset pieces) :
    ∃ before piece rest, pieces = before ++ piece :: rest ∧
      line = ofPiece (number + before.length)
        (offset + (String.ofList before.flatten).utf8ByteSize) piece := by
  induction pieces generalizing number offset with
  | nil => simp [listed] at h
  | cons piece rest ih =>
    rw [listed, List.mem_cons] at h
    rcases h with rfl | h
    · exact ⟨[], piece, rest, rfl, rfl⟩
    · obtain ⟨before, found, others, rfl, rfl⟩ := ih h
      refine ⟨piece :: before, found, others, rfl, ?_⟩
      rw [List.flatten_cons, String.ofList_append, String.utf8ByteSize_append, List.length_cons]
      simp only [Nat.add_assoc, Nat.add_comm 1]

theorem marks_of_mem_ofText {text : String} {line : Line} (h : line ∈ ofText text) :
    line.location.Marks text ((Text.pieces text.toList).map String.ofList) := by
  have hcut := Text.isCut_pieces text
  rw [ofText_eq_listed] at h
  obtain ⟨before, piece, rest, hpieces, rfl⟩ := exists_of_mem_listed h
  rw [hpieces, List.map_append, List.map_cons] at hcut ⊢
  have hcontent := Text.isContent_withoutEnding piece
  have hsingle := hcut.single (String.ofList piece) (by simp)
  obtain ⟨ending, hpiece, -⟩ := hcontent.ending
  have htext : text = String.ofList before.flatten ++
      (String.ofList (Text.withoutEnding piece) ++
        (ending ++ String.join (rest.map String.ofList))) := by
    rw [← hcut.join, String.join_append, String.join_cons, Text.join_map_ofList, hpiece,
      String.append_assoc]
  have hline : (ofPiece (1 + before.length)
      (0 + (String.ofList before.flatten).utf8ByteSize) piece).location.line - 1 =
        (before.map String.ofList).length := by
    rw [List.length_map]
    exact Nat.add_sub_cancel_left 1 before.length
  refine {
    line_pos := Nat.le_add_right 1 before.length
    line_le := ?_
    start_eq := ?_
    start_le_stop := Nat.le_add_right _ _
    content := ⟨String.ofList piece, String.ofList (Text.withoutEnding piece), ?_, hcontent,
      Text.feed_not_mem_of_isContent hcontent hsingle, ?_⟩
    isValid_start := ?_
    isValid_stop := ?_ }
  · simp only [ofPiece, List.length_append, List.length_map, List.length_cons]
    omega
  · rw [hline, List.take_left, Text.join_map_ofList]
    exact Nat.zero_add _
  · rw [hline, List.getElem?_append_right (Nat.le_refl _), Nat.sub_self]
    rfl
  · conv => lhs; rw [htext]
    simp only [ofPiece, Nat.zero_add]
    exact Text.extract_toUTF8_append _ _ _
  · rw [String.Pos.Raw.isValid_iff_exists_append]
    refine ⟨_, _, htext, ?_⟩
    simp only [ofPiece, Nat.zero_add]
    rfl
  · rw [String.Pos.Raw.isValid_iff_exists_append]
    refine ⟨_, _, htext.trans String.append_assoc.symm, ?_⟩
    simp only [ofPiece, Nat.zero_add, String.rawEndPos, String.utf8ByteSize_append]

end Line

end BitFont

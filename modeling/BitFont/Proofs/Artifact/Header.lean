import BitFont.Proofs.Artifact.Names
import BitFont.Proofs.Artifact.Reader

/-!
# Reading headers

A header whose names are words is read back with all of its constants, in their order: no name ends
a line, and the only commas that are dropped are those that were put behind the values.
-/

namespace BitFont

open Text

namespace Header

/-! ## Enumerators -/

theorem words_enumeratorLine {enumerator : Enumerator} (h : IsWord enumerator.name) :
    words (enumeratorLine enumerator) = [enumerator.name, "=", toString enumerator.value] := by
  have hline : enumeratorLine enumerator =
      Listing.indent ++ Listing.padded nameColumns enumerator.name ++ " " ++
        ("=" ++ " " ++ toString enumerator.value) := by
    have hequals : " = " = " " ++ ("=" ++ " ") := by decide
    have hparts : enumeratorLine enumerator =
        Listing.indent ++ Listing.padded nameColumns enumerator.name ++
          (" = " ++ toString enumerator.value) := rfl
    rw [hparts, hequals]
    simp only [String.append_assoc]
  have hvalue : words ("=" ++ " " ++ toString enumerator.value) =
      ["=", toString enumerator.value] := by
    rw [words_append_space, words_of_isWord (isWord_toString _)]
    rfl
  rw [hline, words_append_space, words_append_of_blank Listing.isBlank_indent,
    Listing.words_padded _ h, hvalue, List.singleton_append]

theorem read?_enumeratorLine {enumerator : Enumerator} (h : IsWord enumerator.name) :
    Enumerator.read? (enumeratorLine enumerator) = some enumerator := by
  rw [Enumerator.read?, words_enumeratorLine h]
  simp only [decimal?_toString, Option.map_some]

theorem lacks_newline_enumeratorLine {enumerator : Enumerator} (h : IsWord enumerator.name) :
    Lacks '\n' (enumeratorLine enumerator) := by
  have hvalue : Lacks '\n' (toString enumerator.value) := (isWord_toString _).lacks (by decide)
  have hequals : Lacks '\n' (" = " ++ toString enumerator.value) :=
    Only.append (by decide) hvalue
  have hname : Lacks '\n' (Listing.padded nameColumns enumerator.name) :=
    Listing.lacks_newline_padded _ (h.lacks (by decide))
  exact (Only.append (by decide) hname).append hequals

/-! ## Lines -/

/-- The lines between the braces. -/
def body (header : Header) : List String :=
  Listing.commaSeparated (header.constants.map enumeratorLine)

theorem body_eq (header : Header) :
    header.body =
      header.enumerators.map (fun enumerator => enumeratorLine enumerator ++ ",") ++
        [enumeratorLine header.count] := by
  rw [body, constants, List.map_append, List.map_singleton,
    Listing.commaSeparated_append_of_ne_nil _ (List.cons_ne_nil _ _), List.map_map]
  rfl

/-- The lines in front of the enumeration. -/
def directives (header : Header) : List String :=
  [s!"#ifndef {header.guardName}", s!"#define {header.guardName}"]

theorem lines_eq (header : Header) :
    header.lines =
      header.directives ++
        ("enum " ++ header.typeName ++ " \x7b") ::
          (header.body ++ ["\x7d;", s!"#endif // {header.guardName}"]) := by
  rw [body_eq]
  simp only [lines, directives, List.append_assoc, List.cons_append, List.nil_append]
  rfl

theorem closing_not_mem_body (header : Header) : "\x7d;" ∉ header.body := by
  intro hmem
  rw [body_eq, List.mem_append, List.mem_map, List.mem_singleton] at hmem
  rcases hmem with ⟨enumerator, -, hline⟩ | hline
  · rw [enumeratorLine, String.append_assoc, String.append_assoc] at hline
    exact Listing.indent_append_ne_closing _ hline
  · rw [enumeratorLine, String.append_assoc] at hline
    exact Listing.indent_append_ne_closing _ hline.symm

/-- A header with names that a reader can tell apart from what stands around them. -/
structure IsLegible (header : Header) : Prop where
  guardName : IsIdentifier header.guardName
  typeName : IsIdentifier header.typeName
  names : ∀ constant ∈ header.constants, IsWord constant.name

theorem isLegible_ofCompilation {naming : Naming} {compilation : Compilation}
    (hstem : IsIdentifier naming.stem)
    (hids : ∀ glyph ∈ compilation.glyphs, IsWord glyph.entry.id) :
    (ofCompilation naming compilation).IsLegible := by
  refine ⟨Naming.isIdentifier_guardName hstem, Naming.isIdentifier_typeName hstem, ?_⟩
  intro constant hconstant
  rw [constants, List.mem_append, ofCompilation, List.mem_flatMap, List.mem_singleton] at hconstant
  rcases hconstant with ⟨glyph, hglyph, hconstant⟩ | rfl
  · have hid := hids glyph hglyph
    simp only [ofGlyph, List.mem_cons, List.not_mem_nil, or_false] at hconstant
    rcases hconstant with rfl | rfl | rfl | rfl | rfl
    · exact Naming.isWord_index hstem hid
    · exact Naming.isWord_aspect hstem hid .width
    · exact Naming.isWord_aspect hstem hid .height
    · exact Naming.isWord_aspect hstem hid .offset
    · exact Naming.isWord_aspect hstem hid .size
  · exact Naming.isWord_count hstem

namespace IsLegible

variable {header : Header}

theorem lacks_newline_of_mem_body (h : header.IsLegible) :
    ∀ line ∈ header.body, Lacks '\n' line := by
  intro line hline
  rw [body_eq, List.mem_append, List.mem_map, List.mem_singleton] at hline
  rcases hline with ⟨constant, hconstant, rfl⟩ | rfl
  · have hname := h.names constant (List.mem_append_left _ hconstant)
    exact (lacks_newline_enumeratorLine hname).append (by decide)
  · have hname := h.names header.count (List.mem_append_right _ (List.mem_singleton_self _))
    exact lacks_newline_enumeratorLine hname

theorem lacks_newline_of_mem_lines (h : header.IsLegible) :
    ∀ line ∈ header.lines, Lacks '\n' line := by
  have hguard : Lacks '\n' header.guardName := h.guardName.lacks (by decide)
  have htype : Lacks '\n' header.typeName := h.typeName.lacks (by decide)
  intro line hline
  rw [lines_eq, directives] at hline
  simp only [List.mem_append, List.mem_cons, List.not_mem_nil, or_false] at hline
  rcases hline with (rfl | rfl) | rfl | hbody | rfl | rfl
  · exact Only.append (by decide) hguard
  · exact Only.append (by decide) hguard
  · exact (Only.append (by decide) htype).append (by decide)
  · exact h.lacks_newline_of_mem_body line hbody
  · decide
  · exact Only.append (by decide) hguard

theorem readText?_text (h : header.IsLegible) :
    Declaration.readText? header.text =
      some [{ head := "enum" :: words header.typeName, body := header.body }] := by
  have hguard : Lacks '\x7b' header.guardName := h.guardName.lacks (by decide)
  have hbefore : ∀ line ∈ header.directives, Declaration.head? line = none := by
    intro line hline
    simp only [directives, List.mem_cons, List.not_mem_nil, or_false] at hline
    rcases hline with rfl | rfl
    · exact Declaration.head?_eq_none_of_lacks (Only.append (by decide) hguard)
    · exact Declaration.head?_eq_none_of_lacks (Only.append (by decide) hguard)
  have hafter : ∀ line ∈ [s!"#endif // {header.guardName}", ""],
      Declaration.head? line = none := by
    intro line hline
    simp only [List.mem_cons, List.not_mem_nil, or_false] at hline
    rcases hline with rfl | rfl
    · exact Declaration.head?_eq_none_of_lacks (Only.append (by decide) hguard)
    · rfl
  have hheading : Declaration.head? ("enum " ++ header.typeName ++ " \x7b") =
      some ("enum" :: words header.typeName) := by
    have hline : "enum " ++ header.typeName ++ " \x7b" =
        "enum" ++ " " ++ (header.typeName ++ " ") ++ "\x7b" := by
      simp [String.append_assoc]
    rw [hline, Declaration.head?_append_brace, words_append_space,
      words_append_of_blank_right (by decide)]
    rfl
  have hlines : header.lines ++ [""] =
      header.directives ++
        ("enum " ++ header.typeName ++ " \x7b") ::
          (header.body ++ "\x7d;" :: [s!"#endif // {header.guardName}", ""]) := by
    rw [lines_eq]
    simp only [List.append_assoc, List.cons_append, List.nil_append]
  have hrest := Declaration.readLines?_none_append hafter []
  rw [List.append_nil] at hrest
  rw [Declaration.readText?, text, Listing.lines_text h.lacks_newline_of_mem_lines, hlines,
    Declaration.readLines?_none_append hbefore,
    Declaration.readLines?_declaration hheading header.closing_not_mem_body, hrest]
  rfl

/-- The constants of a header are read back from its text. -/
theorem read?_text (h : header.IsLegible) : read? header.text = some header.constants := by
  have hlines : ∀ constant ∈ header.constants,
      Enumerator.read? (enumeratorLine constant) = some constant := by
    intro constant hconstant
    exact read?_enumeratorLine (h.names constant hconstant)
  rw [read?, h.readText?_text]
  dsimp only
  rw [if_pos List.head?_cons, body, Listing.separated?_commaSeparated, Option.bind_some,
    mapM_map_eq_some hlines]

end IsLegible

end Header

end BitFont

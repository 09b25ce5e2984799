import BitFont.Proofs.Artifact.Tables

/-!
# Reading data files

A data file is its three tables with lines between them that declare nothing. No name and no comment
breaks a line or closes a table early, so each table is read from its own lines (`read?_text`).
-/

namespace BitFont

open Text

namespace Data

/-! ## Lines -/

theorem lacks_newline_of_mem_nameLines {names : List String}
    (h : ∀ name ∈ names, Lacks '\n' name) : ∀ line ∈ nameLines names, Lacks '\n' line := by
  intro line hline
  rw [nameLines, List.mem_map] at hline
  obtain ⟨item, hitem, rfl⟩ := hline
  obtain ⟨joined, hjoined, hsame⟩ := Listing.exists_of_mem_commaSeparated hitem
  obtain ⟨group, hgroup, rfl⟩ := List.mem_map.mp hjoined
  have hgroup' : Lacks '\n' (", ".intercalate group) := by
    apply Only.intercalate (by decide)
    intro name hname
    have hmem : name ∈ (Listing.chunks namesPerLine names).flatten :=
      List.mem_flatten.mpr ⟨group, hgroup, hname⟩
    rw [Listing.flatten_chunks] at hmem
    exact h name hmem
  apply Only.append (by decide)
  rcases hsame with rfl | rfl
  · exact hgroup'
  · exact hgroup'.append (by decide)

theorem lacks_newline_of_mem_tableLines {data : Data} {table : NameTable}
    (htype : Lacks '\n' table.elementType) (hname : Lacks '\n' table.name)
    (hcount : Lacks '\n' data.countName) (hcells : ∀ cell ∈ table.cells, Lacks '\n' cell) :
    ∀ line ∈ data.tableLines table, Lacks '\n' line := by
  have htype' : Lacks '\n' ("const " ++ table.elementType ++ " ") :=
    (Only.append (by decide) htype).append (by decide)
  have hdeclarator : Lacks '\n'
      ("const " ++ table.elementType ++ " " ++ table.name ++ "[" ++ data.countName) :=
    ((htype'.append hname).append (by decide)).append hcount
  intro line hline
  simp only [tableLines, List.mem_append, List.mem_cons, List.not_mem_nil, or_false] at hline
  rcases hline with (rfl | hcell) | rfl | rfl
  · exact hdeclarator.append (by decide)
  · exact lacks_newline_of_mem_nameLines hcells line hcell
  · decide
  · decide

theorem lacks_newline_byteLine (totalSize position : Nat) (bytes : List UInt8) :
    Lacks '\n' (byteLine totalSize position bytes) := by
  rw [Lacks, Only, toList_byteLine, List.forall_mem_append]
  refine ⟨(by decide : Lacks '\n' Listing.indent), ?_⟩
  induction bytes generalizing position with
  | nil => simp [byteChars]
  | cons byte rest ih =>
    rw [byteChars, List.forall_mem_append, List.forall_mem_append]
    refine ⟨?_, ?_, ih (position + 1)⟩
    · intro c hc
      rw [bne_iff_ne]
      rintro rfl
      have hblank := not_separates_byteText byte '\n' hc
      contradiction
    · split
      · simp
      · simp

theorem lacks_newline_blockComment {data : Data} {entry : Layout.Entry}
    (htype : Lacks '\n' data.typeName) (hid : Lacks '\n' entry.id) :
    Lacks '\n' (data.blockComment entry) := by
  have hoffset : Lacks '\n' (toString entry.offset) := (isWord_toString _).lacks (by decide)
  have hsize : Lacks '\n' (toString entry.size) := (isWord_toString _).lacks (by decide)
  have hglyph : Lacks '\n' (data.typeName ++ ": " ++ entry.id) :=
    (htype.append (by decide)).append hid
  have hplace : Lacks '\n' (data.typeName ++ ": " ++ entry.id ++ ", offset " ++
      toString entry.offset) := (hglyph.append (by decide)).append hoffset
  exact Only.append (by decide) ((hplace.append (by decide)).append hsize)

theorem lacks_newline_of_mem_streamBody {data : Data} (htype : Lacks '\n' data.typeName)
    (hids : ∀ block ∈ data.blocks, Lacks '\n' block.entry.id) :
    ∀ line ∈ data.streamBody, Lacks '\n' line := by
  intro line hline
  rw [streamBody, List.mem_append, List.mem_flatMap, List.mem_singleton] at hline
  rcases hline with ⟨block, hblock, hline⟩ | rfl
  · rw [blockLines_eq, List.mem_cons, List.mem_append, List.mem_singleton] at hline
    rcases hline with rfl | hbytes | rfl
    · exact Only.append (by decide) (lacks_newline_blockComment htype (hids block hblock))
    · obtain ⟨chunk, -, rfl⟩ := List.mem_map.mp hbytes
      exact lacks_newline_byteLine _ _ _
    · decide
  · decide

theorem closing_not_mem_nameLines (names : List String) : "\x7d;" ∉ nameLines names := by
  intro hmem
  obtain ⟨line, -, hline⟩ := List.mem_map.mp hmem
  exact Listing.indent_append_ne_closing line hline

theorem closing_not_mem_streamBody (data : Data) : "\x7d;" ∉ data.streamBody := by
  intro hmem
  rw [streamBody, List.mem_append, List.mem_flatMap, List.mem_singleton] at hmem
  rcases hmem with ⟨block, -, hline⟩ | hline
  · rw [blockLines_eq, List.mem_cons, List.mem_append, List.mem_singleton] at hline
    rcases hline with hcomment | hbytes | hempty
    · exact Listing.indent_append_ne_closing _ hcomment.symm
    · obtain ⟨chunk, -, hline⟩ := List.mem_map.mp hbytes
      exact Listing.indent_append_ne_closing _ hline
    · contradiction
  · exact Listing.indent_append_ne_closing _ hline.symm

/-! ## Declarations -/

theorem readLines?_tableLines {data : Data} {table : NameTable} {kind : String}
    (htype : table.elementType = "unsigned " ++ kind) (hkind : IsWord kind)
    (hname : IsIdentifier table.name) (hcount : IsIdentifier data.countName) (rest : List String) :
    Declaration.readLines? none (data.tableLines table ++ rest) =
      (Declaration.readLines? none rest).map
        ({ head := ["const", "unsigned", kind, table.name ++ "[" ++ data.countName ++ "]", "="]
           body := nameLines table.cells } :: ·) := by
  have hempty : ∀ line ∈ [""], Declaration.head? line = none := by
    intro line hline
    rw [List.mem_singleton.mp hline]
    rfl
  have hheading : "const " ++ table.elementType ++ " " ++ table.name ++ "[" ++ data.countName ++
      "] = \x7b" =
        "const unsigned " ++ kind ++ " " ++ table.name ++ "[" ++ data.countName ++ "] = \x7b" := by
    rw [htype, ← String.append_assoc]
    rfl
  have hlines : data.tableLines table ++ rest =
      ("const " ++ table.elementType ++ " " ++ table.name ++ "[" ++ data.countName ++ "] = \x7b") ::
        (nameLines table.cells ++ "\x7d;" :: ([""] ++ rest)) := by
    simp only [tableLines, List.append_assoc, List.cons_append, List.nil_append]
    rfl
  rw [hlines, hheading, Declaration.readLines?_declaration (Table.head?_heading hkind hname hcount)
    (closing_not_mem_nameLines _), Declaration.readLines?_none_append hempty]

theorem readLines?_stream {data : Data} (hname : IsIdentifier data.dataName) :
    Declaration.readLines? none
        (("const unsigned char " ++ data.dataName ++ "[] = \x7b") ::
          (data.streamBody ++ ["\x7d;", ""])) =
      some [
        { head := ["const", "unsigned", "char", data.dataName ++ "[" ++ "" ++ "]", "="]
          body := data.streamBody }] := by
  have hchar : IsWord "char" := ⟨by decide, by decide⟩
  have hheading : "const unsigned char " ++ data.dataName ++ "[] = \x7b" =
      "const unsigned " ++ "char" ++ " " ++ data.dataName ++ "[" ++ "" ++ "] = \x7b" := by
    simp [String.append_assoc]
  have hempty : IsIdentifier "" := by decide
  have hhead := Table.head?_heading hchar hname hempty
  rw [← hheading] at hhead
  rw [Declaration.readLines?_declaration hhead (closing_not_mem_streamBody data)]
  rfl

/-! ## Texts -/

/-- The comment in front of the stream neither breaks a line nor opens a declaration. -/
theorem lacks_totals (count totalSize : Nat) {c : Char} (h : c = '\n' ∨ c = '\x7b') :
    Lacks c s!"// {count} glyphs.  Total data size {totalSize} bytes." := by
  have hnumeral (n : Nat) : Lacks c (toString n) := by
    apply (isIdentifier_toString n).lacks
    rcases h with rfl | rfl <;> decide
  have hopening : Lacks c "// " := by rcases h with rfl | rfl <;> decide
  have hmiddle : Lacks c " glyphs.  Total data size " := by rcases h with rfl | rfl <;> decide
  have hending : Lacks c " bytes." := by rcases h with rfl | rfl <;> decide
  exact (((hopening.append (hnumeral count)).append hmiddle).append (hnumeral totalSize)).append
    hending

/-- The lines between the tables of names and the stream. -/
def comments (data : Data) : List String :=
  [ s!"// {data.blocks.length} glyphs.  Total data size {data.totalSize} bytes.",
    "// This is run-length encoded.  One byte count, one byte value.  The exception is",
    "// a single 0 which represents one zero." ]

theorem lacks_of_mem_comments (data : Data) {c : Char} (h : c = '\n' ∨ c = '\x7b') :
    ∀ line ∈ data.comments, Lacks c line := by
  intro line hline
  simp only [comments, List.mem_cons, List.not_mem_nil, or_false] at hline
  rcases hline with rfl | rfl | rfl
  · exact lacks_totals _ _ h
  · rcases h with rfl | rfl <;> decide
  · rcases h with rfl | rfl <;> decide

theorem lines_eq (data : Data) :
    data.lines =
      data.tableLines data.offsets ++
        (data.tableLines data.sizes ++
          (data.comments ++
            ("const unsigned char " ++ data.dataName ++ "[] = \x7b") ::
              (data.streamBody ++ ["\x7d;"]))) := by
  simp only [lines, comments, streamBody, List.append_assoc, List.cons_append, List.nil_append]
  rfl

/-- Data without line feeds in it. -/
structure IsUnbroken (data : Data) : Prop where
  offsetsType : Lacks '\n' data.offsets.elementType
  sizesType : Lacks '\n' data.sizes.elementType
  typeName : Lacks '\n' data.typeName
  countName : Lacks '\n' data.countName
  offsetsName : Lacks '\n' data.offsets.name
  sizesName : Lacks '\n' data.sizes.name
  dataName : Lacks '\n' data.dataName
  offsetCells : ∀ cell ∈ data.offsets.cells, Lacks '\n' cell
  sizeCells : ∀ cell ∈ data.sizes.cells, Lacks '\n' cell
  ids : ∀ block ∈ data.blocks, Lacks '\n' block.entry.id

theorem IsUnbroken.lacks_newline_of_mem_lines {data : Data} (h : data.IsUnbroken) :
    ∀ line ∈ data.lines, Lacks '\n' line := by
  intro line hline
  rw [lines_eq] at hline
  simp only [List.mem_append, List.mem_cons, List.not_mem_nil, or_false] at hline
  rcases hline with hoffsets | hsizes | hcomment | rfl | hstream | rfl
  · exact lacks_newline_of_mem_tableLines h.offsetsType h.offsetsName h.countName h.offsetCells
      line hoffsets
  · exact lacks_newline_of_mem_tableLines h.sizesType h.sizesName h.countName h.sizeCells line
      hsizes
  · exact lacks_of_mem_comments data (.inl rfl) line hcomment
  · exact (Only.append (by decide) h.dataName).append (by decide)
  · exact lacks_newline_of_mem_streamBody h.typeName h.ids line hstream
  · decide

/-- Data with names that a reader can tell apart from what stands around them. -/
structure IsLegible (data : Data) : Prop where
  offsetsType : data.offsets.elementType = "unsigned short"
  sizesType : data.sizes.elementType = "unsigned char"
  typeName : IsIdentifier data.typeName
  countName : IsIdentifier data.countName
  offsetsName : IsIdentifier data.offsets.name
  sizesName : IsIdentifier data.sizes.name
  dataName : IsIdentifier data.dataName
  offsetCells : ∀ cell ∈ data.offsets.cells, IsWord cell
  sizeCells : ∀ cell ∈ data.sizes.cells, IsWord cell
  ids : ∀ block ∈ data.blocks, IsWord block.entry.id

theorem isLegible_ofCompilation {naming : Naming} {compilation : Compilation}
    (hstem : IsIdentifier naming.stem)
    (hids : ∀ glyph ∈ compilation.glyphs, IsWord glyph.entry.id) :
    (ofCompilation naming compilation).IsLegible := by
  have hcells (aspect : Aspect) :
      ∀ cell ∈ compilation.glyphs.map fun glyph => naming.aspect glyph.entry.id aspect,
        IsWord cell := by
    intro cell hcell
    obtain ⟨glyph, hglyph, rfl⟩ := List.mem_map.mp hcell
    exact Naming.isWord_aspect hstem (hids glyph hglyph) aspect
  exact {
    offsetsType := rfl
    sizesType := rfl
    typeName := Naming.isIdentifier_typeName hstem
    countName := Naming.isIdentifier_count hstem
    offsetsName := Naming.isIdentifier_table hstem (by decide)
    sizesName := Naming.isIdentifier_table hstem (by decide)
    dataName := Naming.isIdentifier_table hstem (by decide)
    offsetCells := hcells .offset
    sizeCells := hcells .size
    ids := fun block hblock =>
      hids block.glyph (DataBlock.glyph_mem_of_mem_ofGlyphs hblock) }

namespace IsLegible

variable {data : Data}

theorem isUnbroken (h : data.IsLegible) : data.IsUnbroken where
  offsetsType := by
    rw [h.offsetsType]
    decide
  sizesType := by
    rw [h.sizesType]
    decide
  typeName := h.typeName.lacks (by decide)
  countName := h.countName.lacks (by decide)
  offsetsName := h.offsetsName.lacks (by decide)
  sizesName := h.sizesName.lacks (by decide)
  dataName := h.dataName.lacks (by decide)
  offsetCells := fun cell hcell => (h.offsetCells cell hcell).lacks (by decide)
  sizeCells := fun cell hcell => (h.sizeCells cell hcell).lacks (by decide)
  ids := fun block hblock => (h.ids block hblock).lacks (by decide)

theorem readText?_text (h : data.IsLegible) :
    Declaration.readText? data.text =
      some [
        { head := ["const", "unsigned", "short",
            data.offsets.name ++ "[" ++ data.countName ++ "]", "="]
          body := nameLines data.offsets.cells },
        { head := ["const", "unsigned", "char",
            data.sizes.name ++ "[" ++ data.countName ++ "]", "="]
          body := nameLines data.sizes.cells },
        { head := ["const", "unsigned", "char", data.dataName ++ "[" ++ "" ++ "]", "="]
          body := data.streamBody }] := by
  have hshort : IsWord "short" := ⟨by decide, by decide⟩
  have hchar : IsWord "char" := ⟨by decide, by decide⟩
  have hcomments : ∀ line ∈ data.comments, Declaration.head? line = none := by
    intro line hline
    exact Declaration.head?_eq_none_of_lacks (lacks_of_mem_comments data (.inr rfl) line hline)
  have hlines : data.lines ++ [""] =
      data.tableLines data.offsets ++
        (data.tableLines data.sizes ++
          (data.comments ++
            ("const unsigned char " ++ data.dataName ++ "[] = \x7b") ::
              (data.streamBody ++ ["\x7d;", ""]))) := by
    rw [lines_eq]
    simp only [List.append_assoc, List.cons_append, List.nil_append]
  rw [Declaration.readText?, text, Listing.lines_text h.isUnbroken.lacks_newline_of_mem_lines,
    hlines,
    readLines?_tableLines h.offsetsType hshort h.offsetsName h.countName,
    readLines?_tableLines h.sizesType hchar h.sizesName h.countName,
    Declaration.readLines?_none_append hcomments, readLines?_stream h.dataName]
  rfl

/-- The tables of a data file are read back from its text. -/
theorem read?_text (h : data.IsLegible)
    (hplaced : ∀ block ∈ data.blocks,
      block.written + block.bytes.length ≤ data.totalSize) :
    read? data.text =
      some
        { offsets :=
            { elementType := "short"
              name := data.offsets.name
              bound := data.countName
              cells := data.offsets.cells }
          sizes :=
            { elementType := "char"
              name := data.sizes.name
              bound := data.countName
              cells := data.sizes.cells }
          stream :=
            { elementType := "char"
              name := data.dataName
              bound := ""
              cells := data.blocks.flatMap (·.bytes) } } := by
  rw [read?, h.readText?_text]
  dsimp only
  rw [Table.read?_heading h.offsetsName h.countName, Table.read?_heading h.sizesName h.countName,
    Table.read?_heading h.dataName (by decide), nameCells?_nameLines h.offsetCells,
    nameCells?_nameLines h.sizeCells, byteCells?_streamBody hplaced]
  rfl

end IsLegible

end Data

end BitFont

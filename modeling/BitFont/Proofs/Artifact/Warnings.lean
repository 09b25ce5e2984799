import BitFont.Proofs.Artifact.Agreement
import BitFont.Proofs.Artifact.Collisions
import BitFont.Proofs.Source.Notices

/-!
# Warnings about generated sources

The names of a glyph are C identifiers if the stem can begin one and the identifier of the glyph can
go on with it. Only the second is looked at, so every warning about a name is right, and warnings are
missing under stems that cannot begin a C identifier (`Source.silent_about_stem`). Offsets and sizes
are warned about exactly if the cells of the tables do not hold them (`Source.warnings_generate`).
-/

namespace BitFont

open Text

/-! ## C identifiers -/

/-- Letters of ASCII, digits and underscores, at least one of them, and no digit in front. -/
structure IsCName (name : String) : Prop where
  ne_empty : name ≠ ""
  chars : Only (fun c => c.isAlphanum || c == '_') name
  head : name.toList.head?.any Char.isDigit = false

instance (name : String) : Decidable (IsCName name) :=
  decidable_of_iff (name ≠ "" ∧ Only (fun c => c.isAlphanum || c == '_') name ∧
      name.toList.head?.any Char.isDigit = false)
    ⟨fun ⟨hne, hchars, hhead⟩ => ⟨hne, hchars, hhead⟩,
      fun ⟨hne, hchars, hhead⟩ => ⟨hne, hchars, hhead⟩⟩

/-- Whether a name may begin with a digit is decided by its front, and the rest only continues it. -/
theorem isCName_append_iff {front tail : String} (hne : front ≠ "") :
    IsCName (front ++ tail) ↔
      IsCName front ∧ Only (fun c => c.isAlphanum || c == '_') tail := by
  have hhead : (front ++ tail).toList.head? = front.toList.head? := by
    rw [String.toList_append, List.head?_append_of_ne_nil]
    intro hnil
    exact hne (String.toList_eq_nil_iff.mp hnil)
  constructor
  · rintro ⟨-, hchars, hdigit⟩
    rw [hhead] at hdigit
    have hmem {c : Char} (hc : c ∈ front.toList ∨ c ∈ tail.toList) :
        c ∈ (front ++ tail).toList := by
      rwa [String.toList_append, List.mem_append]
    exact ⟨⟨hne, fun c hc => hchars c (hmem (.inl hc)), hdigit⟩,
      fun c hc => hchars c (hmem (.inr hc))⟩
  · rintro ⟨⟨-, hchars, hdigit⟩, htail⟩
    refine ⟨?_, hchars.append htail, hhead ▸ hdigit⟩
    intro hempty
    exact hne (String.append_eq_empty_iff.mp hempty).1

/-! ## Warnings -/

theorem toNat_ofNat_uint16_ne_iff (n : Nat) : (UInt16.ofNat n).toNat ≠ n ↔ ¬ n ≤ maxOffset := by
  rw [UInt16.toNat_ofNat', maxOffset]
  omega

theorem toNat_ofNat_uint8_ne_iff (n : Nat) : (UInt8.ofNat n).toNat ≠ n ↔ ¬ n ≤ maxSize := by
  rw [UInt8.toNat_ofNat', maxSize]
  omega

/-- What a glyph brings can be written: its identifier goes on a name, and cells of sixteen and of
eight bits hold its offset and its size. -/
structure Layout.Entry.Fits (entry : Layout.Entry) : Prop where
  id : IsIdentifier entry.id
  offset : (UInt16.ofNat entry.offset).toNat = entry.offset
  size : (UInt8.ofNat entry.size).toNat = entry.size

/-- What can be warned about in sources with names of this stem, for one glyph. -/
def Layout.Entry.warnings (stem : String) (entry : Layout.Entry) : List Notice :=
  [ .notAnIdentifier s!"{stem}_{entry.id}",
    .offsetTooLarge entry.offset entry.id,
    .sizeTooLarge entry.size entry.id ]

namespace Layout.Entry

variable {entry : Layout.Entry} {notice : Notice}

theorem mem_warnings_iff {stem : String} :
    notice ∈ entry.warnings stem ↔
      notice = .notAnIdentifier s!"{stem}_{entry.id}" ∨
      notice = .offsetTooLarge entry.offset entry.id ∨
      notice = .sizeTooLarge entry.size entry.id := by
  rw [warnings, List.mem_cons, List.mem_cons, List.mem_singleton]

theorem mem_limits_iff {naming : Naming} :
    notice ∈ entry.limits naming ↔
      (notice = .notAnIdentifier (naming.index entry.id) ∧ ¬ isIdentifierTail entry.id = true) ∨
      (notice = .offsetTooLarge entry.offset entry.id ∧ ¬ entry.offset ≤ maxOffset) ∨
      (notice = .sizeTooLarge entry.size entry.id ∧ ¬ entry.size ≤ maxSize) := by
  have hunless (p : Prop) [Decidable p] (warning : Notice) :
      notice ∈ (if p then [] else [warning]) ↔ notice = warning ∧ ¬ p := by
    by_cases hp : p <;> simp [hp]
  rw [limits, List.mem_append, List.mem_append, hunless, hunless, hunless, or_assoc]

end Layout.Entry

namespace Compilation

variable {font : Compilation} {naming : Naming} {glyph : CompiledGlyph}

theorem mem_limits_iff {notice : Notice} :
    notice ∈ font.limits naming ↔
      (notice = .noGlyphs ∧ font.layout.isEmpty = true) ∨
        ∃ glyph ∈ font.glyphs, notice ∈ glyph.entry.limits naming := by
  rw [limits, List.mem_append, List.mem_flatMap]
  by_cases hempty : font.layout.isEmpty = true <;> simp [hempty]

/-- A warning that fits a glyph is given for it, if it is given at all. -/
theorem mem_limits_iff_of_mem_warnings (h : glyph ∈ font.glyphs) {warning : Notice}
    (hwarning : warning ∈ glyph.entry.warnings naming.stem) :
    warning ∈ font.limits naming ↔ warning ∈ glyph.entry.limits naming := by
  rw [mem_limits_iff]
  constructor
  · rintro (⟨rfl, -⟩ | ⟨other, -, hother⟩)
    · simp [Layout.Entry.mem_warnings_iff] at hwarning
    · rw [Layout.Entry.mem_limits_iff] at hother ⊢
      rw [Layout.Entry.mem_warnings_iff] at hwarning
      -- A name gives back its identifier, and the other warnings carry the number they are about.
      rcases hother with ⟨rfl, htail⟩ | ⟨rfl, hlarge⟩ | ⟨rfl, hlarge⟩
      · rcases hwarning with hsame | hsame | hsame
        · have hname :
              naming.stem ++ "_" ++ other.entry.id = naming.stem ++ "_" ++ glyph.entry.id :=
            Notice.notAnIdentifier.inj hsame
          rw [(String.append_right_inj _).mp hname] at htail
          exact .inl ⟨hsame, htail⟩
        · contradiction
        · contradiction
      · rcases hwarning with hsame | hsame | hsame
        · contradiction
        · rw [(Notice.offsetTooLarge.inj hsame).1] at hlarge
          exact .inr (.inl ⟨hsame, hlarge⟩)
        · contradiction
      · rcases hwarning with hsame | hsame | hsame
        · contradiction
        · contradiction
        · rw [(Notice.sizeTooLarge.inj hsame).1] at hlarge
          exact .inr (.inr ⟨hsame, hlarge⟩)
  · intro hmem
    exact .inr ⟨glyph, h, hmem⟩

theorem notAnIdentifier_mem_limits_iff (naming : Naming) (h : glyph ∈ font.glyphs) :
    .notAnIdentifier (naming.index glyph.entry.id) ∈ font.limits naming ↔
      ¬ IsIdentifier glyph.entry.id := by
  have htail : isIdentifierTail glyph.entry.id = true ↔ IsIdentifier glyph.entry.id :=
    List.all_eq_true
  have hmem : .notAnIdentifier (naming.index glyph.entry.id) ∈ glyph.entry.warnings naming.stem :=
    Layout.Entry.mem_warnings_iff.mpr (.inl rfl)
  rw [mem_limits_iff_of_mem_warnings h hmem, Layout.Entry.mem_limits_iff, ← htail]
  simp

theorem offsetTooLarge_mem_limits_iff (naming : Naming) (h : glyph ∈ font.glyphs) :
    .offsetTooLarge glyph.entry.offset glyph.entry.id ∈ font.limits naming ↔
      (UInt16.ofNat glyph.entry.offset).toNat ≠ glyph.entry.offset := by
  rw [mem_limits_iff_of_mem_warnings h (Layout.Entry.mem_warnings_iff.mpr (.inr (.inl rfl))),
    Layout.Entry.mem_limits_iff, toNat_ofNat_uint16_ne_iff]
  simp

theorem sizeTooLarge_mem_limits_iff (naming : Naming) (h : glyph ∈ font.glyphs) :
    .sizeTooLarge glyph.entry.size glyph.entry.id ∈ font.limits naming ↔
      (UInt8.ofNat glyph.entry.size).toNat ≠ glyph.entry.size := by
  rw [mem_limits_iff_of_mem_warnings h (Layout.Entry.mem_warnings_iff.mpr (.inr (.inr rfl))),
    Layout.Entry.mem_limits_iff, toNat_ofNat_uint8_ne_iff]
  simp

/-- Of a glyph without warnings, the sources can take everything. -/
theorem fits_of_forall_not_mem_limits (h : glyph ∈ font.glyphs)
    (hsilent : ∀ warning ∈ glyph.entry.warnings naming.stem, warning ∉ font.limits naming) :
    glyph.entry.Fits := by
  simp only [Layout.Entry.mem_warnings_iff, forall_eq_or_imp, forall_eq] at hsilent
  obtain ⟨hname, hoffset, hsize⟩ := hsilent
  exact {
    id := of_not_not fun hid => hname ((notAnIdentifier_mem_limits_iff naming h).mpr hid)
    offset := of_not_not fun hlost => hoffset ((offsetTooLarge_mem_limits_iff naming h).mpr hlost)
    size := of_not_not fun hlost => hsize ((sizeTooLarge_mem_limits_iff naming h).mpr hlost) }

end Compilation

/-! ## Names -/

theorem stem_append_ne_empty (stem : String) : stem ++ "_" ≠ "" := by
  intro hempty
  have hjoint := (String.append_eq_empty_iff.mp hempty).2
  contradiction

theorem isIdentifier_stem_of_isCName {stem : String} (h : IsCName (stem ++ "_")) :
    IsIdentifier stem := by
  intro c hc
  apply h.chars
  rw [String.toList_append]
  exact List.mem_append_left _ hc

/-- All names of a header begin alike, and go on with an identifier or with the name of the count. -/
theorem Header.isCName_of_mem_constants {naming : Naming} {font : Compilation}
    (hstem : IsCName (naming.stem ++ "_"))
    (hfits : ∀ glyph ∈ font.glyphs, glyph.entry.Fits) :
    ∀ constant ∈ (ofCompilation naming font).constants, IsCName constant.name := by
  intro constant hconstant
  have hname : constant.name ∈ (ofCompilation naming font).constants.map (·.name) :=
    List.mem_map_of_mem hconstant
  rw [map_name_constants, List.mem_map] at hname
  obtain ⟨tail, htail, hname⟩ := hname
  rw [← hname, isCName_append_iff (stem_append_ne_empty _)]
  refine ⟨hstem, ?_⟩
  rw [List.mem_append, List.mem_flatMap, List.mem_singleton] at htail
  rcases htail with ⟨id, hid, htail⟩ | rfl
  · obtain ⟨glyph, hglyph, rfl⟩ := List.mem_map.mp hid
    have hid := (hfits glyph hglyph).id
    rcases Naming.mem_tails.mp htail with rfl | ⟨aspect, rfl⟩
    · exact hid
    · have hending : IsIdentifier aspect.ending := by
        cases aspect <;> decide
      have hjoint : IsIdentifier "_" := by decide
      exact (hid.append hjoint).append hending
  · have hcount : IsIdentifier "NUM" := by decide
    exact hcount

/-! ## Cells -/

/-- There is one cell for each glyph in both tables, with a constant of the header in it, and what
is left of its value in sixteen and in eight bits is the offset and the size of the glyph. -/
structure Tables.KeepMetrics (tables : Tables) (constants : List Enumerator)
    (glyphs : List CompiledGlyph) : Prop where
  offsetsType : tables.offsets.elementType = "short"
  sizesType : tables.sizes.elementType = "char"
  offsetsLength : tables.offsets.cells.length = glyphs.length
  sizesLength : tables.sizes.cells.length = glyphs.length
  offset : ∀ (i : Nat) (glyph : CompiledGlyph), glyphs[i]? = some glyph →
    ∃ constant ∈ constants, tables.offsets.cells[i]? = some constant.name ∧
      (UInt16.ofNat constant.value).toNat = glyph.entry.offset
  size : ∀ (i : Nat) (glyph : CompiledGlyph), glyphs[i]? = some glyph →
    ∃ constant ∈ constants, tables.sizes.cells[i]? = some constant.name ∧
      (UInt8.ofNat constant.value).toNat = glyph.entry.size

theorem Tables.keepMetrics_ofCompilation {naming : Naming} {font : Compilation}
    (hfits : ∀ glyph ∈ font.glyphs, glyph.entry.Fits) :
    (ofCompilation naming font).KeepMetrics (Header.ofCompilation naming font).constants
      font.glyphs where
  offsetsType := rfl
  sizesType := rfl
  offsetsLength := List.length_map ..
  sizesLength := List.length_map ..
  offset := by
    intro i glyph hi
    have hglyph := List.mem_of_getElem? hi
    refine ⟨⟨naming.aspect glyph.entry.id .offset, glyph.entry.offset⟩, ?_, ?_,
      (hfits glyph hglyph).offset⟩
    · exact Artifact.mem_constants naming hglyph _ (by simp [Header.ofGlyph])
    · rw [ofCompilation, List.getElem?_map, hi]
      rfl
  size := by
    intro i glyph hi
    have hglyph := List.mem_of_getElem? hi
    refine ⟨⟨naming.aspect glyph.entry.id .size, glyph.entry.size⟩, ?_, ?_,
      (hfits glyph hglyph).size⟩
    · exact Artifact.mem_constants naming hglyph _ (by simp [Header.ofGlyph])
    · rw [ofCompilation, List.getElem?_map, hi]
      rfl

/-! ## Generating -/

namespace Source

/-- A warning about a name is there exactly if the identifier in it is to blame. The others are there
exactly if a cell does not hold the number; without any, and with a stem that can begin a C
identifier, names and cells are as they should be. -/
theorem warnings_generate (name text stem : String) (artifact : Artifact) :
    let font := Compilation.ofText text
    let notices := (Source.generate ⟨name, text⟩ artifact { naming := ⟨stem⟩ }).notices
    (∀ glyph ∈ font.glyphs,
      (.notAnIdentifier s!"{stem}_{glyph.entry.id}" ∈ notices ↔
        ¬ Only (fun c => c.isAlphanum || c == '_') glyph.entry.id) ∧
      (IsCName s!"{stem}_{glyph.entry.id}" ↔
        IsCName s!"{stem}_" ∧ .notAnIdentifier s!"{stem}_{glyph.entry.id}" ∉ notices) ∧
      (.offsetTooLarge glyph.entry.offset glyph.entry.id ∈ notices ↔
        (UInt16.ofNat glyph.entry.offset).toNat ≠ glyph.entry.offset) ∧
      (.sizeTooLarge glyph.entry.size glyph.entry.id ∈ notices ↔
        (UInt8.ofNat glyph.entry.size).toNat ≠ glyph.entry.size)) ∧
    (IsCName s!"{stem}_" →
      (∀ glyph ∈ font.glyphs, ∀ warning ∈ glyph.entry.warnings stem, warning ∉ notices) →
        ∃ constants tables,
          Header.read? (Artifact.header.generate ⟨stem⟩ font) = some constants ∧
            Data.read? (Artifact.data.generate ⟨stem⟩ font) = some tables ∧
            (∀ constant ∈ constants, IsCName constant.name) ∧
            tables.KeepMetrics constants font.glyphs) := by
  intro font notices
  constructor
  · intro glyph hglyph
    have hname : .notAnIdentifier s!"{stem}_{glyph.entry.id}" ∈ notices ↔
        ¬ Only (fun c => c.isAlphanum || c == '_') glyph.entry.id :=
      (mem_notices_generate rfl).trans (font.notAnIdentifier_mem_limits_iff ⟨stem⟩ hglyph)
    refine ⟨hname, ?_, ?_, ?_⟩
    · rw [hname, not_not]
      exact isCName_append_iff (stem_append_ne_empty stem)
    · exact (mem_notices_generate rfl).trans (font.offsetTooLarge_mem_limits_iff ⟨stem⟩ hglyph)
    · exact (mem_notices_generate rfl).trans (font.sizeTooLarge_mem_limits_iff ⟨stem⟩ hglyph)
  · intro hstem hsilent
    have hfont : font.IsLaidOut := Compilation.isLaidOut_ofText text
    have hidentifier : IsIdentifier stem := isIdentifier_stem_of_isCName hstem
    have hfits : ∀ glyph ∈ font.glyphs, glyph.entry.Fits := by
      intro glyph hglyph
      apply Compilation.fits_of_forall_not_mem_limits hglyph
      intro warning hwarning hlimit
      apply hsilent glyph hglyph warning hwarning
      dsimp only [notices]
      rw [notices_generate]
      exact List.mem_append_right _ hlimit
    exact ⟨_, _, Artifact.read?_generate_header hidentifier hfont,
      Artifact.read?_generate_data hidentifier hfont, Header.isCName_of_mem_constants hstem hfits,
      Tables.keepMetrics_ofCompilation hfits⟩

/-- An underscore alone can begin names, also of identifiers that begin with a digit. -/
theorem warnings_generate_empty_stem :
    let text := "ID 8x8\nDIM 2 8\nX X\nID _\nDIM 1 8\n"
    let font := Compilation.ofText text
    let notices := (Source.generate ⟨"cga.txt", text⟩ .data { naming := ⟨""⟩ }).notices
    (∃ glyph ∈ font.glyphs, glyph.entry.id = "8x8" ∧ IsCName s!"_{glyph.entry.id}" ∧
      (UInt8.ofNat glyph.entry.size).toNat = glyph.entry.size) ∧
    IsCName "_" ∧
    (∀ glyph ∈ font.glyphs, ∀ warning ∈ glyph.entry.warnings "", warning ∉ notices) ∧
    ∃ constants tables,
      Header.read? (Artifact.header.generate ⟨""⟩ font) = some constants ∧
        Data.read? (Artifact.data.generate ⟨""⟩ font) = some tables ∧
        (∀ constant ∈ constants, IsCName constant.name) ∧
        tables.KeepMetrics constants font.glyphs := by
  intro text font notices
  have hstem : IsCName "_" := by decide
  have hsilent : ∀ glyph ∈ font.glyphs, ∀ warning ∈ glyph.entry.warnings "", warning ∉ notices := by
    decide +kernel
  obtain ⟨glyph, hglyph, hid⟩ : ∃ glyph ∈ font.glyphs, glyph.entry.id = "8x8" := by
    decide +kernel
  obtain ⟨hglyphs, hfiles⟩ := warnings_generate "cga.txt" text "" .data
  obtain ⟨-, hname, -, hsize⟩ := hglyphs glyph hglyph
  have hunnamed := hsilent glyph hglyph _ (Layout.Entry.mem_warnings_iff.mpr (.inl rfl))
  have hunsized := hsilent glyph hglyph _ (Layout.Entry.mem_warnings_iff.mpr (.inr (.inr rfl)))
  rw [hsize, not_not] at hunsized
  exact ⟨⟨glyph, hglyph, hid, hname.mpr ⟨hstem, hunnamed⟩, hunsized⟩, hstem, hsilent,
    hfiles hstem hsilent⟩

/-- A name that is no C identifier because of its stem, and no warning. -/
theorem silent_about_stem :
    ¬ ∀ (name text stem : String) (artifact : Artifact), ∀ glyph ∈ (Compilation.ofText text).glyphs,
      (.notAnIdentifier s!"{stem}_{glyph.entry.id}" ∈
          (Source.generate ⟨name, text⟩ artifact { naming := ⟨stem⟩ }).notices ↔
        ¬ IsCName s!"{stem}_{glyph.entry.id}") := by
  intro hall
  let text := "ID A\nDIM 1 8\nX\nX\nX\nX\nX\nX\nX\nX\n"
  obtain ⟨glyph, hglyph, hid⟩ : ∃ glyph ∈ (Compilation.ofText text).glyphs, glyph.entry.id = "A" := by
    decide +kernel
  have hwarned := hall "font.txt" text "MY-FONT" .header glyph hglyph
  rw [hid] at hwarned
  have hname : ¬ IsCName "MY-FONT_A" := by decide
  exact absurd (hwarned.mpr hname) (by decide +kernel)

end Source

end BitFont

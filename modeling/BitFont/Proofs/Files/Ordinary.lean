import BitFont.Proofs.Files.Frame
import BitFont.Proofs.Text.Words
import Mathlib.Data.List.Infix

/-!
# Ordinary paths

An ordinary path goes down from name to name: it has no dots, no empty segment and no slash at its
ends. It spells out its own segments (`IsOrdinary.names_eq`), and the paths around it are those of
the shorter lists (`IsOrdinary.parent?_eq`).
-/

namespace BitFont

theorem Text.eq_of_fields_eq_singleton {separates : Char → Bool} {text field : List Char}
    (h : fields separates text = [field]) : text = field := by
  induction text generalizing field with
  | nil => exact List.singleton_inj.mp h
  | cons c rest ih =>
    rw [fields_cons, fieldStep.eq_def] at h
    split at h
    · exact absurd (List.cons.inj h).2 (fields_ne_nil separates rest)
    · cases hrest : fields separates rest with
      | nil => exact absurd hrest (fields_ne_nil separates rest)
      | cons first others =>
        rw [hrest] at h
        obtain ⟨hfield, rfl⟩ := List.cons.inj h
        rw [← hfield, ih hrest]

/-- A character that does not separate lies in a text exactly if it lies in one of its fields. -/
theorem Text.any_fields {separates test : Char → Bool}
    (h : ∀ c, separates c = true → test c = false) (text : List Char) :
    (fields separates text).any (·.any test) = text.any test := by
  induction text with
  | nil => rfl
  | cons c rest ih =>
    rw [fields_cons, List.any_cons, ← ih, fieldStep.eq_def]
    split
    · rename_i hseparates
      rw [h c hseparates, List.any_cons]
      rfl
    · cases hrest : fields separates rest with
      | nil => exact absurd hrest (fields_ne_nil separates rest)
      | cons field others => simp only [List.any_cons, Bool.or_assoc]

namespace Path

/-- A segment that names something. -/
def IsName (segment : String) : Prop := segment ≠ "" ∧ segment ≠ "." ∧ segment ≠ ".."

instance (segment : String) : Decidable (IsName segment) :=
  inferInstanceAs (Decidable (_ ∧ _ ∧ _))

/-- A path whose segments are all names. -/
def IsOrdinary (path : Path) : Prop := ∀ segment ∈ path.segments, IsName segment

instance (path : Path) : Decidable path.IsOrdinary :=
  inferInstanceAs (Decidable (∀ _ ∈ _, _))

theorem IsName.isIdle_eq {segment : String} (h : IsName segment) : isIdle segment = false := by
  obtain ⟨hempty, hdot, -⟩ := h
  simp [isIdle, hempty, hdot]

theorem stepOfSegment_of_isName {segment : String} (h : IsName segment) :
    stepOfSegment segment = some (.into segment) := by
  obtain ⟨hempty, hdot, hdots⟩ := h
  rw [stepOfSegment, if_neg hempty, if_neg hdot, if_neg hdots]

theorem trimEnd_of_forall {segments : List String} (h : ∀ segment ∈ segments, IsName segment) :
    trimEnd segments = segments := by
  rw [trimEnd]
  cases hlast : segments.reverse with
  | nil => exact (List.reverse_eq_nil_iff.mp hlast).symm
  | cons last rest =>
    have hmem : last ∈ segments := List.mem_reverse.mp (hlast ▸ List.mem_cons_self)
    rw [List.dropWhile_cons_of_neg (by simp [(h last hmem).isIdle_eq]), ← hlast,
      List.reverse_reverse]

/-! ## Segments -/

theorem segments_ne_nil (path : Path) : path.segments ≠ [] := by
  intro hnil
  exact Text.fields_ne_nil _ _ (List.map_eq_nil_iff.mp hnil)

theorem lacks_slash_of_mem_segments {path : Path} {segment : String} (h : segment ∈ path.segments) :
    Text.Lacks '/' segment := by
  obtain ⟨field, hfield, rfl⟩ := List.mem_map.mp h
  intro c hc
  rw [String.toList_ofList] at hc
  have hslash := Text.not_separates_of_mem_fields _ _ field hfield c hc
  rw [bne_iff_ne]
  simpa using hslash

/-- Names are kept apart by the slashes between them. -/
theorem segments_ofSegments {segments : List String} (hne : segments ≠ [])
    (h : ∀ segment ∈ segments, Text.Lacks '/' segment) :
    (ofSegments segments).segments = segments := by
  have hfields {segment : String} (hslash : Text.Lacks '/' segment) :
      Text.fields (· == '/') segment.toList = [segment.toList] := by
    apply Text.fields_of_forall
    intro c hc
    rw [beq_eq_false_iff_ne]
    exact bne_iff_ne.mp (hslash c hc)
  induction segments with
  | nil => contradiction
  | cons first rest ih =>
    obtain ⟨hfirst, hrest⟩ := List.forall_mem_cons.mp h
    cases rest with
    | nil =>
      rw [ofSegments, String.intercalate_singleton, Path.segments, hfields hfirst,
        List.map_singleton, String.ofList_toList]
    | cons next others =>
      have hothers := ih (List.cons_ne_nil _ _) hrest
      rw [ofSegments, Path.segments] at hothers ⊢
      dsimp only at hothers ⊢
      have hcut : ("/".intercalate (first :: next :: others)).toList =
          first.toList ++ '/' :: ("/".intercalate (next :: others)).toList := by
        simp [String.intercalate_cons_cons, String.toList_append]
      rw [hcut, Text.fields_append_cons _ rfl, List.map_append, hothers, hfields hfirst,
        List.map_singleton, String.ofList_toList, List.singleton_append]

theorem hasNul_eq_any_segments (path : Path) :
    path.hasNul = path.segments.any fun segment => segment.toList.any (· == '\x00') := by
  have hslash : ∀ c : Char, (c == '/') = true → (c == '\x00') = false := by
    intro c hc
    rw [eq_of_beq hc]
    rfl
  rw [hasNul, segments, List.any_map, ← Text.any_fields hslash]
  simp only [Function.comp_def, String.toList_ofList]

theorem text_of_segments_eq_singleton {path : Path} {segment : String}
    (h : path.segments = [segment]) : path.text = segment := by
  rw [segments, List.map_eq_singleton_iff] at h
  obtain ⟨field, hfield, rfl⟩ := h
  rw [← Text.eq_of_fields_eq_singleton hfield, String.ofList_toList]

theorem isOrdinary_ofSegments {segments : List String} (hne : segments ≠ [])
    (hslash : ∀ segment ∈ segments, Text.Lacks '/' segment)
    (hnames : ∀ segment ∈ segments, IsName segment) : (ofSegments segments).IsOrdinary := by
  rw [IsOrdinary, segments_ofSegments hne hslash]
  exact hnames

namespace IsOrdinary

variable {path : Path}

/-! ## Names -/

theorem steps_eq (h : path.IsOrdinary) : path.steps = path.segments.map .into := by
  rw [steps, List.filterMap_congr fun segment hsegment => stepOfSegment_of_isName (h segment hsegment)]
  exact congrFun List.filterMap_eq_map' path.segments

theorem names_eq (h : path.IsOrdinary) : path.names = path.segments := by
  have hfoldl (segments before : List String) :
      (segments.map Step.into).foldl Step.advance before = before ++ segments := by
    induction segments generalizing before with
    | nil => exact (List.append_nil before).symm
    | cons segment rest ih =>
      rw [List.map_cons, List.foldl_cons, ih, Step.advance, List.append_assoc,
        List.singleton_append]
  rw [names, h.steps_eq, hfoldl, List.nil_append]

theorem names_ne_nil (h : path.IsOrdinary) : path.names ≠ [] := h.names_eq ▸ path.segments_ne_nil

theorem text_ne_empty (h : path.IsOrdinary) : path.text ≠ "" := by
  intro hempty
  have hsegment : "" ∈ path.segments := by
    rw [segments, hempty]
    exact List.mem_singleton_self _
  exact (h "" hsegment).1 rfl

theorem endsInSlash_eq_false (h : path.IsOrdinary) : path.endsInSlash = false := by
  rw [endsInSlash, beq_eq_false_iff_ne]
  intro hslash
  obtain ⟨before, htext⟩ := List.getLast?_eq_some_iff.mp hslash
  have hsegment : "" ∈ path.segments := by
    rw [segments, htext, Text.fields_append_cons before rfl, List.map_append]
    exact List.mem_append_right _ (List.mem_singleton_self _)
  exact (h "" hsegment).1 rfl

/-! ## Parents -/

/-- The parent is the path without the last name; that of a single name is the empty path. -/
theorem parent?_eq (h : path.IsOrdinary) :
    path.parent? = some (ofSegments path.segments.dropLast) := by
  unfold parent?
  cases hsegments : path.segments with
  | nil => exact absurd hsegments path.segments_ne_nil
  | cons first rest =>
    rw [IsOrdinary, hsegments] at h
    obtain ⟨hfirst, hrest⟩ := List.forall_mem_cons.mp h
    dsimp only
    rw [trimEnd_of_forall hrest]
    cases rest with
    | nil =>
      dsimp only
      rw [if_neg hfirst.1]
      rfl
    | cons next others =>
      have hinner : ∀ segment ∈ (next :: others).dropLast, IsName segment :=
        fun segment hsegment => hrest segment (List.mem_of_mem_dropLast hsegment)
      dsimp only
      rw [trimEnd_of_forall hinner, ofFirst, if_neg (fun hroot => hfirst.1 hroot.1),
        List.dropLast_cons_of_ne_nil (List.cons_ne_nil _ _)]

theorem isOrdinary_dropLast (h : path.IsOrdinary) (hne : path.segments.dropLast ≠ []) :
    (ofSegments path.segments.dropLast).IsOrdinary ∧
      (ofSegments path.segments.dropLast).names = path.names.dropLast := by
  have hslash : ∀ segment ∈ path.segments.dropLast, Text.Lacks '/' segment :=
    fun segment hsegment => lacks_slash_of_mem_segments (List.mem_of_mem_dropLast hsegment)
  have hordinary : (ofSegments path.segments.dropLast).IsOrdinary :=
    isOrdinary_ofSegments hne hslash fun segment hsegment =>
      h segment (List.mem_of_mem_dropLast hsegment)
  rw [hordinary.names_eq, segments_ofSegments hne hslash, h.names_eq]
  exact ⟨hordinary, rfl⟩

theorem hasNul_dropLast (h : path.IsOrdinary) (hnul : path.hasNul = false) :
    (ofSegments path.segments.dropLast).hasNul = false := by
  by_cases hne : path.segments.dropLast = []
  · rw [hne]
    rfl
  · obtain ⟨hordinary, hnames⟩ := h.isOrdinary_dropLast hne
    rw [hasNul_eq_any_segments, List.any_eq_false] at hnul ⊢
    intro segment hsegment
    rw [← hordinary.names_eq, hnames, h.names_eq] at hsegment
    exact hnul segment (List.mem_of_mem_dropLast hsegment)

/-- From the inside out, the paths around a path have fewer and fewer of its names. -/
theorem isChain_parentsUpTo (h : path.IsOrdinary) (fuel : Nat) :
    List.IsChain (fun inner outer : Path => outer.names <+: inner.names)
      (path :: parentsUpTo fuel path) := by
  induction fuel generalizing path with
  | zero => exact .singleton path
  | succ fuel ih =>
    unfold parentsUpTo
    rw [h.parent?_eq]
    dsimp only
    split
    · exact .singleton path
    · rename_i hparent
      have hne : path.segments.dropLast ≠ [] := by
        intro hnil
        rw [hnil] at hparent
        exact hparent rfl
      obtain ⟨hordinary, hnames⟩ := h.isOrdinary_dropLast hne
      refine .cons_cons ?_ (ih hordinary)
      rw [hnames]
      exact List.dropLast_prefix _

end IsOrdinary

end Path

end BitFont

import BitFont.Text.Blank

/-!
# Words of joined texts

A separator cuts a text in two, whatever stands on either side (`runs_append_cons`), and text
without a separator is one piece. The words of a generated line follow from these two facts.
-/

namespace BitFont.Text

/-! ## Fields -/

variable {separates : Char → Bool}

theorem fields_append_cons (text : List Char) {c : Char} (h : separates c = true)
    (other : List Char) :
    fields separates (text ++ c :: other) = fields separates text ++ fields separates other := by
  induction text with
  | nil =>
    rw [List.nil_append, fields_cons, fieldStep.eq_def, if_pos h, fields_nil, List.singleton_append]
  | cons d rest ih =>
    rw [List.cons_append, fields_cons, ih, fields_cons]
    unfold fieldStep
    split
    · rfl
    · cases hrest : fields separates rest with
      | nil => exact absurd hrest (fields_ne_nil separates rest)
      | cons field others => rfl

theorem fields_of_forall {text : List Char} (h : ∀ c ∈ text, separates c = false) :
    fields separates text = [text] := by
  induction text with
  | nil => rfl
  | cons c rest ih =>
    obtain ⟨hc, hrest⟩ := List.forall_mem_cons.mp h
    rw [fields_cons, ih hrest, fieldStep.eq_def, if_neg (by simp [hc])]

/-! ## Runs -/

/-- The pieces between separators that are not empty. -/
def runs (separates : Char → Bool) (text : List Char) : List (List Char) :=
  (fields separates text).filter fun field => !field.isEmpty

@[simp] theorem runs_nil : runs separates [] = [] := rfl

theorem runs_append_cons (text : List Char) {c : Char} (h : separates c = true)
    (other : List Char) :
    runs separates (text ++ c :: other) = runs separates text ++ runs separates other := by
  rw [runs, fields_append_cons text h, List.filter_append, runs, runs]

theorem runs_cons {c : Char} (h : separates c = true) (text : List Char) :
    runs separates (c :: text) = runs separates text :=
  runs_append_cons [] h text

theorem runs_append_of_forall {separators : List Char} (h : ∀ c ∈ separators, separates c = true)
    (text : List Char) : runs separates (separators ++ text) = runs separates text := by
  induction separators with
  | nil => rfl
  | cons c rest ih =>
    obtain ⟨hc, hrest⟩ := List.forall_mem_cons.mp h
    rw [List.cons_append, runs_cons hc, ih hrest]

theorem runs_append_of_forall_right {separators : List Char}
    (h : ∀ c ∈ separators, separates c = true) (text : List Char) :
    runs separates (text ++ separators) = runs separates text := by
  cases separators with
  | nil => rw [List.append_nil]
  | cons c rest =>
    obtain ⟨hc, hrest⟩ := List.forall_mem_cons.mp h
    have hnone : runs separates rest = [] := by
      rw [← List.append_nil rest, runs_append_of_forall hrest, runs_nil]
    rw [runs_append_cons text hc, hnone, List.append_nil]

theorem runs_of_forall {text : List Char} (hne : text ≠ []) (h : ∀ c ∈ text, separates c = false) :
    runs separates text = [text] := by
  cases text with
  | nil => contradiction
  | cons c rest =>
    rw [runs, fields_of_forall h]
    rfl

/-! ## Characters of a text -/

/-- Text of allowed characters. -/
def Only (allowed : Char → Bool) (text : String) : Prop := ∀ c ∈ text.toList, allowed c = true

/-- Text without a character. -/
abbrev Lacks (c : Char) (text : String) : Prop := Only (· != c) text

namespace Only

variable {allowed : Char → Bool} {text other : String}

instance (allowed : Char → Bool) (text : String) : Decidable (Only allowed text) :=
  decidable_of_iff (text.toList.all allowed = true) List.all_eq_true

theorem append (h : Only allowed text) (hother : Only allowed other) :
    Only allowed (text ++ other) := by
  intro c hc
  rw [String.toList_append, List.mem_append] at hc
  rcases hc with htext | hc
  · exact h c htext
  · exact hother c hc

theorem intercalate (h : Only allowed text) {texts : List String}
    (htexts : ∀ other ∈ texts, Only allowed other) : Only allowed (text.intercalate texts) := by
  induction texts with
  | nil => simp [Only]
  | cons first rest ih =>
    obtain ⟨hfirst, hrest⟩ := List.forall_mem_cons.mp htexts
    cases rest with
    | nil =>
      rw [String.intercalate_singleton]
      exact hfirst
    | cons next others =>
      rw [String.intercalate_cons_cons]
      exact (hfirst.append h).append (ih hrest)

theorem lacks (h : Only allowed text) {c : Char} (hc : allowed c = false) : Lacks c text := by
  intro d hd
  rw [bne_iff_ne]
  rintro rfl
  rw [h d hd] at hc
  contradiction

end Only

/-! ## Words -/

/-- Text that is read as one word. -/
structure IsWord (text : String) : Prop where
  ne_empty : text ≠ ""
  noBlanks : Only (fun c => !isBlank c) text

theorem IsWord.append {text other : String} (h : IsWord text)
    (hother : Only (fun c => !isBlank c) other) : IsWord (text ++ other) := by
  refine ⟨?_, h.noBlanks.append hother⟩
  intro hempty
  exact h.ne_empty (String.append_eq_empty_iff.mp hempty).1

theorem IsWord.lacks {text : String} (h : IsWord text) {c : Char} (hc : isBlank c = true) :
    Lacks c text := by
  apply h.noBlanks.lacks
  rw [hc]
  rfl

theorem words_eq (text : String) : words text = (runs isBlank text.toList).map String.ofList := rfl

theorem words_of_isWord {text : String} (h : IsWord text) : words text = [text] := by
  have hne : text.toList ≠ [] := by
    intro hnil
    exact h.ne_empty (String.toList_eq_nil_iff.mp hnil)
  have hblank : ∀ c ∈ text.toList, isBlank c = false := by
    intro c hc
    simpa using h.noBlanks c hc
  rw [words_eq, runs_of_forall hne hblank, List.map_singleton, String.ofList_toList]

theorem isWord_of_mem_words {text word : String} (h : word ∈ words text) : IsWord word := by
  rw [words_eq, List.mem_map] at h
  obtain ⟨run, hrun, rfl⟩ := h
  obtain ⟨hfield, hne⟩ := List.mem_filter.mp hrun
  refine ⟨?_, ?_⟩
  · intro hempty
    rw [String.ofList_eq_empty_iff.mp hempty] at hne
    contradiction
  · intro c hc
    rw [String.toList_ofList] at hc
    have hblank := not_separates_of_mem_fields isBlank text.toList run hfield c hc
    simpa using hblank

/-- Everything about the words of a joined text follows from this. -/
theorem words_append_space (text other : String) :
    words (text ++ " " ++ other) = words text ++ words other := by
  have hspace : (text ++ " " ++ other).toList = text.toList ++ ' ' :: other.toList := by
    simp [String.toList_append]
  rw [words_eq, hspace, runs_append_cons _ (by decide), List.map_append, words_eq, words_eq]

theorem words_append_of_blank {blank : String} (h : Only isBlank blank) (text : String) :
    words (blank ++ text) = words text := by
  rw [words_eq, String.toList_append, runs_append_of_forall h, words_eq]

theorem words_append_of_blank_right {blank : String} (h : Only isBlank blank) (text : String) :
    words (text ++ blank) = words text := by
  rw [words_eq, String.toList_append, runs_append_of_forall_right h, words_eq]

theorem words_intercalate_space {texts : List String} (h : ∀ text ∈ texts, IsWord text) :
    words (" ".intercalate texts) = texts := by
  induction texts with
  | nil => rfl
  | cons first rest ih =>
    obtain ⟨hfirst, hrest⟩ := List.forall_mem_cons.mp h
    cases rest with
    | nil => rw [String.intercalate_singleton, words_of_isWord hfirst]
    | cons next others =>
      rw [String.intercalate_cons_cons, words_append_space, words_of_isWord hfirst, ih hrest,
        List.singleton_append]

end BitFont.Text

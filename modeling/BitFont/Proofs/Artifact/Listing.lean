import BitFont.Artifact.Listing
import BitFont.Proofs.Text.Words

/-!
# Words of listings

How the helpers that lay out a listing act on words: padding and indentation add none, and a list of
names that is cut into lines has the words of the list.
-/

namespace BitFont.Listing

open Text

theorem isBlank_indent : Only isBlank indent := by decide

/-- A line between braces is not taken for the closing one. -/
theorem indent_append_ne_closing (line : String) : indent ++ line ≠ "\x7d;" := by
  intro hclosing
  have hhead := congrArg (·.toList.head?) hclosing
  simp [indent, String.toList_append] at hhead

theorem lacks_newline_padded (columns : Nat) {name : String} (h : Lacks '\n' name) :
    Lacks '\n' (padded columns name) := by
  apply h.append
  intro c hc
  rw [String.toList_ofList] at hc
  rw [List.eq_of_mem_replicate hc]
  decide

theorem words_padded (columns : Nat) {name : String} (h : IsWord name) :
    words (padded columns name) = [name] := by
  have hblank : Only isBlank (String.ofList (List.replicate (columns - name.length) ' ')) := by
    intro c hc
    rw [String.toList_ofList] at hc
    rw [List.eq_of_mem_replicate hc]
    decide
  rw [padded, words_append_of_blank_right hblank, words_of_isWord h]

theorem text_cons (line : String) (rest : List String) :
    text (line :: rest) = line ++ "\n" ++ text rest := by
  rw [text, List.map_cons, String.join_cons, text]

/-! ## Commas -/

theorem commaSeparated_append_of_ne_nil (items : List String) {others : List String}
    (h : others ≠ []) :
    commaSeparated (items ++ others) = items.map (· ++ ",") ++ commaSeparated others := by
  induction items with
  | nil => rfl
  | cons item rest ih =>
    cases hrest : rest ++ others with
    | nil => exact absurd (List.append_eq_nil_iff.mp hrest).2 h
    | cons next later =>
      rw [List.cons_append, hrest, commaSeparated, ← hrest, ih, List.map_cons, List.cons_append]

theorem exists_of_mem_commaSeparated {items : List String} {line : String}
    (h : line ∈ commaSeparated items) : ∃ item ∈ items, line = item ∨ line = item ++ "," := by
  rcases List.eq_nil_or_concat items with rfl | ⟨others, last, rfl⟩
  · simp [commaSeparated] at h
  · rw [List.concat_eq_append, commaSeparated_append_of_ne_nil _ (List.cons_ne_nil _ _),
      List.mem_append, List.mem_map] at h
    rcases h with ⟨item, hitem, rfl⟩ | hlast
    · exact ⟨item, by simp [hitem], .inr rfl⟩
    · obtain rfl : line = last := List.mem_singleton.mp hlast
      exact ⟨line, by simp, .inl rfl⟩

/-! ## Chunks -/

theorem chunks_cons {α : Type} (size : Nat) (first : α) (rest : List α) :
    chunks (size + 1) (first :: rest) =
      (first :: rest).take (size + 1) :: chunks (size + 1) ((first :: rest).drop (size + 1)) := by
  rw [chunks, Nat.add_sub_cancel, List.take_succ_cons, List.drop_succ_cons]

/-- Every chunk but the last is full. -/
theorem getElem?_chunks {α : Type} (size : Nat) (items : List α) (i : Nat) :
    (chunks (size + 1) items)[i]? =
      if i * (size + 1) < items.length then
        some ((items.drop (i * (size + 1))).take (size + 1))
      else
        none := by
  induction i generalizing items with
  | zero =>
    cases items with
    | nil => simp [chunks]
    | cons first rest => simp [chunks_cons]
  | succ i ih =>
    cases items with
    | nil => simp [chunks]
    | cons first rest =>
      have hstart : size + 1 + i * (size + 1) = (i + 1) * (size + 1) := by
        rw [Nat.succ_mul, Nat.add_comm]
      rw [chunks_cons, List.getElem?_cons_succ, ih, List.drop_drop, hstart, List.length_drop]
      have hlt : i * (size + 1) < (first :: rest).length - (size + 1) ↔
          (i + 1) * (size + 1) < (first :: rest).length := by
        omega
      simp only [hlt]

theorem ne_nil_of_mem_chunks {α : Type} {size : Nat} {items chunk : List α}
    (h : chunk ∈ chunks size items) : chunk ≠ [] := by
  fun_induction chunks size items with
  | case1 => simp at h
  | case2 first rest ih =>
    rcases List.mem_cons.mp h with rfl | hmem
    · exact List.cons_ne_nil _ _
    · exact ih hmem

/-! ## Lines of names -/

/-- A name and the comma behind it are one word. -/
theorem words_intercalate_append {names : List String} {last : String} (ending : String)
    (hnames : ∀ name ∈ names, IsWord name) (hlast : IsWord last)
    (hending : Only (fun c => !isBlank c) ending) :
    words (", ".intercalate (names ++ [last]) ++ ending) =
      names.map (· ++ ",") ++ [last ++ ending] := by
  induction names with
  | nil =>
    rw [List.nil_append, String.intercalate_singleton, words_of_isWord (hlast.append hending)]
    rfl
  | cons name rest ih =>
    obtain ⟨hname, hrest⟩ := List.forall_mem_cons.mp hnames
    have hcomma : IsWord (name ++ ",") := hname.append (by decide)
    have hline : ", ".intercalate (name :: rest ++ [last]) ++ ending =
        name ++ "," ++ " " ++ (", ".intercalate (rest ++ [last]) ++ ending) := by
      have hseparator : name ++ ", " = name ++ "," ++ " " := by
        rw [String.append_assoc]
        rfl
      have hne : rest ++ [last] ≠ [] := List.append_ne_nil_of_right_ne_nil _ (List.cons_ne_nil _ _)
      rw [List.cons_append, String.intercalate_cons_of_ne_nil hne, hseparator, String.append_assoc]
    rw [hline, words_append_space, words_of_isWord hcomma, ih hrest]
    rfl

theorem words_intercalate {names : List String} (hne : names ≠ [])
    (hnames : ∀ name ∈ names, IsWord name) :
    words (", ".intercalate names) = commaSeparated names ∧
      words (", ".intercalate names ++ ",") = names.map (· ++ ",") := by
  obtain ⟨others, last, rfl⟩ := (List.eq_nil_or_concat names).resolve_left hne
  rw [List.concat_eq_append] at hnames ⊢
  obtain ⟨hothers, hlast⟩ := List.forall_mem_append.mp hnames
  have hlast' : IsWord last := hlast last (List.mem_singleton_self last)
  constructor
  · have hwords := words_intercalate_append "" hothers hlast' (by decide)
    rw [String.append_empty, String.append_empty] at hwords
    rw [hwords, commaSeparated_append_of_ne_nil _ (List.cons_ne_nil _ _)]
    rfl
  · rw [words_intercalate_append "," hothers hlast' (by decide), List.map_append]
    rfl

/-- A list of names has the same words on one line and on several. -/
theorem words_commaSeparated_intercalate {groups : List (List String)}
    (hne : ∀ group ∈ groups, group ≠ []) (hwords : ∀ group ∈ groups, ∀ name ∈ group, IsWord name) :
    (commaSeparated (groups.map (", ".intercalate))).flatMap words =
      commaSeparated groups.flatten := by
  induction groups with
  | nil => rfl
  | cons group rest ih =>
    obtain ⟨hgroup, hrest⟩ := List.forall_mem_cons.mp hne
    obtain ⟨hnames, hothers⟩ := List.forall_mem_cons.mp hwords
    obtain ⟨hlast, hinner⟩ := words_intercalate hgroup hnames
    cases rest with
    | nil =>
      rw [List.map_singleton, commaSeparated, List.flatMap_singleton, hlast, List.flatten_singleton]
    | cons next others =>
      have hnext : (next :: others).flatten ≠ [] := by
        rw [List.flatten_cons]
        exact List.append_ne_nil_of_left_ne_nil (hrest next List.mem_cons_self) _
      rw [List.flatten_cons, commaSeparated_append_of_ne_nil group hnext, ← ih hrest hothers,
        List.map_cons, List.map_cons, commaSeparated, List.flatMap_cons, hinner]

end BitFont.Listing

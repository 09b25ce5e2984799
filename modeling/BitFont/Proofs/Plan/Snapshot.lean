import BitFont.Plan.Run
import BitFont.Proofs.Session.Generating
import BitFont.Proofs.Session.Writing
import Mathlib.Data.List.Forall2

/-!
# Runs that succeed

All texts are generated before the first of them is written, so every entry sees its source as the
clean phase left it, whatever other entries write there. The texts are then written in order: of the
entries with one target the last one counts, and besides the targets only the directories that lead
to them are new (`get?_of_perform_run`).
-/

namespace BitFont.Plan

/-- An entry that leads from a file to a file by ordinary paths. -/
structure Entry.IsOrdinary (entry : Entry) : Prop where
  source : entry.source.IsOrdinary
  target : entry.target.IsOrdinary
  notInput : entry.source ≠ ⟨"-"⟩

/-- A plan that leads from files to files, and cleans directories, by ordinary paths. -/
structure IsOrdinary (plan : Plan) : Prop where
  clean : ∀ path ∈ plan.clean, path.IsOrdinary
  entries : ∀ entry ∈ plan.entries, entry.IsOrdinary

/-- The text of an entry, generated from what its source holds in a tree. -/
def Entry.text? (entry : Entry) (settings : Settings) (tree : FileTree) : Option String :=
  match tree.get? entry.source.names with
  | some (.file content) =>
    (String.fromUTF8? content).map fun text =>
      entry.artifact.generate ⟨entry.stem.getD settings.naming.stem⟩ (Compilation.ofText text)
  | _ => none

/-- The last entry that has its target at some names. -/
def lastTo? (entries : List Entry) (names : List String) : Option Entry :=
  (entries.filter (·.target.names = names)).getLast?

theorem lastTo?_cons (entry : Entry) (rest : List Entry) (names : List String) :
    lastTo? (entry :: rest) names =
      (lastTo? rest names).or (if names = entry.target.names then some entry else none) := by
  unfold lastTo?
  by_cases htarget : names = entry.target.names
  · rw [if_pos htarget, List.filter_cons_of_pos (by simp [htarget]), List.getLast?_cons]
    cases (rest.filter (·.target.names = names)).getLast? <;> rfl
  · rw [if_neg htarget, List.filter_cons_of_neg (by simpa using Ne.symm htarget), Option.or_none]

theorem of_lastTo?_eq_some {entries : List Entry} {names : List String} {entry : Entry}
    (h : lastTo? entries names = some entry) : entry ∈ entries ∧ entry.target.names = names := by
  have hmem := List.mem_filter.mp (List.mem_of_getLast? h)
  exact ⟨hmem.1, of_decide_eq_true hmem.2⟩

theorem exists_lastTo?_eq_some {entries : List Entry} {entry : Entry} (h : entry ∈ entries) :
    ∃ last, lastTo? entries entry.target.names = some last := by
  rw [← Option.isSome_iff_exists, lastTo?, List.getLast?_isSome]
  exact List.ne_nil_of_mem (List.mem_filter.mpr ⟨h, decide_eq_true rfl⟩)

/-! ## Generating -/

theorem Entry.isInput_source {entry : Entry} (h : entry.IsOrdinary) :
    Source.isInput entry.source = false := by
  have hnames := h.source
  unfold Source.isInput
  split
  · rename_i rest hsegments
    rw [Path.IsOrdinary, hsegments, List.forall_mem_cons] at hnames
    cases rest with
    | nil =>
      have hdash : entry.source = ⟨"-"⟩ :=
        congrArg Path.mk (Path.text_of_segments_eq_singleton hsegments)
      exact absurd hdash h.notInput
    | cons segment others =>
      rw [List.all_cons, (hnames.2 segment List.mem_cons_self).isIdle_eq, Bool.false_and]
  · rfl

theorem text?_of_perform_generate {session after : Session} {entry : Entry} {settings : Settings}
    {text : String} (hordinary : entry.IsOrdinary)
    (h : session.perform (entry.generate settings) = (.ok text, after)) :
    after.tree = session.tree ∧ entry.text? settings session.tree = some text := by
  obtain ⟨htree, content, source, hread, hdecode, rfl⟩ :=
    Session.text_of_perform_readAndGenerate (Entry.isInput_source hordinary) h
  refine ⟨htree, ?_⟩
  have hnaming : (entry.settings settings).naming = ⟨entry.stem.getD settings.naming.stem⟩ := by
    unfold Entry.settings
    cases entry.stem <;> rfl
  unfold Entry.text?
  rw [FileTree.get?_of_read hread, hnaming]
  dsimp only
  rw [hdecode, Option.map_some]

/-- Generating changes no file, so the texts of all entries come from one tree. -/
theorem texts_of_perform_mapM {settings : Settings} {entries : List Entry} {texts : List String}
    {session after : Session} (hordinary : ∀ entry ∈ entries, entry.IsOrdinary)
    (h : session.perform (entries.mapM (Entry.generate · settings)) = (.ok texts, after)) :
    after.tree = session.tree ∧
      List.Forall₂ (fun entry text => entry.text? settings session.tree = some text)
        entries texts := by
  induction entries generalizing session texts with
  | nil =>
    obtain ⟨htexts, rfl⟩ := Prod.mk.inj h
    obtain rfl := Except.ok.inj htexts
    exact ⟨rfl, .nil⟩
  | cons entry rest ih =>
    obtain ⟨hentry, hrest⟩ := List.forall_mem_cons.mp hordinary
    rw [List.mapM_cons, Session.perform_bind] at h
    split at h
    · rename_i text between hgenerate
      obtain ⟨hbetween, htext⟩ := text?_of_perform_generate hentry hgenerate
      rw [Session.perform_bind] at h
      split at h
      · rename_i others last hothers
        obtain ⟨htexts, rfl⟩ := Prod.mk.inj h
        obtain rfl := Except.ok.inj htexts
        obtain ⟨hlast, hforall⟩ := ih hrest hothers
        rw [hbetween] at hforall
        exact ⟨hlast.trans hbetween, .cons htext hforall⟩
      · simp at h
    · simp at h

/-! ## Writing -/

/-- One tree has the texts of some entries at their targets, that of the last entry where several
have the same target, and the directories that lead there; otherwise it has what another tree has. -/
structure HasTexts (entries : List Entry) (text? : Entry → Option String)
    (tree other : FileTree) : Prop where
  file : ∀ names content, other.get? names = some (.file content) ↔
    match lastTo? entries names with
    | some entry => ∃ text, text? entry = some text ∧ content = text.toUTF8
    | none => tree.get? names = some (.file content)
  dir : ∀ names, other.get? names = some .dir ↔
    tree.get? names = some .dir ∨
      ∃ entry ∈ entries, names <+: entry.target.names ∧ names ≠ entry.target.names

theorem HasTexts.nil (text? : Entry → Option String) (tree : FileTree) :
    HasTexts [] text? tree tree where
  file names content := Iff.rfl
  dir names := by simp

/-- The texts of the other entries are written over that of the first one. -/
theorem HasTexts.cons {entry : Entry} {rest : List Entry} {text? : Entry → Option String}
    {text : String} {tree between other : FileTree} (htext : text? entry = some text)
    (hfirst : tree.HasWritten entry.target.names text.toUTF8 between)
    (hrest : HasTexts rest text? between other) : HasTexts (entry :: rest) text? tree other where
  file names content := by
    rw [hrest.file, lastTo?_cons]
    cases lastTo? rest names with
    | some last => rfl
    | none =>
      dsimp only [Option.none_or]
      rw [hfirst.file]
      split
      · simp [htext]
      · rfl
  dir names := by
    rw [hrest.dir, hfirst.dir, List.exists_mem_cons_iff, or_assoc]

theorem hasWritten_of_perform_writeOut {session after : Session} {path : Path} {text : String}
    (hordinary : path.IsOrdinary)
    (h : session.perform (writeOut path text) = (.ok (), after)) :
    session.tree.HasWritten path.names text.toUTF8 after.tree := by
  rw [writeOut, Session.perform_bind_of_ok (session.perform_notify _)] at h
  have hwritten := Session.hasWritten_of_perform_writeText hordinary h
  exact hwritten

theorem hasTexts_of_perform_forM {entries : List Entry} {texts : List String}
    {text? : Entry → Option String} (hordinary : ∀ entry ∈ entries, entry.IsOrdinary)
    (htexts : List.Forall₂ (fun entry text => text? entry = some text) entries texts)
    {session after : Session}
    (h : session.perform ((entries.zip texts).forM fun (entry, text) =>
      writeOut entry.target text) = (.ok (), after)) :
    HasTexts entries text? session.tree after.tree := by
  induction htexts generalizing session with
  | nil =>
    obtain ⟨-, rfl⟩ := Prod.mk.inj h
    exact .nil text? session.tree
  | @cons entry text rest others htext _ ih =>
    obtain ⟨hentry, hrest⟩ := List.forall_mem_cons.mp hordinary
    rw [List.zip_cons_cons, Session.perform_forM_cons, Session.perform_bind] at h
    split at h
    · rename_i value between hwrite
      exact .cons htext (hasWritten_of_perform_writeOut hentry.target hwrite) (ih hrest h)
    · simp at h

/-! ## Runs -/

/-- A run that succeeds changes the tree that the clean phase leaves in two ways only. Every target
is a file with the text that its last entry makes of its source in that tree, whatever the run
writes over the source. And there are directories where the targets need them. -/
theorem get?_of_perform_run (plan : Plan) (settings : Settings) (session after : Session)
    (hordinary : ∀ entry ∈ plan.entries, entry.IsOrdinary)
    (h : session.perform (plan.run settings) = (.ok (), after)) :
    let cleaned := (session.perform plan.renewAll).2.tree
    (session.perform plan.renewAll).1 = .ok () ∧
      (∀ entry ∈ plan.entries, (entry.text? settings cleaned).isSome) ∧
      (∀ names content, after.tree.get? names = some (.file content) ↔
        match lastTo? plan.entries names with
        | some entry => ∃ text, entry.text? settings cleaned = some text ∧ content = text.toUTF8
        | none => cleaned.get? names = some (.file content)) ∧
      ∀ names, after.tree.get? names = some .dir ↔
        cleaned.get? names = some .dir ∨
          ∃ entry ∈ plan.entries, names <+: entry.target.names ∧ names ≠ entry.target.names := by
  rw [run, Session.perform_bind] at h
  split at h
  · rename_i value renewed hrenewed
    rw [hrenewed]
    rw [Session.perform_bind] at h
    split at h
    · rename_i texts generated hgenerated
      obtain ⟨htree, htexts⟩ := texts_of_perform_mapM hordinary hgenerated
      have hwritten := hasTexts_of_perform_forM hordinary htexts h
      rw [htree] at hwritten
      have hsome : ∀ entry ∈ plan.entries, (entry.text? settings renewed.tree).isSome :=
        ((List.forall₂_and_left _ _).mp (htexts.imp fun entry text htext =>
          ⟨Option.isSome_of_eq_some htext, htext⟩)).1
      exact ⟨rfl, hsome, hwritten.file, hwritten.dir⟩
    · simp at h
  · simp at h

/-- The second entry reads what the first one overwrites, and the third has the target of the first.
The directory of the second target is missing once its parent is cleaned. -/
theorem get?_of_perform_run_overwritten_source :
    let files := FileTree.empty.addDir [] "made" rfl
    let files := files.putFile ["made"] "old" "X\n".toUTF8 (by decide +kernel) (by decide +kernel)
    let files := files.putFile [] "a" "ID a\n".toUTF8 (by decide +kernel) (by decide +kernel)
    let files := files.putFile [] "b" "ID b\n".toUTF8 (by decide +kernel) (by decide +kernel)
    let session : Session := { tree := files }
    let first : Entry := ⟨⟨"a"⟩, ⟨"b"⟩, .header, none⟩
    let second : Entry := ⟨⟨"b"⟩, ⟨"made/deep/b.h"⟩, .header, some "B"⟩
    let third : Entry := ⟨⟨"a"⟩, ⟨"b"⟩, .data, none⟩
    let plan : Plan := { clean := [⟨"made"⟩], entries := [first, second, third] }
    (∀ entry ∈ plan.entries, entry.IsOrdinary) ∧
      ∃ after cleaned, session.perform (plan.run {}) = (.ok (), after) ∧
        session.perform plan.renewAll = (.ok (), cleaned) ∧
        (∃ text, third.text? {} cleaned.tree = some text ∧
          after.tree.get? ["b"] = some (.file text.toUTF8)) ∧
        (∃ text, second.text? {} cleaned.tree = some text ∧
          after.tree.get? ["made", "deep", "b.h"] = some (.file text.toUTF8)) ∧
        after.tree.get? ["made", "deep"] = some .dir := by
  intro files files files files session first second third plan
  have hordinary : ∀ entry ∈ plan.entries, entry.IsOrdinary := by
    intro entry hentry
    simp only [plan, List.mem_cons, List.not_mem_nil, or_false] at hentry
    rcases hentry with rfl | rfl | rfl
    · exact ⟨by decide +kernel, by decide +kernel, by decide⟩
    · exact ⟨by decide +kernel, by decide +kernel, by decide⟩
    · exact ⟨by decide +kernel, by decide +kernel, by decide⟩
  have hok : (session.perform (plan.run {})).1.toBool = true := by decide +kernel
  generalize hrun : session.perform (plan.run {}) = performed at hok
  obtain ⟨result, after⟩ := performed
  cases result with
  | error failure => contradiction
  | ok value =>
    obtain ⟨hclean, hsome, hfile, hdir⟩ := get?_of_perform_run plan {} session after hordinary hrun
    generalize hcleaned : session.perform plan.renewAll = cleaned at hclean hsome hfile
    obtain ⟨result, cleaned⟩ := cleaned
    obtain rfl : result = .ok () := hclean
    have hthird : lastTo? plan.entries ["b"] = some third := by decide +kernel
    have hsecond : lastTo? plan.entries ["made", "deep", "b.h"] = some second := by decide +kernel
    obtain ⟨data, hdata⟩ := Option.isSome_iff_exists.mp (hsome third (by simp [plan]))
    obtain ⟨header, hheader⟩ := Option.isSome_iff_exists.mp (hsome second (by simp [plan]))
    have hb := hfile ["b"] data.toUTF8
    have hdeep := hfile ["made", "deep", "b.h"] header.toUTF8
    rw [hthird] at hb
    rw [hsecond] at hdeep
    refine ⟨hordinary, after, cleaned, rfl, rfl, ⟨data, hdata, hb.mpr ⟨data, hdata, rfl⟩⟩,
      ⟨header, hheader, hdeep.mpr ⟨header, hheader, rfl⟩⟩, ?_⟩
    have hnew : (["made", "deep"] : List String) <+: second.target.names ∧
        ["made", "deep"] ≠ second.target.names := by decide +kernel
    exact (hdir ["made", "deep"]).mpr (.inr ⟨second, by simp [plan], hnew⟩)

end BitFont.Plan

import BitFont.Proofs.Plan.Cleaning
import BitFont.Proofs.Plan.Failing
import BitFont.Proofs.Plan.Snapshot
import BitFont.Proofs.Session.Correspondence

/-!
# Runs that are repeated

A plan whose targets are no sources of it and do not lie on the way to its cleaned directories can be
run again. The second run starts with the outputs of the first, but at every list of names its clean
phase leaves either what the first one left there or what the first run left there in the end
(`renewedBy_eq_or`). That is enough to see the same sources, to write the same texts to the same
places, and to end in the same tree (`run_again`).
-/

namespace BitFont.Plan

/-- A plan whose outputs do not get in the way of its inputs and of its clean phase. -/
structure IsRepeatable (plan : Plan) : Prop extends plan.IsOrdinary where
  target_ne_source : ∀ entry ∈ plan.entries, ∀ other ∈ plan.entries,
    entry.target.names ≠ other.source.names
  /-- No target is a cleaned directory or an ancestor of one. -/
  target_not_above : ∀ entry ∈ plan.entries, ∀ path ∈ plan.clean,
    ¬ entry.target.names <+: path.names

/-! ## Phases -/

theorem exists_phases {plan : Plan} {settings : Settings} {session after : Session}
    (h : session.perform (plan.run settings) = (.ok (), after)) :
    ∃ cleaned texts generated, session.perform plan.renewAll = (.ok (), cleaned) ∧
      cleaned.perform (plan.generateAll settings) = (.ok texts, generated) ∧
      generated.perform (plan.writeAll texts) = (.ok (), after) := by
  rw [run, Session.perform_bind] at h
  split at h
  · rename_i value cleaned hcleaned
    rw [Session.perform_bind] at h
    split at h
    · rename_i texts generated hgenerated
      exact ⟨cleaned, texts, generated, hcleaned, hgenerated, h⟩
    · simp at h
  · simp at h

/-! ## Generating -/

theorem Entry.exists_file_of_text? {entry : Entry} {settings : Settings} {tree : FileTree}
    (h : (entry.text? settings tree).isSome) :
    ∃ content, tree.get? entry.source.names = some (.file content) := by
  unfold Entry.text? at h
  split at h
  · rename_i content hfile
    exact ⟨content, hfile⟩
  · contradiction

/-- What an entry generates hangs on the content of its source alone. -/
theorem fst_perform_generate {session other : Session} {entry : Entry}
    (h : other.content entry.source = session.content entry.source) (settings : Settings) :
    (other.perform (entry.generate settings)).1 = (session.perform (entry.generate settings)).1 := by
  unfold Entry.generate
  rw [Session.perform_readAndGenerate_eq, Session.perform_readAndGenerate_eq, h]
  cases Action.decodeText (session.content entry.source) <;> rfl

theorem tree_perform_generate (session : Session) (entry : Entry) (settings : Settings) :
    (session.perform (entry.generate settings)).2.tree = session.tree := by
  obtain ⟨result, remarks, hperform, -⟩ := perform_generate session entry settings
  rw [hperform]
  exact session.tree_afterReading entry.source

/-- Entries whose sources hold the same in two trees are generated alike. -/
theorem perform_mapM_generate_of_same_sources {settings : Settings} {entries : List Entry}
    (hordinary : ∀ entry ∈ entries, entry.IsOrdinary) {session other generated : Session}
    (hsources : ∀ entry ∈ entries, other.tree.read entry.source = session.tree.read entry.source)
    {texts : List String}
    (h : session.perform (entries.mapM (Entry.generate · settings)) = (.ok texts, generated)) :
    ∃ again, other.perform (entries.mapM (Entry.generate · settings)) = (.ok texts, again) ∧
      again.tree = other.tree := by
  let Alike (tree other : FileTree) : Prop :=
    ∀ entry ∈ entries, other.read entry.source = tree.read entry.source
  have hgenerate : ∀ entry ∈ entries, Session.Correspond Alike Eq (entry.generate settings)
      (entry.generate settings) := by
    intro entry hentry here there halike
    have hfile (any : Session) : any.content entry.source = any.tree.read entry.source :=
      if_neg (by simp [Entry.isInput_source (hordinary entry hentry)])
    have hcontent : there.content entry.source = here.content entry.source := by
      rw [hfile, hfile, halike entry hentry]
    refine .of_eq (fst_perform_generate hcontent settings) ?_
    rw [tree_perform_generate, tree_perform_generate]
    exact halike
  have hboth := Session.Correspond.mapM (List.forall₂_same.mpr hgenerate) session other hsources
  rw [h] at hboth
  cases hother : other.perform (entries.mapM (Entry.generate · settings)) with
  | mk result again =>
    rw [hother] at hboth
    cases hboth with
    | ok hvalues _ =>
      rw [List.forall₂_eq_eq_eq] at hvalues
      subst hvalues
      exact ⟨again, rfl, (texts_of_perform_mapM hordinary hother).1⟩

/-! ## Writing -/

/-- The targets of some entries can be written in a tree, one behind the other. -/
structure IsWritable (entries : List Entry) (tree : FileTree) : Prop where
  hasNul : ∀ entry ∈ entries, entry.target.hasNul = false
  around : ∀ entry ∈ entries, ¬ tree.IsBlocked entry.target.names.dropLast
  free : ∀ entry ∈ entries, tree.get? entry.target.names ≠ some .dir
  apart : ∀ entry ∈ entries, ∀ other ∈ entries,
    ¬ entry.target.names <+: other.target.names.dropLast

theorem IsWritable.tail {entry : Entry} {rest : List Entry} {tree between : FileTree}
    {content : ByteArray} (hordinary : ∀ other ∈ entry :: rest, other.IsOrdinary)
    (h : IsWritable (entry :: rest) tree)
    (hwritten : tree.HasWritten entry.target.names content between) :
    IsWritable rest between where
  hasNul := (List.forall_mem_cons.mp h.hasNul).2
  around := by
    rintro other hother ⟨query, found, hquery, hfile⟩
    have hmem := List.mem_cons_of_mem entry hother
    rw [hwritten.file] at hfile
    split at hfile
    · rename_i htarget
      exact h.apart entry List.mem_cons_self other hmem (htarget ▸ hquery)
    · exact h.around other hmem ⟨query, found, hquery, hfile⟩
  free := by
    intro other hother hdir
    have hmem := List.mem_cons_of_mem entry hother
    rcases (hwritten.dir _).mp hdir with hold | hleads
    · exact h.free other hmem hold
    · have hne := (hordinary entry List.mem_cons_self).target.names_ne_nil
      exact h.apart other hmem entry List.mem_cons_self
        ((FileTree.prefix_dropLast_iff hne).mpr hleads)
  apart := fun other hother next hnext =>
    h.apart other (List.mem_cons_of_mem entry hother) next (List.mem_cons_of_mem entry hnext)

theorem perform_forM_writeOut_of_isWritable {entries : List Entry} {session : Session}
    (hordinary : ∀ entry ∈ entries, entry.IsOrdinary) (h : IsWritable entries session.tree)
    (texts : List String) :
    ∃ after, (session.perform ((entries.zip texts).forM fun (entry, text) =>
      writeOut entry.target text)) = (.ok (), after) := by
  induction entries generalizing session texts with
  | nil => exact ⟨session, rfl⟩
  | cons entry rest ih =>
    cases texts with
    | nil => exact ⟨session, rfl⟩
    | cons text others =>
      obtain ⟨hentry, hrest⟩ := List.forall_mem_cons.mp hordinary
      obtain ⟨between, hbetween⟩ : ∃ between,
          session.perform (writeOut entry.target text) = (.ok (), between) := by
        rw [writeOut, Session.perform_bind_of_ok (session.perform_notify _)]
        refine Session.perform_writeText_of_free _ hentry.target ?_ ?_ ?_ text
        · exact h.hasNul entry List.mem_cons_self
        · exact h.around entry List.mem_cons_self
        · exact h.free entry List.mem_cons_self
      have hwritten := hasWritten_of_perform_writeOut hentry.target hbetween
      obtain ⟨after, hafter⟩ := ih hrest (h.tail hordinary hwritten) others
      refine ⟨after, ?_⟩
      rw [List.zip_cons_cons, Session.perform_forM_cons, Session.perform_bind_of_ok hbetween]
      exact hafter

/-- A target that was written has no NUL. -/
theorem hasNul_of_perform_forM_writeOut {entries : List Entry} {texts : List String}
    {session after : Session} (hlength : entries.length = texts.length)
    (hordinary : ∀ entry ∈ entries, entry.IsOrdinary)
    (h : session.perform ((entries.zip texts).forM fun (entry, text) =>
      writeOut entry.target text) = (.ok (), after)) :
    ∀ entry ∈ entries, entry.target.hasNul = false := by
  induction entries generalizing session texts with
  | nil => simp
  | cons entry rest ih =>
    obtain ⟨hentry, hrest⟩ := List.forall_mem_cons.mp hordinary
    cases texts with
    | nil => simp at hlength
    | cons text others =>
      rw [List.zip_cons_cons, Session.perform_forM_cons, Session.perform_bind] at h
      split at h
      · rename_i value between hwrite
        change session.perform (writeOut entry.target text) = _ at hwrite
        rw [writeOut, Session.perform_bind_of_ok (session.perform_notify _)] at hwrite
        obtain ⟨made, -, -, hmade⟩ := Session.exists_write_of_perform_writeText hwrite
        have hnul := ((FileTree.write_ok_iff hentry.target _).mp ⟨_, hmade⟩).1
        rw [List.forall_mem_cons]
        exact ⟨hnul, ih (Nat.succ.inj hlength) hrest h⟩
      · simp at h

/-! ## Trees between two runs -/

namespace HasTexts

variable {entries : List Entry} {text? : Entry → Option String} {tree other between last : FileTree}

theorem exists_file_at_target (h : HasTexts entries text? tree other)
    (hsome : ∀ entry ∈ entries, (text? entry).isSome) {entry : Entry} (hentry : entry ∈ entries) :
    ∃ content, other.get? entry.target.names = some (.file content) := by
  obtain ⟨last, hlast⟩ := exists_lastTo?_eq_some hentry
  obtain ⟨text, htext⟩ := Option.isSome_iff_exists.mp (hsome last (of_lastTo?_eq_some hlast).1)
  refine ⟨text.toUTF8, ?_⟩
  rw [h.file, hlast]
  exact ⟨text, htext, rfl⟩

theorem get?_dir_around_target (h : HasTexts entries text? tree other) {entry : Entry}
    (hentry : entry ∈ entries) (hordinary : entry.IsOrdinary) {query : List String}
    (hquery : query <+: entry.target.names.dropLast) : other.get? query = some .dir := by
  rw [h.dir]
  exact .inr ⟨entry, hentry,
    (FileTree.prefix_dropLast_iff hordinary.target.names_ne_nil).mp hquery⟩

/-- Away from the targets the files are the old ones. -/
theorem file_of_lastTo?_eq_none (h : HasTexts entries text? tree other) {names : List String}
    (hnone : lastTo? entries names = none) (content : ByteArray) :
    other.get? names = some (.file content) ↔ tree.get? names = some (.file content) := by
  rw [h.file, hnone]

/-- The texts are in the way of no path that none of the targets leads to. -/
theorem not_isBlocked (h : HasTexts entries text? tree other) {names : List String}
    (htargets : ∀ entry ∈ entries, ¬ entry.target.names <+: names)
    (hfree : ¬ tree.IsBlocked names) : ¬ other.IsBlocked names := by
  rintro ⟨query, content, hquery, hfile⟩
  cases hlast : lastTo? entries query with
  | none =>
    rw [h.file_of_lastTo?_eq_none hlast] at hfile
    exact hfree ⟨query, content, hquery, hfile⟩
  | some entry =>
    obtain ⟨hentry, rfl⟩ := of_lastTo?_eq_some hlast
    exact htargets entry hentry hquery

/-- A file that is no target stays in the tree, and so between the two. -/
theorem get?_file_between (h : HasTexts entries text? tree other)
    (hbetween : ∀ names, between.get? names = tree.get? names ∨
      between.get? names = other.get? names) {names : List String} {content : ByteArray}
    (htargets : ∀ entry ∈ entries, entry.target.names ≠ names)
    (hfile : tree.get? names = some (.file content)) :
    between.get? names = some (.file content) := by
  have hnone : lastTo? entries names = none := by
    rw [Option.eq_none_iff_forall_not_mem]
    intro entry hentry
    obtain ⟨hmem, htarget⟩ := of_lastTo?_eq_some hentry
    exact htargets entry hmem htarget
  rcases hbetween names with hold | hnew
  · rw [hold, hfile]
  · rw [hnew, h.file_of_lastTo?_eq_none hnone, hfile]

/-- The texts can be written to the same targets again in a tree that has at all names what was
there before they were written or what was there then. -/
theorem isWritable (h : HasTexts entries text? tree other)
    (hsome : ∀ entry ∈ entries, (text? entry).isSome)
    (hordinary : ∀ entry ∈ entries, entry.IsOrdinary)
    (hnul : ∀ entry ∈ entries, entry.target.hasNul = false)
    (hbetween : ∀ names, between.get? names = tree.get? names ∨
      between.get? names = other.get? names) : IsWritable entries between where
  hasNul := hnul
  around := by
    rintro entry hentry ⟨query, content, hquery, hfile⟩
    have hdir := h.get?_dir_around_target hentry (hordinary entry hentry) hquery
    rcases hbetween query with hold | hnew
    · -- An old file would be there still, unless a target had been written over it.
      cases hlast : lastTo? entries query with
      | none =>
        rw [hold, ← h.file_of_lastTo?_eq_none hlast, hdir] at hfile
        simp at hfile
      | some target =>
        obtain ⟨htarget, rfl⟩ := of_lastTo?_eq_some hlast
        obtain ⟨found, hfound⟩ := h.exists_file_at_target hsome htarget
        rw [hdir] at hfound
        simp at hfound
    · rw [hnew, hdir] at hfile
      simp at hfile
  free := by
    intro entry hentry hdir
    obtain ⟨content, hfile⟩ := h.exists_file_at_target hsome hentry
    have hstill : other.get? entry.target.names = some .dir := by
      rcases hbetween entry.target.names with hold | hnew
      · exact (h.dir _).mpr (.inl (hold ▸ hdir))
      · rw [← hnew, hdir]
    rw [hstill] at hfile
    simp at hfile
  apart := by
    intro entry hentry next hnext hleads
    obtain ⟨content, hfile⟩ := h.exists_file_at_target hsome hentry
    rw [h.get?_dir_around_target hnext (hordinary next hnext) hleads] at hfile
    simp at hfile

/-- Writing the same texts again changes nothing. -/
theorem get?_eq (h : HasTexts entries text? tree other)
    (hbetween : ∀ names, between.get? names = tree.get? names ∨
      between.get? names = other.get? names)
    (hagain : HasTexts entries text? between last) (names : List String) :
    last.get? names = other.get? names := by
  have hfile (content : ByteArray) : last.get? names = some (.file content) ↔
      other.get? names = some (.file content) := by
    cases hlast : lastTo? entries names with
    | some entry => rw [hagain.file, h.file, hlast]
    | none =>
      rw [hagain.file_of_lastTo?_eq_none hlast]
      rcases hbetween names with hold | hnew
      · rw [hold, h.file_of_lastTo?_eq_none hlast]
      · rw [hnew]
  have hdir : last.get? names = some .dir ↔ other.get? names = some .dir := by
    rw [hagain.dir]
    rcases hbetween names with hold | hnew
    · rw [hold, h.dir]
    · rw [hnew, h.dir, or_assoc, or_self]
  exact FileTree.get?_congr hfile hdir

end HasTexts

/-! ## Two runs -/

/-- A run that succeeds can be repeated on the tree that it leaves, and leaves that tree again. -/
theorem run_again {plan : Plan} (hplan : plan.IsRepeatable) {settings : Settings}
    {session after : Session} (h : session.perform (plan.run settings) = (.ok (), after))
    (again : Session) (htree : again.tree = after.tree) :
    ∃ last, again.perform (plan.run settings) = (.ok (), last) ∧
      ∀ names, last.tree.get? names = after.tree.get? names := by
  obtain ⟨cleaned, texts, generated, hcleaned, hgenerated, hwritten⟩ := exists_phases h
  obtain ⟨hclean, hview⟩ := of_perform_forM_renew hplan.clean hcleaned
  obtain ⟨hkept, htexts⟩ := texts_of_perform_mapM hplan.entries hgenerated
  have hnul := hasNul_of_perform_forM_writeOut htexts.length_eq hplan.entries hwritten
  have hfirst := hasTexts_of_perform_forM hplan.entries htexts hwritten
  rw [hkept] at hfirst
  have hsome : ∀ entry ∈ plan.entries, (entry.text? settings cleaned.tree).isSome :=
    ((List.forall₂_and_left _ _).mp (htexts.imp fun entry text htext =>
      ⟨Option.isSome_of_eq_some htext, htext⟩)).1
  -- Nothing that the first run wrote is in the way of the second clean phase.
  have hfree : ∀ path ∈ plan.clean, ¬ again.tree.IsBlocked path.names := by
    intro path hpath
    rw [htree]
    exact hfirst.not_isBlocked (fun entry hentry => hplan.target_not_above entry hentry path hpath)
      (hclean path hpath).2
  obtain ⟨recleaned, hrecleaned, hreview⟩ := perform_forM_renew_of_free hplan.clean
    (fun path hpath => (hclean path hpath).1) hfree
  have hbetween : ∀ names, recleaned.tree.get? names = cleaned.tree.get? names ∨
      recleaned.tree.get? names = after.tree.get? names := by
    intro names
    rw [hreview, hview, htree]
    exact renewedBy_eq_or ..
  -- A source is no target, so it holds what it held before.
  have hread : ∀ entry ∈ plan.entries,
      recleaned.tree.read entry.source = cleaned.tree.read entry.source := by
    intro entry hentry
    obtain ⟨content, hfile⟩ := entry.exists_file_of_text? (hsome entry hentry)
    have hkeeps := hfirst.get?_file_between hbetween
      (fun other hother => hplan.target_ne_source other hother entry hentry) hfile
    exact FileTree.read_congr (hplan.entries entry hentry).source hfile hkeeps
  obtain ⟨regenerated, hregenerated, hrekept⟩ :=
    perform_mapM_generate_of_same_sources hplan.entries hread hgenerated
  have hwritable : IsWritable plan.entries regenerated.tree := by
    rw [hrekept]
    exact hfirst.isWritable hsome hplan.entries hnul hbetween
  obtain ⟨last, hlast⟩ := perform_forM_writeOut_of_isWritable hplan.entries hwritable texts
  have hsecond := hasTexts_of_perform_forM hplan.entries htexts hlast
  rw [hrekept] at hsecond
  refine ⟨last, ?_, hfirst.get?_eq hbetween hsecond⟩
  rw [run, renewAll, Session.perform_bind_of_ok hrecleaned, generateAll,
    Session.perform_bind_of_ok hregenerated]
  exact hlast

/-- Cleaned directories that lie in one another and are listed twice, one of which is there with a
file in it, and two entries with one target in them. -/
theorem run_again_nested :
    let files := FileTree.empty.addDir [] "lib" rfl
    let files := files.putFile ["lib"] "rest" "-\n".toUTF8 (by decide +kernel) (by decide +kernel)
    let files := files.putFile [] "font" "ID f\n".toUTF8 (by decide +kernel) (by decide +kernel)
    let session : Session := { tree := files }
    let header : Entry := ⟨⟨"font"⟩, ⟨"lib/font.h"⟩, .header, none⟩
    let data : Entry := ⟨⟨"font"⟩, ⟨"lib/font.h"⟩, .data, some "F"⟩
    let other : Entry := ⟨⟨"font"⟩, ⟨"extra/font.inc"⟩, .data, none⟩
    let plan : Plan :=
      { clean := [⟨"lib/deep"⟩, ⟨"lib"⟩, ⟨"lib"⟩], entries := [header, data, other] }
    plan.IsRepeatable ∧ ∃ after last, session.perform (plan.run {}) = (.ok (), after) ∧
      Session.perform { tree := after.tree } (plan.run {}) = (.ok (), last) ∧
        ∀ names, last.tree.get? names = after.tree.get? names := by
  intro files files files session header data other plan
  have hentries : ∀ entry ∈ plan.entries, entry.IsOrdinary := by
    intro entry hentry
    simp only [plan, List.mem_cons, List.not_mem_nil, or_false] at hentry
    rcases hentry with rfl | rfl | rfl
    · exact ⟨by decide +kernel, by decide +kernel, by decide⟩
    · exact ⟨by decide +kernel, by decide +kernel, by decide⟩
    · exact ⟨by decide +kernel, by decide +kernel, by decide⟩
  have hplan : plan.IsRepeatable :=
    { clean := by decide +kernel
      entries := hentries
      target_ne_source := by decide +kernel
      target_not_above := by decide +kernel }
  have hok : (session.perform (plan.run {})).1.toBool = true := by decide +kernel
  generalize hrun : session.perform (plan.run {}) = performed at hok
  obtain ⟨result, after⟩ := performed
  cases result with
  | error failure => exact absurd hok Bool.false_ne_true
  | ok value =>
    obtain ⟨last, hlast, hsame⟩ := run_again hplan hrun { tree := after.tree } rfl
    exact ⟨hplan, after, last, rfl, hlast, hsame⟩

end BitFont.Plan

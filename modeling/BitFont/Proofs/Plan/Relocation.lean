import BitFont.Proofs.Files.Relocation
import BitFont.Proofs.Plan.Snapshot
import BitFont.Proofs.Session.Correspondence

/-!
# Plans in a directory

Where a plan lies does not matter. Every action that a run is made of corresponds to the same action
on the paths in a directory, between a tree and one that has it in that directory. So a plan that is
loaded from the directory, whose paths are then meant from there, runs as it does outside
(`run_under`).
-/

namespace BitFont.Plan

/-- The file at a path holds the text of a plan. -/
def LiesAt (plan : Plan) (path : Path) (tree : FileTree) : Prop :=
  ∃ text, Action.decodeText (tree.read path) = .ok text ∧ ofText text = .ok plan

/-! ## Ordinary plans -/

theorem Entry.IsOrdinary.under {root : Path} (hroot : root.IsOrdinary) {entry : Entry}
    (h : entry.IsOrdinary) : (entry.under root).IsOrdinary where
  source := Path.isOrdinary_under hroot h.source
  target := Path.isOrdinary_under hroot h.target
  notInput := by
    intro hdash
    -- A path under another one has two segments at least.
    have hsegments := Path.segments_under hroot h.source
    rw [show root.under entry.source = ⟨"-"⟩ from hdash] at hsegments
    have hlength := congrArg List.length hsegments
    have hone : (⟨"-"⟩ : Path).segments.length = 1 := by decide
    have hbefore := List.length_pos_of_ne_nil root.segments_ne_nil
    have hbehind := List.length_pos_of_ne_nil entry.source.segments_ne_nil
    rw [List.length_append] at hlength
    omega

theorem IsOrdinary.under {root : Path} (hroot : root.IsOrdinary) {plan : Plan}
    (h : plan.IsOrdinary) : (plan.under root).IsOrdinary where
  clean := List.forall_mem_map.mpr fun path hpath => Path.isOrdinary_under hroot (h.clean path hpath)
  entries := List.forall_mem_map.mpr fun entry hentry => (h.entries entry hentry).under hroot

theorem IsOrdinary.under_under {outer root : Path} (houter : outer.IsOrdinary)
    (hroot : root.IsOrdinary) {plan : Plan} (h : plan.IsOrdinary) :
    plan.under (outer.under root) = (plan.under root).under outer := by
  have hclean : plan.clean.map (outer.under root).under =
      plan.clean.map (outer.under ∘ root.under) :=
    List.map_congr_left fun path hpath => Path.under_under houter hroot (h.clean path hpath)
  have hentries : plan.entries.map (Entry.under (outer.under root)) =
      plan.entries.map (Entry.under outer ∘ Entry.under root) := by
    apply List.map_congr_left
    intro entry hentry
    obtain ⟨hsource, htarget, -⟩ := h.entries entry hentry
    simp only [Entry.under, Function.comp_apply, Path.under_under houter hroot hsource,
      Path.under_under houter hroot htarget]
  simp only [Plan.under, hclean, hentries, List.map_map]

/-- The paths of a plan that lies in the root are meant as they are. -/
theorem under_empty (plan : Plan) : plan.under ⟨""⟩ = plan := by
  have hpath : (⟨""⟩ : Path).under = id := by
    funext path
    rw [Path.under, if_pos (by simp)]
    rfl
  have hentry : Entry.under ⟨""⟩ = id := by
    funext entry
    simp only [Entry.under, hpath, id]
  simp only [Plan.under, hpath, hentry, List.map_id]

/-- The directory of a plan is the root, whose path is empty, or it has an ordinary path. -/
theorem under_parent {directory : String} (hdirectory : Path.IsFileName directory) {path : Path}
    (hpath : path.IsOrdinary) {plan : Plan} (h : plan.IsOrdinary) :
    (plan.under (path.parent?.getD ⟨""⟩)).IsOrdinary ∧
      plan.under (((⟨directory⟩ : Path).under path).parent?.getD ⟨""⟩) =
        (plan.under (path.parent?.getD ⟨""⟩)).under ⟨directory⟩ := by
  rw [(Path.isOrdinary_under hdirectory.isOrdinary hpath).parent?_eq,
    hdirectory.ofSegments_under hpath, hpath.parent?_eq, Option.getD_some, Option.getD_some]
  by_cases hbare : path.segments.dropLast = []
  · have hroot : Path.ofSegments path.segments.dropLast = ⟨""⟩ := by
      rw [hbare]
      rfl
    rw [if_pos hbare, hroot, under_empty]
    exact ⟨h, rfl⟩
  · have hroot := (hpath.isOrdinary_dropLast hbare).1
    rw [if_neg hbare]
    exact ⟨h.under hroot, h.under_under hdirectory.isOrdinary hroot⟩

/-! ## Actions -/

/-- What is generated, and whether it is, hangs on the text of the source and not on its name. -/
theorem correspond_deliver_generate {trees : FileTree → FileTree → Prop} {source other : Source}
    (htext : other.text = source.text) (artifact : Artifact) (settings : Settings) :
    Session.Correspond trees Eq (Action.deliver (source.generate artifact settings))
      (Action.deliver (other.generate artifact settings)) := by
  intro here there h
  rw [Session.perform_deliver, Session.perform_deliver]
  by_cases hdenied : settings.denyProblems = true ∧
      (Compilation.ofText source.text).hasProblems = true
  · rw [source.result_generate_of_denied hdenied.1 hdenied.2,
      other.result_generate_of_denied hdenied.1 (htext ▸ hdenied.2)]
    exact .error h
  · rw [source.result_generate hdenied, other.result_generate (htext ▸ hdenied), htext]
    exact .ok rfl h

section

variable {directory : String} (hdirectory : Path.IsFileName directory) {path : Path}

include hdirectory

section

variable (hpath : path.IsOrdinary)

include hpath

theorem correspond_readText : Session.Correspond (FileTree.IsPlaced directory) Eq
    (Action.readText path) (Action.readText ((⟨directory⟩ : Path).under path)) := by
  intro here there h
  rw [Session.perform_readText, Session.perform_readText]
  rcases h.read hdirectory hpath with ⟨content, hhere, hthere⟩ | ⟨error, other, hhere, hthere⟩
  · rw [hhere, hthere]
    cases Action.decodeText (.ok content) with
    | ok text => exact .ok rfl h
    | error error => exact .error h
  · rw [hhere, hthere]
    exact .error h

theorem correspond_makeDirectories : Session.Correspond (FileTree.IsPlaced directory) Eq
    (Action.makeDirectories path) (Action.makeDirectories ((⟨directory⟩ : Path).under path)) := by
  intro here there h
  obtain ⟨hresult, htrees⟩ := h.makeDirectories hdirectory hpath
  rw [Session.perform_makeDirectories, Session.perform_makeDirectories]
  exact .of_toBool hresult htrees _ _

theorem correspond_removeDirectory (fails otherFails : FileError → Failure) :
    Session.Correspond (FileTree.IsPlaced directory) Eq
      (Action.attempt fails (Host.removeDirectory path))
      (Action.attempt otherFails (Host.removeDirectory ((⟨directory⟩ : Path).under path))) := by
  intro here there h
  obtain ⟨hresult, htrees⟩ := h.removeDirectory hdirectory hpath
  rw [Session.perform_removeDirectory, Session.perform_removeDirectory]
  exact .of_toBool hresult htrees _ _

theorem correspond_write (fails otherFails : FileError → Failure) (content : ByteArray) :
    Session.Correspond (FileTree.IsPlaced directory) Eq
      (Action.attempt fails (Host.write path content))
      (Action.attempt otherFails (Host.write ((⟨directory⟩ : Path).under path) content)) := by
  intro here there h
  rw [Session.perform_write, Session.perform_write]
  rcases h.write hdirectory hpath content with
    ⟨after, otherAfter, hhere, hthere, htrees⟩ | ⟨error, other, hhere, hthere⟩
  · rw [hhere, hthere]
    exact .ok rfl htrees
  · rw [hhere, hthere]
    exact .error h

/-- The parent of a bare name is the root of the one tree and the directory in the other. -/
theorem correspond_writeText (text : String) :
    Session.Correspond (FileTree.IsPlaced directory) Eq
      (Action.writeText path text)
      (Action.writeText ((⟨directory⟩ : Path).under path) text) := by
  intro here there h
  have hparent := hpath.parent?_eq
  have hparentUnder := (Path.isOrdinary_under hdirectory.isOrdinary hpath).parent?_eq
  rw [hdirectory.ofSegments_under hpath] at hparentUnder
  by_cases hbare : path.segments.dropLast = []
  · -- Nothing is made around a bare name, and around the other path the directory is there already.
    rw [if_pos hbare] at hparentUnder
    rw [Session.perform_writeText_of_bare here hparent (by rw [hbare]; rfl),
      Session.perform_writeText_of_parent there hparentUnder hdirectory.isName.1,
      Session.perform_bind, Session.perform_makeDirectories]
    obtain ⟨after, hafter, htrees⟩ := h.makeDirectories_self hdirectory
    rw [hafter]
    exact correspond_write hdirectory hpath _ _ _ here _ htrees
  · have haround := (hpath.isOrdinary_dropLast hbare).1
    rw [if_neg hbare] at hparentUnder
    rw [Session.perform_writeText_of_parent here hparent haround.text_ne_empty,
      Session.perform_writeText_of_parent there hparentUnder
        (Path.isOrdinary_under hdirectory.isOrdinary haround).text_ne_empty]
    have hboth := (correspond_makeDirectories hdirectory haround).bind fun _ _ _ =>
      correspond_write hdirectory hpath (.unwritable path)
        (.unwritable ((⟨directory⟩ : Path).under path)) text.toUTF8
    exact hboth here there h

theorem correspond_renew : Session.Correspond (FileTree.IsPlaced directory) Eq
    (renew path) (renew ((⟨directory⟩ : Path).under path)) := by
  have hcreate := (Session.Correspond.notify (.creating path.text)
    (.creating ((⟨directory⟩ : Path).under path).text)).bind fun _ _ _ =>
      correspond_makeDirectories hdirectory hpath
  intro here there h
  unfold renew
  rw [Session.perform_bind_of_ok (here.perform_isPresent path),
    Session.perform_bind_of_ok (there.perform_isPresent _), h.isPresent_eq hdirectory hpath]
  dsimp only
  split
  · have hremove := (Session.Correspond.notify (.removing path.text)
      (.removing ((⟨directory⟩ : Path).under path).text)).bind fun _ _ _ =>
        (correspond_removeDirectory hdirectory hpath (.directoryNotCleaned path)
          (.directoryNotCleaned ((⟨directory⟩ : Path).under path))).bind fun _ _ _ => hcreate
    exact hremove here there h
  · exact hcreate here there h

end

theorem correspond_generate {entry : Entry} (hentry : entry.IsOrdinary) (settings : Settings) :
    Session.Correspond (FileTree.IsPlaced directory) Eq (entry.generate settings)
      ((entry.under ⟨directory⟩).generate settings) := by
  have hinput := Entry.isInput_source hentry
  have hinputUnder := Entry.isInput_source (hentry.under hdirectory.isOrdinary)
  have hread : Session.Correspond (FileTree.IsPlaced directory)
      (fun source other : Source => other.text = source.text)
      (Source.read (some entry.source))
      (Source.read (some (entry.under ⟨directory⟩).source)) := by
    unfold Source.read
    simp only [hinput, hinputUnder, Bool.false_eq_true, if_false]
    refine (correspond_readText hdirectory hentry.source).bind fun text other htext => ?_
    exact .pure htext.symm
  exact hread.bind fun source other htext => correspond_deliver_generate htext _ _

/-! ## Runs -/

theorem correspond_writeOut (hpath : path.IsOrdinary) (text : String) :
    Session.Correspond (FileTree.IsPlaced directory) Eq
      (writeOut path text) (writeOut ((⟨directory⟩ : Path).under path) text) :=
  (Session.Correspond.notify _ _).bind fun _ _ _ => correspond_writeText hdirectory hpath text

theorem correspond_run {plan : Plan} (h : plan.IsOrdinary) (settings : Settings) :
    Session.Correspond (FileTree.IsPlaced directory) Eq (plan.run settings)
      ((plan.under ⟨directory⟩).run settings) := by
  have hrenew : Session.Correspond (FileTree.IsPlaced directory) Eq plan.renewAll
      (plan.under ⟨directory⟩).renewAll := by
    refine .forM (List.forall₂_map_right_iff.mpr (List.forall₂_same.mpr ?_))
    exact fun path hpath => correspond_renew hdirectory (h.clean path hpath)
  have hgenerate : Session.Correspond (FileTree.IsPlaced directory) (List.Forall₂ Eq)
      (plan.generateAll settings) ((plan.under ⟨directory⟩).generateAll settings) := by
    refine .mapM (List.forall₂_map_right_iff.mpr (List.forall₂_same.mpr ?_))
    exact fun entry hentry => correspond_generate hdirectory (h.entries entry hentry) settings
  have hwrite (texts : List String) : Session.Correspond (FileTree.IsPlaced directory) Eq
      (plan.writeAll texts) ((plan.under ⟨directory⟩).writeAll texts) := by
    unfold writeAll
    rw [Plan.under, List.zip_map_left]
    refine .forM (List.forall₂_map_right_iff.mpr (List.forall₂_same.mpr ?_))
    rintro ⟨entry, text⟩ hmem
    have hentry := h.entries entry (List.of_mem_zip hmem).1
    exact correspond_writeOut hdirectory hentry.target text
  refine hrenew.bind fun _ _ _ => hgenerate.bind fun texts others htexts => ?_
  rw [List.forall₂_eq_eq_eq] at htexts
  subst htexts
  exact hwrite texts

/-- Both texts are the same, and so are the plans in them, up to the directory. -/
theorem endAlike_load (hpath : path.IsOrdinary) {here there : Session}
    (h : here.tree.IsPlaced directory there.tree)
    (hplan : ∀ plan : Plan, plan.LiesAt path here.tree → plan.IsOrdinary) :
    Session.EndAlike (FileTree.IsPlaced directory)
      (fun plan other : Plan => plan.IsOrdinary ∧ other = plan.under ⟨directory⟩)
      (here.perform (load path)) (there.perform (load ((⟨directory⟩ : Path).under path))) := by
  have hread := correspond_readText hdirectory hpath here there h
  unfold load
  rw [Session.perform_bind, Session.perform_bind]
  rw [Session.perform_readText] at hread ⊢
  generalize there.perform (Action.readText ((⟨directory⟩ : Path).under path)) = performed
    at hread ⊢
  cases htext : Action.decodeText (here.tree.read path) with
  | error error =>
    rw [htext] at hread
    cases hread with
    | error htrees => exact .error htrees
  | ok text =>
    rw [htext] at hread
    cases hread with
    | ok hvalues htrees =>
      subst hvalues
      dsimp only [Except.mapError]
      cases hfound : ofText text with
      | error fault => exact .error htrees
      | ok plan =>
        exact .ok (under_parent hdirectory hpath (hplan plan ⟨text, htext, hfound⟩)) htrees

/-- A plan that lies in a tree is loaded and run with the same success, and with the same effect on
the tree, when the tree is placed in a directory and the plan is loaded from there. -/
theorem run_under (hpath : path.IsOrdinary) (here there : Session)
    (hplaced : here.tree.IsPlaced directory there.tree)
    (hplan : ∀ plan : Plan, plan.LiesAt path here.tree → plan.IsOrdinary) (settings : Settings) :
    let outside := here.perform do
      let plan ← load path
      plan.run settings
    let inside := there.perform do
      let plan ← load ⟨directory ++ "/" ++ path.text⟩
      plan.run settings
    (inside.1 = .ok () ↔ outside.1 = .ok ()) ∧
      FileTree.IsPlaced directory outside.2.tree inside.2.tree := by
  intro outside inside
  have hboth : Session.EndAlike (FileTree.IsPlaced directory) Eq outside inside := by
    have hload := endAlike_load hdirectory hpath hplaced hplan
    rw [Path.under_eq hdirectory.isOrdinary hpath] at hload
    refine hload.bind fun plan other hplans => ?_
    obtain ⟨hordinary, rfl⟩ := hplans
    exact correspond_run hdirectory hordinary settings
  exact ⟨hboth.ok_iff (), hboth.trees_of⟩

end

/-- The plan lies in the root, cleans a directory that is missing, and has one target in there and one
beside the plan. -/
theorem run_under_bare_target :
    let text := "clean = ['gen']\n" ++
      "generate = [['runes', 'gen/runes.h', 'header'], ['runes', 'runes.inc', 'data']]\n"
    let files := FileTree.empty.putFile [] "plan.toml" text.toUTF8 rfl (by decide +kernel)
    let files := files.putFile [] "runes" "ID m\nX\n".toUTF8 (by decide +kernel) (by decide +kernel)
    let plan : Plan :=
      { clean := [⟨"gen"⟩]
        entries := [⟨⟨"runes"⟩, ⟨"gen/runes.h"⟩, .header, none⟩,
          ⟨⟨"runes"⟩, ⟨"runes.inc"⟩, .data, none⟩] }
    let here : Session := { tree := files }
    let there : Session := { tree := files.place "assets" }
    Path.IsFileName "assets" ∧ plan.LiesAt ⟨"plan.toml"⟩ files ∧ plan.IsOrdinary ∧
      ∃ outside inside,
        (here.perform do
          let plan ← load ⟨"plan.toml"⟩
          plan.run {}) = (.ok (), outside) ∧
        (there.perform do
          let plan ← load ⟨"assets/plan.toml"⟩
          plan.run {}) = (.ok (), inside) ∧
        outside.tree.IsPlaced "assets" inside.tree := by
  intro text files files plan here there
  have hdirectory : Path.IsFileName "assets" :=
    ⟨by decide +kernel, by decide +kernel, by decide +kernel⟩
  have hdecode : Action.decodeText (files.read ⟨"plan.toml"⟩) = .ok text := by decide +kernel
  have hfound : ofText text = .ok plan := by decide +kernel
  have hordinary : plan.IsOrdinary := by
    refine ⟨by decide +kernel, ?_⟩
    intro entry hentry
    simp only [plan, List.mem_cons, List.not_mem_nil, or_false] at hentry
    rcases hentry with rfl | rfl
    · exact ⟨by decide +kernel, by decide +kernel, by decide⟩
    · exact ⟨by decide +kernel, by decide +kernel, by decide⟩
  have hplan : ∀ other : Plan, other.LiesAt ⟨"plan.toml"⟩ here.tree → other.IsOrdinary := by
    rintro other ⟨otherText, hother, hotherFound⟩
    obtain rfl := Except.ok.inj (hdecode.symm.trans hother)
    obtain rfl := Except.ok.inj (hfound.symm.trans hotherFound)
    exact hordinary
  have hpath : (⟨"plan.toml"⟩ : Path).IsOrdinary := by decide +kernel
  have hjoined : "assets" ++ "/" ++ "plan.toml" = "assets/plan.toml" := by decide +kernel
  have hrun := run_under hdirectory hpath here there (files.isPlaced_place "assets") hplan {}
  rw [hjoined] at hrun
  obtain ⟨hiff, hplaced⟩ := hrun
  have hok : (here.perform do
      let plan ← load ⟨"plan.toml"⟩
      plan.run {}).1 = .ok () := by decide +kernel
  generalize (here.perform do
    let plan ← load ⟨"plan.toml"⟩
    plan.run {}) = performed at hok hiff hplaced
  generalize (there.perform do
    let plan ← load ⟨"assets/plan.toml"⟩
    plan.run {}) = otherPerformed at hiff hplaced
  obtain ⟨result, outside⟩ := performed
  obtain ⟨otherResult, inside⟩ := otherPerformed
  obtain rfl : result = .ok () := hok
  obtain rfl : otherResult = .ok () := hiff.mpr rfl
  exact ⟨hdirectory, ⟨text, hdecode, hfound⟩, hordinary, outside, inside, rfl, rfl, hplaced⟩

end BitFont.Plan

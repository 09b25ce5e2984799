import BitFont.Proofs.Command.Requests
import Mathlib.Data.List.Basic

/-!
# Parts of requests

What a command line asks for can be asked for in part. Every part that keeps the operands has a
spelling (`Request.exists_spells_keeping`), and is read as what it keeps: without an output, the
artifact is for the standard output (`Request.asked_withoutOutput`); with problems allowed, all else
stays as it is (`Request.asked_withoutDenial`).
-/

namespace BitFont.Command

/-! ## Items that are left -/

section

variable {flags : List Flag} {given next : Given} {items : List Item} {words : List String}

/-- Where something is not said, what was read without it is not any less. -/
theorem Given.takeAll?_filter {keep : Item → Bool} {forget : Given → Given}
    (hkeep : ∀ given item, keep item = true → given.Accepts flags item →
      (forget given).Accepts flags item ∧ (forget given).take item = forget (given.take item))
    (hdrop : ∀ given item, keep item = false → forget (given.take item) = forget given)
    (h : given.takeAll? flags items = some next) :
    (forget given).takeAll? flags (items.filter keep) = some (forget next) := by
  induction items generalizing given with
  | nil => rw [← Option.some.inj h]; rfl
  | cons item rest ih =>
    rw [takeAll?_cons, Option.bind_eq_some_iff] at h
    obtain ⟨between, hitem, hrest⟩ := h
    obtain ⟨haccepts, rfl⟩ := take?_eq_some_iff.mp hitem
    cases hkeeps : keep item with
    | true =>
      obtain ⟨haccepts', htake⟩ := hkeep given item hkeeps haccepts
      rw [List.filter_cons_of_pos hkeeps, takeAll?_cons,
        take?_eq_some_iff.mpr ⟨haccepts', htake⟩, Option.bind_some]
      exact ih hrest
    | false =>
      rw [List.filter_cons_of_neg (by simp [hkeeps]), ← hdrop given item hkeeps]
      exact ih hrest

theorem filterMap_filter_of_forall {α β : Type} {keep : α → Bool} {f : α → Option β}
    (h : ∀ item, keep item = false → f item = none) (items : List α) :
    (items.filter keep).filterMap f = items.filterMap f := by
  rw [List.filterMap_filter]
  apply List.filterMap_congr
  intro item _
  cases hkeeps : keep item with
  | true => rfl
  | false => exact (h item hkeeps).symm

theorem Spells.operand_not_mem (h : Spells items words) (text : String) :
    .operand text ∉ items := by
  cases h <;> simp

/-- Options can be spelled, whatever they are. -/
theorem SpellsFront.exists_of_forall_not_mem (h : ∀ text, .operand text ∉ items) :
    ∃ words, SpellsFront items words := by
  induction items with
  | nil => exact ⟨[], .nil⟩
  | cons item rest ih =>
    obtain ⟨words, hrest⟩ := ih fun text hmem => h text (List.mem_cons_of_mem _ hmem)
    have hitem : ∃ words, Spells [item] words := by
      cases item with
      | stem text => exact ⟨_, .stemJoined text⟩
      | denyProblems => exact ⟨_, .denyProblems⟩
      | verbose => exact ⟨_, .verbose⟩
      | output path => exact ⟨_, .outputJoined path⟩
      | operand text => exact absurd (List.mem_cons_self ..) (h text)
    obtain ⟨first, hfirst⟩ := hitem
    exact ⟨_, .option hfirst hrest⟩

theorem SpellsFront.operand_not_mem (h : SpellsFront items words) (text : String) :
    .operand text ∉ items := by
  induction h with
  | nil => exact List.not_mem_nil
  | option h _ ih => simp [h.operand_not_mem text, ih]

theorem SpellsFront.append_behind {more : List Item} {rest : List String}
    (h : SpellsFront items words) (hrest : SpellsBehind more rest) :
    SpellsBehind (items ++ more) (words ++ rest) := by
  induction h with
  | nil => exact hrest
  | option h _ ih =>
    rw [List.append_assoc, List.append_assoc]
    exact .option h ih

theorem SpellsFront.exists_filter (h : SpellsFront items words) (keep : Item → Bool) :
    ∃ words, SpellsFront (items.filter keep) words :=
  exists_of_forall_not_mem fun text hmem => h.operand_not_mem text (List.mem_filter.mp hmem).1

/-- What is left of options and operands can be spelled, too, if all operands are left. -/
theorem SpellsBehind.exists_filter (h : SpellsBehind items words) {keep : Item → Bool}
    (hkeep : ∀ text, keep (.operand text) = true) :
    ∃ words, SpellsBehind (items.filter keep) words := by
  induction h with
  | nil => exact ⟨[], .nil⟩
  | option h _ ih =>
    obtain ⟨rest, hrest⟩ := ih
    obtain ⟨front, hfront⟩ := SpellsFront.exists_of_forall_not_mem fun text hmem =>
      h.operand_not_mem text (List.mem_filter.mp hmem).1
    rw [List.filter_append]
    exact ⟨_, hfront.append_behind hrest⟩
  | @operand text more rest hplain _ ih =>
    obtain ⟨words, hwords⟩ := ih
    rw [List.filter_cons_of_pos (hkeep text)]
    exact ⟨_, .operand hplain hwords⟩
  | escape texts =>
    have hall : (texts.map Item.operand).filter keep = texts.map Item.operand := by
      rw [List.filter_eq_self]
      simp [hkeep]
    rw [hall]
    exact ⟨_, .escape texts⟩

end

/-! ## Requests that are left -/

namespace Request

variable {request : Request} {arguments : List String} {keep : Item → Bool}

theorem exists_spells_keeping (h : request.Spells arguments)
    (hkeep : ∀ text, keep (.operand text) = true) :
    ∃ others, (request.keeping keep).Spells others := by
  obtain ⟨front, rest, -, hfront, hbehind⟩ := h
  obtain ⟨first, hfirst⟩ := hfront.exists_filter keep
  obtain ⟨words, hwords⟩ := hbehind.exists_filter hkeep
  exact ⟨_, first, words, rfl, hfirst, hwords⟩

theorem items_keeping (request : Request) (keep : Item → Bool) :
    (request.keeping keep).items = request.items.filter keep := by
  rw [items, items, List.filter_append]
  rfl

theorem stem_keeping (h : ∀ item, keep item = false → item.stem? = none) (request : Request) :
    (request.keeping keep).stem = request.stem := by
  rw [stem, stem, items_keeping, filterMap_filter_of_forall h]

theorem output?_keeping (h : ∀ item, keep item = false → item.output? = none) (request : Request) :
    (request.keeping keep).output? = request.output? := by
  rw [output?, output?, keeping, filterMap_filter_of_forall h]

theorem input?_keeping (h : ∀ item, keep item = false → item.operand? = none) (request : Request) :
    (request.keeping keep).input? = request.input? := by
  rw [input?, input?, keeping, filterMap_filter_of_forall h]

theorem IsAccepted.keeping (h : request.IsAccepted) (forget : Given → Given)
    (hkeep : ∀ (flags : List Flag) (given : Given) item, keep item = true →
      given.Accepts flags item →
        (forget given).Accepts flags item ∧ (forget given).take item = forget (given.take item))
    (hdrop : ∀ (given : Given) item, keep item = false → forget (given.take item) = forget given)
    (hoperands : ∀ given : Given, (forget given).operands = given.operands)
    (hempty : forget {} = {}) : (request.keeping keep).IsAccepted := by
  obtain ⟨before, behind, hbefore, hbehind, hone⟩ := h
  have hbefore' := Given.takeAll?_filter (hkeep toolFlags) hdrop hbefore
  have hbehind' := Given.takeAll?_filter (hkeep (verbFlags request.verb)) hdrop hbehind
  rw [hempty] at hbefore' hbehind'
  exact ⟨forget before, forget behind, hbefore', hbehind', by rwa [hoperands]⟩

/-! ### Without an output -/

theorem exists_spells_withoutOutput (h : request.Spells arguments) :
    ∃ bare, request.withoutOutput.Spells bare := exists_spells_keeping h fun _ => rfl

/-- Without its output a request is for the same artifact of the same input. -/
theorem asked_withoutOutput (haccepted : request.IsAccepted) {artifact : Artifact}
    (hverb : request.verb = .generate artifact) {bare : List String}
    (hbare : request.withoutOutput.Spells bare) :
    Asked bare (.generate artifact request.input? none) request.settings := by
  have haccepted' : request.withoutOutput.IsAccepted := by
    refine haccepted.keeping (fun given => { given with output := none }) ?_ ?_ (fun _ => rfl) rfl
    · intro flags given item hkeep haccepts
      cases item <;> first | exact ⟨haccepts, rfl⟩ | contradiction
    · intro given item hdrop
      cases item <;> first | rfl | contradiction
  have houtput : request.withoutOutput.output? = none := by
    have hnone : (request.behind.filter (·.output?.isNone)).filterMap Item.output? = [] := by
      rw [List.filterMap_eq_nil_iff]
      intro item hitem
      simpa using (List.mem_filter.mp hitem).2
    rw [output?, withoutOutput, keeping, hnone]
    rfl
  have hinput : request.withoutOutput.input? = request.input? :=
    input?_keeping (fun item hdrop => by cases item <;> first | rfl | contradiction) request
  have hstem : request.withoutOutput.stem = request.stem :=
    stem_keeping (fun item hdrop => by cases item <;> first | rfl | contradiction) request
  have hdenies : request.withoutOutput.denies = request.denies := by
    simp [denies, withoutOutput, items_keeping, Item.output?]
  have hasked := asked hbare haccepted' hverb
  rwa [houtput, hinput, settings, hstem, hdenies] at hasked

/-! ### With problems allowed -/

theorem exists_spells_withoutDenial (h : request.Spells arguments) :
    ∃ allowed, request.withoutDenial.Spells allowed := exists_spells_keeping h fun _ => rfl

/-- If problems are allowed, a request is for the same in every other respect. -/
theorem asked_withoutDenial (haccepted : request.IsAccepted) {artifact : Artifact}
    (hverb : request.verb = .generate artifact) {allowed : List String}
    (hallowed : request.withoutDenial.Spells allowed) :
    Asked allowed (.generate artifact request.input? request.output?)
      { request.settings with denyProblems := false } := by
  have haccepted' : request.withoutDenial.IsAccepted := by
    refine haccepted.keeping (fun given => { given with denyProblems := false }) ?_ ?_
      (fun _ => rfl) rfl
    · intro flags given item hkeep haccepts
      cases item <;> first | exact ⟨haccepts, rfl⟩ | contradiction
    · intro given item hdrop
      cases item <;> first | rfl | contradiction
  have houtput : request.withoutDenial.output? = request.output? :=
    output?_keeping (fun item hdrop => by cases item <;> first | rfl | contradiction) request
  have hinput : request.withoutDenial.input? = request.input? :=
    input?_keeping (fun item hdrop => by cases item <;> first | rfl | contradiction) request
  have hstem : request.withoutDenial.stem = request.stem :=
    stem_keeping (fun item hdrop => by cases item <;> first | rfl | contradiction) request
  have hdenies : request.withoutDenial.denies = false := by
    simp [denies, withoutDenial, items_keeping]
  have hasked := asked hallowed haccepted' hverb
  rwa [houtput, hinput, settings, hstem, hdenies] at hasked

end Request

end BitFont.Command

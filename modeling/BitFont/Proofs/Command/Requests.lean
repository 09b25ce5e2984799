import BitFont.Proofs.Command.Options
import Mathlib.Data.List.Induction

/-!
# What command lines ask for

A command line names one command. In front of the name there are options, and behind it options and
operands, in any order and in any spelling (`Request.Spells`). A command line that can be read is a
spelling of a request (`Request.exists_of_ofArguments`), and what is read depends on the request
alone (`Request.ofArguments_eq_ok_iff`).
-/

namespace BitFont.Command

/-! ## Lists of arguments -/

/-- Options in front of the name of a command. -/
inductive SpellsFront : List Item → List String → Prop
  | nil : SpellsFront [] []
  | option {items more : List Item} {words rest : List String} (h : Spells items words)
      (hrest : SpellsFront more rest) : SpellsFront (items ++ more) (words ++ rest)

/-- Options and operands behind the name of a command. All that stands behind `--` is operands. -/
inductive SpellsBehind : List Item → List String → Prop
  | nil : SpellsBehind [] []
  | option {items more : List Item} {words rest : List String} (h : Spells items words)
      (hrest : SpellsBehind more rest) : SpellsBehind (items ++ more) (words ++ rest)
  | operand {text : String} {more : List Item} {rest : List String} (h : IsPlain text)
      (hrest : SpellsBehind more rest) : SpellsBehind (.operand text :: more) (text :: rest)
  | escape (texts : List String) : SpellsBehind (texts.map .operand) ("--" :: texts)

section

variable {flags : List Flag} {given next : Given} {items : List Item} {words : List String}

namespace SpellsFront

theorem readFront_eq_ok_iff (h : SpellsFront items words) (hnone : given.awaiting = none)
    {name : String} (hname : IsPlain name) {more rest : List String} :
    Given.readFront flags given (words ++ name :: more) = .ok (next, rest) ↔
      given.takeAll? flags items = some next ∧ name :: more = rest := by
  induction h generalizing given with
  | nil =>
    have hform := Argument.ofText_eq_plain_iff.mpr ⟨hname, rfl⟩
    simp [Given.readFront, hnone, hform, Given.takeAll?]
  | option h _ ih =>
    rw [List.append_assoc, (readsOptions_readFront flags).spelled_iff h hnone,
      Given.takeAll?_append]
    simp only [Option.bind_eq_some_iff]
    constructor
    · rintro ⟨between, hbetween, hread⟩
      have hnone' := (Given.awaiting_of_takeAll? hbetween).trans hnone
      obtain ⟨hnext, hrest⟩ := (ih hnone').mp hread
      exact ⟨⟨between, hbetween, hnext⟩, hrest⟩
    · rintro ⟨⟨between, hbetween, hnext⟩, hrest⟩
      have hnone' := (Given.awaiting_of_takeAll? hbetween).trans hnone
      exact ⟨between, hbetween, (ih hnone').mpr ⟨hnext, hrest⟩⟩

/-- Whatever is read in front of a name is options. -/
theorem exists_of_readFront {arguments : List String} (hnone : given.awaiting = none)
    {name : String} {more : List String}
    (h : Given.readFront flags given arguments = .ok (next, name :: more)) :
    IsPlain name ∧ ∃ items words, arguments = words ++ name :: more ∧ SpellsFront items words := by
  -- An option may be two arguments, so the induction is on how many are left.
  induction hlength : arguments.length using Nat.strongRecOn generalizing arguments given with
  | ind length ih =>
    subst hlength
    cases arguments with
    | nil => simp [Given.readFront, hnone] at h
    | cons text rest =>
      by_cases hplain : IsPlain text
      · have hform := Argument.ofText_eq_plain_iff.mpr ⟨hplain, rfl⟩
        simp only [Given.readFront, hnone, hform, Except.ok.injEq, Prod.mk.injEq,
          List.cons.injEq] at h
        obtain ⟨-, rfl, rfl⟩ := h
        exact ⟨hplain, [], [], rfl, .nil⟩
      · by_cases hescape : text = "--"
        · subst hescape
          have hform : Argument.ofText "--" = .escape := rfl
          cases rest <;> simp [Given.readFront, hnone, hform] at h
        · obtain ⟨items, words, others, between, hwords, hspells, hshorter, hnone', h⟩ :=
            (readsOptions_readFront flags).exists_spells hnone hplain hescape h
          obtain ⟨hname, items', words', rfl, hfront⟩ := ih _ hshorter hnone' h rfl
          rw [hwords, ← List.append_assoc]
          exact ⟨hname, _, _, rfl, .option hspells hfront⟩

end SpellsFront

theorem Given.addOperands_eq_ok_iff (flags : List Flag) {texts : List String} :
    given.addOperands texts = .ok next ↔
      given.takeAll? flags (texts.map .operand) = some next := by
  induction texts generalizing given with
  | nil => simp [addOperands, takeAll?]
  | cons text rest ih =>
    rw [addOperands, List.map_cons, takeAll?_cons]
    by_cases hempty : text = ""
    · have htake : given.take? flags (.operand text) = none := if_neg (not_not.mpr hempty)
      rw [if_pos hempty, htake, Option.bind_none]
      simp
    · have htake : given.take? flags (.operand text) = some (given.take (.operand text)) :=
        if_pos hempty
      rw [if_neg hempty, htake, Option.bind_some]
      exact ih

/-- Behind the name a plain argument is an operand. -/
theorem Given.readAll_cons_eq_ok_iff (hnone : given.awaiting = none) {text : String}
    (hplain : IsPlain text) {rest : List String} :
    given.readAll flags (text :: rest) = .ok next ↔
      ∃ between, given.take? flags (.operand text) = some between ∧
        between.readAll flags rest = .ok next := by
  have hform := Argument.ofText_eq_plain_iff.mpr ⟨hplain, rfl⟩
  simp only [readAll, hnone, hform, bind_eq_ok_iff, addOperands_eq_ok_iff flags,
    List.map_cons, List.map_nil, takeAll?_singleton]

namespace SpellsBehind

theorem readAll_eq_ok_iff (h : SpellsBehind items words) (hnone : given.awaiting = none) :
    Given.readAll flags given words = .ok next ↔ given.takeAll? flags items = some next := by
  induction h generalizing given with
  | nil => simp [Given.readAll, hnone, Given.takeAll?]
  | option h _ ih =>
    rw [(readsOptions_readAll flags).spelled_iff h hnone, Given.takeAll?_append]
    simp only [Option.bind_eq_some_iff]
    apply exists_congr
    intro between
    apply and_congr_right
    intro hbetween
    exact ih ((Given.awaiting_of_takeAll? hbetween).trans hnone)
  | @operand text more rest hplain _ ih =>
    rw [Given.readAll_cons_eq_ok_iff hnone hplain, Given.takeAll?_cons, Option.bind_eq_some_iff]
    apply exists_congr
    intro between
    apply and_congr_right
    intro hbetween
    exact ih ((Given.awaiting_of_take? hbetween).trans hnone)
  | escape texts =>
    have hform : Argument.ofText "--" = .escape := rfl
    simp only [Given.readAll, hnone, hform, Given.addOperands_eq_ok_iff flags]

/-- Whatever is read behind a name is options and operands. -/
theorem exists_of_readAll {arguments : List String} (hnone : given.awaiting = none)
    (h : Given.readAll flags given arguments = .ok next) :
    ∃ items, SpellsBehind items arguments := by
  induction hlength : arguments.length using Nat.strongRecOn generalizing arguments given with
  | ind length ih =>
    subst hlength
    cases arguments with
    | nil => exact ⟨[], .nil⟩
    | cons text rest =>
      by_cases hplain : IsPlain text
      · obtain ⟨between, hbetween, h⟩ := (Given.readAll_cons_eq_ok_iff hnone hplain).mp h
        have hnone' := (Given.awaiting_of_take? hbetween).trans hnone
        obtain ⟨items, hrest⟩ := ih rest.length (Nat.lt_succ_self _) hnone' h rfl
        exact ⟨_, .operand hplain hrest⟩
      · by_cases hescape : text = "--"
        · subst hescape
          exact ⟨_, .escape rest⟩
        · obtain ⟨items, words, others, between, hwords, hspells, hshorter, hnone', h⟩ :=
            (readsOptions_readAll flags).exists_spells hnone hplain hescape h
          obtain ⟨items', hbehind⟩ := ih _ hshorter hnone' h rfl
          rw [hwords]
          exact ⟨_, .option hspells hbehind⟩

end SpellsBehind

end

/-! ## Requests -/

namespace Item

def stem? : Item → Option String
  | stem text => some text
  | _ => none

def output? : Item → Option Path
  | output path => some ⟨path⟩
  | _ => none

def operand? : Item → Option String
  | operand text => some text
  | _ => none

end Item

/-- A command with all that is said in front of its name and behind it. -/
structure Request where
  verb : Verb
  before : List Item
  behind : List Item
  deriving DecidableEq, Repr

/-- Arguments that ask for a command with some settings. -/
def Asked (arguments : List String) (command : Command) (settings : Settings) : Prop :=
  ∃ verbosity, Invocation.ofArguments arguments = .ok { command, settings, verbosity }

namespace Request

/-- The arguments are a spelling of the request. -/
def Spells (request : Request) (arguments : List String) : Prop :=
  ∃ front rest, arguments = front ++ request.verb.name :: rest ∧
    SpellsFront request.before front ∧ SpellsBehind request.behind rest

def items (request : Request) : List Item := request.before ++ request.behind

/-- The stem that is given last. -/
def stem (request : Request) : String :=
  (request.items.filterMap Item.stem?).getLast?.getD "RUNE"

def denies (request : Request) : Bool := .denyProblems ∈ request.items

def settings (request : Request) : Settings :=
  { naming := ⟨request.stem⟩, denyProblems := request.denies }

def output? (request : Request) : Option Path :=
  (request.behind.filterMap Item.output?).getLast?

def input? (request : Request) : Option Path :=
  (request.behind.filterMap Item.operand?).head?.map Path.mk

/-- The same request with some of its items only. -/
def keeping (keep : Item → Bool) (request : Request) : Request :=
  { request with before := request.before.filter keep, behind := request.behind.filter keep }

def withoutOutput : Request → Request := keeping (·.output?.isNone)

def withoutDenial : Request → Request := keeping (· != .denyProblems)

end Request

/-! ## What a request is read as -/

section

variable {flags : List Flag} {given : Given} {items : List Item}

/-- What is given by items. -/
structure Given.IsOf (items : List Item) (given : Given) : Prop where
  stem : given.stem = (items.filterMap Item.stem?).getLast?
  denyProblems : given.denyProblems = decide (.denyProblems ∈ items)
  output : given.output = (items.filterMap Item.output?).getLast?
  operands : given.operands.toList = items.filterMap Item.operand?

theorem Given.IsOf.concat (h : given.IsOf items) (item : Item) :
    (given.take item).IsOf (items ++ [item]) := by
  cases item <;>
    exact ⟨by simp [take, h.stem, Item.stem?], by simp [take, h.denyProblems],
      by simp [take, h.output, Item.output?], by simp [take, h.operands, Item.operand?]⟩

theorem Given.isOf_of_takeAll? (h : takeAll? flags {} items = some given) : given.IsOf items := by
  induction items using List.reverseRecOn generalizing given with
  | nil =>
    obtain rfl := Option.some.inj h
    exact ⟨rfl, rfl, rfl, rfl⟩
  | append_singleton items item ih =>
    rw [takeAll?_append, Option.bind_eq_some_iff] at h
    obtain ⟨between, hbetween, hitem⟩ := h
    rw [takeAll?_singleton, take?_eq_some_iff] at hitem
    obtain ⟨-, rfl⟩ := hitem
    exact (ih hbetween).concat item

end

theorem Verb.ofName?_name (verb : Verb) : ofName? verb.name = some verb := by
  rcases verb with (_ | _) | _ | _ <;> rfl

theorem Verb.isPlain_name (verb : Verb) : IsPlain verb.name := by
  rcases verb with (_ | _) | _ | _ <;> decide

namespace Request

variable {request : Request} {arguments : List String}

/-- What is read from a spelling of a request depends on the request alone. -/
theorem ofArguments_eq_ok_iff (h : request.Spells arguments) {invocation : Invocation} :
    Invocation.ofArguments arguments = .ok invocation ↔
      ∃ before behind command,
        Given.takeAll? toolFlags {} request.before = some before ∧
        Given.takeAll? (verbFlags request.verb) {} request.behind = some behind ∧
        ofGiven request.verb behind = .ok command ∧
        { command, settings := before.settings behind, verbosity := before.loudness behind } =
          invocation := by
  obtain ⟨front, rest, rfl, hfront, hbehind⟩ := h
  have hname := request.verb.isPlain_name
  have hreadFront (before : Given) (others : List String) :
      Given.readFront toolFlags {} (front ++ request.verb.name :: rest) =
        .ok (before, others) ↔ _ :=
    hfront.readFront_eq_ok_iff rfl hname
  have hreadAll (behind : Given) :
      Given.readAll (verbFlags request.verb) {} rest = .ok behind ↔ _ :=
    hbehind.readAll_eq_ok_iff rfl
  simp only [Invocation.ofArguments, bind_eq_ok_iff, Prod.exists, hreadFront]
  constructor
  · rintro ⟨before, _, ⟨hbefore, rfl⟩, h⟩
    simp only [Verb.ofName?_name, bind_eq_ok_iff, hreadAll] at h
    obtain ⟨behind, hbehind, command, hcommand, h⟩ := h
    exact ⟨before, behind, command, hbefore, hbehind, hcommand, Except.ok.inj h⟩
  · rintro ⟨before, behind, command, hbefore, hbehind, hcommand, rfl⟩
    refine ⟨before, _, ⟨hbefore, rfl⟩, ?_⟩
    simp only [Verb.ofName?_name, bind_eq_ok_iff, hreadAll]
    exact ⟨behind, hbehind, command, hcommand, rfl⟩

/-- A command line that can be read is a spelling of some request. -/
theorem exists_of_ofArguments {invocation : Invocation}
    (h : Invocation.ofArguments arguments = .ok invocation) :
    ∃ request : Request, request.Spells arguments := by
  rw [Invocation.ofArguments, bind_eq_ok_iff] at h
  obtain ⟨⟨before, rest⟩, hbefore, h⟩ := h
  match rest with
  | [] => contradiction
  | name :: rest =>
    dsimp only at h
    cases hverb : Verb.ofName? name with
    | none =>
      rw [hverb] at h
      contradiction
    | some verb =>
      rw [hverb] at h
      dsimp only at h
      rw [bind_eq_ok_iff] at h
      obtain ⟨behind, hbehind, -⟩ := h
      have hname : verb.name = name := by simpa using List.find?_some hverb
      obtain ⟨-, items, words, rfl, hfront⟩ := SpellsFront.exists_of_readFront rfl hbefore
      obtain ⟨others, hrest⟩ := SpellsBehind.exists_of_readAll rfl hbehind
      exact ⟨⟨verb, items, others⟩, words, rest, by rw [hname], hfront, hrest⟩

/-! ### Generating -/

theorem ofGiven_eq_generate_iff {verb : Verb} {given : Given} {artifact : Artifact}
    {input output : Option Path} :
    ofGiven verb given = .ok (.generate artifact input output) ↔
      verb = .generate artifact ∧ given.operands.toList.length ≤ 1 ∧
        given.operands.toList.head?.map Path.mk = input ∧ given.output = output := by
  unfold ofGiven
  split <;> simp_all

/-- The options may stand where they do, and there is one operand at most. -/
def IsAccepted (request : Request) : Prop :=
  ∃ before behind,
    Given.takeAll? toolFlags {} request.before = some before ∧
    Given.takeAll? (verbFlags request.verb) {} request.behind = some behind ∧
    behind.operands.toList.length ≤ 1

theorem settings_eq {before behind : Given} (hbefore : before.IsOf request.before)
    (hbehind : behind.IsOf request.behind) : before.settings behind = request.settings := by
  have hstem : behind.stem.or before.stem =
      (request.items.filterMap Item.stem?).getLast? := by
    rw [hbefore.stem, hbehind.stem, items, List.filterMap_append, List.getLast?_append]
  have hdenies : (before.denyProblems || behind.denyProblems) = request.denies := by
    rw [hbefore.denyProblems, hbehind.denyProblems, denies, items, ← Bool.decide_or]
    simp only [List.mem_append]
  rw [Given.settings, hstem, hdenies, settings, stem]
  cases (request.items.filterMap Item.stem?).getLast? <;> rfl

theorem isAccepted_of_ofArguments (h : request.Spells arguments) {artifact : Artifact}
    {input output : Option Path} {settings : Settings} {verbosity : Nat}
    (hread : Invocation.ofArguments arguments =
      .ok { command := .generate artifact input output, settings, verbosity }) :
    request.verb = .generate artifact ∧ request.IsAccepted := by
  obtain ⟨before, behind, command, hbefore, hbehind, hcommand, heq⟩ :=
    (ofArguments_eq_ok_iff h).mp hread
  obtain rfl : command = .generate artifact input output := congrArg Invocation.command heq
  obtain ⟨hverb, hoperands, -⟩ := ofGiven_eq_generate_iff.mp hcommand
  exact ⟨hverb, before, behind, hbefore, hbehind, hoperands⟩

theorem asked (h : request.Spells arguments) (haccepted : request.IsAccepted) {artifact : Artifact}
    (hverb : request.verb = .generate artifact) :
    Asked arguments (.generate artifact request.input? request.output?) request.settings := by
  obtain ⟨before, behind, hbefore, hbehind, hoperands⟩ := haccepted
  have hofBehind := Given.isOf_of_takeAll? hbehind
  have hcommand : ofGiven request.verb behind =
      .ok (.generate artifact request.input? request.output?) := by
    rw [ofGiven_eq_generate_iff, input?, output?, ← hofBehind.operands, ← hofBehind.output]
    exact ⟨hverb, hoperands, rfl, rfl⟩
  refine ⟨before.loudness behind, (ofArguments_eq_ok_iff h).mpr ?_⟩
  refine ⟨before, behind, _, hbefore, hbehind, hcommand, ?_⟩
  rw [settings_eq (Given.isOf_of_takeAll? hbefore) hofBehind]

end Request

end BitFont.Command

import BitFont.Proofs.Command.Spelling

/-!
# Reading options

Both readers of arguments do the same with options (`ReadsOptions`): they take the items that words
spell, one after the other (`ReadsOptions.spelled_iff`), and whatever option they get through spells
items (`ReadsOptions.exists_spells`).
-/

namespace BitFont.Command

open Text

/-! ## One flag -/

theorem bind_eq_ok_iff {α β : Type} {result : Except Stop α} {f : α → Except Stop β} {value : β} :
    (result >>= f) = .ok value ↔ ∃ first, result = .ok first ∧ f first = .ok value := by
  cases result with
  | error stop => simp [bind, Except.bind]
  | ok first => simp [bind, Except.bind]

theorem Flag.name_injective {flag other : Flag} (h : flag.name = other.name) : flag = other := by
  cases flag <;> cases other <;> first | rfl | exact absurd h (by decide)

theorem Flag.letter_injective {flag other : Flag} {letter : Char} (h : flag.letter? = some letter)
    (hother : other.letter? = some letter) : flag = other := by
  have hsame : flag.letter? = other.letter? := h.trans hother.symm
  cases flag <;> cases other <;> first | rfl | contradiction

/-- The item of a flag that stands alone. -/
def Item.ofFlag? : Flag → Option Item
  | .denyProblems => some .denyProblems
  | .verbose => some .verbose
  | _ => none

/-- The item of a flag with its value. -/
def Item.ofValue? : Flag → String → Option Item
  | .stem, text => some (.stem text)
  | .output, path => some (.output path)
  | _, _ => none

namespace Given

variable {flags : List Flag} {given next : Given}

/-- A long option has the name of one of the flags. -/
theorem exists_flag_of_readLong {name : String} {value : Option String}
    (h : given.readLong flags name value = .ok next) : ∃ flag : Flag, flag.name = name := by
  unfold readLong at h
  cases hfind : flags.find? (·.name == name) with
  | none => simp [hfind] at h
  | some flag => exact ⟨flag, by simpa using List.find?_some hfind⟩

theorem readLong_eq_ok_iff (flag : Flag) (value : Option String) :
    given.readLong flags flag.name value = .ok next ↔
      flag ∈ flags ∧ value.elim (given.mark flag) (given.assign flag) = .ok next := by
  unfold readLong
  cases hfind : flags.find? (·.name == flag.name) with
  | none =>
    have habsent : flag ∉ flags := fun hmem => by
      simpa using List.find?_eq_none.mp hfind flag hmem
    simp [habsent]
  | some other =>
    obtain rfl : other = flag := Flag.name_injective (by simpa using List.find?_some hfind)
    have hmem := List.mem_of_find?_eq_some hfind
    cases value <;> simp [hmem]

/-- The letter of a flag, and what stands behind it in the same argument. -/
theorem readCluster_cons_eq_ok_iff {flag : Flag} {letter : Char} (h : flag.letter? = some letter)
    (rest : List Char) :
    given.readCluster flags (letter :: rest) = .ok next ↔
      flag ∈ flags ∧
        (if flag.takesValue && !rest.isEmpty then given.assign flag (attached rest)
          else given.mark flag >>= fun given => given.readCluster flags rest) = .ok next := by
  rw [readCluster]
  cases hfind : flags.find? (·.letter? == some letter) with
  | none =>
    have habsent : flag ∉ flags := fun hmem => by
      simpa [h] using List.find?_eq_none.mp hfind flag hmem
    simp [habsent]
  | some other =>
    obtain rfl : other = flag :=
      Flag.letter_injective (by simpa using List.find?_some hfind) h
    have hmem := List.mem_of_find?_eq_some hfind
    simp [hmem]

theorem mark_eq_ok_iff {flag : Flag} :
    flag ∈ flags ∧ given.mark flag = .ok next ↔
      (∃ item, Item.ofFlag? flag = some item ∧ given.take? flags item = some next) ∨
        flag.takesValue = true ∧ flag ∈ flags ∧ { given with awaiting := some flag } = next := by
  cases flag with
  | denyProblems =>
    cases hdeny : given.denyProblems <;>
      simp [mark, take?_eq_some_iff, Accepts, take, Item.ofFlag?, Flag.takesValue, hdeny]
  | _ => simp [mark, take?_eq_some_iff, Accepts, take, Item.ofFlag?, Flag.takesValue]

theorem assign_eq_ok_iff (hnone : given.awaiting = none) (waiting : Option Flag) {flag : Flag}
    {value : String} :
    flag ∈ flags ∧ { given with awaiting := waiting }.assign flag value = .ok next ↔
      ∃ item, Item.ofValue? flag value = some item ∧ given.take? flags item = some next := by
  obtain ⟨stem, deny, verbosity, output, awaiting, operands⟩ := given
  obtain rfl : awaiting = none := hnone
  cases flag with
  | stem => cases stem <;> simp [assign, take?_eq_some_iff, Accepts, take, Item.ofValue?]
  | output =>
    by_cases hempty : value = "" <;> cases output <;>
      simp [assign, take?_eq_some_iff, Accepts, take, Item.ofValue?, hempty]
  | _ => simp [assign, Item.ofValue?]

/-! ## Clusters -/

/-- Letters for more notices are items of their own. -/
theorem readCluster_replicate_append (loud : Nat) (letters : List Char) :
    given.readCluster flags (List.replicate loud 'v' ++ letters) = .ok next ↔
      ∃ louder, given.takeAll? flags (List.replicate loud .verbose) = some louder ∧
        louder.readCluster flags letters = .ok next := by
  induction loud generalizing given with
  | zero => simp [takeAll?]
  | succ loud ih =>
    have hletter : Flag.verbose.letter? = some 'v' := rfl
    rw [List.replicate_succ, List.cons_append, readCluster_cons_eq_ok_iff hletter,
      List.replicate_succ, takeAll?_cons]
    by_cases hmem : .verbose ∈ flags
    · have htake : given.take? flags .verbose = some (given.take .verbose) := if_pos hmem
      rw [htake, Option.bind_some, ← ih]
      simp [hmem, Flag.takesValue, mark, take, bind, Except.bind]
    · have htake : given.take? flags .verbose = none := if_neg hmem
      simp [hmem, htake]

theorem readCluster_output_iff :
    given.readCluster flags ['o'] = .ok next ↔
      .output ∈ flags ∧ { given with awaiting := some .output } = next := by
  have hletter : Flag.output.letter? = some 'o' := rfl
  rw [readCluster_cons_eq_ok_iff hletter]
  simp [Flag.takesValue, mark, readCluster, bind, Except.bind]

theorem readCluster_output_cons_iff (hnone : given.awaiting = none) {value : List Char}
    (h : value ≠ []) :
    given.readCluster flags ('o' :: value) = .ok next ↔
      given.take? flags (.output (attached value)) = some next := by
  have hletter : Flag.output.letter? = some 'o' := rfl
  have hassign : .output ∈ flags ∧ given.assign .output (attached value) = .ok next ↔ _ :=
    assign_eq_ok_iff hnone given.awaiting
  have hattached : (Flag.output.takesValue && !value.isEmpty) = true := by
    simpa [Flag.takesValue] using h
  rw [readCluster_cons_eq_ok_iff hletter, if_pos hattached, hassign]
  simp [Item.ofValue?]

theorem exists_replicate_append (letters : List Char) :
    ∃ loud rest, letters = List.replicate loud 'v' ++ rest ∧ rest.head? ≠ some 'v' := by
  induction letters with
  | nil => exact ⟨0, [], rfl, by simp⟩
  | cons letter rest ih =>
    by_cases h : letter = 'v'
    · obtain ⟨loud, others, rfl, hhead⟩ := ih
      exact ⟨loud + 1, others, by rw [h, List.replicate_succ]; rfl, hhead⟩
    · exact ⟨0, letter :: rest, rfl, by simpa using h⟩

/-- Behind letters for more notices nothing but an output is read. -/
theorem eq_output_of_readCluster {letter : Char} {rest : List Char} (hne : letter ≠ 'v')
    (h : given.readCluster flags (letter :: rest) = .ok next) : letter = 'o' := by
  have hflag : ∃ flag : Flag, flag.letter? = some letter := by
    rw [readCluster] at h
    cases hfind : flags.find? (·.letter? == some letter) with
    | none => simp [hfind] at h
    | some flag => exact ⟨flag, by simpa using List.find?_some hfind⟩
  obtain ⟨flag, hletter⟩ := hflag
  rw [readCluster_cons_eq_ok_iff hletter] at h
  cases flag with
  | stem => contradiction
  | denyProblems => contradiction
  | verbose => exact absurd (Option.some.inj hletter).symm hne
  | output => exact (Option.some.inj hletter).symm
  | help => simp [Flag.takesValue, mark, bind, Except.bind] at h
  | version => simp [Flag.takesValue, mark, bind, Except.bind] at h

end Given

/-! ## Readers -/

theorem Spells.ne_nil {items : List Item} {words : List String} (h : Spells items words) :
    words ≠ [] := by
  cases h <;> simp

/-- What both readers do with options. A flag that waits for its value gets it from the argument
behind it, which must be plain. -/
structure ReadsOptions {α : Type} (flags : List Flag)
    (read : Given → List String → Except Stop α) : Prop where
  waits : ∀ {given : Given} {flag : Flag} {arguments : List String} {result : α},
    given.awaiting = some flag → read given arguments = .ok result →
      ∃ text rest, arguments = text :: rest ∧ IsPlain text
  value : ∀ {given : Given} {flag : Flag} {text : String} {rest : List String} {result : α},
    given.awaiting = some flag → IsPlain text →
      (read given (text :: rest) = .ok result ↔
        ∃ next, given.assign flag text = .ok next ∧ read next rest = .ok result)
  long : ∀ {given : Given} {text name : String} {value : Option String} {rest : List String}
    {result : α}, given.awaiting = none → Argument.ofText text = .long name value →
      (read given (text :: rest) = .ok result ↔
        ∃ next, given.readLong flags name value = .ok next ∧ read next rest = .ok result)
  cluster : ∀ {given : Given} {text : String} {letters : List Char} {rest : List String}
    {result : α}, given.awaiting = none → Argument.ofText text = .cluster letters →
      (read given (text :: rest) = .ok result ↔
        ∃ next, given.readCluster flags letters = .ok next ∧ read next rest = .ok result)

theorem Argument.ofText_eq_plain_iff {text operand : String} :
    ofText text = .plain operand ↔ IsPlain text ∧ text = operand := by
  constructor
  · intro h
    have hform := hasForm_ofText text
    rw [h] at hform
    cases hform with
    | plain hplain => exact ⟨hplain, rfl⟩
  · rintro ⟨h, rfl⟩
    exact ofText_of_hasForm (.plain h)

theorem readsOptions_readFront (flags : List Flag) :
    ReadsOptions flags (Given.readFront flags) where
  waits := by
    intro given flag arguments result h hread
    cases arguments with
    | nil => simp [Given.readFront, h] at hread
    | cons text rest =>
      cases hform : Argument.ofText text with
      | plain value => exact ⟨text, rest, rfl, (Argument.ofText_eq_plain_iff.mp hform).1⟩
      | _ => simp [Given.readFront, h, hform] at hread
  value := by
    intro given flag text rest result h hplain
    have hform := Argument.ofText_eq_plain_iff.mpr ⟨hplain, rfl⟩
    simp only [Given.readFront, h, hform, bind_eq_ok_iff]
  long := by
    intro given text name value rest result h hform
    simp only [Given.readFront, h, hform, bind_eq_ok_iff]
  cluster := by
    intro given text letters rest result h hform
    simp only [Given.readFront, h, hform, bind_eq_ok_iff]

theorem readsOptions_readAll (flags : List Flag) : ReadsOptions flags (Given.readAll flags) where
  waits := by
    intro given flag arguments result h hread
    cases arguments with
    | nil => simp [Given.readAll, h] at hread
    | cons text rest =>
      cases hform : Argument.ofText text with
      | plain value => exact ⟨text, rest, rfl, (Argument.ofText_eq_plain_iff.mp hform).1⟩
      | _ => simp [Given.readAll, h, hform] at hread
  value := by
    intro given flag text rest result h hplain
    have hform := Argument.ofText_eq_plain_iff.mpr ⟨hplain, rfl⟩
    simp only [Given.readAll, h, hform, bind_eq_ok_iff]
  long := by
    intro given text name value rest result h hform
    simp only [Given.readAll, h, hform, bind_eq_ok_iff]
  cluster := by
    intro given text letters rest result h hform
    simp only [Given.readAll, h, hform, bind_eq_ok_iff]

/-! ## Options that are read -/

theorem Argument.ofText_joined (flag : Flag) (value : String) :
    ofText ("--" ++ flag.name ++ "=" ++ value) = .long flag.name (some value) := by
  have hname : Lacks '=' flag.name := by cases flag <;> decide
  rw [String.append_assoc]
  exact ofText_of_hasForm (.long hname (.inr (Option.some_ne_none value)))

theorem ofText_cluster {loud : Nat} {rest : String} (hne : loud ≠ 0 ∨ rest ≠ "")
    (h : rest.toList.head? ≠ some '-') :
    Argument.ofText (cluster loud rest) = .cluster (List.replicate loud 'v' ++ rest.toList) := by
  apply Argument.ofText_of_hasForm
  refine .cluster ?_ ?_
  · rcases hne with hne | hne <;> simp [hne]
  · cases loud with
    | zero => simpa using h
    | succ loud => simp [List.replicate_succ]

namespace ReadsOptions

open Given

variable {α : Type} {flags : List Flag} {read : Given → List String → Except Stop α}
  {given : Given} {others : List String} {result : α}

theorem lone_iff (hread : ReadsOptions flags read) (hnone : given.awaiting = none) (flag : Flag)
    {item : Item} {text : String} (hform : Argument.ofText text = .long flag.name none)
    (hitem : Item.ofFlag? flag = some item) :
    read given (text :: others) = .ok result ↔
      ∃ next, given.takeAll? flags [item] = some next ∧ read next others = .ok result := by
  have hvalue : flag.takesValue = false := by
    cases flag <;> first | rfl | contradiction
  simp only [hread.long hnone hform, readLong_eq_ok_iff, Option.elim, mark_eq_ok_iff, hitem, hvalue,
    Option.some.injEq, exists_eq_left', Bool.false_eq_true, false_and, or_false,
    takeAll?_singleton]

/-- The flag stands in an argument, and its value in the next one. -/
theorem value_iff (hread : ReadsOptions flags read) (hnone : given.awaiting = none) (flag : Flag)
    {item : Item} {value : String} (hitem : Item.ofValue? flag value = some item)
    (hplain : IsPlain value) :
    flag ∈ flags ∧ read { given with awaiting := some flag } (value :: others) = .ok result ↔
      ∃ next, given.takeAll? flags [item] = some next ∧ read next others = .ok result := by
  have hassign (next : Given) :
      flag ∈ flags ∧ { given with awaiting := some flag }.assign flag value = .ok next ↔ _ :=
    assign_eq_ok_iff hnone (some flag)
  have hwaits : ({ given with awaiting := some flag } : Given).awaiting = some flag := rfl
  simp only [hread.value hwaits hplain, ← exists_and_left, ← and_assoc, hassign, hitem,
    Option.some.injEq, exists_eq_left', takeAll?_singleton]

theorem separate_iff (hread : ReadsOptions flags read) (hnone : given.awaiting = none) (flag : Flag)
    {item : Item} {text value : String} (hform : Argument.ofText text = .long flag.name none)
    (hitem : Item.ofValue? flag value = some item) (hplain : IsPlain value) :
    read given (text :: value :: others) = .ok result ↔
      ∃ next, given.takeAll? flags [item] = some next ∧ read next others = .ok result := by
  have hlone : Item.ofFlag? flag = none := by
    cases flag <;> first | rfl | contradiction
  have hvalue : flag.takesValue = true := by
    cases flag <;> first | rfl | contradiction
  rw [← hread.value_iff hnone flag hitem hplain, hread.long hnone hform]
  simp [readLong_eq_ok_iff, mark_eq_ok_iff, hlone, hvalue, and_assoc]

theorem joined_iff (hread : ReadsOptions flags read) (hnone : given.awaiting = none) (flag : Flag)
    {item : Item} {value : String} (hitem : Item.ofValue? flag value = some item) :
    read given (("--" ++ flag.name ++ "=" ++ value) :: others) = .ok result ↔
      ∃ next, given.takeAll? flags [item] = some next ∧ read next others = .ok result := by
  have hform := Argument.ofText_joined flag value
  have hassign (next : Given) : flag ∈ flags ∧ given.assign flag value = .ok next ↔ _ :=
    assign_eq_ok_iff hnone given.awaiting
  simp only [hread.long hnone hform, readLong_eq_ok_iff, Option.elim, hassign, hitem,
    Option.some.injEq, exists_eq_left', takeAll?_singleton]

/-- Behind letters for more notices it is only what the rest of a cluster does that matters. -/
theorem cluster_iff (hread : ReadsOptions flags read) (hnone : given.awaiting = none) {loud : Nat}
    {rest : String} {items : List Item} {behind : List String} (hne : loud ≠ 0 ∨ rest ≠ "")
    (h : rest.toList.head? ≠ some '-')
    (hrest : ∀ {louder : Given}, louder.awaiting = none →
      ((∃ next, louder.readCluster flags rest.toList = .ok next ∧ read next others = .ok result) ↔
        ∃ next, louder.takeAll? flags items = some next ∧ read next behind = .ok result)) :
    read given (Command.cluster loud rest :: others) = .ok result ↔
      ∃ next, given.takeAll? flags (List.replicate loud .verbose ++ items) = some next ∧
        read next behind = .ok result := by
  simp only [hread.cluster hnone (ofText_cluster hne h), readCluster_replicate_append,
    takeAll?_append, Option.bind_eq_some_iff]
  constructor
  · rintro ⟨next, ⟨louder, hlouder, hnext⟩, hresult⟩
    have hnone' : louder.awaiting = none := (awaiting_of_takeAll? hlouder).trans hnone
    obtain ⟨last, hlast, hresult⟩ := (hrest hnone').mp ⟨next, hnext, hresult⟩
    exact ⟨last, ⟨louder, hlouder, hlast⟩, hresult⟩
  · rintro ⟨last, ⟨louder, hlouder, hlast⟩, hresult⟩
    have hnone' : louder.awaiting = none := (awaiting_of_takeAll? hlouder).trans hnone
    obtain ⟨next, hnext, hresult⟩ := (hrest hnone').mpr ⟨last, hlast, hresult⟩
    exact ⟨next, ⟨louder, hlouder, hnext⟩, hresult⟩

/-- A short output takes what stands behind it in its argument. -/
theorem clusterOutput_iff (hread : ReadsOptions flags read) (hnone : given.awaiting = none)
    {loud : Nat} {rest path : String} {value : List Char} (hvalue : value ≠ [])
    (hrest : rest.toList = 'o' :: value) (hpath : attached value = path) :
    read given (Command.cluster loud rest :: others) = .ok result ↔
      ∃ next, given.takeAll? flags (List.replicate loud .verbose ++ [.output path]) = some next ∧
        read next others = .ok result := by
  have hne : rest ≠ "" := by
    rintro rfl
    contradiction
  apply hread.cluster_iff hnone (.inr hne)
  · simp [hrest]
  · intro louder hlouder
    simp only [hrest, readCluster_output_cons_iff hlouder hvalue, hpath, takeAll?_singleton]

/-- Readers take the items that words spell, one after the other, and go on behind the words. -/
theorem spelled_iff (hread : ReadsOptions flags read) {items : List Item} {words : List String}
    (hspells : Spells items words) (hnone : given.awaiting = none) :
    read given (words ++ others) = .ok result ↔
      ∃ next, given.takeAll? flags items = some next ∧ read next others = .ok result := by
  cases hspells with
  | denyProblems => exact hread.lone_iff hnone .denyProblems rfl rfl
  | verbose => exact hread.lone_iff hnone .verbose rfl rfl
  | stem hplain => exact hread.separate_iff hnone .stem rfl rfl hplain
  | stemJoined text => exact hread.joined_iff hnone .stem rfl
  | output hplain => exact hread.separate_iff hnone .output rfl rfl hplain
  | outputJoined path => exact hread.joined_iff hnone .output rfl
  | letters more =>
    rw [← List.append_nil (List.replicate (more + 1) Item.verbose)]
    apply hread.cluster_iff hnone (.inl (Nat.succ_ne_zero more)) (by simp)
    intro louder _
    simp [readCluster, takeAll?]
  | letterOutput loud hplain =>
    apply hread.cluster_iff hnone (.inr (by decide)) (by decide)
    intro louder hlouder
    rw [← hread.value_iff hlouder .output rfl hplain]
    simp [readCluster_output_iff, and_assoc]
  | @letterOutputJoined loud path hne h =>
    have hattached : attached path.toList = path := by
      unfold attached
      split
      · rename_i hequals
        exact absurd (by rw [hequals]; rfl) h
      · exact String.ofList_toList
    exact hread.clusterOutput_iff hnone (by simpa using hne) (by simp) hattached
  | letterOutputEquals loud path =>
    exact hread.clusterOutput_iff hnone (List.cons_ne_nil '=' path.toList) (by simp)
      String.ofList_toList

theorem exists_spells_long (hread : ReadsOptions flags read) (hnone : given.awaiting = none)
    {flag : Flag} {value : Option String} {next : Given}
    (hnext : given.readLong flags flag.name value = .ok next)
    (h : read next others = .ok result) :
    ∃ items words rest,
      ("--" ++ flag.name ++ Argument.joined value) :: others = words ++ rest ∧
        Spells items words := by
  have hread' := (readLong_eq_ok_iff flag value).mp hnext
  cases value with
  | none =>
    rcases mark_eq_ok_iff.mp hread' with ⟨item, hitem, -⟩ | ⟨hvalue, -, rfl⟩
    · cases flag with
      | denyProblems => exact ⟨_, _, others, rfl, .denyProblems⟩
      | verbose => exact ⟨_, _, others, rfl, .verbose⟩
      | _ => contradiction
    · obtain ⟨text, rest, rfl, hplain⟩ := hread.waits rfl h
      cases flag with
      | stem => exact ⟨_, _, rest, rfl, .stem hplain⟩
      | output => exact ⟨_, _, rest, rfl, .output hplain⟩
      | _ => contradiction
  | some text =>
    obtain ⟨item, hitem, -⟩ := (assign_eq_ok_iff hnone given.awaiting).mp hread'
    rw [Argument.joined, ← String.append_assoc]
    cases flag with
    | stem => exact ⟨_, _, others, rfl, .stemJoined text⟩
    | output => exact ⟨_, _, others, rfl, .outputJoined text⟩
    | _ => contradiction

theorem exists_spells_cluster (hread : ReadsOptions flags read) {letters : List Char} {next : Given}
    (hne : letters ≠ []) (hnext : given.readCluster flags letters = .ok next)
    (h : read next others = .ok result) :
    ∃ items words rest, ("-" ++ String.ofList letters) :: others = words ++ rest ∧
      Spells items words := by
  obtain ⟨loud, letters, rfl, hhead⟩ := exists_replicate_append letters
  obtain ⟨louder, -, hnext⟩ := (readCluster_replicate_append loud letters).mp hnext
  have htext (rest : String) (hrest : rest.toList = letters) :
      "-" ++ String.ofList (List.replicate loud 'v' ++ letters) = Command.cluster loud rest := by
    rw [Command.cluster, hrest]
  match letters, loud with
  | [], 0 => contradiction
  | [], more + 1 =>
    rw [htext "" rfl]
    exact ⟨_, _, others, rfl, .letters more⟩
  | letter :: value, loud =>
    have hletter : letter ≠ 'v' := by simpa using hhead
    obtain rfl := eq_output_of_readCluster hletter hnext
    match value with
    | [] =>
      obtain ⟨-, rfl⟩ := readCluster_output_iff.mp hnext
      obtain ⟨path, rest, rfl, hplain⟩ := hread.waits rfl h
      rw [htext "o" rfl]
      exact ⟨_, _, rest, rfl, .letterOutput loud hplain⟩
    | c :: value =>
      by_cases hequals : c = '='
      · rw [htext ("o=" ++ String.ofList value) (by simp [hequals])]
        exact ⟨_, _, others, rfl, .letterOutputEquals loud _⟩
      · have hpath : (String.ofList (c :: value)).toList.head? ≠ some '=' := by simpa using hequals
        rw [htext ("o" ++ String.ofList (c :: value)) (by simp)]
        exact ⟨_, _, others, rfl, .letterOutputJoined loud (by simp) hpath⟩

/-- An argument that is neither plain nor the end of the options spells items, perhaps with the
argument behind it, and then there is less to read. -/
theorem exists_spells (hread : ReadsOptions flags read) (hnone : given.awaiting = none)
    {text : String} (hplain : ¬ IsPlain text) (hescape : text ≠ "--")
    (h : read given (text :: others) = .ok result) :
    ∃ items words rest next, text :: others = words ++ rest ∧ Spells items words ∧
      rest.length < (text :: others).length ∧ next.awaiting = none ∧
      read next rest = .ok result := by
  have hspelled : ∃ items words rest, text :: others = words ++ rest ∧ Spells items words := by
    have hform := Argument.hasForm_ofText text
    generalize hargument : Argument.ofText text = argument at hform
    cases hform with
    | plain htext => exact absurd htext hplain
    | escape => exact absurd rfl hescape
    | long hname hne =>
      obtain ⟨next, hnext, hresult⟩ := (hread.long hnone hargument).mp h
      obtain ⟨flag, rfl⟩ := exists_flag_of_readLong hnext
      exact hread.exists_spells_long hnone hnext hresult
    | cluster hne hhead =>
      obtain ⟨next, hnext, hresult⟩ := (hread.cluster hnone hargument).mp h
      exact hread.exists_spells_cluster hne hnext hresult
  obtain ⟨items, words, rest, hwords, hspells⟩ := hspelled
  have hlength := List.length_pos_iff.mpr hspells.ne_nil
  rw [hwords, hread.spelled_iff hspells hnone] at h
  obtain ⟨next, hnext, hresult⟩ := h
  refine ⟨items, words, rest, next, hwords, hspells, ?_, ?_, hresult⟩
  · rw [hwords, List.length_append]
    omega
  · exact (awaiting_of_takeAll? hnext).trans hnone

end ReadsOptions

end BitFont.Command

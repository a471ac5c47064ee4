import GrammarTidy.Command.Invocation
import GrammarTidy.Proofs.CommandWords
import Mathlib.Data.Multiset.Filter
import Mathlib.Data.Option.Basic
import Mathlib.Data.Set.List

/-! Which command lines are accepted, and what they ask for. The items are taken one
by one, and a mistake ends that at once; yet all that counts in the end are the
multiset of the options and the list of the operands. -/

namespace GrammarTidy.Command

/-! ## Documented command lines -/

/-- The documented command lines. -/
structure Documented (options : Multiset (Option Switch)) (operands : List String) : Prop where
  known : none ∉ options
  once : ∀ switch, switch ≠ .verbose → options.count (some switch) ≤ 1
  mode : some .hollow ∈ options ↔ some .tidy ∉ options
  loudness : ¬ (some .quiet ∈ options ∧ some .verbose ∈ options)
  operands : ∃ input output, operands = [input, output] ∧ input ≠ "" ∧ output ≠ ""

/-- What a documented command line asks for. -/
structure Invocation.IsAskedBy (invocation : Invocation) (options : Multiset (Option Switch))
    (operands : List String) : Prop where
  mode : invocation.mode = if some .hollow ∈ options then .hollow else .tidy
  strict : invocation.settings.strict = decide (some .strict ∈ options)
  topLevelMarker : invocation.settings.topLevelMarker = decide (some .topLevelMarker ∈ options)
  verbosity : invocation.verbosity = min 255 (options.count (some .verbose))
  quiet : invocation.quiet = decide (some .quiet ∈ options)
  level : invocation.level =
    if some .quiet ∈ options then .error else .ofVerbosity (options.count (some .verbose))
  operands : operands = [invocation.input, invocation.output]

theorem Invocation.IsAskedBy.unique {options : Multiset (Option Switch)} {operands : List String}
    {invocation other : Invocation} (asked : invocation.IsAskedBy options operands)
    (askedToo : other.IsAskedBy options operands) : invocation = other := by
  have mode := asked.mode.trans askedToo.mode.symm
  have strict := asked.strict.trans askedToo.strict.symm
  have topLevelMarker := asked.topLevelMarker.trans askedToo.topLevelMarker.symm
  have verbosity := asked.verbosity.trans askedToo.verbosity.symm
  have quiet := asked.quiet.trans askedToo.quiet.symm
  have files := asked.operands.symm.trans askedToo.operands
  rcases invocation with ⟨_, ⟨_, _⟩, _, _, _, _⟩
  rcases other with ⟨_, ⟨_, _⟩, _, _, _, _⟩
  cases mode
  cases strict
  cases topLevelMarker
  cases verbosity
  cases quiet
  cases files
  rfl

theorem Level.ofVerbosity_min (count : Nat) : ofVerbosity (min 255 count) = ofVerbosity count := by
  match count with
  | 0 | 1 | 2 => rfl
  | count + 3 =>
      have more : min 255 (count + 3) = min 252 count + 3 := by omega
      rw [more]
      rfl

/-! ## Taking the items -/

private theorem guard_eq_ok_iff {ε α : Type} {condition : Prop} [Decidable condition] {refusal : ε}
    {otherwise : Except ε α} {value : α} :
    (if condition then .error refusal else otherwise) = .ok value ↔
      ¬ condition ∧ otherwise = .ok value := by
  split <;> simp [*]

structure Given.Holds (given : Given) (options : List (Option Switch)) (operands : List String) :
    Prop where
  switches : given.switches.map some = options
  operands : given.operands = operands
  once : ∀ switch, switch ≠ .verbose → given.switches.count switch ≤ 1

private theorem count_map_some (switches : List Switch) (switch : Switch) :
    (switches.map some : Multiset (Option Switch)).count (some switch) = switches.count switch := by
  rw [← Multiset.map_coe, Multiset.count_map_eq_count' _ _ (Option.some_injective Switch),
    Multiset.coe_count]

theorem Documented.exists_given {options : List (Option Switch)} {operands : List String}
    (documented : Documented options operands) : ∃ given, Given.Holds given options operands := by
  have known : options ∈ Set.range (List.map some) := by
    rw [Set.range_list_map]
    intro option member
    cases option with
    | none => exact absurd member documented.known
    | some switch => exact ⟨switch, rfl⟩
  rcases known with ⟨switches, rfl⟩
  refine ⟨{ switches, operands }, rfl, rfl, ?_⟩
  intro switch single
  rw [← count_map_some]
  exact documented.once switch single

namespace Given

variable {options : List (Option Switch)} {operands : List String} {given next last : Given}
  {item : Argument}

private theorem Holds.unique {other : Given} (holds : given.Holds options operands)
    (holdsToo : other.Holds options operands) : given = other := by
  have switches : given.switches = other.switches :=
    List.map_injective_iff.mpr (Option.some_injective _)
      (holds.switches.trans holdsToo.switches.symm)
  have same := holds.operands.trans holdsToo.operands.symm
  cases given
  cases other
  simp_all

theorem takeSwitch_eq_ok_iff {switch : Switch} :
    given.takeSwitch switch = .ok next ↔
      switch.documented? = some switch ∧ (switch = .verbose ∨ switch ∉ given.switches) ∧
        { given with switches := given.switches ++ [switch] } = next := by
  cases switch <;>
    simp [takeSwitch, Switch.documented?, Switch.isRepeatable, guard_eq_ok_iff]

theorem take_eq_ok_iff :
    given.take item = .ok next ↔
      given.endsEmpty = false ∧
        ((∃ switch, item = .switch switch ∧ switch.documented? = some switch ∧
            (switch = .verbose ∨ switch ∉ given.switches) ∧
            { given with switches := given.switches ++ [switch] } = next) ∨
          ∃ text, item = .operand text ∧ given.operands.length < 2 ∧
            { given with operands := given.operands ++ [text] } = next) := by
  cases item with
  | valued known => simp [take]
  | unknown text => simp [take]
  | switch known => simp [take, guard_eq_ok_iff, takeSwitch_eq_ok_iff]
  | operand text => simp [take, guard_eq_ok_iff, and_left_comm]

theorem Holds.take (holds : given.Holds options operands) (taken : given.take item = .ok next) :
    next.Holds (options ++ item.options) (operands ++ item.operands) := by
  rcases take_eq_ok_iff.mp taken with
    ⟨-, ⟨switch, rfl, documented, fresh, rfl⟩ | ⟨text, rfl, -, rfl⟩⟩
  · refine ⟨?_, ?_, ?_⟩
    · rw [Argument.options, documented, List.map_append, holds.switches]
      rfl
    · rw [holds.operands]
      exact (List.append_nil _).symm
    · intro other single
      have before := holds.once other single
      dsimp only
      rw [List.count_append, List.count_singleton]
      split
      · rename_i same
        rw [← eq_of_beq same] at single ⊢
        rw [List.count_eq_zero.mpr (fresh.resolve_left single)]
      · exact before
  · refine ⟨?_, ?_, holds.once⟩
    · rw [holds.switches]
      exact (List.append_nil _).symm
    · rw [holds.operands]
      rfl

theorem Holds.foldlM {items : List Argument} (holds : given.Holds options operands)
    (taken : items.foldlM Given.take given = .ok last) :
    last.Holds (options ++ items.flatMap Argument.options)
      (operands ++ items.flatMap Argument.operands) := by
  induction items generalizing given options operands with
  | nil =>
      cases taken
      rw [List.flatMap_nil, List.flatMap_nil, List.append_nil, List.append_nil]
      exact holds
  | cons item rest induction =>
      rw [List.foldlM_cons] at taken
      cases first : given.take item with
      | error refusal =>
          rw [first] at taken
          cases taken
      | ok next =>
          rw [first] at taken
          have later := induction (holds.take first) taken
          rw [List.append_assoc, List.append_assoc] at later
          exact later

private theorem Holds.exists_switches {more : List (Option Switch)} {others : List String}
    (holds : given.Holds options operands) (later : next.Holds (options ++ more) others) :
    ∃ switches, more = switches.map some ∧ next.switches = given.switches ++ switches := by
  rcases List.map_eq_append_iff.mp later.switches with ⟨first, second, parts, same, rest⟩
  have unchanged : first = given.switches :=
    List.map_injective_iff.mpr (Option.some_injective Switch) (same.trans holds.switches.symm)
  exact ⟨second, rest.symm, unchanged ▸ parts⟩

private theorem Holds.exists_before {more : List (Option Switch)} {others : List String}
    (later : last.Holds (options ++ more) (operands ++ others)) :
    ∃ next, Given.Holds next options operands := by
  rcases List.map_eq_append_iff.mp later.switches with ⟨first, second, parts, same, -⟩
  refine ⟨{ switches := first, operands }, same, rfl, ?_⟩
  intro switch single
  have fewer := later.once switch single
  rw [parts, List.count_append] at fewer
  exact Nat.le_of_add_right_le fewer

theorem Holds.take_of_holds (holds : given.Holds options operands)
    (later : next.Holds (options ++ item.options) (operands ++ item.operands))
    (two : (operands ++ item.operands).length ≤ 2) (filled : "" ∉ operands) :
    given.take item = .ok next := by
  have nonempty : given.endsEmpty = false := by
    rw [endsEmpty, decide_eq_false_iff_not, holds.operands]
    intro ends
    exact filled (List.mem_of_getLast? ends)
  rw [take_eq_ok_iff]
  apply And.intro nonempty
  rcases holds.exists_switches later with ⟨switches, added, parts⟩
  have others := later.operands
  have whole : next = ⟨next.switches, next.operands⟩ := rfl
  rw [parts, others, ← holds.operands] at whole
  cases item with
  | valued known => cases switches <;> cases added
  | unknown text => cases switches <;> cases added
  | operand text =>
      cases List.map_eq_nil_iff.mp added.symm
      rw [List.append_nil] at whole
      have room : given.operands.length < 2 := by
        rw [List.length_append] at two
        rw [holds.operands]
        exact Nat.lt_of_succ_le two
      exact .inr ⟨text, rfl, room, whole.symm⟩
  | switch known =>
      rcases List.map_eq_singleton_iff.mp added.symm with ⟨switch, rfl, documented⟩
      cases Switch.eq_of_documented? documented.symm
      have fresh : known = .verbose ∨ known ∉ given.switches := by
        by_cases repeatable : known = .verbose
        · exact .inl repeatable
        · have single := later.once known repeatable
          rw [parts, List.count_append, List.count_singleton_self] at single
          exact .inr (List.count_eq_zero.mp (by omega))
      change next = ⟨_, given.operands ++ []⟩ at whole
      rw [List.append_nil] at whole
      exact .inl ⟨known, rfl, documented.symm, fresh, whole.symm⟩

theorem Holds.foldlM_of_holds {items : List Argument} (holds : given.Holds options operands)
    (later : last.Holds (options ++ items.flatMap Argument.options)
      (operands ++ items.flatMap Argument.operands))
    (two : (operands ++ items.flatMap Argument.operands).length ≤ 2)
    (filled : "" ∉ operands ++ items.flatMap Argument.operands) :
    items.foldlM Given.take given = .ok last := by
  induction items generalizing given options operands with
  | nil =>
      rw [List.flatMap_nil, List.flatMap_nil, List.append_nil, List.append_nil] at later
      cases holds.unique later
      rfl
  | cons item rest induction =>
      rw [List.flatMap_cons, ← List.append_assoc] at two filled
      rw [List.flatMap_cons, List.flatMap_cons, ← List.append_assoc, ← List.append_assoc] at later
      rcases later.exists_before with ⟨next, between⟩
      have first : given.take item = .ok next := by
        apply holds.take_of_holds between
        · rw [List.length_append] at two
          exact Nat.le_of_add_right_le two
        · intro empty
          exact filled (List.mem_append_left _ (List.mem_append_left _ empty))
      rw [List.foldlM_cons, first]
      exact induction between later two filled

/-! ## The conclusion -/

theorem Holds.has_iff (holds : given.Holds options operands) (switch : Switch) :
    given.has switch = true ↔ some switch ∈ options := by
  rw [has, List.contains_iff_mem, ← holds.switches]
  simp

theorem Holds.count_eq (holds : given.Holds options operands) (switch : Switch) :
    given.switches.count switch = (options : Multiset (Option Switch)).count (some switch) := by
  rw [← holds.switches, count_map_some]

theorem Holds.documented (holds : given.Holds options operands)
    (mode : some .hollow ∈ options ↔ some .tidy ∉ options)
    (loudness : ¬ (some .quiet ∈ options ∧ some .verbose ∈ options))
    (files : ∃ input output, operands = [input, output] ∧ input ≠ "" ∧ output ≠ "") :
    Documented options operands := by
  refine ⟨?_, ?_, mode, loudness, files⟩
  · rw [Multiset.mem_coe, ← holds.switches]
    simp
  · intro switch single
    rw [← holds.count_eq]
    exact holds.once switch single

def invocation (given : Given) (input output : String) : Invocation where
  mode := if given.has .hollow then .hollow else .tidy
  settings := { strict := given.has .strict, topLevelMarker := given.has .topLevelMarker }
  verbosity := min 255 (given.switches.count .verbose)
  quiet := given.has .quiet
  input := input
  output := output

theorem conclude_eq_ok_iff {invocation : Invocation} :
    given.conclude = .ok invocation ↔
      (given.has .hollow = true ↔ given.has .tidy = false) ∧
        ¬ (given.has .quiet = true ∧ given.has .verbose = true) ∧
        ∃ input output, given.operands = [input, output] ∧ input ≠ "" ∧ output ≠ "" ∧
          given.invocation input output = invocation := by
  simp only [conclude, guard_eq_ok_iff]
  constructor
  · intro concluded
    rcases concluded with ⟨noEmpty, -, oneMode, oneLoudness, someMode, concluded⟩
    split at concluded
    · rename_i input output files
      rw [files] at noEmpty
      have mode : given.has .hollow = true ↔ given.has .tidy = false := by grind
      have loudness : ¬ (given.has .quiet = true ∧ given.has .verbose = true) := by grind
      have filled : input ≠ "" ∧ output ≠ "" := by grind
      exact ⟨mode, loudness, input, output, files, filled.1, filled.2, Except.ok.inj concluded⟩
    · cases concluded
  · intro orderly
    rcases orderly with ⟨mode, loudness, input, output, files, filled, filledToo, rfl⟩
    have noEmpty : ¬ given.operands.contains "" = true := by
      rw [files]
      simp [filled.symm, filledToo.symm]
    have something : ¬ (given.switches.isEmpty && given.operands.isEmpty) = true := by
      simp [files]
    have oneMode : ¬ (given.has .hollow && given.has .tidy) = true := by grind
    have oneLoudness : ¬ (given.has .quiet && given.has .verbose) = true := by grind
    have someMode : ¬ (!given.has .hollow && !given.has .tidy) = true := by grind
    refine ⟨noEmpty, something, oneMode, oneLoudness, someMode, ?_⟩
    rw [files]
    rfl

theorem Holds.isAskedBy (holds : given.Holds options operands) {input output : String}
    (files : operands = [input, output]) :
    (given.invocation input output).IsAskedBy options operands := by
  have has (switch : Switch) :
      given.has switch = decide (some switch ∈ (options : Multiset (Option Switch))) := by
    rw [Bool.eq_iff_iff, decide_eq_true_eq, Multiset.mem_coe]
    exact holds.has_iff switch
  have count := holds.count_eq .verbose
  refine ⟨?_, has .strict, has .topLevelMarker, ?_, has .quiet, ?_, files⟩
  · simp only [invocation, has, decide_eq_true_eq]
  · rw [invocation, count]
  · simp only [Invocation.level, invocation, has, decide_eq_true_eq, count, Level.ofVerbosity_min]

theorem Holds.conclude_eq_ok_iff (holds : given.Holds options operands) {invocation : Invocation} :
    given.conclude = .ok invocation ↔
      Documented options operands ∧ invocation.IsAskedBy options operands := by
  have hollow := holds.has_iff .hollow
  have tidy := holds.has_iff .tidy
  have quiet := holds.has_iff .quiet
  have verbose := holds.has_iff .verbose
  rw [Given.conclude_eq_ok_iff, ← Bool.not_eq_true, hollow, tidy, quiet, verbose, holds.operands]
  constructor
  · intro concluded
    rcases concluded with ⟨mode, loudness, input, output, files, filled, filledToo, rfl⟩
    exact ⟨holds.documented mode loudness ⟨input, output, files, filled, filledToo⟩,
      holds.isAskedBy files⟩
  · intro asked
    rcases asked with ⟨documented, asked⟩
    rcases documented.operands with ⟨input, output, files, filled, filledToo⟩
    exact ⟨documented.mode, documented.loudness, input, output, files, filled, filledToo,
      (holds.isAskedBy files).unique asked⟩

end Given

theorem Documented.exists_isAskedBy {options : List (Option Switch)} {operands : List String}
    (documented : Documented options operands) :
    ∃ invocation, Invocation.IsAskedBy invocation options operands := by
  rcases documented.exists_given with ⟨given, holds⟩
  rcases documented.operands with ⟨input, output, files, -, -⟩
  exact ⟨given.invocation input output, holds.isAskedBy files⟩

theorem Invocation.ofWords_eq_ok_iff {words : List String} {invocation : Invocation} :
    ofWords words = .ok invocation ↔
      Documented (optionsIn words) (operandsIn words) ∧
        invocation.IsAskedBy (optionsIn words) (operandsIn words) := by
  have start : Given.Holds {} [] [] := ⟨rfl, rfl, fun _ _ => Nat.zero_le 1⟩
  have options := Argument.flatMap_options_ofWords words
  have operands := Argument.flatMap_operands_ofWords words
  unfold ofWords
  constructor
  · intro ok
    cases taken : (Argument.ofWords words).foldlM Given.take {} with
    | error refusal =>
        rw [taken] at ok
        cases ok
    | ok last =>
        rw [taken] at ok
        have holds := start.foldlM taken
        rw [options, operands] at holds
        exact holds.conclude_eq_ok_iff.mp ok
  · intro asked
    rcases asked with ⟨documented, asked⟩
    rcases documented.exists_given with ⟨last, holds⟩
    rcases documented.operands with ⟨input, output, files, filled, filledToo⟩
    have taken : (Argument.ofWords words).foldlM Given.take {} = .ok last := by
      apply start.foldlM_of_holds
      · rw [options, operands]
        exact holds
      · rw [operands, files]
        exact Nat.le_refl 2
      · rw [operands, files]
        simp [filled.symm, filledToo.symm]
    rw [taken]
    exact holds.conclude_eq_ok_iff.mpr ⟨documented, asked⟩

/-! ## Whole command lines -/

theorem Invocation.toOption_ofWords_congr {words other : List String}
    (options : optionsIn words = optionsIn other) (operands : operandsIn words = operandsIn other) :
    (ofWords words).toOption = (ofWords other).toOption := by
  apply Option.ext
  intro invocation
  have accepted (line : List String) :
      (ofWords line).toOption = some invocation ↔ ofWords line = .ok invocation := by
    cases ofWords line <;> simp [Except.toOption]
  rw [accepted, accepted, ofWords_eq_ok_iff, ofWords_eq_ok_iff, options, operands]

/-- Which command lines are accepted, and what they ask for. Only the multiset of the
options and the list of the operands matter, so a command line that is rearranged is
the same command line. -/
theorem Invocation.ofWords_accepts_documented (words : List String) :
    ((∃ invocation, ofWords words = .ok invocation) ↔
        Documented (optionsIn words) (operandsIn words)) ∧
      (∀ invocation, ofWords words = .ok invocation →
        invocation.IsAskedBy (optionsIn words) (operandsIn words)) ∧
      ∀ other,
        Relation.EqvGen Rearranges words other ∨
            optionsIn words = optionsIn other ∧ operandsIn words = operandsIn other →
          (ofWords words).toOption = (ofWords other).toOption := by
  refine ⟨⟨?_, ?_⟩, ?_, ?_⟩
  · intro accepted
    rcases accepted with ⟨invocation, ok⟩
    exact (ofWords_eq_ok_iff.mp ok).1
  · intro documented
    rcases documented.exists_isAskedBy with ⟨invocation, asked⟩
    exact ⟨invocation, ofWords_eq_ok_iff.mpr ⟨documented, asked⟩⟩
  · intro invocation ok
    exact (ofWords_eq_ok_iff.mp ok).2
  · intro other same
    rcases same with rearranged | ⟨options, operands⟩
    · rcases same_of_rearranges rearranged with ⟨options, operands⟩
      exact toOption_ofWords_congr options operands
    · exact toOption_ofWords_congr options operands

/-- Switches among the operands, one of them given in two words, and an operand after
two dashes that looks like a switch. -/
theorem Invocation.ofWords_accepts_documented_interleaved :
    let words := ["-v", "a", "-pv", "--", "-c"]
    let other := ["-vvp", "a", "--", "-c"]
    Relation.EqvGen Rearranges words other ∧
      (ofWords words).toOption = (ofWords other).toOption ∧
      ∃ invocation, ofWords words = .ok invocation ∧
        invocation.IsAskedBy (optionsIn words) ["a", "-c"] := by
  intro words other
  have moved : Rearranges ["-v", "-pv", "a", "--", "-c"] words :=
    .move ["-v"] ["a"] ["--", "-c"] "-pv" (by decide) (by decide)
  have joined : Rearranges ["-v", "-pv", "a", "--", "-c"] other :=
    .regroup [] ["a", "--", "-c"] [['v'], ['p', 'v']] [['v', 'v', 'p']] (by decide) (by decide)
      (by decide)
  have rearranged : Relation.EqvGen Rearranges words other :=
    .trans _ _ _ (.symm _ _ (.rel _ _ moved)) (.rel _ _ joined)
  have accepted : ∃ invocation, ofWords words = .ok invocation := ⟨_, rfl⟩
  rcases accepted with ⟨invocation, ok⟩
  rcases Invocation.ofWords_accepts_documented words with ⟨-, asked, same⟩
  exact ⟨rearranged, same other (.inl rearranged), invocation, ok, asked invocation ok⟩

end GrammarTidy.Command

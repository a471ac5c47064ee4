import GrammarTidy.Command.Argument
import Mathlib.Data.List.TakeWhile
import Mathlib.Data.Multiset.Defs
import Mathlib.Logic.Relation

/-! The words of a command line, told without reading them from left to right: the
options that they use, as a multiset, and their operands. Options can be put in any
order, in any grouping and anywhere among the operands without a change to either. -/

namespace GrammarTidy.Command

/-! ## Options and operands -/

/-- The word is there for its options: it starts with a dash and goes on. -/
def isOption (word : String) : Bool :=
  match word.toList with
  | '-' :: letters => !letters.isEmpty
  | _ => false

def letterOption? (letter : Char) : Option Switch :=
  [('c', .hollow), ('p', .tidy), ('v', .verbose), ('q', .quiet)].lookup letter

def nameOption? (name : String) : Option Switch :=
  [("strict", .strict), ("marker-top-level", .topLevelMarker), ("verbose", .verbose),
    ("quiet", .quiet)].lookup name

/-- The options that a word uses: one for its name, or one for each of its letters.
An option that is not documented is told as `none`. -/
def optionsOf (word : String) : List (Option Switch) :=
  match word.toList with
  | '-' :: '-' :: name => [nameOption? (String.ofList name)]
  | '-' :: letters => letters.map letterOption?
  | _ => []

/-- The words before the first one that is two dashes and nothing more. -/
def wordsBeforeDashes (words : List String) : List String :=
  words.takeWhile (· != "--")

def wordsAfterDashes (words : List String) : List String :=
  (words.dropWhile (· != "--")).tail

def optionsIn (words : List String) : Multiset (Option Switch) :=
  (wordsBeforeDashes words).flatMap optionsOf

def operandsIn (words : List String) : List String :=
  (wordsBeforeDashes words).filter (!isOption ·) ++ wordsAfterDashes words

/-! ## Words -/

def IsGroup (letters : List Char) : Prop :=
  letters ≠ [] ∧ letters.head? ≠ some '-'

instance : DecidablePred IsGroup := fun letters =>
  inferInstanceAs (Decidable (letters ≠ [] ∧ letters.head? ≠ some '-'))

def group (letters : List Char) : String :=
  String.ofList ('-' :: letters)

theorem IsGroup.exists_cons {letters : List Char} (isGroup : IsGroup letters) :
    ∃ letter rest, letter ≠ '-' ∧ letters = letter :: rest := by
  rcases isGroup with ⟨nonempty, head⟩
  cases letters with
  | nil => exact absurd rfl nonempty
  | cons letter rest => exact ⟨letter, rest, fun dash => head (congrArg some dash), rfl⟩

theorem isOption_group {letters : List Char} (nonempty : letters ≠ []) :
    isOption (group letters) = true := by
  rw [isOption, group, String.toList_ofList]
  simp [nonempty]

private theorem word_cases (word : String) :
    (∃ name, word = group ('-' :: name)) ∨
      (∃ letters, IsGroup letters ∧ word = group letters) ∨
      isOption word = false ∧ optionsOf word = [] ∧ Argument.ofWord word = [.operand word] := by
  have spelled : word = String.ofList word.toList := String.ofList_toList.symm
  unfold isOption optionsOf Argument.ofWord
  cases chars : word.toList with
  | nil => exact .inr (.inr ⟨rfl, rfl, rfl⟩)
  | cons first rest =>
      rw [chars] at spelled
      by_cases dash : first = '-'
      · subst dash
        cases rest with
        | nil => exact .inr (.inr ⟨rfl, rfl, rfl⟩)
        | cons letter letters =>
            by_cases long : letter = '-'
            · exact .inl ⟨letters, long ▸ spelled⟩
            · exact .inr (.inl ⟨letter :: letters, by simp [IsGroup, long], spelled⟩)
      · simp [dash]

private theorem optionsOf_name (name : List Char) :
    optionsOf (group ('-' :: name)) = [nameOption? (String.ofList name)] := by
  rw [optionsOf, group, String.toList_ofList]
  rfl

theorem optionsOf_group {letters : List Char} (isGroup : IsGroup letters) :
    optionsOf (group letters) = letters.map letterOption? := by
  rcases isGroup.exists_cons with ⟨letter, rest, single, rfl⟩
  rw [optionsOf, group, String.toList_ofList]
  simp [single]

section Append

variable {before : List String} (clear : "--" ∉ before) (after : List String)
include clear

private theorem ne_dashes {word : String} (member : word ∈ before) : (word != "--") = true := by
  rw [bne_iff_ne]
  intro same
  exact clear (same ▸ member)

theorem wordsBeforeDashes_append :
    wordsBeforeDashes (before ++ after) = before ++ wordsBeforeDashes after :=
  List.takeWhile_append_of_pos fun _ member => ne_dashes clear member

theorem operandsIn_append :
    operandsIn (before ++ after) = before.filter (!isOption ·) ++ operandsIn after := by
  have dropped : (before ++ after).dropWhile (· != "--") = after.dropWhile (· != "--") :=
    List.dropWhile_append_of_pos fun _ member => ne_dashes clear member
  rw [operandsIn, wordsBeforeDashes_append clear, wordsAfterDashes, dropped, List.filter_append,
    List.append_assoc]
  rfl

end Append

/-! ## The items of a command line -/

/-- Help and the version are answered, but they are no part of an invocation. -/
def Switch.documented? : Switch → Option Switch
  | .help | .version => none
  | known => some known

theorem Switch.eq_of_documented? {known switch : Switch} (same : known.documented? = some switch) :
    switch = known := by
  cases known <;> cases same <;> rfl

private theorem letterOption?_eq (letter : Char) :
    letterOption? letter = (Switch.ofLetter? letter).bind Switch.documented? := by
  unfold Switch.ofLetter?
  split
  case h_7 =>
    simp only [letterOption?, List.lookup_eq_none_iff, Option.bind_none]
    grind
  all_goals rfl

private theorem nameOption?_eq (name : String) :
    nameOption? name = (Switch.ofName? name).bind Switch.documented? := by
  unfold Switch.ofName?
  split
  case h_7 =>
    simp only [nameOption?, List.lookup_eq_none_iff, Option.bind_none]
    grind
  all_goals rfl

private theorem nameOption?_of_equals {name : List Char} (valued : '=' ∈ name) :
    nameOption? (String.ofList name) = none := by
  rw [nameOption?, List.lookup_eq_none_iff]
  intro entry member
  rw [bne_iff_ne]
  intro same
  have listed : '=' ∈ entry.1.toList := by
    rw [← same, String.toList_ofList]
    exact valued
  revert listed
  simp only [List.mem_cons, List.not_mem_nil, or_false] at member
  rcases member with rfl | rfl | rfl | rfl <;> decide

namespace Argument

def options : Argument → List (Option Switch)
  | .operand _ => []
  | .switch known => [known.documented?]
  | .valued _ | .unknown _ => [none]

def operands : Argument → List String
  | .operand text => [text]
  | _ => []

theorem options_ofLetter (letter : Char) : (ofLetter letter).options = [letterOption? letter] := by
  rw [letterOption?_eq, ofLetter]
  cases Switch.ofLetter? letter <;> rfl

theorem operands_ofLetter (letter : Char) : (ofLetter letter).operands = [] := by
  rw [ofLetter]
  cases Switch.ofLetter? letter <;> rfl

theorem options_ofLong (name : List Char) :
    (ofLong name).options = [nameOption? (String.ofList name)] := by
  unfold ofLong
  dsimp only
  by_cases valued : '=' ∈ name
  · rw [nameOption?_of_equals valued]
    cases Switch.ofName? (String.ofList (name.takeWhile (· != '='))) with
    | none => rfl
    | some known =>
        dsimp only
        rw [if_pos (List.contains_iff_mem.mpr valued)]
        rfl
  · have whole : name.takeWhile (· != '=') = name := by
      rw [List.takeWhile_eq_self_iff]
      intro char member
      rw [bne_iff_ne]
      intro same
      exact valued (same ▸ member)
    rw [whole, nameOption?_eq]
    cases Switch.ofName? (String.ofList name) with
    | none => rfl
    | some known =>
        dsimp only
        rw [if_neg (mt List.contains_iff_mem.mp valued)]
        rfl

theorem operands_ofLong (name : List Char) : (ofLong name).operands = [] := by
  unfold ofLong
  dsimp only
  split
  · split <;> rfl
  · rfl

theorem ofWord_name (name : List Char) : ofWord (group ('-' :: name)) = [ofLong name] := by
  rw [ofWord, group, String.toList_ofList]
  rfl

theorem ofWord_group {letters : List Char} (isGroup : IsGroup letters) :
    ofWord (group letters) = letters.map ofLetter := by
  rcases isGroup.exists_cons with ⟨letter, rest, single, rfl⟩
  rw [ofWord, group, String.toList_ofList]
  simp

theorem flatMap_options_ofWord (word : String) :
    (ofWord word).flatMap options = optionsOf word := by
  rcases word_cases word with ⟨name, rfl⟩ | ⟨letters, isGroup, rfl⟩ | ⟨-, none, plain⟩
  · rw [ofWord_name, optionsOf_name, List.flatMap_singleton, options_ofLong]
  · rw [ofWord_group isGroup, optionsOf_group isGroup, List.flatMap_map]
    simp only [options_ofLetter]
    exact List.flatMap_pure_eq_map _ _
  · rw [plain, none]
    rfl

theorem flatMap_operands_ofWord (word : String) :
    (ofWord word).flatMap operands = [word].filter (!isOption ·) := by
  rcases word_cases word with ⟨name, rfl⟩ | ⟨letters, isGroup, rfl⟩ | ⟨notOption, -, plain⟩
  · rw [ofWord_name, List.flatMap_singleton, operands_ofLong]
    simp [isOption_group]
  · rw [ofWord_group isGroup, List.flatMap_map]
    simp [isOption_group isGroup.1, operands_ofLetter]
  · rw [plain]
    simp [notOption, operands]

theorem flatMap_options_ofWords (words : List String) :
    (ofWords words).flatMap options = (wordsBeforeDashes words).flatMap optionsOf := by
  induction words with
  | nil => rfl
  | cons word rest induction =>
      rw [ofWords]
      by_cases dashes : word = "--"
      · rw [if_pos dashes, wordsBeforeDashes, dashes]
        simp [options]
      · have clear : "--" ∉ [word] := by simp [Ne.symm dashes]
        have front : wordsBeforeDashes (word :: rest) = word :: wordsBeforeDashes rest :=
          wordsBeforeDashes_append clear rest
        rw [if_neg dashes, front, List.flatMap_append, flatMap_options_ofWord, induction,
          List.flatMap_cons]

theorem flatMap_operands_ofWords (words : List String) :
    (ofWords words).flatMap operands = operandsIn words := by
  induction words with
  | nil => rfl
  | cons word rest induction =>
      rw [ofWords]
      by_cases dashes : word = "--"
      · rw [if_pos dashes, dashes]
        simp [operands, operandsIn, wordsBeforeDashes, wordsAfterDashes, List.flatMap_map]
      · have clear : "--" ∉ [word] := by simp [Ne.symm dashes]
        have front := operandsIn_append clear rest
        rw [if_neg dashes, List.flatMap_append, flatMap_operands_ofWord, induction, ← front]
        rfl

end Argument

/-! ## Other orders and groupings -/

/-- A change to a command line that only moves its options about. -/
inductive Rearranges : List String → List String → Prop where
  /-- A word of options moves past other words, all before two dashes alone. -/
  | move (before middle after : List String) (option : String) (options : isOption option = true)
      (clear : "--" ∉ before ++ option :: middle) :
      Rearranges (before ++ option :: middle ++ after) (before ++ (middle ++ [option]) ++ after)
  /-- Letters after single dashes are joined, taken apart or put in another order. -/
  | regroup (before after : List String) (groups others : List (List Char))
      (clear : "--" ∉ before) (areGroups : ∀ letters ∈ groups ++ others, IsGroup letters)
      (same : groups.flatten.Perm others.flatten) :
      Rearranges (before ++ groups.map group ++ after) (before ++ others.map group ++ after)

private theorem same_of_exchange {before first second : List String}
    (clear : "--" ∉ before ++ first) (clearToo : "--" ∉ before ++ second)
    (options : (first.flatMap optionsOf).Perm (second.flatMap optionsOf))
    (operands : first.filter (!isOption ·) = second.filter (!isOption ·)) (after : List String) :
    optionsIn (before ++ first ++ after) = optionsIn (before ++ second ++ after) ∧
      operandsIn (before ++ first ++ after) = operandsIn (before ++ second ++ after) := by
  constructor
  · rw [optionsIn, optionsIn, wordsBeforeDashes_append clear, wordsBeforeDashes_append clearToo,
      Multiset.coe_eq_coe]
    simp only [List.flatMap_append]
    exact (options.append_left _).append_right _
  · rw [operandsIn_append clear, operandsIn_append clearToo, List.filter_append,
      List.filter_append, operands]

section Groups

variable {groups : List (List Char)} (areGroups : ∀ letters ∈ groups, IsGroup letters)
include areGroups

private theorem dashes_not_mem_groups : "--" ∉ groups.map group := by
  intro member
  rcases List.mem_map.mp member with ⟨letters, listed, same⟩
  rcases (areGroups letters listed).exists_cons with ⟨letter, rest, single, rfl⟩
  have chars := congrArg String.toList same
  rw [group, String.toList_ofList, String.toList_ofList] at chars
  cases chars
  exact single rfl

private theorem flatMap_optionsOf_groups :
    (groups.map group).flatMap optionsOf = groups.flatten.map letterOption? := by
  rw [List.flatMap_map, List.map_flatten, List.flatMap_def]
  apply congrArg List.flatten
  apply List.map_congr_left
  intro letters member
  exact optionsOf_group (areGroups letters member)

private theorem filter_groups : (groups.map group).filter (!isOption ·) = [] := by
  rw [List.filter_eq_nil_iff]
  intro word member
  rcases List.mem_map.mp member with ⟨letters, listed, rfl⟩
  rw [isOption_group (areGroups letters listed).1]
  decide

end Groups

theorem Rearranges.same {words other : List String} (rearranges : Rearranges words other) :
    optionsIn words = optionsIn other ∧ operandsIn words = operandsIn other := by
  cases rearranges with
  | move before middle after option options clear =>
      have moved : (option :: middle).Perm (middle ++ [option]) :=
        (List.perm_append_singleton option middle).symm
      have clearToo : "--" ∉ before ++ (middle ++ [option]) := fun member =>
        clear ((moved.append_left before).mem_iff.mpr member)
      apply same_of_exchange clear clearToo (moved.flatMap_right optionsOf)
      simp [options]
  | regroup before after groups others clear areGroups same =>
      have first : ∀ letters ∈ groups, IsGroup letters :=
        fun letters member => areGroups letters (List.mem_append_left others member)
      have second : ∀ letters ∈ others, IsGroup letters :=
        fun letters member => areGroups letters (List.mem_append_right groups member)
      apply same_of_exchange
      · exact List.not_mem_append clear (dashes_not_mem_groups first)
      · exact List.not_mem_append clear (dashes_not_mem_groups second)
      · rw [flatMap_optionsOf_groups first, flatMap_optionsOf_groups second]
        exact same.map letterOption?
      · rw [filter_groups first, filter_groups second]

theorem same_of_rearranges {words other : List String}
    (rearranged : Relation.EqvGen Rearranges words other) :
    optionsIn words = optionsIn other ∧ operandsIn words = operandsIn other := by
  induction rearranged with
  | rel words other rearranges => exact rearranges.same
  | refl words => exact ⟨rfl, rfl⟩
  | symm words other _ same => exact ⟨same.1.symm, same.2.symm⟩
  | trans words between other _ _ first second =>
      exact ⟨first.1.trans second.1, first.2.trans second.2⟩

end GrammarTidy.Command

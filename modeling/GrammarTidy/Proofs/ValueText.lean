import GrammarTidy.Json.Codec
import GrammarTidy.Proofs.Lexemes

/-! The text of a JSON value stands for that value. The reader goes through the
tokens with a stack of what is open; here the stack is what the reader had before
the value, and it has it again behind it. -/

namespace GrammarTidy.Json.Value

/-! ## Values and their tokens -/

/-- Induction over a value, with what holds of the items of an array and of the
values of an object's members. -/
@[elab_as_elim] theorem tree_induction {motive : Value → Prop}
    (null : motive .null) (bool : ∀ value, motive (.bool value))
    (number : ∀ numeral, motive (.number numeral)) (text : ∀ pieces, motive (.text pieces))
    (array : ∀ items, (∀ item ∈ items, motive item) → motive (.array items))
    (object : ∀ members, (∀ member ∈ members, motive member.2) → motive (.object members)) :
    ∀ value, motive value
  | .null => null
  | .bool value => bool value
  | .number numeral => number numeral
  | .text pieces => text pieces
  | .array items => array items fun item _ =>
      tree_induction null bool number text array object item
  | .object members => object members fun (_, value) _ =>
      tree_induction null bool number text array object value
termination_by value => sizeOf value
decreasing_by
  · decreasing_tactic
  · have smaller := List.sizeOf_lt_of_mem ‹_ ∈ members›
    simp only [Value.object.sizeOf_spec, Prod.mk.sizeOf_spec] at smaller ⊢
    omega

/-- The tokens of a value are read as that value, whatever encloses it. -/
def Reads (value : Value) : Prop :=
  ∀ stack, value.tokens.foldlM advance (.value stack) = some (.complete value stack)

private theorem foldlM_firstItem (item : Value) (items : List Value) (tokens : List Token)
    (stack : List Enclosing) :
    (itemTokens (item :: items) ++ tokens).foldlM advance (.firstItem stack) =
      (itemTokens (item :: items) ++ tokens).foldlM advance (.value (.array [] :: stack)) := by
  have starts : ∃ more, itemTokens (item :: items) ++ tokens = item.tokens ++ more := by
    cases items with
    | nil => exact ⟨tokens, rfl⟩
    | cons next later => exact ⟨_, List.append_assoc _ _ _⟩
  rcases starts with ⟨more, same⟩
  rw [same]
  cases item <;> rfl

private theorem foldlM_firstName (member : Text × Value) (members : List (Text × Value))
    (tokens : List Token) (stack : List Enclosing) :
    (memberTokens (member :: members) ++ tokens).foldlM advance (.firstName stack) =
      (memberTokens (member :: members) ++ tokens).foldlM advance (.name [] stack) := by
  cases members <;> rfl

theorem Reads.foldlM_append {value : Value} (reads : value.Reads) (tokens : List Token)
    (stack : List Enclosing) :
    (value.tokens ++ tokens).foldlM advance (.value stack) =
      tokens.foldlM advance (.complete value stack) := by
  rw [List.foldlM_append, reads]
  rfl

private theorem foldlM_itemTokens {item : Value} {items : List Value}
    (reads : ∀ each ∈ item :: items, each.Reads) (before : List Value)
    (stack : List Enclosing) :
    (itemTokens (item :: items) ++ [Token.endArray]).foldlM advance
        (.value (.array before :: stack)) =
      some (.complete (.array (before ++ item :: items)) stack) := by
  induction items generalizing item before with
  | nil =>
      rw [itemTokens, (reads item List.mem_cons_self).foldlM_append]
      rfl
  | cons next later induction =>
      rw [List.forall_mem_cons] at reads
      have rest := induction reads.2 (before ++ [item])
      rw [List.append_assoc] at rest
      rw [itemTokens, List.append_assoc, reads.1.foldlM_append]
      · exact rest
      · nofun

private theorem foldlM_memberTokens {name : Text} {value : Value} {members : List (Text × Value)}
    (reads : ∀ each ∈ (name, value) :: members, each.2.Reads) (before : List (Text × Value))
    (stack : List Enclosing) :
    (memberTokens ((name, value) :: members) ++ [Token.endObject]).foldlM advance
        (.name before stack) =
      some (.complete (.object (before ++ (name, value) :: members)) stack) := by
  induction members generalizing name value before with
  | nil =>
      have first := (reads (name, value) List.mem_cons_self).foldlM_append [Token.endObject]
        (.object before name :: stack)
      rw [memberTokens]
      exact first
  | cons next later induction =>
      rw [List.forall_mem_cons] at reads
      have rest := induction reads.2 (before ++ [(name, value)])
      rw [List.append_assoc] at rest
      rw [memberTokens, List.append_assoc]
      · exact (reads.1.foldlM_append _ (.object before name :: stack)).trans rest
      · nofun

theorem reads (value : Value) : value.Reads := by
  induction value using tree_induction with
  | array items induction =>
      intro stack
      cases items with
      | nil => rfl
      | cons item items =>
          have all := foldlM_itemTokens induction [] stack
          exact (foldlM_firstItem item items [.endArray] stack).trans all
  | object members induction =>
      intro stack
      rcases members with _ | ⟨⟨name, value⟩, members⟩
      · rfl
      · have all := foldlM_memberTokens induction [] stack
        exact (foldlM_firstName (name, value) members [.endObject] stack).trans all
  | _ => exact fun _ => rfl

theorem ofTokens?_tokens (value : Value) : ofTokens? value.tokens = some value := by
  rw [ofTokens?, value.reads]

/-! ## Values and their texts -/

private theorem parts_of_mark {second : Token} {mark : Char} (lexeme : second.lexeme = [mark])
    (still : Numeral.goesOn mark = false) (first : Token) : first.Parts second := by
  intro chars
  rw [lexeme]
  cases first with
  | number numeral =>
      intro char same
      cases same
      exact still
  | _ => trivial

private theorem isChain_separated {first second : List Token}
    (firstChain : first.IsChain Token.Parts)
    (secondChain : second.IsChain Token.Parts) :
    (first ++ .valueSeparator :: second).IsChain Token.Parts := by
  apply firstChain.append
  · exact secondChain.cons fun _ _ _ => trivial
  · rintro last _ _ ⟨⟩
    exact parts_of_mark rfl rfl last

private theorem isChain_enclosed {opening closing : Token} {tokens : List Token} {mark : Char}
    (opens : ∀ chars, opening.Ends chars) (closes : closing.lexeme = [mark])
    (still : Numeral.goesOn mark = false) (chain : tokens.IsChain Token.Parts) :
    (opening :: tokens ++ [closing]).IsChain Token.Parts := by
  apply (chain.cons fun _ _ _ => opens _).append (.singleton closing)
  rintro last _ _ ⟨⟩
  exact parts_of_mark closes still last

private theorem isChain_itemTokens {items : List Value}
    (chains : ∀ item ∈ items, item.tokens.IsChain Token.Parts) :
    (itemTokens items).IsChain Token.Parts := by
  induction items with
  | nil => exact .nil
  | cons item items induction =>
      rw [List.forall_mem_cons] at chains
      cases items with
      | nil => exact chains.1
      | cons next later => exact isChain_separated chains.1 (induction chains.2)

private theorem isChain_memberTokens {members : List (Text × Value)}
    (chains : ∀ member ∈ members, member.2.tokens.IsChain Token.Parts) :
    (memberTokens members).IsChain Token.Parts := by
  induction members with
  | nil => exact .nil
  | cons member members induction =>
      rw [List.forall_mem_cons] at chains
      have named : (.text member.1 :: .nameSeparator :: member.2.tokens).IsChain Token.Parts :=
        .cons (.cons chains.1 fun _ _ _ => trivial) fun _ _ _ => trivial
      cases members with
      | nil => exact named
      | cons next later => exact isChain_separated named (induction chains.2)

theorem isChain_tokens (value : Value) : value.tokens.IsChain Token.Parts := by
  induction value using tree_induction with
  | array items induction =>
      exact isChain_enclosed (fun _ => trivial) rfl rfl (isChain_itemTokens induction)
  | object members induction =>
      exact isChain_enclosed (fun _ => trivial) rfl rfl (isChain_memberTokens induction)
  | _ => exact .singleton _

/-- The texts of a value: its tokens, each in one of its spellings, with blanks around
them. -/
def Spelled (value : Value) (chars : List Char) : Prop := Token.Spaced value.tokens chars

theorem parse?_of_spelled {value : Value} {chars : List Char} (spelled : value.Spelled chars) :
    parse? chars = some value := by
  rw [parse?, Token.readAll?_of_spaced spelled value.isChain_tokens]
  exact value.ofTokens?_tokens

/-- A value that is written so that it is read as itself. -/
def Legible (value : Value) : Prop := ∀ token ∈ value.tokens, token.Legible

theorem Legible.spelled {value : Value} (legible : value.Legible) :
    value.Spelled value.compact :=
  Token.spaced_lexemes legible

/-! ## Legible values -/

theorem legible_object {members : List (Text × Value)}
    (legible : ∀ member ∈ members,
      (∀ piece ∈ member.1, piece.Legible) ∧ member.2.Legible) :
    (object members).Legible := by
  have inner : ∀ token ∈ memberTokens members, token.Legible := by
    induction members with
    | nil => nofun
    | cons member members induction =>
        rw [List.forall_mem_cons] at legible
        have named : ∀ token ∈ .text member.1 :: .nameSeparator :: member.2.tokens,
            token.Legible := by
          rw [List.forall_mem_cons, List.forall_mem_cons]
          exact ⟨legible.1.1, trivial, legible.1.2⟩
        cases members with
        | nil => exact named
        | cons next later =>
            intro token among
            rcases List.mem_append.mp among with first | rest
            · exact named token first
            · rcases List.mem_cons.mp rest with rfl | later
              · trivial
              · exact induction legible.2 token later
  intro token among
  rw [tokens, List.cons_append, List.mem_cons, List.mem_append, List.mem_singleton] at among
  rcases among with rfl | among | rfl
  · trivial
  · exact inner token among
  · trivial

def Printable (text : String) : Prop := ∀ char ∈ text.toList, 0x20 ≤ char.toNat

/-- A test of the list: to decide it for all characters would go over every one. -/
instance (text : String) : Decidable (Printable text) :=
  decidable_of_iff (text.toList.all (0x20 ≤ ·.toNat) = true) (by simp [Printable])

theorem Printable.legible {text : String} (printable : Printable text) :
    ∀ piece ∈ Text.ofString text, piece.Legible := by
  intro piece among
  rcases List.mem_map.mp among with ⟨char, member, rfl⟩
  intro control
  exact absurd (printable char member) (Nat.not_le_of_lt control)

theorem legible_ofString {text : String} (printable : Printable text) :
    (ofString text).Legible := by
  intro token among
  rw [List.mem_singleton.mp among]
  exact printable.legible

theorem legible_ofInt (number : Int) : (ofInt number).Legible := by
  intro token among
  rw [List.mem_singleton.mp among]
  exact Numeral.legible_ofInt number

theorem legible_bool (value : Bool) : (bool value).Legible := by
  intro token among
  rw [List.mem_singleton.mp among]
  trivial

theorem legible_record {fields : List (String × Value)}
    (printable : ∀ field ∈ fields, Printable field.1)
    (legible : ∀ field ∈ fields, field.2.Legible) : (record fields).Legible := by
  apply legible_object
  intro member among
  rcases List.mem_map.mp among with ⟨field, inFields, rfl⟩
  exact ⟨(printable field inFields).legible, legible field inFields⟩

end GrammarTidy.Json.Value

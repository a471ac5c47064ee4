import GrammarTidy.Proofs.RoundTrip

/-! Reading settings and faults from texts that were not written by this library. The
order of the fields, members that nobody asks for, blanks and escapes make no
difference. A field that comes twice does, and so does a field of a fault that is
missing. So does a name that is half of a surrogate pair: it stands for no text, and
nobody can tell that it is not asked for. -/

namespace GrammarTidy

open Json (Codec Value read?)

namespace Json

/-- A text of an object with some members, in their order. The names stand for texts, and
may be written with any escapes. -/
def IsObjectText (text : String) (named : List (String × Value)) : Prop :=
  ∃ members, Value.Named members named ∧ (Value.object members).Spelled text.toList

theorem read?_of_spelled {α : Type} [Codec α] {form : Value} {text : String}
    (spelled : form.Spelled text.toList) : (read? text : Option α) = Codec.decode? form := by
  rw [read?, Value.parse?_of_spelled spelled]
  rfl

/-- A value is read from all texts of its record. -/
structure ReadsFreely {α : Type} [Codec α] (value : α) (fields : List (String × Value)) :
    Prop where
  written : Codec.encode value = Value.record fields
  object : ∀ text named, IsObjectText text named →
    (named.filter fun member => member.1 ∈ fields.map Prod.fst).Perm fields →
    read? text = some value
  array : ∀ text, (Value.array (fields.map Prod.snd)).Spelled text.toList →
    read? text = some value

theorem read?_of_repeated {α : Type} [Codec α] {names : List String}
    {assemble : List (Option Value) → Option α}
    (decodes : ∀ form, Codec.decode? form = Value.fields? names form >>= assemble)
    {text : String} {named : List (String × Value)} (isText : IsObjectText text named)
    {name : String} (known : name ∈ names) (repeated : 2 ≤ (named.map Prod.fst).count name) :
    (read? text : Option α) = none := by
  rcases isText with ⟨members, isNamed, spelled⟩
  rw [read?_of_spelled spelled, decodes, Value.fields?_of_repeated isNamed known repeated]
  rfl

theorem read?_of_nameless {α : Type} [Codec α] {names : List String}
    {assemble : List (Option Value) → Option α}
    (decodes : ∀ form, Codec.decode? form = Value.fields? names form >>= assemble)
    {text : String} {members : List (Text × Value)}
    (spelled : (Value.object members).Spelled text.toList)
    (nameless : ∃ member ∈ members, member.1.toString? = none) :
    (read? text : Option α) = none := by
  rw [read?_of_spelled spelled, decodes, Value.fields?_of_nameless nameless]
  rfl

end Json

open Json (IsObjectText ReadsFreely read?_of_spelled)

/-! ## Settings -/

namespace Settings

theorem read?_of_perm {text : String} {named : List (String × Value)}
    (isText : IsObjectText text named) {strict topLevelMarker : Option Bool}
    (known : (named.filter fun member => member.1 ∈ names).Perm (fields strict topLevelMarker)) :
    read? text = some
      ({ strict := strict.getD false, topLevelMarker := topLevelMarker.getD false } : Settings) := by
  rcases isText with ⟨members, isNamed, spelled⟩
  rw [read?_of_spelled spelled]
  exact decode?_of_perm isNamed known

theorem readsFreely (settings : Settings) :
    ReadsFreely settings (fields (some settings.strict) (some settings.topLevelMarker)) where
  written := rfl
  object text named isText known := read?_of_perm isText known
  array text spelled := by
    rw [read?_of_spelled spelled]
    rfl

end Settings

/-! ## Faults -/

namespace Fault

theorem readsFreely {fault : Fault} (fits : fault.Fits) : ReadsFreely fault fault.fields where
  written := rfl
  object text named isText known := by
    rcases isText with ⟨members, isNamed, spelled⟩
    rw [read?_of_spelled spelled]
    exact decode?_of_perm fits isNamed known
  array text spelled := by
    rw [read?_of_spelled spelled]
    exact decode?_of_fields? fits rfl

theorem read?_of_absent {text : String} {named : List (String × Value)}
    (isText : IsObjectText text named) {name : String} (known : name ∈ names)
    (absent : name ∉ named.map Prod.fst) : (read? text : Option Fault) = none := by
  rcases isText with ⟨members, isNamed, spelled⟩
  rw [read?_of_spelled spelled, Option.eq_none_iff_forall_ne_some]
  intro fault decoded
  rcases Option.bind_eq_some_iff.mp decoded with ⟨fields, found, held⟩
  split at held
  · exact absent (Value.mem_of_fields? isNamed found (by simp) known)
  · cases held

end Fault

/-- Settings and faults are read from an object with their fields in any order and with
other members anywhere among them, and from an array of their fields, in whatever
spelling. Fields of settings that are left out are off. A fault is not read without one
of its fields, and neither is read with one of its fields twice or beside a name that
stands for no text. -/
theorem Json.records_read_in_any_spelling :
    (∀ settings : Settings, ReadsFreely settings
      (Settings.fields (some settings.strict) (some settings.topLevelMarker))) ∧
    (∀ fault : Fault, fault.Fits → ReadsFreely fault fault.fields) ∧
    (∀ (text : String) (members : List (Text × Value)),
      (Value.object members).Spelled text.toList →
      (∃ member ∈ members, member.1.toString? = none) →
      (read? text : Option Settings) = none ∧ (read? text : Option Fault) = none) ∧
    ∀ (text : String) (named : List (String × Value)), IsObjectText text named →
      (∀ strict topLevelMarker : Option Bool,
        (named.filter fun member => member.1 ∈ Settings.names).Perm
          (Settings.fields strict topLevelMarker) →
        read? text = some ({ strict := strict.getD false
                             topLevelMarker := topLevelMarker.getD false } : Settings)) ∧
      (∀ name ∈ Fault.names, name ∉ named.map Prod.fst → (read? text : Option Fault) = none) ∧
      (∀ name ∈ Settings.names, 2 ≤ (named.map Prod.fst).count name →
        (read? text : Option Settings) = none) ∧
      ∀ name ∈ Fault.names, 2 ≤ (named.map Prod.fst).count name →
        (read? text : Option Fault) = none := by
  refine ⟨Settings.readsFreely, fun _ => Fault.readsFreely, ?nameless,
    fun text named isText => ?_⟩
  case nameless =>
    intro text members spelled nameless
    exact ⟨read?_of_nameless (fun _ => rfl) spelled nameless,
      read?_of_nameless (fun _ => rfl) spelled nameless⟩
  refine ⟨?leftOut, ?missing, ?settingsTwice, ?faultTwice⟩
  case leftOut => exact fun _ _ => Settings.read?_of_perm isText
  case missing => exact fun _ => Fault.read?_of_absent isText
  case settingsTwice => exact fun _ => read?_of_repeated (fun _ => rfl) isText
  case faultTwice => exact fun _ => read?_of_repeated (fun _ => rfl) isText

/-- One text, with a name that is escaped and a member that nobody asks for: a fault with
its fields in another order, and settings with all fields left out. -/
theorem Json.records_read_in_any_spelling_nested :
    let text := "\x7b\"line\":3,\"column\":4," ++
      "\"not\\u0065\":[\x7b\"a\":[null,\"\\ud800\"]\x7d,-15]," ++
      "\"kind\":\"UnbalancedClose\",\"offset\":10\x7d"
    read? text = some ({ kind := .strayClose
                         location := { offset := 10, line := 3, column := 4 } } : Fault) ∧
      read? text = some ({ strict := false, topLevelMarker := false } : Settings) := by
  intro text
  let fault : Fault :=
    { kind := .strayClose, location := { offset := 10, line := 3, column := 4 } }
  let note : Value := .array
    [.object [([.char 'a'], .array [.null, .text [.unit 0xD800]])], .ofInt (-15)]
  let members : List (Text × Value) :=
    [ (Text.ofString "line", .ofInt 3),
      (Text.ofString "column", .ofInt 4),
      ([.char 'n', .char 'o', .char 't', .unit 0x65], note),
      (Text.ofString "kind", .ofString "UnbalancedClose"),
      (Text.ofString "offset", .ofInt 10) ]
  let named : List (String × Value) :=
    [ ("line", .ofInt 3), ("column", .ofInt 4), ("note", note),
      ("kind", .ofString "UnbalancedClose"), ("offset", .ofInt 10) ]
  have legible : (Value.object members).Legible := by
    simp [Value.Legible, members, note, Value.tokens, Value.memberTokens, Value.itemTokens,
      Token.Legible, Piece.Legible, Text.ofString, Value.ofString, Value.ofInt,
      Numeral.legible_ofInt]
  have isText : IsObjectText text named := by
    refine ⟨members, ?_, ?_⟩
    · have escaped : Text.toString? [.char 'n', .char 'o', .char 't', .unit 0x65] = some "note" := by
        decide
      simp [Value.Named, members, named, escaped]
    · have same : text.toList = (Value.object members).compact := by decide +kernel
      rw [same]
      exact legible.spelled
  have fits : fault.Fits := ⟨trivial, by decide, by decide, by decide⟩
  have turned : (named.filter fun member => member.1 ∈ Fault.names) =
      fault.fields.drop 2 ++ fault.fields.take 2 := by
    simp [named, Fault.names, Fault.fields, fault, Codec.encode]
  have known : (named.filter fun member => member.1 ∈ Fault.names).Perm fault.fields := by
    rw [turned]
    exact List.perm_append_comm.trans (.of_eq (List.take_append_drop 2 fault.fields))
  have unknown : (named.filter fun member => member.1 ∈ Settings.names).Perm
      (Settings.fields none none) := by
    simp [named, Settings.names, Settings.fields]
  rcases records_read_in_any_spelling with ⟨-, faults, -, others⟩
  exact ⟨(faults fault fits).object text named isText known,
    (others text named isText).1 none none unknown⟩

/-- Half of a surrogate pair is not the name of a field, but beside a member with that
name settings are not read. -/
theorem Json.settings_unread_beside_half_surrogate :
    let extra : Text × Value := ([.unit 0xD800], .null)
    let text :=
      "\x7b\"\\ud800\":null,\"strict\":true,\"marker_requires_top_level\":true\x7d"
    (∃ members, Value.Named members (Settings.fields (some true) (some true)) ∧
      (Value.object (extra :: members)).Spelled text.toList) ∧
    (∀ name ∈ Settings.names, extra.1.toString? ≠ some name) ∧
    (read? text : Option Settings) = none := by
  intro extra text
  let members : List (Text × Value) :=
    [ (Text.ofString "strict", .bool true),
      (Text.ofString "marker_requires_top_level", .bool true) ]
  have legible : (Value.object (extra :: members)).Legible := by
    simp [Value.Legible, members, extra, Value.tokens, Value.memberTokens, Token.Legible,
      Piece.Legible, Text.ofString]
  have spelled : (Value.object (extra :: members)).Spelled text.toList := by
    have same : text.toList = (Value.object (extra :: members)).compact := by decide +kernel
    rw [same]
    exact legible.spelled
  have nameless : extra.1.toString? = none := rfl
  have named := Value.named_ofString (Settings.fields (some true) (some true))
  refine ⟨⟨members, named, spelled⟩, ?_, ?_⟩
  · intro name _
    rw [nameless]
    exact (Option.some_ne_none name).symm
  · exact read?_of_nameless (fun _ => rfl) spelled ⟨extra, List.mem_cons_self, nameless⟩

end GrammarTidy

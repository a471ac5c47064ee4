import GrammarTidy.Json.Schema
import GrammarTidy.Proofs.Records
import GrammarTidy.Proofs.ValueText

/-! Reading and writing the JSON forms of modes, settings and faults. Many texts
are read as one value; what is written of it is one of them. -/

namespace GrammarTidy

namespace Json.Value

/-! ## Variants -/

theorem variant?_record (name : String) (body : Value) :
    (record [(name, body)]).variant? = some (name, some body) := by
  simp [record, variant?]

/-! ## Integers -/

theorem int?_ofInt {least bound number : Int} (above : least ≤ number) (below : number < bound) :
    (ofInt number).int? least bound = some number := by
  simp [ofInt, int?, above, below]

theorem bounds_of_int? {value : Value} {least bound number : Int}
    (found : value.int? least bound = some number) : least ≤ number ∧ number < bound := by
  unfold int? at found
  split at found
  · simpa using (Option.filter_eq_some_iff.mp found).2
  · cases found

theorem lt_of_unsigned? {value : Value} {number : Nat} (found : value.unsigned? = some number) :
    number < 0x10000000000000000 := by
  rcases Option.map_eq_some_iff.mp found with ⟨integer, inRange, rfl⟩
  have bounds := bounds_of_int? inRange
  omega

theorem unsigned?_ofInt {number : Nat} (small : number < 0x10000000000000000) :
    (ofInt number).unsigned? = some number := by
  have below : (number : Int) < 0x10000000000000000 := by omega
  rw [unsigned?, int?_ofInt (Int.natCast_nonneg number) below]
  rfl

end Json.Value

open Json (Codec Value read? write)

/-! ## Values that have a JSON form -/

def Fault.Kind.Fits : Fault.Kind → Prop
  | .unclosedBlock depth => -0x8000000000000000 ≤ depth ∧ depth < 0x8000000000000000
  | .strayClose | .unclosedComment => True

/-- A fault whose numbers are integers of 64 bits. -/
structure Fault.Fits (fault : Fault) : Prop where
  kind : fault.kind.Fits
  offset : fault.location.offset < 0x10000000000000000
  line : fault.location.line < 0x10000000000000000
  column : fault.location.column < 0x10000000000000000

/-- Writing and reading undo each other on the values that fit. Only such values
are read, and what is written of one is its one form that writing gives again. -/
structure Json.RoundTrips (α : Type) [Codec α] (Fits : α → Prop) : Prop where
  read_write : ∀ value : α, Fits value → read? (write value) = some value
  write_read : ∀ (text : String) (value : α), read? text = some value →
    Fits value ∧ read? (write value) = some value ∧
      (read? (write value) : Option α).map write = some (write value)

theorem Json.read?_write {α : Type} [Codec α] {value : α}
    (legible : (Codec.encode value).Legible)
    (decodes : Codec.decode? (Codec.encode value) = some value) :
    read? (write value) = some value := by
  rw [read?, write, String.toList_ofList, Value.parse?_of_spelled legible.spelled]
  exact decodes

theorem Json.roundTrips_of_codec {α : Type} [Codec α] {Fits : α → Prop}
    (legible : ∀ value : α, (Codec.encode value).Legible)
    (decodes : ∀ value : α, Fits value → Codec.decode? (Codec.encode value) = some value)
    (fits : ∀ (form : Value) (value : α), Codec.decode? form = some value → Fits value) :
    RoundTrips α Fits where
  read_write value fitting := read?_write (legible value) (decodes value fitting)
  write_read text value found := by
    rcases Option.bind_eq_some_iff.mp found with ⟨form, -, decoded⟩
    have fitting := fits form value decoded
    have again := read?_write (legible value) (decodes value fitting)
    exact ⟨fitting, again, by rw [again]; rfl⟩

/-! ## Modes and settings -/

namespace Mode

theorem legible_encode (mode : Mode) : (Codec.encode mode).Legible := by
  apply Value.legible_ofString
  cases mode <;> decide

theorem decode?_encode (mode : Mode) : Codec.decode? (Codec.encode mode) = some mode := by
  cases mode <;> rfl

end Mode

namespace Settings

theorem legible_encode (settings : Settings) : (Codec.encode settings).Legible := by
  apply Value.legible_record
  · simp only [List.forall_mem_cons]
    decide
  · simp [Value.legible_bool]

def names : List String := ["strict", "marker_requires_top_level"]

def fields (strict topLevelMarker : Option Bool) : List (String × Value) :=
  (strict.map fun value => ("strict", Value.bool value)).toList ++
    (topLevelMarker.map fun value => ("marker_requires_top_level", Value.bool value)).toList

private theorem decode?_of_fields? {form : Value} {strict topLevelMarker : Option Bool}
    (found : form.fields? names = some [strict.map .bool, topLevelMarker.map .bool]) :
    Codec.decode? form = some
      ({ strict := strict.getD false, topLevelMarker := topLevelMarker.getD false } : Settings) := by
  change (form.fields? names >>= _) = _
  rw [found]
  cases strict <;> cases topLevelMarker <;> rfl

/-- Settings are read from their fields in any order, whatever comes with them. -/
theorem decode?_of_perm {members : List (Json.Text × Value)} {named : List (String × Value)}
    {strict topLevelMarker : Option Bool} (isNamed : Value.Named members named)
    (known : (named.filter fun member => member.1 ∈ names).Perm (fields strict topLevelMarker)) :
    Codec.decode? (.object members) = some
      ({ strict := strict.getD false, topLevelMarker := topLevelMarker.getD false } : Settings) := by
  have distinct : ((fields strict topLevelMarker).map Prod.fst).Nodup := by
    cases strict <;> cases topLevelMarker <;> simp [fields]
  have held : (names.map fun name => (fields strict topLevelMarker).lookup name) =
      [strict.map .bool, topLevelMarker.map .bool] := by
    cases strict <;> cases topLevelMarker <;> simp [fields, names, List.lookup_cons]
  apply decode?_of_fields?
  rw [Value.fields?_of_perm isNamed distinct known, held]

theorem decode?_encode (settings : Settings) :
    Codec.decode? (Codec.encode settings) = some settings := by
  let all := fields (some settings.strict) (some settings.topLevelMarker)
  have known : (all.filter fun member => member.1 ∈ names).Perm all := by
    simp [all, names, fields]
  exact decode?_of_perm (Value.named_ofString all) known

end Settings

/-! ## Faults -/

namespace Fault.Kind

theorem legible_encode (kind : Kind) : (Codec.encode kind).Legible := by
  cases kind with
  | strayClose => exact Value.legible_ofString (by decide)
  | unclosedComment => exact Value.legible_ofString (by decide)
  | unclosedBlock depth =>
      have body : (Value.record [("depth", Value.ofInt depth)]).Legible := by
        apply Value.legible_record
        · simp only [List.forall_mem_singleton]
          decide
        · simp [Value.legible_ofInt]
      apply Value.legible_record
      · simp only [List.forall_mem_singleton]
        decide
      · simpa using body

theorem decode?_encode {kind : Kind} (fits : kind.Fits) :
    Codec.decode? (Codec.encode kind) = some kind := by
  cases kind with
  | strayClose => rfl
  | unclosedComment => rfl
  | unclosedBlock depth =>
      have fields : Value.fields? ["depth"] (Value.record [("depth", Value.ofInt depth)]) =
          some [some (Value.ofInt depth)] := by
        rw [Value.fields?_record (by simp) (by simp)]
        simp
      have signed : (Value.ofInt depth).signed? = some depth := Value.int?_ofInt fits.1 fits.2
      have variant : Value.variant? (Codec.encode (unclosedBlock depth)) =
          some ("UnclosedBlock", some (Value.record [("depth", Value.ofInt depth)])) :=
        Value.variant?_record _ _
      change (Value.variant? (Codec.encode (unclosedBlock depth)) >>= _) = _
      rw [variant]
      simp [fields, signed]

theorem fits_of_decode? {form : Value} {kind : Kind}
    (decoded : Codec.decode? form = some kind) : kind.Fits := by
  cases kind with
  | strayClose => trivial
  | unclosedComment => trivial
  | unclosedBlock depth =>
      rcases Option.bind_eq_some_iff.mp decoded with ⟨⟨name, body⟩, -, inner⟩
      dsimp only at inner
      split at inner
      · rcases Option.bind_eq_some_iff.mp inner with ⟨record, -, found⟩
        rcases Option.bind_eq_some_iff.mp found with ⟨fields, -, held⟩
        split at held
        · rcases Option.bind_eq_some_iff.mp held with ⟨number, signed, same⟩
          cases same
          exact Value.bounds_of_int? signed
        · cases held
      · split at inner
        · cases inner
        · split at inner
          · cases inner
          · split at inner <;> cases inner

end Fault.Kind

namespace Fault

theorem legible_encode (fault : Fault) : (Codec.encode fault).Legible := by
  apply Value.legible_record
  · simp only [List.forall_mem_cons]
    decide
  · simp [Value.legible_ofInt, Kind.legible_encode]

def names : List String := ["kind", "offset", "line", "column"]

def fields (fault : Fault) : List (String × Value) :=
  [ ("kind", Codec.encode fault.kind),
    ("offset", Value.ofInt fault.location.offset),
    ("line", Value.ofInt fault.location.line),
    ("column", Value.ofInt fault.location.column) ]

theorem decode?_of_fields? {fault : Fault} (fits : fault.Fits) {form : Value}
    (found : form.fields? names = some (fault.fields.map fun field => some field.2)) :
    Codec.decode? form = some fault := by
  change (form.fields? names >>= _) = _
  rw [found]
  simp [fields, Kind.decode?_encode fits.kind, Value.unsigned?_ofInt fits.offset,
    Value.unsigned?_ofInt fits.line, Value.unsigned?_ofInt fits.column]

theorem decode?_of_perm {fault : Fault} (fits : fault.Fits) {members : List (Json.Text × Value)}
    {named : List (String × Value)} (isNamed : Value.Named members named)
    (known : (named.filter fun member => member.1 ∈ names).Perm fault.fields) :
    Codec.decode? (.object members) = some fault := by
  have distinct : (fault.fields.map Prod.fst).Nodup := by simp [fields]
  have held : (names.map fun name => fault.fields.lookup name) =
      fault.fields.map fun field => some field.2 := by
    simp [fields, names, List.lookup_cons]
  apply decode?_of_fields? fits
  rw [Value.fields?_of_perm isNamed distinct known, held]

theorem decode?_encode {fault : Fault} (fits : fault.Fits) :
    Codec.decode? (Codec.encode fault) = some fault :=
  decode?_of_perm fits (Value.named_ofString fault.fields) (by simp [names, fields])

theorem fits_of_decode? {form : Value} {fault : Fault}
    (decoded : Codec.decode? form = some fault) : fault.Fits := by
  rcases Option.bind_eq_some_iff.mp decoded with ⟨fields, -, held⟩
  split at held
  · simp only [bind, Option.bind_eq_some_iff, pure, Option.some.injEq] at held
    rcases held with ⟨kind, kindFound, offset, offsetFound, line, lineFound, column,
      columnFound, rfl⟩
    exact
      { kind := Kind.fits_of_decode? kindFound
        offset := Value.lt_of_unsigned? offsetFound
        line := Value.lt_of_unsigned? lineFound
        column := Value.lt_of_unsigned? columnFound }
  · cases held

end Fault

/-- Modes, settings, kinds of faults and faults are read back from what is written of
them. Whatever text a value is read from, what is written of it is read as the same
value, and written the same again. Depths have 64 bits with a sign, and offsets,
lines and columns 64 bits without. -/
theorem Json.codecs_roundTrip :
    RoundTrips Mode (fun _ => True) ∧ RoundTrips Settings (fun _ => True) ∧
      RoundTrips Fault.Kind Fault.Kind.Fits ∧ RoundTrips Fault Fault.Fits := by
  refine ⟨?modes, ?settings, ?kinds, ?faults⟩
  case modes =>
    exact roundTrips_of_codec Mode.legible_encode (fun mode _ => mode.decode?_encode)
      fun _ _ _ => trivial
  case settings =>
    exact roundTrips_of_codec Settings.legible_encode
      (fun settings _ => settings.decode?_encode) fun _ _ _ => trivial
  case kinds =>
    exact roundTrips_of_codec Fault.Kind.legible_encode (fun _ => Fault.Kind.decode?_encode)
      fun _ _ => Fault.Kind.fits_of_decode?
  case faults =>
    exact roundTrips_of_codec Fault.legible_encode (fun _ => Fault.decode?_encode)
      fun _ _ => Fault.fits_of_decode?

/-- The least depth and the greatest offset, from a text with arrays in the place of
objects and with blanks. -/
theorem Json.codecs_roundTrip_at_bounds :
    let fault : Fault :=
      { kind := .unclosedBlock (-0x8000000000000000)
        location := { offset := 0xFFFFFFFFFFFFFFFF, line := 1, column := 0 } }
    let text :=
      "[\x7b\"UnclosedBlock\": [-9223372036854775808]\x7d, 18446744073709551615, 1, 0]"
    fault.Fits ∧ read? text = some fault ∧ read? (write fault) = some fault ∧
      (read? (write fault) : Option Fault).map write = some (write fault) := by
  intro fault text
  have fits : fault.Fits := ⟨⟨by decide, by decide⟩, by decide, by decide, by decide⟩
  have found : read? text = some fault := by decide +kernel
  have roundTrip := codecs_roundTrip.2.2.2
  exact ⟨fits, found, roundTrip.read_write fault fits,
    (roundTrip.write_read text fault found).2.2⟩

end GrammarTidy

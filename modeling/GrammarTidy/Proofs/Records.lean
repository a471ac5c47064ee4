import GrammarTidy.Json.Codec
import Mathlib.Data.List.Nodup
import Mathlib.Data.List.Forall2

/-! What a record holds in its fields. In an object the fields may come in any order and
with others among them; what counts is which of its names are asked for. -/

namespace GrammarTidy.Json.Value

variable {members : List (Text × Value)} {named held : List (String × Value)}
  {names : List String} {name : String}

/-! ## Members and their names -/

/-- The members of an object, by the names that their texts stand for. -/
def Named (members : List (Text × Value)) (named : List (String × Value)) : Prop :=
  List.Forall₂ (fun member field => member.1.toString? = some field.1 ∧ member.2 = field.2)
    members named

private theorem named?_of_named (isNamed : Named members named) : named? members = some named := by
  unfold named?
  induction isNamed with
  | nil => rfl
  | cons first rest induction =>
      rename_i member field _ _
      have found : member.1.toString?.map (fun text => (text, member.2)) = some field := by
        rw [first.1, first.2]
        rfl
      rw [List.mapM_cons, induction]
      exact congrArg (fun each => each >>= _) found

private theorem mapM_eq_none {α β : Type} {part? : α → Option β} {list : List α} {element : α}
    (member : element ∈ list) (absent : part? element = none) : list.mapM part? = none := by
  induction list with
  | nil => cases member
  | cons first rest induction =>
      rw [List.mapM_cons]
      rcases List.mem_cons.mp member with rfl | later
      · rw [absent]
        rfl
      · rw [induction later]
        cases part? first <;> rfl

theorem named?_of_nameless (nameless : ∃ member ∈ members, member.1.toString? = none) :
    named? members = none := by
  rcases nameless with ⟨member, among, absent⟩
  apply mapM_eq_none among
  exact Option.map_eq_none_iff.mpr absent

theorem named_ofString (fields : List (String × Value)) :
    Named (fields.map fun (name, value) => (Text.ofString name, value)) fields := by
  rw [Named, List.forall₂_map_left_iff, List.forall₂_same]
  exact fun field _ => ⟨Text.toString?_ofString field.1, rfl⟩

/-! ## Single fields -/

private theorem filter_name (distinct : (held.map Prod.fst).Nodup) (name : String) :
    (held.filter fun field => field.1 = name) =
      (held.lookup name).toList.map fun value => (name, value) := by
  induction held with
  | nil => rfl
  | cons field rest induction =>
      rcases field with ⟨first, value⟩
      rw [List.map_cons, List.nodup_cons] at distinct
      rw [List.lookup_cons]
      by_cases same : first = name
      · subst same
        have absent : (rest.filter fun field => field.1 = first) = [] := by
          rw [List.filter_eq_nil_iff]
          intro other member equal
          exact distinct.1 (List.mem_map.mpr ⟨other, member, of_decide_eq_true equal⟩)
        rw [List.filter_cons_of_pos (by simp), absent, beq_self_eq_true]
        rfl
      · have different : (name == first) = false := beq_eq_false_iff_ne.mpr (Ne.symm same)
        rw [List.filter_cons_of_neg (by simpa using same), induction distinct.2, different]

private theorem filter_known (known : name ∈ names) :
    ((named.filter fun member => member.1 ∈ names).filter fun member => member.1 = name) =
      named.filter fun member => member.1 = name := by
  rw [List.filter_filter]
  apply List.filter_congr
  intro member _
  by_cases same : member.1 = name
  · simp [same, known]
  · simp [same]

theorem field?_of_perm (distinct : (held.map Prod.fst).Nodup)
    (known : (named.filter fun member => member.1 ∈ names).Perm held) (asked : name ∈ names) :
    field? named name = some (held.lookup name) := by
  have chosen := known.filter fun field => decide (field.1 = name)
  rw [filter_known asked, filter_name distinct] at chosen
  unfold field?
  cases found : held.lookup name with
  | none =>
      rw [found] at chosen
      rw [chosen.eq_nil]
  | some value =>
      rw [found] at chosen
      rw [List.perm_singleton.mp chosen]

theorem field?_of_repeated (repeated : 2 ≤ (named.map Prod.fst).count name) :
    field? named name = none := by
  have long : 2 ≤ (named.filter fun member => member.1 = name).length := by
    rw [List.count_eq_countP, List.countP_map, List.countP_eq_length_filter] at repeated
    exact repeated
  unfold field?
  split
  · next none =>
      rw [none] at long
      cases long
  · next one =>
      rw [one] at long
      cases long
      contradiction
  · rfl

private theorem mem_of_field? {value : Value} (found : field? named name = some (some value)) :
    name ∈ named.map Prod.fst := by
  unfold field? at found
  split at found
  · cases found
  · next first held one =>
      have member : (first, held) ∈ named.filter fun member => member.1 = name := by
        rw [one]
        exact List.mem_cons_self
      rw [List.mem_filter] at member
      exact List.mem_map.mpr ⟨_, member.1, of_decide_eq_true member.2⟩
  · cases found

/-! ## All fields -/

theorem fields?_object (isNamed : Named members named) :
    fields? names (.object members) = names.mapM (field? named) := by
  rw [fields?, named?_of_named isNamed]
  rfl

theorem fields?_of_perm (isNamed : Named members named) (distinct : (held.map Prod.fst).Nodup)
    (known : (named.filter fun member => member.1 ∈ names).Perm held) :
    fields? names (.object members) = some (names.map fun name => held.lookup name) := by
  have each : ∀ asked ⊆ names, asked.mapM (field? named) =
      some (asked.map fun name => held.lookup name) := by
    intro asked
    induction asked with
    | nil => exact fun _ => rfl
    | cons name rest induction =>
        intro within
        rw [List.cons_subset] at within
        rw [List.mapM_cons, field?_of_perm distinct known within.1, induction within.2]
        rfl
  rw [fields?_object isNamed]
  exact each names (List.Subset.refl names)

theorem fields?_record (distinct : (held.map Prod.fst).Nodup)
    (known : ∀ field ∈ held, field.1 ∈ names) :
    fields? names (record held) = some (names.map fun name => held.lookup name) := by
  have all : (held.filter fun field => field.1 ∈ names) = held :=
    List.filter_eq_self.mpr fun field member => decide_eq_true (known field member)
  exact fields?_of_perm (named_ofString held) distinct (.of_eq all)

theorem fields?_of_nameless (nameless : ∃ member ∈ members, member.1.toString? = none) :
    fields? names (.object members) = none := by
  rw [fields?, named?_of_nameless nameless]
  rfl

theorem fields?_of_repeated (isNamed : Named members named) (asked : name ∈ names)
    (repeated : 2 ≤ (named.map Prod.fst).count name) :
    fields? names (.object members) = none := by
  rw [fields?_object isNamed]
  exact mapM_eq_none asked (field?_of_repeated repeated)

theorem mem_of_fields? {fields : List (Option Value)} (isNamed : Named members named)
    (found : fields? names (.object members) = some fields) (full : none ∉ fields)
    (asked : name ∈ names) : name ∈ named.map Prod.fst := by
  rw [fields?_object isNamed] at found
  induction names generalizing fields with
  | nil => cases asked
  | cons first rest induction =>
      rw [List.mapM_cons] at found
      rcases Option.bind_eq_some_iff.mp found with ⟨held, here, others⟩
      rcases Option.bind_eq_some_iff.mp others with ⟨later, there, same⟩
      cases same
      rw [List.mem_cons, not_or] at full
      rcases List.mem_cons.mp asked with rfl | among
      · cases held with
        | none => exact absurd rfl full.1
        | some value => exact mem_of_field? here
      · exact induction there full.2 among

end GrammarTidy.Json.Value

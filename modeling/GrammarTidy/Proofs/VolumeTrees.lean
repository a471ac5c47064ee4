import GrammarTidy.Machine.Volume

/-! Volumes that hold nothing but files and folders, each in a folder. A file that
is put where a path leads changes nothing else in such a volume. -/

namespace GrammarTidy.Machine.Volume

open Command (SystemError)

/-- Everything listed is a file or a folder and stands in folders only, and so does
the current folder. -/
structure IsTree (volume : Volume) : Prop where
  plain : ∀ entry ∈ volume.nodes, ∀ device, entry.2 ≠ .device device
  parents : ∀ entry ∈ volume.nodes, ∀ folder, folder <+: entry.1 → folder ≠ entry.1 →
    volume.node? folder = some .folder
  current : ∀ folder, folder <+: volume.current → volume.node? folder = some .folder

variable {volume : Volume} {names other folder : Names} {node : Node}

private theorem exists_of_bind {ε α β : Type} {first : Except ε α} {next : α → Except ε β}
    {value : β}
    (ok : first >>= next = .ok value) : ∃ middle, first = .ok middle ∧ next middle = .ok value := by
  cases first with
  | error cause => cases ok
  | ok middle => exact ⟨middle, rfl, ok⟩

private theorem mem_of_lookup (found : volume.nodes.lookup names = some node) :
    (names, node) ∈ volume.nodes := by
  rcases List.lookup_eq_some_iff.mp found with ⟨before, after, split, -⟩
  rw [split]
  exact List.mem_append_right before List.mem_cons_self

theorem node?_eq_some_iff :
    volume.node? names = some node ↔
      volume.nodes.lookup names = some node ∨
        volume.nodes.lookup names = none ∧ node = .folder ∧
          (names = [] ∨ ∃ entry ∈ volume.nodes, names <+: entry.1) := by
  unfold node?
  cases volume.nodes.lookup names with
  | some other => simp
  | none =>
      simp only [List.isEmpty_iff, Bool.or_eq_true, List.any_eq_true, List.isPrefixOf_iff_prefix,
        Option.ite_none_right_eq_some, Option.some.injEq, reduceCtorEq, false_or, true_and]
      rw [and_comm, eq_comm]

private theorem lookup_filter (different : other ≠ names) (nodes : List (Names × Node)) :
    (nodes.filter (·.1 != names)).lookup other = nodes.lookup other := by
  induction nodes with
  | nil => rfl
  | cons entry rest induction =>
      by_cases same : entry.1 = names
      · have skipped : (other == entry.1) = false := by simp [same, different]
        rw [List.filter_cons_of_neg (by simp [same]), induction, List.lookup_cons, skipped]
      · rw [List.filter_cons_of_pos (by simp [same]), List.lookup_cons, List.lookup_cons, induction]

theorem lookup_set (different : other ≠ names) :
    (volume.set names node).nodes.lookup other = volume.nodes.lookup other := by
  have passed : (other == names) = false := by simp [different]
  change ((names, node) :: volume.nodes.filter (·.1 != names)).lookup other = _
  rw [List.lookup_cons, passed]
  exact lookup_filter different _

@[simp] theorem current_append (volume : Volume) (names : Names) (bytes : Bytes) :
    (volume.append names bytes).current = volume.current := by
  unfold append
  split <;> rfl

@[simp] theorem node?_set_self (volume : Volume) (names : Names) (node : Node) :
    (volume.set names node).node? names = some node := by
  rw [node?_eq_some_iff]
  exact .inl List.lookup_cons_self

/-- Something that is put in a place changes nothing but this place, if there is
something already wherever the names pass. -/
theorem node?_set_of_ne (different : other ≠ names)
    (passes : other <+: names → (volume.node? other).isSome) :
    (volume.set names node).node? other = volume.node? other := by
  apply Option.ext
  intro found
  rw [node?_eq_some_iff, node?_eq_some_iff, lookup_set different]
  apply or_congr_right
  apply and_congr_right
  intro unlisted
  apply and_congr_right
  intro isFolder
  constructor
  · intro reached
    rcases reached with root | ⟨entry, member, way⟩
    · exact .inl root
    · rcases List.mem_cons.mp member with rfl | kept
      · rcases Option.isSome_iff_exists.mp (passes way) with ⟨there, stands⟩
        rcases node?_eq_some_iff.mp stands with listed | ⟨-, -, reached⟩
        · cases unlisted.symm.trans listed
        · exact reached
      · exact .inr ⟨entry, (List.mem_filter.mp kept).1, way⟩
  · intro reached
    rcases reached with root | ⟨entry, member, way⟩
    · exact .inl root
    · by_cases same : entry.1 = names
      · exact .inr ⟨(names, node), List.mem_cons_self, same ▸ way⟩
      · refine .inr ⟨entry, List.mem_cons_of_mem _ (List.mem_filter.mpr ⟨member, ?_⟩), way⟩
        simp [same]

private theorem isSome_node?_of_lookup (listed : volume.nodes.lookup names = some node)
    (way : other <+: names) : (volume.node? other).isSome := by
  rw [Option.isSome_iff_exists]
  cases found : volume.nodes.lookup other with
  | some there => exact ⟨there, node?_eq_some_iff.mpr (.inl found)⟩
  | none =>
      refine ⟨.folder, node?_eq_some_iff.mpr (.inr ⟨found, rfl, .inr ?_⟩)⟩
      exact ⟨(names, node), mem_of_lookup listed, way⟩

theorem node?_append {contents : Bytes} (file : volume.node? names = some (.file contents))
    (bytes : Bytes) :
    (volume.append names bytes).node? names = some (.file (contents ++ bytes)) ∧
      ∀ other, other ≠ names → (volume.append names bytes).node? other = volume.node? other := by
  have listed : volume.nodes.lookup names = some (.file contents) := by
    rcases node?_eq_some_iff.mp file with listed | ⟨-, absurd, -⟩
    · exact listed
    · cases absurd
  rw [append, file]
  apply And.intro (node?_set_self volume names _)
  intro other different
  exact node?_set_of_ne different (isSome_node?_of_lookup listed)

theorem node?_of_look {name : String} {found : Option Node}
    (looked : volume.look folder name = .ok found) : volume.node? (folder ++ [name]) = found := by
  unfold look at looked
  split at looked
  · cases looked
  · exact Except.ok.inj looked

theorem look_of_node? {later : Volume} {name : String} {found : Option Node}
    (looked : volume.look folder name = .ok found)
    (stands : later.node? (folder ++ [name]) = some node) :
    later.look folder name = .ok (some node) := by
  unfold look at looked ⊢
  split at looked
  · cases looked
  · rename_i short
    rw [if_neg short, stands]

theorem walk_cons_cases {step : String} {rest : List String} {here there : Names}
    (walked : volume.walk here (step :: rest) = .ok there) :
    step = "." ∧ volume.walk here rest = .ok there ∨
      step ≠ "." ∧ step = ".." ∧ volume.walk here.dropLast rest = .ok there ∨
      step ≠ "." ∧ step ≠ ".." ∧ volume.look here step = .ok (some .folder) ∧
        volume.walk (here ++ [step]) rest = .ok there := by
  rw [walk] at walked
  by_cases stays : step = "."
  · rw [if_pos stays] at walked
    exact .inl ⟨stays, walked⟩
  · rw [if_neg stays] at walked
    by_cases climbs : step = ".."
    · rw [if_pos climbs] at walked
      exact .inr (.inl ⟨stays, climbs, walked⟩)
    · rw [if_neg climbs] at walked
      cases looked : volume.look here step with
      | error cause =>
          rw [looked] at walked
          cases walked
      | ok found =>
          rw [looked] at walked
          match found, walked with
          | some .folder, walked => exact .inr (.inr ⟨stays, climbs, rfl, walked⟩)

/-! ## Paths after a change -/

section Kept

variable {later : Volume} (kept : ∀ folder, volume.node? folder = some .folder →
  later.node? folder = some .folder)
include kept

private theorem walk_of_kept {steps : List String} {here there : Names}
    (walked : volume.walk here steps = .ok there) : later.walk here steps = .ok there := by
  induction steps generalizing here with
  | nil => exact walked
  | cons step rest induction =>
      rw [walk]
      rcases walk_cons_cases walked with
        ⟨stays, walked⟩ | ⟨moves, climbs, walked⟩ | ⟨moves, descends, looked, walked⟩
      · rw [if_pos stays]
        exact induction walked
      · rw [if_neg moves, if_pos climbs]
        exact induction walked
      · rw [if_neg moves, if_neg descends, look_of_node? looked (kept _ (node?_of_look looked))]
        exact induction walked

private theorem target_of_kept (current : later.current = volume.current) {path : Path}
    {target : Target}
    (found : volume.target path = .ok target) : later.target path = .ok target := by
  unfold Volume.target at found ⊢
  split at found
  · cases found
  · rename_i short
    rw [if_neg short]
    split at found
    · exact found
    · rcases exists_of_bind found with ⟨parent, walked, ended⟩
      rw [current]
      dsimp only
      rw [walk_of_kept kept walked]
      exact ended

theorem find_of_placed (current : later.current = volume.current) {path : Path}
    (placed : volume.place path = .ok names) {contents : Bytes}
    (file : later.node? names = some (.file contents)) :
    later.find path = .ok (.file contents) := by
  rcases exists_of_bind placed with ⟨target, found, ended⟩
  rw [find, target_of_kept kept current found]
  cases target with
  | folder => cases ended
  | place folder name =>
      dsimp only at ended
      split at ended
      · cases ended
      · rename_i plain
        rcases exists_of_bind ended with ⟨there, looked, taken⟩
        split at taken
        · cases taken
        · cases taken
          change (later.look folder name >>= _) = _
          rw [look_of_node? looked file]
          dsimp only [bind, Except.bind]
          rw [if_neg plain]
          rfl

end Kept

namespace IsTree

theorem not_device (tree : volume.IsTree) (device : Device) :
    volume.node? names ≠ some (.device device) := by
  intro stands
  rcases node?_eq_some_iff.mp stands with listed | ⟨-, absurd, -⟩
  · exact tree.plain _ (mem_of_lookup listed) device rfl
  · cases absurd

theorem node?_of_prefix (tree : volume.IsTree) (stands : (volume.node? names).isSome)
    (way : folder <+: names) (above : folder ≠ names) : volume.node? folder = some .folder := by
  rcases Option.isSome_iff_exists.mp stands with ⟨node, found⟩
  rcases node?_eq_some_iff.mp found with listed | ⟨-, -, rfl | ⟨entry, member, further⟩⟩
  · exact tree.parents _ (mem_of_lookup listed) folder way above
  · exact absurd (List.prefix_nil.mp way) above
  · apply tree.parents entry member folder (way.trans further)
    intro same
    apply above
    exact way.eq_of_length_le (same ▸ further.length_le)

theorem root (tree : volume.IsTree) : volume.node? [] = some .folder :=
  tree.current [] List.nil_prefix

theorem node?_walk (tree : volume.IsTree) {steps : List String} {here there : Names}
    (start : volume.node? here = some .folder) (walked : volume.walk here steps = .ok there) :
    volume.node? there = some .folder := by
  induction steps generalizing here with
  | nil =>
      cases walked
      exact start
  | cons step rest induction =>
      rcases walk_cons_cases walked with ⟨-, walked⟩ | ⟨-, -, walked⟩ | ⟨-, -, looked, walked⟩
      · exact induction start walked
      · apply induction _ walked
        by_cases top : here.dropLast = here
        · rw [top]
          exact start
        · exact tree.node?_of_prefix (by simp [start]) here.dropLast_prefix top
      · exact induction (node?_of_look looked) walked

theorem node?_target (tree : volume.IsTree) {path : Path} {name : String}
    (found : volume.target path = .ok (.place folder name)) :
    volume.node? folder = some .folder := by
  unfold target at found
  split at found
  · cases found
  · split at found
    · split at found <;> cases found
    · rcases exists_of_bind found with ⟨parent, walked, ended⟩
      split at ended
      · cases ended
      · cases ended
        apply tree.node?_walk _ walked
        split
        · exact tree.root
        · exact tree.current _ List.prefix_rfl

theorem find_ne_device (tree : volume.IsTree) (path : Path) (device : Device) :
    volume.find path ≠ .ok (.device device) := by
  intro found
  rcases exists_of_bind found with ⟨target, -, ended⟩
  cases target with
  | folder => cases ended
  | place folder name =>
      rcases exists_of_bind ended with ⟨there, looked, taken⟩
      split at taken
      · cases taken
      · cases taken
      · split at taken
        · cases taken
        · cases taken
          exact tree.not_device device (node?_of_look looked)

theorem exists_folder (tree : volume.IsTree) {path : Path}
    (placed : volume.place path = .ok names) :
    volume.node? names ≠ some .folder ∧
      ∃ folder name, names = folder ++ [name] ∧ volume.node? folder = some .folder := by
  rcases exists_of_bind placed with ⟨target, found, ended⟩
  cases target with
  | folder => cases ended
  | place folder name =>
      dsimp only at ended
      split at ended
      · cases ended
      · rcases exists_of_bind ended with ⟨there, looked, taken⟩
        split at taken
        · cases taken
        · rename_i notFolder
          cases taken
          refine ⟨?_, folder, name, rfl, tree.node?_target found⟩
          rw [node?_of_look looked]
          exact notFolder

theorem node?_set_of_place (tree : volume.IsTree) {path : Path}
    (placed : volume.place path = .ok names) (different : other ≠ names) (node : Node) :
    (volume.set names node).node? other = volume.node? other := by
  rcases tree.exists_folder placed with ⟨-, folder, name, rfl, isFolder⟩
  apply node?_set_of_ne different
  intro way
  rcases List.prefix_concat_iff.mp way with same | above
  · exact absurd same different
  · by_cases same : other = folder
    · rw [same, isFolder]
      rfl
    · rw [tree.node?_of_prefix (by simp [isFolder]) above same]
      rfl

end IsTree

def ofFiles (files : List (String × Bytes)) : Volume where
  nodes := files.map fun file => ([file.1], .file file.2)

private theorem node?_ofFiles_root (files : List (String × Bytes)) :
    (ofFiles files).node? [] = some .folder := by
  rw [node?_eq_some_iff]
  refine .inr ⟨?_, rfl, .inl rfl⟩
  rw [List.lookup_eq_none_iff]
  intro entry member
  rcases List.mem_map.mp member with ⟨file, -, rfl⟩
  rfl

theorem isTree_ofFiles (files : List (String × Bytes)) : (ofFiles files).IsTree where
  plain := by
    intro entry member device
    rcases List.mem_map.mp member with ⟨file, -, rfl⟩
    exact nofun
  parents := by
    intro entry member folder way above
    rcases List.mem_map.mp member with ⟨file, -, rfl⟩
    rcases List.prefix_concat_iff.mp (show folder <+: [] ++ [file.1] from way) with same | root
    · exact absurd same above
    · rw [List.prefix_nil.mp root]
      exact node?_ofFiles_root files
  current := by
    intro folder way
    rw [List.prefix_nil.mp way]
    exact node?_ofFiles_root files

end GrammarTidy.Machine.Volume

import Linkage.FileSystem.Writing
import Linkage.Proofs.ClassUnits
import Linkage.Proofs.FilePaths
import Linkage.Proofs.Ordering
import Mathlib.Data.List.Nodup

/-!
# Trees of files

A tree is `Proper` if the entries of each directory have names of their own that a path can lead
along. Then the files in it are what its names lead to, each of them listed once: `mem_files` and
`nodup_files`. The files found below a root come in the order of their names, each of them once:
`withExtensions_directory`. What is written into a proper tree leaves it proper: `write_proper` and
`makeDirectories_proper`.
-/

namespace Linkage

namespace FileTree

inductive Proper : FileTree → Prop
  | file {content : ByteArray} : Proper (.file content)
  | directory {entries : List (String × FileTree)}
      (named : ∀ entry ∈ entries, Path.IsName entry.1) (distinct : (entries.map Prod.fst).Nodup)
      (each : ∀ entry ∈ entries, Proper entry.2) : Proper (.directory entries)

variable {tree found : FileTree} {entries : List (String × FileTree)} {name : String}
  {names : List String} {content : ByteArray}

theorem lookup_eq_some (distinct : (entries.map Prod.fst).Nodup) :
    entries.lookup name = some tree ↔ (name, tree) ∈ entries := by
  induction entries with
  | nil => simp
  | cons entry entries ih =>
    rw [List.map_cons, List.nodup_cons] at distinct
    rw [List.lookup_cons, List.mem_cons]
    by_cases same : name = entry.1
    · have absent : (name, tree) ∉ entries := fun member =>
        distinct.1 (List.mem_map.mpr ⟨_, member, same⟩)
      obtain ⟨name', tree'⟩ := entry
      subst same
      simp [absent, eq_comm]
    · have other : (name, tree) ≠ entry := fun equal => same (congrArg Prod.fst equal)
      rw [beq_false_of_ne same, ih distinct.2]
      simp [other]

theorem under?_proper (proper : tree.Proper) (leads : tree.under? names = some found) :
    found.Proper ∧ ∀ name ∈ names, Path.IsName name := by
  induction names generalizing tree with
  | nil =>
    cases leads
    exact ⟨proper, by simp⟩
  | cons name names ih =>
    cases proper with
    | file => cases leads
    | directory named distinct each =>
      obtain ⟨inner, looked, leads⟩ := Option.bind_eq_some_iff.mp leads
      have member := (lookup_eq_some distinct).mp looked
      obtain ⟨proper, others⟩ := ih (each _ member) leads
      exact ⟨proper, List.forall_mem_cons.mpr ⟨named _ member, others⟩⟩

theorem ne_nil_of_under? (leads : (directory entries).under? names = some (.file content)) :
    names ≠ [] := by
  rintro rfl
  cases leads

theorem filesOf_eq : filesOf entries = entries.flatMap filesIn := by
  induction entries with
  | nil => rfl
  | cons entry entries ih => rw [filesOf, ih, List.flatMap_cons]

theorem mem_filesIn {entry : String × FileTree} {file : List String × ByteArray} :
    file ∈ filesIn entry ↔
      ∃ below, (below, file.2) ∈ entry.2.files ∧ entry.1 :: below = file.1 := by
  obtain ⟨name, tree⟩ := entry
  obtain ⟨names, content⟩ := file
  rw [filesIn, List.mem_map]
  constructor
  · rintro ⟨⟨below, content⟩, member, ⟨⟩⟩
    exact ⟨below, member, rfl⟩
  · rintro ⟨below, member, rfl⟩
    exact ⟨_, member, rfl⟩

theorem mem_files (proper : tree.Proper) :
    (names, content) ∈ tree.files ↔ tree.under? names = some (.file content) := by
  induction proper generalizing names with
  | file =>
    cases names with
    | nil => simp [files, under?, eq_comm]
    | cons name names => simp [files, under?]
  | directory named distinct _ ih =>
    rw [files, filesOf_eq, List.mem_flatMap]
    simp only [mem_filesIn]
    cases names with
    | nil => simp [under?]
    | cons name names =>
      rw [under?, Option.bind_eq_some_iff]
      constructor
      · rintro ⟨entry, member, _, inside, ⟨⟩⟩
        exact ⟨entry.2, (lookup_eq_some distinct).mpr member, (ih entry member).mp inside⟩
      · rintro ⟨inner, looked, leads⟩
        have member := (lookup_eq_some distinct).mp looked
        exact ⟨_, member, names, (ih _ member).mpr leads, rfl⟩

theorem names_filesIn {entry : String × FileTree} :
    (filesIn entry).map Prod.fst = (entry.2.files.map Prod.fst).map (entry.1 :: ·) := by
  obtain ⟨name, tree⟩ := entry
  rw [filesIn, List.map_map, List.map_map]
  rfl

theorem nodup_files (proper : tree.Proper) : (tree.files.map Prod.fst).Nodup := by
  induction proper with
  | file => simp [files]
  | directory _ distinct _ ih =>
    rw [files, filesOf_eq, List.map_flatMap, List.nodup_flatMap]
    constructor
    · intro entry member
      rw [names_filesIn]
      exact (ih entry member).map fun _ _ same => (List.cons.inj same).2
    -- Files below different entries differ in the first of their names.
    · refine (List.pairwise_map.mp distinct).imp fun {entry entry'} apart => ?_
      intro names member member'
      simp only [names_filesIn] at member member'
      obtain ⟨below, -, rfl⟩ := List.mem_map.mp member
      obtain ⟨below', -, same⟩ := List.mem_map.mp member'
      exact apart (List.cons.inj same).1.symm

end FileTree

namespace FileSystem

variable {disk : FileSystem} {root : Path} {tree : FileTree}

theorem find_eq_ok : disk.find root = .ok tree ↔ root.text ≠ "" ∧
    ∃ place, root.pieces.foldlM disk.follow (disk.start root) = .ok place ∧
      disk.root.under? place = some tree := by
  unfold find
  constructor
  · intro located
    obtain ⟨filled, located⟩ := check_eq_ok.mp located
    obtain ⟨place, followed, located⟩ := bind_eq_ok.mp located
    refine ⟨by simpa [String.isEmpty_iff] using filled, place, followed, ?_⟩
    cases leads : disk.root.under? place with
    | none =>
      rw [leads] at located
      cases located
    | some found =>
      rw [leads] at located
      cases located
      rfl
  · rintro ⟨filled, place, followed, leads⟩
    refine check_eq_ok.mpr ⟨by simpa [String.isEmpty_iff] using filled, ?_⟩
    refine bind_eq_ok.mpr ⟨place, followed, ?_⟩
    rw [leads]
    rfl

theorem find_name {name : String} {entries : List (String × FileTree)}
    (isName : Path.IsName name) (held : entries.lookup name = some tree) :
    (⟨.directory entries, []⟩ : FileSystem).find ⟨name⟩ = .ok tree := by
  refine find_eq_ok.mpr ⟨isName.ne_empty, [name], ?_, by simp [FileTree.under?, held]⟩
  simp [start, isName.isAbsolute, isName.pieces, follow, FileTree.under?, isName.notIdle,
    isName.notUp, held]

theorem find_proper (proper : disk.root.Proper) (located : disk.find root = .ok tree) :
    tree.Proper := by
  obtain ⟨-, place, -, leads⟩ := find_eq_ok.mp located
  exact (FileTree.under?_proper proper leads).1

/-! ## Files found below a root -/

variable {entries : List (String × FileTree)} {extensions : List String}

def foundAt (root : Path) (file : List String × ByteArray) : Found :=
  ⟨root.below file.1, file.1, file.2⟩

def EndsIn (extensions names : List String) : Prop :=
  ∃ name, names.getLast? = some name ∧ ∃ extension ∈ extensions, Path.HasExtension extension name

def isWanted (root : Path) (extensions : List String) (file : List String × ByteArray) : Bool :=
  (root.below file.1).extension?.any extensions.contains

theorem isWanted_iff {file : List String × ByteArray} (filled : root.text ≠ "")
    (isName : ∀ name ∈ file.1, Path.IsName name) (some : file.1 ≠ [])
    (undotted : ∀ extension ∈ extensions, '.' ∉ extension.toList) :
    isWanted root extensions file = true ↔ EndsIn extensions file.1 := by
  obtain ⟨name, last⟩ : ∃ name, file.1.getLast? = .some name :=
    ⟨_, List.getLast?_eq_some_getLast some⟩
  rw [isWanted, Option.any_eq_true, EndsIn]
  simp only [List.contains_iff_mem, last, Option.some.injEq, exists_eq_left']
  constructor
  · rintro ⟨extension, ending, wanted⟩
    refine ⟨extension, wanted, ?_⟩
    exact (Path.extension?_below filled isName last (undotted _ wanted)).mp ending
  · rintro ⟨extension, wanted, ending⟩
    refine ⟨extension, ?_, wanted⟩
    exact (Path.extension?_below filled isName last (undotted _ wanted)).mpr ending

/-- What is found in a directory are the files in it that have one of some extensions, each of them
once, in the order of the names that lead to them. -/
theorem withExtensions_directory (proper : disk.root.Proper)
    (located : disk.find root = .ok (.directory entries)) (named : root.isStandardInput = false)
    (undotted : ∀ extension ∈ extensions, '.' ∉ extension.toList) :
    ∃ files : List (List String × ByteArray),
      disk.withExtensions root extensions = .ok (files.map (foundAt root)) ∧
      files.Pairwise (·.1 < ·.1) ∧
      ∀ names content, (names, content) ∈ files ↔
        (FileTree.directory entries).under? names = some (.file content) ∧
          EndsIn extensions names := by
  have filled := (find_eq_ok.mp located).1
  have whole := find_proper proper located
  have isName : ∀ file ∈ (FileTree.directory entries).files, ∀ name ∈ file.1, Path.IsName name :=
    fun file member => (FileTree.under?_proper whole ((FileTree.mem_files whole).mp member)).2
  refine ⟨((FileTree.directory entries).files.filter (isWanted root extensions)).mergeSort
    fun a b => !decide (b.1 < a.1), ?_, ?_, ?_⟩
  · have sorted := List.map_mergeSort (f := foundAt root)
      (l := (FileTree.directory entries).files.filter (isWanted root extensions))
      (r := fun a b => !decide (b.1 < a.1)) (s := fun a b => a.path.inOrder b.path)
      fun a member b member' => (Path.inOrder_below filled
        (isName a (List.mem_of_mem_filter member)) (isName b (List.mem_of_mem_filter member'))).symm
    rw [withExtensions, located, sorted]
    simp only [named, Bool.false_eq_true, if_false]
    rw [List.filter_map]
    rfl
  · apply mergeSort_strict
    exact (FileTree.nodup_files whole).sublist (List.filter_sublist.map _)
  · intro names content
    rw [List.mem_mergeSort, List.mem_filter]
    constructor
    · rintro ⟨member, wanted⟩
      have leads := (FileTree.mem_files whole).mp member
      have some := FileTree.ne_nil_of_under? leads
      exact ⟨leads, (isWanted_iff filled (isName _ member) some undotted).mp wanted⟩
    · rintro ⟨leads, ending⟩
      have member := (FileTree.mem_files whole).mpr leads
      have some := FileTree.ne_nil_of_under? leads
      exact ⟨member, (isWanted_iff filled (isName _ member) some undotted).mpr ending⟩

end FileSystem

/-! ## Trees stay proper -/

namespace FileTree

variable {entries : List (String × FileTree)} {entry : String × FileTree} {name : String}
  {tree content : FileTree} {names : List String}

theorem mem_putEntry (member : entry ∈ putEntry name tree entries) :
    entry = (name, tree) ∨ entry ∈ entries := by
  induction entries with
  | nil => exact .inl (List.mem_singleton.mp member)
  | cons first entries ih =>
    rw [putEntry] at member
    split at member
    case isTrue => exact (List.mem_cons.mp member).imp_right (List.mem_cons_of_mem _)
    case isFalse =>
      rcases List.mem_cons.mp member with rfl | later
      · exact .inr List.mem_cons_self
      · exact (ih later).imp_right (List.mem_cons_of_mem _)

theorem putEntry_distinct (distinct : (entries.map Prod.fst).Nodup) :
    ((putEntry name tree entries).map Prod.fst).Nodup := by
  induction entries with
  | nil => simp [putEntry]
  | cons first entries ih =>
    rw [List.map_cons, List.nodup_cons] at distinct
    rw [putEntry]
    split
    case isTrue same => exact List.nodup_cons.mpr ⟨same ▸ distinct.1, distinct.2⟩
    case isFalse other =>
      refine List.nodup_cons.mpr ⟨fun member => ?_, ih distinct.2⟩
      obtain ⟨entry, member, same⟩ := List.mem_map.mp member
      rcases mem_putEntry member with rfl | before
      · exact other same.symm
      · exact distinct.1 (List.mem_map.mpr ⟨entry, before, same⟩)

theorem put_proper (proper : tree.Proper) (inside : content.Proper)
    (isName : ∀ name ∈ names, Path.IsName name) : (put content names tree).Proper := by
  induction names generalizing tree with
  | nil => exact inside
  | cons name names ih =>
    rw [List.forall_mem_cons] at isName
    cases proper with
    | file => exact .file
    | @directory entries named distinct each =>
      have inner : ((entries.lookup name).getD (.directory [])).Proper := by
        cases looked : entries.lookup name with
        | none => exact .directory (by simp) (by simp) (by simp)
        | some tree => exact each _ ((lookup_eq_some distinct).mp looked)
      refine .directory (fun entry member => ?_) (putEntry_distinct distinct)
        fun entry member => ?_
      · rcases mem_putEntry member with rfl | before
        · exact isName.1
        · exact named entry before
      · rcases mem_putEntry member with rfl | before
        · exact ih inner isName.2
        · exact each entry before

end FileTree

namespace FileSystem

variable {disk disk' : FileSystem} {path : Path} {place : List String}

theorem newPlace_isName (proper : disk.root.Proper) (found : disk.newPlace path = .ok place) :
    ∀ name ∈ place, Path.IsName name := by
  unfold newPlace at found
  obtain ⟨-, found⟩ := check_eq_ok.mp found
  split at found
  case h_1 => cases found
  case h_2 last before split =>
    obtain ⟨around, -, found⟩ := bind_eq_ok.mp found
    obtain ⟨plain, found⟩ := check_eq_ok.mp found
    split at found
    case h_1 leads =>
      obtain rfl := pure_eq_ok.mp found
      rw [Bool.or_eq_true, not_or, Bool.not_eq_true, decide_eq_true_eq] at plain
      have piece : last ∈ path.pieces := by
        have left : last ∈ path.pieces.reverse.dropWhile (· = []) := by simp [split]
        exact List.mem_reverse.mp ((List.dropWhile_suffix _).subset left)
      have isName : Path.IsName (String.ofList last) := by
        constructor <;> rw [String.toList_ofList]
        · exact plain.1
        · exact plain.2
        · exact Text.notMem_of_mem_partsAt piece
      intro name member
      rcases List.mem_append.mp member with before | here
      · exact (FileTree.under?_proper proper leads).2 name before
      · exact List.mem_singleton.mp here ▸ isName
    case h_2 => cases found

theorem write_proper {content : ByteArray} (proper : disk.root.Proper)
    (written : disk.write path content = .ok disk') : disk'.root.Proper := by
  unfold write at written
  obtain ⟨place, found, written⟩ := bind_eq_ok.mp written
  split at written
  case h_1 => cases written
  case h_2 =>
    obtain rfl := pure_eq_ok.mp written
    exact FileTree.put_proper proper .file (newPlace_isName proper found)

theorem makeDirectory_proper (proper : disk.root.Proper)
    (made : disk.makeDirectory path = .ok disk') : disk'.root.Proper := by
  unfold makeDirectory at made
  obtain ⟨place, found, made⟩ := bind_eq_ok.mp made
  split at made
  case h_1 => cases made
  case h_2 =>
    obtain rfl := pure_eq_ok.mp made
    exact FileTree.put_proper proper (.directory (by simp) (by simp) (by simp))
      (newPlace_isName proper found)

theorem acceptDirectory_proper {made : Except Obstacle FileSystem} (proper : disk.root.Proper)
    (isProper : ∀ other, made = .ok other → other.root.Proper)
    (accepted : disk.acceptDirectory path made = .ok disk') : disk'.root.Proper := by
  cases made with
  | ok other =>
    cases accepted
    exact isProper disk' rfl
  | error obstacle =>
    rw [acceptDirectory] at accepted
    split at accepted
    case isTrue =>
      cases accepted
      exact proper
    case isFalse => cases accepted

theorem makeChain_proper {paths : List Path} (proper : disk.root.Proper)
    (made : disk.makeChain paths = .ok disk') : disk'.root.Proper := by
  induction paths generalizing disk' with
  | nil => cases made
  | cons path around ih =>
    rw [makeChain] at made
    split at made
    case isTrue =>
      cases made
      exact proper
    case isFalse =>
      split at made
      case h_1 =>
        split at made
        case h_1 disk made' =>
          have proper := ih made'
          exact acceptDirectory_proper proper (fun _ => makeDirectory_proper proper) made
        case h_2 => cases made
      case h_2 => exact acceptDirectory_proper proper (fun _ => makeDirectory_proper proper) made

theorem makeDirectories_proper (proper : disk.root.Proper)
    (made : disk.makeDirectories path = .ok disk') : disk'.root.Proper :=
  makeChain_proper proper made

end FileSystem

end Linkage

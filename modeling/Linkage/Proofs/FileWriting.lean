import Linkage.Proofs.FileTrees

/-!
# What writing leaves alone

The place that a path leads to depends on its parts only: `follow_all` and `newPlace_eq`. What is put
into a tree where there is nothing or a file leaves all else there: directories stay directories, and
files elsewhere keep their content. So a file stays as it is while another place is written to, and
while directories are made: `find_write` and `find_makeDirectories`.
-/

namespace Linkage

/-! ## Putting something into a tree -/

namespace FileTree

variable {tree tree' content : FileTree} {entries : List (String × FileTree)}
  {name other : String} {names place : List String}

theorem lookup_putEntry : (putEntry name tree entries).lookup other =
    if other = name then some tree else entries.lookup other := by
  have elsewhere (key : String) (inner : FileTree) (rest : List (String × FileTree))
      (apart : other ≠ key) : ((key, inner) :: rest).lookup other = rest.lookup other := by
    rw [List.lookup_cons, beq_false_of_ne apart]
  induction entries with
  | nil =>
    by_cases same : other = name
    · simp [putEntry, same]
    · rw [putEntry, elsewhere name tree [] same, if_neg same]
  | cons entry entries ih =>
    obtain ⟨key, inner⟩ := entry
    by_cases same : other = name
    · subst same
      by_cases replaced : key = other
      · simp [putEntry, replaced]
      · rw [putEntry, if_neg replaced, elsewhere key inner _ (Ne.symm replaced), ih,
          if_pos rfl, if_pos rfl]
    · rw [if_neg same] at ih ⊢
      by_cases replaced : key = name
      · subst replaced
        rw [putEntry, if_pos rfl, elsewhere key tree _ same, elsewhere key inner _ same]
      · rw [putEntry, if_neg replaced, List.lookup_cons, ih, List.lookup_cons]

/-- Whether all that names lead to in a tree is still there in another: directories, and files with
their content unless they are at some place. -/
structure KeptIn (place : List String) (tree tree' : FileTree) : Prop where
  directories : ∀ names entries, tree.under? names = some (.directory entries) →
    ∃ entries', tree'.under? names = some (.directory entries')
  files : ∀ names content, tree.under? names = some (.file content) →
    ∃ content', tree'.under? names = some (.file content') ∧ (names ≠ place → content' = content)

/-- Whether something may be put at a place: anything where there is nothing, and a file where there
is another. -/
def MayPut (content : FileTree) (place : List String) (tree : FileTree) : Prop :=
  tree.under? place = none ∨ ∃ old new, tree.under? place = some (.file old) ∧ content = .file new

theorem put_keeps (mayPut : MayPut content place tree) :
    KeptIn place tree (put content place tree) := by
  induction place generalizing tree with
  | nil =>
    rcases mayPut with nothing | ⟨old, new, leads, rfl⟩
    · cases nothing
    · cases leads
      refine ⟨fun names entries leads => ?_, fun names content leads => ?_⟩
      · cases names <;> cases leads
      · cases names with
        | nil => exact ⟨new, rfl, fun elsewhere => absurd rfl elsewhere⟩
        | cons => cases leads
  | cons name place ih =>
    cases tree with
    | file old => exact ⟨fun _ entries leads => ⟨entries, leads⟩,
        fun _ content leads => ⟨content, leads, fun _ => rfl⟩⟩
    | directory entries =>
      have kept (inner : FileTree) (looked : entries.lookup name = some inner) :
          KeptIn place inner
            (put content place ((entries.lookup name).getD (.directory []))) := by
        rw [looked, Option.getD_some]
        apply ih
        simpa only [MayPut, under?, looked, Option.bind_some] using mayPut
      rw [put]
      constructor
      · intro names inside leads
        cases names with
        | nil => exact ⟨_, rfl⟩
        | cons first names =>
          obtain ⟨inner, looked, leads⟩ := Option.bind_eq_some_iff.mp leads
          rw [under?, lookup_putEntry]
          by_cases same : first = name
          · subst same
            rw [if_pos rfl]
            exact (kept inner looked).directories names inside leads
          · rw [if_neg same, looked]
            exact ⟨inside, leads⟩
      · intro names old leads
        cases names with
        | nil => cases leads
        | cons first names =>
          obtain ⟨inner, looked, leads⟩ := Option.bind_eq_some_iff.mp leads
          rw [under?, lookup_putEntry]
          by_cases same : first = name
          · subst same
            rw [if_pos rfl]
            obtain ⟨new, leads, elsewhere⟩ := (kept inner looked).files names old leads
            exact ⟨new, leads, fun apart => elsewhere (apart ∘ congrArg _)⟩
          · rw [if_neg same, looked]
            exact ⟨old, leads, fun _ => rfl⟩

theorem KeptIn.isSome (kept : KeptIn place tree tree') (leads : (tree.under? names).isSome) :
    (tree'.under? names).isSome := by
  obtain ⟨found, leads⟩ := Option.isSome_iff_exists.mp leads
  cases found with
  | file content =>
    obtain ⟨_, leads, -⟩ := kept.files names content leads
    exact Option.isSome_of_eq_some leads
  | directory entries =>
    obtain ⟨_, leads⟩ := kept.directories names entries leads
    exact Option.isSome_of_eq_some leads

theorem under?_concat (leads : tree.under? names = some (.directory entries)) :
    tree.under? (names ++ [name]) = entries.lookup name := by
  induction names generalizing tree with
  | nil =>
    cases leads
    rw [List.nil_append, under?]
    cases entries.lookup name <;> rfl
  | cons first names ih =>
    cases tree with
    | file => cases leads
    | directory others =>
      obtain ⟨inner, looked, leads⟩ := Option.bind_eq_some_iff.mp leads
      rw [List.cons_append, under?, looked]
      exact ih leads

end FileTree

/-! ## Where a path leads -/

namespace Path

def partOf? (piece : List Char) : Option Part :=
  if isIdle piece then none
  else if piece = ['.', '.'] then some .up
  else some (.name (String.ofList piece))

def goTo (place : List String) : Part → List String
  | .root => []
  | .here => place
  | .up => place.dropLast
  | .name name => place ++ [name]

/-- The names that a path leads to from a directory, whether they are there or not. -/
def destination (path : Path) (here : List String) : List String := path.parts.foldl goTo here

theorem parts_eq (path : Path) : ∃ front, path.parts = front ++ path.pieces.filterMap partOf? ∧
    ∀ here, front.foldl goTo here = if path.isAbsolute then [] else here := by
  refine ⟨_, rfl, fun here => ?_⟩
  cases path.isAbsolute with
  | true => rfl
  | false => by_cases dotted : path.pieces.head? = some ['.'] <;> simp [dotted, goTo]

end Path

namespace FileSystem

variable {disk disk' : FileSystem} {path file : Path} {place place' : List String}
  {piece : List Char} {pieces : List (List Char)} {content : ByteArray} {tree : FileTree}

theorem destination_eq (disk : FileSystem) (path : Path) : path.destination disk.here =
    (path.pieces.filterMap Path.partOf?).foldl Path.goTo (disk.start path) := by
  obtain ⟨front, parts, starts⟩ := path.parts_eq
  rw [Path.destination, parts, List.foldl_append, starts]
  rfl

theorem follow_eq_ok : disk.follow place piece = .ok place' ↔
    (∃ entries, disk.root.under? place = some (.directory entries)) ∧
      (∀ name, Path.partOf? piece = some (.name name) →
        (disk.root.under? (place ++ [name])).isSome) ∧
      place' = (Path.partOf? piece).toList.foldl Path.goTo place := by
  unfold follow
  split
  case h_1 entries leads =>
    rw [and_iff_right ⟨entries, leads⟩]
    by_cases idle : Path.isIdle piece
    · have part : Path.partOf? piece = none := if_pos idle
      rw [if_pos idle, part]
      exact ⟨fun | rfl => ⟨nofun, rfl⟩, fun ⟨_, same⟩ => same ▸ rfl⟩
    rw [if_neg idle]
    by_cases up : piece = ['.', '.']
    · have part : Path.partOf? piece = some .up := up ▸ rfl
      rw [if_pos up, part]
      exact ⟨fun | rfl => ⟨nofun, rfl⟩, fun ⟨_, same⟩ => same ▸ rfl⟩
    · have part : Path.partOf? piece = some (.name (String.ofList piece)) := by
        rw [Path.partOf?, if_neg idle, if_neg up]
      rw [if_neg up, part]
      simp only [Option.some.injEq, Path.Part.name.injEq, forall_eq',
        FileTree.under?_concat leads]
      split
      case isTrue present => exact ⟨fun | rfl => ⟨present, rfl⟩, fun ⟨_, same⟩ => same ▸ rfl⟩
      case isFalse absent => exact ⟨nofun, fun ⟨present, _⟩ => absurd present absent⟩
  case h_2 elsewhere =>
    refine ⟨nofun, ?_⟩
    rintro ⟨⟨entries, leads⟩, -⟩
    exact absurd leads (elsewhere entries)

theorem follow_all (followed : pieces.foldlM disk.follow place = .ok place') :
    place' = (pieces.filterMap Path.partOf?).foldl Path.goTo place := by
  induction pieces generalizing place with
  | nil =>
    cases followed
    rfl
  | cons piece pieces ih =>
    rw [List.foldlM_cons] at followed
    obtain ⟨next, first, followed⟩ := bind_eq_ok.mp followed
    obtain ⟨-, -, rfl⟩ := follow_eq_ok.mp first
    rw [ih followed, List.filterMap_cons]
    cases Path.partOf? piece <;> rfl

theorem newPlace_eq (found : disk.newPlace path = .ok place) :
    place = path.destination disk.here := by
  unfold newPlace at found
  obtain ⟨-, found⟩ := check_eq_ok.mp found
  split at found
  case h_1 => cases found
  case h_2 last before left =>
    obtain ⟨around, followed, found⟩ := bind_eq_ok.mp found
    obtain ⟨plain, found⟩ := check_eq_ok.mp found
    split at found
    case h_2 => cases found
    case h_1 =>
      obtain rfl := pure_eq_ok.mp found
      have taken := List.takeWhile_append_dropWhile (p := (· = [])) (l := path.pieces.reverse)
      rw [left] at taken
      have pieces : path.pieces =
          before.reverse ++ last :: (path.pieces.reverse.takeWhile (· = [])).reverse := by
        have reversed := congrArg List.reverse taken
        simp only [List.reverse_append, List.reverse_cons, List.reverse_reverse, List.append_assoc,
          List.singleton_append] at reversed
        exact reversed.symm
      have idle : (path.pieces.reverse.takeWhile (· = [])).reverse.filterMap Path.partOf? = [] := by
        rw [List.filterMap_eq_nil_iff]
        intro piece member
        have empty := List.mem_takeWhile_imp (List.mem_reverse.mp member)
        rw [decide_eq_true_eq.mp empty]
        rfl
      rw [Bool.or_eq_true, not_or, Bool.not_eq_true, decide_eq_true_eq] at plain
      have named : Path.partOf? last = some (.name (String.ofList last)) := by
        simp [Path.partOf?, plain]
      rw [destination_eq, pieces, List.filterMap_append, List.filterMap_cons, idle, named,
        List.foldl_append, ← follow_all followed]
      rfl

/-! ## Files that stay -/

theorem follow_kept {written : List String} {tree : FileTree}
    (kept : disk.root.KeptIn written tree) (followed : disk.follow place piece = .ok place') :
    { disk with root := tree }.follow place piece = .ok place' := by
  obtain ⟨⟨entries, leads⟩, present, ends⟩ := follow_eq_ok.mp followed
  exact follow_eq_ok.mpr ⟨kept.directories place entries leads,
    fun name named => kept.isSome (present name named), ends⟩

theorem find_kept {written : List String} {tree : FileTree}
    (kept : disk.root.KeptIn written tree) (apart : file.destination disk.here ≠ written)
    (located : disk.find file = .ok (.file content)) :
    { disk with root := tree }.find file = .ok (.file content) := by
  obtain ⟨filled, place, followed, leads⟩ := find_eq_ok.mp located
  have follows {pieces : List (List Char)} {start : List String}
      (followed : pieces.foldlM disk.follow start = .ok place) :
      pieces.foldlM { disk with root := tree }.follow start = .ok place := by
    induction pieces generalizing start with
    | nil => exact followed
    | cons piece pieces ih =>
      rw [List.foldlM_cons] at followed ⊢
      obtain ⟨next, first, followed⟩ := bind_eq_ok.mp followed
      exact bind_eq_ok.mpr ⟨next, follow_kept kept first, ih followed⟩
  rw [destination_eq, ← follow_all followed] at apart
  obtain ⟨content', leads, elsewhere⟩ := kept.files place content leads
  rw [elsewhere apart] at leads
  exact find_eq_ok.mpr ⟨filled, place, follows followed, leads⟩

theorem find_write {new : ByteArray} (written : disk.write path new = .ok disk')
    (apart : file.destination disk.here ≠ path.destination disk.here)
    (located : disk.find file = .ok (.file content)) :
    disk'.here = disk.here ∧ disk'.find file = .ok (.file content) := by
  unfold write at written
  obtain ⟨place, found, written⟩ := bind_eq_ok.mp written
  rw [← newPlace_eq found] at apart
  split at written
  case h_1 => cases written
  case h_2 noDirectory =>
    obtain rfl := pure_eq_ok.mp written
    have mayPut : FileTree.MayPut (.file new) place disk.root := by
      cases leads : disk.root.under? place with
      | none => exact .inl leads
      | some there =>
        cases there with
        | file old => exact .inr ⟨old, new, leads, rfl⟩
        | directory entries => exact absurd leads (noDirectory entries)
    exact ⟨rfl, find_kept (FileTree.put_keeps mayPut) apart located⟩

theorem find_makeDirectory (made : disk.makeDirectory path = .ok disk')
    (located : disk.find file = .ok (.file content)) :
    disk'.here = disk.here ∧ disk'.find file = .ok (.file content) := by
  unfold makeDirectory at made
  obtain ⟨place, -, made⟩ := bind_eq_ok.mp made
  split at made
  case h_1 => cases made
  case h_2 free =>
    obtain rfl := pure_eq_ok.mp made
    -- Nothing has been where the directory is put, so the file is somewhere else.
    have apart : file.destination disk.here ≠ place := by
      obtain ⟨-, there, followed, leads⟩ := find_eq_ok.mp located
      rw [destination_eq, ← follow_all followed]
      rintro rfl
      rw [free] at leads
      cases leads
    exact ⟨rfl, find_kept (FileTree.put_keeps (.inl free)) apart located⟩

theorem find_acceptDirectory {made : Except Obstacle FileSystem}
    (stays : ∀ other, made = .ok other →
      other.here = disk.here ∧ other.find file = .ok (.file content))
    (located : disk.find file = .ok (.file content))
    (accepted : disk.acceptDirectory path made = .ok disk') :
    disk'.here = disk.here ∧ disk'.find file = .ok (.file content) := by
  cases made with
  | ok other =>
    cases accepted
    exact stays disk' rfl
  | error obstacle =>
    rw [acceptDirectory] at accepted
    split at accepted
    case isTrue =>
      cases accepted
      exact ⟨rfl, located⟩
    case isFalse => cases accepted

theorem find_makeChain {paths : List Path} (made : disk.makeChain paths = .ok disk')
    (located : disk.find file = .ok (.file content)) :
    disk'.here = disk.here ∧ disk'.find file = .ok (.file content) := by
  induction paths generalizing disk' with
  | nil => cases made
  | cons path around ih =>
    rw [makeChain] at made
    split at made
    case isTrue =>
      cases made
      exact ⟨rfl, located⟩
    case isFalse =>
      split at made
      case h_1 =>
        split at made
        case h_1 between made' =>
          obtain ⟨same, located⟩ := ih made'
          have := find_acceptDirectory (fun _ made => find_makeDirectory made located) located made
          rwa [same] at this
        case h_2 => cases made
      case h_2 =>
        exact find_acceptDirectory (fun _ made => find_makeDirectory made located) located made

theorem find_makeDirectories (made : disk.makeDirectories path = .ok disk')
    (located : disk.find file = .ok (.file content)) :
    disk'.here = disk.here ∧ disk'.find file = .ok (.file content) :=
  find_makeChain made located

end FileSystem

end Linkage

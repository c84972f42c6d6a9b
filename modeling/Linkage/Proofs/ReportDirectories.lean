import Linkage.Command.Execution
import Linkage.Proofs.FileWriting

/-!
# Directories for reports

The directory for the reports on a module is told by the names in the module's path and by the
variant. Only the module at the root has to share it, with a module called `root` below it. Any other
two modules have no report file in common, and an analysis of one leaves the reports on the other as
they are: `reports_apart`.
-/

namespace Linkage

/-! ## Paths below any directory -/

namespace Path

variable {root : Path} {name : String} {names : List String}

theorem parts_below_any (proper : ∀ name ∈ names, IsName name) :
    (root.below names).parts = root.parts ++ names.map .name := by
  by_cases some : root.text = ""
  · obtain rfl : root = ⟨""⟩ := by rw [← some]
    cases names with
    | nil => rfl
    | cons name names =>
      rw [List.forall_mem_cons] at proper
      have joined : (⟨""⟩ : Path).join ⟨name⟩ = ⟨name⟩ := by
        rw [join, if_pos (by simp)]
      rw [below, List.foldl_cons, ← below, joined,
        parts_below proper.1.ne_empty proper.2, parts_name proper.1]
      rfl
  · exact parts_below some proper

theorem below_concat (root : Path) (names : List String) (name : String) :
    (root.below names).join ⟨name⟩ = root.below (names ++ [name]) := by
  rw [below, below, List.foldl_append]
  rfl

theorem destination_below {here : List String} (proper : ∀ name ∈ names, IsName name) :
    (root.below names).destination here = root.destination here ++ names := by
  rw [destination, parts_below_any proper, List.foldl_append, ← destination]
  generalize root.destination here = place
  induction names generalizing place with
  | nil => simp
  | cons name names ih =>
    rw [List.forall_mem_cons] at proper
    rw [List.map_cons, List.foldl_cons, goTo, ih proper.2, List.append_assoc]
    rfl

end Path

/-! ## Modules and their directories -/

/-- Whether a path of a module is made of names that can stand in a path of a file, each of them
behind a colon; the root is a colon alone. -/
def IsModulePath (path : String) : Prop :=
  ∃ names, (∀ name ∈ names, Path.IsName name ∧ ':' ∉ name.toList) ∧
    path = ":" ++ ":".intercalate names

namespace Manifest

variable {m m' : Manifest} {names : List String} {out : Path}

structure WellNamed (m : Manifest) : Prop where
  modulePath : IsModulePath m.modulePath
  variant : Path.IsName m.variant

/-- Whether two modules are one and the same variant, or the variants of this name of the module at
the root and of a module called `root` below it. -/
def SharesDirectory (m m' : Manifest) : Prop :=
  m.variant = m'.variant ∧ (m.modulePath = m'.modulePath ∨
    m.modulePath = ":" ∧ m'.modulePath = ":root" ∨ m.modulePath = ":root" ∧ m'.modulePath = ":")

def directoryNames (names : List String) : List String := if names = [] then ["root"] else names

theorem filter_partsAt (proper : ∀ name ∈ names, Path.IsName name ∧ ':' ∉ name.toList) :
    (Text.partsAt ':' (":" ++ ":".intercalate names).toList).filter (· ≠ []) =
      names.map String.toList := by
  have front : (":" ++ ":".intercalate names).toList =
      [] ++ ':' :: [':'].intercalate (names.map String.toList) := by
    rw [String.toList_append, String.toList_intercalate]
    rfl
  rw [front, Text.partsAt_append]
  cases names with
  | nil => rfl
  | cons name names =>
    have avoid : ∀ part ∈ (name :: names).map String.toList, ':' ∉ part :=
      List.forall_mem_map.mpr fun name listed => (proper name listed).2
    have filled : ∀ part ∈ (name :: names).map String.toList, part ≠ [] :=
      List.forall_mem_map.mpr fun name listed =>
        mt String.toList_eq_nil_iff.mp (proper name listed).1.ne_empty
    rw [Text.partsAt_intercalate avoid (List.cons_ne_nil _ _)]
    have kept : ((name :: names).map String.toList).filter (· ≠ []) =
        (name :: names).map String.toList := by
      rw [List.filter_eq_self]
      intro part listed
      exact decide_eq_true (filled part listed)
    rw [List.filter_append, kept]
    rfl

theorem reportDirectory_eq (proper : ∀ name ∈ names, Path.IsName name ∧ ':' ∉ name.toList)
    (spelled : m.modulePath = ":" ++ ":".intercalate names) :
    m.reportDirectory out = out.below (directoryNames names ++ [m.variant]) := by
  have same : (if (names.map String.toList).isEmpty then ["root"]
      else (names.map String.toList).map String.ofList) = directoryNames names := by
    cases names with
    | nil => rfl
    | cons => simp [directoryNames]
  rw [reportDirectory, spelled, filter_partsAt proper, same]
  rfl

theorem WellNamed.directories (named : m.WellNamed) : ∃ names : List String,
    (∀ name ∈ names, Path.IsName name ∧ ':' ∉ name.toList) ∧
    m.modulePath = ":" ++ ":".intercalate names ∧
    (∀ name ∈ directoryNames names ++ [m.variant], Path.IsName name) ∧
    ∀ out : Path, m.reportDirectory out = out.below (directoryNames names ++ [m.variant]) := by
  obtain ⟨names, proper, spelled⟩ := named.modulePath
  refine ⟨names, proper, spelled, ?_, fun out => reportDirectory_eq proper spelled⟩
  intro name listed
  rcases List.mem_append.mp listed with inside | last
  · rw [directoryNames] at inside
    split at inside
    case isTrue => exact List.mem_singleton.mp inside ▸ (by decide)
    case isFalse => exact (proper name inside).1
  · exact List.mem_singleton.mp last ▸ named.variant

theorem directoryNames_eq {names' : List String}
    (same : directoryNames names = directoryNames names') :
    names = names' ∨ names = [] ∧ names' = ["root"] ∨ names = ["root"] ∧ names' = [] := by
  unfold directoryNames at same
  split at same <;> split at same
  case isTrue.isTrue root root' => exact .inl (root.trans root'.symm)
  case isTrue.isFalse root _ => exact .inr (.inl ⟨root, same.symm⟩)
  case isFalse.isTrue _ root' => exact .inr (.inr ⟨same, root'⟩)
  case isFalse.isFalse => exact .inl same

theorem reportDirectory_congr (shares : m.SharesDirectory m') :
    m.reportDirectory out = m'.reportDirectory out := by
  obtain ⟨variant, same | ⟨path, path'⟩ | ⟨path, path'⟩⟩ := shares
  · rw [reportDirectory, reportDirectory, variant, same]
  all_goals
    rw [reportDirectory, reportDirectory, variant, path, path']
    rfl

theorem sharesDirectory_of_parts (named : m.WellNamed) (named' : m'.WellNamed)
    (same : (m.reportDirectory out).parts = (m'.reportDirectory out).parts) :
    m.SharesDirectory m' := by
  obtain ⟨names, -, spelled, isName, directory⟩ := named.directories
  obtain ⟨names', -, spelled', isName', directory'⟩ := named'.directories
  rw [directory, directory', Path.parts_below_any isName, Path.parts_below_any isName',
    List.append_cancel_left_eq] at same
  have names := List.map_injective_iff.mpr (fun _ _ => Path.Part.name.inj) same
  obtain ⟨front, last⟩ := List.append_inj' names rfl
  refine ⟨List.singleton_inj.mp last, ?_⟩
  rcases directoryNames_eq front with rfl | ⟨rfl, rfl⟩ | ⟨rfl, rfl⟩
  · exact .inl (spelled.trans spelled'.symm)
  · exact .inr (.inl ⟨spelled, spelled'⟩)
  · exact .inr (.inr ⟨spelled, spelled'⟩)

theorem destination_ne (named : m.WellNamed) (named' : m'.WellNamed)
    (apart : ¬ m.SharesDirectory m') {file file' : String} (isName : Path.IsName file)
    (isName' : Path.IsName file') (here : List String) :
    ((m.reportDirectory out).join ⟨file⟩).destination here ≠
      ((m'.reportDirectory out).join ⟨file'⟩).destination here := by
  obtain ⟨names, -, -, proper, directory⟩ := named.directories
  obtain ⟨names', -, -, proper', directory'⟩ := named'.directories
  rw [directory, directory', Path.below_concat, Path.below_concat,
    Path.destination_below (List.forall_mem_append.mpr ⟨proper, by simpa using isName⟩),
    Path.destination_below (List.forall_mem_append.mpr ⟨proper', by simpa using isName'⟩)]
  intro same
  have places := (List.append_inj' (List.append_cancel_left same) rfl).1
  have same : (m.reportDirectory out).parts = (m'.reportDirectory out).parts := by
    rw [directory, directory', places]
  exact apart (sharesDirectory_of_parts named named' same)

end Manifest

/-! ## Jobs that leave files alone -/

/-- The files that are there when a job ends, whether it got through or not. -/
def leftBehind {α : Type} : EStateM.Result Stop Session α → FileSystem
  | .ok _ session | .error _ session => session.disk

namespace Job

variable {α β : Type} {holds : FileSystem → Prop}

/-- Whether what holds of the files before a job holds of those that it leaves behind. -/
def Keeps (holds : FileSystem → Prop) (job : Job α) : Prop :=
  ∀ session, holds session.disk → holds (leftBehind (job session))

theorem keeps_pure (value : α) : Keeps holds (pure value : Job α) := fun _ kept => kept

theorem Keeps.bind {job : Job α} {next : α → Job β} (first : Keeps holds job)
    (others : ∀ value, Keeps holds (next value)) : Keeps holds (job >>= next) := by
  intro session kept
  have kept := first session kept
  change holds (leftBehind (EStateM.bind job next session))
  rw [EStateM.bind]
  cases ended : job session with
  | ok value session' =>
    rw [ended] at kept
    exact others value session' kept
  | error stop session' =>
    rw [ended] at kept
    exact kept

theorem Keeps.forM {items : List β} {job : β → Job Unit}
    (each : ∀ item ∈ items, Keeps holds (job item)) : Keeps holds (items.forM job) := by
  induction items with
  | nil => exact keeps_pure ()
  | cons item items ih =>
    rw [List.forall_mem_cons] at each
    exact each.1.bind fun _ => ih each.2

theorem keeps_print (text : String) : Keeps holds (print text) := fun _ kept => kept

theorem keeps_throw (stop : Stop) : Keeps holds (throw stop : Job α) := fun _ kept => kept

theorem keeps_disk : Keeps holds disk := fun _ kept => kept

theorem keeps_perform (activity : Option Activity) (run : Run α) :
    Keeps holds (perform activity run) := by
  intro session kept
  rw [perform]
  cases run session.events <;> exact kept

theorem keeps_change {activity : Activity} {step : FileSystem → Except Obstacle FileSystem}
    (stepped : ∀ disk disk', holds disk → step disk = .ok disk' → holds disk') :
    Keeps holds (change activity step) := by
  intro session kept
  have ran : change activity step session = change activity (fun _ => step session.disk) session :=
    rfl
  cases ended : step session.disk with
  | ok after =>
    rw [ran, ended]
    exact stepped _ _ kept ended
  | error =>
    rw [ran, ended]
    exact kept

theorem keeps_writeFiles {file directory : Path} {content : ByteArray} {reports : List ReportFile}
    (apart : ∀ report ∈ reports, ∀ here,
      file.destination here ≠ (directory.join ⟨report.name⟩).destination here) :
    Keeps (fun disk => disk.find file = .ok (.file content)) (writeFiles directory reports) := by
  apply Keeps.bind
  · exact keeps_change fun _ _ located made =>
      (FileSystem.find_makeDirectories made located).2
  · intro _
    apply Keeps.forM
    intro report listed
    exact keeps_change fun disk _ located written =>
      (FileSystem.find_write written (apart report listed disk.here) located).2

end Job

theorem ModuleReport.isName_files (report : ModuleReport) :
    ∀ file ∈ report.files, Path.IsName file.name := by
  have names : ∀ name ∈ report.files.map ReportFile.name, Path.IsName name := by
    obtain ⟨_, _, _, _, _, _, _, abi⟩ := report
    cases abi with
    | none =>
      change ∀ name ∈ ["used-symbols.txt", "artifacts-compile.json",
        "artifacts-compile-pretty.json", "artifacts-runtime.json",
        "artifacts-runtime-pretty.json", "misuse.json", "misuse-pretty.json", "misuse.txt"],
        Path.IsName name
      decide
    | some =>
      change ∀ name ∈ ["used-symbols.txt", "artifacts-compile.json",
        "artifacts-compile-pretty.json", "artifacts-runtime.json",
        "artifacts-runtime-pretty.json", "misuse.json", "misuse-pretty.json", "misuse.txt",
        "abi-dump.txt", "abi-reduced.txt", "abi.json"], Path.IsName name
      decide
  exact fun file listed => names _ (List.mem_map_of_mem listed)

theorem ModuleOutcome.isName_files (outcome : ModuleOutcome) :
    ∀ file ∈ outcome.files, Path.IsName file.name := by
  have whole : Path.IsName "outcome.json" := by decide
  cases outcome with
  | analyzed report => exact List.forall_mem_cons.mpr ⟨whole, report.isName_files⟩
  | skipped => exact List.forall_mem_singleton.mpr whole

theorem Job.readManifest_of_load {session : Session} {path : Path} {manifest : Manifest}
    (loaded : Manifest.load session.disk path = .ok manifest) :
    Job.readManifest path session = .ok manifest session := by
  change Job.perform _ (liftM (Manifest.load session.disk path)) session = _
  rw [loaded]
  rfl

theorem Job.keeps_present {holds : FileSystem → Prop} (strict : Bool) (outcome : ModuleOutcome) :
    Job.Keeps holds (Job.present strict outcome) := by
  cases outcome with
  | skipped => exact keeps_print _
  | analyzed report =>
    refine (keeps_print _).bind fun _ => ?_
    split
    · exact keeps_throw _
    · exact keeps_pure _

theorem Command.analyze_keeps {holds : FileSystem → Prop} {config : Config} {session : Session}
    {path out : Path} {strict : Bool} {manifest : Manifest}
    (loaded : Manifest.load session.disk path = .ok manifest)
    (writes : ∀ outcome : ModuleOutcome,
      Job.Keeps holds (Job.writeFiles (manifest.reportDirectory out) outcome.files))
    (kept : holds session.disk) :
    holds (leftBehind ((Command.analyze path out strict).run config session)) := by
  change holds (leftBehind (EStateM.bind (Job.readManifest path) _ session))
  rw [EStateM.bind, Job.readManifest_of_load loaded]
  change holds (leftBehind ((Job.disk >>= _ : Job Unit) session))
  refine Job.keeps_disk.bind (fun _ => ?_) session kept
  refine (Job.keeps_perform _ _).bind fun outcome => (writes outcome).bind fun _ => ?_
  exact (Job.keeps_perform _ _).bind fun _ => Job.keeps_present strict outcome

/-- Well-named modules have the same directory for their reports, as it is written or in its parts,
only if they are the same variant or one is the module at the root and the other a module called
`root` below it. Otherwise an analysis of one leaves all reports on the other as they are, however
the analysis ends. -/
theorem reports_apart {m m' : Manifest} (named : m.WellNamed) (named' : m'.WellNamed) (out : Path) :
    (m.reportDirectory out = m'.reportDirectory out ↔ m.SharesDirectory m') ∧
    ((m.reportDirectory out).parts = (m'.reportDirectory out).parts ↔ m.SharesDirectory m') ∧
    (¬ m.SharesDirectory m' → ∀ config path strict session file content,
      Manifest.load session.disk path = .ok m' → Path.IsName file →
      session.disk.find ((m.reportDirectory out).join ⟨file⟩) = .ok (.file content) →
      (leftBehind ((Command.analyze path out strict).run config session)).find
        ((m.reportDirectory out).join ⟨file⟩) = .ok (.file content)) := by
  refine ⟨⟨fun same => ?_, Manifest.reportDirectory_congr⟩, ⟨?_, fun shares => ?_⟩, ?_⟩
  · exact Manifest.sharesDirectory_of_parts named named' (congrArg Path.parts same)
  · exact Manifest.sharesDirectory_of_parts named named'
  · rw [Manifest.reportDirectory_congr shares]
  · intro apart config path strict session file content loaded isName located
    refine Command.analyze_keeps loaded (fun outcome => Job.keeps_writeFiles ?_) located
    intro report listed here
    exact Manifest.destination_ne named named' apart isName (outcome.isName_files report listed) here

/-! ## Small modules -/

def moduleAt (modulePath : String) : Manifest := { modulePath }

theorem wellNamed_a : (moduleAt ":a").WellNamed := ⟨⟨["a"], by decide, by decide⟩, by decide⟩

theorem wellNamed_root : (moduleAt ":").WellNamed := ⟨⟨[], by decide, by decide⟩, by decide⟩

theorem wellNamed_below : (moduleAt ":root").WellNamed :=
  ⟨⟨["root"], by decide, by decide⟩, by decide⟩

def reported : FileSystem :=
  ⟨.directory [("m.json", .file "\x7b\"module\":\":\"\x7d".toUTF8),
    ("o", .directory [("a", .directory [("main", .directory [("abi.json", .file ⟨#[0]⟩)])])])], []⟩

theorem ok_of_toOption {ε α : Type} {result : Except ε α} {value : α}
    (done : result.toOption = some value) : result = .ok value := by
  cases result with
  | ok other => exact congrArg _ (Option.some.inj done)
  | error fault => cases done

theorem find_reported : reported.find ⟨"o/a/main/abi.json"⟩ = .ok (.file ⟨#[0]⟩) := by
  have followed : (Path.pieces ⟨"o/a/main/abi.json"⟩).foldlM reported.follow
      (reported.start ⟨"o/a/main/abi.json"⟩) = .ok ["o", "a", "main", "abi.json"] := by
    apply ok_of_toOption
    decide +kernel
  exact FileSystem.find_eq_ok.mpr ⟨by decide, _, followed, rfl⟩

theorem load_reported : Manifest.load reported ⟨"m.json"⟩ = .ok (moduleAt ":") := by
  apply ok_of_toOption
  decide +kernel

theorem reports_apart_small :
    (moduleAt ":a").WellNamed ∧ (moduleAt ":").WellNamed ∧
    (moduleAt ":a").reportDirectory ⟨"o"⟩ ≠ (moduleAt ":").reportDirectory ⟨"o"⟩ ∧
    (leftBehind ((Command.analyze ⟨"m.json"⟩ ⟨"o"⟩ true).run {} ⟨reported, "", []⟩)).find
      ⟨"o/a/main/abi.json"⟩ = .ok (.file ⟨#[0]⟩) := by
  have apart : ¬ (moduleAt ":a").SharesDirectory (moduleAt ":") := by
    rintro ⟨-, same | ⟨same, -⟩ | ⟨same, -⟩⟩ <;> exact absurd same (by decide)
  have file : ((moduleAt ":a").reportDirectory ⟨"o"⟩).join ⟨"abi.json"⟩ =
      ⟨"o/a/main/abi.json"⟩ := by
    decide +kernel
  obtain ⟨directories, -, keeps⟩ := reports_apart wellNamed_a wellNamed_root ⟨"o"⟩
  have kept := keeps apart {} ⟨"m.json"⟩ true ⟨reported, "", []⟩ "abi.json" ⟨#[0]⟩ load_reported
    (by decide) (by rw [file, find_reported])
  rw [file] at kept
  exact ⟨wellNamed_a, wellNamed_root, fun same => apart (directories.mp same), kept⟩

/-- The reports on the module at the root take the place of those on a module called `root`. -/
theorem reportDirectory_not_injective :
    (moduleAt ":").WellNamed ∧ (moduleAt ":root").WellNamed ∧
    (moduleAt ":").reportDirectory ⟨"out"⟩ = ⟨"out/root/main"⟩ ∧
    (moduleAt ":root").reportDirectory ⟨"out"⟩ = ⟨"out/root/main"⟩ ∧
    (moduleAt ":").modulePath ≠ (moduleAt ":root").modulePath := by
  exact ⟨wellNamed_root, wellNamed_below, by decide +kernel, by decide +kernel, by decide⟩

end Linkage

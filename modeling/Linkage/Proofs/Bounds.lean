import Linkage.Proofs.Analysis

/-!
# Looser limits change nothing

A limit is only asked whether something is too large, so whatever is read within some limits is
read within looser ones, and with the same result. `Upheld` says so of two computations and
`Sustained` of two runs; what runs are made of upholds it, from reading an archive to
`analyzeModule_of_looser`.
-/

namespace Linkage

instance : LE Limits := ⟨fun limits limits' => limits.archiveBytes ≤ limits'.archiveBytes ∧
  limits.archiveEntries ≤ limits'.archiveEntries ∧ limits.entryBytes ≤ limits'.entryBytes⟩

section Computations

variable {ε ε' α β : Type} {result result' : Except ε α}

def Upheld (result result' : Except ε α) : Prop := ∀ value, result = .ok value → result' = .ok value

theorem Upheld.refl (result : Except ε α) : Upheld result result := fun _ => id

theorem Upheld.bind {next next' : α → Except ε β} (first : Upheld result result')
    (second : ∀ value, Upheld (next value) (next' value)) :
    Upheld (result >>= next) (result' >>= next') := by
  intro final done
  cases result with
  | error fault => cases done
  | ok value =>
    rw [first value rfl]
    exact second value final done

theorem Upheld.mapError {f : ε → ε'} (upheld : Upheld result result') :
    Upheld (result.mapError f) (result'.mapError f) := by
  intro value done
  cases result with
  | error fault => cases done
  | ok other =>
    cases done
    rw [upheld value rfl]
    rfl

theorem Upheld.bounded {bound bound' size : Nat} {fault fault' : ε} (looser : bound ≤ bound')
    (upheld : Upheld result result') :
    Upheld (if bound < size then .error fault else result)
      (if bound' < size then .error fault' else result') := by
  intro value done
  split at done
  · cases done
  · rw [if_neg (by omega)]
    exact upheld value done

theorem Upheld.mapM {f f' : α → Except ε β} (each : ∀ item, Upheld (f item) (f' item))
    (list : List α) : Upheld (list.mapM f) (list.mapM f') := by
  intro results done
  exact mapM_eq_ok.mpr ((mapM_eq_ok.mp done).imp fun item result => each item result)

end Computations

section Runs

variable {ε σ α β : Type} {run run' : EStateM ε σ α}

/-- Whatever a run comes to, another comes to as well, and in the same state. -/
def Sustained (run run' : EStateM ε σ α) : Prop :=
  ∀ state value later, run state = .ok value later → run' state = .ok value later

theorem Sustained.refl (run : EStateM ε σ α) : Sustained run run := fun _ _ _ => id

theorem Sustained.bind {next next' : α → EStateM ε σ β} (first : Sustained run run')
    (second : ∀ value, Sustained (next value) (next' value)) :
    Sustained (run >>= next) (run' >>= next') := by
  intro state final later done
  change EStateM.bind run next state = .ok final later at done
  change EStateM.bind run' next' state = .ok final later
  unfold EStateM.bind at done ⊢
  cases ran : run state with
  | error failure between =>
    rw [ran] at done
    cases done
  | ok value between =>
    rw [ran] at done
    rw [first state value between ran]
    exact second value between final later done

theorem Sustained.mapM {f f' : α → EStateM ε σ β} (each : ∀ item, Sustained (f item) (f' item))
    (list : List α) : Sustained (list.mapM f) (list.mapM f') := by
  induction list with
  | nil => exact .refl _
  | cons first rest ih =>
    rw [List.mapM_cons, List.mapM_cons]
    exact (each first).bind fun _ => ih.bind fun _ => .refl _

theorem Sustained.foldlM {f f' : β → α → EStateM ε σ β}
    (each : ∀ state item, Sustained (f state item) (f' state item)) (list : List α) (start : β) :
    Sustained (list.foldlM f start) (list.foldlM f' start) := by
  induction list generalizing start with
  | nil => exact .refl _
  | cons first rest ih =>
    rw [List.foldlM_cons, List.foldlM_cons]
    exact (each start first).bind fun next => ih next

theorem Sustained.lift {result result' : Except Failure α} (upheld : Upheld result result') :
    Sustained (liftM result : Run α) (liftM result') := by
  intro events value later done
  cases result with
  | error failure => cases done
  | ok other =>
    rw [upheld other rfl]
    exact done

end Runs

variable {limits limits' : Limits}

namespace Archive

theorem ofBytes_of_looser (looser : limits ≤ limits') (data : ByteArray) :
    Upheld (ofBytes limits data) (ofBytes limits' data) := by
  unfold ofBytes
  refine .bounded looser.1 ?_
  refine (Upheld.refl _).bind fun endOffset => (Upheld.refl _).bind fun count =>
    (Upheld.refl _).bind fun size => (Upheld.refl _).bind fun offset => ?_
  dsimp only
  split
  · exact .refl _
  · exact .bounded looser.2.1 (.refl _)

theorem read_of_looser (looser : limits ≤ limits') (archive : Archive) (entry : Entry) :
    Upheld (archive.read limits entry) (archive.read limits' entry) := by
  unfold read
  dsimp only
  split
  · exact .refl _
  · exact .bounded looser.2.2 (.refl _)

end Archive

/-! ## Class units -/

variable {disk : FileSystem} {path : Path}

theorem boundedContent_of_looser (looser : limits ≤ limits') (content : ByteArray) :
    Upheld (boundedContent limits path content) (boundedContent limits' path content) :=
  .bounded looser.2.2 (.refl _)

def ClassUnit.UpheldBy (unit unit' : ClassUnit) : Prop :=
  unit.origin = unit'.origin ∧ Upheld unit.content unit'.content

theorem ClassUnit.upheldBy_map {α : Type} {unit unit' : α → ClassUnit}
    (each : ∀ item, (unit item).UpheldBy (unit' item)) (list : List α) :
    List.Forall₂ ClassUnit.UpheldBy (list.map unit) (list.map unit') := by
  rw [List.forall₂_map_left_iff, List.forall₂_map_right_iff, List.forall₂_same]
  exact fun item _ => each item

theorem classUnits_of_looser (looser : limits ≤ limits') {units : List ClassUnit}
    (given : classUnits disk limits path = .ok units) :
    ∃ units', classUnits disk limits' path = .ok units' ∧
      List.Forall₂ ClassUnit.UpheldBy units units' := by
  -- What there is to read at a path does not depend on the limits, only what can be read of it.
  unfold classUnits at given ⊢
  generalize UnitSource.at? disk path = source at given ⊢
  cases source with
  | none => cases given
  | some source =>
    cases source with
    | classFile =>
      cases given
      refine ⟨_, rfl, .cons ⟨rfl, ?_⟩ .nil⟩
      exact (Upheld.refl (disk.read path)).bind fun content =>
        boundedContent_of_looser looser content
    | archive =>
      obtain ⟨data, opened, given⟩ := bind_eq_ok.mp given
      cases read : Archive.ofBytes limits data with
      | error fault =>
        rw [read] at given
        cases given
      | ok archive =>
        rw [read] at given
        cases given
        simp only [opened, bind, Except.bind, Archive.ofBytes_of_looser looser data _ read]
        refine ⟨_, rfl, ?_⟩
        apply ClassUnit.upheldBy_map
        intro entry
        exact ⟨rfl, (Archive.read_of_looser looser archive entry).mapError⟩
    | directory =>
      obtain ⟨found, opened, given⟩ := bind_eq_ok.mp given
      cases given
      simp only [opened, bind, Except.bind]
      refine ⟨_, rfl, ?_⟩
      apply ClassUnit.upheldBy_map
      intro file
      exact ⟨rfl, boundedContent_of_looser looser file.content⟩

section Folds

variable {σ : Type} {step : σ → ClassFile → Except Fault σ}

theorem ClassUnit.UpheldBy.fold {unit unit' : ClassUnit} (upheld : unit.UpheldBy unit')
    (state : σ) : Upheld (unit.fold path step state) (unit'.fold path step state) := by
  unfold ClassUnit.fold ClassUnit.decode
  rw [← upheld.1]
  exact (upheld.2.bind fun _ => .refl _).bind fun _ => .refl _

theorem foldlM_of_upheldBy {units units' : List ClassUnit}
    (upheld : List.Forall₂ ClassUnit.UpheldBy units units') (start : σ) :
    Upheld (units.foldlM (ClassUnit.fold path step) start)
      (units'.foldlM (ClassUnit.fold path step) start) := by
  induction upheld generalizing start with
  | nil => exact .refl _
  | cons first _ ih =>
    rw [List.foldlM_cons, List.foldlM_cons]
    exact (first.fold start).bind ih

theorem foldUnits_of_looser (looser : limits ≤ limits') (start : σ) :
    Upheld (foldUnits disk limits path step start) (foldUnits disk limits' path step start) := by
  intro final done
  obtain ⟨units, given, folded⟩ := bind_eq_ok.mp done
  obtain ⟨units', given', upheld⟩ := classUnits_of_looser looser given
  exact bind_eq_ok.mpr ⟨units', given', foldlM_of_upheldBy upheld start final folded⟩

def noteUnits (disk : FileSystem) (path : Path) : Run Unit :=
  match UnitSource.at? disk path with
  | some source => note (.readingUnits path source.name)
  | none => pure ()

theorem foldClasses_eq (start : σ) :
    foldClasses disk limits path step start =
      noteUnits disk path >>= fun _ => liftM (foldUnits disk limits path step start) := by
  rw [← visited_visitClasses]
  unfold foldClasses noteUnits
  cases UnitSource.at? disk path
  all_goals
    dsimp only
    split
    all_goals
      rename_i ran
      change visitClasses disk limits path (foldVisitor step) start = _ at ran
      rw [ran]
      rfl

theorem foldClasses_of_looser (looser : limits ≤ limits') (step : σ → ClassFile → Except Fault σ)
    (start : σ) :
    Sustained (foldClasses disk limits path step start)
      (foldClasses disk limits' path step start) := by
  rw [foldClasses_eq, foldClasses_eq]
  exact (Sustained.refl _).bind fun _ => .lift (foldUnits_of_looser looser start)

end Folds

theorem definedSymbols_of_looser (looser : limits ≤ limits') (path : Path) :
    Sustained (definedSymbols disk limits path) (definedSymbols disk limits' path) :=
  (foldClasses_of_looser looser _ _).bind fun _ => .refl _

theorem scanRoots_of_looser (looser : limits ≤ limits') (scanner : Scan.Scanner)
    (extensions : List String) (roots : List Path) :
    Sustained (Scan.scanRoots disk limits scanner extensions roots)
      (Scan.scanRoots disk limits' scanner extensions roots) := by
  have scan (found : FileSystem.Found) :
      Upheld (Scan.scanFile limits scanner found) (Scan.scanFile limits' scanner found) :=
    .bounded looser.2.2 (.refl _)
  exact (Sustained.refl _).bind fun files => (Sustained.refl _).bind fun _ =>
    (Sustained.lift (.mapM scan files)).bind fun _ => .refl _

variable {config : Config}

theorem usedSymbols_of_looser (looser : config.limits ≤ limits') (sources : UsageSources) :
    Sustained (usedSymbols disk config sources)
      (usedSymbols disk { config with limits := limits' } sources) := by
  have facts : Sustained (OutputFacts.ofOutputs disk config.limits sources.compiledOutputs)
      (OutputFacts.ofOutputs disk limits' sources.compiledOutputs) :=
    .foldlM (fun facts output => foldClasses_of_looser looser _ facts) _ _
  exact facts.bind fun _ => (scanRoots_of_looser looser _ _ _).bind fun _ =>
    (scanRoots_of_looser looser _ _ _).bind fun _ => .refl _

theorem indexClasspath_of_looser (looser : limits ≤ limits') (classpath : List Dependency) :
    Sustained (indexClasspath disk limits classpath) (indexClasspath disk limits' classpath) := by
  have define (dependency : Dependency) : Sustained (definitionOf disk limits dependency)
      (definitionOf disk limits' dependency) :=
    (definedSymbols_of_looser looser dependency.file).bind fun _ => .refl _
  exact (Sustained.mapM define classpath).bind fun _ => .refl _

theorem extractSurface_of_looser (looser : config.limits ≤ limits') (outputs : List Path) :
    Sustained (extractSurface disk config outputs)
      (extractSurface disk { config with limits := limits' } outputs) :=
  (Sustained.foldlM (fun candidates _ => foldClasses_of_looser looser _ candidates) _ _).bind
    fun _ => .refl _

theorem moduleAbi_of_looser (looser : config.limits ≤ limits') (manifest : Manifest)
    (index : Index) :
    Sustained (moduleAbi disk config manifest index)
      (moduleAbi disk { config with limits := limits' } manifest index) := by
  unfold moduleAbi
  split
  · exact ((extractSurface_of_looser looser _).bind fun _ => .refl _).bind fun _ => .refl _
  · exact .refl _

theorem runtimeIndex_of_looser (looser : config.limits ≤ limits') (manifest : Manifest)
    (compile : Index) :
    Sustained (runtimeIndex disk config manifest compile)
      (runtimeIndex disk { config with limits := limits' } manifest compile) := by
  unfold runtimeIndex
  split
  · exact .refl _
  · exact indexClasspath_of_looser looser _

theorem reportModule_of_looser (looser : config.limits ≤ limits') (manifest : Manifest) :
    Sustained (reportModule disk config manifest)
      (reportModule disk { config with limits := limits' } manifest) :=
  (usedSymbols_of_looser looser _).bind fun used =>
    (indexClasspath_of_looser looser _).bind fun compile =>
      (runtimeIndex_of_looser looser manifest compile).bind fun runtime =>
        (Sustained.refl (moduleMisuse config manifest runtime used)).bind fun _ =>
          (moduleAbi_of_looser looser manifest compile).bind fun _ => .refl _

theorem analyzeModule_of_looser (looser : config.limits ≤ limits') (manifest : Manifest) :
    Sustained (analyzeModule disk config manifest)
      (analyzeModule disk { config with limits := limits' } manifest) := by
  unfold analyzeModule
  split
  · exact .refl _
  · exact (reportModule_of_looser looser manifest).bind fun _ => .refl _

/-- Limits only refuse: what comes out within some limits comes out within looser ones as well. -/
theorem limits_only_refuse (config : Config) {limits' : Limits} (looser : config.limits ≤ limits') :
    (∀ disk manifest, Sustained (analyzeModule disk config manifest)
      (analyzeModule disk { config with limits := limits' } manifest)) ∧
    (∀ data, Upheld (Archive.ofBytes config.limits data) (Archive.ofBytes limits' data)) ∧
    (∀ (archive : Archive) entry,
      Upheld (archive.read config.limits entry) (archive.read limits' entry)) ∧
    (∀ disk sources, Sustained (usedSymbols disk config sources)
      (usedSymbols disk { config with limits := limits' } sources)) ∧
    (∀ disk path, Sustained (definedSymbols disk config.limits path)
      (definedSymbols disk limits' path)) ∧
    ∀ disk outputs, Sustained (extractSurface disk config outputs)
      (extractSurface disk { config with limits := limits' } outputs) :=
  ⟨fun _ => analyzeModule_of_looser looser, Archive.ofBytes_of_looser looser,
    Archive.read_of_looser looser, fun _ => usedSymbols_of_looser looser,
    fun _ => definedSymbols_of_looser looser, fun _ => extractSurface_of_looser looser⟩

theorem limits_only_refuse_small :
    ∃ report later,
      analyzeModule (Small.files "o" (Small.classFile 65 76)) {} (Small.app "o") [] =
        .ok (.analyzed report) later ∧
      analyzeModule (Small.files "o" (Small.classFile 65 76))
        { limits := ⟨1024 ^ 4, 1000000, 1024 ^ 3⟩ } (Small.app "o") [] =
          .ok (.analyzed report) later := by
  obtain ⟨report, later, ran⟩ :=
    analyzed_of_analyzable (Small.not_lacksOutput (Small.find_output _)) Small.analyzable_output []
  have looser : Config.limits {} ≤ ⟨1024 ^ 4, 1000000, 1024 ^ 3⟩ :=
    ⟨by decide, by decide, by decide⟩
  exact ⟨report, later, ran, (limits_only_refuse {} looser).1 _ _ [] _ later ran⟩

end Linkage

import Linkage.Proofs.DumpReading
import Mathlib.Algebra.BigOperators.Group.List.Basic
import Mathlib.Algebra.Order.BigOperators.Group.List

/-!
# What a reduced dump keeps of where types come from

A dump writes the name of a source file behind a comment mark, as it is. So what stands behind a line
feed in such a name is on a line of its own, and unless that is a comment again, it is in the reduced
form. Nothing else of where a type comes from gets there: `reduceDump_eq_lasting`.
-/

namespace Linkage

/-! ## Lines with line feeds in them -/

namespace Text

theorem lines_append {line : List Char} (noFeed : '\n' ∉ line) (text : List Char) :
    lines (line ++ '\n' :: text) = lineOfReversed line.reverse :: lines text := by
  rw [lines, linesAfter_append noFeed, List.append_nil]

theorem linesAfter_feed (before front back : List Char) :
    linesAfter before (front ++ '\n' :: back) =
      linesAfter before (front ++ ['\n']) ++ lines back := by
  induction front generalizing before with
  | nil => rfl
  | cons c front ih =>
    by_cases feed : c = '\n'
    · subst feed
      rw [List.cons_append, List.cons_append, linesAfter, linesAfter, ih, List.cons_append]
    · rw [List.cons_append, List.cons_append, linesAfter, linesAfter, ih]
      · exact feed
      · exact feed

theorem lines_ofLines_flatMap (list : List String) :
    lines (ofLines list).toList = list.flatMap fun line => lines (line.toList ++ ['\n']) := by
  rw [toList_ofLines]
  induction list with
  | nil => rfl
  | cons line list ih =>
    rw [List.map_cons, List.flatMap_cons, List.append_assoc, List.singleton_append, lines,
      linesAfter_feed, ih, List.flatMap_cons]
    rfl

theorem mem_lineOfReversed {before : List Char} {c : Char} (member : c ∈ lineOfReversed before) :
    c ∈ before := by
  unfold lineOfReversed at member
  split at member
  · exact .tail _ (List.mem_reverse.mp member)
  · exact List.mem_reverse.mp member

theorem noFeed_linesAfter {before text : List Char} (noFeed : '\n' ∉ before) :
    ∀ line ∈ linesAfter before text, '\n' ∉ line := by
  fun_induction linesAfter before text with
  | case1 before => simp
  | case2 before full => simpa using noFeed
  | case3 before rest ih =>
    exact List.forall_mem_cons.mpr ⟨fun feed => noFeed (mem_lineOfReversed feed), ih nofun⟩
  | case4 before c rest other ih =>
    apply ih
    simpa [noFeed, eq_comm] using other

end Text

def keptWithin (line : String) : List String :=
  ((Text.lines (line.toList ++ ['\n'])).filter fun found => !isComment found).map String.ofList

theorem reduceDump_ofLines_flatMap (list : List String) :
    reduceDump (Text.ofLines list) = Text.ofLines (list.flatMap keptWithin) := by
  rw [reduceDump, Text.lines_ofLines_flatMap, List.filter_flatMap, List.map_flatMap]
  rfl

theorem noFeed_keptWithin {line kept : String} (listed : kept ∈ keptWithin line) :
    '\n' ∉ kept.toList := by
  obtain ⟨found, member, rfl⟩ := List.mem_map.mp listed
  rw [String.toList_ofList]
  exact Text.noFeed_linesAfter List.not_mem_nil found (List.mem_filter.mp member).1

/-! ## Names behind a comment mark -/

def laterLines (text : String) : List (List Char) := (Text.lines (text.toList ++ ['\n'])).tail

/-- Whether a text that is written behind a comment mark is all comment. -/
def StaysComment (text : String) : Prop := ∀ line ∈ laterLines text, isComment line = true

instance : DecidablePred StaysComment := fun text =>
  inferInstanceAs (Decidable (∀ line ∈ laterLines text, isComment line = true))

theorem laterLines_eq_nil {text : String} (noFeed : '\n' ∉ text.toList) : laterLines text = [] := by
  rw [laterLines, Text.lines_append noFeed]
  rfl

theorem staysComment_of_noFeed {text : String} (noFeed : '\n' ∉ text.toList) : StaysComment text := by
  rw [StaysComment, laterLines_eq_nil noFeed]
  exact nofun

def keptBehind (text : String) : List String :=
  ((laterLines text).filter fun line => !isComment line).map String.ofList

theorem keptBehind_eq_nil {text : String} : keptBehind text = [] ↔ StaysComment text := by
  simp [keptBehind, StaysComment]

theorem lines_behind {front : List Char} (noFeed : '\n' ∉ front) (text : String) :
    ∃ rest, Text.lines (front ++ text.toList ++ ['\n']) =
      Text.lineOfReversed (front ++ rest).reverse :: laterLines text := by
  obtain ⟨first, others, cut, noFeed'⟩ :=
    List.eq_append_cons_of_mem (show '\n' ∈ text.toList ++ ['\n'] by simp)
  have together : '\n' ∉ front ++ first := by
    rw [List.mem_append, not_or]
    exact ⟨noFeed, noFeed'⟩
  refine ⟨first, ?_⟩
  rw [List.append_assoc, laterLines, cut, ← List.append_assoc, Text.lines_append together,
    Text.lines_append noFeed', List.tail_cons]

theorem keptWithin_comment {front : String} {rest : List Char}
    (opens : front.toList = '/' :: '/' :: rest) (noFeed : '\n' ∉ front.toList) (text : String) :
    keptWithin (front ++ text) = keptBehind text := by
  obtain ⟨within, lines⟩ := lines_behind noFeed text
  obtain ⟨tail, first⟩ : ∃ tail, Text.lineOfReversed ('/' :: '/' :: (rest ++ within)).reverse =
      '/' :: '/' :: tail :=
    Text.lineOfReversed_append ['/'] (by decide)
  rw [keptWithin, String.toList_append, lines, opens, List.cons_append, List.cons_append, first,
    List.filter_cons_of_neg, keptBehind]
  simp [isComment_slashes]

/-! ## Where types come from -/

variable {type : VisibleType} {surface surface' : Surface}

namespace VisibleType

def strays (type : VisibleType) : List String := type.sourceFile.toList.flatMap keptBehind

def lasting (type : VisibleType) : List String :=
  (type.declarationLines ++ [""]).flatMap keptWithin

def withoutProvenance (type : VisibleType) : VisibleType :=
  { type with sourceFile := none, major := 0, minor := 0 }

theorem strays_eq_nil : type.strays = [] ↔ ∀ name ∈ type.sourceFile, StaysComment name := by
  simp [strays, keptBehind_eq_nil]

theorem keptWithin_commentLines : type.commentLines.flatMap keptWithin = type.strays := by
  have marked : "// source: ".toList = '/' :: '/' :: " source: ".toList := rfl
  have source (name : String) : keptWithin s!"{commentMark} source: {name}" = keptBehind name :=
    keptWithin_comment marked (by decide) name
  have version : keptWithin s!"{commentMark} class version: {type.major}.{type.minor}" = [] := by
    obtain ⟨⟨_, opens⟩, noFeed⟩ := type.versionLine_opens
    have kept := keptWithin_comment opens noFeed ""
    rwa [String.append_empty, keptBehind_eq_nil.mpr (staysComment_of_noFeed (by decide))] at kept
  rw [commentLines, List.flatMap_append, List.flatMap_map, List.flatMap_singleton, version,
    List.append_nil]
  exact List.flatMap_congr fun name _ => source name

theorem keptWithin_dumpLines :
    type.dumpLines.flatMap keptWithin = type.strays ++ type.lasting := by
  rw [dumpLines_eq, List.flatMap_append, keptWithin_commentLines, lasting]

end VisibleType

namespace Surface

def withoutProvenance (surface : Surface) : Surface :=
  ⟨surface.types.map VisibleType.withoutProvenance⟩

def HidesSources (surface : Surface) : Prop :=
  ∀ type ∈ surface.types, ∀ name ∈ type.sourceFile, StaysComment name

def lasting (surface : Surface) : List String := surface.types.flatMap VisibleType.lasting

def strays (surface : Surface) : List (List String) := surface.types.map VisibleType.strays

theorem map_lasting_congr (same : surface.withoutProvenance = surface'.withoutProvenance) :
    surface.types.map VisibleType.lasting = surface'.types.map VisibleType.lasting := by
  have types := congrArg (List.map VisibleType.lasting) (Surface.mk.inj same)
  rw [List.map_map, List.map_map] at types
  exact types

theorem lasting_congr (same : surface.withoutProvenance = surface'.withoutProvenance) :
    surface.lasting = surface'.lasting := by
  rw [lasting, lasting, List.flatMap_def, List.flatMap_def, map_lasting_congr same]

theorem noFeed_lasting {line : String} (listed : line ∈ surface.lasting) : '\n' ∉ line.toList := by
  obtain ⟨type, -, listed⟩ := List.mem_flatMap.mp listed
  obtain ⟨_, -, listed⟩ := List.mem_flatMap.mp listed
  exact noFeed_keptWithin listed

end Surface

theorem reduceDump_eq (surface : Surface) : reduceDump surface.dump =
    Text.ofLines (surface.types.flatMap fun type => type.strays ++ type.lasting) := by
  rw [Surface.dump, reduceDump_ofLines_flatMap, List.flatMap_assoc]
  simp only [VisibleType.keptWithin_dumpLines]

/-- The reduced form shows what is declared only if all on where types come from is comment. -/
theorem reduceDump_eq_lasting :
    reduceDump surface.dump = Text.ofLines surface.lasting ↔ surface.HidesSources := by
  rw [reduceDump_eq]
  constructor
  · intro same
    have noFeed : ∀ line ∈ surface.types.flatMap fun type => type.strays ++ type.lasting,
        '\n' ∉ line.toList := by
      intro line listed
      obtain ⟨type, -, listed⟩ := List.mem_flatMap.mp listed
      rw [← VisibleType.keptWithin_dumpLines] at listed
      obtain ⟨_, -, listed⟩ := List.mem_flatMap.mp listed
      exact noFeed_keptWithin listed
    -- Counting the lines tells that there are none but those on what is declared.
    have lines := Text.ofLines_inj noFeed (fun _ => Surface.noFeed_lasting) same
    have counts := congrArg List.length lines
    rw [Surface.lasting, List.length_flatMap, List.length_flatMap] at counts
    simp only [List.length_append, List.sum_map_add] at counts
    intro type listed
    have none := List.sum_eq_zero_iff.mp (Nat.add_eq_right.mp counts) type.strays.length
      (List.mem_map_of_mem listed)
    exact VisibleType.strays_eq_nil.mp (List.length_eq_zero_iff.mp none)
  · intro hidden
    congr 1
    apply List.flatMap_congr
    intro type listed
    rw [VisibleType.strays_eq_nil.mpr (hidden type listed), List.nil_append]

theorem reduceDump_congr (same : surface.withoutProvenance = surface'.withoutProvenance)
    (strays : surface.strays = surface'.strays) :
    reduceDump surface.dump = reduceDump surface'.dump := by
  have zipped (surface : Surface) : reduceDump surface.dump = Text.ofLines
      (List.zipWith (· ++ ·) surface.strays (surface.types.map VisibleType.lasting)).flatten := by
    rw [reduceDump_eq, Surface.strays, List.zipWith_map, List.zipWith_self, List.flatMap_def]
  rw [zipped, zipped, strays, Surface.map_lasting_congr same]

theorem reduceDump_eq_iff (same : surface.withoutProvenance = surface'.withoutProvenance)
    (hidden : surface.HidesSources) :
    reduceDump surface.dump = reduceDump surface'.dump ↔ surface'.HidesSources := by
  rw [reduceDump_eq_lasting.mpr hidden, Surface.lasting_congr same, eq_comm, reduceDump_eq_lasting]

end Linkage

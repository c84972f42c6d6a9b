import Linkage.Proofs.FilePaths
import Linkage.Proofs.Visibility

/-!
# Excluded packages

A type is excluded with an outer package if the parts of the outer package are the first parts of
its own: `excludes_iff_parts`. It is text that is compared, but no outer package ends inside a part.
-/

namespace Linkage

section Parts

variable {mark : Char} {text outer : List Char}

theorem intercalate_append {parts more : List (List Char)} (some : parts ≠ [])
    (others : more ≠ []) : [mark].intercalate (parts ++ more) =
      [mark].intercalate parts ++ mark :: [mark].intercalate more := by
  induction parts with
  | nil => exact absurd rfl some
  | cons part parts ih =>
    cases parts with
    | nil =>
      rw [List.singleton_append, List.intercalate_cons_of_ne_nil others, List.intercalate_singleton,
        List.append_assoc, List.singleton_append]
    | cons next parts =>
      -- The mark goes between the parts here, so the recursion is on at least two of them.
      rw [List.cons_append, List.cons_append, List.intercalate_cons_cons, ← List.cons_append,
        ih (List.cons_ne_nil _ _), List.intercalate_cons_cons, List.append_assoc (part ++ [mark])]

/-- The parts of a text are the first parts of another exactly if the other begins with it, and goes
on with a mark where it goes on. -/
theorem splitOn_prefix_iff : outer.splitOn mark <+: text.splitOn mark ↔
    text = outer ∨ ∃ rest, text = outer ++ mark :: rest := by
  constructor
  · rintro ⟨more, split⟩
    have joined := congrArg [mark].intercalate split
    rw [List.intercalate_splitOn] at joined
    by_cases others : more = []
    · rw [others, List.append_nil, List.intercalate_splitOn] at joined
      exact .inl joined.symm
    · rw [intercalate_append (List.splitOn_ne_nil _ _) others, List.intercalate_splitOn] at joined
      exact .inr ⟨_, joined.symm⟩
  · rintro (rfl | ⟨rest, rfl⟩)
    · exact List.prefix_refl _
    · rw [List.splitOn_append_cons_self]
      exact List.prefix_append _ _

end Parts

variable {typeName package outer : String}

def partsOf (name : String) : List (List Char) := name.toList.splitOn '.'

theorem partsOf_prefix_iff : partsOf outer <+: partsOf package ↔
    package = outer ∨ ∃ below, package = outer ++ "." ++ below := by
  rw [partsOf, partsOf, splitOn_prefix_iff, String.ext_iff]
  refine or_congr Iff.rfl ⟨?_, ?_⟩
  · rintro ⟨rest, split⟩
    refine ⟨String.ofList rest, String.ext ?_⟩
    simpa using split
  · rintro ⟨below, rfl⟩
    exact ⟨below.toList, by simp⟩

/-- Whether a type, named with dots, is in a package: what is before the last dot of its name, or
nothing if it has none. -/
def IsIn (typeName package : String) : Prop :=
  (∃ simple : String, '.' ∉ simple.toList ∧ typeName = package ++ "." ++ simple) ∨
    '.' ∉ typeName.toList ∧ package = ""

theorem isIn_iff : IsIn typeName package ↔ package = (Symbol.mk typeName).package := by
  unfold Symbol.package IsIn
  constructor
  · rintro (⟨simple, plain, rfl⟩ | ⟨plain, rfl⟩)
    · have cut : Text.cutAtLast? '.' (package ++ "." ++ simple).toList =
          some (package.toList, simple.toList) :=
        Text.cutAtLast?_eq_some.mpr ⟨by simp, plain⟩
      simp only [cut, String.ofList_toList]
    · simp only [Text.cutAtLast?_of_notMem plain]
  · rintro rfl
    split
    case h_1 before after cut =>
      obtain ⟨split, plain⟩ := Text.cutAtLast?_eq_some.mp cut
      refine .inl ⟨String.ofList after, by simpa using plain, String.ext ?_⟩
      simpa using split
    case h_2 uncut => exact .inr ⟨Text.cutAtLast?_eq_none.mp uncut, rfl⟩

theorem IsIn.nested {inner : String} (isIn : IsIn typeName package)
    (undotted : '.' ∉ inner.toList) : IsIn (typeName ++ "$" ++ inner) package := by
  rcases isIn with ⟨simple, plain, rfl⟩ | ⟨plain, rfl⟩
  · refine .inl ⟨simple ++ "$" ++ inner, ?_, ?_⟩
    · simp [plain, undotted]
    · simp only [String.append_assoc]
  · refine .inr ⟨?_, rfl⟩
    simp [plain, undotted]

variable {config : AbiConfig} {other : String}

theorem IsIn.excludes_iff (isIn : IsIn typeName package) : config.excludes typeName = true ↔
    ∃ outer ∈ config.excludePackages, partsOf outer <+: partsOf package := by
  obtain rfl := isIn_iff.mp isIn
  simp only [partsOf_prefix_iff]
  exact Linkage.excludes_iff

theorem IsIn.excludes_congr (isIn : IsIn typeName package) (isIn' : IsIn other package) :
    config.excludes other = config.excludes typeName := by
  rw [Bool.eq_iff_iff, isIn'.excludes_iff, isIn.excludes_iff]

theorem IsIn.excludes_one (isIn : IsIn typeName package) :
    AbiConfig.excludes ⟨[outer]⟩ typeName = true ↔
      package = outer ∨ ∃ below, package = outer ++ "." ++ below := by
  rw [isIn.excludes_iff, ← partsOf_prefix_iff]
  simp

theorem IsIn.excludes_inside_part {c : Char} {rest : List Char} (isIn : IsIn typeName package)
    (split : package.toList = outer.toList ++ c :: rest) (inside : c ≠ '.') :
    AbiConfig.excludes ⟨[outer]⟩ typeName = false := by
  refine Bool.eq_false_iff.mpr fun excluded => ?_
  rcases isIn.excludes_one.mp excluded with rfl | ⟨below, rfl⟩
  · simp at split
  · have next : '.' :: below.toList = c :: rest := by simpa [List.append_assoc] using split
    exact inside (List.cons.inj next).1.symm

theorem IsIn.excludes_mono {config' : AbiConfig} (isIn : IsIn typeName package)
    (more : config.excludePackages ⊆ config'.excludePackages)
    (excluded : config.excludes typeName = true) : config'.excludes typeName = true := by
  obtain ⟨outer, listed, within⟩ := isIn.excludes_iff.mp excluded
  exact isIn.excludes_iff.mpr ⟨outer, more listed, within⟩

/-- A type is excluded exactly if the parts of some excluded package are the first parts of the
package that it is in. So each excluded package stands for itself and for those below it, and not
for others that begin with the same text; to exclude more of them leaves out no fewer types; and the
types of a package, nested or not, are excluded together. -/
theorem excludes_iff_parts (typeName : String) :
    ∃ package, (∀ other, IsIn typeName other ↔ other = package) ∧
      (∀ config : AbiConfig, config.excludes typeName = true ↔
        ∃ outer ∈ config.excludePackages, partsOf outer <+: partsOf package) ∧
      (∀ outer, AbiConfig.excludes ⟨[outer]⟩ typeName = true ↔
        package = outer ∨ ∃ below, package = outer ++ "." ++ below) ∧
      (∀ outer c rest, package.toList = outer.toList ++ c :: rest → c ≠ '.' →
        AbiConfig.excludes ⟨[outer]⟩ typeName = false) ∧
      (∀ config config' : AbiConfig, config.excludePackages ⊆ config'.excludePackages →
        config.excludes typeName = true → config'.excludes typeName = true) ∧
      ∀ config : AbiConfig,
        (∀ other, IsIn other package → config.excludes other = config.excludes typeName) ∧
        ∀ inner : String, '.' ∉ inner.toList →
          config.excludes (typeName ++ "$" ++ inner) = config.excludes typeName := by
  have isIn : IsIn typeName (Symbol.mk typeName).package := isIn_iff.mpr rfl
  refine ⟨_, fun _ => isIn_iff, fun _ => isIn.excludes_iff, fun _ => isIn.excludes_one,
    fun _ _ _ => isIn.excludes_inside_part, fun _ _ => isIn.excludes_mono, fun _ => ⟨?_, ?_⟩⟩
  · exact fun _ => isIn.excludes_congr
  · exact fun _ undotted => isIn.excludes_congr (isIn.nested undotted)

example : AbiConfig.excludes ⟨["com.a.internal"]⟩ "com.a.internal.deep.More$Inner" = true ∧
    AbiConfig.excludes ⟨["com.a.internal"]⟩ "com.a.internalish.Kept" = false := by decide

end Linkage

import Linkage.Proofs.SignatureReading
import Mathlib.Data.Nat.Basic
import Mathlib.Data.String.Basic

/-!
# Signatures, byte by byte

A signature can be read from the bytes of its text, one at a time, as well as from its characters:
the same parts take them, and the same names are found. No byte of a character beyond the ASCII
range is a delimiter, so that no name ends within a character.
-/

namespace Linkage.Signature

/-- The bytes of a text, each as the character with its number. -/
def bytesOf (text : List Char) : List Char :=
  text.flatMap fun c => (String.utf8EncodeChar c).map Char.ofUInt8

/-- Whether a character lies beyond the ASCII range, as do its bytes. -/
def Wide (c : Char) : Prop := 0x80 ≤ c.toNat

instance (c : Char) : Decidable (Wide c) := inferInstanceAs (Decidable (0x80 ≤ c.toNat))

variable {c : Char} {text rest name before : List Char} {part : Part} {after : List Part}
  {found : List String} {reading next : Reading}

/-! ## Characters and their bytes -/

theorem bytesOf_append (text rest : List Char) :
    bytesOf (text ++ rest) = bytesOf text ++ bytesOf rest := List.flatMap_append

theorem bytesOf_cons (c : Char) (text : List Char) :
    bytesOf (c :: text) = bytesOf [c] ++ bytesOf text := bytesOf_append [c] text

theorem length_bytesOf (text : List Char) :
    (bytesOf text).length = (String.ofList text).utf8ByteSize := by
  rw [String.utf8ByteSize_ofList]
  induction text with
  | nil => rfl
  | cons c text ih =>
    rw [bytesOf_cons, List.length_append, ih, String.utf8Len_cons, Nat.add_comm]
    simp [bytesOf, String.length_utf8EncodeChar]

theorem toNat_ofUInt8 (b : UInt8) : (Char.ofUInt8 b).toNat = b.toNat := rfl

theorem bytesOf_narrow (narrow : ¬ Wide c) : bytesOf [c] = [c] := by
  have small : c.val.toNat ≤ 127 := Nat.le_of_lt_succ (not_le.mp narrow)
  have same : Char.ofUInt8 (UInt8.ofNat c.val.toNat) = c := by
    rw [← Char.toNat_inj, toNat_ofUInt8, UInt8.toNat_ofNat_of_lt' (small.trans_lt (by decide))]
    rfl
  unfold bytesOf String.utf8EncodeChar
  rw [List.flatMap_singleton]
  dsimp only
  rw [if_pos small, List.map_singleton, same]

theorem wide_byte {n : Nat} (large : 0x80 ≤ n) (small : n < 256) :
    Wide (Char.ofUInt8 (UInt8.ofNat n)) := by
  rwa [Wide, toNat_ofUInt8, UInt8.toNat_ofNat_of_lt' small]

theorem bytesOf_wide (wide : Wide c) : bytesOf [c] ≠ [] ∧ ∀ b ∈ bytesOf [c], Wide b := by
  have large : ¬ c.val.toNat ≤ 127 := not_le.mpr wide
  have most : c.val.toNat < 0x110000 := c.valid.elim (fun h => by omega) (fun h => by omega)
  unfold bytesOf String.utf8EncodeChar
  rw [List.flatMap_singleton]
  dsimp only
  rw [if_neg large]
  split_ifs
  all_goals
    refine ⟨List.cons_ne_nil _ _, ?_⟩
    simp only [List.map_cons, List.map_nil, List.forall_mem_cons, List.not_mem_nil, false_imp_iff,
      implies_true, and_true]
    and_intros <;> exact wide_byte (by omega) (by omega)

theorem Wide.ne {d : Char} (wide : Wide c) (narrow : ¬ Wide d) : c ≠ d := fun same =>
  narrow (same ▸ wide)

theorem Wide.not_isDelimiter (wide : Wide c) : isDelimiter c = false := by
  simp only [isDelimiter, Bool.or_eq_false_iff, decide_eq_false_iff_not]
  and_intros <;> exact wide.ne (by decide)

theorem Wide.not_letter (wide : Wide c) : BaseType.ofLetter? c = none := by
  refine Option.eq_none_iff_forall_ne_some.mpr fun type letter => ?_
  refine wide.ne ?_ (BaseType.ofLetter?_eq_some_iff.mp letter)
  cases type <;> decide

/-! ## A reading of bytes -/

def backwards (before : List Char) : List Char := (bytesOf before.reverse).reverse

theorem backwards_append (text before : List Char) :
    backwards (text ++ before) = backwards text ++ backwards before := by
  rw [backwards, List.reverse_append, bytesOf_append, List.reverse_append]
  rfl

theorem backwards_cons (narrow : ¬ Wide c) (before : List Char) :
    backwards (c :: before) = c :: backwards before := by
  have alone : backwards [c] = [c] := by
    rw [backwards, List.reverse_singleton, bytesOf_narrow narrow, List.reverse_singleton]
  rw [← List.singleton_append, backwards_append, alone, List.singleton_append]

def nameInBytes (name : String) : String := String.ofList (bytesOf name.toList)

def Part.inBytes : Part → Part
  | .classSegment before => .classSegment (backwards before)
  | .className before => .className (backwards before)
  | .classSuffix name => .classSuffix (backwards name)
  | part => part

def Reading.inBytes (reading : Reading) : Reading :=
  ⟨reading.expected.map Part.inBytes, reading.found.map nameInBytes⟩

open Signature.Reading

theorem nameInBytes_reverse (name : List Char) :
    nameInBytes (String.ofList name.reverse) = String.ofList (backwards name).reverse := by
  rw [nameInBytes, String.toList_ofList, backwards, List.reverse_reverse]

theorem openReference_inBytes (after : List Part) (found : List String) (c : Char) :
    openReference (after.map Part.inBytes) (found.map nameInBytes) c =
      (openReference after found c).map Reading.inBytes := by
  unfold openReference
  split <;> rfl

theorem openType_inBytes (after : List Part) (found : List String) (c : Char) :
    openType (after.map Part.inBytes) (found.map nameInBytes) c =
      (openType after found c).map Reading.inBytes := by
  unfold openType
  split
  · rfl
  · exact openReference_inBytes after found c

theorem openTypeParameter_inBytes (after : List Part) (found : List String) (c : Char) :
    openTypeParameter (after.map Part.inBytes) (found.map nameInBytes) c =
      (openTypeParameter after found c).map Reading.inBytes := by
  unfold openTypeParameter
  split_ifs <;> rfl

theorem openBound_inBytes (after : List Part) (found : List String) (c : Char) :
    openBound (after.map Part.inBytes) (found.map nameInBytes) c =
      (openBound after found c).map Reading.inBytes := by
  unfold openBound
  split_ifs
  · rfl
  · exact openTypeParameter_inBytes after found c

theorem openBody_inBytes (after : List Part) (found : List String) (c : Char) :
    openBody (after.map Part.inBytes) (found.map nameInBytes) c =
      (openBody after found c).map Reading.inBytes := by
  unfold openBody
  split_ifs
  · rfl
  · exact openType_inBytes (.types :: after) found c

theorem inBytes_className (narrow : ¬ Wide c) :
    inBytes ⟨.className (c :: before) :: after, found⟩ =
      ⟨.className (c :: backwards before) :: after.map Part.inBytes, found.map nameInBytes⟩ := by
  rw [← backwards_cons narrow]
  rfl

theorem inBytes_classSegment : inBytes ⟨.classSegment ('$' :: before) :: after, found⟩ =
    ⟨.classSegment ('$' :: backwards before) :: after.map Part.inBytes,
      found.map nameInBytes⟩ := by
  have dollar : ¬ Wide '$' := by decide
  rw [← backwards_cons dollar]
  rfl

theorem inBytes_found : inBytes ⟨after, String.ofList before.reverse :: found⟩ =
    ⟨after.map Part.inBytes,
      String.ofList (backwards before).reverse :: found.map nameInBytes⟩ := by
  rw [← nameInBytes_reverse]
  rfl

theorem step_narrow (narrow : ¬ Wide c) (reading : Reading) :
    reading.inBytes.step c = (reading.step c).map inBytes := by
  obtain ⟨_ | ⟨part, after⟩, found⟩ := reading
  · rfl
  cases part <;> simp only [inBytes, List.map_cons, Part.inBytes, step]
  case whole =>
    split_ifs
    · rfl
    · exact openBody_inBytes after found c
  case body => exact openBody_inBytes after found c
  case types => exact openType_inBytes (.types :: after) found c
  case parameters =>
    split_ifs
    · rfl
    · exact openType_inBytes (.parameters :: after) found c
  case result =>
    split_ifs
    · rfl
    · exact openType_inBytes (.thrown :: after) found c
  case thrown | typeParameterName | «variable» | variableName => split_ifs <;> rfl
  case typeParameters => exact openTypeParameter_inBytes after found c
  case classBound =>
    split_ifs
    · exact openBound_inBytes after found c
    · exact openReference_inBytes (.moreBounds :: after) found c
  case moreBounds => exact openBound_inBytes after found c
  case type => exact openType_inBytes after found c
  case reference => exact openReference_inBytes after found c
  case classSegment before =>
    split_ifs
    · rfl
    · rw [Option.map_some, inBytes_className narrow]
  case className before =>
    split_ifs
    · rw [Option.map_some, inBytes_found]
    · rw [Option.map_some, inBytes_classSegment]
    · rfl
    · rfl
    · rw [Option.map_some, inBytes_className narrow]
  case classSuffix name =>
    split_ifs
    · rw [Option.map_some, inBytes_found]
    · rw [Option.map_some, inBytes_classSegment]
    · rfl
  case typeArguments =>
    split_ifs
    · rfl
    · rfl
    · rfl
    · exact openReference_inBytes (.typeArguments :: after) found c

/-! ### Characters of several bytes -/

/-- What becomes of a part behind some text without delimiters, where a name may begin or go on. -/
def Part.named (text : List Char) : Part → Option Part
  | .typeParameters | .moreBounds | .typeParameterName => some .typeParameterName
  | .classSegment before | .className before => some (.className (text.reverse ++ before))
  | .variable | .variableName => some .variableName
  | _ => none

theorem step_wide (wide : Wide c) : step ⟨part :: after, found⟩ c =
    (part.named [c]).map fun part => ⟨part :: after, found⟩ := by
  have marks : ∀ d ∈ [';', '<', '>', '.', ':', '(', ')', 'V', '^', '*', '+', '-', 'L', 'T', '['],
      c ≠ d := by
    simp only [List.forall_mem_cons]
    and_intros <;> first | exact wide.ne (by decide) | exact List.forall_mem_nil _
  cases part <;> simp_all [step, openBody, openType, openReference, openBound, openTypeParameter,
    wide.not_isDelimiter, wide.not_letter, Part.named]

theorem run_cons (reading : Reading) (c : Char) (rest : List Char) :
    reading.run (c :: rest) = (reading.step c).bind fun next => next.run rest := by
  rw [run]
  cases reading.step c <;> rfl

theorem named_cons (part : Part) (c : Char) (text : List Char) :
    (part.named [c]).bind (Part.named text) = part.named (c :: text) := by
  cases part <;> simp [Part.named]

theorem named_inBytes (part : Part) (c : Char) :
    part.inBytes.named (bytesOf [c]) = (part.named [c]).map Part.inBytes := by
  have name (before : List Char) : (bytesOf [c]).reverse ++ backwards before =
      backwards ([c] ++ before) := (backwards_append [c] before).symm
  cases part <;> simp [Part.named, Part.inBytes, name]

theorem run_wide (some : text ≠ []) (wide : ∀ c ∈ text, Wide c) :
    run ⟨part :: after, found⟩ (text ++ rest) =
      (part.named text).bind fun part => run ⟨part :: after, found⟩ rest := by
  induction text generalizing part with
  | nil => exact absurd rfl some
  | cons c text ih =>
    rw [List.forall_mem_cons] at wide
    rw [List.cons_append, run_cons, step_wide wide.1]
    rcases eq_or_ne text [] with rfl | others
    · cases part.named [c] <;> rfl
    · rw [Option.bind_map, ← named_cons part c text, Option.bind_assoc]
      exact Option.bind_congr fun next _ => ih others wide.2

theorem run_bytes_char (reading : Reading) (c : Char) (rest : List Char) :
    reading.inBytes.run (bytesOf [c] ++ rest) =
      (reading.step c).bind fun next => next.inBytes.run rest := by
  by_cases wide : Wide c
  · obtain ⟨bytes, areWide⟩ := bytesOf_wide wide
    obtain ⟨_ | ⟨part, after⟩, found⟩ := reading
    · obtain ⟨b, others, split⟩ := List.exists_cons_of_ne_nil bytes
      rw [split, List.cons_append, run_cons]
      rfl
    · rw [inBytes, List.map_cons, run_wide bytes areWide, named_inBytes, step_wide wide]
      cases part.named [c] <;> rfl
  · rw [bytesOf_narrow wide, List.singleton_append, run_cons, step_narrow wide]
    cases reading.step c <;> rfl

theorem run_bytes (reading : Reading) (text : List Char) :
    reading.inBytes.run (bytesOf text) = (reading.run text).map inBytes := by
  induction text generalizing reading with
  | nil => rfl
  | cons c text ih =>
    rw [bytesOf_cons, run_bytes_char, run_cons, Option.map_bind]
    exact Option.bind_congr fun next _ => ih next

theorem mayEnd_inBytes (reading : Reading) : reading.inBytes.mayEnd = reading.mayEnd := by
  obtain ⟨_ | ⟨part, _ | ⟨part', after⟩⟩, found⟩ := reading
  · rfl
  · cases part <;> rfl
  · cases part <;> rfl

theorem classNames?_eq (text : List Char) : classNames? text =
    (run ⟨[.whole], []⟩ text).bind fun final =>
      if final.mayEnd then some final.found.reverse else none := by
  rw [classNames?]
  cases run ⟨[.whole], []⟩ text <;> rfl

theorem classNames?_bytes (text : List Char) :
    classNames? (bytesOf text) = (classNames? text).map (List.map nameInBytes) := by
  have ran : run ⟨[.whole], []⟩ (bytesOf text) = _ := run_bytes ⟨[.whole], []⟩ text
  rw [classNames?_eq, classNames?_eq, ran, Option.bind_map, Option.map_bind]
  refine Option.bind_congr fun final _ => ?_
  dsimp only [Function.comp_apply]
  rw [mayEnd_inBytes]
  cases final.mayEnd
  · rfl
  · simp [inBytes]

/-! ## Where names are cut out -/

def Part.isName : Part → Bool
  | .typeParameterName | .className _ | .variableName => true
  | _ => false

/-- Whether a name is under way, which ends before the next delimiter or with the text. -/
def Reading.inName (reading : Reading) : Bool := reading.expected.head?.any Part.isName

/-- Where the names are that a reading takes from some bytes, each from its first byte to behind its
last one; `start` is where a name has begun that is under way. -/
def cutsFrom (reading : Reading) (start position : Nat) : List Char → List (Nat × Nat)
  | [] => if reading.inName then [(start, position)] else []
  | c :: rest =>
    let cut := if reading.inName && isDelimiter c then [(start, position)] else []
    let start := if reading.inName then start else position
    match reading.step c with
    | some next => cut ++ cutsFrom next start (position + 1) rest
    | none => cut

def cuts (text : List Char) : List (Nat × Nat) := cutsFrom ⟨[.whole], []⟩ 0 0 (bytesOf text)

/-! ### Names are only under way at the top -/

def Pending (parts : List Part) : Prop := ∀ part ∈ parts, part.isName = false

/-- Whether a reading may stand behind a character, as far as names under way are concerned. -/
structure Settled (c : Char) (reading : Reading) : Prop where
  pending : Pending reading.expected.tail
  undelimited : reading.inName = true → isDelimiter c = false

theorem settled_of_pending (pending : Pending after) : Settled c ⟨after, found⟩ := by
  refine ⟨fun part listed => pending part (List.mem_of_mem_tail listed), fun isName => ?_⟩
  cases after with
  | nil => cases isName
  | cons part after => exact absurd isName (by simp [inName, pending part List.mem_cons_self])

theorem settled_of_undelimited (pending : Pending after) (undelimited : isDelimiter c = false) :
    Settled c ⟨part :: after, found⟩ := ⟨pending, fun _ => undelimited⟩

theorem step_settled (stepped : reading.step c = some next)
    (pending : Pending reading.expected.tail) : Settled c next := by
  obtain ⟨_ | ⟨part, after⟩, found⟩ := reading
  · cases stepped
  cases part <;> simp only [step, openBody, openType, openReference, openBound,
    openTypeParameter] at stepped <;> (repeat' split at stepped) <;> cases stepped
  all_goals first
    | exact settled_of_pending (by simpa [Pending, Part.isName] using pending)
    | exact settled_of_undelimited pending (Bool.eq_false_iff.mpr ‹_›)

/-! ### Cuts by characters -/

theorem inName_inBytes (reading : Reading) : reading.inBytes.inName = reading.inName := by
  obtain ⟨_ | ⟨part, after⟩, found⟩ := reading
  · rfl
  · cases part <;> rfl

theorem cutsFrom_cons (reading : Reading) (start position : Nat) (c : Char) (rest : List Char) :
    cutsFrom reading start position (c :: rest) =
      (if reading.inName && isDelimiter c then [(start, position)] else []) ++
        (reading.step c).elim [] fun next =>
          cutsFrom next (if reading.inName then start else position) (position + 1) rest := by
  rw [cutsFrom]
  cases reading.step c
  · exact (List.append_nil _).symm
  · rfl

theorem isName_of_named {named : Part} (becomes : part.named text = some named) :
    named.isName = true := by
  cases part <;> cases becomes <;> rfl

theorem cutsFrom_wide {start position : Nat} (bytes : text ≠ []) (wide : ∀ c ∈ text, Wide c) :
    cutsFrom ⟨part :: after, found⟩ start position (text ++ rest) =
      (part.named text).elim [] fun named => cutsFrom ⟨named :: after, found⟩
        (if part.isName then start else position) (position + text.length) rest := by
  induction text generalizing part start position with
  | nil => exact absurd rfl bytes
  | cons c text ih =>
    rw [List.forall_mem_cons] at wide
    have uncut : (inName ⟨part :: after, found⟩ && isDelimiter c) = false := by
      rw [wide.1.not_isDelimiter, Bool.and_false]
    rw [List.cons_append, cutsFrom_cons, uncut, step_wide wide.1]
    rcases eq_or_ne text [] with rfl | others
    · cases part.named [c] <;> rfl
    · rw [← named_cons part c text]
      cases becomes : part.named [c] with
      | none => rfl
      | some named =>
        have later : cutsFrom ⟨named :: after, found⟩ (if part.isName then start else position)
            (position + 1) (text ++ rest) = _ := ih others wide.2
        rw [isName_of_named becomes, if_pos rfl] at later
        rw [List.length_cons, Nat.add_comm text.length, ← Nat.add_assoc]
        exact later

theorem cutsFrom_bytes_char (reading : Reading) (start position : Nat) (c : Char)
    (rest : List Char) : cutsFrom reading.inBytes start position (bytesOf [c] ++ rest) =
      (if reading.inName && isDelimiter c then [(start, position)] else []) ++
        (reading.step c).elim [] fun next => cutsFrom next.inBytes
          (if reading.inName then start else position) (position + (bytesOf [c]).length) rest := by
  by_cases wide : Wide c
  · obtain ⟨bytes, areWide⟩ := bytesOf_wide wide
    rw [wide.not_isDelimiter, Bool.and_false]
    obtain ⟨_ | ⟨part, after⟩, found⟩ := reading
    · obtain ⟨b, others, split⟩ := List.exists_cons_of_ne_nil bytes
      rw [split, List.cons_append, cutsFrom_cons]
      rfl
    · rw [inBytes, List.map_cons, cutsFrom_wide bytes areWide, named_inBytes, step_wide wide]
      have same : part.inBytes.isName = part.isName := inName_inBytes ⟨part :: after, found⟩
      rw [same]
      cases part.named [c] <;> rfl
  · rw [bytesOf_narrow wide, List.singleton_append, cutsFrom_cons, inName_inBytes, step_narrow wide]
    cases reading.step c <;> rfl

def StandsAt (text : List Char) (cut : Nat × Nat) : Prop :=
  ∃ before name after, text = before ++ (name ++ after) ∧ IsIdentifier name ∧
    cut = ((bytesOf before).length, (bytesOf (before ++ name)).length)

def UnderWay (done : List Char) (start : Nat) : Prop :=
  ∃ before name, done = before ++ name ∧ IsIdentifier name ∧ start = (bytesOf before).length

theorem UnderWay.standsAt {start : Nat} {done : List Char} (underWay : UnderWay done start)
    (text : List Char) : StandsAt (done ++ text) (start, (bytesOf done).length) := by
  obtain ⟨before, name, rfl, isName, rfl⟩ := underWay
  exact ⟨before, name, text, List.append_assoc .., isName, rfl⟩

theorem UnderWay.goesOn {start : Nat} {done : List Char} (underWay : UnderWay done start)
    (undelimited : isDelimiter c = false) : UnderWay (done ++ [c]) start := by
  obtain ⟨before, name, rfl, isName, rfl⟩ := underWay
  refine ⟨before, name ++ [c], List.append_assoc .., ⟨by simp, ?_⟩, rfl⟩
  exact List.forall_mem_append.mpr
    ⟨isName.undelimited, List.forall_mem_singleton.mpr undelimited⟩

theorem underWay_begins (done : List Char) (undelimited : isDelimiter c = false) :
    UnderWay (done ++ [c]) (bytesOf done).length :=
  ⟨done, [c], rfl, isIdentifier_cons undelimited undelimited_nil, rfl⟩

theorem standsAt_of_cut {start : Nat} {done : List Char} {cut : Nat × Nat}
    (pending : Pending reading.expected.tail)
    (underWay : reading.inName = true → UnderWay done start)
    (isCut : cut ∈ cutsFrom reading.inBytes start (bytesOf done).length (bytesOf text)) :
    StandsAt (done ++ text) cut := by
  induction text generalizing reading start done with
  | nil =>
    have isCut : cut ∈ if reading.inBytes.inName then [(start, (bytesOf done).length)] else [] :=
      isCut
    rw [inName_inBytes] at isCut
    split at isCut
    case isTrue isName =>
      rw [List.mem_singleton.mp isCut]
      exact (underWay isName).standsAt []
    case isFalse => cases isCut
  | cons c text ih =>
    rw [bytesOf_cons, cutsFrom_bytes_char, List.mem_append] at isCut
    rcases isCut with here | later
    · split at here
      case isTrue ends =>
        rw [List.mem_singleton.mp here]
        exact (underWay (Bool.and_eq_true_iff.mp ends).1).standsAt (c :: text)
      case isFalse => cases here
    · cases stepped : reading.step c with
      | none =>
        rw [stepped] at later
        cases later
      | some next =>
        rw [stepped, Option.elim_some, ← List.length_append, ← bytesOf_append] at later
        have settled := step_settled stepped pending
        rw [List.append_cons]
        refine ih settled.pending (fun isName => ?_) later
        split
        case isTrue before => exact (underWay before).goesOn (settled.undelimited isName)
        case isFalse => exact underWay_begins done (settled.undelimited isName)

theorem standsAt_of_cuts {cut : Nat × Nat} (isCut : cut ∈ cuts text) : StandsAt text cut := by
  have starts : inName ⟨[.whole], []⟩ = true → UnderWay [] 0 := nofun
  refine standsAt_of_cut ?_ starts isCut
  exact List.forall_mem_nil _

/-- What is read as a signature is what is derived, the classes found are those of the derivation in
the order in which they end, and each has a name without delimiters. Any other text is refused.
Byte by byte the reading is the same, and whether or not it succeeds, every name that is cut out
takes up whole characters. -/
theorem classNames_derives (text : String) :
    (∀ names, classNames text = .ok names ↔ ∃ glyphs, Derives .signature glyphs ∧
      textOf glyphs = text.toList ∧ namesOf glyphs = names) ∧
    (∀ names, classNames text = .ok names → ∀ name ∈ names, IsIdentifier name.toList) ∧
    ((∃ names, classNames text = .ok names) ∨ classNames text = .error (.badDescriptor text)) ∧
    classNames? (bytesOf text.toList) = (classNames text).toOption.map (List.map nameInBytes) ∧
    ∀ cut ∈ cuts text.toList, ∃ before name after : String, text = before ++ name ++ after ∧
      IsIdentifier name.toList ∧ cut = (before.utf8ByteSize, (before ++ name).utf8ByteSize) := by
  have read (names : List String) :
      classNames text = .ok names ↔ classNames? text.toList = some names := by
    rw [classNames]
    cases classNames? text.toList <;> simp
  refine ⟨fun names => (read names).trans classNames?_eq_some, ?_, ?_, ?_, ?_⟩
  · intro names found name listed
    obtain ⟨glyphs, derives, -, rfl⟩ := classNames?_eq_some.mp ((read names).mp found)
    exact isIdentifier_of_derives derives name listed
  · rw [classNames]
    cases classNames? text.toList with
    | none => exact .inr rfl
    | some names => exact .inl ⟨names, rfl⟩
  · rw [classNames?_bytes, classNames]
    cases classNames? text.toList <;> rfl
  · intro cut isCut
    obtain ⟨before, name, after, split, isName, rfl⟩ := standsAt_of_cuts isCut
    refine ⟨String.ofList before, String.ofList name, String.ofList after, ?_, ?_, ?_⟩
    · rw [← String.ofList_append, ← String.ofList_append, List.append_assoc, ← split,
        String.ofList_toList]
    · rwa [String.toList_ofList]
    · rw [length_bytesOf, length_bytesOf, String.ofList_append]

/-- A class with type arguments in the bound of a type parameter; its name has a character of two
bytes. -/
theorem classNames_derives_umlaut :
    classNames "<A::LÄ<*>.b;>()V" = .ok ["Ä$b"] ∧
    cuts "<A::LÄ<*>.b;>()V".toList = [(1, 2), (5, 7), (11, 12)] ∧
    (∃ glyphs, Derives .signature glyphs ∧ textOf glyphs = "<A::LÄ<*>.b;>()V".toList ∧
      namesOf glyphs = ["Ä$b"]) ∧ IsIdentifier "Ä$b".toList := by
  have read : classNames "<A::LÄ<*>.b;>()V" = .ok ["Ä$b"] := by decide +kernel
  obtain ⟨derives, named, -⟩ := classNames_derives "<A::LÄ<*>.b;>()V"
  refine ⟨read, by decide +kernel, (derives _).mp read, named _ read _ List.mem_cons_self⟩

end Linkage.Signature

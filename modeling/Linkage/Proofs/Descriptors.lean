import Linkage.Descriptor
import Mathlib.Data.List.TakeWhile

/-!
# Descriptors as texts of types

A descriptor is the text of one type only: `FieldType.ofDescriptor_eq_ok` and
`MethodType.ofDescriptor_eq_ok` give the text back from the type that is read. Every type whose class
names can stand in a descriptor is read back from its text, wherever the text stands, and nothing else
is read: `ofDescriptor_exact`.
-/

namespace Linkage

/-! ## Field types -/

def ElementType.descriptor : ElementType → List Char
  | .base type => [type.letter]
  | .object name => 'L' :: name.toList ++ [';']

def ElementType.Named : ElementType → Prop
  | .base _ => True
  | .object name => name ≠ "" ∧ ';' ∉ name.toList

namespace FieldType

variable {type : FieldType} {text rest name : List Char} {c : Char}

def descriptor (type : FieldType) : List Char :=
  List.replicate type.dimensions '[' ++ type.element.descriptor

theorem takeWhile_bracket (text : List Char) : text.takeWhile (· = '[') =
    List.replicate (text.takeWhile (· = '[')).length '[' := by
  rw [List.eq_replicate_iff]
  exact ⟨rfl, fun c member => by simpa using List.mem_takeWhile_imp member⟩

theorem eq_of_dropWhile {c mark : Char} (ended : text.dropWhile (· ≠ mark) = c :: rest) :
    text = text.takeWhile (· ≠ mark) ++ mark :: rest := by
  have found := List.head?_dropWhile_not (fun c => decide (c ≠ mark)) text
  rw [ended] at found
  have same : c = mark := by simpa using found
  rw [← same] at ended ⊢
  rw [← ended, List.takeWhile_append_dropWhile]

theorem read?_eq_some (read : read? text = some (type, rest)) :
    text = type.descriptor ++ rest ∧ type.element.Named := by
  have opening : text = List.replicate (text.takeWhile (· = '[')).length '[' ++
      text.dropWhile (· = '[') := by
    rw [← takeWhile_bracket, List.takeWhile_append_dropWhile]
  unfold read? at read
  simp only at read
  split at read
  · cases read
  · rename_i afterL opens
    split at read
    · rename_i named ended
      cases read
      have closing := eq_of_dropWhile ended
      refine ⟨opening.trans ?_, ?_, ?_⟩
      · simp only [opens, descriptor, ElementType.descriptor, String.toList_ofList, List.append_assoc,
          List.cons_append, List.nil_append, ← closing]
      · rw [named, Ne, String.ofList_eq_empty_iff]
        exact nofun
      · rw [String.toList_ofList]
        intro member
        simpa using List.mem_takeWhile_imp member
    · cases read
  · rename_i opens
    rw [Option.map_eq_some_iff] at read
    obtain ⟨base, letter, same⟩ := read
    cases same
    refine ⟨opening.trans ?_, trivial⟩
    rw [opens, BaseType.ofLetter?_eq_some_iff.mp letter]
    simp [descriptor, ElementType.descriptor]

theorem ofDescriptor_eq_ok {text : String} (read : ofDescriptor text = .ok type) :
    text.toList = type.descriptor ∧ type.element.Named := by
  unfold ofDescriptor at read
  split at read
  · rename_i found
    cases read
    simpa using read?_eq_some found
  · cases read

theorem takeWhile_brackets (dimensions : Nat) (other : c ≠ '[') :
    (List.replicate dimensions '[' ++ c :: rest).takeWhile (· = '[') =
      List.replicate dimensions '[' := by
  rw [List.takeWhile_append_of_pos (by simp), List.takeWhile_cons_of_neg (by simpa using other),
    List.append_nil]

theorem dropWhile_brackets (dimensions : Nat) (other : c ≠ '[') :
    (List.replicate dimensions '[' ++ c :: rest).dropWhile (· = '[') = c :: rest := by
  rw [List.dropWhile_append_of_pos (by simp), List.dropWhile_cons_of_neg (by simpa using other)]

theorem read?_brackets (dimensions : Nat) (other : c ≠ '[') :
    read? (List.replicate dimensions '[' ++ c :: rest) =
      (read? (c :: rest)).map fun (type, rest) => ({ type with dimensions }, rest) := by
  have bare : (c :: rest).takeWhile (· = '[') = [] := takeWhile_brackets 0 other
  have bare' : (c :: rest).dropWhile (· = '[') = c :: rest := dropWhile_brackets 0 other
  unfold read?
  rw [takeWhile_brackets dimensions other, dropWhile_brackets dimensions other, bare, bare']
  simp only [List.length_replicate]
  split
  · rfl
  · split <;> rfl
  · rw [Option.map_map]
    rfl

theorem ne_semicolon (closed : ';' ∉ name) : ∀ c ∈ name, decide (c ≠ ';') = true :=
  fun _ member => decide_eq_true fun same => closed (same ▸ member)

theorem read?_class (notEmpty : name ≠ []) (closed : ';' ∉ name) :
    read? ('L' :: (name ++ ';' :: rest)) = some (⟨0, .object (String.ofList name)⟩, rest) := by
  have taken : (name ++ ';' :: rest).takeWhile (· ≠ ';') = name := by
    rw [List.takeWhile_append_of_pos (ne_semicolon closed), List.takeWhile_cons_of_neg (by decide),
      List.append_nil]
  have left : (name ++ ';' :: rest).dropWhile (· ≠ ';') = ';' :: rest := by
    rw [List.dropWhile_append_of_pos (ne_semicolon closed), List.dropWhile_cons_of_neg (by decide)]
  obtain ⟨c, others, rfl⟩ := List.exists_cons_of_ne_nil notEmpty
  unfold read?
  dsimp only [List.takeWhile, List.dropWhile]
  simp only [Char.reduceEq, decide_false, taken, left]
  rfl

theorem read?_unended (unended : ';' ∉ name) : read? ('L' :: name) = none := by
  have left : name.dropWhile (· ≠ ';') = [] :=
    List.dropWhile_eq_nil_iff.mpr (ne_semicolon unended)
  unfold read?
  dsimp only [List.takeWhile, List.dropWhile]
  simp only [Char.reduceEq, decide_false, left]
  cases name.takeWhile fun c => decide (c ≠ ';') <;> rfl

theorem read?_descriptor (named : type.element.Named) (rest : List Char) :
    read? (type.descriptor ++ rest) = some (type, rest) := by
  obtain ⟨dimensions, element⟩ := type
  rw [descriptor, List.append_assoc]
  cases element with
  | base base =>
    rw [ElementType.descriptor, List.singleton_append, read?_brackets]
    · cases base <;> rfl
    · cases base <;> decide
  | object name =>
    have notNil : name.toList ≠ [] := by simpa using named.1
    rw [ElementType.descriptor, List.append_assoc, List.cons_append, List.singleton_append,
      read?_brackets dimensions (by decide), read?_class notNil named.2, String.ofList_toList]
    rfl

theorem ofDescriptor_eq_ok_iff {text : String} :
    ofDescriptor text = .ok type ↔ type.element.Named ∧ text.toList = type.descriptor := by
  constructor
  · exact fun read => (ofDescriptor_eq_ok read).symm
  · rintro ⟨named, same⟩
    have read := read?_descriptor named []
    rw [List.append_nil] at read
    rw [ofDescriptor, same, read]

theorem ofDescriptor_eq_error_iff {text : String} {fault : Fault} :
    ofDescriptor text = .error fault ↔ fault = .badDescriptor text ∧
      ¬ ∃ type : FieldType, type.element.Named ∧ text.toList = type.descriptor := by
  simp only [← ofDescriptor_eq_ok_iff]
  unfold ofDescriptor
  split
  · simp
  · simp [eq_comm]

/-! ### What is no type -/

/-- What can stand where a type should and is none: `V`, as a type or an element, and a class name
that does not end. -/
inductive Lacking : List Char → Prop
  | void (dimensions : Nat) (rest : List Char) :
      Lacking (List.replicate dimensions '[' ++ 'V' :: rest)
  | unended (dimensions : Nat) {name : List Char} (unended : ';' ∉ name) :
      Lacking (List.replicate dimensions '[' ++ 'L' :: name)

/-- What no field descriptor can be: no type, or a type and more. -/
inductive Flawed : List Char → Prop
  | lacking {text : List Char} (lacking : Lacking text) : Flawed text
  | leftover {type : FieldType} {rest : List Char} (named : type.element.Named) (more : rest ≠ []) :
      Flawed (type.descriptor ++ rest)

theorem Lacking.read?_eq_none (lacking : Lacking text) : read? text = none := by
  cases lacking with
  | void dimensions rest =>
    rw [read?_brackets dimensions (by decide)]
    rfl
  | unended dimensions unended =>
    rw [read?_brackets dimensions (by decide), read?_unended unended]
    rfl

theorem Lacking.head?_ne (lacking : Lacking text) : text.head? ≠ some ')' := by
  cases lacking with
  | void dimensions | unended dimensions =>
    cases dimensions <;> simp [List.replicate_succ]

theorem Flawed.ofDescriptor_fails {text : String} (flawed : Flawed text.toList) :
    ofDescriptor text = .error (.badDescriptor text) := by
  unfold ofDescriptor
  generalize text.toList = chars at flawed
  cases flawed with
  | lacking lacking => rw [lacking.read?_eq_none]
  | leftover named more =>
    rename_i rest
    obtain ⟨c, rest, rfl⟩ := List.exists_cons_of_ne_nil more
    rw [read?_descriptor named]

end FieldType

/-! ## Method types -/

namespace MethodType

variable {type : MethodType} {text rest : List Char} {before parameters : List FieldType}

def resultDescriptor (result : Option FieldType) : List Char :=
  (result.map FieldType.descriptor).getD ['V']

def descriptor (type : MethodType) : List Char :=
  '(' :: type.parameters.flatMap FieldType.descriptor ++ ')' :: resultDescriptor type.result

theorem readParameters?_eq_some (read : readParameters? before text = some (parameters, rest)) :
    ∃ others, parameters = before.reverse ++ others ∧
      text = others.flatMap FieldType.descriptor ++ ')' :: rest ∧
      ∀ parameter ∈ others, parameter.element.Named := by
  induction before, text using readParameters?.induct with
  | case1 before text =>
    rw [readParameters?] at read
    cases read
    exact ⟨[], by simp⟩
  | case2 before text notClosed first after opened _ ih =>
    rw [readParameters?] at read
    · split at read
      · rename_i found
        cases opened.symm.trans found
        obtain ⟨others, rfl, rfl, named⟩ := ih read
        obtain ⟨rfl, namedFirst⟩ := FieldType.read?_eq_some opened
        refine ⟨first :: others, by simp, by simp, ?_⟩
        exact List.forall_mem_cons.mpr ⟨namedFirst, named⟩
      · cases read
    · exact notClosed
  | case3 before text notClosed failed =>
    rw [readParameters?] at read
    · split at read
      · rename_i found
        cases failed.symm.trans found
      · cases read
    · exact notClosed

theorem readResult?_eq_some {result : Option FieldType} (read : readResult? text = some result) :
    text = resultDescriptor result ∧ ∀ type ∈ result, type.element.Named := by
  unfold readResult? at read
  split at read
  · cases read
    exact ⟨rfl, nofun⟩
  · split at read
    · rename_i found
      cases read
      obtain ⟨rfl, named⟩ := FieldType.read?_eq_some found
      exact ⟨by simp [resultDescriptor], by simpa using named⟩
    · cases read

theorem ofDescriptor_eq_ok {text : String} (read : ofDescriptor text = .ok type) :
    text.toList = type.descriptor ∧ (∀ parameter ∈ type.parameters, parameter.element.Named) ∧
      ∀ result ∈ type.result, result.element.Named := by
  unfold ofDescriptor at read
  split at read
  · rename_i found
    cases read
    unfold MethodType.read? at found
    split at found
    · rename_i inner opens
      simp only [Option.bind_eq_bind, Option.bind_eq_some_iff] at found
      obtain ⟨⟨parameters, after⟩, parameters?, result, result?, same⟩ := found
      cases same
      obtain ⟨_, rfl, rfl, named⟩ := readParameters?_eq_some parameters?
      obtain ⟨rfl, namedResult⟩ := readResult?_eq_some result?
      exact ⟨opens, named, namedResult⟩
    · cases found
  · cases read

def Named (type : MethodType) : Prop :=
  (∀ parameter ∈ type.parameters, parameter.element.Named) ∧
    ∀ result ∈ type.result, result.element.Named

theorem readParameters?_step {first : FieldType} (read : FieldType.read? text = some (first, rest)) :
    readParameters? before text = readParameters? (first :: before) rest := by
  rw [readParameters?]
  · split
    · rename_i found
      cases read.symm.trans found
      rfl
    · rename_i failed
      cases read.symm.trans failed
  · rintro after rfl
    cases read

theorem readParameters?_fails (read : FieldType.read? text = none)
    (notClosed : text.head? ≠ some ')') : readParameters? before text = none := by
  rw [readParameters?]
  · split
    · rename_i found
      cases read.symm.trans found
    · rfl
  · rintro after rfl
    exact notClosed rfl

theorem readParameters?_append (named : ∀ parameter ∈ parameters, parameter.element.Named)
    (before : List FieldType) (rest : List Char) :
    readParameters? before (parameters.flatMap FieldType.descriptor ++ rest) =
      readParameters? (parameters.reverse ++ before) rest := by
  induction parameters generalizing before with
  | nil => rfl
  | cons first parameters ih =>
    obtain ⟨namedFirst, others⟩ := List.forall_mem_cons.mp named
    rw [List.flatMap_cons, List.append_assoc,
      readParameters?_step (FieldType.read?_descriptor namedFirst _), ih others,
      List.reverse_cons, List.append_assoc, List.singleton_append]

theorem readParameters?_descriptors (named : ∀ parameter ∈ parameters, parameter.element.Named)
    (rest : List Char) :
    readParameters? [] (parameters.flatMap FieldType.descriptor ++ ')' :: rest) =
      some (parameters, rest) := by
  rw [readParameters?_append named, readParameters?, List.append_nil, List.reverse_reverse]

theorem readResult?_of_read {first : FieldType} (read : FieldType.read? text = some (first, rest)) :
    readResult? text = if rest = [] then some (some first) else none := by
  unfold readResult?
  split
  · cases read
  · rw [read]
    cases rest <;> rfl

theorem readResult?_fails (read : FieldType.read? text = none) (notVoid : text ≠ ['V']) :
    readResult? text = none := by
  unfold readResult?
  split
  · exact absurd rfl notVoid
  · rw [read]

theorem readResult?_append {result : Option FieldType}
    (named : ∀ type ∈ result, type.element.Named) (rest : List Char) :
    readResult? (resultDescriptor result ++ rest) = if rest = [] then some result else none := by
  cases result with
  | some type => exact readResult?_of_read (FieldType.read?_descriptor (named type rfl) rest)
  | none =>
    cases rest with
    | nil => rfl
    | cons c rest =>
      exact readResult?_fails (FieldType.Lacking.void 0 (c :: rest)).read?_eq_none
        (by simp [resultDescriptor])

theorem read?_parameters (named : ∀ parameter ∈ parameters, parameter.element.Named)
    (rest : List Char) :
    read? ('(' :: parameters.flatMap FieldType.descriptor ++ ')' :: rest) =
      (readResult? rest).map fun result => { parameters, result } := by
  rw [List.cons_append, read?, readParameters?_descriptors named]
  change (readResult? rest >>= fun result => pure (MethodType.mk parameters result)) = _
  cases readResult? rest <;> rfl

theorem read?_append (named : type.Named) (rest : List Char) :
    read? (type.descriptor ++ rest) = if rest = [] then some type else none := by
  have front : type.descriptor ++ rest = '(' :: type.parameters.flatMap FieldType.descriptor ++
      ')' :: (resultDescriptor type.result ++ rest) := by
    simp [descriptor]
  rw [front, read?_parameters named.1, readResult?_append named.2]
  split <;> rfl

theorem ofDescriptor_eq_ok_iff {text : String} :
    ofDescriptor text = .ok type ↔ type.Named ∧ text.toList = type.descriptor := by
  constructor
  · exact fun read => (ofDescriptor_eq_ok read).symm
  · rintro ⟨named, same⟩
    have read := read?_append named []
    rw [List.append_nil, if_pos rfl] at read
    rw [ofDescriptor, same, read]

theorem ofDescriptor_eq_error_iff {text : String} {fault : Fault} :
    ofDescriptor text = .error fault ↔ fault = .badDescriptor text ∧
      ¬ ∃ type : MethodType, type.Named ∧ text.toList = type.descriptor := by
  simp only [← ofDescriptor_eq_ok_iff]
  unfold ofDescriptor
  split
  · simp
  · simp [eq_comm]

/-! ### What is no method type -/

/-- What no method descriptor can be: no type where a parameter or the result should stand, or a
method type and more. -/
inductive Flawed : List Char → Prop
  | parameter {parameters : List FieldType} {rest : List Char}
      (named : ∀ parameter ∈ parameters, parameter.element.Named) (lacking : FieldType.Lacking rest) :
      Flawed ('(' :: parameters.flatMap FieldType.descriptor ++ rest)
  | result {parameters : List FieldType} {rest : List Char}
      (named : ∀ parameter ∈ parameters, parameter.element.Named) (lacking : FieldType.Lacking rest)
      (notVoid : rest ≠ ['V']) :
      Flawed ('(' :: parameters.flatMap FieldType.descriptor ++ ')' :: rest)
  | leftover {type : MethodType} {rest : List Char} (named : type.Named) (more : rest ≠ []) :
      Flawed (type.descriptor ++ rest)

theorem Flawed.ofDescriptor_fails {text : String} (flawed : Flawed text.toList) :
    ofDescriptor text = .error (.badDescriptor text) := by
  unfold ofDescriptor
  generalize text.toList = chars at flawed
  cases flawed with
  | parameter named lacking =>
    rw [List.cons_append, read?, readParameters?_append named,
      readParameters?_fails lacking.read?_eq_none lacking.head?_ne]
    rfl
  | result named lacking notVoid =>
    rw [read?_parameters named, readResult?_fails lacking.read?_eq_none notVoid]
    rfl
  | leftover named more => rw [read?_append named, if_neg more]

end MethodType

/-- A text is read as a type exactly if it is the descriptor of the type, and as nothing else; any
other text is refused as it stands, whatever is wrong with it. -/
theorem ofDescriptor_exact (text : String) :
    (∀ type, FieldType.ofDescriptor text = .ok type ↔
      type.element.Named ∧ text.toList = type.descriptor) ∧
    (∀ fault, FieldType.ofDescriptor text = .error fault ↔ fault = .badDescriptor text ∧
      ¬ ∃ type : FieldType, type.element.Named ∧ text.toList = type.descriptor) ∧
    (FieldType.Flawed text.toList → FieldType.ofDescriptor text = .error (.badDescriptor text)) ∧
    (∀ type, MethodType.ofDescriptor text = .ok type ↔
      type.Named ∧ text.toList = type.descriptor) ∧
    (∀ fault, MethodType.ofDescriptor text = .error fault ↔ fault = .badDescriptor text ∧
      ¬ ∃ type : MethodType, type.Named ∧ text.toList = type.descriptor) ∧
    (MethodType.Flawed text.toList → MethodType.ofDescriptor text = .error (.badDescriptor text)) :=
  ⟨fun _ => FieldType.ofDescriptor_eq_ok_iff, fun _ => FieldType.ofDescriptor_eq_error_iff,
    FieldType.Flawed.ofDescriptor_fails, fun _ => MethodType.ofDescriptor_eq_ok_iff,
    fun _ => MethodType.ofDescriptor_eq_error_iff, MethodType.Flawed.ofDescriptor_fails⟩

end Linkage

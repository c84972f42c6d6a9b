import Linkage.Toml.Value

/-!
TOML documents.

A document is a list of lines: headers, and keys with values. The fields behind a header make up a
section, which lies where the header's path leads. A header in double brackets adds a further
section to a list, and paths through a list lead into the section added last. No section is opened
twice.
-/

namespace Linkage.Toml

mutual

/-- A section. Its own fields are missing if no header has opened it, but one below it. -/
inductive Section
  | mk (own : Option (List (String × Data))) (below : List (String × Entry))

inductive Entry
  | one (inner : Section)
  /-- A list of sections. The one added last comes first. -/
  | many (last : Section) (before : List Section)

end

def replaceEntry (name : String) (entry : Entry) (below : List (String × Entry)) :
    List (String × Entry) :=
  below.map fun field => if field.1 = name then (name, entry) else field

/-- Opens the section that a path leads to, or adds one to the list that it leads to. -/
def Section.open? (repeats : Bool) (fields : List (String × Data)) :
    (path : List String) → Section → Option Section
  | [], .mk none below => if repeats then none else some (.mk (some fields) below)
  | [], .mk (some _) _ => none
  | name :: path, .mk own below =>
    let adds := repeats && path.isEmpty
    match below.lookup name with
    | none =>
      if adds then some (.mk own (below ++ [(name, .many (.mk (some fields) []) [])]))
      else
        (open? repeats fields path (.mk none [])).map fun inner =>
          .mk own (below ++ [(name, .one inner)])
    | some (.one inner) =>
        (open? repeats fields path inner).map fun inner =>
          .mk own (replaceEntry name (.one inner) below)
    | some (.many last before) =>
      if adds then
        some (.mk own (replaceEntry name (.many (.mk (some fields) []) (last :: before)) below))
      else
        (open? repeats fields path last).map fun last =>
          .mk own (replaceEntry name (.many last before) below)

mutual

def Section.fields : Section → List (String × Data)
  | .mk own below => own.getD [] ++ entryFields below
termination_by structural inner => inner

def entryFields : List (String × Entry) → List (String × Data)
  | [] => []
  | entry :: below => entryField entry :: entryFields below
termination_by structural below => below

def entryField : String × Entry → String × Data
  | (name, entry) => (name, entry.toData)
termination_by structural entry => entry

def Entry.toData : Entry → Data
  | .one inner => .spread inner.fields
  | .many last before => .list (sectionsData [.spread last.fields] before)
termination_by structural entry => entry

def sectionsData (after : List Data) : List Section → List Data
  | [] => after
  | inner :: before => sectionsData (.spread inner.fields :: after) before
termination_by structural sections => sections

end

inductive Line
  | header (path : Key) (repeats : Bool)
  | field (key : Key) (value : Data)

def pastLineEnd? (tokens : List Token) : Option (List Token) :=
  match pastBlanks tokens with
  | [] => some []
  | .newline :: rest => some rest
  | _ => none

def header? (tokens : List Token) : Option (Line × List Token) :=
  match tokens with
  | .openBracket :: rest =>
    match key? (pastBlanks rest) with
    | some (path, .closeBracket :: .closeBracket :: rest) => some (.header path true, rest)
    | _ => none
  | tokens =>
    match key? (pastBlanks tokens) with
    | some (path, .closeBracket :: rest) => some (.header path false, rest)
    | _ => none

def field? (tokens : List Token) : Option (Line × List Token) :=
  match keyEquals? tokens with
  | some (key, rest) => (value? rest).map fun (value, rest) => (.field key value, rest)
  | none => none

def line? (tokens : List Token) : Option (Line × List Token) :=
  let content := match tokens with
    | .openBracket :: rest => header? rest
    | tokens => field? tokens
  match content with
  | some (line, rest) => (pastLineEnd? rest).map fun rest => (line, rest)
  | none => none

theorem pastLineEnd?_length {tokens rest : List Token} (found : pastLineEnd? tokens = some rest) :
    rest.length ≤ tokens.length := by
  have := pastBlanks_length tokens
  unfold pastLineEnd? at found
  split at found
  · cases found
    exact Nat.zero_le _
  · rename_i read
    cases found
    rw [read] at this
    simp only [List.length_cons] at this
    omega
  · cases found

theorem header?_length {tokens rest : List Token} {line : Line}
    (found : header? tokens = some (line, rest)) : rest.length ≤ tokens.length := by
  unfold header? at found
  split at found
  · rename_i inner
    split at found
    · rename_i read
      cases found
      have := key?_length read
      have := pastBlanks_length inner
      simp only [List.length_cons] at *
      omega
    · cases found
  · split at found
    · rename_i read
      cases found
      have := key?_length read
      have := pastBlanks_length tokens
      simp only [List.length_cons] at *
      omega
    · cases found

theorem field?_length {tokens rest : List Token} {line : Line}
    (found : field? tokens = some (line, rest)) : rest.length < tokens.length := by
  unfold field? at found
  split at found
  · rename_i key
    obtain ⟨⟨value, after⟩, read, same⟩ := Option.map_eq_some_iff.mp found
    cases same
    exact Nat.lt_of_le_of_lt (valueIn?_length read) (keyEquals?_length key)
  · cases found

theorem line?_length {tokens rest : List Token} {line : Line}
    (found : line? tokens = some (line, rest)) : rest.length < tokens.length := by
  unfold line? at found
  simp only at found
  split at found
  · rename_i content after read
    obtain ⟨_, lineEnd, same⟩ := Option.map_eq_some_iff.mp found
    cases same
    have := pastLineEnd?_length lineEnd
    split at read
    · have := header?_length read
      simp only [List.length_cons]
      omega
    · have := field?_length read
      omega
  · cases found

def lines? (tokens : List Token) : Option (List Line) :=
  match start : pastLines tokens with
  | [] => some []
  | token :: more =>
    match found : line? (token :: more) with
    | some (line, rest) =>
      have := start ▸ pastLines_length tokens
      have := line?_length found
      (lines? rest).map (line :: ·)
    | none => none
termination_by tokens.length
decreasing_by omega

structure Draft where
  root : Section
  path : List String
  repeats : Bool
  fields : List (String × Data)

namespace Draft

def start : Draft := ⟨.mk none [], [], false, []⟩

def close? (draft : Draft) : Option Section :=
  draft.root.open? draft.repeats draft.fields draft.path

def add? (draft : Draft) : Line → Option Draft
  | .header (name, more) repeats => draft.close?.map fun root => ⟨root, name :: more, repeats, []⟩
  | .field (name, more) value =>
      (addField? draft.fields name more value).map fun fields => { draft with fields }

end Draft

def read? (text : String) : Option Data := do
  let tokens ← tokens? text.toList
  let lines ← lines? tokens
  let draft ← lines.foldlM Draft.add? Draft.start
  let root ← draft.close?
  return .spread root.fields

end Linkage.Toml

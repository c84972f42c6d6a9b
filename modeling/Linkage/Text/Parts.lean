/-!
Cutting text into parts at a character, and looking for a piece of text in another.

Text is a list of characters here; the callers pack and unpack strings.
-/

namespace Linkage.Text

/-- The parts between the occurrences of a character; there is one more part than occurrences. -/
def partsAt (mark : Char) (text : List Char) : List (List Char) :=
  text.foldr (fun c parts =>
    match parts with
    | [] => [[c]]
    | part :: more => if c = mark then [] :: part :: more else (c :: part) :: more) [[]]

def cutAtLast? (mark : Char) (text : List Char) : Option (List Char × List Char) :=
  let after := text.reverse.takeWhile (· ≠ mark)
  match text.reverse.drop after.length with
  | [] => none
  | _ :: before => some (before.reverse, after.reverse)

def cutAtFirst? (mark : Char) (text : List Char) : Option (List Char × List Char) :=
  let before := text.takeWhile (· ≠ mark)
  match text.drop before.length with
  | [] => none
  | _ :: after => some (before, after)

def occursIn (piece : List Char) : List Char → Bool
  | [] => piece.isEmpty
  | c :: rest => piece.isPrefixOf (c :: rest) || occursIn piece rest

end Linkage.Text

/-
Pieces of a text.

- `startsWith`, `endsWith`: whether a text begins or ends with a piece.
- `replace`: every occurrence of a piece, found from left to right and not overlapping.
- `replaceFirst`: the first occurrence of one character.
- `splitOnce?`: a text cut at the first occurrence of a piece.
- `hasPiece`: whether a piece occurs.
-/
namespace GraphGen.Text

/-- whether `s` begins with `piece` -/
def startsWith (piece s : String) : Bool :=
  piece.toList.isPrefixOf s.toList

/-- whether `s` ends with `piece` -/
def endsWith (piece s : String) : Bool :=
  piece.toList.isSuffixOf s.toList

/-- replaces occurrences of `old`; the first `skip` characters belong to an occurrence already replaced -/
def replaceFrom (old new : List Char) (skip : Nat) : List Char → List Char
  | [] => []
  | c :: rest =>
    match skip with
    | n + 1 => replaceFrom old new n rest
    | 0 =>
      if old.isPrefixOf (c :: rest) then new ++ replaceFrom old new (old.length - 1) rest
      else c :: replaceFrom old new 0 rest

/-- every occurrence of the nonempty piece `old` replaced by `new` -/
def replace (old new s : String) : String :=
  String.ofList (replaceFrom old.toList new.toList 0 s.toList)

/-- the first occurrence of `c` replaced by `new` -/
def replaceFirstChar (c : Char) (new : List Char) : List Char → List Char
  | [] => []
  | d :: rest => if d = c then new ++ rest else d :: replaceFirstChar c new rest

/-- a text with its first occurrence of the character `c` replaced by `new` -/
def replaceFirst (c : Char) (new s : String) : String :=
  String.ofList (replaceFirstChar c new.toList s.toList)

/-- the characters before and after the first occurrence of `piece` -/
def cutOnce (piece : List Char) : List Char → Option (List Char × List Char)
  | [] => if piece.isEmpty then some ([], []) else none
  | c :: rest =>
    if piece.isPrefixOf (c :: rest) then some ([], (c :: rest).drop piece.length)
    else (cutOnce piece rest).map fun (before, after) => (c :: before, after)

/-- the text before and after the first occurrence of `piece` -/
def splitOnce? (piece s : String) : Option (String × String) :=
  (cutOnce piece.toList s.toList).map fun (before, after) => (String.ofList before, String.ofList after)

/-- whether `piece` occurs in `s` -/
def hasPiece (piece s : String) : Bool :=
  (cutOnce piece.toList s.toList).isSome

/-- the characters between occurrences of `sep`, the one before the first and the one after the last included -/
def cutAll (sep : Char) : List Char → List (List Char)
  | [] => [[]]
  | c :: rest =>
    if c = sep then [] :: cutAll sep rest
    else
      match cutAll sep rest with
      | [] => [[c]]
      | piece :: more => (c :: piece) :: more

/-- the pieces of a text between occurrences of `sep` -/
def splitAll (sep : Char) (s : String) : List String :=
  (cutAll sep s.toList).map String.ofList

end GraphGen.Text

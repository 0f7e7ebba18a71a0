import UiSync.Text.Case

/-!
# Captions

A property identifier such as `address.streetName` or `POSTAL_CODE` becomes a caption a person
would write: `Street Name`, `Postal Code`.

Only the last segment of a dotted path counts. An identifier of capitals, digits and underscores
is cut at its underscores; any other one loses its underscores and is cut at the boundaries
`startsWord` names. Every word is capitalised and words are joined by spaces.
-/

namespace UiSync.Caption

open Text

/-- the part after the last dot, or everything when that dot is missing, first or last -/
def lastSegment (id : List Char) : List Char :=
  let tail := (id.reverse.takeWhile (· != '.')).reverse
  if tail.isEmpty || tail.length + 1 == id.length then id else tail

/-- the identifier is written in capitals, digits and underscores -/
def isShouted (id : List Char) : Bool :=
  id.all fun c => c.isUpper || c.isDigit || c == '_'

/-- a word starts at `c` when `prev` comes before it and `next?` after it: at a capital after
another character, at the last capital of a run that goes on in small letters, and where digits
begin or end -/
def startsWord (prev c : Char) (next? : Option Char) : Bool :=
  (isUppercase c && !isUppercase prev) ||
    (isUppercase c && isUppercase prev && next?.any isLowercase) ||
    c.isDigit != prev.isDigit

/-- cuts a text before every character that starts a word -/
def splitWords : List Char → List (List Char)
  | [] => []
  | [c] => [[c]]
  | c :: d :: rest =>
    match splitWords (d :: rest) with
    | [] => [[c]]
    | word :: words =>
      if startsWord c d rest.head? then [c] :: word :: words else (c :: word) :: words

/-- the parts between underscores, at least one -/
def cutAtUnderscores : List Char → List (List Char)
  | [] => [[]]
  | c :: rest =>
    match cutAtUnderscores rest with
    | [] => [[]]
    | part :: parts => if c = '_' then [] :: part :: parts else (c :: part) :: parts

/-- the non-empty parts between underscores -/
def underscoreParts (id : List Char) : List (List Char) :=
  (cutAtUnderscores id).filter fun part => !part.isEmpty

/-- the word with its first character in upper case -/
def capitalize : List Char → List Char
  | [] => []
  | c :: rest => uppercase c ++ rest

/-- the words of a caption before they are capitalised -/
def words (id : List Char) : List (List Char) :=
  if isShouted id then (underscoreParts id).map (·.map Char.toLower)
  else splitWords (id.filter (· != '_'))

/-- the caption for a property identifier -/
def ofPropertyId (id : String) : String :=
  String.ofList ([' '].intercalate ((words (lastSegment id.toList)).map capitalize))

end UiSync.Caption

-- What can be wrong with a JSON text: with the text as such, or with the
-- value that it holds where another one was wanted.
import SeededStreams.Decimal.Layout
import SeededStreams.Text.Visible

namespace SeededStreams.Json

/-- A value of a sort that was not wanted, as far as a fault tells it. Of a
list or an object only the sort is told, since it is known before the inside
is read. -/
inductive Found where
  | null
  | boolean (b : Bool)
  | integer (v : Int)
  | real (x : Binary64)
  | text (s : List Char)
  | list
  | object
deriving DecidableEq

/-- Why a text is refused. Reading stops at the first fault, in the order of
the text. -/
inductive Fault where
  /-- The text ends inside a list. -/
  | listCutShort
  /-- The text ends inside an object. -/
  | objectCutShort
  /-- The text ends inside a string. -/
  | stringCutShort
  /-- The text ends where a value has to be, or inside one. -/
  | valueCutShort
  /-- A key is not followed by a colon. -/
  | colonWanted
  /-- An element is followed by neither a comma nor the end of the list. -/
  | listCommaWanted
  /-- A member is followed by neither a comma nor the end of the object. -/
  | objectCommaWanted
  /-- A word that begins like `null`, `true` or `false` and is none of them. -/
  | misspelt
  /-- No value begins here. -/
  | valueWanted
  /-- A backslash before a character that it cannot stand before. -/
  | badEscape
  /-- Digits, points and signs that are no number. -/
  | badNumber
  /-- A number too large for a real. -/
  | numberTooLarge
  /-- A control character inside a string. -/
  | controlCharacter
  /-- A key that is no string. -/
  | keyNotString
  /-- Half of a pair of code units, without the other half. -/
  | loneSurrogate
  /-- A comma with nothing after it. -/
  | trailingComma
  /-- Something after the end of the value. -/
  | trailingCharacters
  /-- The first half of a pair of code units with no second escape after it. -/
  | pairCutShort
  /-- Too many lists and objects inside each other. -/
  | tooDeep
  /-- A value of another sort. -/
  | wrongSort (found : Found) (wanted : String)
  /-- An integer out of the range that is wanted. -/
  | wrongInteger (v : Int) (wanted : String)
  /-- A list with a wrong count of elements. -/
  | wrongLength (count : Nat) (wanted : String)
  /-- A member that has to be there is not. -/
  | missingField (name : String)
  /-- A member is there twice. -/
  | duplicateField (name : String)
  /-- A name that is none of the known ones. -/
  | unknownName (name : List Char) (known : List String)
  /-- A value of no sort that a choice between sorts allows. -/
  | noChoice (type : String)
  /-- A value of the right sort, refused by the type's own check for the reason given. -/
  | refused (reason : String)
deriving DecidableEq

/-- How a fault names what it found. -/
def Found.describe : Found → String
  | null => "null"
  | boolean b => "boolean `" ++ (if b then "true" else "false") ++ "`"
  | integer v => "integer `" ++ (if v < 0 then "-" else "") ++ v.natAbs.repr ++ "`"
  | real x => "floating point `" ++ String.ofList (Decimal.jsonLayout.finite x) ++ "`"
  | text s => "string " ++ String.ofList (Text.visible s)
  | list => "sequence"
  | object => "map"

/-- The text of a fault. -/
def Fault.message : Fault → String
  | listCutShort => "EOF while parsing a list"
  | objectCutShort => "EOF while parsing an object"
  | stringCutShort => "EOF while parsing a string"
  | valueCutShort => "EOF while parsing a value"
  | colonWanted => "expected `:`"
  | listCommaWanted => "expected `,` or `]`"
  | objectCommaWanted => "expected `,` or `\x7d`"
  | misspelt => "expected ident"
  | valueWanted => "expected value"
  | badEscape => "invalid escape"
  | badNumber => "invalid number"
  | numberTooLarge => "number out of range"
  | controlCharacter => "control character (\\u0000-\\u001F) found while parsing a string"
  | keyNotString => "key must be a string"
  | loneSurrogate => "lone leading surrogate in hex escape"
  | trailingComma => "trailing comma"
  | trailingCharacters => "trailing characters"
  | pairCutShort => "unexpected end of hex escape"
  | tooDeep => "recursion limit exceeded"
  | wrongSort found wanted => "invalid type: " ++ found.describe ++ ", expected " ++ wanted
  | wrongInteger v wanted =>
    "invalid value: " ++ (Found.integer v).describe ++ ", expected " ++ wanted
  | wrongLength count wanted => "invalid length " ++ count.repr ++ ", expected " ++ wanted
  | missingField name => "missing field `" ++ name ++ "`"
  | duplicateField name => "duplicate field `" ++ name ++ "`"
  | unknownName name known =>
    "unknown variant `" ++ String.ofList name ++ "`, expected one of " ++
      ", ".intercalate (known.map fun k => "`" ++ k ++ "`")
  | noChoice type => "data did not match any variant of untagged enum " ++ type
  | refused reason => reason

end SeededStreams.Json

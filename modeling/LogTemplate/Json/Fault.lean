import LogTemplate.Json.Printer
import LogTemplate.Found

/-! What can be wrong with a text of the data format, or with a value where a certain shape is
expected. -/

namespace LogTemplate.Json

def found : Json → Found
  | null => .null
  | bool b => .bool b
  | integer i => .integer i
  | decimal negative magnitude => .decimal (decimalText negative magnitude)
  | string s => .string s
  | array _ => .sequence
  | object _ => .map

inductive Fault where
  | endInValue
  | endInString
  | endInList
  | endInObject
  | expectedLiteral
  | expectedValue
  | expectedColon
  | expectedListSeparator
  | expectedObjectSeparator
  | keyNotString
  | invalidEscape
  | invalidNumber
  | numberOutOfRange
  | loneSurrogate
  | incompleteSurrogatePair
  | controlCharacter
  | trailingComma
  | trailingCharacters
  | tooDeep
  | wrongType (found : Found) (expected : String)
  | wrongInteger (found : Int) (expected : String)
  | wrongMap
  | wrongLength (found : Nat) (expected : String)
  | unknownVariant (found : String) (known : List String)
  | missingField (name : String)
  | duplicateField (name : String)
  deriving DecidableEq, Repr

def ticked (s : String) : String := "`" ++ s ++ "`"

def alternatives : List String → String
  | [a] => ticked a
  | [a, b] => ticked a ++ " or " ++ ticked b
  | names => "one of " ++ ", ".intercalate (names.map ticked)

def Fault.message : Fault → String
  | endInValue => "EOF while parsing a value"
  | endInString => "EOF while parsing a string"
  | endInList => "EOF while parsing a list"
  | endInObject => "EOF while parsing an object"
  | expectedLiteral => "expected ident"
  | expectedValue => "expected value"
  | expectedColon => "expected `:`"
  | expectedListSeparator => "expected `,` or `]`"
  | expectedObjectSeparator => "expected `,` or `\x7d`"
  | keyNotString => "key must be a string"
  | invalidEscape => "invalid escape"
  | invalidNumber => "invalid number"
  | numberOutOfRange => "number out of range"
  | loneSurrogate => "lone leading surrogate in hex escape"
  | incompleteSurrogatePair => "unexpected end of hex escape"
  | controlCharacter => "control character (\\u0000-\\u001F) found while parsing a string"
  | trailingComma => "trailing comma"
  | trailingCharacters => "trailing characters"
  | tooDeep => "recursion limit exceeded"
  | wrongType found expected => s!"invalid type: {found.describe}, expected {expected}"
  | wrongInteger found expected => s!"invalid value: integer `{found}`, expected {expected}"
  | wrongMap => "invalid value: map, expected map with a single key"
  | wrongLength found expected => s!"invalid length {found}, expected {expected}"
  | unknownVariant found known =>
    s!"unknown variant `{found}`, expected " ++ alternatives known
  | missingField name => s!"missing field `{name}`"
  | duplicateField name => s!"duplicate field `{name}`"

end LogTemplate.Json

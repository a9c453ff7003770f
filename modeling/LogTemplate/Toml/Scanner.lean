import LogTemplate.Toml.Value

/-! The small parts of a settings document: blanks, keys, strings, numbers and dates. A scan takes
what it can from the front of the text and fails without taking anything. -/

namespace LogTemplate.Toml

abbrev Scanner (α : Type) := StateT (List Char) Option α

namespace Scanner

variable {α : Type}

def peek : Scanner (Option Char) := fun text => some (text.head?, text)

def satisfy (p : Char → Bool) : Scanner Char
  | c :: rest => if p c then some (c, rest) else none
  | [] => none

def char (c : Char) : Scanner Unit := do
  let _ ← satisfy (· = c)

def text (expected : List Char) : Scanner Unit := fun rest =>
  (expected.isPrefixOf? rest).map fun rest => ((), rest)

def takeWhile (p : Char → Bool) : Scanner (List Char) := fun text =>
  some (text.takeWhile p, text.dropWhile p)

def takeWhile1 (p : Char → Bool) : Scanner (List Char) := do
  let first ← satisfy p
  let rest ← takeWhile p
  return first :: rest

def manyBelow (s : Scanner α) : Nat → Scanner (List α)
  | 0 => pure []
  | n + 1 => fun text =>
    match s text with
    | some (a, rest) => (manyBelow s n rest).map fun (as, rest) => (a :: as, rest)
    | none => some ([], text)

def many (s : Scanner α) : Scanner (List α) := fun text => manyBelow s text.length text

def separated1 (s : Scanner α) (separator : Scanner Unit) : Scanner (List α) := do
  let first ← s
  let rest ← many (do separator; s)
  return first :: rest

def separated (s : Scanner α) (separator : Scanner Unit) : Scanner (List α) :=
  separated1 s separator <|> pure []

def optional (s : Scanner α) : Scanner (Option α) := some <$> s <|> pure none

def guard (b : Bool) : Scanner Unit := if b then pure () else failure

/-! ### Blanks, lines and comments -/

def isBlank (c : Char) : Bool := c = ' ' || c = '\t'

def isAllowed (c : Char) : Bool := c = '\t' || (32 ≤ c.toNat && c.toNat ≠ 127)

def blanks : Scanner Unit := do
  let _ ← takeWhile isBlank

def newline : Scanner Unit := char '\n' <|> text ['\r', '\n']

def atEnd : Scanner Unit
  | [] => some ((), [])
  | _ => none

def comment : Scanner Unit := do
  char '#'
  let _ ← takeWhile isAllowed

def lineEnd : Scanner Unit := do
  blanks
  let _ ← optional comment
  newline <|> atEnd

def space : Scanner Unit := do
  let _ ← many ((do let _ ← takeWhile1 isBlank) <|> newline <|> (do comment; newline))

/-! ### Strings -/

def isHexDigit (c : Char) : Bool :=
  c.isDigit || ('a' ≤ c && c ≤ 'f') || ('A' ≤ c && c ≤ 'F')

def hexValue (c : Char) : Nat :=
  if c.isDigit then c.toNat - '0'.toNat
  else if 'a' ≤ c then c.toNat - 'a'.toNat + 10
  else c.toNat - 'A'.toNat + 10

def hexNumber (ds : List Char) : Nat := ds.foldl (fun n d => n * 16 + hexValue d) 0

def codePoint (digits : Nat) : Scanner Char := fun text =>
  let ds := text.take digits
  let n := hexNumber ds
  if ds.length = digits && ds.all isHexDigit && (n < 0xd800 || (0xdfff < n && n < 0x110000)) then
    some (Char.ofNat n, text.drop digits)
  else none

def escape : Scanner Char := do
  char '\\'
  match ← satisfy fun _ => true with
  | 'b' => return '\x08'
  | 't' => return '\t'
  | 'n' => return '\n'
  | 'f' => return '\x0c'
  | 'r' => return '\r'
  | '"' => return '"'
  | '\\' => return '\\'
  | 'u' => codePoint 4
  | 'U' => codePoint 8
  | _ => failure

def plain (quote : Char) (c : Char) : Bool := isAllowed c && c ≠ quote && c ≠ '\\'

def basicString : Scanner String := do
  char '"'
  let cs ← many (satisfy (plain '"') <|> escape)
  char '"'
  return String.ofList cs

def literalString : Scanner String := do
  char '\''
  let cs ← takeWhile fun c => isAllowed c && c ≠ '\''
  char '\''
  return String.ofList cs

def continuation : Scanner (List Char) := do
  char '\\'
  blanks
  newline
  let _ ← many ((do let _ ← takeWhile1 isBlank) <|> newline)
  return []

def lineBreak : Scanner (List Char) := do
  newline
  return ['\n']

def innerQuotes (quote : Char) : Scanner (List Char) := do
  let qs ← takeWhile1 (· = quote)
  guard (qs.length < 3)
  return qs

/-- The end of a text of several lines: three quotes, with one or two before them that belong to the
text. -/
def closingQuotes (quote : Char) : Scanner (List Char) := fun text =>
  let n := (text.takeWhile (· = quote)).length
  if n < 3 then none
  else
    let inner := min (n - 3) 2
    some (List.replicate inner quote, text.drop (inner + 3))

def multiline (quote : Char) (content : Scanner (List Char)) : Scanner String := do
  text [quote, quote, quote]
  let _ ← optional newline
  let parts ← many (content <|> innerQuotes quote)
  let last ← closingQuotes quote
  return String.ofList (parts.flatten ++ last)

def multilineBasic : Scanner String :=
  multiline '"' (takeWhile1 (plain '"') <|> continuation <|> (do return [← escape]) <|> lineBreak)

def multilineLiteral : Scanner String :=
  multiline '\'' (takeWhile1 (fun c => isAllowed c && c ≠ '\'') <|> lineBreak)

def string : Scanner String := multilineBasic <|> basicString <|> multilineLiteral <|> literalString

/-! ### Keys -/

def isBare (c : Char) : Bool := c.isAlphanum || c = '-' || c = '_'

def simpleKey : Scanner String :=
  basicString <|> literalString <|> (do return String.ofList (← takeWhile1 isBare))

/-- A dotted key may have fewer parts than this, and values may be nested less deep. -/
def maxParts : Nat := 80

def key : Scanner (List String × String) := do
  let part : Scanner String := do
    blanks
    let k ← simpleKey
    blanks
    return k
  let parts ← separated1 part (char '.')
  guard (parts.length < maxParts)
  match parts.getLast? with
  | some last => return (parts.dropLast, last)
  | none => failure

/-! ### Numbers -/

def mark : Scanner (Option Char) := optional (satisfy fun c => c = '+' || c = '-')

def digitsOf (isDigit : Char → Bool) : Scanner (List Char) := do
  let first ← satisfy isDigit
  let rest ← many (satisfy isDigit <|> (do char '_'; satisfy isDigit))
  return first :: rest

def decimalDigits : Scanner (List Char) := digitsOf Char.isDigit

def wholeDigits : Scanner (List Char) := do
  if (← peek) = some '0' then
    char '0'
    return ['0']
  else decimalDigits

def natOfDigits (base : Nat) (ds : List Char) : Nat := ds.foldl (fun n d => n * base + hexValue d) 0

def inRange (i : Int) : Bool := -9223372036854775808 ≤ i && i ≤ 9223372036854775807

def based (letter : Char) (base : Nat) (isDigit : Char → Bool) : Scanner Toml := do
  text ['0', letter]
  let n := natOfDigits base (← digitsOf isDigit)
  guard (inRange n)
  return .integer n

def decimalInteger : Scanner Toml := do
  let negative := (← mark) = some '-'
  let n := natOfDigits 10 (← wholeDigits)
  let i : Int := if negative then -n else n
  guard (inRange i)
  return .integer i

def integer : Scanner Toml :=
  based 'x' 16 isHexDigit <|> based 'o' 8 (fun c => '0' ≤ c && c ≤ '7')
    <|> based 'b' 2 (fun c => c = '0' || c = '1') <|> decimalInteger

def exponentPart : Scanner Int := do
  let _ ← satisfy fun c => c = 'e' || c = 'E'
  let negative := (← mark) = some '-'
  let n := natOfDigits 10 (← decimalDigits)
  return if negative then -n else n

def fractionPart : Scanner (List Char) := do
  char '.'
  decimalDigits

/-- The nearest binary number. One above the range is refused, one below it is infinite. -/
def floatOf (negative : Bool) (digits : List Char) (exponent : Int) : Option TomlFloat :=
  match Binary.ofDecimal? (natOfDigits 10 digits) exponent with
  | some b => some (.finite negative b)
  | none => if negative then some (.infinite true) else none

def decimalFloat : Scanner Toml := do
  let negative := (← mark) = some '-'
  let whole ← wholeDigits
  let fraction ← optional fractionPart
  let exponent ← optional exponentPart
  guard (fraction.isSome || exponent.isSome)
  let digits := fraction.getD []
  match floatOf negative (whole ++ digits) (exponent.getD 0 - digits.length) with
  | some x => return .float x
  | none => failure

def specialFloat : Scanner Toml := do
  let negative := (← mark) = some '-'
  (do text ['i', 'n', 'f']; return .float (.infinite negative))
    <|> (do text ['n', 'a', 'n']; return .float .nan)

/-! ### Dates and times -/

def fixedDigits (n : Nat) : Scanner Nat := fun text =>
  let ds := text.take n
  if ds.length = n && ds.all Char.isDigit then some (natOfDigits 10 ds, text.drop n) else none

def numberBetween (digits low high : Nat) : Scanner Nat := do
  let n ← fixedDigits digits
  guard (low ≤ n && n ≤ high)
  return n

def isLeapYear (year : Nat) : Bool := year % 4 = 0 && (year % 100 ≠ 0 || year % 400 = 0)

def daysInMonth (year month : Nat) : Nat :=
  if month = 2 then if isLeapYear year then 29 else 28
  else if month = 4 || month = 6 || month = 9 || month = 11 then 30
  else 31

def fullDate : Scanner Unit := do
  let year ← fixedDigits 4
  char '-'
  let month ← numberBetween 2 1 12
  char '-'
  let _ ← numberBetween 2 1 (daysInMonth year month)

def timeOfDay : Scanner Unit := do
  let _ ← numberBetween 2 0 23
  char ':'
  let _ ← numberBetween 2 0 59
  char ':'
  let _ ← numberBetween 2 0 60
  let _ ← optional (do char '.'; takeWhile1 Char.isDigit)

def timeOffset : Scanner Unit := do
  let zulu : Scanner Unit := do
    let _ ← satisfy fun c => c = 'Z' || c = 'z'
  let numeric : Scanner Unit := do
    let _ ← satisfy fun c => c = '+' || c = '-'
    let _ ← numberBetween 2 0 23
    char ':'
    let _ ← numberBetween 2 0 59
  zulu <|> numeric

def dateTime : Scanner Toml := do
  let timeOfDate : Scanner Unit := do
    let _ ← satisfy fun c => c = 'T' || c = 't' || c = ' '
    timeOfDay
    let _ ← optional timeOffset
  (do fullDate; let _ ← optional timeOfDate) <|> timeOfDay
  return .date

end Scanner

end LogTemplate.Toml

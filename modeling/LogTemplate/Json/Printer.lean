import LogTemplate.Json.Value
import LogTemplate.Decimal.Digits
import LogTemplate.Decimal.Text

/-! Writing values, either without a blank or with one field or item to a line, two blanks deeper
for each level. Strings are written as they are but for quotes, backslashes and control
characters. -/

namespace LogTemplate.Json

def hexDigit (n : Nat) : Char := Nat.digitChar n

def escapeChar (c : Char) : List Char :=
  if c = '"' then ['\\', '"']
  else if c = '\\' then ['\\', '\\']
  else if c = '\n' then ['\\', 'n']
  else if c = '\r' then ['\\', 'r']
  else if c = '\t' then ['\\', 't']
  else if c.toNat = 8 then ['\\', 'b']
  else if c.toNat = 12 then ['\\', 'f']
  else if c.toNat < 32 then ['\\', 'u', '0', '0', hexDigit (c.toNat / 16), hexDigit (c.toNat % 16)]
  else [c]

def quote (s : String) : List Char := '"' :: s.toList.flatMap escapeChar ++ ['"']

def decimalStyle : Binary.Style := ⟨.toEven, fun leading => -5 ≤ leading && leading < 16⟩

def decimalText (negative : Bool) (magnitude : Binary) : String :=
  (if negative then "-" else "") ++ magnitude.text decimalStyle

inductive Layout where
  | compact
  | indented (level : Nat)

def Layout.deeper : Layout → Layout
  | compact => compact
  | indented n => indented (n + 1)

def Layout.newline : Layout → List Char
  | compact => []
  | indented n => '\n' :: List.replicate (2 * n) ' '

def Layout.colon : Layout → List Char
  | compact => [':']
  | indented _ => [':', ' ']

mutual
def write (l : Layout) : Json → List Char
  | null => ['n', 'u', 'l', 'l']
  | bool true => ['t', 'r', 'u', 'e']
  | bool false => ['f', 'a', 'l', 's', 'e']
  | integer i => Decimal.integerDigits i
  | decimal negative magnitude => (decimalText negative magnitude).toList
  | string s => quote s
  | array [] => ['[', ']']
  | array (v :: rest) =>
    '[' :: l.deeper.newline ++ write l.deeper v ++ writeItems l.deeper rest ++ l.newline ++ [']']
  | object [] => ['{', '}']
  | object ((k, v) :: rest) =>
    '{' :: l.deeper.newline ++ quote k ++ l.colon ++ write l.deeper v ++ writeFields l.deeper rest
      ++ l.newline ++ ['}']

def writeItems (l : Layout) : List Json → List Char
  | [] => []
  | v :: rest => ',' :: l.newline ++ write l v ++ writeItems l rest

def writeFields (l : Layout) : List (String × Json) → List Char
  | [] => []
  | (k, v) :: rest => ',' :: l.newline ++ quote k ++ l.colon ++ write l v ++ writeFields l rest
end

def compact (v : Json) : String := String.ofList (write .compact v)

def pretty (v : Json) : String := String.ofList (write (.indented 0) v)

end LogTemplate.Json

import LogTemplate.Toml.Scanner

/-! Values and whole documents. A document is well-formed or it is not; nothing is said about
why. -/

namespace LogTemplate.Toml

namespace Scanner

def simple : Scanner Toml :=
  (do return .string (← string))
    <|> (do text ['t', 'r', 'u', 'e']; return .bool true)
    <|> (do text ['f', 'a', 'l', 's', 'e']; return .bool false)
    <|> dateTime <|> decimalFloat <|> specialFloat <|> integer

def arrayOf (value : Scanner Toml) : Scanner Toml := do
  char '['
  let item : Scanner Toml := do
    space
    let v ← value
    space
    return v
  let items ← (do
      let items ← separated1 item (char ',')
      let _ ← optional (char ',')
      return items) <|> pure []
  space
  char ']'
  return .array items

def entry (value : Scanner Toml) : Scanner ((List String × String) × Toml) := do
  let k ← key
  char '='
  blanks
  let v ← value
  return (k, v)

def inlineTable (value : Scanner Toml) : Scanner Toml := do
  char '{'
  let item : Scanner ((List String × String) × Toml) := do
    let e ← entry value
    blanks
    return e
  let entries ← separated item (char ',')
  blanks
  char '}'
  match entries.foldlM (fun items ((path, k), v) => addValue path k v items) [] with
  | some items => return .table (entriesToToml items)
  | none => failure

def value : Nat → Scanner Toml
  | 0 => simple
  | levels + 1 => simple <|> arrayOf (value levels) <|> inlineTable (value levels)

def header : Scanner (Draft → Option Draft) := do
  let element : Scanner (Draft → Option Draft) := do
    text ['[', '[']
    let (path, k) ← key
    text [']', ']']
    return fun d => d.openElement path k
  let table : Scanner (Draft → Option Draft) := do
    char '['
    let (path, k) ← key
    char ']'
    return fun d => d.openTable path k
  element <|> table

def line : Scanner (Draft → Option Draft) := do
  blanks
  let change : Scanner (Draft → Option Draft) :=
    header <|> (do
      let ((path, k), v) ← entry (value (maxParts - 1))
      return fun d => d.add path k v) <|> pure some
  let f ← change
  lineEnd
  return f

def linesBelow : Nat → Draft → Scanner Draft
  | 0, d => pure d
  | n + 1, d => do
    if (← peek).isNone then return d
    else
      let f ← line
      match f d with
      | some d => linesBelow n d
      | none => failure

end Scanner

def withoutMark : List Char → List Char
  | '\ufeff' :: rest => rest
  | text => text

def parse? (text : String) : Option (List (String × Toml)) := do
  let text := withoutMark text.toList
  let (d, rest) ← Scanner.linesBelow text.length {} text
  if rest.isEmpty then
    let items ← d.close
    return entriesToToml items
  else none

end LogTemplate.Toml

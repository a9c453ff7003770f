import LogTemplate.Json.Token

/-! Reading values. Arrays and objects may be open at most `maxDepth` deep; the number of levels
still free is handed down. -/

namespace LogTemplate.Json

def maxDepth : Nat := 127

namespace Reader

variable {α : Type}

def closeList : Reader Unit := do
  match ← next with
  | some ']' => advance
  | some ',' =>
    advance
    if (← next) = some ']' then rejectPast .trailingComma else rejectPast .trailingCharacters
  | some _ => rejectPast .trailingCharacters
  | none => rejectPast .endInList

def closeObject : Reader Unit := do
  match ← next with
  | some '}' => advance
  | some ',' => rejectPast .trailingComma
  | some _ => rejectPast .trailingCharacters
  | none => rejectPast .endInObject

/-- Reads what a bracket encloses. Also when that is refused the closing bracket is looked for, so
that the refusal can be placed behind it. -/
def enclosed (close : Reader Unit) (body : Reader α) : Reader α := fun c =>
  match (do advance; body : Reader α) c with
  | (.ok a, c) =>
    match close c with
    | (.ok (), c) => (.ok a, c)
    | (.error e, c) => (.error e, c)
  | (.error e, c) => (.error e, (close c).2)

def nested (close : Reader Unit) (body : Nat → Reader α) : Nat → Reader α
  | 0 => rejectPast .tooDeep
  | levels + 1 => enclosed close (body levels)

def nextItem (isFirst : Bool) : Reader Bool := do
  match ← next with
  | none => rejectPast .endInList
  | some ']' => return false
  | some c =>
    if isFirst then return true
    else if c = ',' then
      advance
      match ← next with
      | some ']' => rejectPast .trailingComma
      | some _ => return true
      | none => rejectPast .endInValue
    else rejectPast .expectedListSeparator

def nextKey (isFirst : Bool) : Reader (Option String) := do
  match ← next with
  | none => rejectPast .endInObject
  | some '}' => return none
  | some c =>
    let start ←
      if isFirst then pure c
      else if c = ',' then do
        advance
        match ← next with
        | some '}' => rejectPast .trailingComma
        | some c => pure c
        | none => rejectPast .endInValue
      else rejectPast .expectedObjectSeparator
    if start = '"' then
      let key ← string
      return some key
    else rejectPast .keyNotString

def colon : Reader Unit := do
  match ← next with
  | some ':' => advance
  | some _ => rejectPast .expectedColon
  | none => rejectPast .endInObject

def items (item : Reader α) : Nat → Bool → Reader (List α)
  | 0, _ => pure []
  | n + 1, isFirst => do
    if ← nextItem isFirst then
      let x ← item
      let rest ← items item n false
      return x :: rest
    else return []

def fields {σ : Type} (field : String → σ → Reader σ) : Nat → Bool → σ → Reader σ
  | 0, _, s => pure s
  | n + 1, isFirst, s => do
    match ← nextKey isFirst with
    | none => return s
    | some key =>
      let s ← field key s
      fields field n false s

def value (levels : Nat) : Reader Json := located do
  let c ← begin
  if c = '[' then
    match levels with
    | 0 => rejectPast .tooDeep
    | levels + 1 =>
      let vs ← enclosed closeList (do items (value levels) (← size) true)
      return .array vs
  else if c = '{' then
    match levels with
    | 0 => rejectPast .tooDeep
    | levels + 1 =>
      let field (key : String) (fs : List (String × Json)) : Reader (List (String × Json)) := do
        colon
        let v ← value levels
        return (key, v) :: fs
      let fs ← enclosed closeObject (do fields field (← size) true [])
      return .object fs.reverse
  else scalar c

def finish : Reader Unit := do
  if (← next).isSome then rejectPast .trailingCharacters

inductive Bracket where
  | list
  | object
  deriving DecidableEq

def Bracket.closing : Bracket → Char
  | list => ']'
  | object => '}'

def Bracket.ended : Bracket → Fault
  | list => .endInList
  | object => .endInObject

def Bracket.unseparated : Bracket → Fault
  | list => .expectedListSeparator
  | object => .expectedObjectSeparator

def Bracket.skipLabel : Bracket → Reader Unit
  | list => pure ()
  | object => do
    match ← next with
    | none => rejectPast .endInObject
    | some c =>
      if c = '"' then
        skipString
        colon
      else rejectPast .keyNotString

/-- Skips one value with all it holds, however deep: `opened` are the brackets still to be closed,
and `hasItem` tells whether something stands before the cursor that a separator must follow; `none`
if a value comes next. Each two steps move on in the text. -/
def skipSteps : Nat → Option Bool → List Bracket → Reader Unit
  | 0, _, _ => pure ()
  | n + 1, none, opened => do
    let c ← begin
    if c = '[' then
      advance
      skipSteps n (some false) (.list :: opened)
    else if c = '{' then
      advance
      skipSteps n (some false) (.object :: opened)
    else
      if c = '"' then skipString
      else if startsNumber c then skipNumber
      else
        let _ ← scalar c
      skipSteps n (some true) opened
  | _ + 1, some _, [] => pure ()
  | n + 1, some hasItem, b :: opened => do
    match ← next with
    | none => rejectPast b.ended
    | some c =>
      if c = ',' && hasItem then
        advance
        b.skipLabel
        skipSteps n none (b :: opened)
      else if c = b.closing then
        advance
        skipSteps n (some true) opened
      else if hasItem then rejectPast b.unseparated
      else
        b.skipLabel
        skipSteps n none (b :: opened)

def skip : Reader Unit := do
  skipSteps (2 * (← size) + 2) none []

end Reader

def readAll {α : Type} (r : Reader α) (text : String) : Except Rejection α :=
  ((do let a ← r; Reader.finish; return a : Reader α) (.ofText text)).1

def parse (text : String) : Except Rejection Json := readAll (Reader.value maxDepth) text

end LogTemplate.Json

import LogTemplate.Json.Cursor
import LogTemplate.Json.Numeral
import LogTemplate.Total

/-! The tokens of the data format: strings, numbers and the three words. Text that is read only to
be skipped is held to fewer rules; the flag `strict` tells. -/

namespace LogTemplate.Json

open Reader

def hexValue (c : Char) : Option Nat :=
  if c.isDigit then some (c.toNat - '0'.toNat)
  else if 'a' ≤ c ∧ c ≤ 'f' then some (c.toNat - 'a'.toNat + 10)
  else if 'A' ≤ c ∧ c ≤ 'F' then some (c.toNat - 'A'.toNat + 10)
  else none

abbrev Scan (α : Type) := Except Rejection (α × List Char × Position)

def rejectAt {α : Type} (fault : Fault) (p : Position) : Except Rejection α :=
  .error ⟨fault, some p⟩

def byteCount (text : List Char) : Nat := total Char.utf8Size text

def scanHex (text : List Char) (p : Position) : Scan Nat :=
  if byteCount (text.take 4) < 4 then rejectAt .endInString (p.afterAll text)
  else
    let refused := rejectAt .invalidEscape (p.afterBytes 4 text)
    match text with
    | a :: b :: c :: d :: rest =>
      match hexValue a, hexValue b, hexValue c, hexValue d with
      | some a, some b, some c, some d =>
        .ok (((a * 16 + b) * 16 + c) * 16 + d, rest, ⟨p.line, p.column + 4⟩)
      | _, _, _, _ => refused
    | _ => refused

def isHighSurrogate (n : Nat) : Bool := 0xd800 ≤ n && n ≤ 0xdbff

def isLowSurrogate (n : Nat) : Bool := 0xdc00 ≤ n && n ≤ 0xdfff

def scanLowSurrogate (high : Nat) (text : List Char) (p : Position) : Scan Char :=
  match text with
  | [] => rejectAt .endInString p
  | '\\' :: [] => rejectAt .endInString (p.after '\\')
  | '\\' :: 'u' :: rest =>
    match scanHex rest ((p.after '\\').after 'u') with
    | .error e => .error e
    | .ok (low, rest, q) =>
      if isLowSurrogate low then
        .ok (Char.ofNat (0x10000 + (high - 0xd800) * 0x400 + (low - 0xdc00)), rest, q)
      else rejectAt .loneSurrogate q
  | '\\' :: rest => rejectAt .incompleteSurrogatePair ((p.after '\\').afterBytes 1 rest)
  | text => rejectAt .incompleteSurrogatePair (p.afterBytes 1 text)

/-- A character given by number. Text that is skipped may hold halves of pairs. -/
def scanCodePoint (strict : Bool) (text : List Char) (p : Position) : Scan (List Char) :=
  match scanHex text p with
  | .error e => .error e
  | .ok (n, rest, q) =>
    if !strict then .ok ([], rest, q)
    else if isLowSurrogate n then rejectAt .loneSurrogate q
    else if isHighSurrogate n then
      match scanLowSurrogate n rest q with
      | .error e => .error e
      | .ok (c, rest, q) => .ok ([c], rest, q)
    else .ok ([Char.ofNat n], rest, q)

def shortEscape : Char → Option Char
  | '"' => some '"'
  | '\\' => some '\\'
  | '/' => some '/'
  | 'b' => some '\x08'
  | 'f' => some '\x0c'
  | 'n' => some '\n'
  | 'r' => some '\r'
  | 't' => some '\t'
  | _ => none

def scanEscape (strict : Bool) (text : List Char) (p : Position) : Scan (List Char) :=
  match text with
  | [] => rejectAt .endInString p
  | 'u' :: rest => scanCodePoint strict rest (p.after 'u')
  | c :: rest =>
    match shortEscape c with
    | some x => .ok ([x], rest, p.after c)
    | none => rejectAt .invalidEscape (p.afterBytes 1 text)

theorem length_of_scanHex {text rest : List Char} {p q : Position} {n : Nat}
    (h : scanHex text p = .ok (n, rest, q)) : rest.length < text.length := by
  unfold scanHex at h
  split at h
  · simp [rejectAt] at h
  · dsimp only at h
    split at h
    · split at h <;> simp [rejectAt] at h
      simp [← h.2.1]; omega
    · simp [rejectAt] at h

theorem length_of_scanLowSurrogate {text rest : List Char} {p q : Position} {n : Nat} {c : Char}
    (h : scanLowSurrogate n text p = .ok (c, rest, q)) : rest.length < text.length := by
  unfold scanLowSurrogate at h
  split at h <;> try simp [rejectAt] at h
  split at h
  · simp at h
  · rename_i hx
    have := length_of_scanHex hx
    split at h <;> simp at h
    simp [← h.2.1]; omega

theorem length_of_scanCodePoint {strict : Bool} {text rest out : List Char} {p q : Position}
    (h : scanCodePoint strict text p = .ok (out, rest, q)) : rest.length < text.length := by
  unfold scanCodePoint at h
  split at h
  · simp at h
  · rename_i hx
    have := length_of_scanHex hx
    split at h
    · simp at h; simp [← h.2.1, this]
    · split at h
      · simp [rejectAt] at h
      · split at h
        · split at h
          · simp at h
          · rename_i hy
            have := length_of_scanLowSurrogate hy
            simp at h
            simp [← h.2.1]; omega
        · simp at h; simp [← h.2.1, this]

theorem length_of_scanEscape {strict : Bool} {text rest out : List Char} {p q : Position}
    (h : scanEscape strict text p = .ok (out, rest, q)) : rest.length < text.length := by
  unfold scanEscape at h
  split at h
  · simp [rejectAt] at h
  · have := length_of_scanCodePoint h
    simp; omega
  · split at h <;> simp [rejectAt] at h
    simp [← h.2.1]

/-- The rest of a string behind its opening quote. `done` holds what was read so far, backwards. -/
def scanString (strict : Bool) (done : List Char) (text : List Char) (p : Position) :
    Scan (List Char) :=
  match text with
  | [] => rejectAt .endInString p
  | '"' :: rest => .ok (done.reverse, rest, p.after '"')
  | '\\' :: rest =>
    match _h : scanEscape strict rest (p.after '\\') with
    | .ok (cs, rest', q) => scanString strict (cs ++ done) rest' q
    | .error e => .error e
  | c :: rest =>
    if c.toNat < 32 then rejectAt .controlCharacter (if strict then p.after c else p)
    else scanString strict (c :: done) rest (p.after c)
termination_by text.length
decreasing_by
  · have := length_of_scanEscape _h
    simp; omega
  · simp

namespace Reader

def scan {α : Type} (f : List Char → Position → Scan α) : Reader α := fun c =>
  match f c.rest c.position with
  | .ok (a, rest, position) => (.ok a, { c with rest, position })
  | .error e => (.error e, c)

def string : Reader String := do
  advance
  let cs ← scan (scanString true [])
  return String.ofList cs

def skipString : Reader Unit := do
  advance
  let _ ← scan (scanString false [])

def word : List Char → Reader Unit
  | [] => pure ()
  | w :: rest => do
    match ← peek with
    | none => rejectHere .endInValue
    | some c =>
      if c = w then do
        advance
        word rest
      else rejectPast .expectedLiteral

def wholeDigits (strict : Bool) : Reader (List Char) := do
  match ← peek with
  | none => rejectHere (if strict then .endInValue else .invalidNumber)
  | some '0' =>
    advance
    match ← peek with
    | some c => if c.isDigit then rejectPast .invalidNumber else return ['0']
    | none => return ['0']
  | some c => if c.isDigit then digits else rejectPast .invalidNumber

def fractionDigits (strict : Bool) : Reader (Option (List Char)) := do
  if (← peek) = some '.' then
    advance
    let ds ← digits
    if ds.isEmpty then
      if strict && (← peek).isNone then rejectHere .endInValue else rejectPast .invalidNumber
    else return some ds
  else return none

def exponentDigits (strict : Bool) : Reader (Option (Bool × List Char)) := do
  match ← peek with
  | some 'e' | some 'E' =>
    advance
    let mark ← peek
    if mark = some '+' || mark = some '-' then advance
    let ds ← digits
    if ds.isEmpty then
      if (← peek).isNone then rejectHere (if strict then .endInValue else .invalidNumber)
      else rejectPast .invalidNumber
    else return some (mark = some '-', ds)
  | _ => return none

def numeral (strict : Bool) : Reader Numeral := do
  let negative := (← peek) = some '-'
  if negative then advance
  let whole ← wholeDigits strict
  let fraction ← fractionDigits strict
  let exponent ← exponentDigits strict
  return ⟨negative, whole, fraction, exponent⟩

def number : Reader Json := do
  let n ← numeral true
  match n.value? with
  | some v => return v
  | none => rejectBefore n.unreadDigits .numberOutOfRange

def skipNumber : Reader Unit := do
  let _ ← numeral false

def startsNumber (c : Char) : Bool := c = '-' || c.isDigit

def scalar (c : Char) : Reader Json :=
  if c = 'n' then do
    advance
    word ['u', 'l', 'l']
    return .null
  else if c = 't' then do
    advance
    word ['r', 'u', 'e']
    return .bool true
  else if c = 'f' then do
    advance
    word ['a', 'l', 's', 'e']
    return .bool false
  else if startsNumber c then number
  else if c = '"' then do
    let s ← string
    return .string s
  else rejectPast .expectedValue

def unexpected {α : Type} (expected : String) (c : Char) : Reader α := do
  if c = '[' then reject (.wrongType .sequence expected)
  else if c = '{' then reject (.wrongType .map expected)
  else
    let v ← scalar c
    reject (.wrongType v.found expected)

end Reader

end LogTemplate.Json

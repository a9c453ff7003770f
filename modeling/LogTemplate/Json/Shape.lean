import LogTemplate.Json.Reader

/-! Shapes: how the values of a type are written, and how they are read, from a text as it comes or
from a value that was read before. The two ways of reading refuse the same values; only the first
can tell the place. -/

namespace LogTemplate.Json

open Reader

structure Shape (α : Type) where
  write : α → Json
  /-- Reads a text; the number tells how many levels of nesting are left. -/
  stream : Nat → Reader α
  decode : Json → Except Fault α

namespace Shape

variable {α σ : Type}

def expectString : Json → Except Fault String
  | .string s => .ok s
  | v => .error (.wrongType v.found "a string")

def text : Shape String where
  write := .string
  stream _ := located do
    let c ← begin
    if c = '"' then Reader.string else unexpected "a string" c
  decode := expectString

def expectNat (name : String) (bound : Nat) : Json → Except Fault Nat
  | .integer i => if 0 ≤ i ∧ i < bound then .ok i.toNat else .error (.wrongInteger i name)
  | v => .error (.wrongType v.found name)

def bounded (name : String) (bound : Nat) : Shape Nat where
  write := .nat
  stream _ := located do
    let c ← begin
    if startsNumber c then
      let v ← number
      ofExcept (expectNat name bound v)
    else unexpected name c
  decode := expectNat name bound

def convert {β : Type} (s : Shape α) (forth : α → β) (back : β → α) : Shape β where
  write b := s.write (back b)
  stream levels := do
    let a ← s.stream levels
    return forth a
  decode v := (s.decode v).map forth

def count : Shape Nat := bounded "usize" UInt64.size

def uint64 : Shape UInt64 := count.convert Nat.toUInt64 UInt64.toNat

def uint32 : Shape UInt32 := (bounded "u32" UInt32.size).convert Nat.toUInt32 UInt32.toNat

def optional (s : Shape α) : Shape (Option α) where
  write a := a.elim .null s.write
  stream levels := do
    if (← next) = some 'n' then
      let _ ← scalar 'n'
      return none
    else
      let a ← s.stream levels
      return some a
  decode
    | .null => .ok none
    | v => (s.decode v).map some

def decodeList (decode : Json → Except Fault α) : Json → Except Fault (List α)
  | .array vs => vs.mapM decode
  | v => .error (.wrongType v.found "a sequence")

def list (s : Shape α) : Shape (List α) where
  write as := .array (as.map s.write)
  stream levels := located do
    let c ← begin
    if c = '[' then
      nested closeList (fun levels => do items (s.stream levels) (← size) true) levels
    else unexpected "a sequence" c
  decode := decodeList s.decode

end Shape

/-! ### Records -/

/-- Whether a field may be left out. One that may be null may be left out of an object only. -/
inductive Presence where
  | required
  | nullable
  | defaulted
  deriving DecidableEq, Repr

structure Slot (σ : Type) where
  name : String
  presence : Presence
  decode : Json → Except Fault (σ → σ)

structure Member (σ : Type) extends Slot σ where
  write : σ → Json
  stream : Nat → Reader (σ → σ)

def Slot.ofDecode {α σ : Type} (name : String) (presence : Presence)
    (decode : Json → Except Fault α) (put : α → σ → σ) : Slot σ :=
  ⟨name, presence, fun v => (decode v).map put⟩

def Member.ofShape {α σ : Type} (name : String) (presence : Presence) (s : Shape α) (get : σ → α)
    (put : α → σ → σ) : Member σ where
  toSlot := .ofDecode name presence s.decode put
  write r := s.write (get r)
  stream levels := do
    let a ← s.stream levels
    return put a

section Record

variable {σ : Type}

def requireAll (seen : List String) : List (Slot σ) → Except Fault Unit
  | [] => .ok ()
  | f :: rest =>
    if seen.contains f.name || f.presence ≠ .required then requireAll seen rest
    else .error (.missingField f.name)

def decodeNamed (slots : List (Slot σ)) : List (String × Json) → List String → σ → Except Fault σ
  | [], seen, r => do
    requireAll seen slots
    return r
  | (key, v) :: rest, seen, r =>
    match slots.find? (·.name = key) with
    | none => decodeNamed slots rest seen r
    | some f => do
      if seen.contains key then throw (.duplicateField key)
      let put ← f.decode v
      decodeNamed slots rest (key :: seen) (put r)

def decodeOrdered (kind : String) (total : Nat) :
    List (Slot σ) → Nat → List Json → σ → Except Fault σ
  | [], _, [], r => .ok r
  | [], index, vs@(_ :: _), _ =>
    .error (.wrongLength (index + vs.length) s!"{total} elements in sequence")
  | f :: rest, index, [], r =>
    if f.presence = .defaulted then decodeOrdered kind total rest (index + 1) [] r
    else .error (.wrongLength index (withElements kind total))
  | f :: rest, index, v :: vs, r => do
    let put ← f.decode v
    decodeOrdered kind total rest (index + 1) vs (put r)

def decodeRecord (kind : String) (slots : List (Slot σ)) (r : σ) : Json → Except Fault σ
  | .object fields => decodeNamed slots fields [] r
  | .array vs => decodeOrdered kind slots.length slots 0 vs r
  | v => .error (.wrongType v.found kind)

def streamField (fields : List (Member σ)) (levels : Nat) (key : String) :
    List String × σ → Reader (List String × σ)
  | (seen, r) => do
    if seen.contains key then reject (.duplicateField key)
    else
      colon
      match fields.find? (·.name = key) with
      | none => do
        skip
        return (seen, r)
      | some f => do
        let put ← f.stream levels
        return (key :: seen, put r)

def streamNamed (fields : List (Member σ)) (r : σ) (levels : Nat) : Reader σ := do
  let (seen, r) ← Reader.fields (streamField fields levels) (← size) true ([], r)
  ofExcept (requireAll seen (fields.map Member.toSlot))
  return r

def streamOrdered (kind : String) (total : Nat) (levels : Nat) :
    List (Member σ) → Nat → σ → Reader σ
  | [], _, r => pure r
  | f :: rest, index, r => do
    if ← nextItem (index = 0) then
      let put ← f.stream levels
      streamOrdered kind total levels rest (index + 1) (put r)
    else if f.presence = .defaulted then streamOrdered kind total levels rest (index + 1) r
    else reject (.wrongLength index (withElements kind total))

def Shape.record (kind : String) (fields : List (Member σ)) (r : σ) : Shape σ where
  write s := .object (fields.map fun f => (f.name, f.write s))
  stream levels := located do
    let c ← begin
    if c = '{' then nested closeObject (streamNamed fields r) levels
    else if c = '[' then
      nested closeList (fun levels => streamOrdered kind fields.length levels fields 0 r) levels
    else unexpected kind c
  decode := decodeRecord kind (fields.map Member.toSlot) r

end Record

/-! ### Choices -/

structure Case (α : Type) where
  name : String
  bare : Except Fault α
  stream : Nat → Reader α
  decode : Json → Except Fault α

section Choice

variable {α : Type}

def Case.plain (name : String) (a : α) : Case α where
  name := name
  bare := .ok a
  stream _ := located do
    let c ← begin
    if c = 'n' then
      let _ ← scalar 'n'
      return a
    else unexpected "unit" c
  decode
    | .null | .object [] => .ok a
    | v => .error (.wrongType v.found "unit")

def Case.carrying {β : Type} (name : String) (s : Shape β) (wrap : β → α) : Case α where
  name := name
  bare := .error (.wrongType .unitVariant "newtype variant")
  stream levels := do
    let b ← s.stream levels
    return wrap b
  decode v := (s.decode v).map wrap

def findCase (cases : List (Case α)) (name : String) : Except Fault (Case α) :=
  match cases.find? (·.name = name) with
  | some c => .ok c
  | none => .error (.unknownVariant name (cases.map Case.name))

def decodeChoice (cases : List (Case α)) : Json → Except Fault α
  | .string name => do (← findCase cases name).bare
  | .object [(name, v)] => do (← findCase cases name).decode v
  | .object _ => .error .wrongMap
  | v => .error (.wrongType v.found "string or map")

def streamCase (cases : List (Case α)) : Nat → Reader α
  | 0 => rejectPast .tooDeep
  | levels + 1 => do
    advance
    match ← next with
    | none => rejectPast .endInObject
    | some '"' =>
      let c ← located do
        let name ← Reader.string
        ofExcept (findCase cases name)
      colon
      let a ← c.stream levels
      match ← next with
      | some '}' =>
        advance
        return a
      | some _ => rejectHere .expectedValue
      | none => rejectHere .endInObject
    | some '}' => rejectPast .expectedValue
    | some _ => rejectPast .keyNotString

def streamChoice (cases : List (Case α)) (levels : Nat) : Reader α := do
  match ← next with
  | none => rejectPast .endInValue
  | some '{' => streamCase cases levels
  | some '"' =>
    let c ← located do
      let name ← Reader.string
      ofExcept (findCase cases name)
    ofExcept c.bare
  | some _ => rejectPast .expectedValue

def Shape.choice (cases : List (Case α)) (write : α → Json) : Shape α where
  write := write
  stream := streamChoice cases
  decode := decodeChoice cases

end Choice

end LogTemplate.Json

import LogTemplate.Json.Fault

/-! Reading a text from left to right. A place in the text is given by its line, from one, and by
the bytes before it on that line. -/

namespace LogTemplate.Json

structure Position where
  line : Nat
  column : Nat
  deriving DecidableEq, Repr

namespace Position

def start : Position := ⟨1, 0⟩

def after (p : Position) (c : Char) : Position :=
  if c = '\n' then ⟨p.line + 1, 0⟩ else ⟨p.line, p.column + c.utf8Size⟩

/-- The place behind so many bytes of a text; it may fall inside a character. -/
def afterBytes (p : Position) : Nat → List Char → Position
  | _, [] => p
  | n, c :: rest =>
    if c.utf8Size ≤ n then (p.after c).afterBytes (n - c.utf8Size) rest
    else ⟨p.line, p.column + n⟩

def afterAll (p : Position) (text : List Char) : Position := text.foldl after p

end Position

/-- What is left to read and where it starts. `size` is the length of the whole text: nothing is
repeated more often than that. -/
structure Cursor where
  rest : List Char
  position : Position
  size : Nat

def Cursor.ofText (text : String) : Cursor := ⟨text.toList, .start, text.toList.length⟩

/-- A refused text. A fault of a value as a whole gets its place only when the reader of what
encloses the value is done. -/
structure Rejection where
  fault : Fault
  position : Option Position := none
  deriving DecidableEq, Repr

def Reader (α : Type) := Cursor → Except Rejection α × Cursor

namespace Reader

variable {α β : Type}

protected def pure (a : α) : Reader α := fun c => (.ok a, c)

protected def bind (r : Reader α) (f : α → Reader β) : Reader β := fun c =>
  match r c with
  | (.ok a, c) => f a c
  | (.error e, c) => (.error e, c)

instance : Monad Reader where
  pure := Reader.pure
  bind := Reader.bind

theorem bind_of_ok {r : Reader α} {f : α → Reader β} {c d : Cursor} {a : α} (h : r c = (.ok a, d)) :
    (r >>= f) c = f a d := by
  change Reader.bind r f c = f a d
  simp only [Reader.bind, h]

theorem bind_of_error {r : Reader α} {f : α → Reader β} {c d : Cursor} {e : Rejection}
    (h : r c = (.error e, d)) : (r >>= f) c = (.error e, d) := by
  change Reader.bind r f c = (.error e, d)
  simp only [Reader.bind, h]

instance : LawfulMonad Reader :=
  .mk' Reader
    (fun r => by
      funext c
      change Reader.bind r Reader.pure c = r c
      unfold Reader.bind
      split <;> simp_all [Reader.pure])
    (fun _ _ => rfl)
    (fun r f g => by
      funext c
      change Reader.bind (Reader.bind r f) g c = Reader.bind r (fun a => Reader.bind (f a) g) c
      unfold Reader.bind
      cases h : r c with
      | mk answer d => cases answer <;> rfl)

def reject (fault : Fault) : Reader α := fun c => (.error ⟨fault, none⟩, c)

def rejectHere (fault : Fault) : Reader α := fun c => (.error ⟨fault, some c.position⟩, c)

def rejectPast (fault : Fault) : Reader α := fun c =>
  (.error ⟨fault, some (c.position.afterBytes 1 c.rest)⟩, c)

def rejectBefore (columns : Nat) (fault : Fault) : Reader α := fun c =>
  (.error ⟨fault, some ⟨c.position.line, c.position.column - columns⟩⟩, c)

def ofExcept : Except Fault α → Reader α
  | .ok a => Reader.pure a
  | .error e => reject e

def located (r : Reader α) : Reader α := fun c =>
  match r c with
  | (.error ⟨fault, none⟩, c) => (.error ⟨fault, some c.position⟩, c)
  | answer => answer

def peek : Reader (Option Char) := fun c => (.ok c.rest.head?, c)

def size : Reader Nat := fun c => (.ok c.size, c)

def advance : Reader Unit := fun c =>
  match c.rest with
  | [] => (.ok (), c)
  | x :: rest => (.ok (), { c with rest, position := c.position.after x })

def isBlank (c : Char) : Bool := c = ' ' || c = '\n' || c = '\t' || c = '\r'

def blanks : Reader Unit := fun c =>
  (.ok (), { c with
    rest := c.rest.dropWhile isBlank
    position := c.position.afterAll (c.rest.takeWhile isBlank) })

def next : Reader (Option Char) := do
  blanks
  peek

def begin : Reader Char := do
  match ← next with
  | some c => return c
  | none => rejectPast .endInValue

def digits : Reader (List Char) := fun c =>
  let ds := c.rest.takeWhile Char.isDigit
  (.ok ds, { c with rest := c.rest.dropWhile Char.isDigit, position := c.position.afterAll ds })

end Reader

end LogTemplate.Json

import LogTemplate.Template.Balance

/-! Search for the braces that delimit a placeholder. A run of an even number of equal braces is a
row of escapes and is passed over; a run of odd length delimits, an opening run by its last brace
and a closing run by its first. A run at the very end of the text delimits whatever its length. -/

namespace LogTemplate.Template

inductive Side where
  | opening
  | closing
  deriving DecidableEq, Repr

def Side.byte : Side → UInt8
  | opening => openingByte
  | closing => closingByte

/-- Reads on at position `index`, after a run of `run` braces whose delimiting one, so far, is at
`found`. -/
def Side.search (side : Side) (index run : Nat) (found : Option Nat) : List UInt8 → Option Nat
  | [] => found
  | c :: rest =>
    if c = side.byte then
      side.search (index + 1) (run + 1)
        (if side = opening ∨ run = 0 then some index else found) rest
    else if run % 2 = 1 then found
    else side.search (index + 1) 0 none rest

def Side.find (side : Side) (text : List UInt8) (start : Nat) : Nat :=
  (side.search start 0 none (text.drop start)).getD text.length

@[simp] theorem Side.search_nil (side : Side) (index run : Nat) (found : Option Nat) :
    side.search index run found [] = found := rfl

structure Placeholder where
  opening : Nat
  closing : Nat
  body : List UInt8
  deriving DecidableEq, Repr

/-- The placeholders of the text `rest`, which starts at position `offset`. A placeholder is opened
by the next delimiting opening brace and closed by the next delimiting closing brace after it; the
search goes on behind that one. -/
def placeholdersFrom (offset : Nat) (rest : List UInt8) : List Placeholder :=
  match _h : Side.opening.search offset 0 none rest with
  | none => []
  | some o =>
    let tail := rest.drop (o - offset)
    match Side.closing.search o 0 none tail with
    | none => []
    | some c =>
      ⟨o, c, (tail.take (c - o)).drop 1⟩ :: placeholdersFrom (c + 1) (tail.drop (c - o + 1))
termination_by rest.length
decreasing_by
  have : rest ≠ [] := by rintro rfl; simp at _h
  have := List.length_pos_iff.2 this
  simp only [List.length_drop]
  omega

def placeholders (template : String) : List Placeholder :=
  placeholdersFrom 0 (Text.bytes template)

end LogTemplate.Template

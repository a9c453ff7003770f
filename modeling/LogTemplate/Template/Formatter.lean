import LogTemplate.Template.Brace
import LogTemplate.Template.Hole

/-! The view of a template that fills in values: its text and its holes. It takes any text, valid or
not, and only asks that the placeholders it finds be texts themselves. -/

namespace LogTemplate.Template

structure OutOfBounds where
  start : Nat
  stop : Nat
  deriving DecidableEq, Repr

def OutOfBounds.message (e : OutOfBounds) : String :=
  s!"placeholder at bytes {e.start}..{e.stop} is not a slice of the template"

structure Formatter where
  text : String
  holes : List Hole
  deriving DecidableEq, Repr

def Placeholder.hole (p : Placeholder) : Except OutOfBounds Hole :=
  match Text.ofBytes? p.body with
  | some body => .ok (Hole.ofBody body)
  | none => .error ⟨p.opening + 1, p.closing⟩

def Formatter.ofTemplate (template : String) : Except OutOfBounds Formatter := do
  let holes ← (placeholders template).mapM Placeholder.hole
  return ⟨template, holes⟩

def Formatter.valueNames (f : Formatter) : List String := f.holes.map Hole.name

end LogTemplate.Template

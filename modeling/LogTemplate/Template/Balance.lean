import LogTemplate.Text.Utf8

/-! Validity of a message template. A placeholder is opened by one brace and closed by one brace;
a doubled opening brace is an escape everywhere, a doubled closing brace only where no placeholder
is open. Braces are ASCII, so the bytes of the text show them all. -/

namespace LogTemplate.Template

/-- Reads on from a point where a placeholder is open or not, with one symbol of lookahead, and
stops at the first brace that cannot stand there. -/
def balanced {α : Type} [DecidableEq α] (opening closing : α) : Bool → List α → Bool
  | isOpen, [] => !isOpen
  | isOpen, [c] => if c = opening then false else if c = closing then isOpen else !isOpen
  | isOpen, c :: d :: rest =>
    if c = opening then
      if d = opening then balanced opening closing isOpen rest
      else if isOpen then false
      else balanced opening closing true (d :: rest)
    else if c = closing then
      if isOpen then balanced opening closing false (d :: rest)
      else if d = closing then balanced opening closing false rest
      else false
    else balanced opening closing isOpen (d :: rest)

def openingByte : UInt8 := 0x7b

def closingByte : UInt8 := 0x7d

def isValid (template : String) : Bool :=
  balanced openingByte closingByte false (Text.bytes template)

def isValid? : Option String → Bool
  | none => false
  | some template => isValid template

end LogTemplate.Template

import LogTemplate.Digest.Sha256
import LogTemplate.Text.Split
import LogTemplate.Text.Utf8

/-! The logging surface: the types whose calls are inspected. A surface is a set of full names, kept
sorted and without repetition, so that it has one form. -/

namespace LogTemplate

def insertName (name : String) : List String → List String
  | [] => [name]
  | n :: rest =>
    match compare name n with
    | .lt => name :: n :: rest
    | .eq => n :: rest
    | .gt => n :: insertName name rest

structure Surface where
  types : List String
  deriving DecidableEq, Repr

namespace Surface

def empty : Surface := ⟨[]⟩

def insert (s : Surface) (name : String) : Surface := ⟨insertName name s.types⟩

def extend (s : Surface) (names : List String) : Surface := names.foldl insert s

def ofTypes (names : List String) : Surface := empty.extend names

def standard : Surface :=
  ofTypes ["Microsoft.Extensions.Logging.ILogger", "Microsoft.Extensions.Logging.LoggerExtensions",
    "Microsoft.Extensions.Logging.LoggerMessage"]

instance : Inhabited Surface := ⟨standard⟩

def contains (s : Surface) (name : String) : Bool := s.types.contains name

def size (s : Surface) : Nat := s.types.length

def isEmpty (s : Surface) : Bool := s.types.isEmpty

def listing (s : Surface) : String := Text.joined '\n' s.types

def fingerprint (s : Surface) : String := Sha256.hex (Text.bytes s.listing)

end Surface

end LogTemplate

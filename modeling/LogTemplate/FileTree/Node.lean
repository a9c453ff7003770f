import LogTemplate.Entries
import LogTemplate.Text.Raw

/-! Files, links and directories, as they hang together below one top. -/

namespace LogTemplate

inductive Node where
  | file (content : List UInt8)
  | link (target : RawText)
  | directory (entries : List (RawText × Node))

namespace Node

instance : Inhabited Node := ⟨directory []⟩

def isDirectory : Node → Bool
  | directory _ => true
  | _ => false

def entries : Node → List (RawText × Node)
  | directory es => es
  | _ => []

def at? (n : Node) : List RawText → Option Node
  | [] => some n
  | name :: rest =>
    match n.entries.lookup name with
    | some child => child.at? rest
    | none => none

/-- Puts a node at a place. Its directory has to be there; else nothing changes. -/
def set (new : Node) : List RawText → Node → Node
  | [], _ => new
  | name :: rest, directory es =>
    match es.lookup name with
    | some child => directory (Entries.put name (set new rest child) es)
    | none => if rest.isEmpty then directory (Entries.put name new es) else directory es
  | _ :: _, n => n

def erase : List RawText → Node → Node
  | [name], directory es => directory (Entries.drop name es)
  | name :: rest, directory es =>
    match es.lookup name with
    | some child => directory (Entries.put name (erase rest child) es)
    | none => directory es
  | _, n => n

mutual
def listing (above : RawText) : Node → List RawText
  | directory es => listingOf above es
  | _ => []

def listingOf (above : RawText) : List (RawText × Node) → List RawText
  | [] => []
  | (name, n) :: rest =>
    let path := above ++ name ++ (if n.isDirectory then "/" else "")
    path :: n.listing path ++ listingOf above rest
end

end Node

end LogTemplate

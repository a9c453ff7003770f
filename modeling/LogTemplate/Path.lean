import LogTemplate.Text.Raw
import LogTemplate.Text.Split

/-! Paths. A path is read as components set apart by slashes; empty ones and inner dots do not
count. -/

namespace LogTemplate

inductive Component where
  | top
  | here
  | up
  | name (text : RawText)
  deriving DecidableEq, Repr

namespace Component

def rank : Component → Nat
  | top => 0
  | here => 1
  | up => 2
  | name _ => 3

def order : Component → Component → Ordering
  | name a, name b => compare a b
  | a, b => compare a.rank b.rank

def text : Component → RawText
  | top => ""
  | here => "."
  | up => ".."
  | name text => text

def ofPiece (piece : RawText) : Option Component :=
  if piece = "" ∨ piece = "." then none
  else if piece = ".." then some up
  else some (name piece)

end Component

namespace Path

def slash : UInt8 := 0x2f

def pieces (path : RawText) : List RawText := (Text.splitOn slash path.bytes).map RawText.mk

def isAbsolute (path : RawText) : Bool := path.bytes.head? = some slash

def endsInSlash (path : RawText) : Bool := path.bytes.getLast? = some slash

/-- Only a leading dot is a component. -/
def components (path : RawText) : List Component :=
  let rest := (pieces path).filterMap Component.ofPiece
  if isAbsolute path then .top :: rest
  else if (pieces path).head? = some "." then .here :: rest
  else rest

def fileName? (path : RawText) : Option RawText :=
  match (components path).getLast? with
  | some (.name text) => some text
  | _ => none

def join (directory rest : RawText) : RawText :=
  if isAbsolute rest then rest
  else if directory.isEmpty || endsInSlash directory then directory ++ rest
  else directory ++ "/" ++ rest

def joined (pieces : List RawText) : RawText :=
  ⟨Text.joinWith slash (pieces.map RawText.bytes)⟩

def orderComponents : List Component → List Component → Ordering
  | [], [] => .eq
  | [], _ :: _ => .lt
  | _ :: _, [] => .gt
  | a :: as, b :: bs => (a.order b).then (orderComponents as bs)

def order (a b : RawText) : Ordering := orderComponents (components a) (components b)

def sort (paths : List RawText) : List RawText := paths.mergeSort fun a b => (order a b).isLE

def dropBeginning : List Component → List Component → Option (List Component)
  | [], rest => some rest
  | _ :: _, [] => none
  | a :: as, b :: bs => if a = b then dropBeginning as bs else none

def ofComponents (cs : List Component) : RawText := joined (cs.map Component.text)

def relativeTo? (directory path : RawText) : Option RawText :=
  (dropBeginning (components directory) (components path)).map ofComponents

end Path

end LogTemplate

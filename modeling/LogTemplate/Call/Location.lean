/-! Places in source files. They are ordered by file, then line, column and length; files are
ordered by code points, which is the order of their bytes. -/

namespace LogTemplate

structure Location where
  file : String
  line : UInt32
  column : UInt32
  length : UInt32 := 0
  deriving DecidableEq, Repr, Inhabited

def Location.display (l : Location) : String := s!"{l.file}:{l.line.toNat}:{l.column.toNat}"

def Location.order (a b : Location) : Ordering :=
  (compare a.file b.file).then <| (compare a.line b.line).then <|
    (compare a.column b.column).then <| compare a.length b.length

def Location.sort (locations : List Location) : List Location :=
  locations.mergeSort fun a b => (a.order b).isLE

end LogTemplate

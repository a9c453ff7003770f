import LogTemplate.CommandLine.Command
import LogTemplate.FileTree.Change

/-! The program. Standard input lists the files that the command may see, one path a line, with a
slash behind the name of a directory. The command runs on their contents, and its changes are
carried over to the disk. -/

namespace LogTemplate

def FileTree.load (t : FileTree) (path : String) : IO FileTree := do
  if path.isEmpty then return t
  if Path.endsInSlash path then return (t.createDirectories path).2
  try
    let content ← IO.FS.readBinFile path
    return (t.add path content.toList).toOption.getD t
  catch _ => return t

def Change.carryOut : Change → IO Unit
  | createDirectory path => IO.FS.createDirAll path.display
  | write path content => IO.FS.writeBinFile path.display content.toByteArray
  | remove path => IO.FS.removeFile path.display

end LogTemplate

open LogTemplate

def main (words : List String) : IO UInt32 := do
  let paths ← (← IO.getStdin).lines
  let tree ← paths.toList.foldlM FileTree.load .empty
  let (answer, after) := command words ⟨0, ← IO.monoNanosNow, none⟩ tree
  (tree.changes after).forM Change.carryOut
  (← IO.getStdout).putStr answer.output
  (← IO.getStderr).putStr answer.errors
  return answer.exitCode

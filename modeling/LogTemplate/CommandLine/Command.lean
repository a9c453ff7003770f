import LogTemplate.CommandLine.Arguments
import LogTemplate.Run
import LogTemplate.Settings

/-! The command: arguments and settings put together, the run, and what is shown and written. -/

namespace LogTemplate

structure Answer where
  exitCode : UInt32
  output : String := ""
  errors : String := ""
  deriving DecidableEq, Repr

inductive OutputPathFault where
  | nul
  | absolute (path : String)
  | traversal (path : String)
  deriving DecidableEq, Repr

def OutputPathFault.message : OutputPathFault → String
  | nul => "Output path contains null bytes"
  | absolute path => s!"Output path must be relative, not absolute: {path}"
  | traversal path => s!"Path traversal (..) not allowed in output paths: {path}"

def checkOutputPath (path : String) : Except OutputPathFault String :=
  if path.toList.contains '\x00' then .error .nul
  else if Path.isAbsolute path then .error (.absolute path)
  else if (Path.components path).contains .up then .error (.traversal path)
  else .ok path

def Options.withSettings (o : Options) (s : Settings) : Options :=
  { o with
    ignoredPatterns := o.ignoredPatterns ++ s.ignoredPatterns
    extraTypes := o.extraTypes ++ s.extraTypes }

namespace Arguments

def root (a : Arguments) : RawText := a.path.getD "."

def options (a : Arguments) (settings : Option Settings) : Options :=
  let o : Options := ⟨a.root, !a.noCache, a.excludedDirectories, a.ignored, a.surfaceTypes⟩
  settings.elim o o.withSettings

def wantsJson (a : Arguments) (settings : Option Settings) : Bool :=
  a.json || settings.any Settings.wantsJson

def analyze (a : Arguments) (stamp : Stamp) (t : FileTree) :
    Except Failure (Outcome × Bool) × FileTree :=
  match Settings.load t a.root with
  | .error f => (.error f, t)
  | .ok settings =>
    match (a.options settings).analyze stamp t with
    | (.error f, t) => (.error (f.inContext s!"Failed to analyze dumps under: {a.root.display}"), t)
    | (.ok out, t) => (.ok (out, a.wantsJson settings), t)

end Arguments

def Summary.writeReport (s : Summary) (room : Option Nat) (path : String) (t : FileTree) :
    Except Failure Unit × FileTree :=
  match checkOutputPath path with
  | .error e => (.error ⟨.other e.message, []⟩, t)
  | .ok path =>
    match t.writeWithin room path (Text.bytes s.json) with
    | (.ok (), t) => (.ok (), t)
    | (.error e, t) => (.error ⟨.other e.message, [s!"Failed to write report: {path}"]⟩, t)

def Answer.ofFailure (f : Failure) : Answer :=
  { exitCode := 1, errors := s!"Error: {f.describe}\n" }

def Summary.exitCode (s : Summary) : UInt32 := if s.isClean then 0 else 1

def Arguments.run (a : Arguments) (stamp : Stamp) (t : FileTree) : Answer × FileTree :=
  match a.analyze stamp t with
  | (.error f, t) => (.ofFailure f, t)
  | (.ok (out, wantsJson), t) =>
    match a.output with
    | some path =>
      match out.summary.writeReport stamp.room path t with
      | (.error f, t) => (.ofFailure f, t)
      | (.ok (), t) => ({ exitCode := out.summary.exitCode, errors := s!"Report written to {path}\n" }, t)
    | none =>
      let output := if wantsJson then out.summary.json ++ "\n" else out.summary.plain
      ({ exitCode := out.summary.exitCode, output }, t)

def usage : String :=
  "Usage: tmplint [OPTIONS] [PATH]\n"

def helpText : String :=
  "Static checker for logging message templates\n\n" ++ usage ++
    "\nArguments:\n  [PATH]  Directory containing call-site dumps [default: .]\n\n" ++
    "Options:\n" ++
    "      --json                 Output results in JSON format\n" ++
    "      --ignore <IGNORE>...   Dump path patterns to ignore\n" ++
    "      --surface-type <TYPE>  Additional logging types to inspect (fully qualified names)\n" ++
    "      --exclude-dir <DIR>    Directory names to skip while scanning\n" ++
    "      --no-cache             Disable the incremental cache\n" ++
    "      --output <FILE>        Write the JSON report to a file instead of stdout\n" ++
    "  -h, --help                 Print help\n" ++
    "  -V, --version              Print version\n"

def command (words : List String) (stamp : Stamp) (t : FileTree) : Answer × FileTree :=
  match Arguments.parse words with
  | .run a => a.run stamp t
  | .help => ({ exitCode := 0, output := helpText }, t)
  | .version => ({ exitCode := 0, output := s!"tmplint-cli {toolVersion}\n" }, t)
  | .misuse m => ({ exitCode := 2, errors := s!"error: {m.message}\n\n{usage}" }, t)

end LogTemplate

import WordMachine.Command.Outcome

/-!
# The command `vsm`

The outer layer of the command: it reads the arguments, opens the files that they name, waits for a
run to end, and writes what the outcome says.

A run is a function of the reads that its input delivers.  So the standard input is read to its end
before the run begins, and all that a run writes is written when it has ended.  The text is the one
that a command would write that reads line by line, but somebody who types in the input gets it only
after its end.
-/

namespace WordMachine

namespace Command

/-- The text of the system for an error. -/
def systemText : IO.Error → String
  | .permissionDenied _ code details | .inappropriateType _ code details =>
    details ++ " (os error " ++ Numeral.decimal code.toNat ++ ")"
  | e => e.toString

/-- Reads to the end, or to the first failure, after the reads in `before`. -/
partial def readsAfter (read : IO ByteArray) (before : Array Read) : IO Script := do
  try
    let more ← read
    if more.isEmpty then
      return before.toList
    else
      readsAfter read (before.push (.bytes more.toList))
  catch e =>
    return (before.push (.failure (systemText e))).toList

/-- What opening a path yields. -/
def openPath (path : String) : IO Opened := do
  try
    let file ← IO.FS.Handle.mk path .read
    return .file (← readsAfter (file.read 65536) #[])
  catch
    | .noFileOrDirectory _ _ _ => return .nothing .missing
    | .inappropriateType _ _ _ => return .nothing .notDirectory
    | e => return .nothing (.other (systemText e))

/-- Opens the paths that options name. -/
def openNamed (o : RunOptions) (file : Option String) : IO (List (String × Opened)) :=
  (o.settingsFile.toList ++ file.toList).mapM fun path => return (path, ← openPath path)

/-- The file that a request reads, if it names one. -/
def Request.file : Request → Option String
  | .run o => o.file
  | .list file => file
  | _ => none

/-- Whether a request reads the standard input. -/
def Request.readsInput : Request → Bool
  | .run o => o.file.isNone
  | .list file => file.isNone
  | _ => false

/-- The texts about the arguments, in words of its own. -/
def manual : Manual where
  help :=
    "Very Simple Machine simulator\n\n" ++
    "Usage: vsm [run [FILE] [OPTIONS] | disasm [FILE]]\n\n" ++
    "Options of run:\n" ++
    "  -c, --config <PATH>           JSON configuration file\n" ++
    "  --max-steps <N>               Abort after this many instructions\n" ++
    "  --trace                       Log every executed instruction to stderr\n" ++
    "  --stats                       Print run statistics to stderr\n" ++
    "  --stats-sections <SECTION>    Print only these statistics sections\n"
  complaint
    | .unexpected argument => "error: unexpected argument '" ++ argument ++ "'\n"
    | .missingValue option => "error: a value is required for '" ++ option ++ "'\n"
    | .invalidValue option value => "error: invalid value '" ++ value ++ "' for '" ++ option ++ "'\n"
    | .repeated option => "error: '" ++ option ++ "' cannot be used multiple times\n"

/-- Collects what a request needs of the world. -/
def survey (r : Request) : IO Surroundings := do
  let opened ← openNamed r.options r.file
  let stdin ← IO.getStdin
  let input ← if r.readsInput then readsAfter (stdin.read 65536) #[] else pure []
  return {
    openPath := fun path => (opened.lookup path).getD (.nothing .missing)
    input
    logSetting := ← IO.getEnv "RUST_LOG"
    manual }

/-- Waits for the end of a request, however long it takes. -/
partial def await (w : Surroundings) (r : Request) (patience : Nat) : IO Performance :=
  match perform patience w r with
  | some p => return p
  | none => await w r (2 * patience)

/-- Milliseconds as seconds with four places. -/
def seconds (milliseconds : Nat) : String :=
  Numeral.decimal (milliseconds / 1000) ++ "." ++
    Numeral.decimalPadded 4 (10 * (milliseconds % 1000))

/-- Writes an outcome and returns its exit code. -/
def deliver (out : Outcome) : IO UInt32 := do
  (← IO.getStdout).putStr out.stdout
  (← IO.getStdout).flush
  (← IO.getStderr).putStr out.stderr
  return out.code.toUInt32

end Command

end WordMachine

open WordMachine Command in
/-- Runs the command. -/
def main (args : List String) : IO UInt32 := do
  match Request.ofArguments args with
  | .error e => deliver (tellUsage manual e)
  | .ok r =>
    let start ← IO.monoMsNow
    let w ← survey r
    let p ← await w r 0x100000
    let stop ← IO.monoMsNow
    deliver (tell (seconds (stop - start)) w r p)

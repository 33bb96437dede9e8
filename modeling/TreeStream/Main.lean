import TreeStream.Command.Render

/-!
# The program

Reads the files that the command line names, runs the command on what they hold, and prints what it
leaves behind.
-/

open TreeStream

/-- The bytes of a file, if it can be read. -/
def readFile (path : String) : IO (Option ByteArray) := do
  try
    pure (some (← IO.FS.readBinFile path))
  catch _ => pure none

/-- The files that a command line names, with their bytes. -/
def readFiles (arguments : List String) : IO (List (String × Option ByteArray)) := do
  match Command.orderOf {} arguments with
  | .render options =>
    (options.file :: options.config.toList).mapM fun path => do pure (path, ← readFile path)
  | _ => pure []

/-- The variables that settings may come from. -/
def readVariables : IO (List (String × Option String)) :=
  [Settings.modeVariable, Settings.strictVariable, Settings.limitVariable].mapM fun name => do
    pure (name, ← IO.getEnv name)

def main (arguments : List String) : IO UInt32 := do
  let files ← readFiles arguments
  let environment ← readVariables
  let surroundings : Command.Surroundings :=
    { file := fun path => (files.lookup path).join
      variableOf := fun name => (environment.lookup name).join }
  let outcome := Command.run surroundings arguments
  IO.print outcome.stdout
  match outcome.complaint with
  | some text => IO.eprintln ("error: " ++ text)
  | none => pure ()
  pure (UInt32.ofNat outcome.exit)

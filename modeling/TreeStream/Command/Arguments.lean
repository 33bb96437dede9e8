import TreeStream.Settings

/-!
# Command line

The arguments are read from left to right; the first one that cannot stand, or that asks for a help
text or the version, decides. Options may stand together behind one dash, and take their value from
the rest of the word or from the next argument.
-/

namespace TreeStream
namespace Command

/-- What a rendering is asked for. -/
structure RenderOptions where
  file : String
  mode : Option Mode := none
  config : Option String := none
  verbose : Bool := false
  quiet : Bool := false

/-- What a command line asks for. -/
inductive Order where
  | tell (text : String)
  | refuse (complaint : String)
  | render (options : RenderOptions)

def programName : String := "flight"

def versionText : String := programName ++ " 0.1.0\n"

def flagsHelp (indent : String) : String :=
  "  -v, --verbose" ++ indent ++ "  Enable verbose logging\n" ++
  "  -q, --quiet  " ++ indent ++ "  Reduce log output\n" ++
  "  -h, --help   " ++ indent ++ "  Print help\n"

/-- What the command `help` does. -/
def helpSummary : String := "Print this message or the help of the given subcommand(s)"

def mainHelp : String :=
  "Render server component payloads to flight rows\n\nUsage: " ++ programName ++
  " [OPTIONS] <COMMAND>\n\nCommands:\n" ++
  "  render  Render a JSON model and write the rows to stdout\n" ++
  "  help    " ++ helpSummary ++ "\n\nOptions:\n" ++
  flagsHelp "" ++ "  -V, --version  Print version\n"

def renderHelp : String :=
  "Render a JSON model and write the rows to stdout\n\nUsage: " ++ programName ++
  " render [OPTIONS] <FILE>\n\nArguments:\n" ++
  "  <FILE>  JSON file holding the model to render\n\nOptions:\n" ++
  "  -m, --mode <MODE>      Render mode: development or production " ++
  "[possible values: development, dev, production, prod]\n" ++
  "  -c, --config <CONFIG>  TOML config file\n" ++ flagsHelp "        "

def helpHelp : String :=
  helpSummary ++ "\n\nUsage: " ++ programName ++ " help [COMMAND]...\n\nArguments:\n" ++
  "  [COMMAND]...  Print help for the subcommand(s)\n"

/-- The arguments of a rendering read so far. -/
structure Partial where
  file : Option String := none
  mode : Option Mode := none
  config : Option String := none
  verbose : Bool := false
  quiet : Bool := false

/-- An option that takes a value. -/
inductive Valued where
  | mode
  | config
  deriving DecidableEq

/-- Why reading the arguments stops early. -/
inductive Stop where
  | tell (text : String)
  | refuse (complaint : String)

abbrev Reading (α : Type) := Except Stop α

def refuse {α : Type} (complaint : String) : Reading α := .error (.refuse complaint)

def unexpected {α : Type} (argument : String) : Reading α :=
  refuse ("unexpected argument '" ++ argument ++ "' found")

def repeated {α : Type} (option : String) : Reading α :=
  refuse ("the argument '" ++ option ++ "' cannot be used multiple times")

/-- A mode as the command line takes it: one of four words, in lower case. -/
def modeOf? (text : String) : Option Mode :=
  if text = "development" ∨ text = "dev" then some .development
  else if text = "production" ∨ text = "prod" then some .production
  else none

def setVerbose (p : Partial) : Reading Partial :=
  if p.verbose then repeated "--verbose" else .ok { p with verbose := true }

def setQuiet (p : Partial) : Reading Partial :=
  if p.quiet then repeated "--quiet" else .ok { p with quiet := true }

def setFile (text : String) (p : Partial) : Reading Partial :=
  if p.file.isSome then unexpected text
  else if text = "" then refuse "a value is required for '<FILE>'"
  else .ok { p with file := some text }

/-- Gives an option its value; each option stands once. -/
def setValue (option : Valued) (text : String) (p : Partial) : Reading Partial :=
  match option with
  | .mode =>
    match modeOf? text with
    | none => refuse ("invalid value '" ++ text ++ "' for '--mode <MODE>'")
    | some m => if p.mode.isSome then repeated "--mode <MODE>" else .ok { p with mode := some m }
  | .config =>
    if text = "" then refuse "a value is required for '--config <CONFIG>'"
    else if p.config.isSome then repeated "--config <CONFIG>"
    else .ok { p with config := some text }

/-- Letters behind one dash. The second part is an option that still needs a value. -/
def shortOptions (p : Partial) : List Char → Reading (Partial × Option Valued)
  | [] => .ok (p, none)
  | c :: rest =>
    let valued (option : Valued) : Reading (Partial × Option Valued) :=
      match rest with
      | [] => .ok (p, some option)
      | '=' :: value => (setValue option (String.ofList value) p).map fun p => (p, none)
      | value => (setValue option (String.ofList value) p).map fun p => (p, none)
    if c = 'm' then valued .mode
    else if c = 'c' then valued .config
    else if c = 'v' then (setVerbose p).bind fun p => shortOptions p rest
    else if c = 'q' then (setQuiet p).bind fun p => shortOptions p rest
    else if c = 'h' then .error (.tell renderHelp)
    else unexpected ("-" ++ String.ofList [c])

/-- A word behind two dashes, with the value behind an equals sign if there is one. -/
def longOption (p : Partial) (word : String) (value : Option String) :
    Reading (Partial × Option Valued) :=
  let valued (option : Valued) : Reading (Partial × Option Valued) :=
    match value with
    | none => .ok (p, some option)
    | some text => (setValue option text p).map fun p => (p, none)
  let flag (set : Reading Partial) : Reading (Partial × Option Valued) :=
    if value.isSome then unexpected ("--" ++ word) else set.map fun p => (p, none)
  if word = "mode" then valued .mode
  else if word = "config" then valued .config
  else if word = "verbose" then flag (setVerbose p)
  else if word = "quiet" then flag (setQuiet p)
  else if word = "help" then
    if value.isSome then unexpected "--help" else .error (.tell renderHelp)
  else unexpected ("--" ++ word)

/-- A word cut at its first equals sign. -/
def splitValue (cs : List Char) : String × Option String :=
  let word := String.ofList (cs.takeWhile (· != '='))
  match cs.dropWhile (· != '=') with
  | [] => (word, none)
  | _ :: value => (word, some (String.ofList value))

/-- Whether a word is an option and not a value; a lone dash is a value. -/
def isOption (argument : String) : Bool :=
  match argument.toList with
  | '-' :: _ :: _ => true
  | _ => false

/-- One option word. -/
def option (p : Partial) (argument : String) : Reading (Partial × Option Valued) :=
  match argument.toList with
  | '-' :: '-' :: cs => longOption p (splitValue cs).1 (splitValue cs).2
  | '-' :: cs => shortOptions p cs
  | _ => .ok (p, none)

/-- The arguments behind `render`. Behind two dashes alone every word is the file. -/
def renderArguments (p : Partial) : List String → Reading Partial
  | [] => .ok p
  | "--" :: files => files.foldlM (fun p f => setFile f p) p
  | argument :: rest =>
    if isOption argument then
      match option p argument with
      | .error stop => .error stop
      | .ok (p, none) => renderArguments p rest
      | .ok (p, some valued) =>
        match rest with
        | [] => refuse ("a value is required for '" ++ argument ++ "'")
        | value :: rest =>
          if isOption value then refuse ("a value is required for '" ++ argument ++ "'")
          else
            match setValue valued value p with
            | .error stop => .error stop
            | .ok p => renderArguments p rest
    else
      match setFile argument p with
      | .error stop => .error stop
      | .ok p => renderArguments p rest

/-- The order of the arguments behind `render`. -/
def renderOrder (arguments : List String) : Order :=
  match renderArguments {} arguments with
  | .error (.tell text) => .tell text
  | .error (.refuse complaint) => .refuse complaint
  | .ok p =>
    match p.file with
    | none => .refuse "the following required arguments were not provided: <FILE>"
    | some file => .render ⟨file, p.mode, p.config, p.verbose, p.quiet⟩

/-- The order of the arguments behind `help`: at most the name of one command. -/
def helpOrder : List String → Order
  | [] => .tell mainHelp
  | ["render"] => .tell renderHelp
  | ["help"] => .tell helpHelp
  | name :: _ => .refuse ("unrecognized subcommand '" ++ name ++ "'")

/-- Letters behind one dash in front of the command. -/
def mainShort (p : Partial) : List Char → Reading Partial
  | [] => .ok p
  | c :: rest =>
    if c = 'v' then (setVerbose p).bind fun p => mainShort p rest
    else if c = 'q' then (setQuiet p).bind fun p => mainShort p rest
    else if c = 'h' then .error (.tell mainHelp)
    else if c = 'V' then .error (.tell versionText)
    else unexpected ("-" ++ String.ofList [c])

/-- One option in front of the command. -/
def mainOption (p : Partial) (argument : String) : Reading Partial :=
  if argument = "--verbose" then setVerbose p
  else if argument = "--quiet" then setQuiet p
  else if argument = "--help" then .error (.tell mainHelp)
  else if argument = "--version" then .error (.tell versionText)
  else match argument.toList with
    | '-' :: '-' :: _ => unexpected argument
    | '-' :: cs => mainShort p cs
    | _ => unexpected argument

/-- The order of a command line. -/
def orderOf (p : Partial) : List String → Order
  | [] => .refuse "a subcommand is required"
  | argument :: rest =>
    if isOption argument then
      match mainOption p argument with
      | .error (.tell text) => .tell text
      | .error (.refuse complaint) => .refuse complaint
      | .ok p => orderOf p rest
    else if argument = "render" then renderOrder rest
    else if argument = "help" then helpOrder rest
    else .refuse ("unrecognized subcommand '" ++ argument ++ "'")

end Command
end TreeStream

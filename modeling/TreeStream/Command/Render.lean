import TreeStream.Command.Arguments
import TreeStream.Host.Task
import TreeStream.Json.Reader

/-!
# Rendering a file

The file holds one JSON value, which is rendered as a stream; its rows are the output. A model of
plain data has no code, so its code tokens are the elements of the empty type.
-/

namespace TreeStream
namespace Command

/-- The meaning of no code at all. -/
def noCode : UserCode Empty Unit where
  render code := nomatch code.code
  load code := nomatch code.code
  toModel code := nomatch code.code
  await code := nomatch code.code
  react code := nomatch code.code
  metadata code := nomatch code.code
  destination code := nomatch code.code

/-- All rows that a consumer of a stream receives, and whether the stream was complete. -/
def consume (r : RequestId) : Nat → HostM Empty Unit (List String × Bool)
  | 0 => failure
  | n + 1 => do
    Host.settleTasks noCode
    match ← Host.receive r with
    | .row text => do
      let more ← consume r n
      pure (text :: more.1, more.2)
    | _ => do pure ([], ← Host.isStreamComplete r)

/-- The rows of a value under the given settings. -/
def stream (settings : Settings) (value : Json) : Option (List String × Bool) :=
  let session : HostM Empty Unit (List String × Bool) := do
    let r ← Host.newStream
      { modules := .manifest .empty, strict := settings.strictChecks }
      settings.highWaterMark (Model.ofJson value)
    consume r Host.ample
  session.run' { user := () }

/-- What a run of the program leaves behind. -/
structure Outcome where
  exit : Nat
  stdout : String := ""
  complaint : Option String := none

/-- What a run may look at: files by path, and variables by name. -/
structure Surroundings where
  file : String → Option ByteArray
  variableOf : String → Option String

/-- The settings of a rendering: those of the configuration file, or of the variables, or the usual
ones if a variable is wrong. A mode on the command line replaces the mode alone. -/
def settingsOf (s : Surroundings) (o : RenderOptions) : Except SettingsError Settings := do
  let base ← match o.config with
    | some path => Settings.ofFile (s.file path)
    | none =>
      match Settings.ofLookup s.variableOf with
      | .ok settings => pure settings
      | .error _ => pure Settings.default
  Settings.validated { base with mode := o.mode.getD base.mode }

/-- The JSON value of a file. -/
def valueOf (content : Option ByteArray) : Except RenderError Json :=
  match content with
  | none => .error (.io Settings.missingReason)
  | some bytes =>
    match String.fromUTF8? bytes with
    | none => .error (.io Settings.notTextReason)
    | some text =>
      match Json.ofText? text with
      | none => .error (.serialization "invalid JSON")
      | some value => .ok value

def fails (e : RenderError) : Outcome := { exit := 1, complaint := some e.message }

def render (s : Surroundings) (o : RenderOptions) : Outcome :=
  match settingsOf s o with
  | .error e => fails e.toRenderError
  | .ok settings =>
    match valueOf (s.file o.file) with
    | .error e => fails e
    | .ok value =>
      match stream settings value with
      | none => fails (.destination "render did not end")
      | some (rows, complete) =>
        if complete then { exit := 0, stdout := String.join rows }
        else
          { fails (.destination "render ended before the payload completed") with
            stdout := String.join rows }

/-- A run of the program. -/
def run (s : Surroundings) (arguments : List String) : Outcome :=
  match orderOf {} arguments with
  | .tell text => { exit := 0, stdout := text }
  | .refuse complaint => { exit := 2, complaint := some complaint }
  | .render options => render s options

end Command
end TreeStream

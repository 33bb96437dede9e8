import TreeStream.Json.Printer
import TreeStream.Text.Inspected

/-!
# What can go wrong while rendering

Each cause is a constructor; its wording is `message` and its stable name is `code`. An error that
ends a row travels as the JSON of its message and stack.
-/

namespace TreeStream

/-- The causes of a failed render, write or load. -/
inductive RenderError where
  | unsupportedType (description : String)
  | notSerializable (reason : String)
  | unsupportedBlock
  | moduleResolution (reason : String)
  | invalidHookCall
  | unsupportedHook (hook : String)
  | component (text : String) (stack : Option String)
  | thrown (value : String)
  | destination (reason : String)
  | io (reason : String)
  | serialization (reason : String)
  | config (reason : String)
  deriving DecidableEq

namespace RenderError

/-- The error of a component that gives a text and no stack. -/
def ofText (text : String) : RenderError := component text none

/-- Only the error of a component carries a stack. -/
def withStack (stack : String) : RenderError → RenderError
  | component text _ => component text (some stack)
  | e => e

def message : RenderError → String
  | unsupportedType d => "Unsupported type: " ++ d
  | notSerializable r => r
  | unsupportedBlock =>
    "React Blocks (and Lazy Components) are expected to be replaced by a compiler on the " ++
    "server. Try configuring your compiler set up and avoid using React.lazy inside of Blocks."
  | moduleResolution r => r
  | invalidHookCall =>
    "Invalid hook call. Hooks can only be called while a server component renders."
  | unsupportedHook h => h ++ " is not supported in Server Components."
  | component text _ => text
  | thrown v => "Error: " ++ v
  | destination r => "Destination error: " ++ r
  | io r => "I/O error: " ++ r
  | serialization r => "Serialization error: " ++ r
  | config r => "Configuration error: " ++ r

def stack : RenderError → Option String
  | component _ s => s
  | _ => none

def code : RenderError → String
  | unsupportedType _ => "UNSUPPORTED_TYPE"
  | notSerializable _ => "NOT_SERIALIZABLE"
  | unsupportedBlock => "UNSUPPORTED_BLOCK"
  | moduleResolution _ => "MODULE_RESOLUTION"
  | invalidHookCall => "INVALID_HOOK_CALL"
  | unsupportedHook _ => "UNSUPPORTED_HOOK"
  | component _ _ => "COMPONENT_ERROR"
  | thrown _ => "THROWN_VALUE"
  | destination _ => "DESTINATION_ERROR"
  | io _ => "IO_ERROR"
  | serialization _ => "SERIALIZATION_ERROR"
  | config _ => "CONFIG_ERROR"

/-- The body of an error row; a missing stack is the empty text. -/
def payload (e : RenderError) : Json :=
  .object [("message", .string e.message), ("stack", .string (e.stack.getD ""))]

/-- The inspection text. -/
def inspected : RenderError → String
  | unsupportedType d => Text.inspectTuple "UnsupportedType" (Text.inspect d)
  | notSerializable r => Text.inspectTuple "NotSerializable" (Text.inspect r)
  | unsupportedBlock => "UnsupportedBlock"
  | moduleResolution r => Text.inspectTuple "ModuleResolution" (Text.inspect r)
  | invalidHookCall => "InvalidHookCall"
  | unsupportedHook h => Text.inspectTuple "UnsupportedHook" (Text.inspect h)
  | component text s =>
    Text.inspectFields "Component"
      [("message", Text.inspect text), ("stack", Text.inspectOption s)]
  | thrown v => Text.inspectTuple "Thrown" (Text.inspect v)
  | destination r => Text.inspectTuple "Destination" (Text.inspect r)
  | io r => Text.inspectTuple "Io" (Text.inspect r)
  | serialization r => Text.inspectTuple "Serialization" (Text.inspect r)
  | config r => Text.inspectTuple "Config" (Text.inspect r)

theorem stack_withStack (stack : String) (e : RenderError) :
    (e.withStack stack).stack = match e with
      | component _ _ => some stack
      | _ => none := by
  cases e <;> rfl

theorem message_withStack (stack : String) (e : RenderError) :
    (e.withStack stack).message = e.message := by
  cases e <;> rfl

end RenderError
end TreeStream

import TreeStream.Preview

/-!
# Values that no client takes

The wording of refusals and of the one warning. Each names the key at fault and shows the container
it was found in.
-/

namespace TreeStream
namespace Refusal

variable {κ : Type}

/-- Classes that every client has, and that still cannot be sent. -/
def builtInClasses : List String :=
  ["Date", "Map", "Set", "RegExp", "Error", "Promise", "WeakMap", "WeakSet", "ArrayBuffer",
    "Uint8Array"]

/-- Keys such as `onClick` name event handlers. -/
def isEventHandler (key : String) : Bool :=
  match key.toList with
  | 'o' :: 'n' :: c :: _ => 'A' ≤ c && c ≤ 'Z'
  | _ => false

variable (parent : Container κ) (key : String)

def shown : String := Preview.container parent none

/-- A custom value that turned into another custom value. -/
def secondCustom (typeName : String) : RenderError :=
  .notSerializable
    ("Only plain objects can be passed to client components from server components. " ++
      typeName ++ " converted into another object with a toJSON method. Remove " ++
      Preview.key key ++ " from these props: " ++ shown parent)

/-- The warning that strict checks give for a custom value. -/
def customWarning : String :=
  "Only plain objects can be passed to client components from server components. " ++
    "Objects with toJSON methods are not supported. Convert it manually to a simple value " ++
    "before passing it to props. Remove " ++ Preview.key key ++ " from these props: " ++
    shown parent

def function (name : Option String) : RenderError :=
  if isEventHandler key then
    .notSerializable
      ("Event handlers cannot be passed to client component props. Remove " ++
        Preview.key key ++ " from these props if possible: " ++ shown parent ++
        "\nIf you need interactivity, consider converting part of this to a client component.")
  else
    .notSerializable
      ("Functions cannot be passed directly to client components because they're not " ++
        "serializable. Remove " ++ Preview.key key ++ " (" ++ name.getD "function" ++
        ") from this object, or avoid the entire object: " ++ shown parent)

def symbol (description : Option String) : RenderError :=
  .notSerializable
    ("Symbol values (" ++ description.getD "" ++ ") cannot be passed to client components. " ++
      "Remove " ++ Preview.key key ++ " from this object, or avoid the entire object: " ++
      shown parent)

def bigInt (value : Int) : RenderError :=
  .notSerializable
    ("BigInt (" ++ String.ofList (Json.intChars value) ++
      ") is not yet supported in client component props. Remove " ++ Preview.key key ++
      " from this object or use a plain number instead: " ++ shown parent)

/-- A built-in class is named; of any other instance the fields are shown one level down. -/
def instanceOf (className : String) : RenderError :=
  if builtInClasses.contains className then
    .notSerializable
      ("Only plain objects can be passed to client components from server components. " ++
        "Built-ins like " ++ className ++ " are not supported. Remove " ++ Preview.key key ++
        " from these props: " ++ shown parent)
  else
    .notSerializable
      ("Only plain objects can be passed to client components from server components. " ++
        "Classes or other objects with methods are not supported. Remove " ++
        Preview.key key ++ " from these props: " ++ Preview.container parent (some key))

end Refusal
end TreeStream

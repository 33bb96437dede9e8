import TreeStream.Model.Basic

/-!
# Inspection text of a model

Code is never shown; a function, component or block shows its name or module and a mark that more
is there.
-/

namespace TreeStream

variable {κ : Type}

open Text

def ModuleReference.inspected (m : ModuleReference) : String :=
  inspectFields "ModuleReference"
    [("id", inspect m.id), ("path", inspect m.path),
      ("exports", inspectList (m.exports.map inspect))]

def ServerBlock.inspected {μ : Type} (b : ServerBlock κ μ) : String :=
  inspectSomeFields "ServerBlock" [("module", b.module.inspected)]

def Renderable.inspected {μ : Type} : Renderable κ μ → String
  | function name _ =>
    inspectTuple "Function" (inspectSomeFields "Component" [("name", inspect name)])
  | host tag => inspectTuple "Host" (inspect tag)
  | serverBlock block => inspectTuple "ServerBlock" block.inspected
  | wrapper kind => kind.name
  | forwardRef name _ =>
    inspectTuple "ForwardRef" (inspectSomeFields "ForwardRef" [("name", inspect name)])
  | memo inner => inspectTuple "Memo" inner.inspected
  | lazy => "Lazy"
  | provider name => inspectTuple "Provider" (inspect name)
  | context name => inspectTuple "Context" (inspect name)

def Marker.inspected : Marker → String
  | element => "Element"
  | serverBlock => "ServerBlock"
  | lazy => "Lazy"
  | block => "Block"

/-- A record by its entries, which are inspected already. -/
def inspectRecord (entries : List String) : String :=
  inspectFields "Record" [("entries", inspectList entries)]

namespace Model

mutual

/-- The inspection text of a model. -/
def inspected : Model κ → String
  | undefined => "Undefined"
  | null => "Null"
  | bool b => inspectTuple "Bool" (if b then "true" else "false")
  | number d => inspectTuple "Number" (Double.Layout.inspection.text d)
  | string s => inspectTuple "String" (inspect s)
  | bigInt i => inspectTuple "BigInt" (String.ofList (Json.intChars i))
  | symbol d => inspectTuple "Symbol" (inspectOption d)
  | function name _ =>
    inspectTuple "Function" (inspectSomeFields "Callable" [("name", inspectOption name)])
  | array items => inspectTuple "Array" (inspectList (inspectedItems items))
  | record ⟨_, fs⟩ => inspectTuple "Record" (inspectRecord (inspectedFields fs))
  | instanceOf className ⟨_, fs⟩ =>
    inspectTuple "Instance" (inspectFields "Instance"
      [("class_name", inspect className), ("fields", inspectRecord (inspectedFields fs))])
  | element ⟨renderable, key, ⟨_, fs⟩⟩ =>
    inspectTuple "Element" (inspectFields "Element"
      [("renderable", renderable.inspected), ("key", inspectOption key),
        ("props", inspectRecord (inspectedFields fs))])
  | serverBlock b => inspectTuple "ServerBlock" b.inspected
  | marker m => inspectTuple "Marker" m.inspected
  | custom typeName _ => inspectTuple "Custom" (inspect typeName)

def inspectedItems : List (Model κ) → List String
  | [] => []
  | m :: ms => inspected m :: inspectedItems ms

def inspectedFields {keys : List String} : Fields (Model κ) keys → List String
  | .nil => []
  | .cons k m _ fs => ("(" ++ inspect k ++ ", " ++ inspected m ++ ")") :: inspectedFields fs

end

end Model
end TreeStream

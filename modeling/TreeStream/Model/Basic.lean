import TreeStream.Module

/-!
# Models

A model is a value to be rendered: plain data, values that no client can take, and elements that
stand for the output of a component. Code inside a model is a token of some type `κ` together with
the models it has captured, so a model is finite data; what the code does is fixed elsewhere.
-/

namespace TreeStream

/-- Code with the values it has captured. -/
structure Closure (κ μ : Type) where
  code : κ
  captured : Record μ

/-- A client module together with the code that loads the data it is rendered with. -/
structure ServerBlock (κ μ : Type) where
  module : ModuleReference
  load : Closure κ μ

/-- Elements of these kinds render as their children. -/
inductive Wrapper where
  | fragment
  | strictMode
  | profiler
  | scope
  | debugTracingMode
  | legacyHidden
  | offscreen
  | suspense
  | suspenseList
  deriving DecidableEq

/-- What an element asks to render. -/
inductive Renderable (κ μ : Type) where
  | function (name : String) (render : Closure κ μ)
  | host (tag : String)
  | serverBlock (block : ServerBlock κ μ)
  | wrapper (kind : Wrapper)
  | forwardRef (name : String) (render : Closure κ μ)
  | memo (inner : Renderable κ μ)
  | lazy
  | provider (name : String)
  | context (name : String)

/-- A request to render something with these props. -/
structure Element (κ μ : Type) where
  renderable : Renderable κ μ
  key : Option String := none
  props : Record μ := .empty

/-- Sentinels with a fixed meaning; the last two must not reach a row. -/
inductive Marker where
  | element
  | serverBlock
  | lazy
  | block
  deriving DecidableEq

/-- A value to be rendered. -/
inductive Model (κ : Type) where
  | undefined
  | null
  | bool (value : Bool)
  | number (value : Double)
  | string (text : String)
  | bigInt (value : Int)
  | symbol (description : Option String)
  | function (name : Option String) (body : Closure κ (Model κ))
  | array (items : List (Model κ))
  | record (fields : Record (Model κ))
  | instanceOf (className : String) (fields : Record (Model κ))
  | element (element : Element κ (Model κ))
  | serverBlock (block : ServerBlock κ (Model κ))
  | marker (kind : Marker)
  | custom (typeName : String) (toModel : Closure κ (Model κ))

/-- The props of an element, and fields in general. -/
abbrev Props (κ : Type) := Record (Model κ)

variable {κ : Type}

def Marker.description : Marker → String
  | element => "react.element"
  | serverBlock => "react.server.block"
  | lazy => "react.lazy"
  | block => "react.block"

def Wrapper.name : Wrapper → String
  | fragment => "Fragment"
  | strictMode => "StrictMode"
  | profiler => "Profiler"
  | scope => "Scope"
  | debugTracingMode => "DebugTracingMode"
  | legacyHidden => "LegacyHidden"
  | offscreen => "Offscreen"
  | suspense => "Suspense"
  | suspenseList => "SuspenseList"

/-- The name under which messages speak of a renderable. -/
def Renderable.displayName {μ : Type} : Renderable κ μ → String
  | function name _ => name
  | host tag => tag
  | serverBlock block => "ServerBlock(" ++ block.module.id ++ ")"
  | wrapper kind => kind.name
  | forwardRef name _ => "ForwardRef(" ++ name ++ ")"
  | memo inner => "Memo(" ++ inner.displayName ++ ")"
  | lazy => "Lazy"
  | provider name => name ++ ".Provider"
  | context name => name ++ ".Consumer"

/-- The prop that a wrapper renders as. -/
def childrenKey : String := "children"

def Element.children? (e : Element κ (Model κ)) : Option (Model κ) := e.props.get? childrenKey

namespace Model

/-- The kind of a value as a client language would name it. -/
def typeName : Model κ → String
  | undefined => "undefined"
  | null => "null"
  | bool _ => "boolean"
  | number _ => "number"
  | string _ => "string"
  | bigInt _ => "bigint"
  | symbol _ => "symbol"
  | marker _ => "symbol"
  | function _ _ => "function"
  | array _ => "object"
  | record _ => "object"
  | instanceOf _ _ => "object"
  | element _ => "object"
  | serverBlock _ => "object"
  | custom _ _ => "object"

def isElement : Model κ → Bool
  | element _ => true
  | _ => false

/-- The name that a custom value has unless it gives its own. -/
def defaultTypeName : String := "Object"

mutual

/-- The model of a JSON value: numbers become doubles, objects become records. -/
def ofJson : Json → Model κ
  | .null => null
  | .bool b => bool b
  | .number n => number n.toDouble
  | .string s => string s
  | .array items => array (itemsOfJson items)
  | .object fields => record (Record.ofList (fieldsOfJson fields))

def itemsOfJson : List Json → List (Model κ)
  | [] => []
  | j :: js => ofJson j :: itemsOfJson js

def fieldsOfJson : List (String × Json) → List (String × Model κ)
  | [] => []
  | (k, j) :: fs => (k, ofJson j) :: fieldsOfJson fs

end

end Model
end TreeStream

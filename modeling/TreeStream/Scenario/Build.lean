import TreeStream.Host.Script
import TreeStream.Scenario.Syntax

/-!
# Building models from templates

A template is built in an environment: the props of the component at hand, the value handed on, the
arguments of a function, a ref. Code that is built keeps what it needs as captured models, under the
keys below.
-/

namespace TreeStream
namespace Scenario

/-- The models of a scenario. -/
abbrev Value := Model Token

/-- What a template may refer to. -/
structure Environment where
  props : Record Value := .empty
  value : Option Value := none
  arguments : List Value := []
  ref : Option Value := none

namespace Environment

def propsKey : String := "props"

def valueKey : String := "value"

def argumentsKey : String := "arguments"

def refKey : String := "ref"

/-- An entry for a part of the environment that is there. -/
def entry? (key : String) (part : Option Value) : List (String × Value) :=
  part.toList.map fun m => (key, m)

/-- The parts of the environment, each under its key. -/
def parts (env : Environment) : List (String × Value) :=
  [(propsKey, .record env.props), (argumentsKey, .array env.arguments)] ++
    entry? valueKey env.value ++ entry? refKey env.ref

/-- The environment as captured models. -/
def capture (env : Environment) : Record Value := .ofList env.parts

/-- The environment that was captured. -/
def ofCaptured (r : Record Value) : Environment where
  props := match r.get? propsKey with
    | some (.record fields) => fields
    | _ => .empty
  value := r.get? valueKey
  arguments := match r.get? argumentsKey with
    | some (.array items) => items
    | _ => []
  ref := r.get? refKey

theorem entries_capture (env : Environment) : env.capture.entries = env.parts := by
  refine Record.entries_ofList ?_
  rcases env with ⟨props, _ | value, arguments, _ | ref⟩ <;>
    simp [parts, entry?, propsKey, argumentsKey, valueKey, refKey]

theorem ofCaptured_capture (env : Environment) : ofCaptured env.capture = env := by
  simp only [ofCaptured, Record.get?, entries_capture]
  rcases env with ⟨props, _ | value, arguments, _ | ref⟩ <;> rfl

end Environment

/-- The key of a single captured model. -/
def capturedKey : String := "captured"

/-- Code that gives back one model. -/
def capturing (token : Token) (m : Value) : Code Token := ⟨token, .ofList [(capturedKey, m)]⟩

def capturedModel (code : Code Token) : Value := (code.captured.get? capturedKey).getD .undefined

/-- One layer around a model. -/
def wrapOnce (kind : NestKind) (m : Value) : Value :=
  match kind with
  | .array => .array [m]
  | .record => .record (.ofList [("a", m)])
  | .host => .element { renderable := .host "div", props := .ofList [(childrenKey, m)] }
  | .fragment => .element { renderable := .wrapper .fragment, props := .ofList [(childrenKey, m)] }
  | .component => .element { renderable := .function "Nest" (capturing .captured m) }

def wrap (kind : NestKind) : Nat → Value → Value
  | 0, m => m
  | n + 1, m => wrap kind n (wrapOnce kind m)

def blockOf (env : Environment) (module : ModuleReference) (load : Body) :
    ServerBlock Token Value :=
  ⟨module, ⟨.body load, env.capture⟩⟩

def RenderableTemplate.build (env : Environment) : RenderableTemplate → Renderable Token Value
  | function name body => .function name ⟨.body body, .empty⟩
  | forwardRef name body => .forwardRef name ⟨.body body, .empty⟩
  | host tag => .host tag
  | block module load => .serverBlock (blockOf env module load)
  | wrapper kind => .wrapper kind
  | memo inner => .memo (inner.build env)
  | lazy => .lazy
  | provider name => .provider name
  | context name => .context name

namespace Template

mutual

/-- The model of a template. -/
def build (env : Environment) : Template → Value
  | null => .null
  | undefined => .undefined
  | bool b => .bool b
  | number d => .number d
  | string s => .string s
  | bigInt i => .bigInt i
  | symbol d => .symbol d
  | json j => Model.ofJson j
  | marker m => .marker m
  | array items => .array (buildItems env items)
  | copies n item => .array (List.replicate n (build env item))
  | record es => .record (Record.ofList (buildEntries env es))
  | wide n item =>
    let m := build env item
    .record (.ofList ((List.range n).map fun i => ("k" ++ Nat.repr i, m)))
  | nest kind n inner => wrap kind n (build env inner)
  | instanceOf className es => .instanceOf className (Record.ofList (buildEntries env es))
  | function name result => .function name ⟨.template result, .empty⟩
  | element renderable key es =>
    .element ⟨renderable.build env, key, Record.ofList (buildEntries env es)⟩
  | block module load => .serverBlock (blockOf env module load)
  | custom typeName counter inner =>
    .custom typeName (capturing
      (match counter with
        | some c => .counted c
        | none => .captured)
      (build env inner))
  | prop name => (env.props.get? name).getD .undefined
  | props => .record env.props
  | value => env.value.getD .undefined
  | argument n => (env.arguments[n]?).getD .undefined
  | ref => env.ref.getD .undefined

def buildItems (env : Environment) : List Template → List Value
  | [] => []
  | t :: ts => build env t :: buildItems env ts

def buildEntries (env : Environment) : List (String × Template) → List (String × Value)
  | [] => []
  | (k, t) :: es => (k, build env t) :: buildEntries env es

end

end Template

/-- The result of a function of a scenario: its template under the arguments alone. -/
def callFunction (code : Code Token) (arguments : List Value) : Value :=
  match code.code with
  | .template result => result.build { arguments := arguments }
  | _ => .undefined

end Scenario
end TreeStream

import TreeStream.Hook
import TreeStream.Model.Basic

/-!
# Scenarios as data

A small language for user code, so that whole sessions can be written down: templates build models,
bodies are what components and loaders run, actions are what callbacks, destinations and the person
at the controls do. Promises, gates and counters are named by strings and shared by all code of a
scenario.
-/

namespace TreeStream
namespace Scenario

/-- How a template wraps its inner template. -/
inductive NestKind where
  | array
  | record
  | host
  | fragment
  | component
  deriving DecidableEq

mutual

/-- A model to be built in an environment. -/
inductive Template where
  | null
  | undefined
  | bool (value : Bool)
  | number (value : Double)
  | string (text : String)
  | bigInt (value : Int)
  | symbol (description : Option String)
  | json (value : Json)
  | marker (kind : Marker)
  | array (items : List Template)
  | copies (count : Nat) (item : Template)
  | record (entries : List (String × Template))
  | wide (count : Nat) (item : Template)
  | nest (kind : NestKind) (count : Nat) (inner : Template)
  | instanceOf (className : String) (entries : List (String × Template))
  | function (name : Option String) (result : Template)
  | element (renderable : RenderableTemplate) (key : Option String)
      (props : List (String × Template))
  | block (module : ModuleReference) (load : Body)
  | custom (typeName : String) (counter : Option String) (inner : Template)
  /-- A prop of the component. -/
  | prop (name : String)
  /-- All props of the component. -/
  | props
  /-- The value that the body before gave. -/
  | value
  /-- An argument of the function. -/
  | argument (index : Nat)
  /-- The ref handed to the component. -/
  | ref

/-- What an element of a template renders. -/
inductive RenderableTemplate where
  | function (name : String) (body : Body)
  | forwardRef (name : String) (body : Body)
  | host (tag : String)
  | block (module : ModuleReference) (load : Body)
  | wrapper (kind : Wrapper)
  | memo (inner : RenderableTemplate)
  | lazy
  | provider (name : String)
  | context (name : String)

/-- The program of a component or a loader. -/
inductive Body where
  | give (model : Template)
  | fail (error : RenderError)
  | read (promise : String)
  | andThen (first next : Body)
  | map (first : Body) (model : Template)
  | hook (hook : Hook) (argument : Template)
  | call (prop : String) (arguments : List Template)
  | gate (gate : String) (next : Body)
  | perform (actions : List Action) (next : Body)
  /-- The first run takes the first body, and so on; the last one is taken from then on. -/
  | sequence (counter : String) (bodies : List Body)

/-- One thing that is done to the host. -/
inductive Action where
  | log (line : String)
  | count (counter : String)
  | hook (hook : Hook)
  | resolve (promise : String) (model : Template)
  | reject (promise : String) (error : RenderError)
  | newPending (promise : String)
  | newResolved (promise : String) (model : Template)
  | newRejected (promise : String) (error : RenderError)
  /-- A promise that settles when tasks run. -/
  | spawn (promise : String) (outcome : Except RenderError Template)
  | subscribe (promise : String) (onFulfilled onRejected : List Action)
  | read (promise : String)
  | status (promise : String)
  | openGate (gate : String)
  | fireGate (gate : String)
  | schedule (actions : List Action)
  | runNext
  | runUntilIdle
  | startWork (request : Nat)
  | startFlowing (request : Nat)
  | performWork (request : Nat)
  | takeFatal (request : Nat)
  | drain (request : Nat)
  | text (request : Nat)
  | dropRequest (request : Nat)

end

/-- The name under which the log speaks of an action. -/
def Action.name : Action → String
  | log _ => "log"
  | count _ => "count"
  | hook _ => "hook"
  | resolve _ _ => "resolve"
  | reject _ _ => "reject"
  | newPending _ => "new_pending"
  | newResolved _ _ => "new_resolved"
  | newRejected _ _ => "new_rejected"
  | spawn _ _ => "spawn"
  | subscribe _ _ _ => "then"
  | read _ => "read"
  | status _ => "status"
  | openGate _ => "open"
  | fireGate _ => "fire"
  | schedule _ => "schedule"
  | runNext => "run_next"
  | runUntilIdle => "run_until_idle"
  | startWork _ => "start_work"
  | startFlowing _ => "start_flowing"
  | performWork _ => "perform_work"
  | takeFatal _ => "take_fatal"
  | drain _ => "drain"
  | text _ => "text"
  | dropRequest _ => "drop_request"

/-- What a gate does with the two callbacks of someone who waits for it. -/
inductive GateMode where
  | storeFulfilled
  | storeBoth
  | storeRejected
  | callFulfilled
  | callBoth
  deriving DecidableEq

/-- A gate as it is set up. -/
structure GateSettings where
  mode : GateMode := .storeFulfilled
  /-- The gate lets pass after this many tries. -/
  opensAfter : Option Nat := none

/-- Module metadata of a scenario: fixed answers, fixed failures, and a manifest for the rest. -/
structure ModuleTable where
  answers : List (String × Json) := []
  failures : List (String × RenderError) := []
  manifest : Manifest := {}

/-- What a guard does at one call. -/
structure GuardEntry where
  actions : List Action := []
  error : Option RenderError := none
  welcome : Option Bool := none

/-- The entries of a guard for its first, second, … call of each kind. -/
structure GuardScript where
  begin : List (Option GuardEntry) := []
  write : List (Option GuardEntry) := []
  complete : List (Option GuardEntry) := []
  flush : List (Option GuardEntry) := []
  close : List (Option GuardEntry) := []

/-- What stands in front of a sink: a script, or code that only logs rows and the close. -/
inductive Guard where
  | script (script : GuardScript)
  | logging

/-- The code tokens of a scenario's models. -/
inductive Token where
  | body (body : Body)
  /-- Gives a captured model. -/
  | captured
  /-- Counts, and gives a captured model. -/
  | counted (counter : String)
  | template (result : Template)
  | actions (actions : List Action)
  | gate (name : String)
  | modules (table : ModuleTable)
  | guard (request : Nat) (guard : Guard)

end Scenario
end TreeStream

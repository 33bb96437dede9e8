import TreeStream.Host.Script
import TreeStream.Scenario.Report

/-!
# The stage of a scenario

What the code of a scenario shares: promises and gates by name, counters, the requests by their
place in the plan, and how often each guard was called. A name is set up when it is first used.
-/

namespace TreeStream
namespace Scenario

/-- A thenable driven by hand. -/
structure Gate where
  settings : GateSettings := {}
  reads : Nat := 0
  opened : Bool := false
  stored : List (Callback Token) := []

/-- The kinds of calls of a destination. -/
inductive CallKind where
  | begin
  | write
  | complete
  | flush
  | close
  deriving DecidableEq

/-- What the code of a scenario shares. -/
structure Stage where
  promises : Record PromiseId := .empty
  gates : Record Gate := .empty
  counters : Record Nat := .empty
  requests : List RequestId := []
  guardCalls : List (Nat × CallKind) := []

/-- A run of a scenario's code. -/
abbrev Play (α : Type) := Script Token Stage α

def CallKind.of : SinkCall → CallKind
  | .begin => begin
  | .write _ => write
  | .complete => complete
  | .flush => flush
  | .close => close

/-- The stage with these gates set up. -/
def Stage.ofGates (gates : List (String × GateSettings)) : Stage :=
  { gates := Record.ofList (gates.map fun g => (g.1, { settings := g.2 })) }

namespace Stage

/-- The request at a place of the plan. -/
def request? (index : Nat) : Play (Option RequestId) := do
  let stage ← Script.getState
  pure stage.requests[index]?

/-- The promise of a name; a new pending one on first use. -/
def promise (name : String) : Play PromiseId := do
  let stage ← Script.getState
  match stage.promises.get? name with
  | some p => pure p
  | none =>
    let p ← Script.ask .newPromise
    Script.modifyState fun s => { s with promises := s.promises.insert name p }
    pure p

/-- Puts a new pending promise under a name. -/
def replacePromise (name : String) : Play PromiseId := do
  let p ← Script.ask .newPromise
  Script.modifyState fun s => { s with promises := s.promises.insert name p }
  pure p

/-- The outcome of reading a promise: its value, its error, or that it has to be waited for. -/
def readPromise (name : String) : Play (Resolution Token Value) := do
  let p ← promise name
  let status ← Script.ask (.status p)
  pure (match status with
    | .pending => .suspended (.promise p)
    | .settled outcome => Resolution.ofExcept outcome)

/-- Adds one to a counter, notes its new value and gives it back. -/
def count (name : String) : Play Nat := do
  let stage ← Script.getState
  let n := (stage.counters.get? name).getD 0 + 1
  Script.setState { stage with counters := stage.counters.insert name n }
  Script.ask (.note (name ++ "=" ++ Nat.repr n))
  pure n

def gate (name : String) : Play Gate := do
  let stage ← Script.getState
  pure ((stage.gates.get? name).getD {})

def setGate (name : String) (g : Gate) : Play Unit :=
  Script.modifyState fun s => { s with gates := s.gates.insert name g }

/-- Tries to pass a gate. -/
def passGate (name : String) : Play Bool := do
  let g ← gate name
  let reads := g.reads + 1
  setGate name { g with reads := reads }
  pure (g.opened || g.settings.opensAfter.any (· < reads))

def invokeAll (callbacks : List (Callback Token)) : Play Unit :=
  callbacks.forM fun c => Script.ask (.invoke c)

/-- Someone waits for a gate: the callbacks are stored or called at once, as its mode says. -/
def awaitGate (name : String) (onFulfilled onRejected : Callback Token) : Play Unit := do
  let g ← gate name
  let store (callbacks : List (Callback Token)) : Play Unit :=
    setGate name { g with stored := g.stored ++ callbacks }
  match g.settings.mode with
  | .storeFulfilled => store [onFulfilled]
  | .storeBoth => store [onFulfilled, onRejected]
  | .storeRejected => store [onRejected]
  | .callFulfilled => invokeAll [onFulfilled]
  | .callBoth => invokeAll [onFulfilled, onRejected]

def openGate (name : String) : Play Unit := do
  let g ← gate name
  setGate name { g with opened := true }

/-- Takes all stored callbacks out of a gate, then calls them in order. -/
def fireGate (name : String) : Play Unit := do
  let g ← gate name
  setGate name { g with stored := [] }
  invokeAll g.stored

/-- The number of calls of one kind that a guard has seen before, this one not counted. -/
def countGuardCall (request : Nat) (kind : CallKind) : Play Nat := do
  let stage ← Script.getState
  Script.setState { stage with guardCalls := (request, kind) :: stage.guardCalls }
  pure (stage.guardCalls.count (request, kind))

end Stage

end Scenario
end TreeStream

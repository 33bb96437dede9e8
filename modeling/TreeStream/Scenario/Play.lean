import TreeStream.Scenario.Stage

/-!
# Playing a scenario

The meaning of actions and bodies, and with it of every code token: `userCode` is what the host
needs to run the models of a scenario.
-/

namespace TreeStream
namespace Scenario

/-- The actions of a callback as code. -/
def actionsCode (actions : List Action) : Code Token := ⟨.actions actions, .empty⟩

namespace Action

/-- Asks something of the request at a place of the plan. The answer is `missing` if there is no
such request or it is gone. -/
def onRequest {α : Type} (index : Nat) (missing : Json) (report : α → Json)
    (ask : RequestId → Play (Option α)) : Play Json := do
  match ← Stage.request? index with
  | none => pure missing
  | some r => do
    match ← ask r with
    | none => pure missing
    | some a => pure (report a)

/-- What is reported of an action that needs a request and has none. -/
def noRequest : Json := .string "no request"

def reportFatal : Option RenderError → Json
  | none => .string "none"
  | some e => Report.failure e

def reportCollected (out : String × Bool) : Json :=
  .object [("text", .string out.1), ("closed", .bool out.2)]

/-- Does one action. The result is what there is to report, or null. -/
def run : Action → Play Json
  | log line => do
    Script.ask (.note line)
    pure .null
  | count counter => do
    let _ ← Stage.count counter
    pure .null
  | hook h => do
    match ← Script.ask (.hook h) with
    | .ok () => pure (.string "ok")
    | .error e => pure (.string e.code)
  | resolve p m => do
    let p ← Stage.promise p
    Script.ask (.settle p (.ok (m.build {})))
    pure .null
  | reject p e => do
    let p ← Stage.promise p
    Script.ask (.settle p (.error e))
    pure .null
  | newPending p => do
    let _ ← Stage.replacePromise p
    pure .null
  | newResolved p m => do
    let p ← Stage.replacePromise p
    Script.ask (.settle p (.ok (m.build {})))
    pure .null
  | newRejected p e => do
    let p ← Stage.replacePromise p
    Script.ask (.settle p (.error e))
    pure .null
  | spawn p outcome => do
    let p ← Stage.replacePromise p
    Script.ask (.settleLater p (outcome.map (Template.build {})))
    pure .null
  | subscribe p onFulfilled onRejected => do
    let p ← Stage.promise p
    Script.ask (.subscribe p (.user (actionsCode onFulfilled)) (.user (actionsCode onRejected)))
    pure .null
  | read p => do pure (Report.ofResolution (← Stage.readPromise p))
  | status p => do
    let p ← Stage.promise p
    pure (Report.ofStatus (← Script.ask (.status p)))
  | openGate g => do
    Stage.openGate g
    pure .null
  | fireGate g => do
    Stage.fireGate g
    pure .null
  | schedule actions => do
    Script.ask (.schedule (actionsCode actions))
    pure .null
  | runNext => do pure (.bool (← Script.ask .runNext))
  | runUntilIdle => do pure (.ofNat (← Script.ask .runUntilIdle))
  | startWork r => onRequest r noRequest (fun _ => .null) fun r => Script.ask (.startWork r)
  | startFlowing r => onRequest r noRequest Report.ofDone fun r => Script.ask (.startFlowing r)
  | performWork r => onRequest r noRequest Report.ofDone fun r => Script.ask (.performWork r)
  | takeFatal r => onRequest r noRequest reportFatal fun r => Script.ask (.takeFatal r)
  | drain r => onRequest r .null .ofNat fun r => Script.ask (.drain r)
  | text r => onRequest r .null reportCollected fun r => Script.ask (.collected r)
  | dropRequest r => do
    match ← Stage.request? r with
    | none => pure .null
    | some r =>
      Script.ask (.release r)
      pure .null

/-- Does an action inside other code: its result is noted if there is one. -/
def runNested (a : Action) : Play Unit := do
  match ← a.run with
  | .null => pure ()
  | result => Script.ask (.note (a.name ++ " -> " ++ result.text))

def runAll (actions : List Action) : Play Unit := actions.forM runNested

end Action

/-- What a hook gives a component that passes it an argument. -/
def Hook.value (hook : Hook) (argument : Value) : Value :=
  match hook with
  | .debugValue => .undefined
  | .effect => .undefined
  | .layoutEffect => .undefined
  | .imperativeHandle => .undefined
  | .transition => .bool false
  | _ => argument

/-- Calls a hook. -/
def callHook (hook : Hook) (argument : Value) : Play (Resolution Token Value) := do
  match ← Script.ask (.hook hook) with
  | .ok () => pure (.ready (Hook.value hook argument))
  | .error e => pure (.failed e)

namespace Body

mutual

/-- Runs a body in an environment. -/
def run (env : Environment) : Body → Play (Resolution Token Value)
  | give m => pure (.ready (m.build env))
  | fail e => pure (.failed e)
  | read p => Stage.readPromise p
  | andThen first next => do
    match ← first.run env with
    | .ready m => next.run { env with value := some m }
    | .suspended t => pure (.suspended t)
    | .failed e => pure (.failed e)
  | map first model => do
    let outcome ← first.run env
    pure (outcome.map fun m => model.build { env with value := some m })
  | hook h argument => callHook h (argument.build env)
  | call prop arguments =>
    match env.props.get? prop with
    | some (.function _ code) =>
      pure (.ready (callFunction code (arguments.map (Template.build env))))
    | _ => pure (.failed (.ofText "not a function"))
  | gate g next => do
    if ← Stage.passGate g then next.run env
    else pure (.suspended (.custom ⟨.gate g, .empty⟩))
  | perform actions next => do
    Action.runAll actions
    next.run env
  | sequence counter bodies => do
    let n ← Stage.count counter
    runNth env (n - 1) bodies

/-- Runs the body at an index, or the last one if the index is past it. -/
def runNth (env : Environment) (index : Nat) : List Body → Play (Resolution Token Value)
  | [] => pure (.ready .undefined)
  | [b] => b.run env
  | b :: c :: rest => if index = 0 then b.run env else runNth env (index - 1) (c :: rest)

end

end Body

def GuardScript.entries (s : GuardScript) : CallKind → List (Option GuardEntry)
  | .begin => s.begin
  | .write => s.write
  | .complete => s.complete
  | .flush => s.flush
  | .close => s.close

namespace Token

/-- The component, loader or function of a token, run in an environment. -/
def run (code : Code Token) (env : Environment) : Play (Resolution Token Value) :=
  match code.code with
  | body b => b.run env
  | _ => pure (.ready (capturedModel code))

def toModel (code : Code Token) : Play Value := do
  match code.code with
  | counted counter =>
    let _ ← Stage.count counter
    pure (capturedModel code)
  | _ => pure (capturedModel code)

def await (code : Code Token) (onFulfilled onRejected : Callback Token) : Play Unit :=
  match code.code with
  | gate name => Stage.awaitGate name onFulfilled onRejected
  | _ => pure ()

def react (code : Code Token) : Play Unit :=
  match code.code with
  | actions as => Action.runAll as
  | _ => pure ()

/-- The answer of a module table: the first of its three parts that knows the id. -/
def lookupModule (table : ModuleTable) (m : ModuleReference) : Except RenderError Json :=
  match table.answers.lookup m.id with
  | some json => .ok json
  | none =>
    match table.failures.lookup m.id with
    | some e => .error e
    | none => (table.manifest.lookup m).map ModuleMetadata.toJson

def metadata (code : Code Token) (m : ModuleReference) : Play (Except RenderError Json) :=
  match code.code with
  | modules table => pure (lookupModule table m)
  | _ => pure (Manifest.empty.lookup m |>.map ModuleMetadata.toJson)

/-- A scripted guard does what its entry for this call says. -/
def runGuardScript (request : Nat) (s : GuardScript) (c : SinkCall) : Play Verdict := do
  let kind := CallKind.of c
  let n ← Stage.countGuardCall request kind
  match ((GuardScript.entries s kind)[n]?).join with
  | none => pure .pass
  | some entry =>
    Action.runAll entry.actions
    match entry.error, entry.welcome with
    | some e, _ => pure (.fail e)
    | none, some welcome => pure (if kind = .write then .answer welcome else .pass)
    | none, none => pure .pass

/-- The row without its line end. -/
def rowLine (row : Row) : String := String.ofList row.text.toList.dropLast

/-- A logging guard notes rows and the close. -/
def logCall : SinkCall → Play Verdict
  | .write row => do
    Script.ask (.note ("write " ++ rowLine row))
    pure .pass
  | .close => do
    Script.ask (.note "close")
    pure .pass
  | _ => pure .pass

def destination (code : Code Token) (c : SinkCall) : Play Verdict :=
  match code.code with
  | guard request (.script s) => runGuardScript request s c
  | guard _ .logging => logCall c
  | _ => pure .pass

end Token

/-- The meaning of a scenario's code tokens. -/
def userCode : UserCode Token Stage where
  render code props ref := Token.run code { props := props, ref := ref }
  load code := Token.run code (Environment.ofCaptured code.captured)
  toModel := Token.toModel
  await := Token.await
  react := Token.react
  metadata := Token.metadata
  destination := Token.destination

end Scenario
end TreeStream

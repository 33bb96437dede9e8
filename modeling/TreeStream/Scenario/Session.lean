import TreeStream.Host.Task
import TreeStream.Scenario.Play
import TreeStream.Serializer.Recording

/-!
# Sessions

A session creates requests and then does one step after the other; after each it reports the
result, the new lines of the log, the state of the scheduler and of every request. A stream session
has one stream and its consumer instead, and lets all tasks run before and after each step; its
actions name no request.
-/

namespace TreeStream
namespace Scenario

/-- An action of the host that runs a scenario. -/
abbrev StageM (α : Type) := HostM Token Stage α

/-- A request of a session. -/
structure RequestPlan where
  model : Template
  modules : ModuleTable := {}
  strict : Bool := false
  silent : Bool := false
  sink : Sink := .memory {}
  guard : Option Guard := none

/-- A step of a session. -/
inductive SessionStep where
  | act (action : Action)
  | settle

structure SessionPlan where
  gates : List (String × GateSettings) := []
  requests : List RequestPlan := []
  steps : List SessionStep := []

/-- What is reported about a request after a step; its state is gone with its handle. -/
structure RequestReport where
  rows : List String
  state : Option (Nat × Bool × Bool)
  calls : List Nat

/-- What is reported after a step. -/
structure StepReport where
  result : Json
  log : List String
  queued : Nat
  scheduled : Nat
  requests : List RequestReport

/-- How much was reported already: events, and rows of each request. -/
structure Reported where
  events : Nat
  rows : List Nat

/-- The line of the log for an event, if it has one. -/
def logLine? : Event → Option String
  | .note line => some line
  | .warning _ text => some ("warn: " ++ text)
  | _ => none

/-- The lines of the log since the journal had some length. -/
def newLines (h : Host Token Stage) (events : Nat) : List String :=
  ((h.journal.take (h.journal.length - events)).reverse).filterMap logLine?

def memoryOf (r : Request Token) : MemorySink := r.settings.sink.memory?.getD {}

def reportRequest (r : Request Token) (rows : Nat) : RequestReport :=
  let m := memoryOf r
  { rows := m.rows.toList.drop rows
    state := if r.held then some (r.pending, r.flowing, r.closed) else none
    calls := [m.begun, m.completed, m.flushed, m.closed] }

def reportStep (h : Host Token Stage) (before : Reported) (result : Json) : StepReport :=
  { result := result
    log := newLines h before.events
    queued := h.queue.length
    scheduled := h.scheduled
    requests := (h.requests.toList.zip before.rows).map fun p => reportRequest p.1 p.2 }

def reportedOf (h : Host Token Stage) : Reported :=
  ⟨h.journal.length, h.requests.toList.map fun r => (memoryOf r).rows.size⟩

def modulesCode (table : ModuleTable) : Code Token := ⟨.modules table, .empty⟩

def settingsOf (index : Nat) (p : RequestPlan) : RequestSettings Token where
  modules := .user (modulesCode p.modules)
  guard := p.guard.map fun g => ⟨.guard index g, .empty⟩
  sink := p.sink
  strict := p.strict
  reportsWarnings := !p.silent

def play {α : Type} (script : Play α) : StageM α := Host.run userCode script

def SessionStep.run : SessionStep → StageM Json
  | act a => play a.run
  | settle => do
    Host.settleTasks userCode
    pure .null

def runSteps : List SessionStep → StageM (List StepReport)
  | [] => pure []
  | step :: rest => do
    let before := reportedOf (← get)
    let result ← step.run
    let report := reportStep (← get) before result
    let reports ← runSteps rest
    pure (report :: reports)

/-- Creates requests and puts each at its place of the plan. -/
def createRequests : Nat → List RequestPlan → StageM Unit
  | _, [] => pure ()
  | i, p :: ps => do
    let r ← Host.newRequest (settingsOf i p) (p.model.build {})
    modify fun h => { h with user := { h.user with requests := h.user.requests ++ [r] } }
    createRequests (i + 1) ps

/-- A host on which nothing has happened yet. -/
def hostOf (gates : List (String × GateSettings)) : Host Token Stage :=
  { user := Stage.ofGates gates }

/-- The reports of a session. -/
def SessionPlan.run (p : SessionPlan) : Option (List StepReport) :=
  let session : StageM (List StepReport) := do
    createRequests 0 p.requests
    runSteps p.steps
  session.run' (hostOf p.gates)

/-! ## Streams -/

/-- A step of a stream session. -/
inductive StreamStep where
  | act (action : Action)
  | next
  | collect
  | isComplete
  | abandon

structure StreamPlan where
  gates : List (String × GateSettings) := []
  model : Template
  modules : ModuleTable := {}
  strict : Bool
  limit : Nat
  before : List Action := []
  steps : List StreamStep := []

structure StreamReport where
  result : Json
  log : List String

def Report.ofReceived : Received → Json
  | .row text => .object [("row", .string text)]
  | .pending => .string "pending"
  | .ended => .string "end"

/-- Asks for rows until there is none, letting tasks run before each. -/
def collectRows (r : RequestId) : Nat → StageM (List Json)
  | 0 => failure
  | n + 1 => do
    Host.settleTasks userCode
    match ← Host.receive r with
    | .row text => do
      let more ← collectRows r n
      pure (Report.ofReceived (.row text) :: more)
    | last => pure [Report.ofReceived last]

/-- The result of a step, and whether the consumer is still there. -/
def StreamStep.run (r : RequestId) (consuming : Bool) : StreamStep → StageM (Json × Bool)
  | act a => do pure (← play a.run, consuming)
  | next => do
    if consuming then pure (Report.ofReceived (← Host.receive r), true)
    else pure (.string "dropped", false)
  | collect => do
    if consuming then pure (.array (← collectRows r Host.ample), true)
    else pure (.string "dropped", false)
  | isComplete => do
    if consuming then pure (.bool (← Host.isStreamComplete r), true)
    else pure (.string "dropped", false)
  | abandon => do
    if consuming then
      Host.abandonStream r
      pure (.null, false)
    else pure (.string "dropped", false)

def runStreamSteps (r : RequestId) (consuming : Bool) (events : Nat) :
    List StreamStep → StageM (List StreamReport)
  | [] => pure []
  | step :: rest => do
    Host.settleTasks userCode
    let (result, stays) ← step.run r consuming
    Host.settleTasks userCode
    let h ← get
    let report : StreamReport := ⟨result, newLines h events⟩
    let reports ← runStreamSteps r stays h.journal.length rest
    pure (report :: reports)

/-- Does actions one after the other; their results are reported nowhere. -/
def prepare (actions : List Action) : StageM Unit :=
  actions.forM fun a => do
    let _ ← play a.run

/-- The reports of a stream session. -/
def StreamPlan.run (p : StreamPlan) : Option (List StreamReport) :=
  let session : StageM (List StreamReport) := do
    prepare p.before
    let settings : RequestSettings Token :=
      { modules := .user (modulesCode p.modules), strict := p.strict }
    let r ← Host.newStream settings p.limit (p.model.build {})
    runStreamSteps r true 0 p.steps
  session.run' (hostOf p.gates)

/-! ## Single questions -/

/-- What a body gives when it is evaluated four times in a row. -/
structure ResolutionReport where
  ready : Bool
  suspended : Bool
  inspected : String
  value : Json
  log : List String

def resolutionReport (gates : List (String × GateSettings)) (body : Body) :
    Option ResolutionReport :=
  let session : StageM ResolutionReport := do
    let first ← play (body.run {})
    let second ← play (body.run {})
    let third ← play (body.run {})
    let fourth ← play (body.run {})
    pure
      { ready := first.isReady
        suspended := second.isSuspended
        inspected := (third.map fun m => Text.inspect m.typeName).inspected
        value := Report.ofResolution fourth
        log := newLines (← get) 0 }
  session.run' (hostOf gates)

/-- What hooks give outside of any pass. -/
def hookReports (hooks : List Hook) : Option (List Json) :=
  let session : StageM (List Json) :=
    hooks.mapM fun h => do pure (Report.ofResolution (← play (callHook h (.string "arg"))))
  session.run' (hostOf [])

/-- What an element resolves to; nothing for a model that is no element. -/
def resolveReport : Value → Option Json
  | .element e =>
    let session : StageM Json := do
      pure (Report.ofResolution (← Recording.resolveElement userCode e))
    session.run' (hostOf [])
  | _ => none

/-- What serializing outside of any request gives and leaves behind. -/
structure SerializerReport (α : Type) where
  result : Except RenderError α
  suspended : List (RowId × Bool × Json)
  emitted : List (RowId × RenderError)
  warnings : List String

/-- Runs a serialization in a recording context, then asks every deferred query once more. -/
def recordReport {α : Type} (firstId : Nat)
    (action : Recording.RecordM Token Stage (Except RenderError α)) :
    Option (SerializerReport α) :=
  let session : StageM (SerializerReport α) := do
    let (result, recorded) ← action.run { nextId := RowId.ofNat firstId }
    let suspended ← recorded.suspended.reverse.mapM fun s => do
      let isLoad := match s.2 with
        | .model _ => false
        | .load _ => true
      pure (s.1, isLoad, Report.ofResolution (← Recording.runQuery userCode s.2))
    pure ⟨result, suspended, recorded.emitted.reverse, recorded.warnings.reverse⟩
  session.run' (hostOf [])

def serializeReport (modules : ModuleTable) (strict : Bool) (firstId : Nat) (model : Value) :
    Option (SerializerReport String) :=
  recordReport firstId (Recording.serialize userCode (modulesCode modules) strict model)

def positionReport (modules : ModuleTable) (strict : Bool) (parent : Container Token)
    (key : String) (model : Value) : Option (SerializerReport (Option Json)) :=
  recordReport 1 (Recording.position userCode (modulesCode modules) strict parent key model)

end Scenario
end TreeStream

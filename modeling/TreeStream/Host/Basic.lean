import TreeStream.Host.Script

/-!
# The host

One thread, one host: all promises, requests, queued work and the state of the user in one value.
Nothing runs by itself. The journal lists what happened, newest first; no call reads it.

Host actions fail only by using up the bound on nested calls.
-/

namespace TreeStream

/-- The two callbacks registered by one subscription. -/
structure Reaction (κ : Type) where
  onFulfilled : Callback κ
  onRejected : Callback κ

/-- A promise: its reactions wait, in order of registration, until it settles. -/
structure PromiseCell (κ : Type) where
  status : PromiseStatus κ := .pending
  reactions : List (Reaction κ) := []

/-- A unit of deferred work whose result is written under its own row id. -/
structure Segment (κ : Type) where
  id : RowId
  query : Query κ
  completed : Bool := false

/-- Which queue a request puts its work into. -/
inductive WorkQueue where
  | manual
  | tasks
  deriving DecidableEq

/-- Where the metadata of client modules comes from. -/
inductive ModuleSource (κ : Type) where
  | manifest (manifest : Manifest)
  | user (code : Code κ)

/-- What a request is created from. -/
structure RequestSettings (κ : Type) where
  modules : ModuleSource κ
  guard : Option (Code κ) := none
  sink : Sink := .memory {}
  queue : WorkQueue := .manual
  strict : Bool := false
  reportsWarnings : Bool := false

/-- One render of a model into a destination. `held` and `running` count who keeps the request
alive besides queued work: its handle, and the calls on it that are under way. `pending` counts the
rows still to be written. -/
structure Request (κ : Type) where
  settings : RequestSettings κ
  held : Bool := true
  running : Nat := 0
  nextId : RowId
  segments : Array (Segment κ)
  pending : Nat := 1
  pinged : List SegmentId
  modelRows : List Row := []
  errorRows : List Row := []
  flowing : Bool := false
  closed : Bool := false
  flushing : Bool := false
  fatal : Option RenderError := none

/-- Work of the manual scheduler. -/
inductive Work (κ : Type) where
  | pass (request : RequestId)
  | user (code : Code κ)

/-- A task of the task queue. -/
inductive Task (κ : Type) where
  | pass (request : RequestId)
  | driver (request : RequestId)
  | settle (promise : PromiseId) (outcome : Outcome κ)

/-- A run of user code inside a work pass. -/
inductive UserStep where
  | render
  | load
  | toModel
  deriving DecidableEq

/-- What the journal tells. A pass is nested if another call on its request was under way when it
began, and a flow is resumed nested if a flush of its request was under way. A segment is tried
until the pass has left it. A call of the destination is told when it begins, with the number of
pending rows, and when it is answered. -/
inductive Event where
  | note (line : String)
  | warning (request : RequestId) (text : String)
  | issued (request : RequestId) (id : RowId)
  | started (request : RequestId)
  | flowed (request : RequestId) (nested : Bool)
  | scheduled (request : RequestId)
  | began (request : RequestId) (nested : Bool)
  | pinged (request : RequestId) (segment : SegmentId)
  | retried (request : RequestId) (segment : SegmentId)
  | left (request : RequestId) (segment : SegmentId)
  | ran (request : RequestId) (step : UserStep) (inPass : Bool)
  | completed (request : RequestId) (row : Row)
  | calling (request : RequestId) (call : SinkCall) (pending : Nat)
  | called (request : RequestId) (call : SinkCall) (answer : Except RenderError Bool)

/-- The state of everything. -/
structure Host (κ σ : Type) where
  user : σ
  promises : Array (PromiseCell κ) := #[]
  requests : Array (Request κ) := #[]
  queue : List (Work κ) := []
  scheduled : Nat := 0
  tasks : List (Task κ) := []
  inPass : Bool := false
  journal : List Event := []

/-- An action of the host. -/
abbrev HostM (κ σ : Type) := StateT (Host κ σ) Option

variable {κ σ : Type}

/-- A request over a model: its first segment is the root, waiting to be tried. -/
def Request.ofModel (settings : RequestSettings κ) (model : Model κ) : Request κ :=
  { settings := settings
    nextId := (RowId.ofNat 0).next
    segments := #[{ id := RowId.ofNat 0, query := .model model }]
    pinged := [⟨0⟩] }

/-- The rows that wait to be written, of one kind. -/
def Request.rows (r : Request κ) : RowKind → List Row
  | .model => r.modelRows
  | .error => r.errorRows

def Request.setRows (r : Request κ) (kind : RowKind) (rows : List Row) : Request κ :=
  match kind with
  | .model => { r with modelRows := rows }
  | .error => { r with errorRows := rows }

def Work.isPassOf (r : RequestId) : Work κ → Bool
  | .pass r' => r' = r
  | .user _ => false

def Task.isPassOf (r : RequestId) : Task κ → Bool
  | .pass r' => r' = r
  | _ => false

namespace Host

/-- A request lives as long as someone holds its handle, a call on it runs, or work of it is
queued. -/
def isAlive (h : Host κ σ) (r : RequestId) : Bool :=
  match h.requests[r.index]? with
  | none => false
  | some req =>
    req.held || 0 < req.running || h.queue.any (Work.isPassOf r) || h.tasks.any (Task.isPassOf r)

def request (r : RequestId) : HostM κ σ (Request κ) := do
  match (← get).requests[r.index]? with
  | some req => pure req
  | none => failure

def modifyRequest (r : RequestId) (f : Request κ → Request κ) : HostM κ σ Unit :=
  modify fun h => { h with requests := h.requests.modify r.index f }

def segment (r : RequestId) (s : SegmentId) : HostM κ σ (Segment κ) := do
  match (← request r).segments[s.index]? with
  | some seg => pure seg
  | none => failure

def modifySegment (r : RequestId) (s : SegmentId) (f : Segment κ → Segment κ) : HostM κ σ Unit :=
  modifyRequest r fun req => { req with segments := req.segments.modify s.index f }

def promise (p : PromiseId) : HostM κ σ (PromiseCell κ) := do
  match (← get).promises[p.index]? with
  | some cell => pure cell
  | none => failure

def modifyPromise (p : PromiseId) (f : PromiseCell κ → PromiseCell κ) : HostM κ σ Unit :=
  modify fun h => { h with promises := h.promises.modify p.index f }

def record (e : Event) : HostM κ σ Unit := modify fun h => { h with journal := e :: h.journal }

def newPromise : HostM κ σ PromiseId := do
  let h ← get
  set { h with promises := h.promises.push {} }
  pure ⟨h.promises.size⟩

def newRequest (settings : RequestSettings κ) (model : Model κ) : HostM κ σ RequestId := do
  let h ← get
  set { h with requests := h.requests.push (.ofModel settings model) }
  record (.issued ⟨h.requests.size⟩ (RowId.ofNat 0))
  pure ⟨h.requests.size⟩

/-- Puts a work pass of a request into its queue. -/
def schedulePass (r : RequestId) : HostM κ σ Unit := do
  record (.scheduled r)
  match (← request r).settings.queue with
  | .manual =>
    modify fun h => { h with queue := h.queue ++ [.pass r], scheduled := h.scheduled + 1 }
  | .tasks => modify fun h => { h with tasks := h.tasks ++ [.pass r] }

/-- Has a segment tried again in a later pass. The first ping since the last pass schedules one.
A request that is gone takes no pings. -/
def ping (r : RequestId) (s : SegmentId) : HostM κ σ Unit := do
  if (← get).isAlive r then
    record (.pinged r s)
    modifyRequest r fun req => { req with pinged := req.pinged ++ [s] }
    if (← request r).pinged.length = 1 then schedulePass r

/-- Gives out the next row id of a request. -/
def allocate (r : RequestId) : HostM κ σ RowId := do
  let req ← request r
  modifyRequest r fun req => { req with nextId := req.nextId.next }
  record (.issued r req.nextId)
  pure req.nextId

def newSegment (r : RequestId) (query : Query κ) : HostM κ σ SegmentId := do
  let id ← allocate r
  let req ← request r
  modifyRequest r fun req => { req with segments := req.segments.push { id := id, query := query } }
  pure ⟨req.segments.size⟩

/-- Queues an error row. -/
def completeError (r : RequestId) (id : RowId) (e : RenderError) : HostM κ σ Unit := do
  modifyRequest r fun req => { req with errorRows := req.errorRows ++ [Row.ofError id e] }
  record (.completed r (Row.ofError id e))

/-- Ends a segment with an error row. -/
def failSegment (r : RequestId) (s : SegmentId) (e : RenderError) : HostM κ σ Unit := do
  modifySegment r s fun seg => { seg with completed := true }
  completeError r (← segment r s).id e

/-- Ends a segment with the row of its value. -/
def completeSegment (r : RequestId) (s : SegmentId) (json : String) : HostM κ σ Unit := do
  modifySegment r s fun seg => { seg with completed := true }
  let id := (← segment r s).id
  modifyRequest r fun req => { req with modelRows := req.modelRows ++ [Row.ofModel id json] }
  record (.completed r (Row.ofModel id json))

end Host
end TreeStream

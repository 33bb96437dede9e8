import TreeStream.Host.Flush
import TreeStream.Serializer.Basic

/-!
# Work passes

A pass tries every segment that was pinged since the last one. Trying a segment advances its value
layer by layer until it is no element any more; each layer reached is kept, so a later try starts
there. Then the value is serialized, and the positions that have to wait become segments of their
own. A pass ends by writing what is finished if the request is flowing.
-/

namespace TreeStream
namespace Host

variable {κ σ : Type} (user : UserCode κ σ) (call : (c : HostCall κ) → HostM κ σ c.Reply)

/-- Registers callbacks: a promise keeps them until it settles and calls one at once if it has; a
thenable of the user gets them handed over. -/
def await (t : Thenable κ) (onFulfilled onRejected : Callback κ) : HostM κ σ Unit :=
  match t with
  | .promise p => call (.subscribe p onFulfilled onRejected)
  | .custom code => (user.await code onFulfilled onRejected).run call

/-- Has a segment tried again once a thenable settles, whichever way. -/
def waitFor (r : RequestId) (s : SegmentId) (t : Thenable κ) : HostM κ σ Unit :=
  await user call t (.ping r s) (.ping r s)

/-- Notes that user code of a request runs. -/
def recordRun (r : RequestId) (step : UserStep) : HostM κ σ Unit := do
  record (.ran r step (← get).inPass)

/-- User code of a request's model. -/
def codeEffects (r : RequestId) : CodeEffects κ (HostM κ σ) where
  render code props ref := do
    recordRun r .render
    (user.render code props ref).run call
  load code := do
    recordRun r .load
    (user.load code).run call
  toModel code := do
    recordRun r .toModel
    (user.toModel code).run call

/-- Metadata from the source of a request. -/
def metadata (r : RequestId) (m : ModuleReference) : HostM κ σ (Except RenderError Json) := do
  match (← request r).settings.modules with
  | .manifest manifest => pure ((manifest.lookup m).map ModuleMetadata.toJson)
  | .user code => (user.metadata code m).run call

/-- Defers a position to a new segment, which waits for the thenable. -/
def suspend (r : RequestId) (query : Query κ) (t : Thenable κ) : HostM κ σ RowId := do
  modifyRequest r fun req => { req with pending := req.pending + 1 }
  let s ← newSegment r query
  waitFor user call r s t
  pure (← segment r s).id

/-- Makes an error a row of its own. -/
def emitError (r : RequestId) (e : RenderError) : HostM κ σ RowId := do
  modifyRequest r fun req => { req with pending := req.pending + 1 }
  let id ← allocate r
  completeError r id e
  pure id

def warn (r : RequestId) (text : String) : HostM κ σ Unit := do
  if (← request r).settings.reportsWarnings then record (.warning r text)

/-- The context in which a request serializes. -/
def context (r : RequestId) (strict : Bool) : SerializerContext κ (HostM κ σ) where
  suspend := suspend user call r
  emitError := emitError r
  metadata := metadata user call r
  strict := strict
  warn := warn r

/-- Advances a value until it is no element any more, keeping each layer reached. The answer is
empty if a layer had to wait or failed, which is settled then. -/
def advance (r : RequestId) (s : SegmentId) : Nat → Model κ → HostM κ σ (Option (Model κ))
  | 0, _ => failure
  | n + 1, value =>
    match value with
    | .element e => do
      modifySegment r s fun seg => { seg with query := .model value }
      match ← Serializer.resolveElement (codeEffects user call r) e with
      | .ready next => advance r s n next
      | .suspended t =>
        waitFor user call r s t
        pure none
      | .failed e =>
        failSegment r s e
        pure none
    | value => pure (some value)

/-- The value that a segment starts from. -/
def runQuery (r : RequestId) : Query κ → HostM κ σ (Resolution κ (Model κ))
  | .model value => pure (.ready value)
  | .load code => (codeEffects user call r).load code

/-- Serializes the value of a segment and ends it. -/
def finish (r : RequestId) (s : SegmentId) (n : Nat) (value : Model κ) : HostM κ σ Unit := do
  let code := codeEffects user call r
  let ctx := context user call r (← request r).settings.strict
  match ← (Serializer.serialize code ctx n value).run with
  | .ok json => completeSegment r s json
  | .error e => failSegment r s e

/-- Tries a segment that is not completed. -/
def trySegment (r : RequestId) (s : SegmentId) (n : Nat) : HostM κ σ Unit := do
  match ← runQuery user call r (← segment r s).query with
  | .suspended t => waitFor user call r s t
  | .failed e => failSegment r s e
  | .ready value =>
    match ← advance user call r s n value with
    | none => pure ()
    | some value => finish user call r s n value

/-- Tries a segment unless it is completed. -/
def tryOpen (r : RequestId) (s : SegmentId) (n : Nat) : HostM κ σ Unit := do
  if (← segment r s).completed then pure () else trySegment user call r s n

/-- Tries a segment of the batch of a pass. -/
def retry (r : RequestId) (s : SegmentId) (n : Nat) : HostM κ σ Unit := do
  record (.retried r s)
  tryOpen user call r s n
  record (.left r s)

/-- The segments pinged since the last pass, which leave the list. -/
def takePinged (r : RequestId) : HostM κ σ (List SegmentId) := do
  let req ← request r
  modifyRequest r fun req => { req with pinged := [] }
  pure req.pinged

/-- Tries every segment that was pinged, and writes what is finished if the request is flowing. -/
def tryPinged (r : RequestId) (n : Nat) : HostM κ σ (Except RenderError Unit) := do
  record (.began r (1 < (← request r).running))
  let batch ← takePinged r
  batch.forM fun s => retry user call r s n
  if (← request r).flowing then flush user call r n else pure (.ok ())

/-- One work pass. Hooks may be called while it runs, and the mark of passes outside is restored
when it ends. -/
def pass (r : RequestId) (n : Nat) : HostM κ σ (Except RenderError Unit) := do
  let outer := (← get).inPass
  modify fun h => { h with inPass := true }
  let result ← tryPinged user call r n
  modify fun h => { h with inPass := outer }
  pure result

/-- Keeps a request alive while an action on it runs. -/
def running {α : Type} (r : RequestId) (action : HostM κ σ α) : HostM κ σ α := do
  modifyRequest r fun req => { req with running := req.running + 1 }
  let a ← action
  modifyRequest r fun req => { req with running := req.running - 1 }
  pure a

/-- The error that ends a pass waits to be asked for. -/
def keepFatal (r : RequestId) : Except RenderError Unit → HostM κ σ Unit
  | .ok () => pure ()
  | .error e => modifyRequest r fun req => { req with fatal := some e }

/-- A pass that was queued. -/
def queuedPass (r : RequestId) (n : Nat) : HostM κ σ Unit :=
  running r do keepFatal r (← pass user call r n)

end Host
end TreeStream

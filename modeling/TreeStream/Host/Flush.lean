import TreeStream.Host.Basic

/-!
# Writing rows

A flush hands finished rows to the destination in one batch: value rows first, then error rows,
each queue until it is empty or the destination is saturated. The destination may call back into
the host at any point; while a flush of a request is under way, further ones do nothing.

Every action takes the meaning `user` of code tokens and the way `call` in which scripts reach the
host.
-/

namespace TreeStream

variable {κ σ α : Type}

/-- Runs a script: its calls go to the host, its state is the user's part of the host. -/
def Script.run (call : (c : HostCall κ) → HostM κ σ c.Reply) : Script κ σ α → HostM κ σ α
  | done a => pure a
  | get next => do (next (← MonadState.get).user).run call
  | put s next => do
    modify fun h => { h with user := s }
    next.run call
  | .call c next => do
    let r ← call c
    (next r).run call

namespace Host

variable (user : UserCode κ σ) (call : (c : HostCall κ) → HostM κ σ c.Reply)

/-- What user code in front of the sink decides; without such code every call is passed on. -/
def verdict (r : RequestId) (c : SinkCall) : HostM κ σ Verdict := do
  match (← request r).settings.guard with
  | none => pure .pass
  | some code => (user.destination code c).run call

/-- Calls the sink of a request. -/
def callSink (r : RequestId) (c : SinkCall) : HostM κ σ (Except RenderError Bool) := do
  let a := (← request r).settings.sink.answer c
  modifyRequest r fun req => { req with settings := { req.settings with sink := a.2.2 } }
  if a.2.1 then modify fun h => { h with tasks := h.tasks ++ [.driver r] }
  pure a.1

/-- Calls the destination of a request: the user's code first, then the sink. -/
def callDestination (r : RequestId) (c : SinkCall) : HostM κ σ (Except RenderError Bool) := do
  record (.calling r c (← request r).pending)
  let answer ← match ← verdict user call r c with
    | .fail e => pure (.error e)
    | .pass => callSink r c
    | .answer welcome => do
      match ← callSink r c with
      | .error e => pure (.error e)
      | .ok _ => pure (.ok welcome)
  record (.called r c answer)
  pure answer

/-- Takes the oldest waiting row of one kind; it no longer counts as pending. -/
def takeRow (r : RequestId) (kind : RowKind) : HostM κ σ (Option Row) := do
  let req ← request r
  match req.rows kind with
  | [] => pure none
  | row :: rest =>
    modifyRequest r fun req => { req.setRows kind rest with pending := req.pending - 1 }
    pure (some row)

/-- Writes the rows of one kind until none is left or the destination is saturated, which stops the
flow. -/
def writeRows (r : RequestId) (kind : RowKind) : Nat → HostM κ σ (Except RenderError Unit)
  | 0 => failure
  | n + 1 => do
    match ← takeRow r kind with
    | none => pure (.ok ())
    | some row =>
      match ← callDestination user call r (.write row) with
      | .error e => pure (.error e)
      | .ok true => writeRows r kind n
      | .ok false =>
        modifyRequest r fun req => { req with flowing := false }
        pure (.ok ())

/-- The rows of a batch. After a failed value row no error row is tried. -/
def writeBatch (r : RequestId) (n : Nat) : HostM κ σ (Except RenderError Unit) := do
  match ← writeRows user call r .model n with
  | .error e => pure (.error e)
  | .ok () => writeRows user call r .error n

/-- Closes the destination once no row is pending. The request counts as closed before the
destination hears of it. -/
def closeIfFinished (r : RequestId) : HostM κ σ (Except RenderError Unit) := do
  if (← request r).pending = 0 then
    modifyRequest r fun req => { req with closed := true }
    match ← callDestination user call r .close with
    | .error e => pure (.error e)
    | .ok _ => pure (.ok ())
  else pure (.ok ())

/-- The end of a batch, given how the writing of rows went: complete, flush, perhaps close. The
batch is completed also after a failed write, whose error comes first. -/
def endBatch (r : RequestId) (written : Except RenderError Unit) :
    HostM κ σ (Except RenderError Unit) := do
  let completed ← callDestination user call r .complete
  match written, completed with
  | .error e, _ => pure (.error e)
  | .ok (), .error e => pure (.error e)
  | .ok (), .ok _ =>
    match ← callDestination user call r .flush with
    | .error e => pure (.error e)
    | .ok _ => closeIfFinished user call r

/-- One batch of a request that is not closed: begin, rows, and the end of the batch. -/
def batch (r : RequestId) (n : Nat) : HostM κ σ (Except RenderError Unit) := do
  match ← callDestination user call r .begin with
  | .error e => pure (.error e)
  | .ok _ => endBatch user call r (← writeBatch user call r n)

/-- Writes what is finished, unless a flush of this request is under way already. -/
def flush (r : RequestId) (n : Nat) : HostM κ σ (Except RenderError Unit) := do
  if (← request r).flushing then pure (.ok ())
  else
    modifyRequest r fun req => { req with flushing := true }
    let result ← if (← request r).closed then pure (.ok ()) else batch user call r n
    modifyRequest r fun req => { req with flushing := false }
    pure result

end Host
end TreeStream

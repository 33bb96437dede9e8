import TreeStream.Host.Perform

/-!
# Tasks

Tasks run one after the other, oldest first: queued work passes, promises that settle later, and the
drivers of streams. A driver starts the work of its request and then sleeps; each wake lets it look
once whether the stream is over, and otherwise lets it resume a flow that has stopped. A driver that
ends gives up its hold on the request.
-/

namespace TreeStream
namespace Host

variable {κ σ : Type} (user : UserCode κ σ)

/-- The channel of a stream's request. -/
def channel (r : RequestId) : HostM κ σ Channel := do
  match (← request r).settings.sink.channel? with
  | some c => pure c
  | none => failure

def setChannel (r : RequestId) (c : Channel) : HostM κ σ Unit :=
  modifyRequest r fun req => { req with settings := { req.settings with sink := .channel c } }

def setDriver (r : RequestId) (d : DriverState) : HostM κ σ Unit := do
  setChannel r { (← channel r) with driver := d }

/-- Queues the driver of a stream if a wake has reached it. -/
def queueDriver (r : RequestId) (woken : Bool) : HostM κ σ Unit :=
  if woken then modify fun h => { h with tasks := h.tasks ++ [.driver r] } else pure ()

/-- Starts a stream over a model: its request and its driver, which is queued. -/
def newStream (settings : RequestSettings κ) (limit : Nat) (model : Model κ) :
    HostM κ σ RequestId := do
  let sink := Sink.channel { limit := limit }
  let r ← newRequest { settings with sink := sink, queue := .tasks } model
  modify fun h => { h with tasks := h.tasks ++ [.driver r] }
  pure r

/-- What a driver sees when it wakes: whether it goes on. -/
def inspectStream (r : RequestId) (n : Nat) : HostM κ σ Bool := do
  if (← request r).closed then pure false
  else if (← channel r).consumerGone then pure false
  else
    match ← answer user n (perform user n) (.takeFatal r) with
    | some (some _) => pure false
    | _ =>
      if (← request r).flowing then pure true
      else
        match ← answer user n (perform user n) (.startFlowing r) with
        | some (.error _) => pure false
        | _ => pure true

/-- A driver takes a stored wake at once and waits if there is none. -/
def drive (r : RequestId) : Nat → HostM κ σ Unit
  | 0 => failure
  | n + 1 => do
    if ← inspectStream user r n then
      let c ← channel r
      if c.permit then
        setChannel r { c with permit := false }
        drive r n
      else setChannel r { c with driver := .waiting }
    else
      setDriver r .stopped
      modifyRequest r fun req => { req with held := false }

/-- A driver begins with the work of its request and waits for its first wake. -/
def startDriver (r : RequestId) (n : Nat) : HostM κ σ Unit := do
  setDriver r .running
  let _ ← answer user n (perform user n) (.startWork r)
  let c ← channel r
  if c.permit then
    setChannel r { c with permit := false }
    drive user r n
  else setChannel r { c with driver := .waiting }

def runDriver (r : RequestId) (n : Nat) : HostM κ σ Unit := do
  match (← channel r).driver with
  | .starting => startDriver user r n
  | .stopped => pure ()
  | _ =>
    setDriver r .running
    drive user r n

/-- The oldest task. -/
def takeTask : HostM κ σ (Option (Task κ)) := do
  match (← get).tasks with
  | [] => pure none
  | task :: rest =>
    modify fun h => { h with tasks := rest }
    pure (some task)

def runTask (n : Nat) : Task κ → HostM κ σ Unit
  | .pass r => queuedPass user (perform user n) r n
  | .driver r => runDriver user r n
  | .settle p outcome => answer user n (perform user n) (.settle p outcome)

/-- Runs tasks until none is left, those that were queued meanwhile included. -/
def runTasks : Nat → HostM κ σ Unit
  | 0 => failure
  | n + 1 => do
    match ← takeTask with
    | none => pure ()
    | some task =>
      runTask user n task
      runTasks n

/-- Lets every task run that can. -/
def settleTasks : HostM κ σ Unit := runTasks user ample

/-- The consumer of a stream asks for the next row. -/
def receive (r : RequestId) : HostM κ σ Received := do
  let a := (← channel r).receive ((← get).isAlive r)
  setChannel r a.2.2
  queueDriver r a.2.1
  pure a.1

/-- Whether the consumer has received every row of a stream that is over. -/
def isStreamComplete (r : RequestId) : HostM κ σ Bool := do pure (← channel r).isComplete

/-- The consumer of a stream goes away. -/
def abandonStream (r : RequestId) : HostM κ σ Unit := do
  let a := (← channel r).abandon
  setChannel r a.2
  queueDriver r a.1

end Host
end TreeStream

import TreeStream.Host.Pass

/-!
# Calls of the host

The meaning of each call of a script. Scripts started by a call may make calls themselves; the
bound `n` counts how deep such calls nest and how long the loops inside one call may get, and a run
that exceeds it has no result.
-/

namespace TreeStream
namespace Host

variable {κ σ : Type}

/-- An action on a request whose handle is held, and nothing if it is not. -/
def onHeld {α : Type} (r : RequestId) (action : HostM κ σ α) : HostM κ σ (Option α) := do
  match (← get).requests[r.index]? with
  | some req => if req.held then some <$> running r action else pure none
  | none => pure none

/-- Settles a promise that is pending and hands out its reactions; a settled promise stays as it
is. -/
def settleCell (p : PromiseId) (outcome : Outcome κ) : HostM κ σ (List (Reaction κ)) := do
  let cell ← promise p
  match cell.status with
  | .pending =>
    modifyPromise p fun _ => { status := .settled outcome, reactions := [] }
    pure cell.reactions
  | .settled _ => pure []

/-- The callback of a reaction that an outcome calls for. -/
def Reaction.pick (reaction : Reaction κ) (outcome : Outcome κ) : Callback κ :=
  match outcome with
  | .ok _ => reaction.onFulfilled
  | .error _ => reaction.onRejected

/-- The oldest work of the manual scheduler. -/
def takeWork : HostM κ σ (Option (Work κ)) := do
  match (← get).queue with
  | [] => pure none
  | work :: rest =>
    modify fun h => { h with queue := rest }
    pure (some work)

/-- The memory of a request's sink; a sink without one counts as an empty memory. -/
def memory? (r : RequestId) : HostM κ σ (Option MemorySink) := do
  pure ((← get).requests[r.index]?.map fun req => (req.settings.sink.memory?).getD {})

variable (user : UserCode κ σ)

/-- The answer to a call, given how calls of the scripts it starts are answered. -/
def answer (n : Nat) (call : (c : HostCall κ) → HostM κ σ c.Reply) :
    (c : HostCall κ) → HostM κ σ c.Reply
  | .note line => record (.note line)
  | .hook hook => do pure (hook.permit (← get).inPass)
  | .newPromise => newPromise
  | .settle p outcome => do
    let reactions ← settleCell p outcome
    reactions.forM fun reaction => call (.invoke (Reaction.pick reaction outcome))
  | .settleLater p outcome => modify fun h => { h with tasks := h.tasks ++ [.settle p outcome] }
  | .status p => do pure (← promise p).status
  | .subscribe p onFulfilled onRejected => do
    let reaction : Reaction κ := ⟨onFulfilled, onRejected⟩
    match (← promise p).status with
    | .pending =>
      modifyPromise p fun cell => { cell with reactions := cell.reactions ++ [reaction] }
    | .settled outcome => call (.invoke (Reaction.pick reaction outcome))
  | .invoke (.ping r s) => ping r s
  | .invoke (.user code) => (user.react code).run call
  | .schedule code =>
    modify fun h => { h with queue := h.queue ++ [.user code], scheduled := h.scheduled + 1 }
  | .runNext => do
    match ← takeWork with
    | none => pure false
    | some (.pass r) =>
      queuedPass user call r n
      pure true
    | some (.user code) =>
      (user.react code).run call
      pure true
  | .runUntilIdle => do
    if ← call .runNext then
      let more ← call .runUntilIdle
      pure (more + 1)
    else pure (0 : Nat)
  | .startWork r => onHeld r do
    modifyRequest r fun req => { req with flowing := true }
    record (.started r)
    schedulePass r
  | .startFlowing r => onHeld r do
    record (.flowed r (← request r).flushing)
    modifyRequest r fun req => { req with flowing := true }
    flush user call r n
  | .performWork r => onHeld r (pass user call r n)
  | .takeFatal r => onHeld r do
    let fatal := (← request r).fatal
    modifyRequest r fun req => { req with fatal := none }
    pure fatal
  | .release r => modifyRequest r fun req => { req with held := false }
  | .drain r => do
    match ← memory? r with
    | none => pure none
    | some m =>
      modifyRequest r fun req =>
        { req with settings := { req.settings with sink :=
            match req.settings.sink with
            | .memory m => .memory m.drain.2
            | sink => sink } }
      pure (some m.drain.1)
  | .collected r => do pure ((← memory? r).map fun m => (m.text, m.isClosed))

/-- The answer to a call in a run that is bounded by `n`. -/
def perform : Nat → (c : HostCall κ) → HostM κ σ c.Reply
  | 0, _ => failure
  | n + 1, c => answer user n (perform n) c

/-- A bound that no sensible session comes near. -/
def ample : Nat := 1000000000

/-- Runs a script from outside. -/
def run {α : Type} (script : Script κ σ α) : HostM κ σ α := script.run (perform user ample)

end Host
end TreeStream

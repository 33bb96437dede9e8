import TreeStream.Hook
import TreeStream.Resolution
import TreeStream.Sink.Basic

/-!
# User code

User code is described from outside: a script asks the host for one thing after the other and goes
on with the answers. A script may read and replace the state of the user, a value of type `σ` that
the library never looks at. It has no other access to the host than the calls below, which are the
whole interface of the library.
-/

namespace TreeStream

/-- A request by its number in the host. -/
structure RequestId where
  index : Nat
  deriving DecidableEq

/-- A segment by its number in its request. -/
structure SegmentId where
  index : Nat
  deriving DecidableEq

/-- Code of a model, with what it has captured. -/
abbrev Code (κ : Type) := Closure κ (Model κ)

/-- What can be called once something settles: user code, or the ping that has a segment of a
request tried again. -/
inductive Callback (κ : Type) where
  | ping (request : RequestId) (segment : SegmentId)
  | user (code : Code κ)

/-- The outcome of a settled promise. -/
abbrev Outcome (κ : Type) := Except RenderError (Model κ)

/-- A promise settles once. -/
inductive PromiseStatus (κ : Type) where
  | pending
  | settled (outcome : Outcome κ)

/-- What a script can ask of the host. A call for a request that is gone has no effect, and its
answer says so. -/
inductive HostCall (κ : Type) where
  | note (line : String)
  | hook (hook : Hook)
  | newPromise
  | settle (promise : PromiseId) (outcome : Outcome κ)
  | settleLater (promise : PromiseId) (outcome : Outcome κ)
  | status (promise : PromiseId)
  | subscribe (promise : PromiseId) (onFulfilled onRejected : Callback κ)
  | invoke (callback : Callback κ)
  | schedule (code : Code κ)
  | runNext
  | runUntilIdle
  | startWork (request : RequestId)
  | startFlowing (request : RequestId)
  | performWork (request : RequestId)
  | takeFatal (request : RequestId)
  | release (request : RequestId)
  | drain (request : RequestId)
  | collected (request : RequestId)

/-- The type of the answer to a call. -/
abbrev HostCall.Reply {κ : Type} : HostCall κ → Type
  | note _ => Unit
  | hook _ => Except RenderError Unit
  | newPromise => PromiseId
  | settle _ _ => Unit
  | settleLater _ _ => Unit
  | status _ => PromiseStatus κ
  | subscribe _ _ _ => Unit
  | invoke _ => Unit
  | schedule _ => Unit
  | runNext => Bool
  | runUntilIdle => Nat
  | startWork _ => Option Unit
  | startFlowing _ => Option (Except RenderError Unit)
  | performWork _ => Option (Except RenderError Unit)
  | takeFatal _ => Option (Option RenderError)
  | release _ => Unit
  | drain _ => Option Nat
  | collected _ => Option (String × Bool)

/-- A run of user code that ends with a value of type `α`. -/
inductive Script (κ σ α : Type) : Type where
  | done (value : α)
  | get (next : σ → Script κ σ α)
  | put (state : σ) (next : Script κ σ α)
  | call (call : HostCall κ) (next : call.Reply → Script κ σ α)

namespace Script

variable {κ σ α β : Type}

def bind : Script κ σ α → (α → Script κ σ β) → Script κ σ β
  | done a, f => f a
  | get next, f => get fun s => (next s).bind f
  | put s next, f => put s (next.bind f)
  | call c next, f => call c fun r => (next r).bind f

instance : Monad (Script κ σ) where
  pure := done
  bind := bind

/-- Asks the host for one thing. -/
def ask (c : HostCall κ) : Script κ σ c.Reply := call c done

def getState : Script κ σ σ := get done

def setState (s : σ) : Script κ σ Unit := put s (done ())

def modifyState (f : σ → σ) : Script κ σ Unit := get fun s => put (f s) (done ())

end Script

/-- What user code in front of a sink decides about a call: pass it on, pass it on and replace the
answer to a write, or fail without passing it on. -/
inductive Verdict where
  | pass
  | answer (welcome : Bool)
  | fail (error : RenderError)

/-- The meaning of the code tokens of models. -/
structure UserCode (κ σ : Type) where
  /-- A component with its props; the last argument is a forwarded ref. -/
  render : Code κ → Props κ → Option (Model κ) → Script κ σ (Resolution κ (Model κ))
  /-- The loader of a server block. -/
  load : Code κ → Script κ σ (Resolution κ (Model κ))
  /-- The model that a custom value gives. -/
  toModel : Code κ → Script κ σ (Model κ)
  /-- A thenable of the user takes the two callbacks of someone who waits. -/
  await : Code κ → Callback κ → Callback κ → Script κ σ Unit
  /-- A callback or a scheduled piece of work. -/
  react : Code κ → Script κ σ Unit
  /-- A source of module metadata. -/
  metadata : Code κ → ModuleReference → Script κ σ (Except RenderError Json)
  /-- What stands in front of the sink of a request. -/
  destination : Code κ → SinkCall → Script κ σ Verdict

end TreeStream

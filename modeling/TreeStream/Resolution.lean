import TreeStream.Model.Basic

/-!
# Outcomes that may have to wait

One attempt to compute a value gives the value, fails, or names the thenable to wait for.
-/

namespace TreeStream

/-- A promise by its number in the host. -/
structure PromiseId where
  index : Nat
  deriving DecidableEq

/-- What work can wait for: a promise of the host, or a thenable that user code provides. -/
inductive Thenable (κ : Type) where
  | promise (id : PromiseId)
  | custom (thenable : Closure κ (Model κ))

/-- The outcome of one attempt to compute a value. -/
inductive Resolution (κ α : Type) where
  | ready (value : α)
  | suspended (thenable : Thenable κ)
  | failed (error : RenderError)

/-- How the value of a deferred row is produced. -/
inductive Query (κ : Type) where
  | model (value : Model κ)
  | load (code : Closure κ (Model κ))

namespace Resolution

variable {κ α β : Type}

def andThen (r : Resolution κ α) (f : α → Resolution κ β) : Resolution κ β :=
  match r with
  | ready a => f a
  | suspended t => suspended t
  | failed e => failed e

def map (f : α → β) (r : Resolution κ α) : Resolution κ β := r.andThen fun a => ready (f a)

def ofExcept : Except RenderError α → Resolution κ α
  | .ok a => ready a
  | .error e => failed e

def isReady : Resolution κ α → Bool
  | ready _ => true
  | _ => false

def isSuspended : Resolution κ α → Bool
  | suspended _ => true
  | _ => false

/-- The inspection text, of a value that is inspected already. -/
def inspected : Resolution κ String → String
  | ready a => Text.inspectTuple "Ready" a
  | suspended _ => "Suspended"
  | failed e => Text.inspectTuple "Failed" e.inspected

theorem map_ready (f : α → β) (a : α) : (ready a : Resolution κ α).map f = ready (f a) := rfl

end Resolution
end TreeStream

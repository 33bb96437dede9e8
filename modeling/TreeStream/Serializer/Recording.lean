import TreeStream.Host.Perform

/-!
# Serializing without a request

A recording context gives out ids from any number on and writes down what was deferred, which
errors became rows and which warnings were given. It never waits for a thenable.
-/

namespace TreeStream

/-- What a recording context has written down, newest first. -/
structure Recording (κ : Type) where
  nextId : RowId
  suspended : List (RowId × Query κ) := []
  emitted : List (RowId × RenderError) := []
  warnings : List String := []

namespace Recording

variable {κ σ : Type}

/-- An action that may write down something besides what it does to the host. -/
abbrev RecordM (κ σ : Type) := StateT (Recording κ) (HostM κ σ)

def takeId : RecordM κ σ RowId := do
  let r ← get
  set { r with nextId := r.nextId.next }
  pure r.nextId

def suspend (query : Query κ) : RecordM κ σ RowId := do
  let id ← takeId
  modify fun r => { r with suspended := (id, query) :: r.suspended }
  pure id

def emitError (e : RenderError) : RecordM κ σ RowId := do
  let id ← takeId
  modify fun r => { r with emitted := (id, e) :: r.emitted }
  pure id

def warn (text : String) : RecordM κ σ Unit :=
  modify fun r => { r with warnings := text :: r.warnings }

variable (user : UserCode κ σ)

/-- User code run from outside any request. -/
def codeEffects : CodeEffects κ (RecordM κ σ) where
  render code props ref := StateT.lift (Host.run user (user.render code props ref))
  load code := StateT.lift (Host.run user (user.load code))
  toModel code := StateT.lift (Host.run user (user.toModel code))

def context (modules : Code κ) (strict : Bool) : SerializerContext κ (RecordM κ σ) where
  suspend query _ := suspend query
  emitError := emitError
  metadata m := StateT.lift (Host.run user (user.metadata modules m))
  strict := strict
  warn := warn

/-- The JSON text of a whole model. -/
def serialize (modules : Code κ) (strict : Bool) (model : Model κ) :
    RecordM κ σ (Except RenderError String) :=
  (Serializer.serialize (codeEffects user) (context user modules strict) Host.ample model).run

/-- The JSON of a value found at a key of a container. -/
def position (modules : Code κ) (strict : Bool) (parent : Container κ) (key : String)
    (model : Model κ) : RecordM κ σ (Except RenderError (Option Json)) :=
  (Serializer.position (codeEffects user) (context user modules strict) Host.ample parent key
    false model).run

/-- What a deferred position starts from, asked once more. -/
def runQuery : Query κ → HostM κ σ (Resolution κ (Model κ))
  | .model value => pure (.ready value)
  | .load code => Host.run user (user.load code)

/-- One element advanced by one layer. -/
def resolveElement (e : Element κ (Model κ)) : HostM κ σ (Resolution κ (Model κ)) := do
  let recorded ← (Serializer.resolveElement (codeEffects user) e).run { nextId := RowId.ofNat 0 }
  pure recorded.1

end Recording
end TreeStream

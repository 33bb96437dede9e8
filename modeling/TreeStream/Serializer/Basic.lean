import TreeStream.Json.Printer
import TreeStream.Resolution
import TreeStream.Row.Token
import TreeStream.Serializer.Refusal

/-!
# From models to JSON

The serializer walks a model in document order and turns it into one JSON value. Elements are
replaced by what they render as, a custom value by the model it gives, at most once at one place.
Whatever has to wait, and whatever a client block brings along, is left to the context, which
answers with the id of another row.

The serializer runs in any monad: the context and the user code of the model supply its effects.
An element may render as another element without end, so the walk carries a bound on its depth and
gives up when that is used up.
-/

namespace TreeStream

/-- The effects of user code that a model can ask for. -/
structure CodeEffects (κ : Type) (m : Type → Type) where
  render : Closure κ (Model κ) → Props κ → Option (Model κ) → m (Resolution κ (Model κ))
  load : Closure κ (Model κ) → m (Resolution κ (Model κ))
  toModel : Closure κ (Model κ) → m (Model κ)

/-- What the serializer needs from the one who asked for the row. -/
structure SerializerContext (κ : Type) (m : Type → Type) where
  /-- Puts the rest of a position into a row of its own, to be tried again after the thenable. -/
  suspend : Query κ → Thenable κ → m RowId
  /-- Makes an error a row of its own. -/
  emitError : RenderError → m RowId
  metadata : ModuleReference → m (Except RenderError Json)
  strict : Bool
  warn : String → m Unit

/-- Monads with a way out for a walk that has used up its bound. -/
class GivesUp (m : Type → Type) where
  giveUp : {α : Type} → m α

export GivesUp (giveUp)

instance {m : Type → Type} [Alternative m] : GivesUp m := ⟨failure⟩

namespace Serializer

variable {κ : Type} {m : Type → Type} [Monad m]

/-- An element that no user code is needed for: a marker, its type, its key and its props. -/
def elementTuple (type : Model κ) (key : Option String) (props : Props κ) : Model κ :=
  .array [.marker .element, type, (match key with | some k => .string k | none => .null),
    .record props]

/-- Advances an element by one layer. A memo stands for its inner renderable without a key, and
no component receives a ref. -/
def resolveRenderable (code : CodeEffects κ m) (key : Option String) (props : Props κ) :
    Renderable κ (Model κ) → m (Resolution κ (Model κ))
  | .function _ render => code.render render props none
  | .host tag => pure (.ready (elementTuple (.string tag) key props))
  | .serverBlock block => pure (.ready (elementTuple (.serverBlock block) key props))
  | .wrapper _ => pure (.ready ((props.get? childrenKey).getD .undefined))
  | .forwardRef _ render => code.render render props none
  | .memo inner => resolveRenderable code none props inner
  | .lazy => pure (.failed (.unsupportedType
      (Renderable.lazy : Renderable κ (Model κ)).displayName))
  | .provider name => pure (.failed (.unsupportedType
      (Renderable.provider name : Renderable κ (Model κ)).displayName))
  | .context name => pure (.failed (.unsupportedType
      (Renderable.context name : Renderable κ (Model κ)).displayName))

def resolveElement (code : CodeEffects κ m) (e : Element κ (Model κ)) :
    m (Resolution κ (Model κ)) :=
  resolveRenderable code e.key e.props e.renderable

/-- Whole numbers are integers as long as 64 bits can hold them; numbers that are not finite are
null. -/
def ofNumber (d : Double) : Json :=
  if d.isFinite then
    match d.toInt? with
    | some i =>
      if i.natAbs < 1 <<< 63 then .number (.int i)
      else if 0 < i && i < UInt64.size then .number (.int i)
      else .number (.float d)
    | none => .number (.float d)
  else .null

def referenceTo (id : RowId) : Json := .string (RowToken.ofId id)

/-- Values that need neither recursion nor effects; `none` is an undefined value. -/
def leaf (parent : Container κ) (key : String) : Model κ → Except RenderError (Option Json)
  | .undefined => .ok none
  | .null => .ok (some .null)
  | .bool b => .ok (some (.bool b))
  | .number d => .ok (some (ofNumber d))
  | .string s => .ok (some (.string (RowToken.escape s)))
  | .marker .element => .ok (some (.string RowToken.elementMark))
  | .marker .serverBlock => .ok (some (.string RowToken.blockMark))
  | .marker .lazy => .error .unsupportedBlock
  | .marker .block => .error .unsupportedBlock
  | .function name _ => .error (Refusal.function parent key name)
  | .symbol description => .error (Refusal.symbol parent key description)
  | .bigInt value => .error (Refusal.bigInt parent key value)
  | .instanceOf className _ => .error (Refusal.instanceOf parent key className)
  | _ => .ok none

/-- An undefined value where there must be one. -/
def orNull (j : Option Json) : Json := j.getD .null

/-- Items one after the other, each under its index. -/
def overItems {α : Type} (f : String → α → ExceptT RenderError m (Option Json)) :
    Nat → List α → ExceptT RenderError m (List Json)
  | _, [] => pure []
  | i, x :: xs => do
    let j ← f (Nat.repr i) x
    let js ← overItems f (i + 1) xs
    pure (orNull j :: js)

/-- Fields one after the other; a field that is undefined in the end is left out. -/
def overFields {α : Type} (f : String → α → ExceptT RenderError m (Option Json)) :
    List (String × α) → ExceptT RenderError m (List (String × Json))
  | [] => pure []
  | (k, x) :: fs => do
    let j ← f k x
    let js ← overFields f fs
    pure (match j with
      | some j => (k, j) :: js
      | none => js)

/-- The module of a client block: its metadata, or the error of the source in a row of its own. -/
def moduleSlot (ctx : SerializerContext κ m)
    (walk : Model κ → ExceptT RenderError m (Option Json)) :
    Except RenderError Json → ExceptT RenderError m Json
  | .ok json => orNull <$> walk (Model.ofJson json)
  | .error err => referenceTo <$> ExceptT.lift (ctx.emitError err)

/-- The data of a client block: what its loader gives, or a row of its own for what has to wait and
for what failed. -/
def dataSlot (ctx : SerializerContext κ m) (walk : Model κ → ExceptT RenderError m (Option Json))
    (load : Closure κ (Model κ)) : Resolution κ (Model κ) → ExceptT RenderError m Json
  | .ready value => orNull <$> walk value
  | .suspended t => referenceTo <$> ExceptT.lift (ctx.suspend (.load load) t)
  | .failed err => referenceTo <$> ExceptT.lift (ctx.emitError err)

variable [GivesUp m]

/-- The JSON of the value found at `key` of `parent`. `substituted` says whether a custom value has
been replaced at this place already. -/
def position (code : CodeEffects κ m) (ctx : SerializerContext κ m) :
    Nat → Container κ → String → Bool → Model κ → ExceptT RenderError m (Option Json)
  | 0, _, _, _, _ => ExceptT.mk giveUp
  | n + 1, parent, key, substituted, value =>
    match value with
    | .custom typeName toModel =>
      if substituted then throw (Refusal.secondCustom parent key typeName)
      else do
        if ctx.strict then ExceptT.lift (ctx.warn (Refusal.customWarning parent key))
        let next ← ExceptT.lift (code.toModel toModel)
        position code ctx n parent key true next
    | .element e => do
      let outcome ← ExceptT.lift (resolveElement code e)
      match outcome with
      | .ready next => position code ctx n parent key substituted next
      | .suspended t =>
        let id ← ExceptT.lift (ctx.suspend (.model (.element e)) t)
        pure (some (referenceTo id))
      | .failed err => throw err
    | .array items => do
      let js ← overItems (fun k x => position code ctx n (.items items) k false x) 0 items
      pure (some (.array js))
    | .record fields => do
      let js ← overFields (fun k x => position code ctx n (.fields fields) k false x)
        fields.entries
      pure (some (Json.ofFields js))
    | .serverBlock block => do
      let found ← ExceptT.lift (ctx.metadata block.module)
      let module ←
        moduleSlot ctx (fun value => position code ctx n (.whole value) "1" false value) found
      let outcome ← ExceptT.lift (code.load block.load)
      let data ←
        dataSlot ctx (fun value => position code ctx n (.whole value) "2" false value) block.load
          outcome
      pure (some (.array [.string RowToken.blockMark, module, data]))
    | value => ExceptT.mk (pure (leaf parent key value))

/-- The JSON text of a whole model; an undefined one is null. -/
def serialize (code : CodeEffects κ m) (ctx : SerializerContext κ m) (depth : Nat)
    (value : Model κ) : ExceptT RenderError m String := do
  let j ← position code ctx depth (.whole value) "" false value
  pure (orNull j).text

end Serializer
end TreeStream

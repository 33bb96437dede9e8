import TreeStream.RenderError
import TreeStream.Row.Token

/-!
# Rows

A row is one line: an id in decimal, a colon, the letter E if the row holds an error, and one JSON
text.
-/

namespace TreeStream

inductive RowKind where
  | model
  | error
  deriving DecidableEq

/-- A finished row. -/
structure Row where
  id : RowId
  kind : RowKind
  body : String
  deriving DecidableEq

namespace RowKind

/-- The letter between the colon and the body. -/
def tag? : RowKind → Option Char
  | model => none
  | error => some 'E'

/-- The line of a row of this kind. -/
def line (kind : RowKind) (id : RowId) (body : String) : String :=
  id.text ++ ":" ++ String.ofList kind.tag?.toList ++ body ++ "\n"

end RowKind

namespace Row

def ofModel (id : RowId) (json : String) : Row := ⟨id, .model, json⟩

def ofError (id : RowId) (e : RenderError) : Row := ⟨id, .error, e.payload.text⟩

/-- The row with its line end. -/
def text (r : Row) : String := r.kind.line r.id r.body

end Row
end TreeStream

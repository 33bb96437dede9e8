import TreeStream.Model.Basic

/-!
# Previews

Messages about a value that cannot be sent show the container it stands in: at most six entries,
strings cut after ten characters, everything nested as an ellipsis. The entry in question may be
opened one level. No code of the model runs for a preview.
-/

namespace TreeStream

variable {κ : Type}

/-- Where a value was found: as a whole, in an array, or in a record. -/
inductive Container (κ : Type) where
  | whole (value : Model κ)
  | items (items : List (Model κ))
  | fields (fields : Record (Model κ))

namespace Preview

/-- Entries shown of one container. -/
def maxEntries : Nat := 6

/-- Characters shown of one string. -/
def maxChars : Nat := 10

/-- A key, in quotes only if it has to be escaped. -/
def key (k : String) : String :=
  let quoted := Json.quote k
  if quoted = "\"" ++ k ++ "\"" then k else quoted

def ofString (s : String) : String :=
  Json.quote (if s.length ≤ maxChars then s
    else String.ofList (s.toList.take maxChars) ++ "...")

/-- Whole numbers below `10 ^ 21` with all their digits, other numbers with the shortest ones. -/
def ofNumber (d : Double) : String :=
  match d with
  | .nan => "NaN"
  | .infinite negative => if negative then "-Infinity" else "Infinity"
  | .finite negative _ _ =>
    match d.toInt? with
    | some i =>
      if i.natAbs < Nat.pow 10 21 then
        (if negative then "-" else "") ++ String.ofList (Nat.toDigits 10 i.natAbs)
      else Double.Layout.preview.text d
    | none => Double.Layout.preview.text d

def itemsEllipsis : String := "[...]"

def fieldsEllipsis : String := "\x7b...\x7d"

/-- A value as an entry that is not opened. -/
def value : Model κ → String
  | .string s => ofString s
  | .array _ => itemsEllipsis
  | .serverBlock _ => itemsEllipsis
  | .record _ => fieldsEllipsis
  | .element _ => fieldsEllipsis
  | .custom typeName _ => if typeName = Model.defaultTypeName then fieldsEllipsis else typeName
  | .instanceOf className _ => className
  | .function _ _ => "function"
  | .undefined => "undefined"
  | .null => "null"
  | .bool b => if b then "true" else "false"
  | .number d => ofNumber d
  | .bigInt i => String.ofList (Json.intChars i)
  | .symbol d => "Symbol(" ++ d.getD "" ++ ")"
  | .marker m => "Symbol(" ++ m.description ++ ")"

/-- The first entries, and a sign that there are more. -/
def listing {α : Type} (entry : α → String) (xs : List α) : String :=
  let shown := (xs.take maxEntries).map entry
  String.intercalate ", " (if maxEntries < xs.length then shown ++ ["..."] else shown)

def itemsWith {α : Type} (entry : α → String) (xs : List α) : String :=
  "[" ++ listing entry xs ++ "]"

def fieldsWith (entry : String × Model κ → String) (fields : Record (Model κ)) : String :=
  "\x7b" ++ listing (fun f => key f.1 ++ ": " ++ entry f) fields.entries ++ "\x7d"

/-- A value opened one level, if it is a container with entries of its own. -/
def opened : Model κ → String
  | .array items => itemsWith value items
  | .record fields => fieldsWith (fun f => value f.2) fields
  | .instanceOf _ fields => fieldsWith (fun f => value f.2) fields
  | m => value m

def entry (expanded : Bool) (m : Model κ) : String := if expanded then opened m else value m

def items (expanded : Option String) (xs : List (Model κ)) : String :=
  itemsWith (fun p => entry (expanded == some (Nat.repr p.2)) p.1) xs.zipIdx

def fields (expanded : Option String) (r : Record (Model κ)) : String :=
  fieldsWith (fun f => entry (expanded == some f.1) f.2) r

/-- The preview of a container with the entry of key `expanded` opened. -/
def container (c : Container κ) (expanded : Option String) : String :=
  match c with
  | .whole (.array xs) => items expanded xs
  | .whole (.record r) => fields expanded r
  | .whole m => value m
  | .items xs => items expanded xs
  | .fields r => fields expanded r

/-- The container that a value makes for its own entries. -/
def containerOf : Model κ → Container κ
  | .array xs => .items xs
  | .record r => .fields r
  | m => .whole m

end Preview
end TreeStream

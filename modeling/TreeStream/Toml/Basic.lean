import TreeStream.Record

/-!
# Configuration documents

A document is a tree of tables. How a table came to be decides whether later lines may add to it: by
a header, as a step on the way to a header, by a dotted key, or written inline.
-/

namespace TreeStream
namespace Toml

/-- How a table came to be. -/
inductive TableOrigin where
  | header
  | underway
  | dotted
  | inline
  deriving DecidableEq

/-- A value of a document. Of a float only matters whether a double can hold it, and of a date or
time only that it is one. -/
inductive Value where
  | string (text : String)
  | integer (value : Int)
  | float (fits : Bool)
  | boolean (value : Bool)
  | datetime
  | array (items : List Value)
  | table (origin : TableOrigin) (entries : List (String × Value))
  /-- Tables written with repeated headers; the last one may still grow. -/
  | tables (items : List (List (String × Value)))

/-- The entries of a table. -/
abbrev Entries := List (String × Value)

/-- Adds an entry under a new key. -/
def addNew (key : String) (value : Value) (es : Entries) : Option Entries :=
  if (es.lookup key).isSome then none else some (es ++ [(key, value)])

/-- Whether a key path may go through this table: an inline table is finished, and dotted keys go
only through tables that no header has named. -/
def mayDescend (dotted : Bool) : TableOrigin → Bool
  | .header => !dotted
  | .underway => true
  | .dotted => true
  | .inline => false

/-- The last element replaced, if there is one. -/
def mapLast? {α : Type} (f : α → Option α) : List α → Option (List α)
  | [] => none
  | [x] => (f x).map fun y => [y]
  | x :: y :: rest => (mapLast? f (y :: rest)).map fun r => x :: r

/-- Changes the table at the end of a path, creating the tables on the way that are missing. The
change is told how the table came to be. -/
def descend (dotted : Bool) (change : TableOrigin → Entries → Option Entries) :
    List String → TableOrigin → Entries → Option Entries
  | [], origin, es => change origin es
  | key :: path, _, es =>
    let fresh := if dotted then TableOrigin.dotted else .underway
    match es.lookup key with
    | none => (descend dotted change path fresh []).map fun sub => es ++ [(key, .table fresh sub)]
    | some (.table origin sub) =>
      if mayDescend dotted origin then
        (descend dotted change path origin sub).map fun sub =>
          Record.place key (.table origin sub) es
      else none
    | some (.tables items) =>
      (mapLast? (descend dotted change path .header) items).map fun items =>
        Record.place key (.tables items) es
    | some _ => none

/-- The keys before the last one, and the last one. -/
def splitLast? : List String → Option (List String × String)
  | [] => none
  | [k] => some ([], k)
  | k :: l :: rest => (splitLast? (l :: rest)).map fun p => (k :: p.1, p.2)

/-- Puts a value under a dotted key. A table made by dotted keys takes no plain key from a header of
its own, and the other way round. -/
def putAt (path : List String) (key : String) (value : Value) (origin : TableOrigin)
    (es : Entries) : Option Entries :=
  descend true
    (fun origin es =>
      if (origin == .dotted) == path.isEmpty then none else addNew key value es)
    path origin es

/-- Opens the table of a header: a new one, or one that headers have only passed through. -/
def openTable (path : List String) (key : String) (es : Entries) : Option Entries :=
  descend false
    (fun _ es =>
      match es.lookup key with
      | none => some (es ++ [(key, .table .header [])])
      | some (.table .underway sub) => some (Record.place key (.table .header sub) es)
      | some _ => none)
    path .header es

/-- Opens one more table of a repeated header. -/
def openNext (path : List String) (key : String) (es : Entries) : Option Entries :=
  descend false
    (fun _ es =>
      match es.lookup key with
      | none => some (es ++ [(key, .tables [[]])])
      | some (.tables items) => some (Record.place key (.tables (items ++ [[]])) es)
      | some _ => none)
    path .header es

/-- Puts a value under a dotted key of the table that the last header has opened. -/
def putUnder (header : List String) (path : List String) (key : String) (value : Value)
    (es : Entries) : Option Entries :=
  descend false (fun origin es => putAt path key value origin es) header .header es

end Toml
end TreeStream

import TreeStream.Row.Basic

/-!
# Rows collected in memory

A memory sink keeps every row. It reports saturation once `limit` rows are buffered and not yet
drained, and fails every write if it is given a failure.
-/

namespace TreeStream

/-- Rows collected in memory, and how often each method was called. -/
structure MemorySink where
  limit : Option Nat := none
  failure : Option String := none
  rows : Array String := #[]
  buffered : Nat := 0
  begun : Nat := 0
  completed : Nat := 0
  flushed : Nat := 0
  closed : Nat := 0

namespace MemorySink

/-- The answer says whether more rows are welcome. -/
def write (s : MemorySink) (row : Row) : Except RenderError Bool × MemorySink :=
  match s.failure with
  | some reason => (.error (.destination reason), s)
  | none =>
    let buffered := s.buffered + 1
    (.ok (s.limit.all (buffered < ·)),
      { s with rows := s.rows.push row.text, buffered := buffered })

/-- Marks every buffered row as consumed. -/
def drain (s : MemorySink) : Nat × MemorySink := (s.buffered, { s with buffered := 0 })

def text (s : MemorySink) : String := String.join s.rows.toList

def isClosed (s : MemorySink) : Bool := 0 < s.closed

end MemorySink
end TreeStream

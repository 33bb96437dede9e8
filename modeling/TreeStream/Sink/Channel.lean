import TreeStream.Row.Basic

/-!
# Rows on their way to a consumer

A channel holds the rows that were written and not yet received. Writing reports saturation once
`limit` rows are buffered. One driver task watches the channel: a wake reaches it if it waits, and
is stored otherwise, one at most.
-/

namespace TreeStream

/-- Where the task that drives a stream stands. -/
inductive DriverState where
  | starting
  | waiting
  | woken
  | running
  | stopped
  deriving DecidableEq

/-- The state shared by the writing and the consuming side of a stream. -/
structure Channel where
  limit : Nat
  rows : List String := []
  buffered : Nat := 0
  completed : Bool := false
  consumerGone : Bool := false
  permit : Bool := false
  driver : DriverState := .starting

/-- What a consumer gets when it asks for a row. -/
inductive Received where
  | row (text : String)
  | pending
  | ended
  deriving DecidableEq

namespace Channel

/-- Wakes the driver if it waits and stores the wake otherwise. The answer says whether the driver
has to be queued. -/
def wake (c : Channel) : Bool × Channel :=
  match c.driver with
  | .waiting => (true, { c with driver := .woken })
  | _ => (false, { c with permit := true })

def write (c : Channel) (row : Row) : Except RenderError Bool × Channel :=
  if c.consumerGone then (.error (.destination "stream consumer was dropped"), c)
  else if c.completed then (.error (.destination "stream already closed"), c)
  else
    let buffered := c.buffered + 1
    (.ok (decide (buffered < c.limit)),
      { c with rows := c.rows ++ [row.text], buffered := buffered })

/-- No row follows; the driver is woken to see it. -/
def close (c : Channel) : Bool × Channel := { c with completed := true }.wake

/-- Takes the oldest row, and wakes the driver if the rows left are below the limit. `writing` says
whether the writing side still exists. -/
def receive (c : Channel) (writing : Bool) : Received × Bool × Channel :=
  match c.rows with
  | row :: rest =>
    let buffered := c.buffered - 1
    let c := { c with rows := rest, buffered := buffered }
    if buffered < c.limit then
      let w := c.wake
      (.row row, w.1, w.2)
    else (.row row, false, c)
  | [] => (if writing && !c.completed then .pending else .ended, false, c)

/-- Every row was received and the last one is known to be the last. -/
def isComplete (c : Channel) : Bool := c.completed && c.rows.isEmpty

/-- The consumer goes away; the driver is woken to see it. -/
def abandon (c : Channel) : Bool × Channel := { c with consumerGone := true }.wake

end Channel
end TreeStream

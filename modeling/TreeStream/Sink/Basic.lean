import TreeStream.Sink.Channel
import TreeStream.Sink.Memory

/-!
# Sinks

A destination is called in batches: begin, rows, complete, flush, and a close at the very end. A
sink is the part of a destination that the library provides; user code may stand in front of it.
-/

namespace TreeStream

/-- A call of a destination. -/
inductive SinkCall where
  | begin
  | write (row : Row)
  | complete
  | flush
  | close
  deriving DecidableEq

/-- Where rows go. -/
inductive Sink where
  | memory (sink : MemorySink)
  | channel (channel : Channel)
  | discard

namespace Sink

/-- What a sink answers, whether the driver of its stream has to be queued, and the sink after the
call. The answer to a write says whether more rows are welcome. -/
def answer (s : Sink) (call : SinkCall) : Except RenderError Bool × Bool × Sink :=
  match s with
  | memory m =>
    match call with
    | .begin => (.ok true, false, memory { m with begun := m.begun + 1 })
    | .write row =>
      let r := m.write row
      (r.1, false, memory r.2)
    | .complete => (.ok true, false, memory { m with completed := m.completed + 1 })
    | .flush => (.ok true, false, memory { m with flushed := m.flushed + 1 })
    | .close => (.ok true, false, memory { m with closed := m.closed + 1 })
  | channel c =>
    match call with
    | .write row =>
      let r := c.write row
      (r.1, false, channel r.2)
    | .close =>
      let r := c.close
      (.ok true, r.1, channel r.2)
    | _ => (.ok true, false, channel c)
  | discard => (.ok true, false, discard)

/-- What the sink keeps in memory; other sinks keep nothing there. -/
def memory? : Sink → Option MemorySink
  | memory m => some m
  | _ => none

def channel? : Sink → Option Channel
  | channel c => some c
  | _ => none

end Sink
end TreeStream

import TreeStream.Proofs.Triple
import TreeStream.Proofs.Writing

/-!
# One request, seen alone

Most of what happens in a host does not concern a given request. Its view keeps what does, and the
hand keeps what the host does not write down while actions on the request are under way: the calls
that have been entered, the pings still to be delivered, the passes with the segments left to try,
and the flush with the row that is on its way.
-/

namespace TreeStream

variable {κ σ : Type}

def Event.request? : Event → Option RequestId
  | note _ => none
  | warning r _ => some r
  | issued r _ => some r
  | started r => some r
  | flowed r _ => some r
  | scheduled r => some r
  | began r _ => some r
  | pinged r _ => some r
  | retried r _ => some r
  | left r _ => some r
  | ran r _ _ => some r
  | completed r _ => some r
  | calling r _ _ => some r
  | called r _ _ => some r

def Event.isOf (r : RequestId) (e : Event) : Bool := e.request? = some r

/-- Events that no account is kept of. -/
def Event.IsAside : Event → Prop
  | warning _ _ => True
  | ran _ _ _ => True
  | _ => False

/-- What a host shows of one request. `passes` counts the queued passes, `log` lists the events of
the request, newest first. -/
structure View (κ : Type) where
  request : Option (Request κ)
  promises : Array (PromiseCell κ)
  passes : Nat
  inPass : Bool
  log : List Event

def Host.view (h : Host κ σ) (r : RequestId) : View κ where
  request := h.requests[r.index]?
  promises := h.promises
  passes := h.queue.countP (Work.isPassOf r) + h.tasks.countP (Task.isPassOf r)
  inPass := h.inPass
  log := h.journal.filter (Event.isOf r)

/-- What a request's log tells is told by the journal, and is about the request. -/
theorem Host.mem_journal_of_log {h : Host κ σ} {r : RequestId} {e : Event}
    (he : e ∈ (h.view r).log) : e ∈ h.journal :=
  (List.mem_filter.mp he).1

theorem Host.mem_log_of_journal {h : Host κ σ} {r : RequestId} {e : Event} (he : e ∈ h.journal)
    (hr : e.request? = some r) : e ∈ (h.view r).log :=
  List.mem_filter.mpr ⟨he, by simp [Event.isOf, hr]⟩

theorem Host.eq_of_mem_log {h : Host κ σ} {r r' : RequestId} {e : Event}
    (he : e ∈ (h.view r).log) (hr : e.request? = some r') : r' = r := by
  have := (List.mem_filter.mp he).2
  simpa [Event.isOf, hr] using this

/-- The request is there and someone keeps it alive. -/
def View.Alive (v : View κ) : Prop :=
  ∃ q, v.request = some q ∧ (q.held = true ∨ 0 < q.running ∨ 0 < v.passes)

theorem Host.isAlive_iff (h : Host κ σ) (r : RequestId) : h.isAlive r ↔ (h.view r).Alive := by
  have hcount : 0 < h.queue.countP (Work.isPassOf r) + h.tasks.countP (Task.isPassOf r) ↔
      h.queue.any (Work.isPassOf r) = true ∨ h.tasks.any (Task.isPassOf r) = true := by
    rw [Nat.add_pos_iff_pos_or_pos, List.countP_pos_iff, List.countP_pos_iff, List.any_eq_true,
      List.any_eq_true]
  unfold isAlive View.Alive
  simp only [view, hcount]
  cases h.requests[r.index]? with
  | none => simp
  | some req => simp [or_assoc]

/-- A segment that a pass is trying: the query it had, the value reached so far, and the rows issued
by serializing it. -/
structure Attempt (κ : Type) where
  segment : SegmentId
  query : Query κ
  value : Option (Model κ) := none
  issues : List (Issue κ) := []

/-- A pass under way: where modules come from, the segments still to be tried, the one that it is at,
what it does there, and whether it began during a flush. -/
structure PassState (κ : Type) where
  modules : ModuleSource κ
  batch : List SegmentId
  current : Option SegmentId := none
  attempt : Option (Attempt κ) := none
  inFlush : Bool := false

/-- How far the batch of a flush has come. -/
inductive BatchStage where
  | fresh
  | writing
  | spoiled
  | completed
  | flushed
  | over
  deriving DecidableEq

/-- The stage of a batch after a call of the destination. A failed write spoils the batch, which is
still completed. -/
def BatchStage.after (stage : BatchStage) : SinkCall → Except RenderError Bool → BatchStage
  | .begin, .ok _ => .writing
  | .write _, .ok _ => stage
  | .write _, .error _ => .spoiled
  | .complete, .ok _ => if stage = .writing then .completed else .over
  | .flush, .ok _ => .flushed
  | _, _ => .over

/-- A flush under way. It may be the end of a pass, it is idle if the request was closed before, a
queue is dry once it was found empty, and it is decided once the pending rows were looked at. The
destination is asked one thing at a time; it has failed once an answer was an error, it is saturated
once it has taken a row without asking for more, and then the flow is halting until it stops. -/
structure Delivery where
  ofPass : Bool
  idle : Bool
  stage : BatchStage := .fresh
  row : Option Row := none
  asked : Option SinkCall := none
  modelDry : Bool := false
  errorDry : Bool := false
  decided : Bool := false
  closing : Bool := false
  failed : Bool := false
  saturated : Bool := false
  halting : Bool := false

/-- What is under way on a request. `fresh` counts the calls that are entered and run neither a pass
nor a flush of their own, `due` those of them that are about to begin a pass, `pings` lists the
segments whose ping or registration is still to be made. Passes stand innermost first. -/
structure Hand (κ : Type) where
  fresh : Nat := 0
  due : Nat := 0
  pings : List SegmentId := []
  passes : List (PassState κ) := []
  delivery : Option Delivery := none

def SinkCall.row? : SinkCall → Option Row
  | .write row => some row
  | _ => none

def SinkCall.isSaturation : SinkCall → Except RenderError Bool → Bool
  | .write _, .ok welcome => !welcome
  | _, _ => false

def SinkCall.isRefusal (c : SinkCall) (answer : Except RenderError Bool) : Bool :=
  !answer.isOk || c.isSaturation answer

namespace Delivery

/-- Nothing is on its way between the request and the destination. -/
structure Clear (d : Delivery) : Prop where
  row : d.row = none
  asked : d.asked = none
  closing : d.closing = false
  halting : d.halting = false

/-- What the destination can be asked next. -/
def Expects (d : Delivery) : SinkCall → Prop
  | .begin => d.Clear ∧ d.stage = .fresh ∧ d.idle = false
  | .write row => d.row = some row ∧ d.asked = none ∧ d.closing = false ∧ d.halting = false ∧
      d.stage = .writing
  | .complete => d.Clear ∧ (d.stage = .writing ∨ d.stage = .spoiled)
  | .flush => d.Clear ∧ d.stage = .completed
  | .close => d.row = none ∧ d.asked = none ∧ d.closing = true ∧ d.halting = false ∧
      d.stage = .flushed

theorem Expects.row {d : Delivery} {c : SinkCall} (h : d.Expects c) : d.row = c.row? := by
  cases c with
  | begin => exact h.1.row
  | write row => exact h.1
  | complete => exact h.1.row
  | flush => exact h.1.row
  | close => exact h.1

theorem Expects.asked {d : Delivery} {c : SinkCall} (h : d.Expects c) : d.asked = none := by
  cases c with
  | begin => exact h.1.asked
  | write row => exact h.2.1
  | complete => exact h.1.asked
  | flush => exact h.1.asked
  | close => exact h.2.1

theorem Expects.closing {d : Delivery} {c : SinkCall} (h : d.Expects c) :
    d.closing = decide (c = .close) := by
  cases c with
  | begin => exact h.1.closing
  | write row => exact h.2.2.1
  | complete => exact h.1.closing
  | flush => exact h.1.closing
  | close => exact h.2.2.1

def called (d : Delivery) (c : SinkCall) (answer : Except RenderError Bool) : Delivery :=
  { d with
    stage := d.stage.after c answer
    row := none
    asked := none
    closing := false
    failed := d.failed || !answer.isOk
    saturated := d.saturated || c.isSaturation answer
    halting := c.isSaturation answer }

def runDry (d : Delivery) : RowKind → Delivery
  | .model => { d with modelDry := true }
  | .error => { d with errorDry := true }

/-- Nothing is left to do: the request was closed before, the destination has failed, or the pending
rows were looked at after both queues were found empty or the destination was saturated. -/
structure Done (d : Delivery) : Prop where
  clear : d.Clear
  why : (d.idle = true ∧ d.stage = .fresh) ∨
    (d.stage = .over ∧ (d.failed = true ∨
      (d.decided = true ∧ (d.saturated = true ∨ (d.modelDry = true ∧ d.errorDry = true)))))

end Delivery

/-- The segments of a request that the reactions to an outcome have tried again. -/
def pingsOf (r : RequestId) (reactions : List (Reaction κ)) (outcome : Outcome κ) :
    List SegmentId :=
  (reactions.map fun reaction => Host.Reaction.pick reaction outcome).filterMap (Callback.ping? r)

def Reaction.Foreign (r : RequestId) (reaction : Reaction κ) : Prop :=
  reaction.onFulfilled.ping? r = none ∧ reaction.onRejected.ping? r = none

def Reaction.ofWaiting (r : RequestId) (s : SegmentId) : Reaction κ := ⟨.ping r s, .ping r s⟩

end TreeStream

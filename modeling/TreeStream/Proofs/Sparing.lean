import TreeStream.Proofs.Effects
import TreeStream.Proofs.Walks

/-!
# What user code leaves alone

The user of a stream has no handle of its request, so user code cannot start its work, resume its
flow or run a pass of it. It may ping it and do whatever it likes to others. What decides how the
stream flows is then left as it was by all user code, by all work of other requests, and by a pass
of the stream itself up to the flush that ends it.
-/

namespace TreeStream

variable {κ σ α β : Type}

/-- A call that takes no handle of the request. -/
def HostCall.Spares (r : RequestId) : HostCall κ → Prop
  | .startWork r' => r' ≠ r
  | .startFlowing r' => r' ≠ r
  | .performWork r' => r' ≠ r
  | .takeFatal r' => r' ≠ r
  | .release r' => r' ≠ r
  | _ => True

structure UserCode.Spares (user : UserCode κ σ) (r : RequestId) : Prop where
  render : ∀ code props ref, (user.render code props ref).Makes (HostCall.Spares r)
  load : ∀ code, (user.load code).Makes (HostCall.Spares r)
  toModel : ∀ code, (user.toModel code).Makes (HostCall.Spares r)
  await : ∀ code f g, (user.await code f g).Makes (HostCall.Spares r)
  react : ∀ code, (user.react code).Makes (HostCall.Spares r)
  metadata : ∀ code m, (user.metadata code m).Makes (HostCall.Spares r)
  destination : ∀ code call, (user.destination code call).Makes (HostCall.Spares r)

/-- A request without what its work changes: its segments, its rows and how many are pending. -/
def Request.outline (q : Request κ) : Request κ :=
  { q with
    nextId := .ofNat 0, segments := #[], pending := 0, pinged := [], modelRows := [],
    errorRows := [] }

def Task.isDriverOf (r : RequestId) : Task κ → Bool
  | .driver r' => r' = r
  | _ => false

/-- Events of the calls on a request and of its destination. -/
def Event.isFlowOf (r : RequestId) : Event → Bool
  | .started r' => r' = r
  | .flowed r' _ => r' = r
  | .began r' _ => r' = r
  | .calling r' _ _ => r' = r
  | .called r' _ _ => r' = r
  | _ => false

/-- What decides how a request flows: its outline, the queued tasks of its driver, its queued passes
of the manual scheduler, and the events of its flow. -/
structure Line (κ : Type) where
  request : Option (Request κ)
  drivers : Nat
  passes : Nat
  log : List Event

namespace Line

/-- No pass of the request can come from the manual scheduler, and its rows are not in memory. -/
structure Quiet (L : Line κ) : Prop where
  passes : L.passes = 0
  queue : ∀ q, L.request = some q → q.settings.queue = .tasks
  sink : ∀ q, L.request = some q → q.settings.sink.memory? = none

end Line

namespace Host

variable {h : Host κ σ} {r r' : RequestId}

def line (h : Host κ σ) (r : RequestId) : Line κ where
  request := h.requests[r.index]?.map Request.outline
  drivers := h.tasks.countP (Task.isDriverOf r)
  passes := h.queue.countP (Work.isPassOf r)
  log := h.journal.filter (Event.isFlowOf r)

theorem line_tell {e : Event} (he : e.isFlowOf r = false) : (h.tell e).line r = h.line r := by
  simp [line, tell, he]

theorem line_tell_self {e : Event} (he : e.isFlowOf r = true) :
    (h.tell e).line r = { h.line r with log := e :: (h.line r).log } := by
  simp [line, tell, he]

theorem line_update_ne (hr : r' ≠ r) (f : Request κ → Request κ) :
    (h.update r' f).line r = h.line r := by
  have hi : r'.index ≠ r.index := fun he => hr (by cases r; cases r'; cases he; rfl)
  simp [line, update, Array.getElem?_modify, hi]

theorem line_update_self {f : Request κ → Request κ} (f' : Request κ → Request κ)
    (hf : ∀ q : Request κ, (f q).outline = f' q.outline) :
    (h.update r f).line r = { h.line r with request := (h.line r).request.map f' } := by
  simp only [line, update, Array.getElem?_modify, if_true, Option.map_map]
  congr 2
  funext q
  exact hf q

theorem line_update {f : Request κ → Request κ} (hf : ∀ q : Request κ, (f q).outline = q.outline) :
    (h.update r' f).line r = h.line r := by
  by_cases hr : r' = r
  · rw [hr, line_update_self id hf]
    simp
  · exact line_update_ne hr f

end Host

/-! ## Actions that leave the line alone -/

/-- The action leaves alone what decides how the request flows. -/
def Leaves (r : RequestId) (m : HostM κ σ α) : Prop :=
  ∀ ⦃h a h'⦄, (h.line r).Quiet → m h = some (a, h') → h'.line r = h.line r

namespace Leaves

open Host

variable {r r' : RequestId}

theorem pure (a : α) : Leaves r (Pure.pure a : HostM κ σ α) := by
  intro h b h' _ hm
  cases hm
  rfl

theorem failure : Leaves r (Alternative.failure : HostM κ σ α) := by
  intro h b h' _ hm
  cases hm

theorem bind {m : HostM κ σ α} {k : α → HostM κ σ β} (hm : Leaves r m)
    (hk : ∀ a, Leaves r (k a)) : Leaves r (m >>= k) := by
  intro h b h'' hq hrun
  obtain ⟨⟨a, h'⟩, hfirst, hrest⟩ := Option.bind_eq_some_iff.mp hrun
  have hline := hm hq hfirst
  exact (hk a (hline ▸ hq) hrest).trans hline

theorem map {f : α → β} {m : HostM κ σ α} (hm : Leaves r m) : Leaves r (f <$> m) := by
  intro h b h' hq hrun
  obtain ⟨⟨a, h₁⟩, hfirst, hrest⟩ := Option.bind_eq_some_iff.mp hrun
  cases hrest
  exact hm hq hfirst

theorem forM {f : α → HostM κ σ Unit} (hf : ∀ a, Leaves r (f a)) (xs : List α) :
    Leaves r (xs.forM f) := by
  induction xs with
  | nil => exact pure ()
  | cons x xs ih => exact (hf x).bind fun _ => ih

theorem of_looking {m : HostM κ σ α} (hm : ∀ ⦃h a h'⦄, m h = some (a, h') → h' = h) :
    Leaves r m := by
  intro h a h' _ hrun
  rw [hm hrun]

theorem get : Leaves r (MonadState.get : HostM κ σ (Host κ σ)) :=
  of_looking fun _ _ _ hrun => by
    cases hrun
    rfl

theorem modify {f : Host κ σ → Host κ σ} (hf : ∀ h, (f h).line r = h.line r) :
    Leaves r (modify f : HostM κ σ Unit) := by
  intro h a h' _ hrun
  cases hrun
  exact hf h

theorem record {e : Event} (he : e.isFlowOf r = false) :
    Leaves r (Host.record e : HostM κ σ Unit) :=
  modify fun _ => line_tell he

theorem modifyRequest_ne (hr : r' ≠ r) (f : Request κ → Request κ) :
    Leaves r (modifyRequest r' f : HostM κ σ Unit) :=
  modify fun _ => line_update_ne hr f

theorem modifyRequest {f : Request κ → Request κ}
    (hf : ∀ q : Request κ, (f q).outline = q.outline) :
    Leaves r (Host.modifyRequest r' f : HostM κ σ Unit) :=
  modify fun _ => line_update hf

theorem request : Leaves r (Host.request r' : HostM κ σ (Request κ)) :=
  of_looking fun _ _ _ hrun => (request_of_run hrun).2

theorem segment (s : SegmentId) : Leaves r (Host.segment r' s : HostM κ σ (Segment κ)) :=
  of_looking fun _ _ _ hrun => by
    obtain ⟨q, -, -, rfl⟩ := segment_of_run hrun
    rfl

theorem promise (p : PromiseId) : Leaves r (Host.promise p : HostM κ σ (PromiseCell κ)) :=
  of_looking fun _ _ _ hrun => (promise_of_run hrun).2

theorem modifySegment (s : SegmentId) (f : Segment κ → Segment κ) :
    Leaves r (Host.modifySegment r' s f : HostM κ σ Unit) :=
  modifyRequest fun _ => rfl

/-- The passes of a stream are tasks. -/
theorem schedulePass : Leaves r (Host.schedulePass r' : HostM κ σ Unit) := by
  refine (record rfl).bind fun _ => ?_
  intro h a h' hq hrun
  obtain ⟨⟨q, h₁⟩, hreq, hrest⟩ := Option.bind_eq_some_iff.mp hrun
  obtain ⟨hr, rfl⟩ := request_of_run hreq
  cases hqueue : q.settings.queue with
  | tasks =>
    simp only [hqueue, run_modify] at hrest
    cases hrest
    simp [line, Task.isDriverOf]
  | manual =>
    simp only [hqueue, run_modify] at hrest
    cases hrest
    have hne : ¬ r' = r := by
      rintro rfl
      have := hq.queue q.outline (by simp [line, hr])
      exact nomatch hqueue.symm.trans this
    simp [line, Work.isPassOf, hne]

theorem ping (s : SegmentId) : Leaves r (Host.ping r' s : HostM κ σ Unit) := by
  refine .bind get fun h => ?_
  cases h.isAlive r' with
  | false => exact pure ()
  | true =>
    refine .bind (record rfl) fun _ => .bind (modifyRequest fun _ => rfl) fun _ =>
      .bind request fun q => ?_
    by_cases hl : q.pinged.length = 1
    · simp only [hl, if_true]
      exact schedulePass
    · simp only [hl, if_false]
      exact pure ()

theorem allocate : Leaves r (Host.allocate r' : HostM κ σ RowId) :=
  .bind request fun _ => .bind (modifyRequest fun _ => rfl) fun _ => .bind (record rfl) fun _ =>
    pure _

theorem newSegment (query : Query κ) : Leaves r (Host.newSegment r' query : HostM κ σ SegmentId) :=
  .bind allocate fun _ => .bind request fun _ => .bind (modifyRequest fun _ => rfl) fun _ => pure _

theorem completeError (id : RowId) (e : RenderError) :
    Leaves r (Host.completeError r' id e : HostM κ σ Unit) :=
  .bind (modifyRequest fun _ => rfl) fun _ => record rfl

theorem failSegment (s : SegmentId) (e : RenderError) :
    Leaves r (Host.failSegment r' s e : HostM κ σ Unit) :=
  .bind (modifySegment s _) fun _ => .bind (segment s) fun _ => completeError _ e

theorem completeSegment (s : SegmentId) (json : String) :
    Leaves r (Host.completeSegment r' s json : HostM κ σ Unit) :=
  .bind (modifySegment s _) fun _ => .bind (segment s) fun _ =>
    .bind (modifyRequest fun _ => rfl) fun _ => record rfl

end Leaves

/-! ## Scripts -/

/-- All calls without a handle of the request leave its line alone. -/
def CallsLeave (r : RequestId) (call : (c : HostCall κ) → HostM κ σ c.Reply) : Prop :=
  ∀ c, c.Spares r → Leaves r (call c)

namespace Host

variable {r r' : RequestId} {user : UserCode κ σ} {call : (c : HostCall κ) → HostM κ σ c.Reply}

theorem enqueueTask_leaves {task : Task κ} (ht : task.isDriverOf r = false) :
    Leaves r (modify fun h : Host κ σ => { h with tasks := h.tasks ++ [task] } : HostM κ σ Unit) :=
  .modify fun h => by simp [line, ht]

theorem enqueueUser_leaves (code : Code κ) :
    Leaves r (modify fun h : Host κ σ =>
      { h with queue := h.queue ++ [.user code], scheduled := h.scheduled + 1 } : HostM κ σ Unit) :=
  .modify fun h => by simp [line, Work.isPassOf]

theorem script_leaves (hcall : CallsLeave r call) {script : Script κ σ α}
    (hs : script.Makes (HostCall.Spares r)) : Leaves r (script.run call) := by
  induction script with
  | done a => exact .pure a
  | get next ih => exact .bind .get fun h => ih _ (hs _)
  | put s next ih => exact .bind (.modify fun _ => rfl) fun _ => ih hs
  | call c next ih => exact .bind (hcall c hs.1) fun a => ih a (hs.2 a trivial)

/-! ## Flushes of other requests -/

theorem verdict_leaves (huser : user.Spares r) (hcall : CallsLeave r call) (c : SinkCall) :
    Leaves r (verdict user call r' c) := by
  refine .bind .request fun q => ?_
  cases q.settings.guard with
  | none => exact .pure _
  | some code => exact script_leaves hcall (huser.destination code c)

theorem callSink_leaves (hr : r' ≠ r) (c : SinkCall) :
    Leaves r (callSink r' c : HostM κ σ (Except RenderError Bool)) := by
  refine .bind .request fun q => .bind (.modifyRequest_ne hr _) fun _ => ?_
  split
  · exact .bind (enqueueTask_leaves (by simpa [Task.isDriverOf] using hr)) fun _ => .pure _
  · exact .pure _

theorem callDestination_leaves (huser : user.Spares r) (hcall : CallsLeave r call) (hr : r' ≠ r)
    (c : SinkCall) : Leaves r (callDestination user call r' c) := by
  have hcalling : ∀ n, (Event.calling r' c n).isFlowOf r = false := by simp [Event.isFlowOf, hr]
  have hcalled : ∀ answer, (Event.called r' c answer).isFlowOf r = false := by
    simp [Event.isFlowOf, hr]
  have hend : ∀ answer, Leaves r (do record (.called r' c answer); pure answer : HostM κ σ _) :=
    fun answer => .bind (.record (hcalled _)) fun _ => .pure _
  refine .bind .request fun q => .bind (.record (hcalling _)) fun _ =>
    .bind (verdict_leaves huser hcall c) fun v => ?_
  cases v with
  | fail e => exact hend _
  | pass => exact .bind (callSink_leaves hr c) hend
  | answer welcome =>
    refine .bind (callSink_leaves hr c) fun a => ?_
    cases a <;> exact hend _

theorem takeRow_leaves (kind : RowKind) :
    Leaves r (takeRow r' kind : HostM κ σ (Option Row)) := by
  refine .bind .request fun q => ?_
  cases q.rows kind with
  | nil => exact .pure _
  | cons row rest =>
    refine .bind (.modifyRequest fun q => ?_) fun _ => .pure _
    cases kind <;> rfl

theorem writeRows_leaves (huser : user.Spares r) (hcall : CallsLeave r call) (hr : r' ≠ r)
    (kind : RowKind) (n : Nat) : Leaves r (writeRows user call r' kind n) := by
  induction n with
  | zero => exact .failure
  | succ n ih =>
    refine .bind (takeRow_leaves kind) fun row => ?_
    cases row with
    | none => exact .pure _
    | some row =>
      refine .bind (callDestination_leaves huser hcall hr _) fun a => ?_
      rcases a with e | _ | _
      · exact .pure _
      · exact .bind (.modifyRequest_ne hr _) fun _ => .pure _
      · exact ih

theorem writeBatch_leaves (huser : user.Spares r) (hcall : CallsLeave r call) (hr : r' ≠ r)
    (n : Nat) : Leaves r (writeBatch user call r' n) := by
  refine .bind (writeRows_leaves huser hcall hr .model n) fun a => ?_
  cases a with
  | error e => exact .pure _
  | ok u => exact writeRows_leaves huser hcall hr .error n

theorem closeIfFinished_leaves (huser : user.Spares r) (hcall : CallsLeave r call) (hr : r' ≠ r) :
    Leaves r (closeIfFinished user call r') := by
  refine .bind .request fun q => ?_
  split
  · refine .bind (.modifyRequest_ne hr _) fun _ =>
      .bind (callDestination_leaves huser hcall hr _) fun a => ?_
    cases a <;> exact .pure _
  · exact .pure _

theorem endBatch_leaves (huser : user.Spares r) (hcall : CallsLeave r call) (hr : r' ≠ r)
    (written : Except RenderError Unit) : Leaves r (endBatch user call r' written) := by
  refine .bind (callDestination_leaves huser hcall hr _) fun completed => ?_
  rcases written with e | u
  · exact .pure _
  rcases completed with e | b
  · exact .pure _
  refine .bind (callDestination_leaves huser hcall hr _) fun flushed => ?_
  rcases flushed with e | b
  · exact .pure _
  · exact closeIfFinished_leaves huser hcall hr

theorem batch_leaves (huser : user.Spares r) (hcall : CallsLeave r call) (hr : r' ≠ r) (n : Nat) :
    Leaves r (batch user call r' n) := by
  refine .bind (callDestination_leaves huser hcall hr _) fun begun => ?_
  cases begun with
  | error e => exact .pure _
  | ok b =>
    exact .bind (writeBatch_leaves huser hcall hr n) fun written =>
      endBatch_leaves huser hcall hr written

theorem flush_leaves (huser : user.Spares r) (hcall : CallsLeave r call) (hr : r' ≠ r) (n : Nat) :
    Leaves r (flush user call r' n) := by
  refine .bind .request fun q => ?_
  split
  · exact .pure _
  · have hend : ∀ result : Except RenderError Unit, Leaves r (do
        modifyRequest r' fun req => { req with flushing := false }
        pure result : HostM κ σ _) :=
      fun result => .bind (.modifyRequest_ne hr _) fun _ => .pure _
    refine .bind (.modifyRequest_ne hr _) fun _ => .bind .request fun q => ?_
    split
    · exact hend _
    · exact .bind (batch_leaves huser hcall hr n) hend

/-! ## Work -/

theorem await_leaves (huser : user.Spares r) (hcall : CallsLeave r call) (t : Thenable κ)
    (f f' : Callback κ) : Leaves r (await user call t f f') := by
  cases t with
  | promise p => exact hcall _ trivial
  | custom code => exact script_leaves hcall (huser.await code f f')

theorem recordRun_leaves (step : UserStep) :
    Leaves r (recordRun r' step : HostM κ σ Unit) :=
  .bind .get fun _ => .record rfl

theorem metadata_leaves (huser : user.Spares r) (hcall : CallsLeave r call)
    (m : ModuleReference) : Leaves r (metadata user call r' m) := by
  refine .bind .request fun q => ?_
  cases q.settings.modules with
  | manifest manifest => exact .pure _
  | user code => exact script_leaves hcall (huser.metadata code m)

theorem suspend_leaves (huser : user.Spares r) (hcall : CallsLeave r call) (query : Query κ)
    (t : Thenable κ) : Leaves r (suspend user call r' query t) :=
  .bind (.modifyRequest fun _ => rfl) fun _ => .bind (.newSegment query) fun s =>
    .bind (await_leaves huser hcall t _ _) fun _ => .bind (.segment s) fun _ => .pure _

theorem emitError_leaves (e : RenderError) : Leaves r (emitError r' e : HostM κ σ RowId) :=
  .bind (.modifyRequest fun _ => rfl) fun _ => .bind .allocate fun id =>
    .bind (.completeError id e) fun _ => .pure _

theorem warn_leaves (text : String) : Leaves r (warn r' text : HostM κ σ Unit) := by
  refine .bind .request fun q => ?_
  split
  · exact .record rfl
  · exact .pure _

/-- Each effect of the serializer leaves the line alone. -/
theorem effect_leaves (huser : user.Spares r) (hcall : CallsLeave r call) (strict : Bool)
    (e : Effect κ) :
    Leaves r (e.perform (codeEffects user call r') (context user call r' strict)) := by
  cases e with
  | render code props ref =>
    exact .bind (recordRun_leaves _) fun _ => script_leaves hcall (huser.render code props ref)
  | load code => exact .bind (recordRun_leaves _) fun _ => script_leaves hcall (huser.load code)
  | toModel code =>
    exact .bind (recordRun_leaves _) fun _ => script_leaves hcall (huser.toModel code)
  | suspend query t => exact suspend_leaves huser hcall query t
  | emitError e => exact emitError_leaves e
  | metadata m => exact metadata_leaves huser hcall m
  | warn text => exact warn_leaves text

theorem absorbs_hostM : Absorbs fun α => (giveUp : HostM κ σ α) := fun _ _ _ => rfl

/-- One layer of an element is a walk, performed. It asks for renders only, so any checks do. -/
theorem resolveElement_perform (e : Element κ (Model κ)) :
    Serializer.resolveElement (codeEffects user call r) e =
      (Serializer.resolveElement Walk.code e).perform (codeEffects user call r)
        (context user call r false) fun _ => failure :=
  Serializer.resolveRenderable_perform e.key e.props e.renderable

theorem walk_leaves {code : CodeEffects κ (HostM κ σ)} {ctx : SerializerContext κ (HostM κ σ)}
    (he : ∀ e : Effect κ, Leaves r (e.perform code ctx)) (w : Walk κ α) :
    Leaves r (w.perform code ctx fun _ => failure) := by
  induction w with
  | done a => exact .pure a
  | stuck => exact .failure
  | ask e next ih => exact .bind (he e) ih

theorem resolveElement_leaves (huser : user.Spares r) (hcall : CallsLeave r call)
    (e : Element κ (Model κ)) :
    Leaves r (Serializer.resolveElement (codeEffects user call r') e) := by
  rw [resolveElement_perform]
  exact walk_leaves (effect_leaves huser hcall false) _

theorem serialize_leaves (huser : user.Spares r) (hcall : CallsLeave r call) (strict : Bool)
    (n : Nat) (value : Model κ) :
    Leaves r (Serializer.serialize (codeEffects user call r') (context user call r' strict) n
      value).run := by
  rw [Serializer.serialize_perform absorbs_hostM n value]
  exact walk_leaves (effect_leaves huser hcall strict) _

/-! ## Passes -/

theorem advance_leaves (huser : user.Spares r) (hcall : CallsLeave r call) (s : SegmentId) (n : Nat)
    (value : Model κ) : Leaves r (advance user call r' s n value) := by
  induction n generalizing value with
  | zero => exact .failure
  | succ n ih =>
    cases value with
    | element e =>
      refine .bind (.modifySegment s _) fun _ => .bind (resolveElement_leaves huser hcall e)
        fun outcome => ?_
      cases outcome with
      | ready next => exact ih next
      | suspended t => exact .bind (await_leaves huser hcall t _ _) fun _ => .pure _
      | failed e => exact .bind (.failSegment s e) fun _ => .pure _
    | _ => exact .pure _

theorem trySegment_leaves (huser : user.Spares r) (hcall : CallsLeave r call) (s : SegmentId)
    (n : Nat) : Leaves r (trySegment user call r' s n) := by
  refine .bind (.segment s) fun seg => .bind ?_ fun outcome => ?_
  · cases seg.query with
    | model value => exact .pure _
    | load code =>
      exact .bind (recordRun_leaves _) fun _ => script_leaves hcall (huser.load code)
  cases outcome with
  | suspended t => exact await_leaves huser hcall t _ _
  | failed e => exact .failSegment s e
  | ready value =>
    refine .bind (advance_leaves huser hcall s n value) fun reached => ?_
    cases reached with
    | none => exact .pure _
    | some value =>
      refine .bind .request fun q => .bind (serialize_leaves huser hcall _ n value) fun o => ?_
      cases o with
      | ok json => exact .completeSegment s json
      | error e => exact .failSegment s e

/-- To try the segments of a request writes nothing of it. -/
theorem retry_leaves (huser : user.Spares r) (hcall : CallsLeave r call) (s : SegmentId) (n : Nat) :
    Leaves r (retry user call r' s n) := by
  have htry : Leaves r (tryOpen user call r' s n) := by
    refine .bind (.segment s) fun seg => ?_
    split
    · exact .pure _
    · exact trySegment_leaves huser hcall s n
  exact .bind (.record rfl) fun _ => .bind htry fun _ => .record rfl

theorem takePinged_leaves : Leaves r (takePinged r' : HostM κ σ (List SegmentId)) :=
  .bind .request fun _ => .bind (.modifyRequest fun _ => rfl) fun _ => .pure _

theorem pass_leaves (huser : user.Spares r) (hcall : CallsLeave r call) (hr : r' ≠ r) (n : Nat) :
    Leaves r (pass user call r' n) := by
  have hbegan : ∀ nested, (Event.began r' nested).isFlowOf r = false := by
    simp [Event.isFlowOf, hr]
  refine .bind .get fun h => .bind (.modify fun _ => rfl) fun _ => .bind ?_ fun result =>
    .bind (.modify fun _ => rfl) fun _ => .pure _
  refine .bind .request fun q => .bind (.record (hbegan _)) fun _ =>
    .bind takePinged_leaves fun batch => .bind (.forM (fun s => retry_leaves huser hcall s n) _)
      fun _ => .bind .request fun q => ?_
  split
  · exact flush_leaves huser hcall hr n
  · exact .pure _

theorem running_leaves (hr : r' ≠ r) {action : HostM κ σ α} (h : Leaves r action) :
    Leaves r (running r' action) :=
  .bind (.modifyRequest_ne hr _) fun _ => .bind h fun _ => .bind (.modifyRequest_ne hr _) fun _ =>
    .pure _

theorem queuedPass_leaves (huser : user.Spares r) (hcall : CallsLeave r call) (hr : r' ≠ r)
    (n : Nat) : Leaves r (queuedPass user call r' n) := by
  refine running_leaves hr (.bind (pass_leaves huser hcall hr n) fun result => ?_)
  cases result with
  | ok u => exact .pure _
  | error e => exact .modifyRequest_ne hr _

/-! ## Calls -/

theorem onHeld_leaves (hr : r' ≠ r) {action : HostM κ σ α} (h : Leaves r action) :
    Leaves r (onHeld r' action) := by
  refine .bind .get fun h' => ?_
  split
  · split
    · exact .map (running_leaves hr h)
    · exact .pure _
  · exact .pure _

theorem settleCell_leaves (p : PromiseId) (outcome : Outcome κ) :
    Leaves r (settleCell p outcome : HostM κ σ (List (Reaction κ))) := by
  refine .bind (.promise p) fun cell => ?_
  split
  · exact .bind (.modify fun _ => rfl) fun _ => .pure _
  · exact .pure _

theorem memory_leaves : Leaves r (memory? r' : HostM κ σ (Option MemorySink)) :=
  .bind .get fun _ => .pure _

/-- The oldest work is never a pass of the stream. -/
theorem runNext_leaves (huser : user.Spares r) (hcall : CallsLeave r call) (n : Nat) :
    Leaves r (do
      match ← takeWork with
      | none => pure false
      | some (.pass r') =>
        queuedPass user call r' n
        pure true
      | some (.user code) =>
        (user.react code).run call
        pure true : HostM κ σ Bool) := by
  intro h a h' hq hrun
  obtain ⟨⟨work, h₁⟩, htake, hrest⟩ := Option.bind_eq_some_iff.mp hrun
  simp only [takeWork, run_bind, run_get, Option.bind_some] at htake
  cases hqueue : h.queue with
  | nil =>
    simp only [hqueue, run_pure] at htake
    cases htake
    cases hrest
    rfl
  | cons work rest =>
    simp only [hqueue, run_bind, run_modify, Option.bind_some, run_pure] at htake
    cases htake
    have hpass : Work.isPassOf r work = false := by
      have := hq.passes
      rw [line, hqueue] at this
      exact Bool.eq_false_iff.mpr fun ht => by simp [ht] at this
    have hline : { h with queue := rest }.line r = h.line r := by
      simp [line, hqueue, hpass]
    rw [← hline] at hq ⊢
    cases work with
    | pass r' =>
      have hr : r' ≠ r := by simpa [Work.isPassOf] using hpass
      exact Leaves.bind (queuedPass_leaves huser hcall hr n) (fun _ => .pure true) hq hrest
    | user code =>
      exact Leaves.bind (script_leaves hcall (huser.react code)) (fun _ => .pure true) hq hrest

theorem drain_leaves : Leaves r (do
    match ← memory? r' with
    | none => pure none
    | some m =>
      modifyRequest r' fun req =>
        { req with settings := { req.settings with sink :=
            match req.settings.sink with
            | .memory m => .memory m.drain.2
            | sink => sink } }
      pure (some m.drain.1) : HostM κ σ (Option Nat)) := by
  intro h a h' hq hrun
  rw [run_bind] at hrun
  obtain ⟨⟨m, h₁⟩, hmemory, hrest⟩ := Option.bind_eq_some_iff.mp hrun
  cases hmemory
  cases hreq : h.requests[r'.index]? with
  | none =>
    simp only [hreq] at hrest
    cases hrest
    rfl
  | some q =>
    simp only [hreq, Option.map_some, run_bind, run_modifyRequest, run_pure] at hrest
    cases hrest
    by_cases hr : r' = r
    · subst hr
      have hsink : q.settings.sink.memory? = none := hq.sink q.outline (by simp [line, hreq])
      have hsame : ∀ sink : Sink, sink.memory? = none → (match sink with
          | .memory m => Sink.memory m.drain.2
          | sink => sink) = sink := by
        intro sink hs
        cases sink <;> first | rfl | cases hs
      simp only [line, update, Array.getElem?_modify, if_true, hreq, Option.map_some]
      rw [hsame _ hsink]
    · exact line_update_ne hr _

theorem answer_leaves (huser : user.Spares r) (hcall : CallsLeave r call) (n : Nat) :
    CallsLeave r (answer user n call) := by
  intro c hc
  cases c with
  | note line => exact .record rfl
  | hook hook => exact .bind .get fun _ => .pure _
  | newPromise =>
    intro h a h' _ hrun
    cases hrun
    rfl
  | settle p outcome =>
    exact .bind (settleCell_leaves p outcome) fun reactions =>
      .forM (fun reaction => hcall (.invoke (Reaction.pick reaction outcome)) trivial) _
  | settleLater p outcome => exact enqueueTask_leaves rfl
  | status p => exact .bind (.promise p) fun _ => .pure _
  | subscribe p f f' =>
    refine .bind (.promise p) fun cell => ?_
    split
    · exact .modify fun _ => rfl
    · exact hcall _ trivial
  | invoke f =>
    cases f with
    | ping r' s => exact .ping s
    | user code => exact script_leaves hcall (huser.react code)
  | schedule code => exact enqueueUser_leaves code
  | runNext => exact runNext_leaves huser hcall n
  | runUntilIdle =>
    refine .bind (hcall .runNext trivial) fun ran => ?_
    split
    · exact .bind (hcall .runUntilIdle trivial) fun _ => .pure _
    · exact .pure _
  | startWork r' =>
    exact onHeld_leaves hc (.bind (.modifyRequest_ne hc _) fun _ =>
      .bind (.record (decide_eq_false hc)) fun _ => .schedulePass)
  | startFlowing r' =>
    exact onHeld_leaves hc (.bind .request fun q => .bind (.record (decide_eq_false hc)) fun _ =>
      .bind (.modifyRequest_ne hc _) fun _ => flush_leaves huser hcall hc n)
  | performWork r' => exact onHeld_leaves hc (pass_leaves huser hcall hc n)
  | takeFatal r' =>
    exact onHeld_leaves hc (.bind .request fun _ => .bind (.modifyRequest_ne hc _) fun _ => .pure _)
  | release r' => exact .modifyRequest_ne hc _
  | drain r' => exact drain_leaves
  | collected r' => exact .bind memory_leaves fun _ => .pure _

theorem perform_leaves (huser : user.Spares r) (n : Nat) : CallsLeave r (perform user n) := by
  induction n with
  | zero => exact fun c _ => .failure
  | succ n ih => exact answer_leaves huser ih n

/-! ## Other streams -/

theorem channel_leaves : Leaves r (channel r' : HostM κ σ Channel) := by
  refine .bind .request fun q => ?_
  cases q.settings.sink.channel? with
  | none => exact .failure
  | some c => exact .pure _

theorem setChannel_leaves (hr : r' ≠ r) (c : Channel) :
    Leaves r (setChannel r' c : HostM κ σ Unit) :=
  .modifyRequest_ne hr _

theorem setDriver_leaves (hr : r' ≠ r) (d : DriverState) :
    Leaves r (setDriver r' d : HostM κ σ Unit) :=
  .bind channel_leaves fun _ => setChannel_leaves hr _

theorem queueDriver_leaves (hr : r' ≠ r) (woken : Bool) :
    Leaves r (queueDriver r' woken : HostM κ σ Unit) := by
  cases woken with
  | false => exact .pure _
  | true => exact enqueueTask_leaves (by simpa [Task.isDriverOf] using hr)

theorem inspectStream_leaves (huser : user.Spares r) (hr : r' ≠ r) (n : Nat) :
    Leaves r (inspectStream user r' n) := by
  have hanswer := answer_leaves huser (perform_leaves huser n) n
  refine .bind .request fun q => ?_
  split
  · exact .pure _
  refine .bind channel_leaves fun c => ?_
  split
  · exact .pure _
  refine .bind (hanswer (.takeFatal r') hr) fun fatal => ?_
  rcases fatal with _ | _ | e
  case some.some => exact .pure _
  all_goals
    refine .bind .request fun q => ?_
    split
    · exact .pure _
    refine .bind (hanswer (.startFlowing r') hr) fun flowed => ?_
    rcases flowed with _ | e | u <;> exact .pure _

theorem drive_leaves (huser : user.Spares r) (hr : r' ≠ r) (n : Nat) :
    Leaves r (drive user r' n) := by
  induction n with
  | zero => exact .failure
  | succ n ih =>
    refine .bind (inspectStream_leaves huser hr n) fun goesOn => ?_
    cases goesOn with
    | false => exact .bind (setDriver_leaves hr .stopped) fun _ => .modifyRequest_ne hr _
    | true =>
      refine .bind channel_leaves fun c => ?_
      split
      · exact .bind (setChannel_leaves hr _) fun _ => ih
      · exact setChannel_leaves hr _

theorem runDriver_leaves (huser : user.Spares r) (hr : r' ≠ r) (n : Nat) :
    Leaves r (runDriver user r' n) := by
  have hstart : Leaves r (startDriver user r' n) := by
    refine .bind (setDriver_leaves hr .running) fun _ =>
      .bind (answer_leaves huser (perform_leaves huser n) n (.startWork r') hr) fun _ =>
      .bind channel_leaves fun c => ?_
    split
    · exact .bind (setChannel_leaves hr _) fun _ => drive_leaves huser hr n
    · exact setChannel_leaves hr _
  have hdrive : Leaves r (do setDriver r' .running; drive user r' n) :=
    .bind (setDriver_leaves hr .running) fun _ => drive_leaves huser hr n
  refine .bind channel_leaves fun c => ?_
  cases c.driver with
  | starting => exact hstart
  | stopped => exact .pure _
  | waiting | woken | running => exact hdrive

theorem receive_leaves (hr : r' ≠ r) : Leaves r (Host.receive r' : HostM κ σ Received) :=
  .bind channel_leaves fun _ => .bind .get fun _ => .bind (setChannel_leaves hr _) fun _ =>
    .bind (queueDriver_leaves hr _) fun _ => .pure _

theorem abandonStream_leaves (hr : r' ≠ r) : Leaves r (abandonStream r' : HostM κ σ Unit) :=
  .bind channel_leaves fun _ => .bind (setChannel_leaves hr _) fun _ => queueDriver_leaves hr _

end Host
end TreeStream

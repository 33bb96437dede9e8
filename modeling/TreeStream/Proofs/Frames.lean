import TreeStream.Proofs.Sessions
import TreeStream.Proofs.Sparing

/-!
# What only the work of a request can change

A relation between the host before and the host after an action surrounds a request if everything
that is no work of it respects the relation: user code, work of other requests, and what happens to
its pings, its handle, its last error and its sink. To show that a relation is respected by whatever
a session does, the four calls that work on the request are left to look at (`Frames`).
-/

namespace TreeStream

variable {κ σ α β : Type}

/-- Whatever the action does, it leads to a host that is related to the one before. -/
def Respects (R : Host κ σ → Host κ σ → Prop) (m : HostM κ σ α) : Prop :=
  ∀ ⦃h a h'⦄, m h = some (a, h') → R h h'

def CallsRespect (R : Host κ σ → Host κ σ → Prop)
    (call : (c : HostCall κ) → HostM κ σ c.Reply) : Prop :=
  ∀ c, Respects R (call c)

/-- Events that tell of no work of the request: those of others, its pings, and that a pass of it
was queued. -/
def Event.IsBackground (r : RequestId) : Event → Prop
  | pinged _ _ => True
  | scheduled _ => True
  | e => e.request? ≠ some r

def Event.IsWork : Event → Prop
  | warning _ _ => True
  | issued _ _ => True
  | began _ _ => True
  | retried _ _ => True
  | left _ _ => True
  | ran _ _ _ => True
  | completed _ _ => True
  | _ => False

/-- Events of the replacement of a custom value: its warning, and the run of its code. -/
def Event.IsSubstitution : Event → Prop
  | warning _ _ => True
  | ran _ .toModel _ => True
  | _ => False

/-- A change that concerns at most the handle, the last error and the sink, and adds pings. -/
def Request.Adjusts (f : Request κ → Request κ) : Prop :=
  ∀ q, ∃ sink fatal held pinged, f q =
    { q with
      settings := { q.settings with sink := sink }, fatal := fatal, held := held,
      pinged := pinged } ∧ q.pinged <+: pinged

def Request.Works (f : Request κ → Request κ) : Prop :=
  ∀ q, ∃ nextId segments pending pinged modelRows errorRows, f q =
    { q with
      nextId := nextId, segments := segments, pending := pending, pinged := pinged,
      modelRows := modelRows, errorRows := errorRows }

def Request.Delivers (f : Request κ → Request κ) : Prop :=
  ∀ q, ∃ pending modelRows errorRows flowing closed flushing, f q =
    { q with
      pending := pending, modelRows := modelRows, errorRows := errorRows, flowing := flowing,
      closed := closed, flushing := flushing }

structure RespectsWork (R : Host κ σ → Host κ σ → Prop) (r : RequestId) : Prop where
  change : ∀ h {f : Request κ → Request κ}, Request.Works f → R h (h.update r f)
  tell : ∀ h {e : Event}, e.IsWork → e.request? = some r → R h (h.tell e)

/-- Work on the segments of the request that replaces no custom value respects the relation. -/
structure RespectsSteps (R : Host κ σ → Host κ σ → Prop) (r : RequestId) : Prop where
  change : ∀ h {f : Request κ → Request κ}, Request.Works f → R h (h.update r f)
  tell : ∀ h {e : Event}, e.IsWork → ¬ e.IsSubstitution → e.request? = some r → R h (h.tell e)

structure RespectsFlush (R : Host κ σ → Host κ σ → Prop) (r : RequestId) : Prop where
  change : ∀ h {f : Request κ → Request κ}, Request.Delivers f → R h (h.update r f)
  calling : ∀ h c pending, R h (h.tell (.calling r c pending))
  called : ∀ h c answer, R h (h.tell (.called r c answer))

/-- The relation is respected by what is no work of the request. -/
structure Surrounds (r : RequestId) (R : Host κ σ → Host κ σ → Prop) : Prop where
  refl : ∀ h, R h h
  trans : ∀ {h₁ h₂ h₃}, R h₁ h₂ → R h₂ h₃ → R h₁ h₃
  same : ∀ {h h'}, h'.requests[r.index]? = h.requests[r.index]? → h'.journal = h.journal → R h h'
  tell : ∀ h {e : Event}, e.IsBackground r → R h (h.tell e)
  adjust : ∀ h {f : Request κ → Request κ}, Request.Adjusts f → R h (h.update r f)

theorem RespectsWork.steps {R : Host κ σ → Host κ σ → Prop} {r : RequestId}
    (hw : RespectsWork R r) : RespectsSteps R r :=
  ⟨hw.change, fun h _ he _ hr => hw.tell h he hr⟩

theorem RespectsSteps.modify {R : Host κ σ → Host κ σ → Prop} {r : RequestId}
    (hs : RespectsSteps R r) {f : Request κ → Request κ} (hf : Request.Works f) :
    Respects R (Host.modifyRequest r f) := by
  intro h a h' hrun
  cases hrun
  exact hs.change h hf

theorem RespectsSteps.record {R : Host κ σ → Host κ σ → Prop} {r : RequestId}
    (hs : RespectsSteps R r) {e : Event} (he : e.IsWork) (hplain : ¬ e.IsSubstitution)
    (hr : e.request? = some r) : Respects R (Host.record e) := by
  intro h a h' hrun
  cases hrun
  exact hs.tell h he hplain hr

theorem RespectsFlush.modify {R : Host κ σ → Host κ σ → Prop} {r : RequestId}
    (hd : RespectsFlush R r) {f : Request κ → Request κ} (hf : Request.Delivers f) :
    Respects R (Host.modifyRequest r f) := by
  intro h a h' hrun
  cases hrun
  exact hd.change h hf

namespace Surrounds

open Host

variable {R : Host κ σ → Host κ σ → Prop} {r r' : RequestId}

theorem pure (F : Surrounds r R) (a : α) : Respects R (Pure.pure a : HostM κ σ α) := by
  intro h b h' hm
  cases hm
  exact F.refl h

theorem failure : Respects R (Alternative.failure : HostM κ σ α) := by
  intro h b h' hm
  cases hm

theorem bind (F : Surrounds r R) {m : HostM κ σ α} {k : α → HostM κ σ β} (hm : Respects R m)
    (hk : ∀ a, Respects R (k a)) : Respects R (m >>= k) := by
  intro h b h'' hrun
  obtain ⟨⟨a, h'⟩, hfirst, hrest⟩ := Option.bind_eq_some_iff.mp hrun
  exact F.trans (hm hfirst) (hk a hrest)

theorem map {f : α → β} {m : HostM κ σ α} (hm : Respects R m) : Respects R (f <$> m) := by
  intro h b h' hrun
  obtain ⟨⟨a, h₁⟩, hfirst, hrest⟩ := Option.bind_eq_some_iff.mp hrun
  cases hrest
  exact hm hfirst

theorem forM (F : Surrounds r R) {f : α → HostM κ σ Unit} (hf : ∀ a, Respects R (f a))
    (xs : List α) : Respects R (xs.forM f) := by
  induction xs with
  | nil => exact F.pure ()
  | cons x xs ih => exact F.bind (hf x) fun _ => ih

theorem looking (F : Surrounds r R) {m : HostM κ σ α}
    (hm : ∀ ⦃h a h'⦄, m h = some (a, h') → h' = h) : Respects R m := by
  intro h a h' hrun
  rw [hm hrun]
  exact F.refl h

theorem get (F : Surrounds r R) : Respects R (MonadState.get : HostM κ σ (Host κ σ)) :=
  F.looking fun _ _ _ hrun => by
    cases hrun
    rfl

theorem request (F : Surrounds r R) : Respects R (Host.request r' : HostM κ σ (Request κ)) :=
  F.looking fun _ _ _ hrun => (request_of_run hrun).2

theorem segment (F : Surrounds r R) (s : SegmentId) :
    Respects R (Host.segment r' s : HostM κ σ (Segment κ)) :=
  F.looking fun _ _ _ hrun => by
    obtain ⟨q, -, -, rfl⟩ := segment_of_run hrun
    rfl

theorem promise (F : Surrounds r R) (p : PromiseId) :
    Respects R (Host.promise p : HostM κ σ (PromiseCell κ)) :=
  F.looking fun _ _ _ hrun => (promise_of_run hrun).2

/-- A change that neither the request nor the journal shows. -/
theorem modify (F : Surrounds r R) {f : Host κ σ → Host κ σ}
    (hq : ∀ h, (f h).requests[r.index]? = h.requests[r.index]?)
    (hj : ∀ h, (f h).journal = h.journal) : Respects R (modify f : HostM κ σ Unit) := by
  intro h a h' hrun
  cases hrun
  exact F.same (hq h) (hj h)

theorem record (F : Surrounds r R) {e : Event} (he : e.IsBackground r) :
    Respects R (Host.record e : HostM κ σ Unit) := by
  intro h a h' hrun
  cases hrun
  exact F.tell h he

theorem modifyRequest_ne (F : Surrounds r R) (hr : r' ≠ r) (f : Request κ → Request κ) :
    Respects R (modifyRequest r' f : HostM κ σ Unit) :=
  F.modify (fun h => congrArg View.request (view_update_ne (h := h) hr.symm f)) fun _ => rfl

theorem modifyRequest (F : Surrounds r R) {f : Request κ → Request κ} (hf : Request.Adjusts f) :
    Respects R (Host.modifyRequest r' f : HostM κ σ Unit) := by
  by_cases hr : r' = r
  · intro h a h' hrun
    cases hrun
    exact hr ▸ F.adjust h hf
  · exact F.modifyRequest_ne hr f

theorem schedulePass (F : Surrounds r R) : Respects R (Host.schedulePass r' : HostM κ σ Unit) := by
  refine F.bind (F.record trivial) fun _ => F.bind F.request fun q => ?_
  cases q.settings.queue with
  | manual => exact F.modify (fun _ => rfl) fun _ => rfl
  | tasks => exact F.modify (fun _ => rfl) fun _ => rfl

theorem ping (F : Surrounds r R) (s : SegmentId) :
    Respects R (Host.ping r' s : HostM κ σ Unit) := by
  refine F.bind F.get fun h => ?_
  cases h.isAlive r' with
  | false => exact F.pure ()
  | true =>
    refine F.bind (F.record trivial) fun _ =>
      F.bind (F.modifyRequest fun _ => ⟨_, _, _, _, rfl, List.prefix_append _ _⟩) fun _ =>
        F.bind F.request fun q => ?_
    by_cases hl : q.pinged.length = 1
    · simp only [hl, if_true]
      exact F.schedulePass
    · simp only [hl, if_false]
      exact F.pure ()

/-! ## User code -/

variable {user : UserCode κ σ} {call : (c : HostCall κ) → HostM κ σ c.Reply}

theorem script (F : Surrounds r R) (hcall : CallsRespect R call) (script : Script κ σ α) :
    Respects R (script.run call) := by
  induction script with
  | done a => exact F.pure a
  | get next ih => exact F.bind F.get fun h => ih _
  | put s next ih => exact F.bind (F.modify (fun _ => rfl) fun _ => rfl) fun _ => ih
  | call c next ih => exact F.bind (hcall c) ih

theorem await (F : Surrounds r R) (hcall : CallsRespect R call) (t : Thenable κ)
    (f f' : Callback κ) : Respects R (Host.await user call t f f') := by
  cases t with
  | promise p => exact hcall _
  | custom code => exact F.script hcall _

theorem metadata (F : Surrounds r R) (hcall : CallsRespect R call) (m : ModuleReference) :
    Respects R (Host.metadata user call r' m) := by
  refine F.bind F.request fun q => ?_
  cases q.settings.modules with
  | manifest manifest => exact F.pure _
  | user code => exact F.script hcall _

theorem verdict (F : Surrounds r R) (hcall : CallsRespect R call) (c : SinkCall) :
    Respects R (Host.verdict user call r' c) := by
  refine F.bind F.request fun q => ?_
  cases q.settings.guard with
  | none => exact F.pure _
  | some code => exact F.script hcall _

/-- A sink is no part of what only work changes. -/
theorem callSink (F : Surrounds r R) (c : SinkCall) :
    Respects R (Host.callSink r' c : HostM κ σ (Except RenderError Bool)) := by
  refine F.bind F.request fun q =>
    F.bind (F.modifyRequest fun _ => ⟨_, _, _, _, rfl, List.prefix_rfl⟩) fun _ => ?_
  split
  · exact F.bind (F.modify (fun _ => rfl) fun _ => rfl) fun _ => F.pure _
  · exact F.pure _

/-! ## Work -/

theorem respectsWork (F : Surrounds r R) (hr : r' ≠ r) : RespectsWork R r' where
  change h f _ := F.same (congrArg View.request (view_update_ne (h := h) hr.symm f)) rfl
  tell h e _ he := F.tell h (by
    have hne : e.request? ≠ some r := fun h => hr (Option.some.inj (he.symm.trans h))
    cases e <;> first | exact hne | trivial)

theorem respectsFlush (F : Surrounds r R) (hr : r' ≠ r) : RespectsFlush R r' where
  change h f _ := F.same (congrArg View.request (view_update_ne (h := h) hr.symm f)) rfl
  calling h _ _ := F.tell h fun h => hr (Option.some.inj h)
  called h _ _ := F.tell h fun h => hr (Option.some.inj h)

theorem callDestination (F : Surrounds r R) (hcall : CallsRespect R call) (hd : RespectsFlush R r')
    (c : SinkCall) : Respects R (Host.callDestination user call r' c) := by
  have hcalling : ∀ pending, Respects R (Host.record (.calling r' c pending) : HostM κ σ Unit) := by
    intro pending h a h' hrun
    cases hrun
    exact hd.calling h c pending
  have hend : ∀ answer, Respects R (do Host.record (.called r' c answer); Pure.pure answer
      : HostM κ σ _) := by
    intro answer h a h' hrun
    cases hrun
    exact hd.called h c answer
  refine F.bind F.request fun q => F.bind (hcalling _) fun _ =>
    F.bind (F.verdict hcall c) fun v => ?_
  cases v with
  | fail e => exact hend _
  | pass => exact F.bind (F.callSink c) hend
  | answer welcome =>
    refine F.bind (F.callSink c) fun a => ?_
    cases a <;> exact hend _

/-! What is left to do after a call of the destination, by its answer. -/

theorem afterWrite (F : Surrounds r R) (hd : RespectsFlush R r') {kind : RowKind} {n : Nat}
    (hrows : Respects R (Host.writeRows user call r' kind n)) (answer : Except RenderError Bool) :
    Respects R (match answer with
      | .error e => Pure.pure (.error e)
      | .ok true => Host.writeRows user call r' kind n
      | .ok false => do
        Host.modifyRequest r' fun req => { req with flowing := false }
        Pure.pure (.ok ())) := by
  rcases answer with e | _ | _
  · exact F.pure _
  · exact F.bind (hd.modify fun _ => ⟨_, _, _, _, _, _, rfl⟩) fun _ => F.pure _
  · exact hrows

theorem writeRows (F : Surrounds r R) (hcall : CallsRespect R call) (hd : RespectsFlush R r')
    (kind : RowKind) (n : Nat) : Respects R (Host.writeRows user call r' kind n) := by
  have htake : Respects R (takeRow r' kind : HostM κ σ (Option Row)) := by
    refine F.bind F.request fun q => ?_
    cases q.rows kind with
    | nil => exact F.pure _
    | cons row rest =>
      refine F.bind (hd.modify fun q => ?_) fun _ => F.pure _
      cases kind <;> exact ⟨_, _, _, _, _, _, rfl⟩
  induction n with
  | zero => exact failure
  | succ n ih =>
    refine F.bind htake fun row => ?_
    cases row with
    | none => exact F.pure _
    | some row => exact F.bind (F.callDestination hcall hd _) (F.afterWrite hd ih)

theorem writeBatch (F : Surrounds r R) (hcall : CallsRespect R call) (hd : RespectsFlush R r')
    (n : Nat) : Respects R (Host.writeBatch user call r' n) := by
  refine F.bind (F.writeRows hcall hd .model n) fun written => ?_
  rcases written with e | ⟨⟩
  · exact F.pure _
  · exact F.writeRows hcall hd .error n

theorem closeIfFinished (F : Surrounds r R) (hcall : CallsRespect R call)
    (hd : RespectsFlush R r') : Respects R (Host.closeIfFinished user call r') := by
  refine F.bind F.request fun q => ?_
  split
  · refine F.bind (hd.modify fun _ => ⟨_, _, _, _, _, _, rfl⟩) fun _ =>
      F.bind (F.callDestination hcall hd _) fun a => ?_
    cases a <;> exact F.pure _
  · exact F.pure _

theorem afterFlush (F : Surrounds r R) (hcall : CallsRespect R call) (hd : RespectsFlush R r')
    (flushed : Except RenderError Bool) :
    Respects R (match flushed with
      | .error e => Pure.pure (.error e)
      | .ok _ => Host.closeIfFinished user call r') := by
  cases flushed with
  | error e => exact F.pure _
  | ok b => exact F.closeIfFinished hcall hd

theorem afterComplete (F : Surrounds r R) (hcall : CallsRespect R call) (hd : RespectsFlush R r')
    (written : Except RenderError Unit) (completed : Except RenderError Bool) :
    Respects R (match written, completed with
      | .error e, _ => Pure.pure (.error e)
      | .ok (), .error e => Pure.pure (.error e)
      | .ok (), .ok _ => do
        match ← Host.callDestination user call r' .flush with
        | .error e => Pure.pure (.error e)
        | .ok _ => Host.closeIfFinished user call r') := by
  rcases written with e | ⟨⟩
  · exact F.pure _
  rcases completed with e | b
  · exact F.pure _
  · exact F.bind (F.callDestination hcall hd _) (F.afterFlush hcall hd)

theorem endBatch (F : Surrounds r R) (hcall : CallsRespect R call) (hd : RespectsFlush R r')
    (written : Except RenderError Unit) : Respects R (Host.endBatch user call r' written) :=
  F.bind (F.callDestination hcall hd _) (F.afterComplete hcall hd written)

theorem afterBegin (F : Surrounds r R) (hcall : CallsRespect R call) (hd : RespectsFlush R r')
    (n : Nat) (begun : Except RenderError Bool) :
    Respects R (match begun with
      | .error e => Pure.pure (.error e)
      | .ok _ => do Host.endBatch user call r' (← Host.writeBatch user call r' n)) := by
  cases begun with
  | error e => exact F.pure _
  | ok b => exact F.bind (F.writeBatch hcall hd n) (F.endBatch hcall hd)

theorem batch (F : Surrounds r R) (hcall : CallsRespect R call) (hd : RespectsFlush R r')
    (n : Nat) : Respects R (Host.batch user call r' n) :=
  F.bind (F.callDestination hcall hd _) (F.afterBegin hcall hd n)

theorem flush (F : Surrounds r R) (hcall : CallsRespect R call) (hd : RespectsFlush R r')
    (n : Nat) : Respects R (Host.flush user call r' n) := by
  have hmark : ∀ b, Respects R
      (Host.modifyRequest r' fun req => { req with flushing := b } : HostM κ σ Unit) :=
    fun b => hd.modify fun _ => ⟨_, _, _, _, _, _, rfl⟩
  have hend : ∀ result : Except RenderError Unit, Respects R (do
      Host.modifyRequest r' fun req => { req with flushing := false }
      Pure.pure result : HostM κ σ _) :=
    fun result => F.bind (hmark false) fun _ => F.pure _
  refine F.bind F.request fun q => ?_
  split
  · exact F.pure _
  refine F.bind (hmark true) fun _ => F.bind F.request fun q => ?_
  split
  · exact hend _
  · exact F.bind (F.batch hcall hd n) hend

theorem allocate (F : Surrounds r R) (hs : RespectsSteps R r') :
    Respects R (Host.allocate r' : HostM κ σ RowId) :=
  F.bind F.request fun _ =>
    F.bind (hs.modify fun _ => ⟨_, _, _, _, _, _, rfl⟩) fun _ =>
    F.bind (hs.record trivial nofun rfl) fun _ => F.pure _

theorem newSegment (F : Surrounds r R) (hs : RespectsSteps R r') (query : Query κ) :
    Respects R (Host.newSegment r' query : HostM κ σ SegmentId) :=
  F.bind (F.allocate hs) fun _ => F.bind F.request fun _ =>
    F.bind (hs.modify fun _ => ⟨_, _, _, _, _, _, rfl⟩) fun _ => F.pure _

theorem completeError (F : Surrounds r R) (hs : RespectsSteps R r') (id : RowId) (e : RenderError) :
    Respects R (Host.completeError r' id e : HostM κ σ Unit) :=
  F.bind (hs.modify fun _ => ⟨_, _, _, _, _, _, rfl⟩) fun _ =>
    hs.record trivial nofun rfl

theorem failSegment (F : Surrounds r R) (hs : RespectsSteps R r') (s : SegmentId) (e : RenderError) :
    Respects R (Host.failSegment r' s e : HostM κ σ Unit) :=
  F.bind (hs.modify fun _ => ⟨_, _, _, _, _, _, rfl⟩) fun _ =>
    F.bind (F.segment s) fun _ => F.completeError hs _ e

theorem completeSegment (F : Surrounds r R) (hs : RespectsSteps R r') (s : SegmentId)
    (json : String) : Respects R (Host.completeSegment r' s json : HostM κ σ Unit) :=
  F.bind (hs.modify fun _ => ⟨_, _, _, _, _, _, rfl⟩) fun _ =>
    F.bind (F.segment s) fun _ =>
    F.bind (hs.modify fun _ => ⟨_, _, _, _, _, _, rfl⟩) fun _ =>
    hs.record trivial nofun rfl

/-- Each effect of the serializer, performed by a request, that replaces no custom value. -/
theorem plainEffect (F : Surrounds r R) (hcall : CallsRespect R call) (hs : RespectsSteps R r')
    (strict : Bool) {e : Effect κ} (hwarn : ∀ text, e ≠ .warn text)
    (hmodel : ∀ code, e ≠ .toModel code) :
    Respects R (e.perform (codeEffects user call r') (context user call r' strict)) := by
  have hpending : Respects R
      (Host.modifyRequest r' fun req => { req with pending := req.pending + 1 } : HostM κ σ Unit) :=
    hs.modify fun _ => ⟨_, _, _, _, _, _, rfl⟩
  cases e with
  | render code props ref =>
    exact F.bind (F.bind F.get fun _ => hs.record trivial nofun rfl) fun _ => F.script hcall _
  | load code =>
    exact F.bind (F.bind F.get fun _ => hs.record trivial nofun rfl) fun _ => F.script hcall _
  | toModel code => exact absurd rfl (hmodel code)
  | suspend query t =>
    exact F.bind hpending fun _ => F.bind (F.newSegment hs query) fun s =>
      F.bind (F.await hcall t _ _) fun _ => F.bind (F.segment s) fun _ => F.pure _
  | emitError e =>
    exact F.bind hpending fun _ => F.bind (F.allocate hs) fun id =>
      F.bind (F.completeError hs id e) fun _ => F.pure _
  | metadata m => exact F.metadata hcall m
  | warn text => exact absurd rfl (hwarn text)

/-- Each effect of the serializer, performed by a request. -/
theorem effect (F : Surrounds r R) (hcall : CallsRespect R call) (hw : RespectsWork R r')
    (strict : Bool) (e : Effect κ) :
    Respects R (e.perform (codeEffects user call r') (context user call r' strict)) := by
  have hrecord : ∀ {e : Event}, e.IsWork → e.request? = some r' →
      Respects R (Host.record e : HostM κ σ Unit) := by
    intro e he hr h a h' hrun
    cases hrun
    exact hw.tell h he hr
  cases e with
  | toModel code =>
    exact F.bind (F.bind F.get fun _ => hrecord trivial rfl) fun _ => F.script hcall _
  | warn text =>
    refine F.bind F.request fun q => ?_
    split
    · exact hrecord trivial rfl
    · exact F.pure _
  | _ => exact F.plainEffect hcall hw.steps strict nofun nofun

theorem walk (F : Surrounds r R) {code : CodeEffects κ (HostM κ σ)}
    {ctx : SerializerContext κ (HostM κ σ)} (he : ∀ e : Effect κ, Respects R (e.perform code ctx))
    (w : Walk κ α) : Respects R (w.perform code ctx fun _ => Alternative.failure) := by
  induction w with
  | done a => exact F.pure a
  | stuck => exact failure
  | ask e next ih => exact F.bind (he e) ih

/-- One layer of a renderable, which no custom value is part of. -/
theorem resolveElement (F : Surrounds r R) (hcall : CallsRespect R call) (hs : RespectsSteps R r')
    (e : Element κ (Model κ)) :
    Respects R (Serializer.resolveElement (codeEffects user call r') e) := by
  have hrender : ∀ code props ref,
      Respects R ((codeEffects user call r').render code props ref) :=
    fun code props ref => F.plainEffect hcall hs false (e := .render code props ref) nofun nofun
  obtain ⟨renderable, key, props⟩ := e
  unfold Serializer.resolveElement
  induction renderable generalizing key with
  | function name code => exact hrender _ _ _
  | forwardRef name code => exact hrender _ _ _
  | memo inner ih => exact ih none
  | _ => exact F.pure _

/-- A segment is tried, given what serializing its value does. -/
theorem retryOf (F : Surrounds r R) (hcall : CallsRespect R call) (hs : RespectsSteps R r')
    (s : SegmentId) (n : Nat) (hfinish : ∀ value, Respects R (finish user call r' s n value)) :
    Respects R (Host.retry user call r' s n) := by
  have hadvance : ∀ n value, Respects R (advance user call r' s n value) := by
    intro n
    induction n with
    | zero => exact fun _ => failure
    | succ n ih =>
      intro value
      cases value with
      | element e =>
        refine F.bind (hs.modify fun _ => ⟨_, _, _, _, _, _, rfl⟩) fun _ =>
          F.bind (F.resolveElement hcall hs e) fun outcome => ?_
        cases outcome with
        | ready next => exact ih next
        | suspended t => exact F.bind (F.await hcall t _ _) fun _ => F.pure _
        | failed e => exact F.bind (F.failSegment hs s e) fun _ => F.pure _
      | _ => exact F.pure _
  refine F.bind (hs.record trivial nofun rfl) fun _ =>
    F.bind ?_ fun _ => hs.record trivial nofun rfl
  refine F.bind (F.segment s) fun seg => ?_
  split
  · exact F.pure _
  refine F.bind (F.segment s) fun seg => F.bind ?_ fun outcome => ?_
  · cases seg.query with
    | model value => exact F.pure _
    | load code => exact F.plainEffect hcall hs false (e := .load code) nofun nofun
  cases outcome with
  | suspended t => exact F.await hcall t _ _
  | failed e => exact F.failSegment hs s e
  | ready value =>
    refine F.bind (hadvance n value) fun reached => ?_
    cases reached with
    | none => exact F.pure _
    | some value => exact hfinish value

/-- The value of a segment is serialized, and the segment ends. -/
theorem finishOf (F : Surrounds r R) (hs : RespectsSteps R r') (s : SegmentId) {n : Nat}
    {value : Model κ} (hserialize : Respects R (do
      let q ← Host.request r'
      (Serializer.serialize (codeEffects user call r') (context user call r' q.settings.strict) n
        value).run)) : Respects R (finish user call r' s n value) := by
  unfold Host.finish
  rw [← bind_assoc]
  refine F.bind hserialize fun outcome => ?_
  cases outcome with
  | ok json => exact F.completeSegment hs s json
  | error e => exact F.failSegment hs s e

theorem retry (F : Surrounds r R) (hcall : CallsRespect R call) (hw : RespectsWork R r')
    (s : SegmentId) (n : Nat) : Respects R (Host.retry user call r' s n) := by
  refine F.retryOf hcall hw.steps s n fun value => F.finishOf hw.steps s ?_
  refine F.bind F.request fun q => ?_
  rw [Serializer.serialize_perform absorbs_hostM n value]
  exact F.walk (fun e => F.effect hcall hw _ e) _

theorem takePinged (F : Surrounds r R) (hs : RespectsSteps R r') :
    Respects R (Host.takePinged r' : HostM κ σ (List SegmentId)) :=
  F.bind F.request fun _ => F.bind (hs.modify fun _ => ⟨_, _, _, _, _, _, rfl⟩) fun _ => F.pure _

theorem tryBatch (F : Surrounds r R) {n : Nat}
    (htake : Respects R (Host.takePinged r' : HostM κ σ (List SegmentId)))
    (hretry : ∀ s, Respects R (Host.retry user call r' s n))
    (hflush : Respects R (do
      if (← Host.request r').flowing then Host.flush user call r' n else Pure.pure (.ok ()))) :
    Respects R (do
      let batch ← Host.takePinged r'
      batch.forM fun s => Host.retry user call r' s n
      if (← Host.request r').flowing then Host.flush user call r' n else Pure.pure (.ok ())) :=
  F.bind htake fun batch => F.bind (F.forM hretry batch) fun _ => hflush

theorem passOf (F : Surrounds r R)
    (hbegan : ∀ nested, Respects R (Host.record (.began r' nested) : HostM κ σ Unit)) {n : Nat}
    (htake : Respects R (Host.takePinged r' : HostM κ σ (List SegmentId)))
    (hretry : ∀ s, Respects R (Host.retry user call r' s n))
    (hflush : Respects R (do
      if (← Host.request r').flowing then Host.flush user call r' n else Pure.pure (.ok ()))) :
    Respects R (Host.pass user call r' n) :=
  F.bind F.get fun _ => F.bind (F.modify (fun _ => rfl) fun _ => rfl) fun _ =>
    F.bind (F.bind F.request fun _ => F.bind (hbegan _) fun _ =>
      F.tryBatch htake hretry hflush) fun _ =>
    F.bind (F.modify (fun _ => rfl) fun _ => rfl) fun _ => F.pure _

theorem flushFlowing (F : Surrounds r R) (hcall : CallsRespect R call) (hd : RespectsFlush R r')
    (n : Nat) : Respects R (do
      if (← Host.request r').flowing then Host.flush user call r' n else Pure.pure (.ok ())) := by
  refine F.bind F.request fun q => ?_
  split
  · exact F.flush hcall hd n
  · exact F.pure _

theorem pass (F : Surrounds r R) (hcall : CallsRespect R call) (hw : RespectsWork R r')
    (hd : RespectsFlush R r') (n : Nat) : Respects R (Host.pass user call r' n) :=
  F.passOf (fun _ => hw.steps.record trivial nofun rfl) (F.takePinged hw.steps)
    (fun s => F.retry hcall hw s n)
    (F.flushFlowing hcall hd n)

theorem running (F : Surrounds r R)
    (hmark : ∀ h (f : Nat → Nat), R h (h.update r fun req => { req with running := f req.running }))
    {m : HostM κ σ α} (hm : Respects R m) : Respects R (Host.running r m) := by
  have hmodify : ∀ f : Nat → Nat, Respects R
      (Host.modifyRequest r fun req => { req with running := f req.running } : HostM κ σ Unit) := by
    intro f h a h' hrun
    cases hrun
    exact hmark h f
  exact F.bind (hmodify (· + 1)) fun _ => F.bind hm fun _ => F.bind (hmodify (· - 1)) fun _ =>
    F.pure _

end Surrounds

/-! ## All calls -/

/-- The relation is respected by whatever a session does: besides what `Surrounds` asks, by every
call that works on the request, if the calls made meanwhile respect it. -/
structure Frames (user : UserCode κ σ) (r : RequestId) (R : Host κ σ → Host κ σ → Prop) : Prop
    extends Surrounds r R where
  /-- What is done while the request is kept alive. -/
  visit : ∀ {α : Type} {m : HostM κ σ α}, Respects R m → Respects R (Host.running r m)
  start : Respects R (do
    Host.modifyRequest r fun req => { req with flowing := true }
    Host.record (.started r)
    Host.schedulePass r : HostM κ σ Unit)
  flow : ∀ n, CallsRespect R (Host.perform user n) → Respects R (Host.running r do
    Host.record (.flowed r (← Host.request r).flushing)
    Host.modifyRequest r fun req => { req with flowing := true }
    Host.flush user (Host.perform user n) r n)
  pass : ∀ n {α : Type} {k : Except RenderError Unit → HostM κ σ α},
    CallsRespect R (Host.perform user n) → (∀ result, Respects R (k result)) →
      Respects R (Host.running r do k (← Host.pass user (Host.perform user n) r n))

namespace Frames

open Host

variable {R : Host κ σ → Host κ σ → Prop} {r r' : RequestId} {user : UserCode κ σ}

theorem running (F : Frames user r R) {m : HostM κ σ α} (hm : Respects R m) :
    Respects R (Host.running r' m) := by
  by_cases hr : r' = r
  · exact hr ▸ F.visit hm
  · exact F.bind (F.modifyRequest_ne hr _) fun _ => F.bind hm fun _ =>
      F.bind (F.modifyRequest_ne hr _) fun _ => F.pure _

theorem onHeld {m : HostM κ σ α} (F : Frames user r R) (hm : Respects R (Host.running r' m)) :
    Respects R (Host.onHeld r' m) := by
  refine F.bind F.get fun h => ?_
  split
  · split
    · exact Surrounds.map hm
    · exact F.toSurrounds.pure _
  · exact F.toSurrounds.pure _

theorem running_pass (F : Frames user r R) {n : Nat} (hcall : CallsRespect R (perform user n))
    {k : Except RenderError Unit → HostM κ σ α} (hk : ∀ result, Respects R (k result)) :
    Respects R (Host.running r' do k (← Host.pass user (perform user n) r' n)) := by
  by_cases hr : r' = r
  · exact hr ▸ F.pass n hcall hk
  · have hpass : Respects R (Host.pass user (Host.perform user n) r' n) :=
      F.toSurrounds.pass hcall (F.respectsWork hr) (F.respectsFlush hr) n
    exact F.running (F.bind hpass hk)

theorem queuedPass (F : Frames user r R) {n : Nat} (hcall : CallsRespect R (perform user n)) :
    Respects R (Host.queuedPass user (perform user n) r' n) := by
  refine F.running_pass hcall fun result => ?_
  cases result with
  | ok u => exact F.toSurrounds.pure _
  | error e => exact F.modifyRequest fun _ => ⟨_, _, _, _, rfl, List.prefix_rfl⟩

theorem answer (F : Frames user r R) {n : Nat} (hcall : CallsRespect R (perform user n)) :
    CallsRespect R (answer user n (perform user n)) := by
  intro c
  cases c with
  | note line => exact F.record nofun
  | hook hook => exact F.bind F.get fun _ => F.toSurrounds.pure _
  | newPromise =>
    intro h a h' hrun
    cases hrun
    exact F.same rfl rfl
  | settle p outcome =>
    have hsettle : Respects R (settleCell p outcome : HostM κ σ (List (Reaction κ))) := by
      refine F.bind (F.promise p) fun cell => ?_
      split
      · exact F.bind (F.modify (fun _ => rfl) fun _ => rfl) fun _ => F.toSurrounds.pure _
      · exact F.toSurrounds.pure _
    exact F.bind hsettle fun reactions =>
      F.forM (fun reaction => hcall (.invoke (Reaction.pick reaction outcome))) _
  | settleLater p outcome => exact F.modify (fun _ => rfl) fun _ => rfl
  | status p => exact F.bind (F.promise p) fun _ => F.toSurrounds.pure _
  | subscribe p f f' =>
    refine F.bind (F.promise p) fun cell => ?_
    split
    · exact F.modify (fun _ => rfl) fun _ => rfl
    · exact hcall _
  | invoke f =>
    cases f with
    | ping r' s => exact F.ping s
    | user code => exact F.script hcall _
  | schedule code => exact F.modify (fun _ => rfl) fun _ => rfl
  | runNext =>
    have htake : Respects R (takeWork : HostM κ σ (Option (Work κ))) := by
      refine F.bind F.get fun h => ?_
      split
      · exact F.toSurrounds.pure _
      · exact F.bind (F.modify (fun _ => rfl) fun _ => rfl) fun _ => F.toSurrounds.pure _
    refine F.bind htake fun work => ?_
    rcases work with _ | r' | code
    · exact F.toSurrounds.pure _
    · exact F.bind (F.queuedPass hcall) fun _ => F.toSurrounds.pure _
    · exact F.bind (F.script hcall _) fun _ => F.toSurrounds.pure _
  | runUntilIdle =>
    refine F.bind (hcall .runNext) fun ran => ?_
    split
    · exact F.bind (hcall .runUntilIdle) fun _ => F.toSurrounds.pure _
    · exact F.toSurrounds.pure _
  | startWork r' =>
    refine F.onHeld (F.running ?_)
    by_cases hr : r' = r
    · exact hr ▸ F.start
    · exact F.bind (F.modifyRequest_ne hr _) fun _ =>
        F.bind (F.record fun h => hr (Option.some.inj h)) fun _ => F.schedulePass
  | startFlowing r' =>
    refine F.onHeld ?_
    by_cases hr : r' = r
    · exact hr ▸ F.flow n hcall
    · refine F.running (F.bind F.request fun q => ?_)
      exact F.bind (F.record fun h => hr (Option.some.inj h)) fun _ =>
        F.bind (F.modifyRequest_ne hr _) fun _ => F.flush hcall (F.respectsFlush hr) n
  | performWork r' =>
    have hpass : Respects R (Host.running r'
        (Host.pass user (Host.perform user n) r' n >>= pure)) :=
      F.running_pass hcall fun _ => F.toSurrounds.pure _
    rw [bind_pure] at hpass
    exact F.onHeld hpass
  | takeFatal r' =>
    exact F.onHeld (F.running (F.bind F.request fun _ =>
      F.bind (F.modifyRequest fun _ => ⟨_, _, _, _, rfl, List.prefix_rfl⟩) fun _ =>
        F.toSurrounds.pure _))
  | release r' => exact F.modifyRequest fun _ => ⟨_, _, _, _, rfl, List.prefix_rfl⟩
  | drain r' =>
    refine F.bind (F.bind F.get fun _ => F.toSurrounds.pure _) fun m => ?_
    cases m with
    | none => exact F.toSurrounds.pure _
    | some m =>
      exact F.bind (F.modifyRequest fun _ => ⟨_, _, _, _, rfl, List.prefix_rfl⟩) fun _ =>
        F.toSurrounds.pure _
  | collected r' =>
    exact F.bind (F.bind F.get fun _ => F.toSurrounds.pure _) fun _ => F.toSurrounds.pure _

theorem perform (F : Frames user r R) (n : Nat) : CallsRespect R (Host.perform user n) := by
  induction n with
  | zero => exact fun _ => Surrounds.failure
  | succ n ih => exact F.answer ih

/-- A relation that all changes of the request and all its events respect. -/
theorem of_changes (F : Surrounds r R)
    (change : ∀ h (f : Request κ → Request κ), R h (h.update r f))
    (tell : ∀ h (e : Event), R h (h.tell e)) : Frames user r R := by
  have hmodify : ∀ f, Respects R (modifyRequest r f : HostM κ σ Unit) := by
    intro f h a h' hrun
    cases hrun
    exact change h f
  have hrecord : ∀ e, Respects R (record e : HostM κ σ Unit) := by
    intro e h a h' hrun
    cases hrun
    exact tell h e
  have hw : RespectsWork R r := ⟨fun h _ _ => change h _, fun h _ _ _ => tell h _⟩
  have hd : RespectsFlush R r :=
    ⟨fun h _ _ => change h _, fun h _ _ => tell h _, fun h _ _ => tell h _⟩
  have hvisit : ∀ {α : Type} {m : HostM κ σ α}, Respects R m → Respects R (Host.running r m) :=
    F.running fun h _ => change h _
  exact
    { F with
      visit := hvisit
      start := F.bind (hmodify _) fun _ => F.bind (hrecord _) fun _ => F.schedulePass
      flow := fun n hcall => hvisit (F.bind F.request fun _ => F.bind (hrecord _) fun _ =>
        F.bind (hmodify _) fun _ => F.flush hcall hd n)
      pass := fun n _ _ hcall hk => hvisit (F.bind (F.pass hcall hw hd n) hk) }

/-! ## Steps from outside -/

theorem channel (F : Frames user r R) : Respects R (Host.channel r' : HostM κ σ Channel) := by
  refine F.bind F.request fun q => ?_
  cases q.settings.sink.channel? with
  | none => exact Surrounds.failure
  | some c => exact F.toSurrounds.pure _

theorem setChannel (F : Frames user r R) (c : Channel) :
    Respects R (Host.setChannel r' c : HostM κ σ Unit) :=
  F.modifyRequest fun _ => ⟨_, _, _, _, rfl, List.prefix_rfl⟩

theorem setDriver (F : Frames user r R) (d : DriverState) :
    Respects R (Host.setDriver r' d : HostM κ σ Unit) :=
  F.bind F.channel fun _ => F.setChannel _

theorem queueDriver (F : Frames user r R) (woken : Bool) :
    Respects R (Host.queueDriver r' woken : HostM κ σ Unit) := by
  cases woken with
  | false => exact F.toSurrounds.pure _
  | true => exact F.modify (fun _ => rfl) fun _ => rfl

theorem inspectStream (F : Frames user r R) (n : Nat) :
    Respects R (Host.inspectStream user r' n) := by
  have hanswer := F.answer (F.perform n)
  refine F.bind F.request fun q => ?_
  split
  · exact F.toSurrounds.pure _
  refine F.bind F.channel fun c => ?_
  split
  · exact F.toSurrounds.pure _
  refine F.bind (hanswer (.takeFatal r')) fun fatal => ?_
  rcases fatal with _ | _ | e
  case some.some => exact F.toSurrounds.pure _
  all_goals
    refine F.bind F.request fun q => ?_
    split
    · exact F.toSurrounds.pure _
    refine F.bind (hanswer (.startFlowing r')) fun flowed => ?_
    rcases flowed with _ | e | u <;> exact F.toSurrounds.pure _

theorem drive (F : Frames user r R) (n : Nat) : Respects R (Host.drive user r' n) := by
  induction n with
  | zero => exact Surrounds.failure
  | succ n ih =>
    refine F.bind (F.inspectStream n) fun goesOn => ?_
    cases goesOn with
    | false =>
      exact F.bind (F.setDriver .stopped) fun _ =>
        F.modifyRequest fun _ => ⟨_, _, _, _, rfl, List.prefix_rfl⟩
    | true =>
      refine F.bind F.channel fun c => ?_
      split
      · exact F.bind (F.setChannel _) fun _ => ih
      · exact F.setChannel _

theorem runTask (F : Frames user r R) (n : Nat) (task : Task κ) :
    Respects R (Host.runTask user n task) := by
  cases task with
  | pass r' => exact F.queuedPass (F.perform n)
  | settle p outcome => exact F.answer (F.perform n) (.settle p outcome)
  | driver r' =>
    have hstart : Respects R (startDriver user r' n) := by
      refine F.bind (F.setDriver .running) fun _ =>
        F.bind (F.answer (F.perform n) (.startWork r')) fun _ => F.bind F.channel fun c => ?_
      split
      · exact F.bind (F.setChannel _) fun _ => F.drive n
      · exact F.setChannel _
    have hdrive : Respects R (do Host.setDriver r' .running; Host.drive user r' n) :=
      F.bind (F.setDriver .running) fun _ => F.drive n
    refine F.bind F.channel fun c => ?_
    cases c.driver with
    | starting => exact hstart
    | stopped => exact F.toSurrounds.pure _
    | waiting | woken | running => exact hdrive

theorem takeTask (F : Frames user r R) :
    Respects R (Host.takeTask : HostM κ σ (Option (Task κ))) := by
  refine F.bind F.get fun h => ?_
  cases h.tasks with
  | nil => exact F.toSurrounds.pure _
  | cons task rest =>
    exact F.bind (F.modify (fun _ => rfl) fun _ => rfl) fun _ => F.toSurrounds.pure _

theorem receive (F : Frames user r R) : Respects R (Host.receive r' : HostM κ σ Received) :=
  F.bind F.channel fun _ => F.bind F.get fun _ => F.bind (F.setChannel _) fun _ =>
    F.bind (F.queueDriver _) fun _ => F.toSurrounds.pure _

theorem abandonStream (F : Frames user r R) :
    Respects R (Host.abandonStream r' : HostM κ σ Unit) :=
  F.bind F.channel fun _ => F.bind (F.setChannel _) fun _ => F.queueDriver _

/-- A step of a session makes a request, or it respects what all calls respect. -/
theorem made_or_respects {may : HostCall κ → Prop} {h h' : Host κ σ} (hstep : Step user may h h') :
    (∃ settings model r' h₁, newRequest settings model h = some (r', h₁) ∧
      h'.requests = h₁.requests ∧ h'.journal = h₁.journal) ∨
    ∀ {r : RequestId} {R : Host κ σ → Host κ σ → Prop}, Frames user r R → R h h' := by
  cases hstep with
  | create settings model hrun => exact .inl ⟨settings, model, _, h', hrun, rfl, rfl⟩
  | stream settings limit model hrun =>
    rw [newStream, run_bind] at hrun
    obtain ⟨⟨r', h₁⟩, hnew, hrest⟩ := Option.bind_eq_some_iff.mp hrun
    cases hrest
    exact .inl ⟨_, model, r', h₁, hnew, rfl, rfl⟩
  | script n hs hrun => exact .inr fun F => F.script (F.perform n) _ hrun
  | @task n task rest ht hrun =>
    refine .inr fun {r R} F => ?_
    have hpop : R h { h with tasks := rest } := F.same rfl rfl
    exact F.trans hpop (F.runTask n task hrun)
  | receive r' hrun => exact .inr fun F => F.receive hrun
  | abandon r' hrun => exact .inr fun F => F.abandonStream hrun

/-- A request that is there stays related through every step of a session. -/
theorem step (F : Frames user r R) {may : HostCall κ → Prop} {h h' : Host κ σ}
    (hstep : Step user may h h') {q : Request κ} (hq : h.requests[r.index]? = some q) : R h h' := by
  rcases made_or_respects hstep with ⟨settings, model, r', h₁, hnew, hrequests, hj⟩ | hR
  · rw [run_newRequest] at hnew
    cases hnew
    have hlt : r.index < h.requests.size := (Array.getElem?_eq_some_iff.mp hq).1
    have hpush : R h { h with requests := h.requests.push (.ofModel settings model) } := by
      refine F.same ?_ rfl
      simp only [Array.getElem?_push, Nat.ne_of_lt hlt, if_false]
    have hother : Event.IsBackground r (.issued ⟨h.requests.size⟩ (RowId.ofNat 0)) := by
      intro he
      cases he
      exact absurd hlt (Nat.lt_irrefl _)
    exact F.trans hpush (F.trans (F.tell _ hother) (F.same (by rw [hrequests]) hj))
  · exact hR F

theorem isSome_update (h : Host κ σ) (f : Request κ → Request κ)
    (hsome : (h.requests[r.index]?).isSome) : ((h.update r f).requests[r.index]?).isSome := by
  obtain ⟨q, hq⟩ := Option.isSome_iff_exists.mp hsome
  rw [requests_update_self hq]
  rfl

theorem present (user : UserCode κ σ) (r : RequestId) : Frames user r fun h h' : Host κ σ =>
    (h.requests[r.index]?).isSome → (h'.requests[r.index]?).isSome := by
  refine of_changes ⟨fun _ => id, fun h₁₂ h₂₃ => h₂₃ ∘ h₁₂, fun hreq _ hsome => ?_, fun _ _ _ => id,
    fun h f _ => isSome_update h f⟩ isSome_update fun _ _ => id
  rwa [hreq]

theorem respectsFlush_present (r : RequestId) : RespectsFlush (fun h h' : Host κ σ =>
    (h.requests[r.index]?).isSome → (h'.requests[r.index]?).isSome) r :=
  ⟨fun h f _ => isSome_update h f, fun _ _ _ => id, fun _ _ _ => id⟩

theorem present_flush {m n : Nat} {h h' : Host κ σ} {result : Except RenderError Unit}
    (hrun : Host.flush user (Host.perform user m) r n h = some (result, h')) {q : Request κ}
    (hq : h.requests[r.index]? = some q) : ∃ q', h'.requests[r.index]? = some q' := by
  have F := present (κ := κ) (σ := σ) user r
  exact Option.isSome_iff_exists.mp
    (F.toSurrounds.flush (F.perform m) (respectsFlush_present r) n hrun (by rw [hq]; rfl))

theorem present_pass {m n : Nat} {h h' : Host κ σ} {result : Except RenderError Unit}
    (hrun : Host.pass user (Host.perform user m) r n h = some (result, h')) {q : Request κ}
    (hq : h.requests[r.index]? = some q) : ∃ q', h'.requests[r.index]? = some q' := by
  have F := present (κ := κ) (σ := σ) user r
  refine Option.isSome_iff_exists.mp
    (F.toSurrounds.pass (F.perform m) ?_ (respectsFlush_present r) n hrun (by rw [hq]; rfl))
  exact ⟨fun h f _ => isSome_update h f, fun _ _ _ _ => id⟩

/-- Through all steps of a session from then on. -/
theorem steps (F : Frames user r R) {may : HostCall κ → Prop} {h h' : Host κ σ}
    (hsteps : Relation.ReflTransGen (Step user may) h h') {q : Request κ}
    (hq : h.requests[r.index]? = some q) : R h h' := by
  have hpresent : (h.requests[r.index]?).isSome := by rw [hq]; rfl
  suffices R h h' ∧ (h'.requests[r.index]?).isSome from this.1
  induction hsteps with
  | refl => exact ⟨F.refl h, hpresent⟩
  | tail _ hstep ih =>
    obtain ⟨hR, hsome⟩ := ih
    obtain ⟨q', hq'⟩ := Option.isSome_iff_exists.mp hsome
    exact ⟨F.trans hR (F.step hstep hq'), (present user r).step hstep hq' hsome⟩

end Frames
end TreeStream

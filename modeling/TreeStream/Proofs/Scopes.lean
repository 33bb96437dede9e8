import TreeStream.Proofs.Frames

/-!
# The mark of passes as a scope

The mark that a pass is under way is one value for the whole thread. A pass sets it and puts it back,
and everything that a pass runs may run further passes. `Scoped` compares two runs that start under
the same mark and differ in how the calls of scripts are answered: if the calls that user code makes
agree under a mark, then so do the actions of the host, and the mark is the same before and after.
Code of a model runs under a set mark only.
-/

namespace TreeStream

variable {κ σ α β : Type}

/-- A run of a model's code while the mark was not set. -/
def Event.IsStray : Event → Prop
  | ran _ _ inPass => inPass = false
  | _ => False

/-- No stray run has been told since. -/
def Host.Tidy (h h' : Host κ σ) : Prop := ∀ e ∈ h'.journal, e.IsStray → e ∈ h.journal

theorem Host.Tidy.refl (h : Host κ σ) : h.Tidy h := fun _ he _ => he

theorem Host.Tidy.trans {h₁ h₂ h₃ : Host κ σ} (h₁₂ : h₁.Tidy h₂) (h₂₃ : h₂.Tidy h₃) :
    h₁.Tidy h₃ :=
  fun e he hstray => h₁₂ e (h₂₃ e he hstray) hstray

theorem Host.Tidy.of_eq {h h' : Host κ σ} (hj : h'.journal = h.journal) : h.Tidy h' := by
  intro e he _
  rwa [hj] at he

theorem Host.Tidy.tell {h : Host κ σ} {e : Event} (he : ¬ e.IsStray) : h.Tidy (h.tell e) := by
  intro e' he' hstray
  rcases List.mem_cons.mp he' with rfl | hold
  · exact absurd hstray he
  · exact hold

/-- Under this mark both actions do the same. They leave the mark as it is and run no code of a
model without it. -/
def Scoped (mark : Bool) (m m' : HostM κ σ α) : Prop :=
  ∀ ⦃h⦄, h.inPass = mark → m h = m' h ∧
    ∀ ⦃a h'⦄, m h = some (a, h') → h'.inPass = mark ∧ h.Tidy h'

def CallsScoped (mark : Bool) (call call' : (c : HostCall κ) → HostM κ σ c.Reply) : Prop :=
  ∀ c, Scoped mark (call c) (call' c)

namespace Scoped

open Host

variable {mark : Bool} {r : RequestId}

theorem pure (a : α) : Scoped mark (pure a : HostM κ σ α) (pure a) := by
  intro h hmark
  constructor
  · rfl
  · intro b h' hrun
    cases hrun
    exact ⟨hmark, .refl h⟩

theorem failure : Scoped mark (failure : HostM κ σ α) failure := by
  intro h hmark
  constructor
  · rfl
  · intro b h' hrun
    cases hrun

theorem bind {m m' : HostM κ σ α} {k k' : α → HostM κ σ β} (hm : Scoped mark m m')
    (hk : ∀ a, Scoped mark (k a) (k' a)) : Scoped mark (m >>= k) (m' >>= k') := by
  intro h hmark
  obtain ⟨hsame, hkept⟩ := hm hmark
  rw [run_bind, run_bind, ← hsame]
  cases hfirst : m h with
  | none => exact ⟨rfl, nofun⟩
  | some first =>
    obtain ⟨a, h₁⟩ := first
    obtain ⟨hmark₁, htidy⟩ := hkept hfirst
    obtain ⟨hrest, hkept₁⟩ := hk a hmark₁
    refine ⟨hrest, ?_⟩
    intro b h₂ hrun
    obtain ⟨hmark₂, htidy₂⟩ := hkept₁ hrun
    exact ⟨hmark₂, htidy.trans htidy₂⟩

theorem map {m m' : HostM κ σ α} (f : α → β) (hm : Scoped mark m m') :
    Scoped mark (f <$> m) (f <$> m') := by
  rw [map_eq_pure_bind, map_eq_pure_bind]
  exact bind hm fun a => pure (f a)

/-- What is done with the host that is looked at may use its mark. -/
theorem get {k k' : Host κ σ → HostM κ σ β}
    (hk : ∀ h, h.inPass = mark → Scoped mark (k h) (k' h)) :
    Scoped mark (MonadState.get >>= k) (MonadState.get >>= k') := by
  intro h hmark
  exact hk h hmark hmark

/-- An action that never comes near the mark. -/
theorem steady {m : HostM κ σ α}
    (hm : ∀ ⦃h a h'⦄, m h = some (a, h') → h'.inPass = h.inPass ∧ h.Tidy h') :
    Scoped mark m m := by
  intro h hmark
  refine ⟨rfl, ?_⟩
  intro a h' hrun
  obtain ⟨hkept, htidy⟩ := hm hrun
  exact ⟨hkept.trans hmark, htidy⟩

theorem modify {f : Host κ σ → Host κ σ} (hf : ∀ h, (f h).inPass = h.inPass)
    (hj : ∀ h, (f h).journal = h.journal) :
    Scoped mark (modify f : HostM κ σ Unit) (modify f) := by
  apply steady
  intro h a h' hrun
  cases hrun
  exact ⟨hf h, .of_eq (hj h)⟩

theorem modifyRequest (f : Request κ → Request κ) :
    Scoped mark (modifyRequest r f : HostM κ σ Unit) (Host.modifyRequest r f) :=
  modify (fun _ => rfl) fun _ => rfl

theorem record {e : Event} (he : ¬ e.IsStray) :
    Scoped mark (record e : HostM κ σ Unit) (Host.record e) := by
  apply steady
  intro h a h' hrun
  cases hrun
  exact ⟨rfl, .tell he⟩

theorem looking {m : HostM κ σ α} (hm : ∀ ⦃h a h'⦄, m h = some (a, h') → h' = h) :
    Scoped mark m m := by
  apply steady
  intro h a h' hrun
  rw [hm hrun]
  exact ⟨rfl, .refl h⟩

theorem request : Scoped mark (request r : HostM κ σ (Request κ)) (Host.request r) :=
  looking fun _ _ _ hrun => (request_of_run hrun).2

theorem segment (s : SegmentId) :
    Scoped mark (segment r s : HostM κ σ (Segment κ)) (Host.segment r s) := by
  apply looking
  intro h seg h' hrun
  obtain ⟨q, -, -, rfl⟩ := segment_of_run hrun
  rfl

theorem promise (p : PromiseId) :
    Scoped mark (promise p : HostM κ σ (PromiseCell κ)) (Host.promise p) :=
  looking fun _ _ _ hrun => (promise_of_run hrun).2

theorem forM {f f' : α → HostM κ σ Unit} (hf : ∀ a, Scoped mark (f a) (f' a)) (xs : List α) :
    Scoped mark (xs.forM f) (xs.forM f') := by
  induction xs with
  | nil => exact pure ()
  | cons x xs ih => exact bind (hf x) fun _ => ih

theorem ite {p : Prop} [Decidable p] {m₁ m₁' m₂ m₂' : HostM κ σ α} (h₁ : Scoped mark m₁ m₁')
    (h₂ : Scoped mark m₂ m₂') :
    Scoped mark (if p then m₁ else m₂) (if p then m₁' else m₂') := by
  split
  · exact h₁
  · exact h₂

/-! ## Small actions -/

theorem schedulePass : Scoped mark (schedulePass r : HostM κ σ Unit) (Host.schedulePass r) := by
  refine bind (record nofun) fun _ => bind request fun q => ?_
  cases q.settings.queue with
  | manual => exact modify (fun _ => rfl) fun _ => rfl
  | tasks => exact modify (fun _ => rfl) fun _ => rfl

theorem ping (s : SegmentId) : Scoped mark (ping r s : HostM κ σ Unit) (Host.ping r s) := by
  refine get fun h _ => ite ?_ (pure ())
  refine bind (record nofun) fun _ => bind (modifyRequest _) fun _ => bind request fun q => ?_
  exact ite schedulePass (pure ())

theorem allocate : Scoped mark (allocate r : HostM κ σ RowId) (Host.allocate r) :=
  bind request fun _ => bind (modifyRequest _) fun _ => bind (record nofun) fun _ => pure _

theorem newSegment (query : Query κ) :
    Scoped mark (newSegment r query : HostM κ σ SegmentId) (Host.newSegment r query) :=
  bind allocate fun _ => bind request fun _ => bind (modifyRequest _) fun _ => pure _

theorem completeError (id : RowId) (e : RenderError) :
    Scoped mark (completeError r id e : HostM κ σ Unit) (Host.completeError r id e) :=
  bind (modifyRequest _) fun _ => record nofun

theorem failSegment (s : SegmentId) (e : RenderError) :
    Scoped mark (failSegment r s e : HostM κ σ Unit) (Host.failSegment r s e) :=
  bind (modifyRequest _) fun _ => bind (segment s) fun _ => completeError _ e

theorem completeSegment (s : SegmentId) (json : String) :
    Scoped mark (completeSegment r s json : HostM κ σ Unit) (Host.completeSegment r s json) :=
  bind (modifyRequest _) fun _ => bind (segment s) fun _ => bind (modifyRequest _) fun _ =>
    record nofun

theorem takeRow (kind : RowKind) :
    Scoped mark (takeRow r kind : HostM κ σ (Option Row)) (Host.takeRow r kind) := by
  refine bind request fun q => ?_
  cases q.rows kind with
  | nil => exact pure none
  | cons row rest => exact bind (modifyRequest _) fun _ => pure _

theorem callSink (c : SinkCall) :
    Scoped mark (callSink r c : HostM κ σ (Except RenderError Bool)) (Host.callSink r c) := by
  refine bind request fun q => bind (modifyRequest _) fun _ => ?_
  split
  · exact bind (modify (fun _ => rfl) fun _ => rfl) fun _ => pure _
  · exact pure _

theorem takePinged :
    Scoped mark (takePinged r : HostM κ σ (List SegmentId)) (Host.takePinged r) :=
  bind request fun _ => bind (modifyRequest _) fun _ => pure _

/-! ## Flushes -/

section
variable {user : UserCode κ σ} {call call' : (c : HostCall κ) → HostM κ σ c.Reply}
  (hcall : CallsScoped mark call call')
include hcall

theorem script (script : Script κ σ α) : Scoped mark (script.run call) (script.run call') := by
  induction script with
  | done a => exact pure a
  | get next ih => exact get fun h _ => ih _
  | put s next ih => exact bind (modify (fun _ => rfl) fun _ => rfl) fun _ => ih
  | call c next ih => exact bind (hcall c) ih

theorem verdict (c : SinkCall) :
    Scoped mark (verdict user call r c) (Host.verdict user call' r c) := by
  refine bind request fun q => ?_
  cases q.settings.guard with
  | none => exact pure _
  | some code => exact script hcall _

theorem callDestination (c : SinkCall) :
    Scoped mark (callDestination user call r c) (Host.callDestination user call' r c) := by
  have hend : ∀ answer : Except RenderError Bool, Scoped mark
      (do Host.record (.called r c answer); Pure.pure answer : HostM κ σ _)
      (do Host.record (.called r c answer); Pure.pure answer) :=
    fun answer => bind (record nofun) fun _ => pure _
  refine bind request fun q => bind (record nofun) fun _ => bind (verdict hcall c) fun v => ?_
  cases v with
  | fail e => exact hend _
  | pass => exact bind (callSink c) hend
  | answer welcome =>
    refine bind (callSink c) fun a => ?_
    cases a with
    | error e => exact hend _
    | ok b => exact hend _

theorem writeRows (kind : RowKind) (n : Nat) :
    Scoped mark (writeRows user call r kind n) (Host.writeRows user call' r kind n) := by
  induction n with
  | zero => exact failure
  | succ n ih =>
    refine bind (takeRow kind) fun row => ?_
    cases row with
    | none => exact pure _
    | some row =>
      refine bind (callDestination hcall _) fun a => ?_
      rcases a with e | _ | _
      · exact pure _
      · exact bind (modifyRequest _) fun _ => pure _
      · exact ih

theorem writeBatch (n : Nat) :
    Scoped mark (writeBatch user call r n) (Host.writeBatch user call' r n) := by
  refine bind (writeRows hcall .model n) fun written => ?_
  cases written with
  | error e => exact pure _
  | ok u => exact writeRows hcall .error n

theorem closeIfFinished :
    Scoped mark (closeIfFinished user call r) (Host.closeIfFinished user call' r) := by
  refine bind request fun q => ite ?_ (pure _)
  refine bind (modifyRequest _) fun _ => bind (callDestination hcall _) fun a => ?_
  cases a with
  | error e => exact pure _
  | ok b => exact pure _

theorem endBatch (written : Except RenderError Unit) :
    Scoped mark (endBatch user call r written) (Host.endBatch user call' r written) := by
  refine bind (callDestination hcall _) fun completed => ?_
  cases written with
  | error e => exact pure _
  | ok u =>
    cases completed with
    | error e => exact pure _
    | ok b =>
      refine bind (callDestination hcall _) fun flushed => ?_
      cases flushed with
      | error e => exact pure _
      | ok b => exact closeIfFinished hcall

theorem batch (n : Nat) : Scoped mark (batch user call r n) (Host.batch user call' r n) := by
  refine bind (callDestination hcall _) fun begun => ?_
  cases begun with
  | error e => exact pure _
  | ok b => exact bind (writeBatch hcall n) fun written => endBatch hcall written

theorem flush (n : Nat) : Scoped mark (flush user call r n) (Host.flush user call' r n) := by
  have hend : ∀ result : Except RenderError Unit, Scoped mark
      (do Host.modifyRequest r fun req => { req with flushing := false }
          Pure.pure result : HostM κ σ _)
      (do Host.modifyRequest r fun req => { req with flushing := false }
          Pure.pure result) :=
    fun result => bind (modifyRequest _) fun _ => pure _
  refine bind request fun q => ite (pure _) (bind (modifyRequest _) fun _ => ?_)
  refine bind request fun q => ?_
  split
  · exact hend _
  · exact bind (batch hcall n) hend

theorem await (t : Thenable κ) (f f' : Callback κ) :
    Scoped mark (await user call t f f') (Host.await user call' t f f') := by
  cases t with
  | promise p => exact hcall _
  | custom code => exact script hcall _

end

/-! ## Passes -/

section
variable {user : UserCode κ σ} {call call' : (c : HostCall κ) → HostM κ σ c.Reply}
  (hcall : CallsScoped true call call')
include hcall

/-- Code of a model runs in passes only, and so under a set mark. -/
theorem runCode (step : UserStep) (code : Script κ σ α) :
    Scoped true (do recordRun r step; code.run call) (do recordRun r step; code.run call') := by
  refine bind (get fun h hmark => record ?_) fun _ => script hcall code
  intro hstray
  cases hmark.symm.trans hstray

theorem effect (strict : Bool) (e : Effect κ) :
    Scoped true (e.perform (codeEffects user call r) (context user call r strict))
      (e.perform (codeEffects user call' r) (context user call' r strict)) := by
  cases e with
  | render code props ref => exact runCode hcall .render _
  | load code => exact runCode hcall .load _
  | toModel code => exact runCode hcall .toModel _
  | suspend query t =>
    exact bind (modifyRequest _) fun _ => bind (newSegment query) fun s =>
      bind (await hcall t _ _) fun _ => bind (segment s) fun _ => pure _
  | emitError e =>
    exact bind (modifyRequest _) fun _ => bind allocate fun id =>
      bind (completeError id e) fun _ => pure _
  | metadata m =>
    refine bind request fun q => ?_
    cases q.settings.modules with
    | manifest manifest => exact pure _
    | user code => exact script hcall _
  | warn text => exact bind request fun q => ite (record nofun) (pure _)

theorem walk (strict : Bool) (w : Walk κ α) :
    Scoped true
      (w.perform (codeEffects user call r) (context user call r strict) fun _ => Alternative.failure)
      (w.perform (codeEffects user call' r) (context user call' r strict)
        fun _ => Alternative.failure) := by
  induction w with
  | done a => exact pure a
  | stuck => exact failure
  | ask e next ih => exact bind (effect hcall strict e) ih

theorem resolveElement (e : Element κ (Model κ)) :
    Scoped true (Serializer.resolveElement (codeEffects user call r) e)
      (Serializer.resolveElement (codeEffects user call' r) e) := by
  rw [resolveElement_perform, resolveElement_perform]
  exact walk hcall false _

theorem advance (s : SegmentId) (n : Nat) (value : Model κ) :
    Scoped true (advance user call r s n value) (Host.advance user call' r s n value) := by
  induction n generalizing value with
  | zero => exact failure
  | succ n ih =>
    cases value with
    | element e =>
      refine bind (modifyRequest _) fun _ => bind (resolveElement hcall e) fun outcome => ?_
      cases outcome with
      | ready next => exact ih next
      | suspended t => exact bind (await hcall t _ _) fun _ => pure _
      | failed e => exact bind (failSegment s e) fun _ => pure _
    | _ => exact pure _

theorem finish (s : SegmentId) (n : Nat) (value : Model κ) :
    Scoped true (finish user call r s n value) (Host.finish user call' r s n value) := by
  refine bind request fun q => bind ?_ fun outcome => ?_
  · rw [Serializer.serialize_perform absorbs_hostM n value,
      Serializer.serialize_perform absorbs_hostM n value]
    exact walk hcall _ _
  · cases outcome with
    | ok json => exact completeSegment s json
    | error e => exact failSegment s e

theorem tryOpen (s : SegmentId) (n : Nat) :
    Scoped true (tryOpen user call r s n) (Host.tryOpen user call' r s n) := by
  refine bind (segment s) fun seg => ite (pure _) ?_
  refine bind (segment s) fun seg => bind ?_ fun outcome => ?_
  · cases seg.query with
    | model value => exact pure _
    | load code => exact runCode hcall .load _
  · cases outcome with
    | suspended t => exact await hcall t _ _
    | failed e => exact failSegment s e
    | ready value =>
      refine bind (advance hcall s n value) fun reached => ?_
      cases reached with
      | none => exact pure _
      | some value => exact finish hcall s n value

theorem retry (s : SegmentId) (n : Nat) :
    Scoped true (retry user call r s n) (Host.retry user call' r s n) :=
  bind (record nofun) fun _ => bind (tryOpen hcall s n) fun _ => record nofun

theorem tryPinged (n : Nat) :
    Scoped true (tryPinged user call r n) (Host.tryPinged user call' r n) := by
  refine bind request fun q => bind (record nofun) fun _ => bind takePinged fun batch => ?_
  refine bind (forM (fun s => retry hcall s n) batch) fun _ => ?_
  exact bind request fun q => ite (flush hcall n) (pure _)

/-- A pass sets the mark for what it runs and puts it back, however it ends. -/
theorem pass (n : Nat) : Scoped mark (pass user call r n) (Host.pass user call' r n) := by
  intro h hmark
  obtain ⟨hsame, hkept⟩ := tryPinged (r := r) hcall n (h := { h with inPass := true }) rfl
  have hpass : ∀ call : (c : HostCall κ) → HostM κ σ c.Reply, Host.pass user call r n h =
      (Host.tryPinged user call r n { h with inPass := true }).map
        fun ended => (ended.1, { ended.2 with inPass := h.inPass }) := by
    intro call
    simp only [Host.pass, run_bind, run_get, run_modify, run_pure, Option.bind_some]
    cases Host.tryPinged user call r n { h with inPass := true } <;> rfl
  rw [hpass call, hpass call', hsame]
  refine ⟨rfl, ?_⟩
  intro result h' hrun
  obtain ⟨⟨result', h₁⟩, htried, hend⟩ := Option.map_eq_some_iff.mp hrun
  cases hend
  obtain ⟨-, htidy⟩ := hkept (hsame.trans htried)
  exact ⟨hmark, htidy⟩

theorem queuedPass (n : Nat) :
    Scoped mark (queuedPass user call r n) (Host.queuedPass user call' r n) := by
  refine bind (modifyRequest _) fun _ => bind (bind (pass hcall n) fun result => ?_) fun _ =>
    bind (modifyRequest _) fun _ => pure _
  cases result with
  | ok u => exact pure _
  | error e => exact modifyRequest _

end
end Scoped
end TreeStream

import TreeStream.Proofs.Surroundings

/-!
# A flush is a course of turns

Whatever the destination does when it is called, a flush leaves the hand as it found it. It ends
with both queues found empty and the pending rows looked at, unless the request was closed before
or the destination refused something.
-/

namespace TreeStream

namespace Delivery

variable {d : Delivery}

def IsDry (d : Delivery) : RowKind → Prop
  | .model => d.modelDry = true
  | .error => d.errorDry = true

/-- What the writing of rows makes of a flush: nothing is on its way in the end, what was found
stays found, and no decision is made. -/
structure Writes (d d' : Delivery) : Prop where
  clear : d'.Clear
  ofPass : d'.ofPass = d.ofPass
  idle : d'.idle = d.idle
  decided : d'.decided = d.decided
  modelDry : d.modelDry = true → d'.modelDry = true
  errorDry : d.errorDry = true → d'.errorDry = true
  saturated : d.saturated = true → d'.saturated = true

theorem Writes.trans {d d' d'' : Delivery} (h : Writes d d') (h' : Writes d' d'') : Writes d d'' :=
  ⟨h'.clear, h'.ofPass.trans h.ofPass, h'.idle.trans h.idle, h'.decided.trans h.decided,
    fun hd => h'.modelDry (h.modelDry hd), fun hd => h'.errorDry (h.errorDry hd),
    fun hd => h'.saturated (h.saturated hd)⟩

theorem Clear.runDry (h : d.Clear) (kind : RowKind) : (d.runDry kind).Clear := by
  cases kind <;> exact ⟨h.row, h.asked, h.closing, h.halting⟩

theorem Writes.runDry (h : d.Clear) (kind : RowKind) : Writes d (d.runDry kind) := by
  cases kind
  · exact ⟨h.runDry .model, rfl, rfl, rfl, fun _ => rfl, id, id⟩
  · exact ⟨h.runDry .error, rfl, rfl, rfl, id, fun _ => rfl, id⟩

theorem isDry_runDry (d : Delivery) (kind : RowKind) : (d.runDry kind).IsDry kind := by
  cases kind <;> rfl

theorem clear_called (d : Delivery) {c : SinkCall} {answer : Except RenderError Bool}
    (h : c.isSaturation answer = false) : (d.called c answer).Clear :=
  ⟨rfl, rfl, rfl, h⟩

/-- A row was written, and the flow goes on or has stopped. -/
theorem Writes.wrote (d : Delivery) (row : Row) (answer : Except RenderError Bool) :
    Writes d { { d with row := some row }.called (.write row) answer with halting := false } :=
  ⟨⟨rfl, rfl, rfl, rfl⟩, rfl, rfl, rfl, id, id, fun h => by simp [Delivery.called, h]⟩

theorem Writes.dry {d d' : Delivery} (h : Writes d d') {kind : RowKind} (hd : d.IsDry kind) :
    d'.IsDry kind := by
  cases kind
  · exact h.modelDry hd
  · exact h.errorDry hd

theorem failed_of_error (d : Delivery) (c : SinkCall) (e : RenderError) :
    (d.called c (.error e)).failed = true := by
  simp [called, Except.isOk, Except.toBool]

/-- How the writing of rows has ended: the destination has failed, or it is saturated, or the
queues were found dry. -/
def Wrote (d : Delivery) (dry : Prop) : Except RenderError Unit → Prop
  | .error _ => d.stage = .spoiled ∧ d.failed = true
  | .ok _ => d.stage = .writing ∧ (d.saturated = true ∨ dry)

structure Live (d : Delivery) : Prop where
  clear : d.Clear
  idle : d.idle = false
  decided : d.decided = false

theorem Live.after {d d' : Delivery} (h : d.Live) (hw : Writes d d') : d'.Live :=
  ⟨hw.clear, hw.idle.trans h.idle, hw.decided.trans h.decided⟩

theorem Live.called (h : d.Live) {c : SinkCall} {answer : Except RenderError Bool}
    (hc : c.isSaturation answer = false) : (d.called c answer).Live :=
  ⟨d.clear_called hc, h.idle, h.decided⟩

/-- A failed call other than a write ends the batch. -/
theorem done_of_error (d : Delivery) {c : SinkCall} {e : RenderError}
    (hc : ∀ row, c ≠ .write row) : (d.called c (.error e)).Done := by
  refine ⟨d.clear_called ?_, .inr ⟨?_, .inl (d.failed_of_error c e)⟩⟩
  · cases c <;> rfl
  · cases c with
    | write row => exact absurd rfl (hc row)
    | _ => rfl

theorem done_of_spoiled (hs : d.stage = .spoiled) (hf : d.failed = true)
    (answer : Except RenderError Bool) : (d.called .complete answer).Done := by
  refine ⟨d.clear_called rfl, .inr ⟨?_, .inl ?_⟩⟩
  · cases answer <;> simp [called, hs, BatchStage.after]
  · simp [called, hf]

theorem done_of_close (hrows : d.saturated = true ∨ (d.IsDry .model ∧ d.IsDry .error))
    (answer : Except RenderError Bool) :
    ({ d with decided := true, closing := true }.called .close answer).Done := by
  refine ⟨clear_called _ rfl, .inr ⟨by cases answer <;> rfl, .inr ⟨rfl, hrows.imp ?_ id⟩⟩⟩
  intro hs
  simp [called, hs]

end Delivery

namespace Host

open Delivery

variable {κ σ : Type} {W : World κ} {g : Hands κ} {r : RequestId} {x : Hand κ} {d : Delivery}
  {user : UserCode κ σ} {call : (c : HostCall κ) → HostM κ σ c.Reply}

theorem verdict_at (huser : user.KeepsTo W) (hcall : Answers W call) (r : RequestId)
    (c : SinkCall) : Triple W (At W g) (verdict user call r c) fun _ => At W g := by
  refine Triple.request.bind fun q => ?_
  cases hguard : q.settings.guard with
  | none => exact Triple.pure fun h ha => ha.1
  | some code =>
    exact (script_at hcall False.elim (huser.destination code c)).conseq (fun h ha => ha.1)
      fun _ h ha => ha.1

theorem callSink_at (r : RequestId) (c : SinkCall) :
    Triple (σ := σ) W (At W g) (callSink r c) fun _ => At W g := by
  refine Triple.request.bind fun q => ?_
  refine Triple.bind ((adjust_at fun q => ?_).pre fun h ha => ha.1) fun _ => ?_
  · exact ⟨_, q.fatal, q.held, id, rfl⟩
  split
  · exact (enqueueTask_at fun _ => rfl).bind fun _ => Triple.pure fun h ha => ha
  · exact Triple.pure fun h ha => ha

/-- The destination is asked for something that it can be asked next. It is closed only if no row
is pending. -/
theorem callDestination_at (huser : user.KeepsTo W) (hcall : Answers W call) {c : SinkCall}
    (hc : d.Expects c) :
    Triple W (fun h => At W (g.set r { x with delivery := some d }) h ∧
        (c = .close → ∀ q, h.requests[r.index]? = some q → q.pending = 0))
      (callDestination user call r c)
      fun answer => At W (g.set r { x with delivery := some (d.called c answer) }) := by
  have hask : ∀ q : Request κ,
      Triple (σ := σ) W
        (fun h => (At W (g.set r { x with delivery := some d }) h ∧
          (c = .close → ∀ q, h.requests[r.index]? = some q → q.pending = 0)) ∧
            h.requests[r.index]? = some q)
        (record (.calling r c q.pending)) fun _ =>
          At W (g.set r { x with delivery := some { d with asked := some c } }) := by
    intro q
    refine Triple.record fun h hP => hP.1.1.turn (.flushing ?_) fun r' hr => view_tell_ne rfl hr
    rw [view_tell_self rfl]
    exact .calling c hP.2 rfl hc fun he => hP.1.2 he q hP.2
  have hanswer : ∀ answer : Except RenderError Bool,
      Triple (σ := σ) W (At W (g.set r { x with delivery := some { d with asked := some c } }))
        (do record (.called r c answer); pure answer)
        fun answer => At W (g.set r { x with delivery := some (d.called c answer) }) := by
    intro answer
    refine Triple.bind (Q := fun _ =>
      At W (g.set r { x with delivery := some (d.called c answer) })) ?_ fun _ =>
        Triple.pure fun h ha => ha
    refine Triple.record fun h ha => ha.turn (.flushing ?_) fun r' hr => view_tell_ne rfl hr
    rw [view_tell_self rfl]
    exact .called c answer rfl hc
  refine Triple.request.bind fun q => (hask q).bind fun _ =>
    (verdict_at huser hcall r c).bind fun verdict => ?_
  cases verdict with
  | fail e => exact hanswer _
  | pass => exact (callSink_at r c).bind fun answer => hanswer _
  | answer welcome =>
    refine (callSink_at r c).bind fun answer => ?_
    cases answer with
    | error e => exact hanswer _
    | ok w => exact hanswer _

theorem callDestination_at_of_ne (huser : user.KeepsTo W) (hcall : Answers W call) {c : SinkCall}
    (hc : d.Expects c) (hne : c ≠ .close) :
    Triple W (At W (g.set r { x with delivery := some d })) (callDestination user call r c)
      fun answer => At W (g.set r { x with delivery := some (d.called c answer) }) :=
  (callDestination_at huser hcall hc).pre fun _ ha => ⟨ha, fun he => absurd he hne⟩

theorem takeRow_at (kind : RowKind) (hn : d.Clear) (hs : d.stage = .writing)
    (hd : d.decided = false) (hw : kind = .error → d.saturated = true ∨ d.modelDry = true) :
    Triple (σ := σ) W (At W (g.set r { x with delivery := some d })) (takeRow r kind)
      fun row h =>
        match row with
        | none => At W (g.set r { x with delivery := some (d.runDry kind) }) h
        | some row => At W (g.set r { x with delivery := some { d with row := some row } }) h := by
  refine Triple.request.bind fun q => ?_
  cases hrows : q.rows kind with
  | nil =>
    refine Triple.pure fun h hP => hP.1.ghost (.flushing ?_)
    exact .runDry kind hP.2 rfl hrows
  | cons row rest =>
    refine Triple.bind (Q := fun _ =>
      At W (g.set r { x with delivery := some { d with row := some row } }))
      (Triple.modifyRequest fun h hP => ?_) fun _ => Triple.pure fun h ha => ha
    exact hP.1.update hP.2 (.flushing (.take kind hP.2 rfl hn hs hd hrows hw))

theorem stop_at (hd : d.halting = true) :
    Triple (σ := σ) W (At W (g.set r { x with delivery := some d }))
      (modifyRequest r fun req => { req with flowing := false })
      fun _ => At W (g.set r { x with delivery := some { d with halting := false } }) := by
  refine Triple.modifyRequest fun h ha => ?_
  obtain ⟨q, hq⟩ := ha.exists_of_busy (.inr (.inr (by simp)))
  exact ha.update hq (.flushing (.stop hq rfl hd))

/-- The flush is at `d'` now, which `d` has led to. -/
def Reaches (W : World κ) (g : Hands κ) (r : RequestId) (x : Hand κ) (d : Delivery)
    (ends : Delivery → Prop) (h : Host κ σ) : Prop :=
  ∃ d', At W (g.set r { x with delivery := some d' }) h ∧ Writes d d' ∧ ends d'

theorem Reaches.imp {ends ends' : Delivery → Prop} {h : Host κ σ} (hd : Reaches W g r x d ends h)
    (he : ∀ d', Writes d d' → ends d' → ends' d') : Reaches W g r x d ends' h := by
  obtain ⟨d', ha, hw, hends⟩ := hd
  exact ⟨d', ha, hw, he d' hw hends⟩

theorem Reaches.after {ends : Delivery → Prop} {h : Host κ σ} {d₀ : Delivery}
    (hd : Reaches W g r x d ends h) (hw : Writes d₀ d) : Reaches W g r x d₀ ends h := by
  obtain ⟨d', ha, hw', hends⟩ := hd
  exact ⟨d', ha, hw.trans hw', hends⟩

theorem Triple.reaching {α : Type} {m : HostM κ σ α} {ends : Delivery → Prop}
    {Q : α → Host κ σ → Prop} (hg : Grows m)
    (hm : ∀ d', Writes d d' → ends d' →
      Triple W (At W (g.set r { x with delivery := some d' })) m Q) :
    Triple W (Reaches W g r x d ends) m Q := by
  refine (Triple.of_exists (φ := fun d' => Writes d d' ∧ ends d') hg
    fun d' hd => hm d' hd.1 hd.2).pre fun h hP => ?_
  obtain ⟨d', ha, hwrites, hends⟩ := hP
  exact ⟨d', ⟨hwrites, hends⟩, ha⟩

theorem writeRows_at (huser : user.KeepsTo W) (hcall : Answers W call) (kind : RowKind) (n : Nat)
    (hn : d.Clear) (hs : d.stage = .writing) (hd : d.decided = false)
    (hw : kind = .error → d.saturated = true ∨ d.modelDry = true) :
    Triple W (At W (g.set r { x with delivery := some d })) (writeRows user call r kind n)
      fun result => Reaches W g r x d fun d' => d'.Wrote (d'.IsDry kind) result := by
  induction n generalizing d with
  | zero => exact Triple.failure
  | succ n ih =>
    refine (takeRow_at kind hn hs hd hw).bind fun row => ?_
    cases row with
    | none =>
      refine Triple.pure fun h ha =>
        ⟨_, ha, .runDry hn kind, ?_, .inr (isDry_runDry d kind)⟩
      cases kind <;> exact hs
    | some row =>
      have hsent : { d with row := some row }.Expects (.write row) :=
        ⟨rfl, hn.asked, hn.closing, hn.halting, hs⟩
      refine (callDestination_at_of_ne huser hcall hsent SinkCall.noConfusion).bind fun answer => ?_
      cases answer with
      | error e =>
        exact Triple.pure fun h ha => ⟨_, ha, .wrote d row (.error e), rfl, failed_of_error _ _ e⟩
      | ok welcome =>
        cases welcome with
        | true =>
          have hrest := ih (d := { d with row := some row }.called (.write row) (.ok true))
            (clear_called _ rfl) hs hd fun he => (hw he).imp (fun h => by simp [called, h]) id
          exact hrest.post fun result h hP => hP.after (.wrote d row (.ok true))
        | false =>
          refine (stop_at rfl).bind fun _ => Triple.pure fun h ha => ?_
          refine ⟨_, ha, .wrote d row (.ok false), hs, .inl ?_⟩
          simp [Delivery.called, SinkCall.isSaturation]

theorem writeRows_grows (huser : user.KeepsTo W) (hcall : Answers W call) (kind : RowKind)
    (n : Nat) : Grows (writeRows user call r kind n) :=
  (writeRows_at (g := fun _ => {}) (x := {})
    (d := { ofPass := false, idle := false, stage := .writing, saturated := true }) huser hcall
    kind n ⟨rfl, rfl, rfl, rfl⟩ rfl rfl fun _ => .inl rfl).grows

theorem writeBatch_at (huser : user.KeepsTo W) (hcall : Answers W call) (n : Nat)
    (hn : d.Clear) (hs : d.stage = .writing) (hd : d.decided = false) :
    Triple W (At W (g.set r { x with delivery := some d })) (writeBatch user call r n)
      fun result => Reaches W g r x d fun d' =>
        d'.Wrote (d'.IsDry .model ∧ d'.IsDry .error) result := by
  refine (writeRows_at huser hcall .model n hn hs hd RowKind.noConfusion).bind fun result => ?_
  cases result with
  | error e => exact Triple.pure fun h hP => hP.imp fun d' _ hends => hends
  | ok u =>
    refine Triple.reaching (writeRows_grows huser hcall .error n) fun d₁ hw₁ hends₁ => ?_
    refine (writeRows_at huser hcall .error n hw₁.clear hends₁.1 (hw₁.decided.trans hd)
      fun _ => hends₁.2).post fun result h hP => ?_
    refine (hP.imp fun d₂ hw₂ hends₂ => ?_).after hw₁
    cases result with
    | error e => exact hends₂
    | ok u =>
      refine ⟨hends₂.1, ?_⟩
      rcases hends₁.2 with hsaturated | hdry
      · exact .inl (hw₂.saturated hsaturated)
      · exact hends₂.2.imp id fun hdry' => ⟨hw₂.dry hdry, hdry'⟩

def Ended (W : World κ) (g : Hands κ) (r : RequestId) (x : Hand κ) (ofPass : Bool)
    (h : Host κ σ) : Prop :=
  ∃ d, At W (g.set r { x with delivery := some d }) h ∧ d.ofPass = ofPass ∧ d.Done

theorem closeIfFinished_at (huser : user.KeepsTo W) (hcall : Answers W call) (hd : d.Live)
    (hs : d.stage = .flushed)
    (hrows : d.saturated = true ∨ (d.IsDry .model ∧ d.IsDry .error)) :
    Triple W (At W (g.set r { x with delivery := some d })) (closeIfFinished user call r)
      fun _ => Ended W g r x d.ofPass := by
  refine Triple.request.bind fun q => ?_
  by_cases hp : q.pending = 0
  · rw [if_pos hp]
    have hclosing : { d with decided := true, closing := true }.Expects .close :=
      ⟨hd.clear.row, hd.clear.asked, rfl, hd.clear.halting, hs⟩
    have hclose : Triple (σ := σ) W
        (fun h => At W (g.set r { x with delivery := some d }) h ∧ h.requests[r.index]? = some q)
        (modifyRequest r fun req => { req with closed := true })
        fun _ h => At W
          (g.set r { x with delivery := some { d with decided := true, closing := true } }) h ∧
            (SinkCall.close = .close → ∀ q, h.requests[r.index]? = some q → q.pending = 0) := by
      refine Triple.modifyRequest fun h hP => ⟨hP.1.update hP.2
        (.flushing (.close hP.2 rfl hd.clear hs hd.idle hd.decided hp)), fun _ q' hq' => ?_⟩
      cases (requests_update_self hP.2 _).symm.trans hq'
      exact hp
    refine hclose.bind fun _ => (callDestination_at huser hcall hclosing).bind fun answer => ?_
    have hdone : ({ d with decided := true, closing := true }.called .close answer).Done :=
      done_of_close hrows answer
    cases answer with
    | error e => exact Triple.pure fun h ha => ⟨_, ha, rfl, hdone⟩
    | ok w => exact Triple.pure fun h ha => ⟨_, ha, rfl, hdone⟩
  · rw [if_neg hp]
    refine Triple.pure fun h hP => ⟨{ d with decided := true, stage := .over }, ?_, rfl, ?_⟩
    · exact hP.1.ghost (.flushing (.unfinished hP.2 rfl hd.clear hs hp))
    · exact ⟨⟨hd.clear.row, hd.clear.asked, hd.clear.closing, hd.clear.halting⟩,
        .inr ⟨rfl, .inr ⟨rfl, hrows⟩⟩⟩

theorem endBatch_at (huser : user.KeepsTo W) (hcall : Answers W call) (hd : d.Live)
    {written : Except RenderError Unit}
    (hw : d.Wrote (d.IsDry .model ∧ d.IsDry .error) written) :
    Triple W (At W (g.set r { x with delivery := some d })) (endBatch user call r written)
      fun _ => Ended W g r x d.ofPass := by
  have hstage : d.stage = .writing ∨ d.stage = .spoiled := by
    cases written with
    | error e => exact .inr hw.1
    | ok u => exact .inl hw.1
  refine (callDestination_at_of_ne (c := .complete) huser hcall ⟨hd.clear, hstage⟩
    SinkCall.noConfusion).bind fun completed => ?_
  have hd₁ : (d.called .complete completed).Live := hd.called rfl
  cases written with
  | error e => exact Triple.pure fun h ha => ⟨_, ha, rfl, done_of_spoiled hw.1 hw.2 completed⟩
  | ok u =>
    obtain ⟨hs, hrows⟩ := hw
    cases completed with
    | error e => exact Triple.pure fun h ha => ⟨_, ha, rfl, done_of_error d fun _ hc => nomatch hc⟩
    | ok w =>
      have hs₁ : (d.called .complete (.ok w)).stage = .completed := by
        simp [Delivery.called, BatchStage.after, hs]
      refine (callDestination_at_of_ne (c := .flush) huser hcall ⟨hd₁.clear, hs₁⟩
        SinkCall.noConfusion).bind fun flushed => ?_
      cases flushed with
      | error e =>
        exact Triple.pure fun h ha => ⟨_, ha, rfl, done_of_error _ fun _ hc => nomatch hc⟩
      | ok w =>
        refine closeIfFinished_at huser hcall (hd₁.called rfl) rfl (hrows.imp ?_ id)
        intro hsaturated
        simp [Delivery.called, hsaturated]

theorem endBatch_grows (huser : user.KeepsTo W) (hcall : Answers W call)
    (written : Except RenderError Unit) : Grows (endBatch user call r written) := by
  have hgrows : ∀ d : Delivery, d.Live → d.Wrote (d.IsDry .model ∧ d.IsDry .error) written →
      Grows (endBatch user call r written) := fun d hd hw =>
    (endBatch_at (g := fun _ => {}) (x := {}) huser hcall hd hw).grows
  cases written with
  | error e =>
    exact hgrows { ofPass := false, idle := false, stage := .spoiled, failed := true }
      ⟨⟨rfl, rfl, rfl, rfl⟩, rfl, rfl⟩ ⟨rfl, rfl⟩
  | ok u =>
    exact hgrows { ofPass := false, idle := false, stage := .writing, saturated := true }
      ⟨⟨rfl, rfl, rfl, rfl⟩, rfl, rfl⟩ ⟨rfl, .inl rfl⟩

theorem batch_at (huser : user.KeepsTo W) (hcall : Answers W call) (n : Nat)
    (hd : d.Live) (hs : d.stage = .fresh) :
    Triple W (At W (g.set r { x with delivery := some d })) (batch user call r n)
      fun _ => Ended W g r x d.ofPass := by
  refine (callDestination_at_of_ne (c := .begin) huser hcall ⟨hd.clear, hs, hd.idle⟩
    SinkCall.noConfusion).bind fun begun => ?_
  cases begun with
  | error e => exact Triple.pure fun h ha => ⟨_, ha, rfl, done_of_error d fun _ hc => nomatch hc⟩
  | ok w =>
    have hbegun : (d.called .begin (.ok w)).Live := hd.called rfl
    have hwrite := writeBatch_at (g := g) (r := r) (x := x) (d := d.called .begin (.ok w)) huser
      hcall n hbegun.clear rfl hbegun.decided
    refine hwrite.bind fun written => ?_
    refine Triple.reaching (endBatch_grows huser hcall written) fun d' hw hends => ?_
    exact (endBatch_at huser hcall (hbegun.after hw) hends).post fun _ h hP => hw.ofPass ▸ hP

theorem batch_grows (huser : user.KeepsTo W) (hcall : Answers W call) (n : Nat) :
    Grows (batch user call r n) :=
  (batch_at (g := fun _ => {}) (x := {}) (d := { ofPass := false, idle := false }) huser hcall n
    ⟨⟨rfl, rfl, rfl, rfl⟩, rfl, rfl⟩ rfl).grows

/-- A flush that is not under way yet is opened and shut; one that is under way is left alone. -/
theorem flush_at {P : Host κ σ → Prop} {z : Hand κ} (huser : user.KeepsTo W)
    (hcall : Answers W call) (n : Nat) (ofPass : Bool)
    (hopen : ∀ q, q.flushing = false → Triple W (fun h => P h ∧ h.requests[r.index]? = some q)
      (modifyRequest r fun req => { req with flushing := true }) fun _ =>
        At W (g.set r { x with delivery := some { ofPass := ofPass, idle := q.closed } }))
    (hshut : ∀ d v q, d.ofPass = ofPass → d.Done → v.request = some q →
      Flushing r { x with delivery := some d } v z
        { v with request := some { q with flushing := false } }) :
    Triple W P (flush user call r n) fun _ h =>
      At W (g.set r z) h ∨ (P h ∧ ∃ q, h.requests[r.index]? = some q ∧ q.flushing = true) := by
  have hend : ∀ result : Except RenderError Unit,
      Triple (σ := σ) W (Ended W g r x ofPass)
        (do modifyRequest r fun req => { req with flushing := false }
            pure result)
        fun _ h => At W (g.set r z) h ∨
          (P h ∧ ∃ q, h.requests[r.index]? = some q ∧ q.flushing = true) := by
    intro result
    refine Triple.bind (Q := fun _ => At W (g.set r z)) (Triple.modifyRequest fun h hP => ?_)
      fun _ => Triple.pure fun h ha => .inl ha
    obtain ⟨d, ha, hofPass, hdone⟩ := hP
    obtain ⟨q, hq⟩ := ha.exists_of_busy (.inr (.inr (by simp)))
    exact ha.update hq (.flushing (hshut d _ q hofPass hdone hq))
  refine Triple.request.bind fun q => ?_
  cases hf : q.flushing with
  | true => exact Triple.pure fun h hP => .inr ⟨hP.1, q, hP.2, hf⟩
  | false =>
    have hopened : Triple (σ := σ) W (fun h => P h ∧ h.requests[r.index]? = some q)
        (modifyRequest r fun req => { req with flushing := true })
        fun _ h =>
          At W (g.set r { x with delivery := some { ofPass := ofPass, idle := q.closed } }) h ∧
            h.requests[r.index]? = some { q with flushing := true } := by
      intro h a h' hrun
      obtain ⟨hl, hat⟩ := hopen q hf hrun
      cases hrun
      exact ⟨hl, fun hw hP => ⟨hat hw hP, requests_update_self hP.2 _⟩⟩
    refine hopened.bind fun _ => Triple.request.bind fun q' => ?_
    cases hc : q'.closed with
    | true =>
      refine (hend (.ok ())).pre fun h hP => ⟨_, hP.1.1, rfl, ⟨rfl, rfl, rfl, rfl⟩, .inl ⟨?_, rfl⟩⟩
      cases hP.1.2.symm.trans hP.2
      exact hc
    | false =>
      refine Triple.bind ?_ hend
      refine Triple.assuming (batch_grows huser hcall n) (φ := q.closed = false) (fun h hP => ?_)
        fun hidle => ?_
      · cases hP.1.2.symm.trans hP.2
        exact hc
      · exact (batch_at (d := { ofPass := ofPass, idle := q.closed }) huser hcall n
          ⟨⟨rfl, rfl, rfl, rfl⟩, hidle, rfl⟩ rfl).pre fun h hP => hP.1.1

theorem flush_grows (huser : user.KeepsTo W) (hcall : Answers W call) (n : Nat) :
    Grows (flush user call r n) :=
  (flush_at (g := fun _ => {}) (x := {}) (z := { fresh := 1 }) (P := fun _ => False) huser hcall n false
    (fun _ _ => Triple.modifyRequest fun _ hP => hP.1.elim)
    fun d _ _ ho hdone hq =>
      .shutOwn (g := { delivery := some d }) hq rfl hdone ho).grows

/-- While a flush is under way, a further one does nothing. -/
theorem flush_again_at {P : Host κ σ → Prop} (huser : user.KeepsTo W) (hcall : Answers W call)
    (n : Nat) (hP : ∀ h, P h → ∃ q, h.requests[r.index]? = some q ∧ q.flushing = true) :
    Triple W P (flush user call r n) fun _ => P := by
  intro h a h' hrun
  refine ⟨flush_grows huser hcall n hrun, fun hw hp => ?_⟩
  obtain ⟨q, hq, hf⟩ := hP h hp
  rw [flush, run_bind, run_request hq, Option.bind_some, if_pos hf] at hrun
  cases hrun
  exact hp

theorem At.flushing {h : Host κ σ} (ha : At W (g.set r x) h) (hx : x.delivery ≠ none) :
    ∃ q, h.requests[r.index]? = some q ∧ q.flushing = true := by
  obtain ⟨q, hq⟩ := ha.exists_of_busy (.inr (.inr hx))
  exact ⟨q, hq, ((ha r).coherent.flushing q hq).mpr (by rwa [Hands.set_self])⟩

/-- The flow of a request has just been resumed, and its flush comes next. -/
def Resumed (W : World κ) (g : Hands κ) (r : RequestId) (x : Hand κ) (h : Host κ σ) : Prop :=
  ∃ h₀ q, At W (g.set r x) h₀ ∧ h₀.requests[r.index]? = some q ∧
    h = (h₀.tell (.flowed r q.flushing)).update r fun req => { req with flowing := true }

theorem Resumed.request {h : Host κ σ} (hr : Resumed W g r x h) :
    ∃ (h₀ : Host κ σ) (q : Request κ), At W (g.set r x) h₀ ∧ h₀.requests[r.index]? = some q ∧
      h.requests[r.index]? = some { q with flowing := true } ∧
      h.view r = { h₀.view r with
        request := some { q with flowing := true }
        log := .flowed r q.flushing :: (h₀.view r).log } ∧
      ∀ r' ≠ r, h.view r' = h₀.view r' := by
  obtain ⟨h₀, q, ha, hq, rfl⟩ := hr
  have hq' : (h₀.tell (.flowed r q.flushing)).requests[r.index]? = some q := hq
  refine ⟨h₀, q, ha, hq, requests_update_self hq' _, ?_, fun r' hr' => ?_⟩
  · rw [view_update_self hq', view_tell_self rfl]
  · exact (view_update_ne hr' _).trans (view_tell_ne rfl hr')

theorem Resumed.again {h : Host κ σ} (hr : Resumed W g r x h)
    (hf : ∃ q, h.requests[r.index]? = some q ∧ q.flushing = true) : At W (g.set r x) h := by
  obtain ⟨h₀, q, ha, hq, hq', hself, hne⟩ := hr.request
  obtain ⟨q', hq'', hf⟩ := hf
  cases hq'.symm.trans hq''
  have hf : q.flushing = true := hf
  refine ha.turn (.visit ?_) hne
  rw [hself, show Event.flowed r q.flushing = .flowed r true by rw [hf]]
  exact .flowAgain (v := h₀.view r) hq hf

theorem flushOwn_at (huser : user.KeepsTo W) (hcall : Answers W call) (n : Nat) :
    Triple W (Resumed W g r { x with fresh := x.fresh + 1 }) (flush user call r n) fun _ =>
      At W (g.set r { x with fresh := x.fresh + 1 }) := by
  by_cases hx : x.delivery = none
  · refine (flush_at (x := x) (z := { x with fresh := x.fresh + 1 }) huser hcall n false
      (fun q hf => Triple.modifyRequest fun h hP => ?_) fun d v q ho hd hq => ?_).post
      fun _ h hP => hP.elim id fun hP => hP.1.again hP.2
    · obtain ⟨h₀, q₀, ha, hq, hq', hself, hne⟩ := hP.1.request
      cases hq'.symm.trans hP.2
      have hf : q₀.flushing = false := hf
      refine ha.turn (.flushing ?_) fun r' hr => (view_update_ne hr _).trans (hne r' hr)
      rw [view_update_self hP.2, hself, show Event.flowed r q₀.flushing = .flowed r false by rw [hf]]
      exact .openOwn (v := h₀.view r) (q := q₀) (g := { x with fresh := x.fresh + 1 }) hq hf
        (Nat.succ_pos _)
    · have := Flushing.shutOwn (r := r) (g := { x with delivery := some d }) hq rfl hd ho
      rwa [← hx] at this
  · refine (flush_again_at huser hcall n fun h hP => ?_).post fun _ h hP => hP.again ?_
    all_goals
      obtain ⟨h₀, q, ha, hq, hq', -⟩ := hP.request
      obtain ⟨q', hq'', hf⟩ := ha.flushing hx
      cases hq.symm.trans hq''
      exact ⟨_, hq', hf⟩

/-- The flush at the end of a pass ends the pass with it. -/
theorem flushLast_at {b : PassState κ} {l : List (PassState κ)} (huser : user.KeepsTo W)
    (hcall : Answers W call) (n : Nat) (hs : b.batch = []) (hb : b.attempt = none)
    (hcur : b.current = none) :
    Triple W
      (fun h => At W (g.set r { x with passes := b :: l }) h ∧
        ∃ q, h.requests[r.index]? = some q ∧ q.flowing = true)
      (flush user call r n) fun _ h =>
      At W (g.set r { x with fresh := x.fresh + 1, passes := l }) h ∨
        (At W (g.set r { x with passes := b :: l }) h ∧
          ∃ q, h.requests[r.index]? = some q ∧ q.flushing = true) := by
  by_cases hx : x.delivery = none
  · refine (flush_at (x := { x with passes := b :: l }) huser hcall n true
      (fun q hf => Triple.modifyRequest fun h hP => ?_) fun d v q ho hd hq => ?_).post
      fun _ h hP => hP.imp_right fun hP => ⟨hP.1.1, hP.2⟩
    · obtain ⟨⟨ha, q', hq', hflowing⟩, hq⟩ := hP
      cases hq'.symm.trans hq
      exact ha.update hq
        (.flushing (.openLast (g := { x with passes := b :: l }) hq hf rfl hs hb hflowing hcur))
    · have := Flushing.shutLast (r := r) (g := { x with passes := b :: l, delivery := some d })
        hq rfl hd ho rfl hs hb hcur
      rwa [← hx] at this
  · exact (flush_again_at huser hcall n fun h ha => ha.1.flushing hx).post
      fun _ h ha => .inr ⟨ha.1, ha.1.flushing hx⟩

end Host
end TreeStream

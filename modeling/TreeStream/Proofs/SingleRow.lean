import TreeStream.Proofs.Handover
import TreeStream.Proofs.Payloads

/-!
# A request over plain data

Plain data is serialized without any effect, so its request has one row, and the first pass writes
it and closes the destination. Whatever the destination does meanwhile, and whatever is left to run
after, finds the request done: its segments are completed, and it is being flushed or closed.
-/

namespace TreeStream

variable {κ σ : Type}

namespace Event

/-- Events of the request that tell of ids, of warnings and of answers of the destination. -/
def isOutput (r : RequestId) : Event → Bool
  | issued r' _ => r' = r
  | warning r' _ => r' = r
  | called r' _ _ => r' = r
  | _ => false

theorem IsBackground.isOutput {r : RequestId} {e : Event} (he : e.IsBackground r) :
    e.isOutput r = false := by
  cases e with
  | issued r' id => exact decide_eq_false fun h => he (congrArg some h)
  | warning r' text => exact decide_eq_false fun h => he (congrArg some h)
  | called r' c answer => exact decide_eq_false fun h => he (congrArg some h)
  | _ => rfl

def Fails (r : RequestId) (e : Event) : Prop := ∃ c error, e = .called r c (.error error)

end Event

structure Request.SameOutput (q q' : Request κ) : Prop where
  segments : q'.segments = q.segments
  rows : ∀ kind, q'.rows kind = q.rows kind
  pending : q'.pending = q.pending
  closed : q'.closed = q.closed
  flushing : q'.flushing = q.flushing

theorem Request.SameOutput.of_eq {q q' : Request κ} (hs : q'.segments = q.segments)
    (hm : q'.modelRows = q.modelRows) (he : q'.errorRows = q.errorRows)
    (hp : q'.pending = q.pending) (hc : q'.closed = q.closed) (hf : q'.flushing = q.flushing) :
    q.SameOutput q' :=
  ⟨hs, fun kind => by cases kind <;> assumption, hp, hc, hf⟩

theorem Request.SameOutput.trans {q₁ q₂ q₃ : Request κ} (h : q₁.SameOutput q₂)
    (h' : q₂.SameOutput q₃) : q₁.SameOutput q₃ :=
  ⟨h'.segments.trans h.segments, fun kind => (h'.rows kind).trans (h.rows kind),
    h'.pending.trans h.pending, h'.closed.trans h.closed, h'.flushing.trans h.flushing⟩

/-- No segment is left to try, and no further flush does anything. -/
structure Request.IsDone (q : Request κ) : Prop where
  segments : ∀ seg ∈ q.segments, seg.completed = true
  flushed : q.flushing = true ∨ q.closed = true

namespace Host

variable {user : UserCode κ σ} {r : RequestId} {h h' h₁ h₂ : Host κ σ} {m n : Nat} {q : Request κ}

/-! ## Requests that are done -/

def Kept.output (r : RequestId) : Kept κ r where
  holds := Request.IsDone
  same := Request.SameOutput
  tells e := e.isOutput r = true
  refl _ := ⟨rfl, fun _ => rfl, rfl, rfl, rfl⟩
  trans := .trans
  stays h hdone := ⟨h.segments ▸ hdone.segments, by rw [h.flushing, h.closed]; exact hdone.flushed⟩
  background he htold := absurd htold (by simp [he.isOutput])
  adjust hf q := by
    obtain ⟨sink, fatal, held, pinged, he, -⟩ := hf q
    rw [he]
    exact ⟨rfl, fun kind => by cases kind <;> rfl, rfl, rfl, rfl⟩

theorem flush_done : Respects (Keeps (Kept.output r)) (flush user (perform user m) r n) := by
  intro h result h' hrun q hq hdone
  cases hflushing : q.flushing with
  | true =>
    rw [flush, run_bind, run_request hq, Option.bind_some, if_pos hflushing] at hrun
    cases hrun
    exact ⟨.of_eq rfl, q, hq, (Kept.output r).refl q⟩
  | false =>
    have hclosed : q.closed = true := hdone.flushed.resolve_left (by simp [hflushing])
    rw [run_flush_closed hq hflushing hclosed] at hrun
    cases hrun
    exact ⟨.of_eq rfl, _, requests_update_self (requests_update_self hq _) _, rfl,
      fun kind => by cases kind <;> rfl, rfl, rfl, hflushing.symm⟩

theorem retry_completed {s : SegmentId} {a : Unit} (hq : h.requests[r.index]? = some q)
    (hcompleted : ∀ seg ∈ q.segments, seg.completed = true)
    (hrun : retry user (perform user m) r s n h = some (a, h')) :
    h' = (h.tell (.retried r s)).tell (.left r s) := by
  have hq' : (h.tell (.retried r s)).requests[r.index]? = some q := hq
  rw [retry, run_bind, run_record, Option.bind_some, tryOpen, bind_assoc, run_bind] at hrun
  obtain ⟨⟨seg, h₁⟩, hseg, hrest⟩ := Option.bind_eq_some_iff.mp hrun
  obtain ⟨q', hq'', hs, rfl⟩ := segment_of_run hseg
  cases hq'.symm.trans hq''
  have hcompleted : seg.completed = true := hcompleted seg (Array.mem_of_getElem? hs)
  simp only [hcompleted, if_true] at hrest
  cases hrest
  rfl

theorem pass_done : Respects (Keeps (Kept.output r)) (pass user (perform user m) r n) := by
  have F : Surrounds r (Keeps (κ := κ) (σ := σ) (Kept.output r)) := Keeps.surrounds _
  refine F.passOf (fun _ => Keeps.record (by simp [Kept.output, Event.isOutput]))
    (F.bind F.request fun _ => F.bind (Keeps.modify fun q _ => ?_) fun _ => F.pure _)
    (fun s h a h' hrun q hq hdone => ?_) (F.bind F.request fun q => ?_)
  · exact ⟨rfl, fun kind => by cases kind <;> rfl, rfl, rfl, rfl⟩
  · rw [retry_completed hq hdone.segments hrun]
    refine ⟨.trans (.tell ?_) (.tell ?_), q, hq, (Kept.output r).refl q⟩ <;>
      simp [Kept.output, Event.isOutput]
  · split
    · exact flush_done
    · exact F.pure _

/-- Whatever is done, a request that is done puts out nothing more. -/
theorem frames_output (user : UserCode κ σ) (r : RequestId) :
    Frames user r (Keeps (Kept.output r)) := by
  have F : Surrounds r (Keeps (κ := κ) (σ := σ) (Kept.output r)) := Keeps.surrounds _
  have hvisit : ∀ {α : Type} {m : HostM κ σ α}, Respects (Keeps (Kept.output r)) m →
      Respects (Keeps (Kept.output r)) (running r m) :=
    F.running fun _ _ => .update fun _ _ => ⟨rfl, fun kind => by cases kind <;> rfl, rfl, rfl, rfl⟩
  have hflow : Respects (Keeps (Kept.output r))
      (modifyRequest r fun req => { req with flowing := true } : HostM κ σ Unit) :=
    Keeps.modify fun _ _ => ⟨rfl, fun kind => by cases kind <;> rfl, rfl, rfl, rfl⟩
  have hrecord : ∀ {e : Event}, e.isOutput r = false →
      Respects (Keeps (Kept.output r)) (record e : HostM κ σ Unit) :=
    fun he => Keeps.record fun htold => absurd htold (by simp [Kept.output, he])
  exact
    { F with
      visit := hvisit
      start := F.bind hflow fun _ => F.bind (hrecord rfl) fun _ => F.schedulePass
      flow := fun n _ => hvisit (F.bind F.request fun _ => F.bind (hrecord rfl) fun _ =>
        F.bind hflow fun _ => flush_done)
      pass := fun n α k _ hk => hvisit (F.bind pass_done hk) }

/-- What a request has put out, newest first. -/
def outputs (r : RequestId) (h : Host κ σ) : List Event := h.journal.filter (Event.isOutput r)

theorem outputs_of_silent (hs : Silent (Kept.output (κ := κ) r).tells h h') :
    h'.outputs r = h.outputs r := by
  obtain ⟨events, hj, hquiet⟩ := hs
  rw [outputs, hj, List.filter_append, List.filter_eq_nil_iff.mpr hquiet, List.nil_append, outputs]

/-! ## The flush of the one row -/

theorem outputs_called {c : SinkCall} {pending : Nat} {answer : Except RenderError Bool}
    (hs : Silent (Kept.output (κ := κ) r).tells (h.tell (.calling r c pending)) h₁) :
    (h₁.tell (.called r c answer)).outputs r = .called r c answer :: h.outputs r := by
  have htold : (h₁.tell (.called r c answer)).outputs r = .called r c answer :: h₁.outputs r := by
    simp [outputs, tell, Event.isOutput]
  have hcalling : (h.tell (.calling r c pending)).outputs r = h.outputs r := by
    simp [outputs, tell, Event.isOutput]
  rw [htold, outputs_of_silent hs, hcalling]

/-- The destination is asked something, and does not fail. -/
theorem callDestination_sound {R : Host κ σ → Host κ σ → Prop} (F : Frames user r R) {α : Type}
    {k : Except RenderError Bool → HostM κ σ α} {a : α} {c : SinkCall}
    (hq : h.requests[r.index]? = some q)
    (hrun : (callDestination user (perform user m) r c >>= k) h = some (a, h'))
    (hs : Silent (Event.Fails r) h h') (hk : ∀ answer, Respects Extends (k answer)) :
    ∃ b h₁, k (.ok b) (h₁.tell (.called r c (.ok b))) = some (a, h') ∧
      R (h.tell (.calling r c q.pending)) h₁ ∧
      Silent (Event.Fails r) (h₁.tell (.called r c (.ok b))) h' := by
  obtain ⟨⟨answer, h₀⟩, hcall, hrest⟩ := Option.bind_eq_some_iff.mp hrun
  obtain ⟨q₀, h₁, hq₀, hmeanwhile, hgrown, rfl⟩ := callDestination_of_run F hcall
  cases hq.symm.trans hq₀
  have hbefore : h.Extends h₁ := (Extends.tell h (.calling r c q.pending)).trans hgrown
  obtain ⟨-, hs'⟩ := hs.split hbefore ((Extends.tell h₁ _).trans (hk answer hrest))
  obtain ⟨⟨events, hj, hsound⟩, hs''⟩ := hs'.split (Extends.tell h₁ _) (hk answer hrest)
  cases answer with
  | error e =>
    have hj : [.called r c (.error e)] ++ h₁.journal = events ++ h₁.journal := hj
    obtain rfl : [.called r c (.error e)] = events := List.append_cancel_right hj
    exact absurd ⟨c, e, rfl⟩ (hsound _ (List.mem_singleton_self _))
  | ok b => exact ⟨b, h₁, hrest, hmeanwhile, hs''⟩

theorem callDestination_done {α : Type} {k : Except RenderError Bool → HostM κ σ α} {a : α}
    {c : SinkCall} (hq : h.requests[r.index]? = some q) (hdone : q.IsDone)
    (hrun : (callDestination user (perform user m) r c >>= k) h = some (a, h'))
    (hs : Silent (Event.Fails r) h h') (hk : ∀ answer, Respects Extends (k answer)) :
    ∃ b h₁ q₁, k (.ok b) h₁ = some (a, h') ∧ Silent (Event.Fails r) h₁ h' ∧
      h₁.outputs r = .called r c (.ok b) :: h.outputs r ∧ h₁.requests[r.index]? = some q₁ ∧
      q.SameOutput q₁ := by
  obtain ⟨b, h₁, hrest, hmeanwhile, hs'⟩ :=
    callDestination_sound (frames_output user r) hq hrun hs hk
  obtain ⟨hsilent, q₁, hq₁, hsame⟩ := hmeanwhile q hq hdone
  exact ⟨b, _, q₁, hrest, hs', outputs_called hsilent, hq₁, hsame⟩

theorem writeRows_none {kind : RowKind} {result : Except RenderError Unit}
    (hq : h.requests[r.index]? = some q) (hrows : q.rows kind = [])
    (hrun : writeRows user (perform user m) r kind n h = some (result, h')) :
    result = .ok () ∧ h' = h := by
  cases n with
  | zero => cases hrun
  | succ n =>
    obtain ⟨⟨taken, h₀⟩, htake, hrest⟩ := Option.bind_eq_some_iff.mp hrun
    obtain ⟨-, rfl, rfl⟩ | ⟨row, rest, hcons, -, -⟩ := takeRow_of_run hq htake
    · cases hrest
      exact ⟨rfl, rfl⟩
    · cases hrows.symm.trans hcons

/-- The only value row is handed over, whether or not more would be welcome. -/
theorem writeRows_one {row : Row} {result : Except RenderError Unit}
    (hq : h.requests[r.index]? = some q) (hdone : q.IsDone) (hrows : q.modelRows = [row])
    (hrun : writeRows user (perform user m) r .model n h = some (result, h'))
    (hs : Silent (Event.Fails r) h h') :
    result = .ok () ∧ ∃ b q', h'.outputs r = .called r (.write row) (.ok b) :: h.outputs r ∧
      h'.requests[r.index]? = some q' ∧
      { q with modelRows := [], pending := q.pending - 1 }.SameOutput q' := by
  have F : Frames user r Extends := frames_extends user r
  have hd : RespectsFlush Extends r := respectsFlush_extends (κ := κ) (σ := σ) r
  cases n with
  | zero => cases hrun
  | succ n =>
    obtain ⟨⟨taken, h₀⟩, htake, hrest⟩ := Option.bind_eq_some_iff.mp hrun
    obtain ⟨hnone, -, -⟩ | ⟨row', rest, hcons, rfl, rfl⟩ := takeRow_of_run hq htake
    · cases hrows.symm.trans hnone
    cases hrows.symm.trans hcons
    have hq₀ := requests_update_self hq fun req =>
      { req.setRows .model [] with pending := req.pending - 1 }
    obtain ⟨b, h₁, q₁, hrest, hs₁, hout, hq₁, hsame⟩ :=
      callDestination_done hq₀ ⟨hdone.segments, hdone.flushed⟩ hrest hs
        (F.afterWrite hd (F.writeRows (F.perform m) hd .model n))
    cases b with
    | false =>
      cases hrest
      exact ⟨rfl, false, _, hout, requests_update_self hq₁ _, hsame.segments,
        fun kind => by
          cases kind
          · exact hsame.rows .model
          · exact hsame.rows .error,
        hsame.pending, hsame.closed, hsame.flushing⟩
    | true =>
      obtain ⟨rfl, rfl⟩ := writeRows_none hq₁ (hsame.rows .model) hrest
      exact ⟨rfl, true, q₁, hout, hq₁, hsame⟩

/-- A batch after which nothing is pending ends with the close of the destination. -/
theorem endBatch_last {result : Except RenderError Unit} (hq : h.requests[r.index]? = some q)
    (hdone : q.IsDone) (hpending : q.pending = 0)
    (hrun : endBatch user (perform user m) r (.ok ()) h = some (result, h'))
    (hs : Silent (Event.Fails r) h h') :
    result = .ok () ∧ ∃ completed flushed closed q', h'.outputs r =
        [.called r .close (.ok closed), .called r .flush (.ok flushed),
          .called r .complete (.ok completed)] ++ h.outputs r ∧
      h'.requests[r.index]? = some q' ∧ { q with closed := true }.SameOutput q' := by
  have F : Frames user r Extends := frames_extends user r
  have hd : RespectsFlush Extends r := respectsFlush_extends (κ := κ) (σ := σ) r
  obtain ⟨completed, h₁, q₁, hrest, hs, hout₁, hq₁, hsame₁⟩ :=
    callDestination_done hq hdone hrun hs (F.afterComplete (F.perform m) hd (.ok ()))
  have hdone₁ : q₁.IsDone := (Kept.output r).stays hsame₁ hdone
  obtain ⟨flushed, h₂, q₂, hrest, hs, hout₂, hq₂, hsame₂⟩ :=
    callDestination_done hq₁ hdone₁ hrest hs (F.afterFlush (F.perform m) hd)
  have hdone₂ : q₂.IsDone := (Kept.output r).stays hsame₂ hdone₁
  have hnone : q₂.pending = 0 := (hsame₂.pending.trans hsame₁.pending).trans hpending
  have hrest : closeIfFinished user (perform user m) r h₂ = some (result, h') := hrest
  rw [closeIfFinished, run_bind, run_request hq₂, Option.bind_some, if_pos hnone, run_bind,
    run_modifyRequest, Option.bind_some] at hrest
  obtain ⟨closed, h₃, q₃, hrest, -, hout₃, hq₃, hsame₃⟩ :=
    callDestination_done (requests_update_self hq₂ _) ⟨hdone₂.segments, .inr rfl⟩ hrest hs
      fun closed => by cases closed <;> exact F.toSurrounds.pure _
  cases hrest
  have hsame : q.SameOutput q₂ := hsame₁.trans hsame₂
  have hmarked : { q with closed := true }.SameOutput { q₂ with closed := true } :=
    ⟨hsame.segments, fun kind => by
      cases kind
      · exact hsame.rows .model
      · exact hsame.rows .error, hsame.pending, rfl, hsame.flushing⟩
  refine ⟨rfl, completed, flushed, closed, q₃, ?_, hq₃, hmarked.trans hsame₃⟩
  have hout₂ : (h₂.update r fun req => { req with closed := true }).outputs r =
      .called r .flush (.ok flushed) :: h₁.outputs r := hout₂
  rw [hout₃, hout₂, hout₁]
  rfl

/-- A request with one row has it written by a flush, and is closed then. -/
theorem flush_one {row : Row} {result : Except RenderError Unit}
    (hq : h.requests[r.index]? = some q) (hcompleted : ∀ seg ∈ q.segments, seg.completed = true)
    (hmodel : q.modelRows = [row]) (herror : q.errorRows = []) (hpending : q.pending = 1)
    (hidle : q.flushing = false) (hopen : q.closed = false)
    (hrun : flush user (perform user m) r n h = some (result, h'))
    (hs : Silent (Event.Fails r) h h') :
    result = .ok () ∧ ∃ begun written completed flushed closed q',
      h'.outputs r = [.called r .close (.ok closed), .called r .flush (.ok flushed),
        .called r .complete (.ok completed), .called r (.write row) (.ok written),
        .called r .begin (.ok begun)] ++ h.outputs r ∧
      h'.requests[r.index]? = some q' ∧ q'.IsDone ∧ q'.closed = true ∧ q'.pending = 0 ∧
      ∀ kind, q'.rows kind = [] := by
  have F : Frames user r Extends := frames_extends user r
  have hd : RespectsFlush Extends r := respectsFlush_extends (κ := κ) (σ := σ) r
  rw [run_flush hq hidle hopen] at hrun
  obtain ⟨⟨result', h₁⟩, hbatch, hend⟩ := Option.map_eq_some_iff.mp hrun
  cases hend
  have hs : Silent (Event.Fails r) (h.update r fun q => { q with flushing := true }) h₁ := hs
  obtain ⟨begun, h₂, q₂, hrest, hs, hout₂, hq₂, hsame₂⟩ :=
    callDestination_done (requests_update_self hq _) ⟨hcompleted, .inl rfl⟩ hbatch hs
      (F.afterBegin (F.perform m) hd n)
  have hdone₂ : q₂.IsDone := (Kept.output r).stays hsame₂ ⟨hcompleted, .inl rfl⟩
  obtain ⟨⟨written, h₄⟩, hwritten, hrest⟩ := Option.bind_eq_some_iff.mp hrest
  obtain ⟨hs₂, hs₄⟩ := hs.split (F.writeBatch (F.perform m) hd n hwritten)
    (F.endBatch (F.perform m) hd written hrest)
  obtain ⟨⟨written', h₃⟩, hvalues, herrors⟩ := Option.bind_eq_some_iff.mp hwritten
  have hmodel₂ : q₂.modelRows = [row] := (hsame₂.rows .model).trans hmodel
  have hlater : h₃.Extends h₄ := by
    rcases written' with e | ⟨⟩
    · cases herrors
      exact List.suffix_rfl
    · exact F.writeRows (F.perform m) hd .error n herrors
  obtain ⟨hs₂, -⟩ := hs₂.split (F.writeRows (F.perform m) hd .model n hvalues) hlater
  obtain ⟨rfl, welcome, q₃, hout₃, hq₃, hsame₃⟩ := writeRows_one hq₂ hdone₂ hmodel₂ hvalues hs₂
  have herror₃ : q₃.rows .error = [] :=
    (hsame₃.rows .error).trans ((hsame₂.rows .error).trans herror)
  obtain ⟨rfl, rfl⟩ := writeRows_none hq₃ herror₃ herrors
  have hdone₃ : q₃.IsDone := (Kept.output r).stays hsame₃ ⟨hdone₂.segments, hdone₂.flushed⟩
  have hpending₃ : q₃.pending = 0 := by
    rw [hsame₃.pending, hsame₂.pending, hpending]
  obtain ⟨rfl, completed, flushed, closed, q₄, hout₄, hq₄, hsame₄⟩ :=
    endBatch_last hq₃ hdone₃ hpending₃ hrest hs₄
  have hdone₄ : q₄.IsDone := (Kept.output r).stays hsame₄ ⟨hdone₃.segments, .inr rfl⟩
  refine ⟨rfl, begun, welcome, completed, flushed, closed, _, ?_, requests_update_self hq₄ _,
    ⟨hdone₄.segments, .inr hsame₄.closed⟩, hsame₄.closed, hsame₄.pending.trans hpending₃, ?_⟩
  · have hout₂ : h₂.outputs r = .called r .begin (.ok begun) :: h.outputs r := hout₂
    have hout₄ : (h₁.update r fun q => { q with flushing := false }).outputs r = _ := hout₄
    rw [hout₄, hout₃, hout₂]
    rfl
  · intro kind
    cases kind
    · exact (hsame₄.rows .model).trans (hsame₃.rows .model)
    · exact (hsame₄.rows .error).trans herror₃

end Host
end TreeStream

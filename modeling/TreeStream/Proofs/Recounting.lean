import TreeStream.Proofs.Accounting
import TreeStream.Proofs.Descents
import TreeStream.Proofs.Meanwhile

/-!
# What the journal recounts of user code

The journal tells when a segment is tried and when user code of the model runs, but not which. A
list of marks says which, and the journal recounts it if each mark has its event, in order, and the
user code of the mark was run in a host with just the journal up to that event.

While a pass of a request is under way, nothing but this pass tries its segments or runs user code
of its model, unless a nested pass begins. So what is told of a pass that is not nested is what the
pass itself does.
-/

namespace TreeStream

variable {κ σ : Type}

open Host

/-- A segment of the request is tried, or user code of its model runs. -/
def Event.IsCraft (r : RequestId) : Event → Prop
  | retried r' _ => r' = r
  | ran r' _ _ => r' = r
  | _ => False

theorem Event.IsBackground.not_isCraft {r : RequestId} {e : Event} (he : e.IsBackground r) :
    ¬ e.IsCraft r := by
  cases e with
  | retried r' s => exact fun h => he (congrArg some h)
  | ran r' step inPass => exact fun h => he (congrArg some h)
  | _ => exact id

/-- The step of user code that an effect takes. -/
def Deed.step? : Deed κ → Option UserStep
  | ⟨.render _ _ _, _⟩ => some .render
  | ⟨.load _, _⟩ => some .load
  | ⟨.toModel _, _⟩ => some .toModel
  | _ => none

/-- The user code of an effect leads from one host to the other and gives the reply. -/
def Deed.IsRun (user : UserCode κ σ) (n : Nat) (h h' : Host κ σ) : Deed κ → Prop
  | ⟨.render code props ref, reply⟩ =>
    (user.render code props ref).run (perform user n) h = some (reply, h')
  | ⟨.load code, reply⟩ => (user.load code).run (perform user n) h = some (reply, h')
  | ⟨.toModel code, reply⟩ => (user.toModel code).run (perform user n) h = some (reply, h')
  | _ => False

inductive Mark (κ : Type) where
  | tried (segment : SegmentId)
  | did (deed : Deed κ)

def Mark.ofDeeds (ds : List (Deed κ)) : List (Mark κ) :=
  (ds.filter fun d => d.step?.isSome).map .did

/-- The journal, newest first, tells of exactly these marks, oldest first. -/
inductive Recounts (user : UserCode κ σ) (r : RequestId) : List Event → List (Mark κ) → Prop
  | nil : Recounts user r [] []
  | other {e log marks} (he : ¬ e.IsCraft r) (h : Recounts user r log marks) :
    Recounts user r (e :: log) marks
  | tried {log marks} (s : SegmentId) (h : Recounts user r log marks) :
    Recounts user r (.retried r s :: log) (marks ++ [.tried s])
  | ran {log marks events d step inPass n} {h₁ h₂ : Host κ σ} (h : Recounts user r log marks)
    (hstep : d.step? = some step) (hj₁ : h₁.journal = .ran r step inPass :: log)
    (hrun : d.IsRun user n h₁ h₂) (hj₂ : h₂.journal = events ++ .ran r step inPass :: log)
    (hquiet : ∀ e ∈ events, ¬ e.IsCraft r) :
    Recounts user r (events ++ .ran r step inPass :: log) (marks ++ [.did d])

theorem Recounts.append {user : UserCode κ σ} {r : RequestId} {log events : List Event}
    {marks : List (Mark κ)} (h : Recounts user r log marks)
    (hquiet : ∀ e ∈ events, ¬ e.IsCraft r) : Recounts user r (events ++ log) marks := by
  induction events with
  | nil => exact h
  | cons e events ih =>
    exact .other (hquiet e List.mem_cons_self)
      (ih fun e' he => hquiet e' (List.mem_cons_of_mem e he))

theorem Recounts.silent {user : UserCode κ σ} {r : RequestId} {h h' : Host κ σ}
    {marks : List (Mark κ)} (hm : Recounts user r h.journal marks)
    (hsilent : Silent (Event.IsCraft r) h h') : Recounts user r h'.journal marks := by
  obtain ⟨events, hj, hquiet⟩ := hsilent
  rw [hj]
  exact hm.append hquiet

theorem Mark.ofDeeds_append (ds ds' : List (Deed κ)) :
    ofDeeds (ds ++ ds') = ofDeeds ds ++ ofDeeds ds' := by
  simp [ofDeeds]

/-- Where a segment stands: at its query, or nowhere if it is completed. -/
def Segment.stand (seg : Segment κ) : Option (Query κ) :=
  if seg.completed then none else some seg.query

def Request.stands (q : Request κ) : List (Option (Query κ)) := q.segments.toList.map Segment.stand

namespace Host

variable {user : UserCode κ σ} {r : RequestId} {h h' h₁ : Host κ σ} {n : Nat} {q : Request κ}
  {ds ds' : List (Deed κ)} {e : Event}

theorem Unnested.of_extends (hu : h'.Unnested r) (hgrown : h.Extends h') : h.Unnested r :=
  fun hmem => hu (hgrown.subset hmem)

/-! ## While a call on a request is under way -/

/-- While a call on the request is under way and no nested pass begins, none of its segments is
touched and no user code of its model runs. -/
def Idle (r : RequestId) (h h' : Host κ σ) : Prop :=
  h.Extends h' ∧ ∀ q, h.requests[r.index]? = some q → 0 < q.running → h'.Unnested r →
    Silent (Event.IsCraft r) h h' ∧ ∃ q', h'.requests[r.index]? = some q' ∧
      q'.running = q.running ∧ q'.segments = q.segments

theorem Idle.tell (he : ¬ Event.IsCraft r e) : Idle r h (h.tell e) :=
  ⟨.tell h e, fun q hq _ _ => ⟨.tell he, q, hq, rfl, rfl⟩⟩

theorem Idle.update {f : Request κ → Request κ}
    (hf : ∀ q, (f q).running = q.running ∧ (f q).segments = q.segments) :
    Idle r h (h.update r f) :=
  ⟨List.suffix_rfl, fun q hq _ _ =>
    ⟨.of_eq rfl, f q, requests_update_self hq f, (hf q).1, (hf q).2⟩⟩

theorem surrounds_idle (r : RequestId) : Surrounds r (Idle (κ := κ) (σ := σ) r) where
  refl h := ⟨List.suffix_rfl, fun q hq _ _ => ⟨.of_eq rfl, q, hq, rfl, rfl⟩⟩
  trans := by
    rintro h₁ h₂ h₃ ⟨hgrown, hidle⟩ ⟨hgrown', hidle'⟩
    refine ⟨hgrown.trans hgrown', fun q hq hrunning hu => ?_⟩
    obtain ⟨hsilent, q', hq', hrunning', hsegments'⟩ :=
      hidle q hq hrunning (hu.of_extends hgrown')
    obtain ⟨hsilent', q'', hq'', hrunning'', hsegments''⟩ :=
      hidle' q' hq' (hrunning' ▸ hrunning) hu
    exact ⟨hsilent.trans hsilent', q'', hq'', hrunning''.trans hrunning',
      hsegments''.trans hsegments'⟩
  same hreq hj := ⟨⟨[], hj.symm⟩,
    fun q hq _ _ => ⟨.of_eq hj, q, hreq.trans hq, rfl, rfl⟩⟩
  tell h e he := .tell he.not_isCraft
  adjust h f hf := .update fun q => by
    obtain ⟨sink, fatal, held, pinged, he, -⟩ := hf q
    rw [he]
    exact ⟨rfl, rfl⟩

theorem Idle.modify {f : Request κ → Request κ}
    (hf : ∀ q, (f q).running = q.running ∧ (f q).segments = q.segments) :
    Respects (Idle r) (modifyRequest r f : HostM κ σ Unit) := by
  intro h a h' hrun
  cases hrun
  exact .update hf

theorem Idle.record {e : Event} (he : ¬ e.IsCraft r) :
    Respects (Idle r) (Host.record e : HostM κ σ Unit) := by
  intro h a h' hrun
  cases hrun
  exact .tell he

theorem respectsFlush_idle (r : RequestId) : RespectsFlush (Idle (κ := κ) (σ := σ) r) r where
  change h f hf := .update fun q => by
    obtain ⟨pending, modelRows, errorRows, flowing, closed, flushing, he⟩ := hf q
    rw [he]
    exact ⟨rfl, rfl⟩
  calling _ _ _ := .tell id
  called _ _ _ := .tell id

theorem Idle.running {α : Type} {m : HostM κ σ α} (hm : Respects (Idle r) m) :
    Respects (Idle r) (Host.running r m) := by
  intro h a h' hrun
  obtain ⟨h₁, hrest, rfl⟩ := running_of_run hrun
  obtain ⟨hgrown, hidle⟩ := hm hrest
  refine ⟨hgrown, fun q hq hrunning hu => ?_⟩
  obtain ⟨hsilent, q', hq', hrunning', hsegments'⟩ :=
    hidle _ (requests_update_self hq _) (Nat.succ_pos _) hu
  refine ⟨hsilent, _, requests_update_self hq' _, ?_, hsegments'⟩
  change q'.running - 1 = q.running
  rw [hrunning']
  rfl

theorem frames_idle (user : UserCode κ σ) (r : RequestId) : Frames user r (Idle r) := by
  have F := surrounds_idle (κ := κ) (σ := σ) r
  refine
    { F with
      visit := Idle.running
      start := F.bind (Idle.modify fun _ => ⟨rfl, rfl⟩) fun _ =>
        F.bind (Idle.record id) fun _ => F.schedulePass
      flow := fun n hcall => Idle.running (F.bind F.request fun _ =>
        F.bind (Idle.record id) fun _ => F.bind (Idle.modify fun _ => ⟨rfl, rfl⟩) fun _ =>
          F.flush hcall (respectsFlush_idle r) n)
      pass := fun n α k hcall hk h a h' hrun => ?_ }
  have hk' : ∀ result, Respects Extends (k result) := fun result h a h' hrun => (hk result hrun).1
  have F' : Frames user r (Extends (κ := κ) (σ := σ)) := frames_extends user r
  refine ⟨F'.pass n (F'.perform n) hk' hrun, fun q hq hrunning hu => ?_⟩
  obtain ⟨h₁, hrest, rfl⟩ := running_of_run hrun
  obtain ⟨⟨result, h₂⟩, hpass, hend⟩ := Option.bind_eq_some_iff.mp hrest
  obtain ⟨q', hq', hbegun⟩ := began_of_pass hpass
  have hmem : .began r (1 < q'.running) ∈ h₁.journal :=
    (hbegun.trans (hk' result hend)).subset List.mem_cons_self
  have hnested : 1 < q'.running := by
    cases (requests_update_self hq _).symm.trans hq'
    exact Nat.succ_lt_succ hrunning
  rw [decide_eq_true hnested] at hmem
  exact absurd hmem hu

/-! ## Effects -/

/-- If a call on the request is under way and no nested pass begins, just these effects happen: each
deferral makes a segment, and the user code among them runs. -/
def Does (user : UserCode κ σ) (r : RequestId) (ds : List (Deed κ)) (h h' : Host κ σ) : Prop :=
  h.Extends h' ∧ ∀ q, h.requests[r.index]? = some q → 0 < q.running → h'.Unnested r →
    ∃ q', h'.requests[r.index]? = some q' ∧ q'.running = q.running ∧
      q'.stands = q.stands ++ (ds.filterMap Deed.deferred?).map some ∧
      ∀ marks, Recounts user r h.journal marks →
        Recounts user r h'.journal (marks ++ Mark.ofDeeds ds)

theorem Idle.does (hi : Idle r h h') (hdeferred : ds.filterMap Deed.deferred? = [])
    (hmarks : Mark.ofDeeds ds = []) : Does user r ds h h' := by
  refine ⟨hi.1, fun q hq hrunning hu => ?_⟩
  obtain ⟨hsilent, q', hq', hrunning', hsegments⟩ := hi.2 q hq hrunning hu
  refine ⟨q', hq', hrunning', ?_, fun marks hm => ?_⟩
  · rw [hdeferred, Request.stands, hsegments, List.map_nil, List.append_nil]
    rfl
  · rw [hmarks, List.append_nil]
    exact hm.silent hsilent

theorem Does.trans (h₀₁ : Does user r ds h h₁) (h₁₂ : Does user r ds' h₁ h') :
    Does user r (ds ++ ds') h h' := by
  refine ⟨h₀₁.1.trans h₁₂.1, fun q hq hrunning hu => ?_⟩
  obtain ⟨q₁, hq₁, hrunning₁, hstands₁, hmarks₁⟩ :=
    h₀₁.2 q hq hrunning (hu.of_extends h₁₂.1)
  obtain ⟨q', hq', hrunning', hstands', hmarks'⟩ := h₁₂.2 q₁ hq₁ (hrunning₁ ▸ hrunning) hu
  refine ⟨q', hq', hrunning'.trans hrunning₁, ?_, fun marks hm => ?_⟩
  · rw [hstands', hstands₁, List.filterMap_append, List.map_append, List.append_assoc]
  · rw [Mark.ofDeeds_append, ← List.append_assoc]
    exact hmarks' _ (hmarks₁ marks hm)

theorem does_code {d : Deed κ} {step : UserStep} (hstep : d.step? = some step)
    (hrun : d.IsRun user n (h.tell (.ran r step h.inPass)) h')
    (hidle : Idle r (h.tell (.ran r step h.inPass)) h') : Does user r [d] h h' := by
  have hdeferred : d.deferred? = none := by
    obtain ⟨effect, reply⟩ := d
    cases effect <;> first | rfl | cases hstep
  refine ⟨(Extends.tell h _).trans hidle.1, fun q hq hrunning hu => ?_⟩
  obtain ⟨⟨events, hj, hquiet⟩, q', hq', hrunning', hsegments⟩ := hidle.2 q hq hrunning hu
  refine ⟨q', hq', hrunning', ?_, fun marks hm => ?_⟩
  · rw [List.filterMap_cons_none hdeferred, Request.stands, hsegments]
    simp [Request.stands]
  · have hmarks : Mark.ofDeeds [d] = [.did d] := by simp [Mark.ofDeeds, hstep]
    rw [hmarks, hj]
    exact .ran hm hstep rfl hrun hj hquiet

/-- A deferral makes one segment, which stands at its query. -/
theorem does_suspend {query : Query κ} {t : Thenable κ} {id : RowId}
    (hrun : suspend user (perform user n) r query t h = some (id, h')) :
    Does user r [⟨.suspend query t, id⟩] h h' := by
  have F : Frames user r (Idle (κ := κ) (σ := σ) r) := frames_idle user r
  have F' : Frames user r (Extends (κ := κ) (σ := σ)) := frames_extends user r
  refine ⟨F'.effect (F'.perform n) (respectsWork_extends r) false (.suspend query t) hrun,
    fun q hq hrunning hu => ?_⟩
  have hq₁ := requests_update_self hq fun req => { req with pending := req.pending + 1 }
  rw [suspend, run_bind, run_modifyRequest, Option.bind_some, run_bind, run_newSegment hq₁,
    Option.bind_some, run_bind] at hrun
  obtain ⟨⟨u, h₃⟩, hwait, hrest⟩ := Option.bind_eq_some_iff.mp hrun
  obtain ⟨⟨seg, h₂⟩, hseg, hend⟩ := Option.bind_eq_some_iff.mp hrest
  obtain ⟨-, -, -, rfl⟩ := segment_of_run hseg
  cases hend
  have hq₂ := requests_update_self (requests_update_self hq₁ fun req =>
    { req with nextId := req.nextId.next }) fun req =>
      { req with segments := req.segments.push { id := q.nextId, query := query } }
  obtain ⟨-, hidle⟩ := F.await (F.perform n) t _ _ hwait
  obtain ⟨⟨events, hj, hquiet⟩, q', hq', hrunning', hsegments⟩ := hidle _ hq₂ hrunning hu
  refine ⟨q', hq', hrunning', ?_, fun marks hm => ?_⟩
  · rw [Request.stands, hsegments]
    simp [Request.stands, Segment.stand, Deed.deferred?]
  · have hnone : Mark.ofDeeds [(⟨.suspend query t, seg.id⟩ : Deed κ)] = [] := rfl
    rw [hnone, List.append_nil, hj]
    exact (hm.other id).append hquiet

/-- Each effect of the serializer, performed by a request. -/
theorem does_effect (strict : Bool) {e : Effect κ} {reply : e.Reply}
    (hrun : e.perform (codeEffects user (perform user n) r) (context user (perform user n) r strict)
      h = some (reply, h')) : Does user r [⟨e, reply⟩] h h' := by
  have F : Frames user r (Idle (κ := κ) (σ := σ) r) := frames_idle user r
  cases e with
  | render code props ref =>
    exact does_code rfl hrun (F.script (F.perform n) _ hrun)
  | load code => exact does_code rfl hrun (F.script (F.perform n) _ hrun)
  | toModel code => exact does_code rfl hrun (F.script (F.perform n) _ hrun)
  | suspend query t => exact does_suspend hrun
  | metadata m => exact (F.metadata (F.perform n) m hrun).does rfl rfl
  | emitError e =>
    have hidle : Respects (Idle r) (emitError r e : HostM κ σ RowId) := by
      refine F.bind (Idle.modify fun _ => ⟨rfl, rfl⟩) fun _ => F.bind ?_ fun id =>
        F.bind (F.bind (Idle.modify fun _ => ⟨rfl, rfl⟩) fun _ => Idle.record (·)) fun _ =>
          F.toSurrounds.pure _
      exact F.bind F.request fun q => F.bind (Idle.modify fun _ => ⟨rfl, rfl⟩) fun _ =>
        F.bind (Idle.record (·)) fun _ => F.toSurrounds.pure _
    exact (hidle hrun).does rfl rfl
  | warn text =>
    have hidle : Respects (Idle r) (warn r text : HostM κ σ Unit) := by
      refine F.bind F.request fun q => ?_
      split
      · exact Idle.record id
      · exact F.toSurrounds.pure _
    exact (hidle hrun).does rfl rfl

/-- A walk that is performed is run, and does what its effects do. -/
theorem does_walk {α : Type} {strict : Bool} {w : Walk κ α} {a : α}
    (hrun : w.perform (codeEffects user (perform user n) r) (context user (perform user n) r strict)
      (fun _ => failure) h = some (a, h')) :
    ∃ ds, w.Runs ds a ∧ Does user r ds h h' := by
  induction w generalizing h with
  | done b =>
    cases hrun
    exact ⟨[], .done a, ((surrounds_idle r).refl h').does rfl rfl⟩
  | stuck => cases hrun
  | ask e next ih =>
    obtain ⟨⟨reply, h₁⟩, heffect, hrest⟩ := Option.bind_eq_some_iff.mp hrun
    obtain ⟨ds, hruns, hdoes⟩ := ih reply hrest
    exact ⟨⟨e, reply⟩ :: ds, .ask reply hruns, (does_effect strict heffect).trans hdoes⟩

/-! ## Before a request is made -/

/-- A request that is not there is not made by this, and nothing is done for it. -/
def StaysAbsent (r : RequestId) (h h' : Host κ σ) : Prop :=
  h.requests[r.index]? = none →
    h'.requests[r.index]? = none ∧ Silent (Event.IsCraft r) h h'

theorem StaysAbsent.update (f : Request κ → Request κ) : StaysAbsent r h (h.update r f) :=
  fun hnone => ⟨requests_update_missing hnone f, .of_eq rfl⟩

theorem StaysAbsent.tell (he : ¬ e.IsCraft r) : StaysAbsent r h (h.tell e) :=
  fun hnone => ⟨hnone, .tell he⟩

theorem frames_absent (user : UserCode κ σ) (r : RequestId) : Frames user r (StaysAbsent r) := by
  have F : Surrounds r (StaysAbsent (κ := κ) (σ := σ) r) :=
    { refl := fun h hnone => ⟨hnone, .of_eq rfl⟩
      trans := fun h₁₂ h₂₃ hnone => by
        obtain ⟨hnone', hsilent⟩ := h₁₂ hnone
        obtain ⟨hnone'', hsilent'⟩ := h₂₃ hnone'
        exact ⟨hnone'', hsilent.trans hsilent'⟩
      same := fun hreq hj hnone => ⟨hreq.trans hnone, .of_eq hj⟩
      tell := fun h e he => .tell he.not_isCraft
      adjust := fun h f _ => .update f }
  have hmodify : ∀ f, Respects (StaysAbsent r) (modifyRequest r f : HostM κ σ Unit) := by
    intro f h a h' hrun
    cases hrun
    exact .update f
  have hrecord : ∀ {e : Event}, ¬ e.IsCraft r →
      Respects (StaysAbsent r) (record e : HostM κ σ Unit) := by
    intro e he h a h' hrun
    cases hrun
    exact .tell he
  have hflush : RespectsFlush (StaysAbsent (κ := κ) (σ := σ) r) r :=
    ⟨fun _ _ _ => .update _, fun _ _ _ => .tell id, fun _ _ _ => .tell id⟩
  have hvisit : ∀ {α : Type} {m : HostM κ σ α}, Respects (StaysAbsent r) m →
      Respects (StaysAbsent r) (Host.running r m) :=
    F.running fun h f => .update _
  refine
    { F with
      visit := hvisit
      start := F.bind (hmodify _) fun _ => F.bind (hrecord id) fun _ => F.schedulePass
      flow := fun n hcall => hvisit (F.bind F.request fun _ => F.bind (hrecord id) fun _ =>
        F.bind (hmodify _) fun _ => F.flush hcall hflush n)
      pass := fun n α k hcall hk h a h' hrun hnone => ?_ }
  obtain ⟨h₁, hrest, -⟩ := running_of_run hrun
  obtain ⟨⟨result, h₂⟩, hpass, -⟩ := Option.bind_eq_some_iff.mp hrest
  obtain ⟨q, hq, -⟩ := began_of_pass hpass
  exact nomatch (requests_update_missing hnone _).symm.trans hq

/-- Nothing is done for a request before it is made. -/
theorem Reachable.recounts_nil (hr : Reachable user (fun _ => True) h)
    (hnone : h.requests[r.index]? = none) : Recounts user r h.journal [] := by
  obtain ⟨start, outcomes, hsteps⟩ := hr
  induction hsteps with
  | refl => exact .nil
  | @tail h₁ h₂ _ hstep ih =>
    cases hbefore : h₁.requests[r.index]? with
    | some q =>
      have hsome := (Frames.present user r).step hstep hbefore (by rw [hbefore]; rfl)
      rw [hnone] at hsome
      cases hsome
    | none =>
      rcases Frames.made_or_respects hstep with ⟨settings, model, r', h₃, hnew, -, hj⟩ | hR
      · rw [run_newRequest] at hnew
        cases hnew
        rw [hj]
        exact .other id (ih hbefore)
      · exact (ih hbefore).silent (hR (frames_absent user r) hbefore).2

end Host
end TreeStream

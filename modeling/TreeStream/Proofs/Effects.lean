import TreeStream.Proofs.View

/-!
# Small effects

The actions that the larger ones consist of change the host in one place each. Their run equations
say where, and the equations about views say which requests can tell.
-/

namespace TreeStream
namespace Host

variable {κ σ α β : Type} {h : Host κ σ} {r r' : RequestId}

def update (h : Host κ σ) (r : RequestId) (f : Request κ → Request κ) : Host κ σ :=
  { h with requests := h.requests.modify r.index f }

def tell (h : Host κ σ) (e : Event) : Host κ σ := { h with journal := e :: h.journal }

/-- A queued pass more, in the queue that the request uses. -/
def enqueue (h : Host κ σ) (r : RequestId) : WorkQueue → Host κ σ
  | .manual => { h with queue := h.queue ++ [.pass r], scheduled := h.scheduled + 1 }
  | .tasks => { h with tasks := h.tasks ++ [.pass r] }

/-! ## Running them -/

theorem run_bind (m : HostM κ σ α) (k : α → HostM κ σ β) (h : Host κ σ) :
    (m >>= k) h = (m h).bind fun p => k p.1 p.2 := rfl

theorem run_pure (a : α) (h : Host κ σ) : (pure a : HostM κ σ α) h = some (a, h) := rfl

theorem run_modify (f : Host κ σ → Host κ σ) (h : Host κ σ) :
    (modify f : HostM κ σ Unit) h = some ((), f h) := rfl

theorem run_get (h : Host κ σ) : (get : HostM κ σ (Host κ σ)) h = some (h, h) := rfl

theorem run_failure (h : Host κ σ) : (failure : HostM κ σ α) h = none := rfl

theorem run_record (e : Event) (h : Host κ σ) : record e h = some ((), h.tell e) := rfl

theorem run_modifyRequest (r : RequestId) (f : Request κ → Request κ) (h : Host κ σ) :
    modifyRequest r f h = some ((), h.update r f) := rfl

theorem run_request {q : Request κ} (hq : h.requests[r.index]? = some q) :
    request r h = some (q, h) := by
  simp [request, run_bind, run_get, hq, run_pure]

theorem run_request_missing (hq : h.requests[r.index]? = none) : request r h = none := by
  simp [request, run_bind, run_get, hq, run_failure]

theorem request_of_run {q : Request κ} {h' : Host κ σ} (hrun : request r h = some (q, h')) :
    h.requests[r.index]? = some q ∧ h' = h := by
  cases hreq : h.requests[r.index]? with
  | none =>
    rw [run_request_missing hreq] at hrun
    cases hrun
  | some req =>
    rw [run_request hreq] at hrun
    cases hrun
    exact ⟨rfl, rfl⟩

theorem segment_of_run {s : SegmentId} {seg : Segment κ} {h' : Host κ σ}
    (hrun : segment r s h = some (seg, h')) :
    ∃ q, h.requests[r.index]? = some q ∧ q.segments[s.index]? = some seg ∧ h' = h := by
  obtain ⟨⟨q, h₁⟩, hreq, hrest⟩ := Option.bind_eq_some_iff.mp hrun
  obtain ⟨hq, rfl⟩ := request_of_run hreq
  refine ⟨q, hq, ?_⟩
  cases hseg : q.segments[s.index]? with
  | none => simp [hseg, run_failure] at hrest
  | some seg' =>
    simp only [hseg, run_pure] at hrest
    cases hrest
    exact ⟨rfl, rfl⟩

theorem segment_grows (r : RequestId) (s : SegmentId) : Grows (σ := σ) (κ := κ) (segment r s) := by
  intro h seg h' hrun
  obtain ⟨q, -, -, rfl⟩ := segment_of_run hrun
  exact .rfl

theorem promise_of_run {p : PromiseId} {cell : PromiseCell κ} {h' : Host κ σ}
    (hrun : promise p h = some (cell, h')) : h.promises[p.index]? = some cell ∧ h' = h := by
  cases hcell : h.promises[p.index]? with
  | none => simp [promise, run_bind, run_get, run_failure, hcell] at hrun
  | some c =>
    simp only [promise, run_bind, run_get, Option.bind_some, hcell, run_pure] at hrun
    cases hrun
    exact ⟨rfl, rfl⟩

theorem run_schedulePass {q : Request κ} (hq : h.requests[r.index]? = some q) :
    schedulePass r h = some ((), (h.tell (.scheduled r)).enqueue r q.settings.queue) := by
  have hq' : (h.tell (.scheduled r)).requests[r.index]? = some q := hq
  simp only [schedulePass, run_bind, run_record, Option.bind_some, run_request hq']
  cases q.settings.queue <;> rfl

theorem Triple.record {W : World κ} {P : Host κ σ → Prop} {Q : Unit → Host κ σ → Prop} {e : Event}
    (h : ∀ h, P h → Q () (h.tell e)) : Triple W P (Host.record e) Q :=
  Triple.update (fun _ => rfl) h

theorem Triple.modifyRequest {W : World κ} {P : Host κ σ → Prop} {Q : Unit → Host κ σ → Prop}
    {f : Request κ → Request κ} (h : ∀ h, P h → Q () (h.update r f)) :
    Triple W P (Host.modifyRequest r f) Q :=
  Triple.update (fun _ => rfl) h

theorem Triple.request {W : World κ} {P : Host κ σ → Prop} :
    Triple W P (Host.request r) fun q h => P h ∧ h.requests[r.index]? = some q := by
  refine Triple.of_run fun h q h' hrun => ?_
  obtain ⟨hq, rfl⟩ := request_of_run hrun
  exact ⟨rfl, fun hP => ⟨hP, hq⟩⟩

theorem Triple.segment {W : World κ} {P : Host κ σ → Prop} {s : SegmentId} :
    Triple W P (Host.segment r s) fun seg h =>
      P h ∧ ∃ q, h.requests[r.index]? = some q ∧ q.segments[s.index]? = some seg := by
  refine Triple.of_run fun h seg h' hrun => ?_
  obtain ⟨q, hq, hseg, rfl⟩ := segment_of_run hrun
  exact ⟨rfl, fun hP => ⟨hP, q, hq, hseg⟩⟩

theorem requests_update_self {q : Request κ} (hq : h.requests[r.index]? = some q)
    (f : Request κ → Request κ) : (h.update r f).requests[r.index]? = some (f q) := by
  simp [update, Array.getElem?_modify, hq]

theorem requests_update_missing (hq : h.requests[r.index]? = none)
    (f : Request κ → Request κ) : (h.update r f).requests[r.index]? = none := by
  simp [update, Array.getElem?_modify, hq]

theorem run_modifySegment (s : SegmentId) (f : Segment κ → Segment κ) (h : Host κ σ) :
    modifySegment r s f h = some ((), h.update r fun req =>
      { req with segments := req.segments.modify s.index f }) := rfl

/-- A segment that was marked as completed still has its id. -/
theorem completed_of_run {s : SegmentId} {seg' : Segment κ} {h' : Host κ σ}
    (hrun : segment r s (h.update r fun req =>
      { req with segments := req.segments.modify s.index fun seg =>
          { seg with completed := true } }) = some (seg', h')) :
    ∃ q seg, h.requests[r.index]? = some q ∧ q.segments[s.index]? = some seg ∧ seg'.id = seg.id ∧
      h' = h.update r fun req =>
        { req with segments := req.segments.modify s.index fun seg =>
            { seg with completed := true } } := by
  obtain ⟨q', hq', hs', rfl⟩ := segment_of_run hrun
  cases hq : h.requests[r.index]? with
  | none => exact nomatch (requests_update_missing hq _).symm.trans hq'
  | some q =>
    cases (requests_update_self hq _).symm.trans hq'
    rw [Array.getElem?_modify, if_pos rfl] at hs'
    obtain ⟨seg, hs, rfl⟩ := Option.map_eq_some_iff.mp hs'
    exact ⟨q, seg, rfl, hs, rfl, rfl⟩

theorem run_allocate {q : Request κ} (hq : h.requests[r.index]? = some q) :
    allocate r h = some (q.nextId,
      (h.update r fun req => { req with nextId := req.nextId.next }).tell
        (.issued r q.nextId)) := by
  simp only [allocate, run_bind, run_request hq, Option.bind_some, run_modifyRequest, run_record,
    run_pure]

theorem run_newSegment {q : Request κ} (hq : h.requests[r.index]? = some q) (query : Query κ) :
    newSegment r query h = some (⟨q.segments.size⟩,
      ((h.update r fun req => { req with nextId := req.nextId.next }).tell
        (.issued r q.nextId)).update r fun req =>
          { req with segments := req.segments.push { id := q.nextId, query := query } }) := by
  have hq' : ((h.update r fun req => { req with nextId := req.nextId.next }).tell
      (.issued r q.nextId)).requests[r.index]? = some { q with nextId := q.nextId.next } :=
    requests_update_self hq _
  simp only [newSegment, run_bind, run_allocate hq, Option.bind_some, run_request hq',
    run_modifyRequest, run_pure]

/-! ## Seeing them -/

theorem request_view : (h.view r).request = h.requests[r.index]? := rfl

@[simp] theorem requests_tell (e : Event) : (h.tell e).requests = h.requests := rfl

@[simp] theorem promises_tell (e : Event) : (h.tell e).promises = h.promises := rfl

@[simp] theorem promises_update (f : Request κ → Request κ) :
    (h.update r f).promises = h.promises := rfl

@[simp] theorem promises_enqueue (w : WorkQueue) : (h.enqueue r w).promises = h.promises := by
  cases w <;> rfl

theorem view_update_self {q : Request κ} (hq : h.requests[r.index]? = some q)
    (f : Request κ → Request κ) :
    (h.update r f).view r = { h.view r with request := some (f q) } := by
  simp [view, update, Array.getElem?_modify, hq]

theorem view_update_ne (hr : r' ≠ r) (f : Request κ → Request κ) :
    (h.update r f).view r' = h.view r' := by
  have hi : r.index ≠ r'.index := fun he => hr (by cases r; cases r'; cases he; rfl)
  simp [view, update, Array.getElem?_modify, hi]

theorem view_update_missing (hq : h.requests[r.index]? = none) (f : Request κ → Request κ) :
    (h.update r f).view r' = h.view r' := by
  by_cases hr : r' = r
  · subst hr
    simp [view, update, Array.getElem?_modify, hq]
  · exact view_update_ne hr f

theorem view_tell_self {e : Event} (he : e.request? = some r) :
    (h.tell e).view r = { h.view r with log := e :: (h.view r).log } := by
  simp [view, tell, Event.isOf, he]

theorem view_tell_ne {e : Event} (he : e.request? = some r) (hr : r' ≠ r) :
    (h.tell e).view r' = h.view r' := by
  have hne : ¬ r = r' := fun heq => hr heq.symm
  simp [view, tell, Event.isOf, he, hne]

theorem view_note (line : String) : (h.tell (.note line)).view r = h.view r := by
  simp [view, tell, Event.isOf, Event.request?]

theorem view_enqueue_self (w : WorkQueue) :
    (h.enqueue r w).view r = { h.view r with passes := (h.view r).passes + 1 } := by
  cases w <;> simp [view, enqueue, Work.isPassOf, Task.isPassOf] <;> omega

theorem view_enqueue_ne (hr : r' ≠ r) (w : WorkQueue) : (h.enqueue r w).view r' = h.view r' := by
  have hne : ¬ r = r' := fun he => hr he.symm
  cases w <;> simp [view, enqueue, Work.isPassOf, Task.isPassOf, hne]

end Host
end TreeStream

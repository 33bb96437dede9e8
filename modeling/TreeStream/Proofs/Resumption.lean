import TreeStream.Proofs.Recounting

/-!
# Finished work is not done again

A request keeps its progress in the queries of its segments. All that its tries have done can be
written down as a list of trials, so that each segment has gone down one descent: the first from the
model of the request, and each further one from the query of the deferral that has made it. User
code of the model ran for these trials and for nothing else.
-/

namespace TreeStream

variable {κ σ : Type}

/-- One try of a segment, and what it has done. -/
structure Trial (κ : Type) where
  segment : SegmentId
  layers : List (Layer κ)

namespace Trial

def deeds (t : Trial κ) : List (Deed κ) := t.layers.flatMap Layer.deeds

def marks (t : Trial κ) : List (Mark κ) := .tried t.segment :: Mark.ofDeeds t.deeds

/-- What the segments that trials make start from, in the order in which they are made. -/
def deferred (trials : List (Trial κ)) : List (Query κ) :=
  trials.flatMap fun t => t.deeds.filterMap Deed.deferred?

/-- All that was done for one segment. -/
def layersOf (s : SegmentId) (trials : List (Trial κ)) : List (Layer κ) :=
  (trials.filter fun t => t.segment = s).flatMap layers

end Trial

/-- The trials are all that was done for a request, whose first segment starts from `root`. -/
structure Chronicle (user : UserCode κ σ) (r : RequestId) (root : Query κ) (log : List Event)
    (q : Request κ) (trials : List (Trial κ)) : Prop where
  marks : Recounts user r log (trials.flatMap Trial.marks)
  tried : ∀ t ∈ trials, t.segment.index < q.segments.size
  starts : q.segments.size = (root :: Trial.deferred trials).length
  descents : ∀ (s : SegmentId) start stand, (root :: Trial.deferred trials)[s.index]? = some start →
    q.stands[s.index]? = some stand → Descent start (Trial.layersOf s trials) stand

/-- A segment that is not completed stands at its query, also when that is replaced. -/
theorem Segment.stand_of_query {seg : Segment κ} {query : Query κ} (h : seg.stand = some query)
    {query' : Query κ} : ({ seg with query := query' } : Segment κ).stand = some query' := by
  cases hc : seg.completed with
  | false => simp [Segment.stand]
  | true => simp [Segment.stand, hc] at h

namespace Host

variable {user : UserCode κ σ} {r : RequestId} {h h' h₁ : Host κ σ} {m n : Nat} {q q₀ : Request κ}
  {s : SegmentId} {marks : List (Mark κ)} {ds ds' : List (Deed κ)} {stand stand' : Option (Query κ)}
  {query : Query κ} {value : Model κ}

/-! ## One try -/

/-- In the middle of a try: what was done has happened, and the segment stands there. -/
def Midway (user : UserCode κ σ) (r : RequestId) (s : SegmentId) (before : List (Option (Query κ)))
    (marks : List (Mark κ)) (ds : List (Deed κ)) (stand : Option (Query κ)) (h : Host κ σ) : Prop :=
  h.Unnested r → ∃ q, h.requests[r.index]? = some q ∧ 0 < q.running ∧
    q.stands = before.set s.index stand ++ (ds.filterMap Deed.deferred?).map some ∧
    Recounts user r h.journal (marks ++ Mark.ofDeeds ds)

variable {before : List (Option (Query κ))}

theorem Midway.does (hm : Midway user r s before marks ds stand h) (hd : Does user r ds' h h') :
    Midway user r s before marks (ds ++ ds') stand h' := by
  intro hu
  obtain ⟨q, hq, hrunning, hstands, hmarks⟩ := hm (hu.of_extends hd.1)
  obtain ⟨q', hq', hrunning', hstands', hmarks'⟩ := hd.2 q hq hrunning hu
  refine ⟨q', hq', hrunning' ▸ hrunning, ?_, ?_⟩
  · rw [hstands', hstands, List.filterMap_append, List.map_append, List.append_assoc]
  · rw [Mark.ofDeeds_append, ← List.append_assoc]
    exact hmarks' _ hmarks

theorem Midway.idle (hm : Midway user r s before marks ds stand h) (hi : Idle r h h') :
    Midway user r s before marks ds stand h' := by
  have hd : Does user r [] h h' := hi.does rfl rfl
  have hm' := hm.does hd
  rwa [List.append_nil] at hm'

theorem stands_modify {i : Nat} {f : Segment κ → Segment κ}
    (hf : ∀ seg ∈ q.segments[i]?, (f seg).stand = stand) :
    Request.stands { q with segments := q.segments.modify i f } = q.stands.set i stand := by
  refine List.ext_getElem? fun j => ?_
  simp only [Request.stands, List.getElem?_map, Array.getElem?_toList, Array.getElem?_modify,
    List.getElem?_set, List.length_map, Array.length_toList]
  by_cases hij : i = j
  · subst hij
    rw [if_pos rfl, if_pos rfl]
    cases hseg : q.segments[i]? with
    | none => simpa using hseg
    | some seg =>
      rw [Option.map_some, Option.map_some, hf seg hseg,
        if_pos (Array.getElem?_eq_some_iff.mp hseg).1]
  · rw [if_neg hij, if_neg hij]

theorem Midway.moves (hm : Midway user r s before marks ds stand h) (hs : s.index < before.length)
    {f : Segment κ → Segment κ} (hf : ∀ seg, seg.stand = stand → (f seg).stand = stand') :
    Midway user r s before marks ds stand' (h.update r fun req =>
      { req with segments := req.segments.modify s.index f }) := by
  intro hu
  obtain ⟨q, hq, hrunning, hstands, hmarks⟩ := hm hu
  have hlt : s.index < (before.set s.index stand).length := by rwa [List.length_set]
  have hmoved : ∀ seg ∈ q.segments[s.index]?, (f seg).stand = stand' := by
    intro seg hseg
    have hstand : q.stands[s.index]? = some seg.stand := by
      simp [Request.stands, Option.mem_def.mp hseg]
    rw [hstands, List.getElem?_append_left hlt, List.getElem?_set_self hs] at hstand
    exact hf seg (Option.some.inj hstand).symm
  refine ⟨_, requests_update_self hq _, hrunning, ?_, hmarks⟩
  rw [stands_modify hmoved, hstands, List.set_append_left _ _ hlt, List.set_set]

/-- The segment is completed, and the rest is no work on segments. -/
theorem Midway.completes (hm : Midway user r s before marks ds stand h)
    (hs : s.index < before.length) (rest : Segment κ → HostM κ σ Unit)
    (hidle : ∀ seg, Respects (Idle r) (rest seg)) {a : Unit}
    (hrun : (modifySegment r s (fun seg => { seg with completed := true }) >>= fun _ =>
      segment r s >>= rest) h = some (a, h')) : Midway user r s before marks ds none h' := by
  rw [run_bind, run_modifySegment, Option.bind_some] at hrun
  obtain ⟨⟨seg, h₂⟩, hseg, hrest⟩ := Option.bind_eq_some_iff.mp hrun
  obtain ⟨-, -, -, rfl⟩ := segment_of_run hseg
  have hcompleted : Midway user r s before marks ds none (h.update r fun req =>
      { req with segments := req.segments.modify s.index fun seg =>
          { seg with completed := true } }) := hm.moves hs fun _ _ => rfl
  exact hcompleted.idle (hidle seg hrest)

theorem Midway.failSegment (hm : Midway user r s before marks ds stand h)
    (hs : s.index < before.length) {e : RenderError} {a : Unit}
    (hrun : failSegment r s e h = some (a, h')) : Midway user r s before marks ds none h' := by
  refine hm.completes hs (fun seg => completeError r seg.id e) (fun seg => ?_) hrun
  exact (surrounds_idle r).bind (Idle.modify fun _ => ⟨rfl, rfl⟩) fun _ => Idle.record (·)

theorem Midway.completeSegment (hm : Midway user r s before marks ds stand h)
    (hs : s.index < before.length) {json : String} {a : Unit}
    (hrun : completeSegment r s json h = some (a, h')) :
    Midway user r s before marks ds none h' := by
  refine hm.completes hs (fun seg => do
    modifyRequest r fun req => { req with modelRows := req.modelRows ++ [Row.ofModel seg.id json] }
    record (.completed r (Row.ofModel seg.id json))) (fun seg => ?_) hrun
  exact (surrounds_idle r).bind (Idle.modify fun _ => ⟨rfl, rfl⟩) fun _ => Idle.record (·)

theorem does_resolve {e : Element κ (Model κ)} {outcome : Resolution κ (Model κ)}
    (hrun : Serializer.resolveElement (codeEffects user (perform user m) r) e h =
      some (outcome, h')) :
    ∃ ds, Renders e.props e.key e.renderable ds outcome ∧ Does user r ds h h' := by
  rw [resolveElement_perform] at hrun
  obtain ⟨ds, hruns, hdoes⟩ := does_walk hrun
  exact ⟨ds, renders_of_runs hruns, hdoes⟩

theorem Midway.advance (hs : s.index < before.length) {reached : Option (Model κ)}
    (hm : Midway user r s before marks ds (some query) h)
    (hrun : advance user (perform user m) r s n value h = some (reached, h')) :
    ∃ layers stand, Descent (.model value) layers stand ∧
      (reached = none →
        Midway user r s before marks (ds ++ layers.flatMap Layer.deeds) stand h') ∧
      ∀ value', reached = some value' → stand = some (.model value') ∧
        (∀ e, value' ≠ .element e) ∧ ∃ query',
          Midway user r s before marks (ds ++ layers.flatMap Layer.deeds) (some query') h' := by
  have F : Frames user r (Idle (κ := κ) (σ := σ) r) := frames_idle user r
  induction n generalizing h value ds query with
  | zero => cases hrun
  | succ n ih =>
    cases value with
    | element e =>
      rw [Host.advance, run_bind, run_modifySegment, Option.bind_some] at hrun
      obtain ⟨⟨outcome, h₁⟩, hresolve, hrest⟩ := Option.bind_eq_some_iff.mp hrun
      obtain ⟨ds', hrenders, hdoes⟩ := does_resolve hresolve
      have hat : Layer.IsAt (.resolved e ds' outcome) (.model (.element e)) := .resolved hrenders
      have hresolved :
          Midway user r s before marks (ds ++ ds') (some (.model (.element e))) h₁ := by
        refine (hm.moves hs fun seg hseg => ?_).does hdoes
        exact seg.stand_of_query hseg
      cases outcome with
      | ready next =>
        obtain ⟨layers, stand, hdescent, hreached⟩ := ih hresolved hrest
        refine ⟨_, stand, .move hat rfl hdescent, ?_⟩
        rw [List.flatMap_cons, ← List.append_assoc]
        exact hreached
      | suspended t =>
        obtain ⟨⟨u, h₂⟩, hwait, hend⟩ := Option.bind_eq_some_iff.mp hrest
        cases hend
        refine ⟨_, _, .move hat rfl (.stay _), fun _ => ?_, nofun⟩
        rw [List.flatMap_singleton]
        exact hresolved.idle (F.await (F.perform m) t _ _ hwait)
      | failed err =>
        obtain ⟨⟨u, h₂⟩, hfail, hend⟩ := Option.bind_eq_some_iff.mp hrest
        cases hend
        refine ⟨_, _, .stop hat rfl, fun _ => ?_, nofun⟩
        rw [List.flatMap_singleton]
        exact hresolved.failSegment hs hfail
    | _ =>
      cases hrun
      refine ⟨[], _, .stay _, nofun, fun value' he => ?_⟩
      cases he
      exact ⟨rfl, nofun, query, by simpa using hm⟩

/-- A value that is no element is handed to the serializer, which ends the segment. -/
theorem Midway.finish (hs : s.index < before.length) {a : Unit}
    (hm : Midway user r s before marks ds stand h) (hvalue : ∀ e, value ≠ .element e)
    (hrun : finish user (perform user m) r s n value h = some (a, h')) :
    ∃ layer, Layer.IsAt layer (.model value) ∧ layer.next? = none ∧
      Midway user r s before marks (ds ++ layer.deeds) none h' := by
  obtain ⟨⟨q, h₁⟩, hreq, hrest⟩ := Option.bind_eq_some_iff.mp hrun
  obtain ⟨-, rfl⟩ := request_of_run hreq
  obtain ⟨⟨outcome, h₂⟩, hserialize, hend⟩ := Option.bind_eq_some_iff.mp hrest
  rw [Serializer.serialize_perform absorbs_hostM n value] at hserialize
  obtain ⟨ds', hruns, hdoes⟩ := does_walk hserialize
  refine ⟨.handed value ds' outcome, .handed hvalue hruns, rfl, ?_⟩
  cases outcome with
  | ok json => exact (hm.does hdoes).completeSegment hs hend
  | error e => exact (hm.does hdoes).failSegment hs hend

theorem Midway.descend (hs : s.index < before.length) {a : Unit}
    (hm : Midway user r s before marks ds (some query) h)
    (hrun : (Host.advance user (perform user m) r s n value >>= fun reached =>
      match reached with
      | none => pure ()
      | some value => Host.finish user (perform user m) r s n value) h = some (a, h')) :
    ∃ layers stand, Descent (.model value) layers stand ∧
      Midway user r s before marks (ds ++ layers.flatMap Layer.deeds) stand h' := by
  obtain ⟨⟨reached, h₁⟩, hadvance, hrest⟩ := Option.bind_eq_some_iff.mp hrun
  obtain ⟨layers, stand, hdescent, hstopped, hreached⟩ := hm.advance hs hadvance
  cases reached with
  | none =>
    cases hrest
    exact ⟨layers, stand, hdescent, hstopped rfl⟩
  | some value' =>
    obtain ⟨rfl, hvalue, query', hm'⟩ := hreached value' rfl
    obtain ⟨layer, hat, hnext, hfinished⟩ := hm'.finish hs hvalue hrest
    refine ⟨layers ++ [layer], none, hdescent.append (.stop hat hnext), ?_⟩
    rw [List.flatMap_append, List.flatMap_singleton, ← List.append_assoc]
    exact hfinished

/-- A try of a segment that is not completed goes down from its query. -/
theorem Midway.trySegment (hs : s.index < before.length) {a : Unit} {seg : Segment κ}
    (hseg : segment r s h = some (seg, h))
    (hm : Midway user r s before marks [] (some seg.query) h)
    (hrun : trySegment user (perform user m) r s n h = some (a, h')) :
    ∃ layers stand, Descent seg.query layers stand ∧
      Midway user r s before marks (layers.flatMap Layer.deeds) stand h' := by
  have F : Frames user r (Idle (κ := κ) (σ := σ) r) := frames_idle user r
  rw [Host.trySegment, run_bind, hseg, Option.bind_some] at hrun
  cases hquery : seg.query with
  | model value =>
    rw [hquery] at hm hrun
    exact hm.descend hs hrun
  | load code =>
    rw [hquery] at hm hrun
    obtain ⟨⟨outcome, h₂⟩, hload, hrest⟩ := Option.bind_eq_some_iff.mp hrun
    have hloaded : Midway user r s before marks [⟨.load code, outcome⟩] (some (.load code)) h₂ :=
      hm.does (does_effect false (e := .load code) hload)
    have hat : Layer.IsAt (.loaded code outcome) (.load code) := .loaded code outcome
    cases outcome with
    | suspended t =>
      exact ⟨_, _, .move hat rfl (.stay _), hloaded.idle (F.await (F.perform m) t _ _ hrest)⟩
    | failed e => exact ⟨_, _, .stop hat rfl, hloaded.failSegment hs hrest⟩
    | ready value =>
      obtain ⟨layers, stand, hdescent, hm'⟩ := hloaded.descend hs hrest
      exact ⟨_, stand, .move hat rfl hdescent, hm'⟩

/-- A try goes on from where the segment stands, and does nothing to a segment that is completed. -/
theorem tryOpen_descends {a : Unit} (hq : h.requests[r.index]? = some q) (hrunning : 0 < q.running)
    (hm : Recounts user r h.journal (marks ++ [.tried s]))
    (hrun : tryOpen user (perform user m) r s n h = some (a, h')) (hu : h'.Unnested r) :
    ∃ layers stand stand' q', q.stands[s.index]? = some stand ∧
      (∀ start above, Descent start above stand → Descent start (above ++ layers) stand') ∧
      h'.requests[r.index]? = some q' ∧ 0 < q'.running ∧
      q'.stands = q.stands.set s.index stand' ++
        ((Trial.mk s layers).deeds.filterMap Deed.deferred?).map some ∧
      Recounts user r h'.journal (marks ++ (Trial.mk s layers).marks) := by
  rw [tryOpen, run_bind] at hrun
  obtain ⟨⟨seg, h₁⟩, hseg, hrest⟩ := Option.bind_eq_some_iff.mp hrun
  obtain ⟨q₁, hq₁, hs, rfl⟩ := segment_of_run hseg
  cases hq.symm.trans hq₁
  have hstand : q.stands[s.index]? = some seg.stand := by simp [Request.stands, hs]
  obtain ⟨hlt, hget⟩ := List.getElem?_eq_some_iff.mp hstand
  have hset : q.stands.set s.index seg.stand = q.stands := by rw [← hget, List.set_getElem_self]
  cases hc : seg.completed with
  | true =>
    simp only [hc, if_true] at hrest
    cases hrest
    refine ⟨[], seg.stand, seg.stand, q, hstand, fun start above hd => ?_, hq₁, hrunning, ?_, hm⟩
    · rwa [List.append_nil]
    · rw [hset]
      exact (List.append_nil _).symm
  | false =>
    simp only [hc, Bool.false_eq_true, if_false] at hrest
    have hopen : seg.stand = some seg.query := by simp [Segment.stand, hc]
    have hstart : Midway user r s q.stands (marks ++ [.tried s]) [] (some seg.query) h₁ := by
      refine fun _ => ⟨q, hq, hrunning, ?_, ?_⟩
      · rw [← hopen, hset]
        exact (List.append_nil _).symm
      · exact (List.append_nil _).symm ▸ hm
    obtain ⟨layers, stand', hdescent, hm'⟩ := hstart.trySegment hlt hseg hrest
    obtain ⟨q', hq'', hrunning', hstands', hmarks'⟩ := hm' hu
    refine ⟨layers, seg.stand, stand', q', hstand, fun start above hd => ?_, hq'', hrunning',
      hstands', ?_⟩
    · rw [hopen] at hd
      exact hd.append hdescent
    · rwa [List.append_assoc] at hmarks'

theorem retry_descends {a : Unit} (hq : h.requests[r.index]? = some q) (hrunning : 0 < q.running)
    (hm : Recounts user r h.journal marks)
    (hrun : retry user (perform user m) r s n h = some (a, h')) (hu : h'.Unnested r) :
    ∃ layers stand stand' q', q.stands[s.index]? = some stand ∧
      (∀ start above, Descent start above stand → Descent start (above ++ layers) stand') ∧
      h'.requests[r.index]? = some q' ∧ 0 < q'.running ∧
      q'.stands = q.stands.set s.index stand' ++
        ((Trial.mk s layers).deeds.filterMap Deed.deferred?).map some ∧
      Recounts user r h'.journal (marks ++ (Trial.mk s layers).marks) := by
  rw [retry, run_bind, run_record, Option.bind_some, run_bind] at hrun
  obtain ⟨⟨_, h₁⟩, htry, hleft⟩ := Option.bind_eq_some_iff.mp hrun
  cases hleft
  obtain ⟨layers, stand, stand', q', hstand, hdescent, hq', hrunning', hstands', hmarks⟩ :=
    tryOpen_descends (h := h.tell (.retried r s)) hq hrunning (.tried s hm) htry
      (hu.of_extends (.tell h₁ _))
  exact ⟨layers, stand, stand', q', hstand, hdescent, hq', hrunning', hstands', .other id hmarks⟩

end Host

/-! ## All tries -/

namespace Trial

variable {s : SegmentId} {trials : List (Trial κ)} {t : Trial κ}

theorem deferred_append (trials : List (Trial κ)) (t : Trial κ) :
    deferred (trials ++ [t]) = deferred trials ++ t.deeds.filterMap Deed.deferred? := by
  simp [deferred]

theorem layersOf_self (trials : List (Trial κ)) (t : Trial κ) :
    layersOf t.segment (trials ++ [t]) = layersOf t.segment trials ++ t.layers := by
  simp [layersOf]

theorem layersOf_ne (hs : t.segment ≠ s) : layersOf s (trials ++ [t]) = layersOf s trials := by
  simp [layersOf, hs]

theorem layersOf_eq_nil (hs : ∀ t ∈ trials, t.segment ≠ s) : layersOf s trials = [] := by
  have hnone : (trials.filter fun t => t.segment = s) = [] :=
    List.filter_eq_nil_iff.mpr fun t ht => by simpa using hs t ht
  rw [layersOf, hnone, List.flatMap_nil]

end Trial

theorem Request.length_stands (q : Request κ) : q.stands.length = q.segments.size := by
  simp [stands]

namespace Chronicle

variable {user : UserCode κ σ} {r : RequestId} {root : Query κ} {log log' : List Event}
  {q q' : Request κ} {trials : List (Trial κ)}

/-- What has not touched the segments leaves the chronicle as it is. -/
theorem same (hc : Chronicle user r root log q trials) (hsegments : q'.segments = q.segments)
    (hlog : ∀ marks, Recounts user r log marks → Recounts user r log' marks) :
    Chronicle user r root log' q' trials := by
  have hstands : q'.stands = q.stands := congrArg (·.toList.map Segment.stand) hsegments
  exact ⟨hlog _ hc.marks, hsegments ▸ hc.tried, hsegments ▸ hc.starts, hstands ▸ hc.descents⟩

theorem add (hc : Chronicle user r root log q trials) {t : Trial κ}
    {stand stand' : Option (Query κ)} (hstand : q.stands[t.segment.index]? = some stand)
    (hdown : ∀ start above, Descent start above stand → Descent start (above ++ t.layers) stand')
    (hstands : q'.stands = q.stands.set t.segment.index stand' ++
      (t.deeds.filterMap Deed.deferred?).map some)
    (hmarks : Recounts user r log' (trials.flatMap Trial.marks ++ t.marks)) :
    Chronicle user r root log' q' (trials ++ [t]) := by
  have hlt : t.segment.index < q.segments.size :=
    q.length_stands ▸ (List.getElem?_eq_some_iff.mp hstand).1
  have hlength : (q.stands.set t.segment.index stand').length = q.segments.size := by
    rw [List.length_set, q.length_stands]
  have hsize : q'.segments.size =
      q.segments.size + (t.deeds.filterMap Deed.deferred?).length := by
    rw [← q'.length_stands, hstands, List.length_append, hlength, List.length_map]
  have hstarts : root :: Trial.deferred (trials ++ [t]) =
      (root :: Trial.deferred trials) ++ t.deeds.filterMap Deed.deferred? := by
    rw [Trial.deferred_append, List.cons_append]
  have htried : ∀ t' ∈ trials ++ [t], t'.segment.index < q.segments.size := fun t' ht =>
    (List.mem_append.mp ht).elim (hc.tried t') fun ht => List.mem_singleton.mp ht ▸ hlt
  refine ⟨?_, fun t' ht => ?_, ?_, fun s start place hstart hplace => ?_⟩
  · rwa [List.flatMap_append, List.flatMap_singleton]
  · exact Nat.lt_of_lt_of_le (htried t' ht) (hsize ▸ Nat.le_add_right _ _)
  · rw [hstarts, List.length_append, ← hc.starts, hsize]
  rw [hstarts] at hstart
  rw [hstands] at hplace
  by_cases hold : s.index < q.segments.size
  · rw [List.getElem?_append_left (hc.starts ▸ hold)] at hstart
    rw [List.getElem?_append_left (hlength.symm ▸ hold)] at hplace
    by_cases hs : t.segment = s
    · subst hs
      rw [List.getElem?_set_self (q.length_stands ▸ hlt)] at hplace
      rw [Trial.layersOf_self, ← Option.some.inj hplace]
      exact hdown start _ (hc.descents _ start stand hstart hstand)
    · have hne : t.segment.index ≠ s.index := fun he => hs (congrArg SegmentId.mk he)
      rw [List.getElem?_set_ne hne] at hplace
      rw [Trial.layersOf_ne hs]
      exact hc.descents s start place hstart hplace
  · have hge : q.segments.size ≤ s.index := Nat.le_of_not_lt hold
    rw [List.getElem?_append_right (hc.starts ▸ hge), ← hc.starts] at hstart
    rw [List.getElem?_append_right (hlength.symm ▸ hge), hlength, List.getElem?_map, hstart]
      at hplace
    cases hplace
    have hnone : Trial.layersOf s (trials ++ [t]) = [] :=
      Trial.layersOf_eq_nil fun t' ht (he : t'.segment = s) => hold (he ▸ htried t' ht)
    rw [hnone]
    exact .stay start

end Chronicle

namespace Host

variable {user : UserCode κ σ} {r : RequestId} {h h' h₁ : Host κ σ} {m n : Nat} {q : Request κ}
  {root : Query κ}

/-- Unless a pass was nested, there is a chronicle of the request. -/
def Charted (user : UserCode κ σ) (r : RequestId) (root : Query κ) (h : Host κ σ) : Prop :=
  h.Unnested r → ∃ q trials, h.requests[r.index]? = some q ∧
    Chronicle user r root h.journal q trials

def Working (user : UserCode κ σ) (r : RequestId) (root : Query κ) (h : Host κ σ) : Prop :=
  h.Unnested r → ∃ q trials, h.requests[r.index]? = some q ∧ 0 < q.running ∧
    Chronicle user r root h.journal q trials

theorem Working.idle (hw : Working user r root h) (hi : Idle r h h') :
    Working user r root h' := by
  intro hu
  obtain ⟨q, trials, hq, hrunning, hc⟩ := hw (hu.of_extends hi.1)
  obtain ⟨hsilent, q', hq', hrunning', hsegments⟩ := hi.2 q hq hrunning hu
  exact ⟨q', trials, hq', hrunning' ▸ hrunning, hc.same hsegments fun _ hm => hm.silent hsilent⟩

theorem Working.retry {s : SegmentId} {a : Unit} (hw : Working user r root h)
    (hrun : retry user (perform user m) r s n h = some (a, h')) : Working user r root h' := by
  intro hu
  have F : Frames user r (Extends (κ := κ) (σ := σ)) := frames_extends user r
  have hgrown : h.Extends h' := F.retry (F.perform m) (respectsWork_extends r) s n hrun
  obtain ⟨q, trials, hq, hrunning, hc⟩ := hw (hu.of_extends hgrown)
  obtain ⟨layers, stand, stand', q', hstand, hdown, hq', hrunning', hstands, hmarks⟩ :=
    retry_descends hq hrunning hc.marks hrun hu
  exact ⟨q', _, hq', hrunning', hc.add hstand hdown hstands hmarks⟩

theorem Working.batch {batch : List SegmentId} {a : Unit} (hw : Working user r root h)
    (hrun : (batch.forM fun s => Host.retry user (perform user m) r s n) h = some (a, h')) :
    Working user r root h' := by
  induction batch generalizing h with
  | nil =>
    cases hrun
    exact hw
  | cons s batch ih =>
    obtain ⟨⟨u, h₁⟩, hretry, hrest⟩ := Option.bind_eq_some_iff.mp hrun
    exact ih (hw.retry hretry) hrest

/-- A pass of a request tries segments, and the rest of it is no work on them. -/
theorem Working.pass {result : Except RenderError Unit} (hw : Working user r root h)
    (hrun : pass user (perform user m) r n h = some (result, h')) : Working user r root h' := by
  have F : Frames user r (Idle (κ := κ) (σ := σ) r) := frames_idle user r
  obtain ⟨q, h₁, hq, htry, rfl⟩ := pass_of_run hrun
  obtain ⟨⟨batch, h₂⟩, htake, hrest⟩ := Option.bind_eq_some_iff.mp htry
  obtain ⟨⟨u, h₃⟩, hbatch, hflush⟩ := Option.bind_eq_some_iff.mp hrest
  have hbegin : Idle r h ({ h with inPass := true }.tell (.began r (1 < q.running))) :=
    F.trans (F.same rfl rfl) (.tell id)
  have htaken : Respects (Idle r) (takePinged r : HostM κ σ (List SegmentId)) :=
    F.bind F.request fun _ => F.bind (Idle.modify fun _ => ⟨rfl, rfl⟩) fun _ =>
      F.toSurrounds.pure _
  have hflushed : Idle r h₃ h₁ := F.flushFlowing (F.perform m) (respectsFlush_idle r) n hflush
  have hend : Idle r h₁ { h₁ with inPass := h.inPass } := F.same rfl rfl
  exact ((((hw.idle hbegin).idle (htaken htake)).batch hbatch).idle hflushed).idle hend

def StaysCharted (user : UserCode κ σ) (r : RequestId) (root : Query κ) (h h' : Host κ σ) : Prop :=
  Charted user r root h → Charted user r root h'

theorem StaysCharted.update {f : Request κ → Request κ} (hf : ∀ q, (f q).segments = q.segments) :
    StaysCharted user r root h (h.update r f) := by
  intro hc hu
  obtain ⟨q, trials, hq, hc⟩ := hc hu
  exact ⟨f q, trials, requests_update_self hq f, hc.same (hf q) fun _ hm => hm⟩

theorem StaysCharted.tell {e : Event} (he : ¬ e.IsCraft r) :
    StaysCharted user r root h (h.tell e) := by
  intro hc hu
  obtain ⟨q, trials, hq, hc⟩ := hc (hu.of_extends (.tell h e))
  exact ⟨q, trials, hq, hc.same rfl fun _ hm => .other he hm⟩

theorem surrounds_charted (user : UserCode κ σ) (r : RequestId) (root : Query κ) :
    Surrounds r (StaysCharted user r root) where
  refl h := id
  trans h₁₂ h₂₃ := h₂₃ ∘ h₁₂
  same hreq hj hc hu := by
    have hu' : Unnested _ r := fun hmem => hu (hj ▸ hmem)
    obtain ⟨q, trials, hq, hc⟩ := hc hu'
    exact ⟨q, trials, hreq.trans hq, hj ▸ hc⟩
  tell h e he := .tell he.not_isCraft
  adjust h f hf := .update fun q => by
    obtain ⟨sink, fatal, held, pinged, he, -⟩ := hf q
    rw [he]

theorem respectsFlush_charted : RespectsFlush (StaysCharted user r root) r where
  change h f hf := .update fun q => by
    obtain ⟨pending, modelRows, errorRows, flowing, closed, flushing, he⟩ := hf q
    rw [he]
  calling _ _ _ := .tell id
  called _ _ _ := .tell id

theorem frames_charted (user : UserCode κ σ) (r : RequestId) (root : Query κ) :
    Frames user r (StaysCharted user r root) := by
  have F := surrounds_charted user r root
  have hmodify : ∀ {f : Request κ → Request κ}, (∀ q, (f q).segments = q.segments) →
      Respects (StaysCharted user r root) (modifyRequest r f : HostM κ σ Unit) := by
    intro f hf h a h' hrun
    cases hrun
    exact .update hf
  have hrecord : ∀ {e : Event}, ¬ e.IsCraft r →
      Respects (StaysCharted user r root) (record e : HostM κ σ Unit) := by
    intro e he h a h' hrun
    cases hrun
    exact .tell he
  have hvisit : ∀ {α : Type} {m : HostM κ σ α}, Respects (StaysCharted user r root) m →
      Respects (StaysCharted user r root) (Host.running r m) :=
    F.running fun h f => .update fun _ => rfl
  refine
    { F with
      visit := hvisit
      start := F.bind (hmodify fun _ => rfl) fun _ => F.bind (hrecord id) fun _ => F.schedulePass
      flow := fun n hcall => hvisit (F.bind F.request fun _ => F.bind (hrecord id) fun _ =>
        F.bind (hmodify fun _ => rfl) fun _ => F.flush hcall respectsFlush_charted n)
      pass := fun n α k hcall hk h a h' hrun hc => ?_ }
  obtain ⟨h₁, hrest, rfl⟩ := running_of_run hrun
  obtain ⟨⟨result, h₂⟩, hpass, hend⟩ := Option.bind_eq_some_iff.mp hrest
  have hworking : Working user r root
      (h.update r fun req => { req with running := req.running + 1 }) := by
    intro hu
    obtain ⟨q, trials, hq, hc⟩ := hc hu
    exact ⟨_, trials, requests_update_self hq _, Nat.succ_pos _, hc.same rfl fun _ hm => hm⟩
  have hpassed : Charted user r root h₂ := by
    intro hu
    obtain ⟨q, trials, hq, -, hc⟩ := hworking.pass hpass hu
    exact ⟨q, trials, hq, hc⟩
  exact StaysCharted.update (fun _ => rfl) (hk result hend hpassed)

/-! ## Sessions -/

theorem charted_of_made {h₀ : Host κ σ} {settings : RequestSettings κ} {model : Model κ}
    (hr : Reachable user (fun _ => True) h₀) (hnone : h₀.requests[r.index]? = none)
    (hmade : Step user (fun _ => True) h₀ h)
    (hmodel : h.requests[r.index]? = some (.ofModel settings model)) :
    Charted user r (.model model) h := by
  intro hu
  have hmarks : Recounts user r h.journal [] := by
    rcases Frames.made_or_respects hmade with ⟨settings', model', r', h₁, hnew, -, hj⟩ | hR
    · rw [run_newRequest] at hnew
      cases hnew
      rw [hj]
      exact .other id (hr.recounts_nil hnone)
    · have habsent := (hR (frames_absent user r) hnone).1
      cases habsent.symm.trans hmodel
  refine ⟨_, [], hmodel, hmarks, nofun, rfl, fun s start stand hstart hstand => ?_⟩
  obtain ⟨index⟩ := s
  cases index with
  | zero =>
    cases hstart
    cases hstand
    exact .stay _
  | succ index => cases hstart

/-- A request that was made from a model has a chronicle ever after, as long as none of its passes is
nested. -/
theorem exists_chronicle {h₀ : Host κ σ} {settings : RequestSettings κ} {model : Model κ}
    (hr : Reachable user (fun _ => True) h₀) (hnone : h₀.requests[r.index]? = none)
    (hmade : Step user (fun _ => True) h₀ h₁)
    (hmodel : h₁.requests[r.index]? = some (.ofModel settings model))
    (hsteps : Relation.ReflTransGen (Step user fun _ => True) h₁ h) (hu : h.Unnested r) :
    ∃ q trials, h.requests[r.index]? = some q ∧
      Chronicle user r (.model model) h.journal q trials := by
  have hcharted : Charted user r (.model model) h :=
    (frames_charted user r (.model model)).steps hsteps hmodel
      (charted_of_made hr hnone hmade hmodel)
  exact hcharted hu

/-- Whatever user code, thenables and destinations do: if a request is made from a model and none of
its passes is ever nested, then in every later state its work is a list of trials. The journal
recounts their user code and tells of no other; each segment has gone down one descent, which starts
from the model for the first segment and from the query of the deferral that has made it for each
further one, and has come to where the segment stands. So the value of a segment is handed to the
serializer at most once; once a loader or an element has given a value, the segment goes on from
that value for good; and what is deferred while a value is serialized is the loader, or the
innermost element, that had to wait. -/
theorem work_kept (user : UserCode κ σ) {h₀ h₁ h : Host κ σ} {r : RequestId}
    {settings : RequestSettings κ} {model : Model κ} (hr : Reachable user (fun _ => True) h₀)
    (hnone : h₀.requests[r.index]? = none) (hmade : Step user (fun _ => True) h₀ h₁)
    (hmodel : h₁.requests[r.index]? = some (.ofModel settings model))
    (hsteps : Relation.ReflTransGen (Step user fun _ => True) h₁ h) (hu : h.Unnested r) :
    ∃ q trials, h.requests[r.index]? = some q ∧
      Chronicle user r (.model model) h.journal q trials ∧
      ∀ (s : SegmentId) stand, q.stands[s.index]? = some stand →
        (Trial.layersOf s trials).countP Layer.isHanded ≤ 1 ∧
        (∀ above layer below query, Trial.layersOf s trials = above ++ layer :: below →
          layer.next? = some query → Descent query below stand) ∧
        Deferring ((Trial.layersOf s trials).flatMap Layer.deeds) := by
  obtain ⟨q, trials, hq, hc⟩ := exists_chronicle hr hnone hmade hmodel hsteps hu
  refine ⟨q, trials, hq, hc, fun s stand hstand => ?_⟩
  have hlt : s.index < (Query.model model :: Trial.deferred trials).length := by
    rw [← hc.starts, ← q.length_stands]
    exact (List.getElem?_eq_some_iff.mp hstand).1
  have hdescent := hc.descents s _ stand (List.getElem?_eq_getElem hlt) hstand
  refine ⟨hdescent.countP_isHanded, fun above layer below query he hnext => ?_,
    hdescent.deferring⟩
  rw [he] at hdescent
  exact hdescent.after_layer hnext

theorem work_kept_late : ∃ (h : Host Unit Unit) (q : Request Unit) (trials : List (Trial Unit)),
    h.requests[0]? = some q ∧ q.segments.size = 2 ∧
      Chronicle Late.user ⟨0⟩ (.model Late.model) h.journal q trials ∧
      (Trial.layersOf ⟨1⟩ trials).countP Layer.isHanded ≤ 1 := by
  obtain ⟨h₁, hnew⟩ : ∃ h₁, newRequest (σ := Unit) Late.settings Late.model (fresh () #[]) =
      some (⟨0⟩, h₁) := ⟨_, rfl⟩
  have hplay : ((newRequest Late.settings Late.model (fresh () #[])).bind fun made =>
      Late.whole.run (perform Late.user 20) made.2).any (fun ended =>
        decide (ended.2.Unnested ⟨0⟩) &&
          (ended.2.requests[0]?.map fun q => q.segments.size) == some 2) = true := by
    decide +kernel
  rw [hnew, Option.bind_some] at hplay
  obtain ⟨⟨u, h⟩, hrun, hend⟩ := (Option.any_eq_true _ _).mp hplay
  obtain ⟨hunnested, hsize⟩ := (Bool.and_eq_true _ _).mp hend
  have hmade : Step Late.user (fun _ => True) (fresh () #[]) h₁ := .create _ _ hnew
  have hmakes : Late.whole.Makes fun _ => True :=
    Late.whole_makes.imp (fun _ _ => trivial) (fun _ _ h => h) fun _ h => h
  have hmodel : h₁.requests[0]? = some (.ofModel Late.settings Late.model) := by
    cases hnew
    rfl
  obtain ⟨q, trials, hq, hc, hdescents⟩ := work_kept (r := ⟨0⟩) Late.user ⟨(), #[], .refl⟩ rfl
    hmade hmodel (.single (.script 20 hmakes hrun)) (of_decide_eq_true hunnested)
  have htwo : q.segments.size = 2 := by
    rw [show h.requests[0]? = some q from hq] at hsize
    simpa using hsize
  have hlt : 1 < q.stands.length := by
    rw [q.length_stands, htwo]
    exact Nat.one_lt_two
  obtain ⟨honce, -, -⟩ := hdescents ⟨1⟩ _ (List.getElem?_eq_getElem hlt)
  exact ⟨h, q, trials, hq, htwo, hc, honce⟩

end Host
end TreeStream

import TreeStream.Proofs.Serializing

/-!
# A work pass is a course of turns

A pass takes the pinged segments, tries them one after the other and ends with a flush. Whatever
user code does on the way, the hand is found again as it was left.
-/

namespace TreeStream

namespace Host

variable {κ σ α : Type} {W : World κ} {g : Hands κ} {r : RequestId} {x : Hand κ}
  {user : UserCode κ σ} {call : (c : HostCall κ) → HostM κ σ c.Reply} {b : PassState κ}
  {l : List (PassState κ)} {a : Attempt κ}

/-! ## The end of an attempt -/

def inner (x : Hand κ) (b : PassState κ) (l : List (PassState κ)) : Hand κ :=
  { x with passes := b :: l }

theorem endSegment_at {y : Hand κ} {s : SegmentId} {f : RowId → Request κ → Request κ}
    {w : RowId → Row}
    (ht : ∀ v q seg, v.request = some q → q.segments[s.index]? = some seg →
      Working W r x v y
        { v with
          request := some
            (f seg.id
              { q with
                segments := q.segments.modify s.index fun seg => { seg with completed := true } })
          log := .completed r (w seg.id) :: v.log }) :
    Triple (σ := σ) W (At W (g.set r x))
      (do
        modifySegment r s fun seg => { seg with completed := true }
        let id := (← segment r s).id
        modifyRequest r (f id)
        record (.completed r (w id)))
      fun _ => At W (g.set r y) := by
  refine Triple.of_run fun h u h' hrun => ?_
  rw [run_bind, run_modifySegment, Option.bind_some] at hrun
  obtain ⟨⟨seg', h₁⟩, hseg, hrest⟩ := Option.bind_eq_some_iff.mp hrun
  obtain ⟨q, seg, hq, hs, hid, rfl⟩ := completed_of_run hseg
  cases hrest
  refine ⟨rfl, fun ha => ha.turn (.working ?_) fun r' hr => ?_⟩
  · change Working W r x (h.view r) y
      ((((h.update r _).update r (f seg'.id)).tell (.completed r (w seg'.id))).view r)
    rw [view_tell_self rfl, view_update_self (requests_update_self hq _), view_update_self hq, hid]
    exact ht _ q seg hq hs
  · exact (view_tell_ne rfl hr).trans ((view_update_ne hr (f seg'.id)).trans (view_update_ne hr _))

theorem failSegment_at {e : RenderError} (hb : b.attempt = some a)
    (hf : Attempt.Fails W b.modules a e) :
    Triple (σ := σ) W (At W (g.set r (inner x b l))) (failSegment r a.segment e) fun _ =>
      At W (g.set r (inner x { b with attempt := none } l)) :=
  endSegment_at (f := fun id req => { req with errorRows := req.errorRows ++ [Row.ofError id e] })
    (w := fun id => Row.ofError id e)
    fun _ _ _ hq hseg => Working.fail (g := inner x b l) rfl hb hf hq hseg

theorem completeSegment_at {json : String} {strict : Bool} {depth : Nat} {value : Model κ}
    (hb : b.attempt = some a) (hv : a.value = some value)
    (hs : W.Serializes b.modules strict depth value (.ok json) a.issues) :
    Triple (σ := σ) W (At W (g.set r (inner x b l))) (completeSegment r a.segment json) fun _ =>
      At W (g.set r (inner x { b with attempt := none } l)) :=
  endSegment_at (f := fun id req => { req with modelRows := req.modelRows ++ [Row.ofModel id json] })
    (w := fun id => Row.ofModel id json)
    fun _ _ _ hq hseg => Working.complete (g := inner x b l) rfl hb hv hs hq hseg

theorem endSegment_grows (s : SegmentId) (f : RowId → Request κ → Request κ) (w : RowId → Row) :
    Grows (σ := σ) (do
      modifySegment r s fun seg => { seg with completed := true }
      let id := (← segment r s).id
      modifyRequest r (f id)
      record (.completed r (w id))) :=
  Grows.bind (Grows.modify fun _ => rfl) fun _ =>
    Grows.bind (segment_grows r s) fun _ =>
      Grows.bind (Grows.modify fun _ => rfl) fun _ => Grows.modify fun _ => rfl

theorem failSegment_grows (s : SegmentId) (e : RenderError) :
    Grows (σ := σ) (κ := κ) (failSegment r s e) :=
  endSegment_grows s (fun id req => { req with errorRows := req.errorRows ++ [Row.ofError id e] })
    fun id => Row.ofError id e

theorem completeSegment_grows (s : SegmentId) (json : String) :
    Grows (σ := σ) (κ := κ) (completeSegment r s json) :=
  endSegment_grows s (fun id req => { req with modelRows := req.modelRows ++ [Row.ofModel id json] })
    fun id => Row.ofModel id json

/-! ## The layers of an attempt -/

def attemptAt (b : PassState κ) (a : Attempt κ) (value : Option (Model κ)) : PassState κ :=
  { b with attempt := some { a with value := value, issues := [] } }

theorem resolveElement_at (huser : user.KeepsTo W) (hcall : Answers W call)
    (e : Element κ (Model κ)) (value : Option (Model κ)) :
    Triple W (At W (g.set r (inner x (attemptAt b a value) l)))
      (Serializer.resolveElement (codeEffects user call r) e) fun outcome h =>
        At W (g.set r (inner x (attemptAt b a value) l)) h ∧ W.Resolves e outcome := by
  have hcode := codeEffects_refine (g := g) (r := r) (x := x) (b := b) (l := l)
    (a := { a with value := value, issues := [] }) huser hcall
  refine (Serializer.resolveRenderable_refines hcode e.key e.props e.renderable []).conseq
    (fun h ha => ⟨trivial, ha⟩) fun outcome h hP => ?_
  obtain ⟨js, hjs, ha⟩ := hP
  cases Serializer.resolveRenderable_issues hjs
  exact ⟨ha, hjs⟩

/-- An attempt that has to wait ends, and its segment's ping is owed. -/
theorem At.wait {h : Host κ σ} {value : Option (Model κ)}
    (ha : At W (g.set r (inner x (attemptAt b a value) l)) h) :
    At W ((g.set r (inner x { b with attempt := none } l)).owe [.ping r a.segment]) h := by
  rw [Hands.owe_ping, Hands.set_self, Hands.set_set]
  exact ha.ghost (.working (Working.wait (g := inner x (attemptAt b a value) l)
    (b := attemptAt b a value) (l := l) (a := { a with value := value, issues := [] }) rfl rfl
    rfl))

theorem waits_of_resolves (huser : user.KeepsTo W) {e : Element κ (Model κ)} {t : Thenable κ}
    (h : W.Resolves e (.suspended t)) : W.Waits t :=
  Serializer.waits_of_resolveRenderable huser.rendered h

/-- An attempt advances layer by layer; it may end on the way. -/
theorem advance_at (huser : user.KeepsTo W) (hcall : Answers W call) (n : Nat)
    (value : Model κ) :
    Triple W (At W (g.set r (inner x (attemptAt b a (some value)) l)))
      (advance user call r a.segment n value) fun reached h =>
        match reached with
        | none => At W (g.set r (inner x { b with attempt := none } l)) h
        | some value => At W (g.set r (inner x (attemptAt b a (some value)) l)) h := by
  induction n generalizing value with
  | zero => exact Triple.failure
  | succ n ih =>
    cases value with
    | element e =>
      have hmemo : Triple (σ := σ) W
          (At W (g.set r (inner x (attemptAt b a (some (.element e))) l)))
          (modifySegment r a.segment fun seg => { seg with query := .model (.element e) })
          fun _ => At W (g.set r (inner x (attemptAt b a (some (.element e))) l)) := by
        refine Triple.modifyRequest fun h ha => ?_
        obtain ⟨q, hq⟩ := ha.exists_of_busy (.inr (.inl (by simp [inner])))
        exact ha.update hq (.working (Working.memo
          (g := inner x (attemptAt b a (some (.element e))) l)
          (b := attemptAt b a (some (.element e))) (l := l)
          (a := { a with value := some (.element e), issues := [] }) rfl rfl rfl hq))
      refine hmemo.bind fun _ => (resolveElement_at huser hcall e _).bind fun outcome => ?_
      cases outcome with
      | ready next =>
        refine (ih next).pre fun h hP => hP.1.ghost (.working ?_)
        exact Working.layer (g := inner x (attemptAt b a (some (.element e))) l)
          (b := attemptAt b a (some (.element e))) (l := l)
          (a := { a with value := some (.element e), issues := [] }) rfl rfl rfl hP.2
      | suspended t =>
        refine Triple.bind (Q := fun _ => At W (g.set r (inner x { b with attempt := none } l)))
          ?_ fun _ => Triple.pure fun h ha => ha
        refine Triple.assuming (waitFor_grows hcall _ t)
          (fun h hP => waits_of_resolves huser hP.2) fun ht => ?_
        exact (waitFor_at huser hcall a.segment ht).pre fun h hP => hP.1.wait
      | failed err =>
        refine Triple.bind (Q := fun _ => At W (g.set r (inner x { b with attempt := none } l)))
          ?_ fun _ => Triple.pure fun h ha => ha
        refine Triple.assuming (failSegment_grows _ err) (fun h hP => hP.2) fun hf => ?_
        exact (failSegment_at (b := attemptAt b a (some (.element e)))
          (a := { a with value := some (.element e), issues := [] }) rfl
          (.layer rfl hf)).pre fun h hP => hP.1
    | _ => exact Triple.pure fun h ha => ha

/-! ## Serializing what was reached -/

theorem serialize_refines (huser : user.KeepsTo W) (hcall : Answers W call)
    (strict : Bool) (n : Nat) (value : Model κ) (hv : a.value.isSome) :
    Refines W True (fun is => At W (g.set r (attemptHand x b l a is)))
      (Serializer.serialize (codeEffects user call r) (context user call r strict) n value).run
      (W.Serializes b.modules strict n value) :=
  (Serializer.position_refines (codeEffects_refine huser hcall)
    (context_refines huser hcall hv strict) n _ _ _ value).andThen fun _ => .ok

theorem finish_at (huser : user.KeepsTo W) (hcall : Answers W call) (n : Nat)
    (value : Model κ) :
    Triple W (At W (g.set r (inner x (attemptAt b a (some value)) l)))
      (finish user call r a.segment n value) fun _ =>
        At W (g.set r (inner x { b with attempt := none } l)) := by
  refine Triple.request.bind fun q => ?_
  have hserialize := serialize_refines (g := g) (r := r) (x := x) (b := b) (l := l)
    (a := { a with value := some value }) huser hcall q.settings.strict n value rfl []
  refine Triple.bind (hserialize.pre fun h hP => ⟨trivial, hP.1⟩) fun result => ?_
  cases result with
  | ok json =>
    refine Triple.of_exists (completeSegment_grows _ json) fun js hjs => ?_
    exact completeSegment_at
      (b := { b with attempt := some { a with value := some value, issues := [] ++ js } })
      (a := { a with value := some value, issues := [] ++ js }) rfl rfl hjs
  | error e =>
    refine Triple.of_exists (failSegment_grows _ e) fun js hjs => ?_
    exact failSegment_at
      (b := { b with attempt := some { a with value := some value, issues := [] ++ js } })
      (a := { a with value := some value, issues := [] ++ js }) rfl (.refusal rfl hjs)

/-! ## Segments -/

def leftAt (b : PassState κ) (batch : List SegmentId) : PassState κ :=
  { b with batch := batch, current := none, attempt := none }

def atSegment (b : PassState κ) (s : SegmentId) (batch : List SegmentId) : PassState κ :=
  { b with batch := batch, current := some s, attempt := none }

theorem wait_at (huser : user.KeepsTo W) (hcall : Answers W call) {value : Option (Model κ)}
    {t : Thenable κ} (ht : W.Waits t) :
    Triple W (At W (g.set r (inner x (attemptAt b a value) l)))
      (waitFor user call r a.segment t) fun _ =>
        At W (g.set r (inner x { b with attempt := none } l)) :=
  (waitFor_at huser hcall a.segment ht).pre fun _ ha => ha.wait

theorem runQuery_at (huser : user.KeepsTo W) (hcall : Answers W call) (query : Query κ)
    (value : Option (Model κ)) :
    Triple W (At W (g.set r (inner x (attemptAt b a value) l))) (runQuery user call r query)
      fun outcome h =>
        At W (g.set r (inner x (attemptAt b a value) l)) h ∧ W.Starts query outcome := by
  cases query with
  | model start => exact Triple.pure fun h ha => ⟨ha, rfl⟩
  | load code =>
    exact runCode_at hcall ⟨r, by simp [inner]⟩ .load (huser.load code)

theorem waits_of_starts (huser : user.KeepsTo W) {query : Query κ} {t : Thenable κ}
    (h : W.Starts query (.suspended t)) : W.Waits t := by
  cases query with
  | model start => cases h
  | load code => exact huser.loaded code t h

theorem retried_at {s : SegmentId} {ss : List SegmentId} (hb : b.inFlush = x.delivery.isSome) :
    Triple (σ := σ) W (At W (g.set r (inner x (leftAt b (s :: ss)) l)))
      (do record (.retried r s); segment r s) fun seg h =>
        (seg.completed = true → At W (g.set r (inner x (atSegment b s ss) l)) h) ∧
          (seg.completed = false → ∃ q, h.requests[r.index]? = some q ∧
            q.segments[s.index]? = some seg ∧
            At W (g.set r (inner x (attemptAt (atSegment b s ss)
              { segment := s, query := seg.query } none) l)) h) := by
  refine Triple.of_run fun h seg h' hrun => ?_
  rw [run_bind, run_record, Option.bind_some] at hrun
  obtain ⟨q, hq, hseg, rfl⟩ := segment_of_run hrun
  refine ⟨rfl, fun ha => ⟨fun hc => ha.turn (.working ?_) fun _ hr => view_tell_ne rfl hr,
    fun hc => ⟨q, hq, hseg, ha.turn (.working ?_) fun _ hr => view_tell_ne rfl hr⟩⟩⟩
  · rw [view_tell_self rfl]
    exact Working.skip (g := inner x (leftAt b (s :: ss)) l) rfl rfl rfl hq hseg hc rfl
  · rw [view_tell_self rfl]
    have := Working.attempt (W := W) (r := r) (v := h.view r) (b := leftAt b (s :: ss)) (l := l)
      (g := inner x (leftAt b (s :: ss)) l) rfl rfl rfl hq hseg hc hb.symm rfl
    exact this

theorem leave_segment_at {s : SegmentId} {ss : List SegmentId} :
    Triple (σ := σ) W (At W (g.set r (inner x (atSegment b s ss) l))) (record (.left r s)) fun _ =>
      At W (g.set r (inner x (leftAt b ss) l)) := by
  refine Triple.of_run fun h u h' hrun => ?_
  rw [run_record] at hrun
  cases hrun
  refine ⟨rfl, fun ha => ha.turn (.working ?_) fun _ hr => view_tell_ne rfl hr⟩
  rw [view_tell_self rfl]
  exact Working.leave (g := inner x (atSegment b s ss) l) rfl rfl rfl

theorem trySegment_at (huser : user.KeepsTo W) (hcall : Answers W call) (n : Nat)
    {s : SegmentId} :
    Triple W
      (fun h => ∃ q seg, h.requests[r.index]? = some q ∧ q.segments[s.index]? = some seg ∧
        At W (g.set r (inner x (attemptAt b { segment := s, query := seg.query } none) l)) h)
      (trySegment user call r s n) fun _ =>
        At W (g.set r (inner x { b with attempt := none } l)) := by
  refine Triple.segment.bind fun seg => ?_
  obtain ⟨a, hs, hquery⟩ : ∃ a : Attempt κ, a.segment = s ∧ a.query = seg.query :=
    ⟨{ segment := s, query := seg.query }, rfl, rfl⟩
  have hrun := runQuery_at (g := g) (r := r) (x := x) (b := b) (l := l) (a := a) huser hcall
    seg.query none
  subst hs
  refine Triple.bind (hrun.pre ?_) fun outcome => ?_
  · rintro h ⟨⟨q, seg', hq, hseg', ha⟩, q', hq', hseg⟩
    cases hq.symm.trans hq'
    cases hseg'.symm.trans hseg
    rw [← hquery] at ha
    exact ha
  cases outcome with
  | suspended t =>
    refine Triple.assuming (waitFor_grows hcall _ t) (fun h hP => waits_of_starts huser hP.2)
      fun ht => ?_
    exact (wait_at huser hcall ht).pre fun h hP => hP.1
  | failed e =>
    refine Triple.assuming (failSegment_grows _ e) (fun h hP => hP.2) fun hf => ?_
    exact (failSegment_at (b := attemptAt b a none)
      (a := { a with value := none, issues := [] }) rfl
      (.start rfl (by rw [hquery]; exact hf))).pre fun h hP => hP.1
  | ready value =>
    have hadvance := advance_at (g := g) (r := r) (x := x) (b := b) (l := l) (a := a) huser hcall
      n value
    refine Triple.bind (hadvance.pre ?_) fun reached => ?_
    · rintro h ⟨ha, hstart⟩
      exact ha.ghost (.working (Working.value (g := inner x (attemptAt b a none) l)
        (b := attemptAt b a none) (l := l)
        (a := { a with value := none, issues := [] }) rfl rfl rfl (by rw [hquery]; exact hstart)))
    · cases reached with
      | none => exact Triple.pure fun h ha => ha
      | some value => exact finish_at huser hcall n value

theorem retry_at (huser : user.KeepsTo W) (hcall : Answers W call) (n : Nat)
    (s : SegmentId) (ss : List SegmentId) (hb : b.inFlush = x.delivery.isSome) :
    Triple W (At W (g.set r (inner x (leftAt b (s :: ss)) l)))
      (retry user call r s n) fun _ =>
        At W (g.set r (inner x (leftAt b ss) l)) := by
  have hsplit : retry user call r s n =
      ((do record (.retried r s); segment r s) >>= fun seg : Segment κ =>
        if seg.completed then pure () else trySegment user call r s n) >>=
          fun _ => record (.left r s) := by
    rw [retry, tryOpen]
    simp only [bind_assoc]
  rw [hsplit]
  refine ((retried_at hb).bind fun seg => ?_).bind fun _ => leave_segment_at
  cases hc : seg.completed with
  | true => exact Triple.pure fun h hP => hP.1 rfl
  | false =>
    refine (trySegment_at (b := atSegment b s ss) huser hcall n).pre fun h hP => ?_
    obtain ⟨q, hq, hseg, ha⟩ := hP.2 rfl
    exact ⟨q, seg, hq, hseg, ha⟩

/-! ## Passes -/

def beginning (x : Hand κ) (modules : ModuleSource κ) (batch : List SegmentId) : PassState κ where
  modules := modules
  batch := batch
  inFlush := x.delivery.isSome

theorem begin_at :
    Triple (σ := σ) W
      (fun h => At W (g.set r { x with fresh := x.fresh + 1, due := x.due + 1 }) h ∧
        h.inPass = true)
      (do record (.began r (1 < (← request r).running)); takePinged r) fun batch h =>
        ∃ modules, At W (g.set r (inner x (beginning x modules batch) x.passes)) h := by
  refine Triple.of_run fun h batch h' hrun => ?_
  rw [run_bind] at hrun
  cases hq : h.requests[r.index]? with
  | none =>
    rw [run_request_missing hq] at hrun
    cases hrun
  | some q =>
    have hq' : (h.tell (.began r (1 < q.running))).requests[r.index]? = some q := hq
    simp only [run_request hq, Option.bind_some, run_bind, run_record, takePinged,
      run_request hq', run_modifyRequest, run_pure] at hrun
    cases hrun
    refine ⟨rfl, fun hP => ⟨q.settings.modules, hP.1.turn (.working ?_) fun r' hr => ?_⟩⟩
    · rw [view_update_self hq', view_tell_self rfl]
      exact Working.begin (v := h.view r)
        (g := { x with fresh := x.fresh + 1, due := x.due + 1 }) hq hP.2 (Nat.succ_pos _)
    · rw [view_update_ne hr, view_tell_ne rfl hr]

/-- A pass that has tried its whole batch ends with a flush if its request is flowing. -/
theorem lastFlush_at (huser : user.KeepsTo W) (hcall : Answers W call) (n : Nat)
    (hb : b.inFlush = x.delivery.isSome) :
    Triple W (At W (g.set r (inner x (leftAt b []) l)))
      (do if (← request r).flowing then flush user call r n else pure (.ok ())) fun _ =>
        At W (g.set r { x with fresh := x.fresh + 1, passes := l }) := by
  refine Triple.request.bind fun q => ?_
  cases hf : q.flowing with
  | false =>
    refine Triple.pure fun h hP => hP.1.ghost (.working ?_)
    exact Working.finish (g := inner x (leftAt b []) l)
      rfl rfl rfl hP.2 hb.symm (.inl hf) rfl
  | true =>
    refine (flushLast_at huser hcall n rfl rfl rfl).conseq (fun h hP => ⟨hP.1, q, hP.2, hf⟩)
      fun result h hP => ?_
    rcases hP with ha | ⟨ha, q, hq, hflushing⟩
    · exact ha
    · have hdelivery : x.delivery ≠ none := by
        have := ((ha r).coherent.flushing q hq).mp hflushing
        rwa [Hands.set_self] at this
      have hin : b.inFlush = true := by rw [hb, Option.isSome_iff_ne_none.mpr hdelivery]
      exact ha.ghost (.working (.finish rfl rfl rfl hq hb.symm (.inr hin) rfl))

theorem tryBatch_at (huser : user.KeepsTo W) (hcall : Answers W call) (n : Nat)
    (batch : List SegmentId) (hb : b.inFlush = x.delivery.isSome) :
    Triple W (At W (g.set r (inner x (leftAt b batch) l)))
      (do
        batch.forM fun s => retry user call r s n
        if (← request r).flowing then flush user call r n else pure (.ok ())) fun _ =>
        At W (g.set r { x with fresh := x.fresh + 1, passes := l }) :=
  (Triple.forM (I := fun ss => At W (g.set r (inner x (leftAt b ss) l)))
    (fun s ss => retry_at huser hcall n s ss hb) batch).bind fun _ => lastFlush_at huser hcall n hb

theorem tryBatch_grows (huser : user.KeepsTo W) (hcall : Answers W call) (n : Nat)
    (batch : List SegmentId) :
    Grows (do
      batch.forM fun s => retry user call r s n
      if (← request r).flowing then flush user call r n else pure (.ok ())) :=
  (tryBatch_at (g := fun _ => {}) (x := {}) (l := [])
    (b := { modules := .manifest .empty, batch := [] }) huser hcall n batch rfl).grows

theorem tryPinged_at (huser : user.KeepsTo W) (hcall : Answers W call) (n : Nat) :
    Triple W
      (fun h => At W (g.set r { x with fresh := x.fresh + 1, due := x.due + 1 }) h ∧
        h.inPass = true)
      (tryPinged user call r n) fun _ => At W (g.set r { x with fresh := x.fresh + 1 }) := by
  have hsplit : tryPinged user call r n =
      (do record (.began r (1 < (← request r).running)); takePinged r) >>=
        fun batch : List SegmentId => (do
          batch.forM fun s => retry user call r s n
          if (← request r).flowing then flush user call r n else pure (.ok ())) := by
    simp only [bind_assoc]
    rfl
  rw [hsplit]
  refine begin_at.bind fun batch => ?_
  refine (Triple.of_exists (φ := fun _ => True) (tryBatch_grows huser hcall n batch)
    fun modules _ => ?_).pre fun h ⟨modules, ha⟩ => ⟨modules, trivial, ha⟩
  exact tryBatch_at (b := beginning x modules []) huser hcall n batch rfl

/-- The mark of passes is set, or taken away where no pass is under way. -/
theorem mark_at (mark : Bool) (hm : (∀ r, (g r).passes = []) ∨ mark = true) :
    Triple (σ := σ) W (At W g) (modify fun h : Host κ σ => { h with inPass := mark }) fun _ h =>
      At W g h ∧ h.inPass = mark :=
  Triple.update (fun _ => rfl) fun _ ha =>
    ⟨fun r => (ha r).turn (.ambient (.mark mark (hm.imp (fun hr => hr r) id))), rfl⟩

theorem pass_at (huser : user.KeepsTo W) (hcall : Answers W call) (n : Nat) :
    Triple W (At W (g.set r { x with fresh := x.fresh + 1, due := x.due + 1 }))
      (pass user call r n) fun _ => At W (g.set r { x with fresh := x.fresh + 1 }) := by
  have htry := tryPinged_at (g := g) (r := r) (x := x) huser hcall n
  refine Triple.bind (Triple.get (Q := fun outer h =>
    At W (g.set r { x with fresh := x.fresh + 1, due := x.due + 1 }) h ∧
      ((∀ r', (g.set r { x with fresh := x.fresh + 1 } r').passes = []) ∨ outer.inPass = true))
    fun h ha => ⟨ha, ?_⟩) fun outer => ?_
  · by_cases hin : h.inPass = true
    · exact .inr hin
    · refine .inl fun r' => Classical.byContradiction fun hne => hin (ha.inPass (r := r') ?_)
      by_cases hr : r' = r
      · subst hr
        simpa using hne
      · rwa [Hands.set_ne g hr] at hne ⊢
  · have hrest : ∀ result : Except RenderError Unit,
        Grows (κ := κ) (σ := σ) (do
          modify fun h => { h with inPass := outer.inPass }
          pure result) :=
      fun result => Grows.bind (Grows.modify fun _ => rfl) fun _ => Grows.pure _
    refine Triple.assuming (Grows.bind (Grows.modify fun _ => rfl) fun _ =>
      Grows.bind htry.grows hrest) (fun h hP => hP.2) fun houter => ?_
    refine ((mark_at true (.inr rfl)).pre fun h hP => hP.1).bind fun _ => htry.bind fun result => ?_
    exact (mark_at _ houter).bind fun _ => Triple.pure fun h hP => hP.1

theorem pass_missing {h : Host κ σ} {n : Nat} (hq : h.requests[r.index]? = none) :
    pass user call r n h = none := by
  have htry : tryPinged user call r n { h with inPass := true } = none := by
    have hmissing : request r { h with inPass := true } = none := run_request_missing hq
    rw [tryPinged, run_bind, hmissing]
    rfl
  simp only [pass, run_bind, run_get, run_modify, Option.bind_some, htry, Option.bind_none]

theorem keepFatal_at (result : Except RenderError Unit) :
    Triple (σ := σ) W (At W g) (keepFatal r result) fun _ => At W g := by
  cases result with
  | ok u => exact Triple.pure fun h ha => ha
  | error e => exact adjust_at fun q => ⟨q.settings.sink, some e, q.held, id, rfl⟩

/-- A pass that has left its queue; without its request it gives no result. -/
theorem queuedPass_at (huser : user.KeepsTo W) (hcall : Answers W call) (n : Nat) :
    Triple W (Popped W (g.set r x) r) (queuedPass user call r n) fun _ => At W (g.set r x) := by
  have hpass := (pass_at (g := g) (r := r) (x := x) huser hcall n).bind fun result =>
    keepFatal_at (r := r) result
  have hrest := hpass.bind fun u => leave_at.bind fun _ =>
    Triple.pure (a := u) (Q := fun _ => At W (g.set r x)) fun _ ha => ha
  intro h u h' hrun
  rw [queuedPass, running, run_bind, run_modifyRequest, Option.bind_some] at hrun
  have hlater : h.Later (h.update r fun req => { req with running := req.running + 1 }) :=
    .of_promises_eq rfl
  refine ⟨hlater.trans (hrest.grows hrun), fun hw hp => ?_⟩
  cases hq : h.requests[r.index]? with
  | some q => exact (hrest hrun).2 hw (pop_at hp hq)
  | none =>
    have hq' := requests_update_missing hq fun req => { req with running := req.running + 1 }
    simp [run_bind, pass_missing hq'] at hrun

end Host
end TreeStream

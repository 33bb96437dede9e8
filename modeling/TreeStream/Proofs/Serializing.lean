import TreeStream.Proofs.Flushes
import TreeStream.Proofs.Refinement

/-!
# Serializing is a course of turns

While a value is serialized, each row that it issues is a turn of the request. User code runs in
between, and may do anything that the world allows; the hand is found again as it was left.
-/

namespace TreeStream

namespace Host

variable {κ σ α : Type} {W : World κ} {g : Hands κ} {r : RequestId} {x : Hand κ}
  {user : UserCode κ σ} {call : (c : HostCall κ) → HostM κ σ c.Reply}

/-! ## Waiting -/

theorem At.pay_strays (hfree : W.Free) {g' : Hands κ} {h : Host κ σ} (ha : At W g' h)
    (hg : ∀ r, g r = { g' r with pings := (g r).pings }) : At W g h := by
  intro r
  rw [hg r]
  exact (ha r).turn (.ambient (.stray hfree _))

theorem waitFor_at (huser : user.KeepsTo W) (hcall : Answers W call) (s : SegmentId)
    {t : Thenable κ} (ht : W.Waits t) :
    Triple W (At W (g.owe [.ping r s])) (waitFor user call r s t) fun _ => At W g := by
  cases t with
  | promise p =>
    exact (hcall.pays (.subscribe p (.ping r s) (.ping r s)) (.inr (.inr rfl)) g).post
      fun _ h hP => hP.1
  | custom code =>
    have hfree : W.Free := ht.elim id fun ⟨p, hp⟩ => nomatch hp
    refine (script_at hcall False.elim (huser.await hfree code (.ping r s) (.ping r s))).conseq
      (fun _ ha => ?_) fun _ _ hP => hP.1
    exact ha.pay_strays hfree fun r => rfl

theorem waitFor_grows (hcall : Answers W call) (s : SegmentId) (t : Thenable κ) :
    Grows (waitFor user call r s t) := by
  cases t with
  | promise p => exact hcall.grows _
  | custom code => exact script_grows hcall.grows _

/-! ## User code of a model -/

theorem recordRun_at (r : RequestId) (step : UserStep) :
    Triple (σ := σ) W (At W g) (recordRun r step) fun _ => At W g :=
  Triple.bind (Q := fun _ => At W g) (Triple.get fun _ ha => ha) fun _ =>
    recordAside_at trivial rfl

theorem runCode_at (hcall : Answers W call) (hin : Hands.InPass g) (step : UserStep)
    {ends : α → Prop} {script : Script κ σ α} (ht : W.Tells True ends script) :
    Triple W (At W g) (do recordRun r step; script.run call) fun a h => At W g h ∧ ends a :=
  (recordRun_at r step).bind fun _ => script_at hcall (fun _ => hin) ht

def attemptHand (x : Hand κ) (b : PassState κ) (l : List (PassState κ)) (a : Attempt κ)
    (is : List (Issue κ)) : Hand κ :=
  { x with passes := { b with attempt := some { a with issues := is } } :: l }

variable {b : PassState κ} {l : List (PassState κ)} {a : Attempt κ} {is : List (Issue κ)}

theorem inPass_attempt : Hands.InPass (g.set r (attemptHand x b l a is)) :=
  ⟨r, by simp [attemptHand]⟩

theorem codeEffects_refine (huser : user.KeepsTo W) (hcall : Answers W call) :
    Serializer.CodeRefines W (fun is => At W (g.set r (attemptHand x b l a is)))
      (codeEffects user call r) where
  render c props ref := .silent fun _ =>
    runCode_at hcall inPass_attempt .render (huser.render c props ref)
  load c := .silent fun _ => runCode_at hcall inPass_attempt .load (huser.load c)
  toModel c := .silent fun _ => runCode_at hcall inPass_attempt .toModel (huser.toModel c)
  rendered := huser.rendered
  loaded := huser.loaded

/-! ## Rows that a serialization issues -/

theorem owe_attempt (s : SegmentId) (is : List (Issue κ)) :
    (g.set r (attemptHand x b l a is)).owe [.ping r s] =
      g.set r { attemptHand x b l a is with pings := s :: x.pings } := by
  rw [Hands.owe_ping, Hands.set_self, Hands.set_set]
  rfl

/-- A position that is deferred becomes a segment, whose ping is owed. -/
theorem deferral_at (query : Query κ) (hv : a.value.isSome) :
    Triple (σ := σ) W (At W (g.set r (attemptHand x b l a is)))
      (do
        modifyRequest r fun req => { req with pending := req.pending + 1 }
        newSegment r query)
      fun s h => ∃ id, At W
        ((g.set r (attemptHand x b l a (is ++ [.segment s id query]))).owe [.ping r s]) h := by
  refine Triple.of_run fun h s h' hrun => ?_
  rw [run_bind, run_modifyRequest, Option.bind_some] at hrun
  cases hq : h.requests[r.index]? with
  | none =>
    have hmissing := requests_update_missing hq
      (fun req => { req with pending := req.pending + 1 })
    simp [newSegment, allocate, run_bind, run_request_missing hmissing] at hrun
  | some q =>
    have h₁ := requests_update_self hq fun req => { req with pending := req.pending + 1 }
    have h₂ := requests_update_self h₁ fun req => { req with nextId := req.nextId.next }
    rw [run_newSegment h₁] at hrun
    cases hrun
    refine ⟨rfl, fun ha => ⟨q.nextId, ?_⟩⟩
    rw [owe_attempt]
    refine ha.turn (.working ?_) fun r' hr => ?_
    · rw [view_update_self (by exact h₂), view_tell_self rfl, view_update_self h₁, view_update_self hq]
      exact Working.defer (v := h.view r) (g := attemptHand x b l a is) query rfl rfl hv hq
    · rw [view_update_ne hr, view_tell_ne rfl hr, view_update_ne hr, view_update_ne hr]

theorem deferral_grows (query : Query κ) :
    Grows (σ := σ) (do
      modifyRequest r fun req => { req with pending := req.pending + 1 }
      newSegment r query) :=
  (show Triple World.any (At World.any (Hands.set (fun _ => {}) r (attemptHand {}
      { modules := .manifest .empty, batch := [] } []
      { segment := ⟨0⟩, query := .model .null, value := some .null } []))) _ _ from
    deferral_at query rfl).grows

/-- The id of a segment that was issued is read again after waiting, and still the same. -/
theorem id_at {s : SegmentId} {id : RowId} {query : Query κ} (hmem : .segment s id query ∈ is) :
    Triple (σ := σ) W (At W (g.set r (attemptHand x b l a is)))
      (do pure (← segment r s).id) fun id' h =>
        At W (g.set r (attemptHand x b l a is)) h ∧ id' = id := by
  refine Triple.segment.bind fun seg => Triple.pure fun h hP => ⟨hP.1, ?_⟩
  obtain ⟨ha, q, hq, hseg⟩ := hP
  have hfits := (ha r).coherent.fits_top (b := { b with attempt := some { a with issues := is } })
    (l := l) (by simp [attemptHand]) hq
  obtain ⟨seg', hseg', hid⟩ := hfits.ids _ rfl s id query hmem
  cases hseg.symm.trans hseg'
  exact hid

theorem id_grows (s : SegmentId) :
    Grows (σ := σ) (κ := κ) (do pure (← segment r s).id) :=
  Grows.bind (segment_grows r s) fun _ => Grows.pure _

theorem suspend_eq (query : Query κ) (t : Thenable κ) :
    suspend user call r query t =
      (do
        modifyRequest r fun req => { req with pending := req.pending + 1 }
        newSegment r query) >>= fun s =>
      (do
        waitFor user call r s t
        pure (← segment r s).id) := by
  rw [bind_assoc]
  rfl

theorem suspend_grows (hcall : Answers W call) (query : Query κ) (t : Thenable κ) :
    Grows (suspend user call r query t) := by
  rw [suspend_eq]
  exact Grows.bind (deferral_grows query) fun s =>
    Grows.bind (waitFor_grows hcall s t) fun _ => id_grows s

theorem suspend_refines (huser : user.KeepsTo W) (hcall : Answers W call) (hv : a.value.isSome)
    (query : Query κ) {t : Thenable κ} (ht : W.Waits t) :
    Refines W True (fun is => At W (g.set r (attemptHand x b l a is)))
      (suspend user call r query t) fun id js => ∃ s, js = [.segment s id query] := by
  intro is
  rw [suspend_eq]
  refine ((deferral_at query hv).pre fun h hP => hP.2).bind fun s => ?_
  have hrest : ∀ id, Triple W
      (At W ((g.set r (attemptHand x b l a (is ++ [.segment s id query]))).owe [.ping r s]))
      (do waitFor user call r s t; pure (← segment r s).id) fun id' h =>
        ∃ js, (∃ s, js = [.segment s id' query]) ∧
          At W (g.set r (attemptHand x b l a (is ++ js))) h := by
    intro id
    have hmem : Issue.segment s id query ∈ is ++ [.segment s id query] := by simp
    refine (waitFor_at huser hcall s ht).bind fun _ => (id_at hmem).post ?_
    rintro _ h ⟨ha, rfl⟩
    exact ⟨_, ⟨s, rfl⟩, ha⟩
  refine (Triple.of_exists (φ := fun _ => True) ?_ fun id _ => hrest id).pre
    fun h ⟨id, hP⟩ => ⟨id, trivial, hP⟩
  exact Grows.bind (waitFor_grows hcall s t) fun _ => id_grows s

theorem emitError_refines (hv : a.value.isSome) (e : RenderError) :
    Refines (σ := σ) W True (fun is => At W (g.set r (attemptHand x b l a is)))
      (emitError r e) fun id js => js = [.error id e] := by
  refine fun is => Triple.of_run fun h id h' hrun => ?_
  rw [emitError, run_bind, run_modifyRequest, Option.bind_some, run_bind] at hrun
  cases hq : h.requests[r.index]? with
  | none =>
    have hmissing := requests_update_missing hq
      (fun req => { req with pending := req.pending + 1 })
    simp [allocate, run_bind, run_request_missing hmissing] at hrun
  | some q =>
    have h₁ := requests_update_self hq fun req => { req with pending := req.pending + 1 }
    have h₂ := requests_update_self h₁ fun req => { req with nextId := req.nextId.next }
    rw [run_allocate h₁, Option.bind_some, completeError, run_bind, run_bind, run_modifyRequest,
      Option.bind_some, run_record, Option.bind_some, run_pure] at hrun
    cases hrun
    refine ⟨rfl, fun ha => ⟨_, rfl, ha.2.turn (.working ?_) fun r' hr => ?_⟩⟩
    · rw [view_tell_self rfl, view_update_self (by exact h₂), view_tell_self rfl,
        view_update_self h₁, view_update_self hq]
      exact Working.report (v := h.view r) (g := attemptHand x b l a is) e rfl rfl hv hq
    · rw [view_tell_ne rfl hr, view_update_ne hr, view_tell_ne rfl hr, view_update_ne hr,
        view_update_ne hr]

theorem metadata_refines (huser : user.KeepsTo W) (hcall : Answers W call)
    (m : ModuleReference) :
    Refines W True (fun is => At W (g.set r (attemptHand x b l a is)))
      (metadata user call r m) (Writing.silent (W.metadata b.modules m)) := by
  refine .silent fun is => Triple.request.bind fun q => ?_
  have hsource : ∀ h, At (σ := σ) W (g.set r (attemptHand x b l a is)) h ∧
      h.requests[r.index]? = some q → q.settings.modules = b.modules := by
    rintro h ⟨ha, hq⟩
    have hfits := (ha r).coherent.fits_top
      (b := { b with attempt := some { a with issues := is } }) (l := l)
      (by simp [attemptHand]) hq
    exact hfits.modules.symm
  cases hm : q.settings.modules with
  | manifest manifest =>
    refine Triple.pure fun h hP => ⟨hP.1, ?_⟩
    rw [← hsource h hP, hm]
    exact huser.manifest manifest m
  | user code =>
    refine Triple.assuming (script_grows hcall.grows _) hsource fun hb => ?_
    rw [← hb, hm]
    exact (script_at hcall (fun _ => inPass_attempt) (huser.source code m)).pre fun h hP => hP.1

theorem warn_refines (text : String) :
    Refines (σ := σ) W True (fun is => At W (g.set r (attemptHand x b l a is)))
      (warn r text) (Writing.silent fun _ => True) := by
  refine .silent fun is => Triple.request.bind fun q => ?_
  cases q.settings.reportsWarnings with
  | false => exact Triple.pure fun h hP => ⟨hP.1, trivial⟩
  | true =>
    exact (recordAside_at (e := .warning r text) trivial rfl).conseq (fun h hP => hP.1)
      fun _ h ha => ⟨ha, trivial⟩

theorem context_refines (huser : user.KeepsTo W) (hcall : Answers W call) (hv : a.value.isSome)
    (strict : Bool) :
    Serializer.ContextRefines W (fun is => At W (g.set r (attemptHand x b l a is))) b.modules
      strict (context user call r strict) where
  suspend query _ ht := suspend_refines huser hcall hv query ht
  suspend_grows := suspend_grows hcall
  emitError := emitError_refines hv
  metadata := metadata_refines huser hcall
  warn := warn_refines
  strict := rfl

end Host
end TreeStream

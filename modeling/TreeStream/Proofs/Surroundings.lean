import TreeStream.Proofs.Steps

/-!
# Actions around the work

Records, promises, pings, calls and queues: each action here is one turn of the requests it
concerns, and a script is as many turns as its calls are.
-/

namespace TreeStream
namespace Host

variable {κ σ α : Type} {W : World κ} {g : Hands κ} {r : RequestId} {x : Hand κ}

/-! ## What no request sees -/

theorem note_at (line : String) :
    Triple (σ := σ) W (At W g) (record (.note line)) fun _ => At W g :=
  Triple.record fun _ ha => ha.same fun _ => view_note line

theorem setUser_at (s : σ) :
    Triple W (At W g) (modify fun h : Host κ σ => { h with user := s }) fun _ => At W g :=
  Triple.update (fun _ => rfl) fun _ ha => ha.same fun _ => rfl

theorem enqueueTask_at {task : Task κ} (ht : ∀ r, task.isPassOf r = false) :
    Triple W (At W g) (modify fun h : Host κ σ => { h with tasks := h.tasks ++ [task] })
      fun _ => At W g :=
  Triple.update (fun _ => rfl) fun _ ha => ha.same fun _ => by simp [view, ht]

theorem enqueueUser_at (code : Code κ) :
    Triple W (At W g)
      (modify fun h : Host κ σ =>
        { h with queue := h.queue ++ [.user code], scheduled := h.scheduled + 1 })
      fun _ => At W g :=
  Triple.update (fun _ => rfl) fun _ ha => ha.same fun _ => by simp [view, Work.isPassOf]

/-! ## What one request sees -/

theorem recordAside_at {e : Event} (he : e.IsAside) (hr : e.request? = some r) :
    Triple (σ := σ) W (At W g) (record e) fun _ => At W g := by
  refine Triple.record fun h ha => ?_
  refine ha.keep (r := r) (.ambient ?_) fun r' hne => view_tell_ne hr hne
  rw [view_tell_self hr]
  exact .say e he

/-- Changes of the sink, the stored error and the hold on the handle. -/
theorem adjust_at {f : Request κ → Request κ}
    (hf : ∀ q, ∃ sink fatal held, (held = true → q.held = true) ∧
      f q = { q with settings := { q.settings with sink := sink }, fatal := fatal, held := held }) :
    Triple (σ := σ) W (At W g) (modifyRequest r f) fun _ => At W g := by
  refine Triple.modifyRequest fun h ha => ?_
  cases hq : h.requests[r.index]? with
  | none => exact ha.same fun _ => view_update_missing hq f
  | some q =>
    obtain ⟨sink, fatal, held, hheld, hfq⟩ := hf q
    refine ha.keep (r := r) (.ambient ?_) fun r' hr => view_update_ne hr f
    rw [view_update_self hq, hfq]
    exact .adjust hq sink fatal held hheld

/-! ## Promises -/

theorem view_promises (h : Host κ σ) (promises : Array (PromiseCell κ)) (r : RequestId) :
    { h with promises := promises }.view r = { h.view r with promises := promises } := rfl

theorem newPromise_at (ho : W.Opens) :
    Triple (σ := σ) W (At W g) newPromise fun _ => At W g := by
  intro h p h' hrun
  cases hrun
  refine ⟨fun q o hq => ?_, fun _ ha r => (ha r).turn (.ambient (.newPromise ho))⟩
  obtain ⟨cell, hcell, hout⟩ := Option.bind_eq_some_iff.mp hq
  obtain ⟨hi, -⟩ := Array.getElem?_eq_some_iff.mp hcell
  have hpush : (h.promises.push {})[q.index]? = some cell := by
    rw [Array.getElem?_push, if_neg (by omega)]
    exact hcell
  simpa [outcomeOf, hpush] using hout

theorem later_of_modify {h h' : Host κ σ} {p : PromiseId} (f : PromiseCell κ → PromiseCell κ)
    (hf : ∀ cell, h.promises[p.index]? = some cell → ∀ outcome, cell.status = .settled outcome →
      (f cell).status = .settled outcome)
    (hh : h'.promises = h.promises.modify p.index f) : h.Later h' := by
  intro q o hq
  obtain ⟨cell, hcell, hout⟩ := Option.bind_eq_some_iff.mp hq
  rw [outcomeOf, hh, Array.getElem?_modify]
  split
  · rename_i he
    rw [← he] at hcell
    cases hs : cell.status with
    | pending => simp [hs, PromiseStatus.outcome?] at hout
    | settled outcome =>
      rw [hs] at hout
      rw [← he, hcell, Option.map_some, Option.bind_some, hf cell hcell outcome hs]
      exact hout
  · exact hq

theorem settleCell_at (p : PromiseId) (outcome : Outcome κ) :
    Triple (σ := σ) W (At W g) (settleCell p outcome) fun reactions =>
      At W (g.owe (reactions.map fun reaction => Reaction.pick reaction outcome)) := by
  intro h reactions h' hrun
  obtain ⟨⟨cell, h₁⟩, hcell, hrest⟩ := Option.bind_eq_some_iff.mp hrun
  obtain ⟨hp, rfl⟩ := promise_of_run hcell
  cases hs : cell.status with
  | settled o =>
    simp only [hs, run_pure] at hrest
    cases hrest
    exact ⟨.rfl, fun _ ha => ha⟩
  | pending =>
    simp only [hs, run_bind, modifyPromise, run_modify, Option.bind_some, run_pure] at hrest
    cases hrest
    refine ⟨later_of_modify (fun _ => { status := .settled outcome, reactions := [] }) ?_ rfl,
      fun _ ha r => (ha r).turn (.ambient (.settle outcome hp hs))⟩
    intro cell' hp' o ho
    cases hp.symm.trans hp'
    exact nomatch hs.symm.trans ho

theorem Callback.ping?_of_isUser {f : Callback κ} (hf : f.IsUser) (r : RequestId) :
    f.ping? r = none := by
  cases f with
  | ping r' s => exact hf.elim
  | user code => rfl

theorem Callback.eq_ping_of_ping? {f : Callback κ} {s : SegmentId} (hf : f.ping? r = some s) :
    f = .ping r s := by
  cases f with
  | user code => cases hf
  | ping r' s' =>
    simp only [Callback.ping?] at hf
    split at hf
    · rename_i hr
      cases hf
      rw [hr]
    · cases hf

theorem owe_of_foreign {f : Callback κ} (hf : f.ping? r = none) : g.owe [f] r = g r := by
  simp [Hands.owe, hf]

/-- A promise that is pending takes a reaction, which settles what was owed for it. Unless scripts
name pings, the two callbacks are the user's or the ping of one segment. -/
theorem register_at {p : PromiseId} {f f' : Callback κ}
    (hf : W.Free ∨ (f.IsUser ∧ f'.IsUser) ∨ f = f') :
    Triple (σ := σ) W
      (fun h => At W (g.owe [f]) h ∧
        ∃ cell, h.promises[p.index]? = some cell ∧ cell.status = .pending)
      (modifyPromise p fun cell => { cell with reactions := cell.reactions ++ [⟨f, f'⟩] })
      fun _ => At W g := by
  intro h a h' hrun
  cases hrun
  refine ⟨later_of_modify
    (fun cell => { cell with reactions := cell.reactions ++ [⟨f, f'⟩] }) (fun _ _ _ hs => hs) rfl, ?_⟩
  rintro - ⟨ha, cell, hp, hs⟩ r
  rw [view_promises]
  rcases hf with hfree | ⟨hu, hu'⟩ | rfl
  · exact ((ha r).turn (.ambient (.stray hfree (g r).pings))).turn
      (.ambient (.subscribe hp hs (.inl hfree)))
  · have hnone := Callback.ping?_of_isUser hu r
    have hr := owe_of_foreign hnone ▸ ha r
    exact hr.turn (.ambient (.subscribe hp hs (.inr ⟨hnone, Callback.ping?_of_isUser hu' r⟩)))
  cases hc : f.ping? r with
  | none =>
    have hr := owe_of_foreign hc ▸ ha r
    exact hr.turn (.ambient (.subscribe hp hs (.inr ⟨hc, hc⟩)))
  | some s =>
    cases Callback.eq_ping_of_ping? hc
    have hr := ha r
    rw [Hands.owe_ping, Hands.set_self] at hr
    have := hr.turn (.ambient (.register hp hs List.mem_cons_self))
    rwa [List.erase_cons_head] at this

/-! ## Pings -/

theorem At.pay {h h' : Host κ σ} (ha : At W (g.set r x) h)
    (ht : Turn W r x (h.view r) (g r) (h'.view r)) (hf : ∀ r' ≠ r, h'.view r' = h.view r') :
    At W g h' := by
  have := ha.turn ht hf
  rwa [Hands.set_eq_self] at this

theorem ping_at (s : SegmentId) :
    Triple (σ := σ) W (At W (g.owe [.ping r s])) (ping r s) fun _ => At W g := by
  refine Triple.of_run fun h a h' hrun => ?_
  rw [Hands.owe_ping]
  obtain ⟨x, hx⟩ : ∃ x : Hand κ, { g r with pings := s :: (g r).pings } = x := ⟨_, rfl⟩
  have hmem : s ∈ x.pings := by simp [← hx]
  have herase : { x with pings := x.pings.erase s } = g r := by simp [← hx]
  rw [hx]
  simp only [ping, run_bind, run_get, Option.bind_some] at hrun
  cases halive : h.isAlive r with
  | false =>
    have hdead : ¬ (h.view r).Alive := fun hl => by
      simp [(isAlive_iff h r).mpr hl] at halive
    simp only [halive, Bool.false_eq_true, if_false, run_pure] at hrun
    cases hrun
    exact ⟨rfl, fun ha => ha.pay (.visit (herase ▸ .lostPing hdead hmem)) fun _ _ => rfl⟩
  | true =>
    have hlive := (isAlive_iff h r).mp halive
    obtain ⟨q, hq, -⟩ := id hlive
    rw [request_view] at hq
    have hq' : ((h.tell (.pinged r s)).update r fun req =>
        { req with pinged := req.pinged ++ [s] }).requests[r.index]? =
          some { q with pinged := q.pinged ++ [s] } := requests_update_self hq _
    have hv : ((h.tell (.pinged r s)).update r fun req =>
        { req with pinged := req.pinged ++ [s] }).view r =
          { h.view r with
            request := some { q with pinged := q.pinged ++ [s] }
            log := .pinged r s :: (h.view r).log } := by
      rw [view_update_self (by exact hq), view_tell_self rfl]
    have hf : ∀ r' ≠ r, ((h.tell (.pinged r s)).update r fun req =>
        { req with pinged := req.pinged ++ [s] }).view r' = h.view r' := by
      intro r' hr
      rw [view_update_ne hr, view_tell_ne rfl hr]
    simp only [halive, if_true, run_bind, run_record, run_modifyRequest, Option.bind_some,
      run_request hq'] at hrun
    by_cases hnil : q.pinged = []
    · rw [if_pos (by simp [hnil]), run_schedulePass hq'] at hrun
      cases hrun
      refine ⟨by simp, fun ha => ha.pay (.visit ?_) fun r' hr => ?_⟩
      · rw [view_enqueue_self, view_tell_self rfl, hv, hnil]
        exact herase ▸ .firstPing hq hlive hmem hnil
      · rw [view_enqueue_ne hr, view_tell_ne rfl hr, hf r' hr]
    · rw [if_neg (by simpa using hnil)] at hrun
      cases hrun
      refine ⟨by simp, fun ha => ha.pay (.visit ?_) hf⟩
      rw [hv]
      exact herase ▸ .ping hq hlive hmem hnil

/-! ## Calls and queues -/

theorem leave_at :
    Triple (σ := σ) W (At W (g.set r { x with fresh := x.fresh + 1 }))
      (modifyRequest r fun req => { req with running := req.running - 1 })
      fun _ => At W (g.set r x) := by
  refine Triple.modifyRequest fun h ha => ?_
  obtain ⟨q, hq⟩ := ha.exists_of_busy (.inl (Nat.succ_pos _))
  exact ha.update hq (.visit (.leave hq (Nat.succ_pos _)))

/-- An action on a request that counts as a call on it, once the call has been counted. -/
theorem running_at {P : Host κ σ → Prop} {action : HostM κ σ α}
    (henter : Triple W P (modifyRequest r fun req => { req with running := req.running + 1 })
      fun _ => At W (g.set r { x with fresh := x.fresh + 1 }))
    (hact : Triple W (At W (g.set r { x with fresh := x.fresh + 1 })) action fun _ =>
      At W (g.set r { x with fresh := x.fresh + 1 })) :
    Triple W P (running r action) fun _ => At W (g.set r x) :=
  henter.bind fun _ => hact.bind fun _ => leave_at.bind fun _ => Triple.pure fun _ ha => ha

theorem enter_at :
    Triple (σ := σ) W
      (fun h => At W (g.set r x) h ∧ ∃ q, h.requests[r.index]? = some q ∧ q.held = true)
      (modifyRequest r fun req => { req with running := req.running + 1 })
      fun _ => At W (g.set r { x with fresh := x.fresh + 1 }) := by
  refine Triple.modifyRequest fun h hP => ?_
  obtain ⟨ha, q, hq, hheld⟩ := hP
  exact ha.update hq (.visit (.enter hq hheld))

theorem start_at (hx : 0 < x.fresh) :
    Triple (σ := σ) W (At W (g.set r x))
      (do
        modifyRequest r fun req => { req with flowing := true }
        record (.started r)
        schedulePass r)
      fun _ => At W (g.set r x) := by
  refine Triple.of_run fun h a h' hrun => ?_
  rw [run_bind, run_modifyRequest, Option.bind_some, run_bind, run_record, Option.bind_some] at hrun
  cases hq : h.requests[r.index]? with
  | none =>
    have hq' : ((h.update r fun req => { req with flowing := true }).tell (.started r)
        |>.tell (.scheduled r)).requests[r.index]? = none := requests_update_missing hq _
    simp [schedulePass, run_bind, run_record, run_request_missing hq'] at hrun
  | some q =>
    have hq' : ((h.update r fun req => { req with flowing := true }).tell
        (.started r)).requests[r.index]? = some { q with flowing := true } :=
      requests_update_self hq _
    rw [run_schedulePass hq'] at hrun
    cases hrun
    refine ⟨by simp, fun ha => ha.turn (.visit ?_) fun r' hr => ?_⟩
    · rw [view_enqueue_self, view_tell_self rfl, view_tell_self rfl, view_update_self hq]
      exact .start hq hx
    · rw [view_enqueue_ne hr, view_tell_ne rfl hr, view_tell_ne rfl hr, view_update_ne hr]

/-- A pass of the request has just left its queue. -/
def Popped (W : World κ) (g : Hands κ) (r : RequestId) (h : Host κ σ) : Prop :=
  ∃ h₀ : Host κ σ, At W g h₀ ∧ 0 < (h₀.view r).passes ∧
    h.view r = { h₀.view r with passes := (h₀.view r).passes - 1 } ∧
    ∀ r' ≠ r, h.view r' = h₀.view r'

theorem takeWork_at :
    Triple (σ := σ) W (At W g) takeWork fun work h =>
      match work with
      | some (.pass r) => Popped W g r h
      | _ => At W g h := by
  refine Triple.of_run fun h a h' hrun => ?_
  simp only [takeWork, run_bind, run_get, Option.bind_some] at hrun
  cases hqueue : h.queue with
  | nil =>
    simp only [hqueue, run_pure] at hrun
    cases hrun
    exact ⟨rfl, fun ha => ha⟩
  | cons work rest =>
    simp only [hqueue, run_bind, run_modify, Option.bind_some, run_pure] at hrun
    cases hrun
    refine ⟨rfl, fun ha => ?_⟩
    cases work with
    | user code => exact ha.same fun r => by simp [view, hqueue, Work.isPassOf]
    | pass r =>
      refine ⟨h, ha, ?_, ?_, fun r' hr => ?_⟩
      · simp only [view, hqueue, List.countP_cons, Work.isPassOf, decide_true, if_true]
        omega
      · simp only [view, hqueue, List.countP_cons, Work.isPassOf, decide_true, if_true]
        congr 1
        omega
      · have hne : ¬ r = r' := fun he => hr he.symm
        simp [view, hqueue, Work.isPassOf, hne]

/-- A queued pass is counted as a call as soon as it is taken from its queue. -/
theorem pop_at {q : Request κ} {h : Host κ σ} (hp : Popped W (g.set r x) r h)
    (hq : h.requests[r.index]? = some q) :
    At W (g.set r { x with fresh := x.fresh + 1, due := x.due + 1 })
      (h.update r fun req => { req with running := req.running + 1 }) := by
  obtain ⟨h₀, ha, hpos, hself, hne⟩ := hp
  refine ha.turn (.visit ?_) fun r' hr => (view_update_ne hr _).trans (hne r' hr)
  have hq₀ : (h₀.view r).request = some q := by
    rw [← request_view, hself] at hq
    exact hq
  rw [view_update_self hq, hself]
  exact .pop hq₀ hpos

theorem run_newRequest (settings : RequestSettings κ) (model : Model κ) (h : Host κ σ) :
    newRequest settings model h = some (⟨h.requests.size⟩,
      { h with requests := h.requests.push (.ofModel settings model) }.tell
        (.issued ⟨h.requests.size⟩ (RowId.ofNat 0))) :=
  rfl

theorem newRequest_at (settings : RequestSettings κ) (model : Model κ) :
    Triple (σ := σ) W
      (fun h => At W g h ∧ W.origin ⟨h.requests.size⟩ settings.modules model)
      (newRequest settings model) fun _ => At W g := by
  refine Triple.of_run fun h r h' hrun => ?_
  rw [run_newRequest] at hrun
  cases hrun
  refine ⟨rfl, fun ⟨ha, horigin⟩ => ha.keep (r := ⟨h.requests.size⟩) (.ambient ?_) fun r' hr => ?_⟩
  · rw [view_tell_self rfl]
    have hnone : (h.view ⟨h.requests.size⟩).request = none := by simp [view]
    have hv : { h with requests := h.requests.push (.ofModel settings model) }.view
        ⟨h.requests.size⟩ =
        { h.view ⟨h.requests.size⟩ with request := some (.ofModel settings model) } := by
      simp [view]
    rw [hv]
    exact .create settings model hnone horigin
  · have hi : r'.index ≠ h.requests.size := fun he => hr (by cases r'; cases he; rfl)
    rw [view_tell_ne rfl hr]
    simp [view, Array.getElem?_push, hi]

/-! ## Scripts -/

def Hands.InPass (g : Hands κ) : Prop := ∃ r, (g r).passes ≠ []

/-- What the world knows of the host's answers: each call pays what is owed for it, and its answer
is a possible one. -/
structure Answers (W : World κ) (call : (c : HostCall κ) → HostM κ σ c.Reply) : Prop where
  grows : ∀ c, Grows (call c)
  pays : ∀ c, W.Handles c → ∀ g : Hands κ, Triple W (At W (g.owe c.debt)) (call c) fun a h =>
    At W g h ∧ W.Possible (Hands.InPass g) c a

/-- Scripts owe nothing for their calls: they name no pings, or may name any. -/
theorem At.owe_of_may {c : HostCall κ} (hc : W.may c) {h : Host κ σ} (ha : At W g h) :
    At W (g.owe c.debt) h := by
  intro r
  by_cases hp : c.Plain
  · have hnone : (g.owe c.debt) r = g r := by
      cases c with
      | subscribe p f f' => exact owe_of_foreign (Callback.ping?_of_isUser hp.1 r)
      | invoke f => exact owe_of_foreign (Callback.ping?_of_isUser hp r)
      | _ => rfl
    rw [hnone]
    exact ha r
  · exact (ha r).turn (.ambient (.stray ⟨c, hc, hp⟩ _))

theorem Grows.pure (a : α) : Grows (Pure.pure a : HostM κ σ α) := by
  intro h b h' hm
  cases hm
  exact .rfl

theorem Grows.modify {f : Host κ σ → Host κ σ} (hf : ∀ h, (f h).promises = h.promises) :
    Grows (modify f : HostM κ σ Unit) := by
  intro h b h' hm
  cases hm
  exact .of_promises_eq (hf h)

theorem Grows.bind {β : Type} {m : HostM κ σ α} {k : α → HostM κ σ β} (hm : Grows m)
    (hk : ∀ a, Grows (k a)) : Grows (m >>= k) := by
  intro h b h'' hrun
  obtain ⟨⟨a, h'⟩, hfirst, hrest⟩ := Option.bind_eq_some_iff.mp hrun
  exact (hm hfirst).trans (hk a hrest)

variable {call : (c : HostCall κ) → HostM κ σ c.Reply}

theorem script_grows (hcall : ∀ c, Grows (call c)) (script : Script κ σ α) :
    Grows (script.run call) := by
  induction script with
  | done a => exact Grows.pure a
  | get next ih => exact Grows.bind (fun _ _ _ hm => by cases hm; exact .rfl) fun h => ih _
  | put s next ih => exact Grows.bind (Grows.modify fun _ => rfl) fun _ => ih
  | call c next ih => exact Grows.bind (hcall c) ih

theorem script_at (hcall : Answers W call) {inPass : Prop} (hin : inPass → Hands.InPass g)
    {ends : α → Prop} {script : Script κ σ α} (ht : W.Tells inPass ends script) :
    Triple W (At W g) (script.run call) fun a h => At W g h ∧ ends a := by
  induction script with
  | done a => exact Triple.pure fun h ha => ⟨ha, ht⟩
  | get next ih =>
    exact Triple.bind (Q := fun _ => At W g) (Triple.get fun h ha => ha) fun h => ih _ (ht _)
  | put s next ih => exact (setUser_at s).bind fun _ => ih ht
  | call c next ih =>
    have hone : Triple W (At W g) (call c) fun a h => At W g h ∧ W.Possible inPass c a :=
      (hcall.pays c (W.handles_of_may ht.1) g).conseq (fun h ha => ha.owe_of_may ht.1)
        fun a h ha => ⟨ha.1, W.possible_imp hin ha.2⟩
    refine hone.bind fun a => ?_
    refine Triple.assuming (script_grows hcall.grows (next a)) (fun h hP => hP.2) fun ha => ?_
    exact (ih a (ht.2 a ha)).pre fun h hP => hP.1

end Host
end TreeStream

import TreeStream.Proofs.Frames

/-!
# What happens meanwhile

The journal only grows, so what an action tells is what its journal has more. Two forms of relation
between the hosts before and after an action recur: one that need hold only until certain events are
told, and one that keeps part of a request as it is for as long as it is in a certain state, with
certain events not told.
-/

namespace TreeStream

variable {κ σ α : Type}

namespace Host

variable {user : UserCode κ σ} {call : (c : HostCall κ) → HostM κ σ c.Reply} {r : RequestId}
  {h h' h₁ : Host κ σ} {n : Nat}

def Extends (h h' : Host κ σ) : Prop := h.journal <:+ h'.journal

theorem Extends.tell (h : Host κ σ) (e : Event) : h.Extends (h.tell e) := List.suffix_cons e _

theorem surrounds_extends (r : RequestId) : Surrounds r (Extends (κ := κ) (σ := σ)) where
  refl _ := List.suffix_rfl
  trans := List.IsSuffix.trans
  same _ hj := ⟨[], hj.symm⟩
  tell h e _ := .tell h e
  adjust _ _ _ := List.suffix_rfl

theorem frames_extends (user : UserCode κ σ) (r : RequestId) : Frames user r Extends :=
  .of_changes (surrounds_extends r) (fun _ _ => List.suffix_rfl) Extends.tell

theorem respectsWork_extends (r : RequestId) : RespectsWork (Extends (κ := κ) (σ := σ)) r :=
  ⟨fun _ _ _ => List.suffix_rfl, fun h _ _ _ => .tell h _⟩

theorem respectsFlush_extends (r : RequestId) : RespectsFlush (Extends (κ := κ) (σ := σ)) r :=
  ⟨fun _ _ _ => List.suffix_rfl, fun h _ _ => .tell h _, fun h _ _ => .tell h _⟩

/-- A call of the destination is told before, and its answer after; what is done in between respects
what all calls respect. -/
theorem callDestination_of_run {R : Host κ σ → Host κ σ → Prop} (F : Frames user r R)
    {c : SinkCall} {answer : Except RenderError Bool}
    (hrun : callDestination user (perform user n) r c h = some (answer, h')) :
    ∃ q h₁, h.requests[r.index]? = some q ∧ R (h.tell (.calling r c q.pending)) h₁ ∧
      (h.tell (.calling r c q.pending)).Extends h₁ ∧ h' = h₁.tell (.called r c answer) := by
  have F' : Frames user r Extends := frames_extends user r
  obtain ⟨⟨q, h₀⟩, hreq, hrest⟩ := Option.bind_eq_some_iff.mp hrun
  obtain ⟨hq, rfl⟩ := request_of_run hreq
  obtain ⟨⟨v, h₁⟩, hverdict, hrest⟩ := Option.bind_eq_some_iff.mp hrest
  have hdecided := F.verdict (F.perform n) c hverdict
  have hdecided' := F'.verdict (F'.perform n) c hverdict
  cases v with
  | fail e =>
    cases hrest
    exact ⟨q, h₁, hq, hdecided, hdecided', rfl⟩
  | pass =>
    obtain ⟨⟨a, h₂⟩, hsink, hend⟩ := Option.bind_eq_some_iff.mp hrest
    cases hend
    exact ⟨q, h₂, hq, F.trans hdecided (F.callSink c hsink),
      F'.trans hdecided' (F'.callSink c hsink), rfl⟩
  | answer welcome =>
    obtain ⟨⟨a, h₂⟩, hsink, hend⟩ := Option.bind_eq_some_iff.mp hrest
    refine ⟨q, h₂, hq, F.trans hdecided (F.callSink c hsink),
      F'.trans hdecided' (F'.callSink c hsink), ?_⟩
    cases a <;> cases hend <;> rfl

theorem running_of_run {α : Type} {m : HostM κ σ α} {a : α}
    (hrun : Host.running r m h = some (a, h')) :
    ∃ h₁, m (h.update r fun req => { req with running := req.running + 1 }) = some (a, h₁) ∧
      h' = h₁.update r fun req => { req with running := req.running - 1 } := by
  rw [Host.running, run_bind, run_modifyRequest, Option.bind_some, run_bind] at hrun
  obtain ⟨⟨b, h₁⟩, hm, hend⟩ := Option.bind_eq_some_iff.mp hrun
  cases hend
  exact ⟨h₁, hm, rfl⟩

/-- A pass tells that it begins, and then does the rest while hooks may be called. -/
theorem run_pass {q : Request κ} (hq : h.requests[r.index]? = some q) :
    pass user call r n h = ((do
        let batch ← takePinged r
        batch.forM fun s => retry user call r s n
        if (← request r).flowing then flush user call r n else pure (.ok ()) :
          HostM κ σ (Except RenderError Unit))
      ({ h with inPass := true }.tell (.began r (1 < q.running)))).map
        fun p => (p.1, { p.2 with inPass := h.inPass }) := by
  have hq' : { h with inPass := true }.requests[r.index]? = some q := hq
  simp only [pass, tryPinged, run_bind, run_get, Option.bind_some, run_modify, run_request hq',
    run_record, run_pure]
  exact (Option.map_eq_bind (f := _)).symm

theorem pass_of_run {result : Except RenderError Unit}
    (hrun : pass user call r n h = some (result, h')) :
    ∃ q h₁, h.requests[r.index]? = some q ∧
      (do
        let batch ← takePinged r
        batch.forM fun s => retry user call r s n
        if (← request r).flowing then flush user call r n else pure (.ok ()) : HostM κ σ _)
          ({ h with inPass := true }.tell (.began r (1 < q.running))) = some (result, h₁) ∧
      h' = { h₁ with inPass := h.inPass } := by
  cases hq : h.requests[r.index]? with
  | none =>
    have hmissing : { h with inPass := true }.requests[r.index]? = none := hq
    simp only [pass, tryPinged, run_bind, run_get, Option.bind_some, run_modify,
      run_request_missing hmissing] at hrun
    cases hrun
  | some q =>
    rw [run_pass hq] at hrun
    obtain ⟨⟨result', h₁⟩, htry, hend⟩ := Option.map_eq_some_iff.mp hrun
    cases hend
    exact ⟨q, h₁, rfl, htry, rfl⟩

/-- A pass tells nothing before it tells that it begins. -/
theorem began_of_pass {result : Except RenderError Unit}
    (hrun : pass user (perform user n) r n h = some (result, h')) :
    ∃ q, h.requests[r.index]? = some q ∧ (h.tell (.began r (1 < q.running))).Extends h' := by
  obtain ⟨q, h₁, hq, htry, rfl⟩ := pass_of_run hrun
  have F : Frames user r (Extends (κ := κ) (σ := σ)) := frames_extends user r
  have htried : ({ h with inPass := true }.tell (.began r (1 < q.running))).Extends h₁ :=
    F.tryBatch (F.takePinged (respectsWork_extends r).steps)
      (fun s => F.retry (F.perform n) (respectsWork_extends r) s n)
      (F.flushFlowing (F.perform n) (respectsFlush_extends r) n) htry
  exact ⟨q, hq, htried⟩

/-! ## Until something begins -/

/-- The second host is related to the first one, unless one of these events was told meanwhile. -/
def Unless (breaks : Event → Prop) (R : Host κ σ → Host κ σ → Prop) (h h' : Host κ σ) : Prop :=
  ∃ events, h'.journal = events ++ h.journal ∧ ((∀ e ∈ events, ¬ breaks e) → R h h')

namespace Unless

variable {breaks : Event → Prop} {R : Host κ σ → Host κ σ → Prop}

theorem grows (hu : h.Unless breaks R h') : h.Extends h' := by
  obtain ⟨events, hj, -⟩ := hu
  exact ⟨events, hj.symm⟩

theorem holds (hu : h.Unless breaks R h') {events : List Event}
    (hj : h'.journal = events ++ h.journal) (hb : ∀ e ∈ events, ¬ breaks e) : R h h' := by
  obtain ⟨events', hj', hR⟩ := hu
  rw [List.append_cancel_right (hj.symm.trans hj')] at hb
  exact hR hb

theorem of_silent (hj : h'.journal = h.journal) (hR : R h h') : h.Unless breaks R h' :=
  ⟨[], hj, fun _ => hR⟩

theorem of_broken {e : Event} (he : breaks e) (hbefore : h.Extends h₁)
    (hafter : (h₁.tell e).Extends h') : h.Unless breaks R h' := by
  obtain ⟨before, hbefore⟩ := hbefore
  obtain ⟨after, hafter⟩ := hafter
  refine ⟨after ++ e :: before, ?_, fun hb => absurd he (hb e (by simp))⟩
  rw [← hafter, tell, ← hbefore]
  simp

theorem surrounds (F : Surrounds r R) : Surrounds r (Unless breaks R) where
  refl h := of_silent rfl (F.refl h)
  trans := by
    rintro h₁ h₂ h₃ ⟨es, hj, hR⟩ ⟨es', hj', hR'⟩
    refine ⟨es' ++ es, by rw [hj', hj, List.append_assoc], fun hb => ?_⟩
    exact F.trans (hR fun e he => hb e (List.mem_append_right _ he))
      (hR' fun e he => hb e (List.mem_append_left _ he))
  same hq hj := of_silent hj (F.same hq hj)
  tell h e he := ⟨[e], rfl, fun _ => F.tell h he⟩
  adjust h _ hf := of_silent rfl (F.adjust h hf)

theorem start (hstarted : breaks (.started r)) : Respects (Unless breaks R) (do
    modifyRequest r fun req => { req with flowing := true }
    record (.started r)
    schedulePass r : HostM κ σ Unit) := by
  intro h a h' hrun
  have hrest : schedulePass r ((h.update r fun req => { req with flowing := true }).tell
      (.started r)) = some (a, h') := hrun
  have hafter : ((h.update r fun req => { req with flowing := true }).tell
      (.started r)).Extends h' := (surrounds_extends r).schedulePass hrest
  exact of_broken hstarted List.suffix_rfl hafter

theorem flow (user : UserCode κ σ) (hflowed : ∀ nested, breaks (.flowed r nested)) (n : Nat) :
    Respects (Unless breaks R) (do
      record (.flowed r (← request r).flushing)
      modifyRequest r fun req => { req with flowing := true }
      flush user (perform user n) r n) := by
  intro h a h' hrun
  have F : Frames user r Extends := frames_extends user r
  obtain ⟨⟨q, h₁⟩, hreq, hrest⟩ := Option.bind_eq_some_iff.mp hrun
  obtain ⟨hq, rfl⟩ := request_of_run hreq
  have hextends := F.flush (F.perform n) (respectsFlush_extends r) n hrest
  have hafter : (h₁.tell (.flowed r q.flushing)).Extends h' := hextends
  exact of_broken (hflowed q.flushing) List.suffix_rfl hafter

/-- Where a pass breaks the relation, it need not be looked into. -/
theorem frames (F : Surrounds r R) (hbegan : ∀ nested, breaks (.began r nested))
    (hstarted : breaks (.started r)) (hflowed : ∀ nested, breaks (.flowed r nested))
    (mark : ∀ h (f : Nat → Nat),
      R h (h.update r fun req => { req with running := f req.running })) :
    Frames user r (Unless breaks R) := by
  have F' : Surrounds r (Unless breaks R) := surrounds F
  have hvisit : ∀ {α : Type} {m : HostM κ σ α}, Respects (Unless breaks R) m →
      Respects (Unless breaks R) (running r m) :=
    F'.running fun h f => of_silent rfl (mark h f)
  refine
    { F' with
      visit := hvisit
      start := start hstarted
      flow := fun n _ => hvisit (flow user hflowed n)
      pass := fun n α k _ hk => hvisit ?_ }
  intro h a h' hrun
  obtain ⟨⟨result, h₁⟩, hpass, hend⟩ := Option.bind_eq_some_iff.mp hrun
  obtain ⟨q, -, hbegun⟩ := began_of_pass hpass
  have hrest : h₁.Extends h' := Unless.grows (hk result hend)
  exact of_broken (hbegan _) List.suffix_rfl (hbegun.trans hrest)

end Unless

/-! ## While a request is in some state -/

def Silent (tells : Event → Prop) (h h' : Host κ σ) : Prop :=
  ∃ events, h'.journal = events ++ h.journal ∧ ∀ e ∈ events, ¬ tells e

theorem Silent.of_eq {tells : Event → Prop} (hj : h'.journal = h.journal) : Silent tells h h' :=
  ⟨[], hj, nofun⟩

theorem Silent.tell {tells : Event → Prop} {e : Event} (he : ¬ tells e) :
    Silent tells h (h.tell e) :=
  ⟨[e], rfl, fun _ he' => List.mem_singleton.mp he' ▸ he⟩

theorem Silent.trans {tells : Event → Prop} (h₀₁ : Silent tells h h₁) (h₁₂ : Silent tells h₁ h') :
    Silent tells h h' := by
  obtain ⟨es, hj, hes⟩ := h₀₁
  obtain ⟨es', hj', hes'⟩ := h₁₂
  refine ⟨es' ++ es, by rw [hj', hj, List.append_assoc], fun e he => ?_⟩
  exact (List.mem_append.mp he).elim (hes' e) (hes e)

theorem Silent.split {tells : Event → Prop} {h₂ : Host κ σ} (hs : Silent tells h h₂)
    (h₀₁ : h.Extends h₁) (h₁₂ : h₁.Extends h₂) : Silent tells h h₁ ∧ Silent tells h₁ h₂ := by
  obtain ⟨events, hj, hquiet⟩ := hs
  obtain ⟨es, hes⟩ := h₀₁
  obtain ⟨es', hes'⟩ := h₁₂
  obtain rfl : events = es' ++ es := by
    rw [← hes', ← hes, ← List.append_assoc] at hj
    exact (List.append_cancel_right hj).symm
  exact ⟨⟨es, hes.symm, fun e he => hquiet e (List.mem_append_right _ he)⟩,
    ⟨es', hes'.symm, fun e he => hquiet e (List.mem_append_left _ he)⟩⟩

/-- What is kept of a request that is in some state, and what is not told about it meanwhile. -/
structure Kept (κ : Type) (r : RequestId) where
  holds : Request κ → Prop
  same : Request κ → Request κ → Prop
  tells : Event → Prop
  refl : ∀ q, same q q
  trans : ∀ {q₁ q₂ q₃}, same q₁ q₂ → same q₂ q₃ → same q₁ q₃
  stays : ∀ {q q'}, same q q' → holds q → holds q'
  background : ∀ {e}, e.IsBackground r → ¬ tells e
  adjust : ∀ {f : Request κ → Request κ}, Request.Adjusts f → ∀ q, same q (f q)

/-- If the request is in such a state, it stays so, and nothing of this is told. -/
def Keeps (K : Kept κ r) (h h' : Host κ σ) : Prop :=
  ∀ q, h.requests[r.index]? = some q → K.holds q →
    Silent K.tells h h' ∧ ∃ q', h'.requests[r.index]? = some q' ∧ K.same q q'

namespace Keeps

variable {K : Kept κ r}

theorem update {f : Request κ → Request κ} (hf : ∀ q, K.holds q → K.same q (f q)) :
    Keeps K h (h.update r f) :=
  fun q hq hheld => ⟨.of_eq rfl, f q, requests_update_self hq f, hf q hheld⟩

theorem tell {e : Event} (he : ¬ K.tells e) : Keeps K h (h.tell e) :=
  fun q hq _ => ⟨.tell he, q, hq, K.refl q⟩

theorem modify {f : Request κ → Request κ} (hf : ∀ q, K.holds q → K.same q (f q)) :
    Respects (Keeps K) (modifyRequest r f : HostM κ σ Unit) := by
  intro h a h' hrun
  cases hrun
  exact update hf

theorem record {e : Event} (he : ¬ K.tells e) :
    Respects (Keeps K) (Host.record e : HostM κ σ Unit) := by
  intro h a h' hrun
  cases hrun
  exact tell he

theorem of_not {q : Request κ} (hq : h.requests[r.index]? = some q) (hn : ¬ K.holds q) :
    Keeps K h h' := by
  intro q' hq' hheld
  cases hq.symm.trans hq'
  exact absurd hheld hn

theorem surrounds (K : Kept κ r) : Surrounds r (Keeps (σ := σ) K) where
  refl h q hq _ := ⟨.of_eq rfl, q, hq, K.refl q⟩
  trans h₁₂ h₂₃ q hq hheld := by
    obtain ⟨hsilent, q', hq', hsame⟩ := h₁₂ q hq hheld
    obtain ⟨hsilent', q'', hq'', hsame'⟩ := h₂₃ q' hq' (K.stays hsame hheld)
    exact ⟨hsilent.trans hsilent', q'', hq'', K.trans hsame hsame'⟩
  same hreq hj q hq _ := ⟨.of_eq hj, q, hreq.trans hq, K.refl q⟩
  tell h e he := tell (K.background he)
  adjust h f hf := update fun q _ => K.adjust hf q

end Keeps
end Host
end TreeStream
